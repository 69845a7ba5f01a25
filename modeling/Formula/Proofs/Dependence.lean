import Formula.Proofs.Faults
import Mathlib.Data.List.Sort
import Mathlib.Data.String.Basic

/-!
# What the value of a tree depends on

An evaluation looks up the names that `Expr.variableNames` collects, and nothing else of the
bindings counts: bindings that give these names the same doubles give the tree the same outcome
(`Expr.evaluate_congr`). If all symbols are known and every quantity that is bound has a double,
a name without value is all that can be wrong, so a tree has a value if and only if the names that
are collected are bound.
-/

namespace Formula

namespace Text

theorem pairwise_insertSorted {s : String} {ts : List String} (h : ts.Pairwise (· < ·)) :
    (insertSorted s ts).Pairwise (· < ·) := by
  induction ts with
  | nil => exact List.pairwise_singleton _ s
  | cons t ts ih =>
    obtain ⟨ht, hts⟩ := List.pairwise_cons.mp h
    unfold insertSorted
    by_cases hlt : s < t
    · rw [if_pos hlt]
      refine List.pairwise_cons.mpr ⟨fun u hu => ?_, h⟩
      rcases List.mem_cons.mp hu with rfl | hu
      · exact hlt
      · exact hlt.trans (ht u hu)
    · rw [if_neg hlt]
      by_cases heq : s = t
      · rw [if_pos heq]
        exact h
      · rw [if_neg heq]
        refine List.pairwise_cons.mpr ⟨fun u hu => ?_, ih hts⟩
        rcases mem_insertSorted.mp hu with rfl | hu
        · exact lt_of_le_of_ne (not_lt.mp hlt) (Ne.symm heq)
        · exact ht u hu

theorem pairwise_sortedDistinct (ss : List String) : (sortedDistinct ss).Pairwise (· < ·) := by
  induction ss with
  | nil => exact List.Pairwise.nil
  | cons s ss ih => exact pairwise_insertSorted ih

theorem sortedDistinct_congr {ss ts : List String} (h : ∀ s, s ∈ ss ↔ s ∈ ts) :
    sortedDistinct ss = sortedDistinct ts := by
  refine (pairwise_sortedDistinct ss).eq_of_mem_iff (pairwise_sortedDistinct ts) fun s => ?_
  rw [mem_sortedDistinct, mem_sortedDistinct, h]

end Text

namespace Bindings

variable {b : Bindings} {n : String}

theorem mem_names : n ∈ b.names ↔ (b.lookup n).isSome := by
  rw [names, Text.mem_sortedDistinct, lookup, List.lookup_isSome_iff, List.mem_map]
  constructor
  · rintro ⟨p, hp, rfl⟩
    exact ⟨p, hp, beq_self_eq_true _⟩
  · rintro ⟨p, hp, hn⟩
    exact ⟨p, hp, (eq_of_beq hn).symm⟩

/-- Every quantity that is bound has a double near it. -/
def Converts (b : Bindings) : Prop := ∀ n q, b.lookup n = some q → ∃ x, q.toFloat = .ok x

theorem Converts.fault?_eq_some (hb : b.Converts) {f : Fault} :
    b.fault? n = some f ↔ n ∉ b.names ∧ f = .unbound n := by
  rw [mem_names, fault?]
  cases hq : b.lookup n with
  | none => simp [eq_comm]
  | some q =>
    obtain ⟨x, hx⟩ := hb n q hq
    cases q with
    | float y => simp
    | int k =>
      have hfinite : (Number.ofInt k).isInf = false := by
        refine eq_false_of_ne_true fun hinf => ?_
        rw [Quantity.toFloat, if_pos hinf] at hx
        cases hx
      simp [hfinite]

end Bindings

namespace Expr

variable {b b' : Bindings} {e : Expr} {n : String}

theorem variableNames_of_isComplete (he : e.isComplete = true) :
    e.variableNames = .ok (Text.sortedDistinct e.names) := by
  rw [variableNames, clone_of_isComplete he]
  rfl

/-- Bindings that give the names of a tree the same doubles give it the same outcome. -/
theorem evaluate_congr (h : ∀ n ∈ e.names,
    (b.lookup n).map Quantity.toFloat = (b'.lookup n).map Quantity.toFloat) :
    e.evaluate b = e.evaluate b' := by
  induction e with
  | num x | hole => rfl
  | var n =>
    have hn := h n (List.mem_singleton.mpr rfl)
    have helim (b : Bindings) : (var n).evaluate b =
        ((b.lookup n).map Quantity.toFloat).elim (.error (.unbound n)) id := by
      rw [evaluate_var]
      cases b.lookup n <;> rfl
    rw [helim, helim, hn]
  | bin l s r ihl ihr =>
    have hl := ihl fun n hn => h n (List.mem_append_left _ hn)
    have hr := ihr fun n hn => h n (List.mem_append_right _ hn)
    rw [evaluate_bin, evaluate_bin, hl, hr]

theorem faults_eq_of_isComplete (he : e.isComplete = true)
    (hs : ∀ s ∈ e.symbols, (Operator.ofText? s).isSome) (b : Bindings) :
    e.faults b = e.names.filterMap b.fault? := by
  induction e with
  | num x => rfl
  | var n =>
    rw [names, faults, List.filterMap_cons]
    cases b.fault? n <;> rfl
  | hole => cases he
  | bin l s r ihl ihr =>
    obtain ⟨hl, hr⟩ := Bool.and_eq_true_iff.mp he
    rw [symbols, List.forall_mem_cons, List.forall_mem_append] at hs
    rw [names, faults, if_pos hs.1, List.nil_append, List.filterMap_append, ihl hl hs.2.1,
      ihr hr hs.2.2]

/-- The outcome for a tree is determined by what the names that are collected are bound to. If its
symbols are known, and what is bound has doubles, it has a value if and only if these names are
bound, and otherwise fails with one of them that is not. -/
theorem evaluate_variableNames (he : e.isComplete = true) :
    ∃ ns, e.variableNames = .ok ns ∧
      (∀ b b' : Bindings, (∀ n ∈ ns,
        (b.lookup n).map Quantity.toFloat = (b'.lookup n).map Quantity.toFloat) →
          e.evaluate b = e.evaluate b') ∧
      ∀ b : Bindings, (∀ s ∈ e.symbols, (Operator.ofText? s).isSome) → b.Converts →
        ((∃ x, e.evaluate b = .ok x) ↔ ns ⊆ b.names) ∧
        ∀ f, e.evaluate b = .error f → ∃ n ∈ ns, n ∉ b.names ∧ f = .unbound n := by
  refine ⟨_, variableNames_of_isComplete he, fun b b' h => ?_, fun b hs hb => ⟨?_, fun f hf => ?_⟩⟩
  · exact evaluate_congr fun n hn => h n (Text.mem_sortedDistinct.mpr hn)
  · rw [exists_evaluate_eq_ok_iff, faults_eq_of_isComplete he hs, List.filterMap_eq_nil_iff]
    constructor
    · intro hnone n hn
      by_contra hmem
      have hfault := hb.fault?_eq_some.mpr ⟨hmem, rfl⟩
      rw [hnone n (Text.mem_sortedDistinct.mp hn)] at hfault
      cases hfault
    · intro hsub n hn
      refine Option.eq_none_iff_forall_ne_some.mpr fun f hf => ?_
      exact (hb.fault?_eq_some.mp hf).1 (hsub (Text.mem_sortedDistinct.mpr hn))
  · have hmem := List.mem_of_head? (evaluate_eq_error_iff.mp hf)
    rw [faults_eq_of_isComplete he hs] at hmem
    obtain ⟨n, hn, hfault⟩ := List.mem_filterMap.mp hmem
    exact ⟨n, Text.mem_sortedDistinct.mpr hn, hb.fault?_eq_some.mp hfault⟩

theorem evaluate_variableNames_of_two :
    let e : Expr := ((var "y").join .sub (.var "x")).join .div (.var "y")
    e.isComplete = true ∧ e.variableNames = .ok ["x", "y"] ∧
    e.evaluate (.ofList [("x", .int 2), ("y", .float 1)]) =
      e.evaluate (.ofList [("z", .int (10 ^ 309)), ("y", .int 1), ("x", .float 2)]) ∧
    ¬ ∃ v, e.evaluate (Bindings.empty.bind "x" (.float 2)) = .ok v := by
  intro e
  have he : e.isComplete = true := rfl
  have hns : e.variableNames = .ok ["x", "y"] := by decide +kernel
  have hone : (Bindings.empty.bind "x" (.float 2)).Converts := by
    intro n q hq
    rw [Bindings.lookup_bind, Bindings.lookup_empty, Option.ite_none_right_eq_some] at hq
    cases hq.2
    exact ⟨2, rfl⟩
  obtain ⟨ns, hnames, hcongr, hvalue⟩ := evaluate_variableNames he
  obtain rfl := Except.ok.inj (hnames.symm.trans hns)
  refine ⟨he, hns, hcongr _ _ (by decide +kernel), fun hv => ?_⟩
  have hsub := (hvalue _ (by decide +kernel) hone).1.mp hv
  have hy : "y" ∈ (Bindings.empty.bind "x" (.float 2)).names := hsub (by decide)
  exact absurd hy (by decide +kernel)

end Expr

end Formula
