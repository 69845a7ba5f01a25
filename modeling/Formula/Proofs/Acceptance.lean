import Formula.Proofs.Agenda
import Formula.Proofs.Nesting

/-!
# Which texts are accepted

The parser asks for no more than balanced parentheses and enough operands: when the scope of an
operator ends, more operands have been read than operators have been reduced, and at the end there
is one operand more than there are operators. Both conditions are stated for tokens that follow on
any stacks, with `depth` parentheses open (`Closes`) and `n` trees on the stack (`Suffices`), and a
token carries them over to the rest.
-/

namespace Formula

/-- The tokens close the `depth` parentheses that are open and all that they open themselves. -/
def Closes (depth : Int) (ts : List Token) : Prop :=
  (∀ us, us <+: ts → 0 ≤ depth + nesting us) ∧ depth + nesting ts = 0

/-- With `n` trees on the stack every operator finds two when its scope ends, and one is left. -/
def Suffices (n : Nat) (ss : List Scope) (ts : List Token) : Prop :=
  n + ts.countP Token.isOperand = ss.length + 1 ∧
    ∀ j, j ≤ ts.length → 0 < endedBy j ss → endedBy j ss < n + (ts.take j).countP Token.isOperand

theorem closes_zero_iff (ts : List Token) : Closes 0 ts ↔ Balanced ts := by
  constructor
  · rintro ⟨hpre, htot⟩
    exact ⟨fun us hus => by simpa using hpre us hus, by simpa using htot⟩
  · rintro ⟨hpre, htot⟩
    exact ⟨fun us hus => by simpa using hpre us hus, by simpa using htot⟩

theorem Closes.nonneg {depth : Int} {ts : List Token} (h : Closes depth ts) : 0 ≤ depth := by
  simpa using h.1 [] List.nil_prefix

theorem closes_cons {depth : Int} (hd : 0 ≤ depth) (t : Token) (ts : List Token) :
    Closes depth (t :: ts) ↔ Closes (depth + nesting [t]) ts := by
  constructor
  · rintro ⟨hpre, htot⟩
    refine ⟨fun us hus => ?_, by rw [nesting_cons] at htot; omega⟩
    have := hpre (t :: us) (List.cons_prefix_cons.mpr ⟨rfl, hus⟩)
    rw [nesting_cons] at this
    omega
  · rintro ⟨hpre, htot⟩
    refine ⟨fun us hus => ?_, by rw [nesting_cons]; omega⟩
    rcases List.prefix_cons_iff.mp hus with rfl | ⟨vs, rfl, hvs⟩
    · simpa using hd
    · have := hpre vs hvs
      rw [nesting_cons]
      omega

theorem suffices_ending (n : Nat) (os : List Operator) :
    Suffices n (os.map Scope.ending).reverse [] ↔
      (os = [] ∨ os.length < n) ∧ n = os.length + 1 := by
  have hended : endedBy 0 (os.map Scope.ending).reverse = os.length := by
    simp [endedBy, Scope.ending]
  constructor
  · rintro ⟨htot, -⟩
    have : n = os.length + 1 := by simpa using htot
    exact ⟨Or.inr (by omega), this⟩
  · rintro ⟨-, rfl⟩
    refine ⟨by simp, fun j hj hpos => ?_⟩
    obtain rfl : j = 0 := by simpa using hj
    simp [hended]

theorem length_le_of_eq_nil_or_lt {os : List Operator} {n : Nat} (h : os = [] ∨ os.length < n) :
    os.length ≤ n := by
  rcases h with rfl | hlt
  · exact Nat.zero_le _
  · exact Nat.le_of_lt hlt

theorem suffices_schedule (n : Nat) (os : List Operator) (ss ss' : List Scope) (t : Token)
    (ts : List Token) :
    Suffices n (Scope.schedule os ss ss') (t :: ts) ↔
      (os = [] ∨ os.length < n) ∧
        Suffices (n - os.length + [t].countP Token.isOperand) (ss ++ ss') ts := by
  have hcount (us : List Token) : (t :: us).countP Token.isOperand =
      [t].countP Token.isOperand + us.countP Token.isOperand := by
    rw [← List.countP_append, List.singleton_append]
  constructor
  · rintro ⟨htot, hstop⟩
    have hzero := hstop 0 (Nat.zero_le _)
    rw [Scope.endedBy_zero_schedule] at hzero
    have hos : os = [] ∨ os.length < n := by
      rcases os with - | ⟨o, os⟩
      · exact Or.inl rfl
      · exact Or.inr (by simpa using hzero)
    have hle := length_le_of_eq_nil_or_lt hos
    rw [Scope.length_schedule, hcount] at htot
    refine ⟨hos, by omega, fun j hj hpos => ?_⟩
    have hsucc := hstop (j + 1) (Nat.succ_le_succ hj)
    rw [Scope.endedBy_succ_schedule, List.take_succ_cons, hcount] at hsucc
    omega
  · rintro ⟨hos, htot, hstop⟩
    have hle := length_le_of_eq_nil_or_lt hos
    refine ⟨by rw [Scope.length_schedule, hcount]; omega, fun j hj hpos => ?_⟩
    cases j with
    | zero =>
      rw [Scope.endedBy_zero_schedule] at hpos ⊢
      rcases hos with rfl | hlt
      · cases hpos
      · simpa using hlt
    | succ j =>
      have hj' := hstop j (Nat.le_of_succ_le_succ hj)
      rw [Scope.endedBy_succ_schedule] at hpos ⊢
      rw [List.take_succ_cons, hcount]
      by_cases hzero : endedBy j (ss ++ ss') = 0
      · rcases hos with rfl | hlt
        · rw [hzero] at hpos
          cases hpos
        · omega
      · have := hj' (Nat.pos_of_ne_zero hzero)
        omega

namespace Pending

variable {ps : List Pending} {t : Token}

theorem kept_eq_nil_iff : kept (fun _ => true) ps = [] ↔ ps.count .opening = 0 := by
  induction ps with
  | nil => simp
  | cons p ps ih =>
    cases p with
    | opening => simp
    | operator o => simpa [kept] using ih

theorem after?_closing_eq_none : after? ps .closing = none ↔ ps.count .opening = 0 := by
  rw [← kept_eq_nil_iff]
  induction ps with
  | nil => simp [after?]
  | cons p ps ih =>
    cases p with
    | opening => simp [after?]
    | operator o => simpa [after?, kept] using ih

theorem count_kept (due : Operator → Bool) : (kept due ps).count .opening = ps.count .opening := by
  induction ps with
  | nil => rfl
  | cons p ps ih =>
    cases p with
    | opening => rfl
    | operator o =>
      rw [kept]
      split
      · simpa using ih
      · rfl

theorem count_after? {ps' : List Pending} (h : after? ps t = some ps') :
    (ps'.count .opening : Int) = ps.count .opening + nesting [t] := by
  cases t with
  | number x | name n =>
    cases h
    simp
  | opening =>
    cases h
    simp
  | operator o =>
    cases h
    simp [count_kept]
  | closing =>
    have hc : (kept (fun _ => true) ps).count .opening = ps.count .opening := count_kept _
    simp only [after?] at h
    split at h
    · rename_i ps'' hkept
      cases h
      rw [hkept] at hc
      simp at hc ⊢
      omega
    · cases h

end Pending

namespace Stacks

open Pending

theorem length_operand? (t : Token) : t.operand?.toList.length = [t].countP Token.isOperand := by
  cases t <;> rfl

theorem exists_finish_nil {st : Stacks} :
    (∃ e, st.finish = .ok e) ↔ Closes (st.pending.count .opening) [] ∧
      Suffices st.operands.length (agenda st.pending []) [] := by
  have hcloses : Closes (st.pending.count .opening) [] ↔ kept (fun _ => true) st.pending = [] := by
    rw [kept_eq_nil_iff]
    constructor
    · rintro ⟨-, htot⟩
      simpa using htot
    · intro h
      rw [h]
      exact (closes_zero_iff []).mpr Balanced.nil
  simp only [finish_eq_ok]
  constructor
  · rintro ⟨e, hkept, hred⟩
    have hlen := length_reduceAll hred
    refine ⟨hcloses.mpr hkept, ?_⟩
    rw [agenda_nil hkept, suffices_ending]
    exact ⟨exists_reduceAll_iff.mp ⟨[e], hred⟩, by simpa [Nat.add_comm] using hlen.symm⟩
  · rintro ⟨hc, hs⟩
    have hkept := hcloses.mp hc
    rw [agenda_nil hkept, suffices_ending] at hs
    obtain ⟨es, hred⟩ := exists_reduceAll_iff.mpr hs.1
    have hlen := length_reduceAll hred
    obtain ⟨e, rfl⟩ : ∃ e, es = [e] := List.length_eq_one_iff.mp (by omega)
    exact ⟨e, hkept, hred⟩

/-- From any stacks, the tokens to come lead to a tree if and only if they close what is open and
the operands suffice. -/
theorem exists_finish_iff {st : Stacks} {ts : List Token} (ha : Ascending st.pending) :
    (∃ st' e, st.run? ts = some st' ∧ st'.finish = .ok e) ↔
      Closes (st.pending.count .opening) ts ∧
        Suffices st.operands.length (agenda st.pending ts) ts := by
  induction ts generalizing st with
  | nil => simpa [run?] using exists_finish_nil
  | cons t ts ih =>
    rw [closes_cons (Int.natCast_nonneg _)]
    cases hafter : after? st.pending t with
    | none =>
      have hstep : st.step? t = none := by
        refine Option.eq_none_iff_forall_ne_some.mpr fun st₁ hst₁ => ?_
        obtain ⟨es, -, hafter', -⟩ := step?_eq_some.mp hst₁
        rw [hafter] at hafter'
        cases hafter'
      have hneg : (st.pending.count .opening : Int) + nesting [t] < 0 := by
        cases t with
        | closing => simp [after?_closing_eq_none.mp hafter]
        | number x | name n | operator o | opening => cases hafter
      constructor
      · rintro ⟨st', e, hrun, -⟩
        simp [run?, hstep] at hrun
      · rintro ⟨hc, -⟩
        have := hc.nonneg
        omega
    | some ps' =>
      obtain ⟨ss, ss', hagenda, hagenda'⟩ := exists_schedule ha hafter ts
      have ha' := ascending_after? ha hafter
      rw [hagenda, suffices_schedule, ← hagenda', ← count_after? hafter]
      constructor
      · rintro ⟨st', e, hrun, hfin⟩
        obtain ⟨st₁, hstep, hrun⟩ := run?_cons_eq_some.mp hrun
        obtain ⟨es, hred, hpend, hops⟩ := step?_eq_some.mp hstep
        obtain rfl : ps' = st₁.pending := Option.some.inj (hafter.symm.trans hpend)
        obtain ⟨hc, hs⟩ := (ih ha').mp ⟨st', e, hrun, hfin⟩
        have hlen := length_reduceAll hred
        rw [hops, List.length_append, length_operand?] at hs
        refine ⟨hc, exists_reduceAll_iff.mp ⟨es, hred⟩, ?_⟩
        rwa [← hlen, Nat.add_sub_cancel, Nat.add_comm]
      · rintro ⟨hc, hos, hs⟩
        obtain ⟨es, hred⟩ := exists_reduceAll_iff.mpr hos
        have hlen := length_reduceAll hred
        rw [← hlen, Nat.add_sub_cancel, Nat.add_comm, ← length_operand?,
          ← List.length_append] at hs
        let st₁ : Stacks := ⟨t.operand?.toList ++ es, ps'⟩
        have ha₁ : Ascending st₁.pending := ha'
        have hstep : st.step? t = some st₁ := step?_eq_some.mpr ⟨es, hred, hafter, rfl⟩
        obtain ⟨st', e, hrun, hfin⟩ := (ih ha₁).mpr ⟨hc, hs⟩
        exact ⟨st', e, run?_cons_eq_some.mpr ⟨st₁, hstep, hrun⟩, hfin⟩

end Stacks

theorem Reading.exists_tree_iff {r : Reading} (hr : r.stray = none) :
    (∃ e, r.tree = .ok e) ↔ Balanced r.tokens ∧ Suffices 0 (scopes r.tokens) r.tokens := by
  have h : (∃ st e, Stacks.empty.run? r.tokens = some st ∧ st.finish = .ok e) ↔
      Closes 0 r.tokens ∧ Suffices 0 (scopes r.tokens) r.tokens :=
    Stacks.exists_finish_iff ascending_nil
  rw [← closes_zero_iff, ← h, exists_comm]
  simp only [tree_eq_ok, hr, true_and]

section Stops

variable {ts : List Token} {j : Nat}

theorem endedBy_zero_of_not_isStop (h : ¬ IsStop ts 0) : endedBy 0 (scopes ts) = 0 := by
  refine List.countP_eq_zero.mpr fun s hs hle => h ?_
  have hstop := isStop_of_mem_scopes hs
  rwa [Nat.le_zero.mp (of_decide_eq_true hle)] at hstop

theorem endedBy_succ_of_not_isStop (h : ¬ IsStop ts (j + 1)) :
    endedBy (j + 1) (scopes ts) = endedBy j (scopes ts) := by
  refine List.countP_congr fun s hs => ?_
  have hne : s.stop ≠ j + 1 := by
    intro heq
    exact h (heq ▸ isStop_of_mem_scopes hs)
  simp only [decide_eq_true_eq]
  omega

theorem endedBy_lt_of_stops (h : ∀ j, IsStop ts j → 0 < endedBy j (scopes ts) →
      endedBy j (scopes ts) < (ts.take j).countP Token.isOperand)
    (hpos : 0 < endedBy j (scopes ts)) :
    endedBy j (scopes ts) < (ts.take j).countP Token.isOperand := by
  induction j with
  | zero =>
    by_cases hstop : IsStop ts 0
    · exact h 0 hstop hpos
    · rw [endedBy_zero_of_not_isStop hstop] at hpos
      cases hpos
  | succ j ih =>
    by_cases hstop : IsStop ts (j + 1)
    · exact h (j + 1) hstop hpos
    · rw [endedBy_succ_of_not_isStop hstop] at hpos ⊢
      have hpre : ts.take j <+: ts.take (j + 1) := List.take_prefix_take_left (Nat.le_succ j)
      exact Nat.lt_of_lt_of_le (ih hpos) hpre.countP_le

theorem suffices_zero_iff (ts : List Token) : Suffices 0 (scopes ts) ts ↔
    ts.countP Token.isOperand = ts.countP Token.isOperator + 1 ∧
      ∀ j, IsStop ts j → 0 < endedBy j (scopes ts) →
        endedBy j (scopes ts) < (ts.take j).countP Token.isOperand := by
  rw [Suffices, length_scopes, Nat.zero_add]
  simp only [Nat.zero_add]
  constructor
  · rintro ⟨htot, hall⟩
    exact ⟨htot, fun j hj => hall j hj.1⟩
  · rintro ⟨htot, hstop⟩
    exact ⟨htot, fun j _ hpos => endedBy_lt_of_stops hstop hpos⟩

end Stops

/-- The language of the parser. A text of lexemes is accepted if and only if its parentheses are
balanced, it has one operand more than operators, and at each stop, as soon as a scope has ended,
more operands stand before it than there are operators whose scope has ended. -/
theorem exists_parse_iff (s : String) (hs : (read s).stray = none) :
    (∃ e, parse s = .ok e) ↔ Balanced (read s).tokens ∧
      (read s).tokens.countP Token.isOperand = (read s).tokens.countP Token.isOperator + 1 ∧
      ∀ j, IsStop (read s).tokens j → 0 < endedBy j (scopes (read s).tokens) →
        endedBy j (scopes (read s).tokens) < ((read s).tokens.take j).countP Token.isOperand := by
  simp only [parse_eq_ok]
  rw [Reading.exists_tree_iff hs, suffices_zero_iff]

theorem exists_parse_iff_prefix_order :
    (read "+ (1 2) * 3").stray = none ∧ Balanced (read "+ (1 2) * 3").tokens ∧
    (read "* + 1 2 3").stray = none ∧ ¬ ∃ e, parse "* + 1 2 3" = .ok e := by
  have hs : (read "+ (1 2) * 3").stray = none := by decide +kernel
  have hs' : (read "* + 1 2 3").stray = none := by decide +kernel
  have hparse : parse "+ (1 2) * 3" = .ok (.bin (.num 1) "+" (.bin (.num 2) "*" (.num 3))) :=
    parse_eq_ok_of_toOption (by decide +kernel)
  refine ⟨hs, ((exists_parse_iff _ hs).mp ⟨_, hparse⟩).1, hs', fun h => ?_⟩
  have hstop : IsStop (read "* + 1 2 3").tokens 1 := by
    refine ⟨by decide +kernel, fun t ht => Or.inl ?_⟩
    have hsum : (read "* + 1 2 3").tokens[1]? = some (.operator .add) := by decide +kernel
    rw [hsum] at ht
    cases ht
    rfl
  have hlt := ((exists_parse_iff _ hs').mp h).2.2 1 hstop (by decide +kernel)
  exact absurd hlt (by decide +kernel)

end Formula
