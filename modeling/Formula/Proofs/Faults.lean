import Mathlib.Algebra.Group.Int.Defs
import Formula.Expr.Evaluate
import Formula.Proofs.Arrangement

/-!
# Which failure an evaluation reports

`Expr.faults` lists what is wrong with the nodes of a tree in preorder. An evaluation fails if and
only if something is listed, and then with the first of it (`Expr.evaluate_eq_error_iff`). The
symbols of a tree that was parsed are all known, so in such a tree only names can be at fault
(`Expr.faults_eq_of_tree`), and they stand in the order of the text (`Reading.names_tree`): the
leftmost name whose look-up fails decides (`evaluate_eq_error_leftmost`).
-/

namespace Formula

/-- Why the look-up of a name fails, if it does: the name has no value, or an integer that is too
large for a double. -/
def Bindings.fault? (b : Bindings) (name : String) : Option Fault :=
  match b.lookup name with
  | none => some (.unbound name)
  | some (.float _) => none
  | some (.int n) => if (Number.ofInt n).isInf then some .tooLarge else none

theorem Bindings.fault?_eq_some {b : Bindings} {n : String} {f : Fault} (h : b.fault? n = some f) :
    f = .unbound n ∨ f = .tooLarge := by
  unfold fault? at h
  split at h
  · cases h
    exact Or.inl rfl
  · cases h
  · rw [Option.ite_none_right_eq_some] at h
    cases h.2
    exact Or.inr rfl

namespace Expr

/-- What is wrong with the nodes of a tree, in preorder. -/
def faults (b : Bindings) : Expr → List Fault
  | num _ => []
  | var n => (b.fault? n).toList
  | bin l s r =>
    (if (Operator.ofText? s).isSome then [] else [.unknownOperator s]) ++ (l.faults b ++ r.faults b)
  | hole => [.notAnExpression]

variable {b : Bindings} {e : Expr} {f : Fault}

theorem head?_faults_var (b : Bindings) (n : String) : ((var n).faults b).head? =
    match (var n).evaluate b with
    | .error f => some f
    | .ok _ => none := by
  rw [evaluate_var, faults, Bindings.fault?]
  cases b.lookup n with
  | none => rfl
  | some q =>
    cases q with
    | float x => rfl
    | int k =>
      simp only [Option.elim_some, Quantity.toFloat]
      by_cases hk : (Number.ofInt k).isInf = true
      · rw [if_pos hk, if_pos hk]
        rfl
      · rw [if_neg hk, if_neg hk]
        rfl

theorem head?_faults (b : Bindings) (e : Expr) : (e.faults b).head? =
    match e.evaluate b with
    | .error f => some f
    | .ok _ => none := by
  induction e with
  | num x | hole => rfl
  | var n => exact head?_faults_var b n
  | bin l s r ihl ihr =>
    rw [evaluate_bin, faults]
    cases Operator.ofText? s with
    | none => rfl
    | some o =>
      rw [Option.isSome_some, if_pos rfl, List.nil_append, List.head?_append, ihl, ihr]
      cases l.evaluate b with
      | error f => rfl
      | ok x => cases r.evaluate b <;> rfl

/-- An evaluation fails with the first thing that is wrong, and for no other reason. -/
theorem evaluate_eq_error_iff : e.evaluate b = .error f ↔ (e.faults b).head? = some f := by
  rw [head?_faults]
  cases e.evaluate b <;> simp

theorem exists_evaluate_eq_ok_iff : (∃ x, e.evaluate b = .ok x) ↔ e.faults b = [] := by
  rw [← List.head?_eq_none_iff, head?_faults]
  cases e.evaluate b <;> simp

theorem exists_evaluate_eq_error_iff : (∃ f, e.evaluate b = .error f) ↔ ∃ f, f ∈ e.faults b := by
  constructor
  · rintro ⟨f, hf⟩
    exact ⟨f, List.mem_of_head? (evaluate_eq_error_iff.mp hf)⟩
  · rintro ⟨f, hf⟩
    have hsome := List.isSome_head?.mpr (List.ne_nil_of_mem hf)
    obtain ⟨f', hf'⟩ := Option.isSome_iff_exists.mp hsome
    exact ⟨f', evaluate_eq_error_iff.mpr hf'⟩

theorem faults_eq_of_tree {r : Reading} (h : r.tree = .ok e) (b : Bindings) :
    e.faults b = e.names.filterMap b.fault? := by
  refine Reading.tree_induction (P := fun e => e.faults b = e.names.filterMap b.fault?) h ?_ ?_
  · intro t _ a ha
    cases t with
    | number x =>
      cases ha
      rfl
    | name n =>
      cases ha
      rw [names, faults, List.filterMap_cons]
      cases b.fault? n <;> rfl
    | operator o | opening | closing => cases ha
  · intro l o r hl hr
    rw [names, faults, Operator.ofText?_text, Option.isSome_some, if_pos rfl, List.nil_append,
      List.filterMap_append, hl, hr]

def Item.name? : Item → Option String
  | name n => some n
  | number _ | operator _ => none

theorem names_eq (e : Expr) : e.names = e.leaves.filterMap Item.name? := by
  induction e with
  | num x | var n | hole => rfl
  | bin l s r ihl ihr => rw [names, leaves, List.filterMap_append, ihl, ihr]

end Expr

namespace Token

def name? : Token → Option String
  | name n => some n
  | number _ | operator _ | opening | closing => none

def fault? (b : Bindings) (t : Token) : Option Fault := t.name?.bind b.fault?

variable {b : Bindings} {t : Token} {f : Fault}

theorem fault?_eq_some : t.fault? b = some f ↔ ∃ n, t = .name n ∧ b.fault? n = some f := by
  cases t <;> simp [fault?, name?]

theorem fault?_eq_none : t.fault? b = none ↔ ∀ n, t = .name n → b.fault? n = none := by
  cases t <;> simp [fault?, name?]

end Token

namespace Reading

variable {r : Reading} {e : Expr}

/-- The variables of a tree are the names of its text, in order. -/
theorem names_tree (h : r.tree = .ok e) : e.names = r.tokens.filterMap Token.name? := by
  have hleaf (t : Token) : t.leaf?.bind Expr.Item.name? = t.name? := by cases t <;> rfl
  rw [Expr.names_eq, leaves_tree h, List.filterMap_filterMap]
  exact congrArg (List.filterMap · r.tokens) (funext hleaf)

theorem faults_tree (h : r.tree = .ok e) (b : Bindings) :
    e.faults b = r.tokens.filterMap (Token.fault? b) := by
  rw [Expr.faults_eq_of_tree h, names_tree h, List.filterMap_filterMap]
  rfl

theorem mem_faults_tree (h : r.tree = .ok e) {b : Bindings} {f : Fault} :
    f ∈ e.faults b ↔ ∃ n, .name n ∈ r.tokens ∧ b.fault? n = some f := by
  rw [faults_tree h, List.mem_filterMap]
  constructor
  · rintro ⟨t, ht, hf⟩
    obtain ⟨n, rfl, hn⟩ := Token.fault?_eq_some.mp hf
    exact ⟨n, ht, hn⟩
  · rintro ⟨n, hn, hf⟩
    exact ⟨.name n, hn, Token.fault?_eq_some.mpr ⟨n, rfl, hf⟩⟩

theorem head?_faults_tree (h : r.tree = .ok e) {b : Bindings} {f : Fault} :
    (e.faults b).head? = some f ↔ ∃ us n vs, r.tokens = us ++ .name n :: vs ∧
      b.fault? n = some f ∧ ∀ m, .name m ∈ us → b.fault? m = none := by
  rw [faults_tree h, List.head?_filterMap, List.findSome?_eq_some_iff]
  constructor
  · rintro ⟨us, t, vs, htokens, ht, hus⟩
    obtain ⟨n, rfl, hn⟩ := Token.fault?_eq_some.mp ht
    exact ⟨us, n, vs, htokens, hn, fun m hm => Token.fault?_eq_none.mp (hus _ hm) m rfl⟩
  · rintro ⟨us, n, vs, htokens, hn, hus⟩
    refine ⟨us, .name n, vs, htokens, Token.fault?_eq_some.mpr ⟨n, rfl, hn⟩, fun t ht => ?_⟩
    exact Token.fault?_eq_none.mpr fun m hm => hus m (hm ▸ ht)

end Reading

/-- A text that is accepted has no value if and only if the look-up of one of its names fails. The
failure is that of the leftmost such name, whatever the tree of the text looks like. -/
theorem evaluate_eq_error_leftmost {s : String} {e : Expr} (h : parse s = .ok e) (b : Bindings) :
    ((∃ f, e.evaluate b = .error f) ↔
      ∃ n f, .name n ∈ (read s).tokens ∧ b.fault? n = some f) ∧
    (∀ f, e.evaluate b = .error f ↔
      ∃ us n vs, (read s).tokens = us ++ .name n :: vs ∧ b.fault? n = some f ∧
        ∀ m, .name m ∈ us → b.fault? m = none) ∧
    ∀ f, e.evaluate b = .error f →
      f ≠ .notAnExpression ∧ ∀ symbol, f ≠ .unknownOperator symbol := by
  have htree := parse_eq_ok.mp h
  refine ⟨?_, fun f => ?_, fun f hf => ?_⟩
  · rw [Expr.exists_evaluate_eq_error_iff, exists_comm]
    simp only [Reading.mem_faults_tree htree]
  · rw [Expr.evaluate_eq_error_iff]
    exact Reading.head?_faults_tree htree
  · have hmem := List.mem_of_head? (Expr.evaluate_eq_error_iff.mp hf)
    obtain ⟨n, -, hn⟩ := (Reading.mem_faults_tree htree).mp hmem
    rcases Bindings.fault?_eq_some hn with rfl | rfl
    · exact ⟨Fault.noConfusion, fun symbol => Fault.noConfusion⟩
    · exact ⟨Fault.noConfusion, fun symbol => Fault.noConfusion⟩

theorem evaluate_eq_error_leftmost_prefix_order :
    parse "+ (a b) * c" = .ok ((Expr.var "a").join .add ((Expr.var "b").join .mul (.var "c"))) ∧
    ((Expr.var "a").join .add ((Expr.var "b").join .mul (.var "c"))).evaluate
      (.ofList [("a", .int 7), ("b", .int (10 ^ 309))]) = .error .tooLarge := by
  let b : Bindings := .ofList [("a", .int 7), ("b", .int (10 ^ 309))]
  have h : parse "+ (a b) * c" =
      .ok ((Expr.var "a").join .add ((Expr.var "b").join .mul (.var "c"))) :=
    parse_eq_ok_of_toOption (by decide +kernel)
  have htokens : (read "+ (a b) * c").tokens = [.operator .add, .opening, .name "a"] ++
      .name "b" :: [.closing, .operator .mul, .name "c"] := by decide +kernel
  have ha : b.fault? "a" = none := by decide +kernel
  have hb : b.fault? "b" = some .tooLarge := by decide +kernel
  refine ⟨h, ((evaluate_eq_error_leftmost h b).2.1 _).mpr ⟨_, "b", _, htokens, hb, ?_⟩⟩
  intro m hm
  obtain rfl : m = "a" := by simpa using hm
  exact ha

end Formula
