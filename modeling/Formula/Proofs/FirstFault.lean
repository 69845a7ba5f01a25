import Formula.Proofs.Faults
import Formula.Proofs.Overflow

/-!
# The first node at fault

Whether a node is at fault is seen at the node alone: a symbol is in the table or not, a name has a
value or not, and an integer that is bound lies below the bound of the doubles or not
(`Expr.rootFault?`). Of all nodes at fault, anywhere in any tree, an evaluation reports the first in
preorder (`Expr.evaluate_eq_error_first`). So an operator comes before its operands and the left
operand, with all that is below it, before the right one.
-/

namespace Formula.Expr

/-- The nodes of a tree in preorder, each as the subtree below it. -/
def nodes : Expr → List Expr
  | num x => [num x]
  | var n => [var n]
  | bin l s r => bin l s r :: (l.nodes ++ r.nodes)
  | hole => [hole]

def rootFault? (b : Bindings) : Expr → Option Fault
  | num _ => none
  | var n =>
    match b.lookup n with
    | none => some (.unbound n)
    | some (.float _) => none
    | some (.int k) => if 2 ^ 1024 - 2 ^ 970 ≤ k.natAbs then some .tooLarge else none
  | bin _ s _ => if (Operator.ofText? s).isSome then none else some (.unknownOperator s)
  | hole => some .notAnExpression

theorem rootFault?_var (b : Bindings) (n : String) : (var n).rootFault? b = b.fault? n := by
  rw [rootFault?, Bindings.fault?]
  cases b.lookup n with
  | none => rfl
  | some q =>
    cases q with
    | float x => rfl
    | int k => simp only [Number.isInf_ofInt]

theorem faults_eq_filterMap (b : Bindings) (e : Expr) :
    e.faults b = e.nodes.filterMap (rootFault? b) := by
  induction e with
  | num x | hole => rfl
  | var n =>
    rw [faults, nodes, List.filterMap_cons, rootFault?_var]
    cases b.fault? n <;> rfl
  | bin l s r ihl ihr =>
    rw [faults, nodes, List.filterMap_cons, rootFault?, List.filterMap_append, ihl, ihr]
    by_cases hs : (Operator.ofText? s).isSome = true
    · rw [if_pos hs, if_pos hs]
      rfl
    · rw [if_neg hs, if_neg hs]
      rfl

/-- An evaluation has a value if and only if no node is at fault. Otherwise it fails with the fault
of the first node in preorder that has one. -/
theorem evaluate_eq_error_first (b : Bindings) (e : Expr) :
    ((∃ x, e.evaluate b = .ok x) ↔ ∀ a ∈ e.nodes, a.rootFault? b = none) ∧
    ∀ f, e.evaluate b = .error f ↔ ∃ before a after, e.nodes = before ++ a :: after ∧
      a.rootFault? b = some f ∧ ∀ c ∈ before, c.rootFault? b = none := by
  constructor
  · rw [exists_evaluate_eq_ok_iff, faults_eq_filterMap, List.filterMap_eq_nil_iff]
  · intro f
    rw [evaluate_eq_error_iff, faults_eq_filterMap, List.head?_filterMap,
      List.findSome?_eq_some_iff]

/-- Of five nodes at fault the one that is evaluated first is reported. It is bound to the least
integer that is too large. -/
theorem evaluate_eq_error_first_of_five :
    let b : Bindings := .ofList [("n", .int (2 ^ 1024 - 2 ^ 970)), ("x", .float 0)]
    let l : Expr := .bin (.var "x") "/" (.bin (.var "n") "+" (.var "y"))
    let e : Expr := .bin l "^" (.bin .hole "%" (.var "z"))
    e.evaluate b = .error .tooLarge := by
  intro b l e
  have hx : (var "x").rootFault? b = none := by decide +kernel
  have hn : (var "n").rootFault? b = some .tooLarge := by decide +kernel
  refine ((evaluate_eq_error_first b e).2 .tooLarge).mpr
    ⟨[e, l, var "x", .bin (.var "n") "+" (.var "y")], var "n", _, rfl, hn, ?_⟩
  have hjoin (l r : Expr) (o : Operator) : (l.join o r).rootFault? b = none := by
    rw [rootFault?, Operator.ofText?_text]
    rfl
  simp only [List.forall_mem_cons]
  exact ⟨hjoin l _ .pow, hjoin _ _ .div, hx, hjoin _ _ .add, List.forall_mem_nil _⟩

end Formula.Expr
