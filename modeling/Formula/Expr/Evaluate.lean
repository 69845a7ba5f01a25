import Formula.Bindings
import Formula.Expr.Render
import Formula.Journal

/-!
# Evaluating expressions

`Expr.evaluate` computes the value of an expression with given values of its variables. At an
operator node the symbol is looked up first, then the left and the right side are evaluated;
the first failure is the outcome. A variable without value and a symbol that is in no table leave an
entry in the journal. Arithmetic itself never fails. Trees of any depth are evaluated: a limit on
nested calls, which a runtime may set, is left out.
-/

namespace Formula.Expr

def evaluateTraced (b : Bindings) : Expr → Traced Fault Float
  | num x => pure x
  | var n =>
    match b.lookup n with
    | some q => .ofExcept q.toFloat
    | none =>
      .failNoting .expression
        ("unbound variable " ++ Text.quoted n ++ ", bound: " ++ Text.quotedList b.names)
        (.unbound n)
  | bin l s r =>
    match Operator.ofText? s with
    | none =>
      .failNoting .expression
        ("unknown operator " ++ Text.quoted s ++ " in " ++ (bin l s r).record)
        (.unknownOperator s)
    | some o => do
      let x ← l.evaluateTraced b
      let y ← r.evaluateTraced b
      pure (o.apply x y)
  | hole => .fail .notAnExpression

def evaluate (b : Bindings) (e : Expr) : Except Fault Float := (e.evaluateTraced b).outcome

theorem evaluate_num (b : Bindings) (x : Float) : (num x).evaluate b = .ok x := rfl

theorem evaluate_var (b : Bindings) (n : String) :
    (var n).evaluate b = (b.lookup n).elim (.error (.unbound n)) Quantity.toFloat := by
  simp only [evaluate, evaluateTraced]
  cases b.lookup n <;> rfl

theorem evaluate_bin (b : Bindings) (l r : Expr) (s : String) :
    (bin l s r).evaluate b =
      match Operator.ofText? s with
      | none => .error (.unknownOperator s)
      | some o => l.evaluate b >>= fun x => r.evaluate b >>= fun y => .ok (o.apply x y) := by
  simp only [evaluate, evaluateTraced]
  cases Operator.ofText? s with
  | none => rfl
  | some o =>
    simp only [bind, pure, Except.bind]
    cases (l.evaluateTraced b).outcome with
    | error f => rfl
    | ok x => cases (r.evaluateTraced b).outcome <;> rfl

end Formula.Expr
