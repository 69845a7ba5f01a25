import Formula.Expr.Basic
import Formula.Number.Quantity

/-!
# Reciprocals and geometric means

Expressions built from others: one over an expression, and the root of a product of numbers.
-/

namespace Formula.Expr

def oneOver (e : Expr) : Except Fault Expr := e.clone.map fun e => join (num 1) .div e

/-- One over an expression. A number is divided at once, a quotient has its sides exchanged, and
anything else is put under one. -/
def reciprocal : Expr → Except Fault Expr
  | num x => .ok (num (Operator.div.apply 1 x))
  | bin l s r =>
    if s = Operator.div.text then do
      let r ← r.clone
      let l ← l.clone
      .ok (bin r s l)
    else (bin l s r).oneOver
  | e => e.oneOver

def product (x : Float) (xs : List Float) : Expr :=
  xs.foldl (fun e y => e.join .mul (num y)) (num x)

/-- The product of `n` quantities to the power of `1 / n`. Nothing but that exponent is computed.
Without quantities it is zero. -/
def geometricMean : List Quantity → Except Fault Expr
  | [] => .ok (num 0)
  | q :: qs => do
    let x ← q.toFloat
    let xs ← qs.mapM Quantity.toFloat
    let exponent ← (num (Number.ofInt (qs.length + 1))).reciprocal
    .ok ((product x xs).join .pow exponent)

end Formula.Expr
