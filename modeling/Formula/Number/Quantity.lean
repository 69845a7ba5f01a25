import Formula.Fault
import Formula.Number.Text

/-!
# Quantities

A number given from outside is a double or an integer of any size. An integer stands for the double
nearest to it, and there is none if that would be infinite.
-/

namespace Formula

inductive Quantity where
  | float (x : Float)
  | int (n : Int)
deriving DecidableEq

/-- The double nearest to an integer, ties to even, infinite if the integer is too large. -/
def Number.ofInt (n : Int) : Float := Float.ofModel (.ofInt n)

namespace Quantity

def toFloat : Quantity → Except Fault Float
  | float x => .ok x
  | int n => if (Number.ofInt n).isInf then .error .tooLarge else .ok (Number.ofInt n)

def intText (n : Int) : List Char :=
  (if n < 0 then ['-'] else []) ++ Nat.toDigits 10 n.natAbs

/-- The written form of a quantity inside a formula: that of its double, but an integer below the
bound is written by its own digits. -/
def canonical : Quantity → Except Fault (List Char)
  | float x => .ok (Number.canonical x)
  | int n => do
    let x ← (int n).toFloat
    .ok (if n.natAbs < Number.integerBound then intText n else Number.text x)

end Quantity

end Formula
