import Formula.Fault
import Formula.Operator
import Formula.Text.Sorted

/-!
# Expressions

An expression is a number, a variable, or two expressions joined by the symbol of an operator. The
symbol is any text: whether it names an operator shows only when the expression is evaluated. A
place in a tree may also hold a node that is no expression; `Expr.clone` tells trees without such
nodes from the others, and every operation that walks a whole tree goes through it.
-/

namespace Formula

/-- Trees of numbers, variables and operator symbols, with places that hold no expression. -/
inductive Expr where
  | num (x : Float)
  | var (name : String)
  | bin (left : Expr) (symbol : String) (right : Expr)
  | hole
deriving DecidableEq, Inhabited

inductive Kind where
  | num
  | var
  | bin
deriving DecidableEq, Repr

def Kind.text : Kind → String
  | num => "Number"
  | var => "Variable"
  | bin => "Operator"

namespace Expr

abbrev join (left : Expr) (o : Operator) (right : Expr) : Expr := bin left o.text right

def kind : Expr → Except Fault Kind
  | num _ => .ok .num
  | var _ => .ok .var
  | bin _ _ _ => .ok .bin
  | hole => .error .notAnExpression

/-- Whether every node of a tree is an expression. -/
def isComplete : Expr → Bool
  | num _ | var _ => true
  | bin l _ r => l.isComplete && r.isComplete
  | hole => false

def clone (e : Expr) : Except Fault Expr :=
  if e.isComplete then .ok e else .error .notAnExpression

/-- Whether two trees have the same shape, symbols and names, and equal numbers. Zeros of either
sign are equal, and no NaN equals another. -/
def same : Expr → Expr → Bool
  | num x, num y => x == y
  | var a, var b => a == b
  | bin l s r, bin l' s' r' => l.same l' && s == s' && r.same r'
  | hole, hole => true
  | _, _ => false

instance : BEq Expr := ⟨same⟩

def distinct (es : List Expr) : Nat := es.eraseDups.length

def names : Expr → List String
  | num _ | hole => []
  | var n => [n]
  | bin l _ r => l.names ++ r.names

def variableNames (e : Expr) : Except Fault (List String) :=
  e.clone.map fun e => Text.sortedDistinct e.names

theorem clone_of_isComplete {e : Expr} (h : e.isComplete = true) : e.clone = .ok e := by
  simp [clone, h]

end Expr

end Formula
