import Formula.Text.Quoted

/-!
# Operators

The five operators of formulas, in the order of their table, with symbol, precedence and meaning.
Arithmetic is that of IEEE 754 doubles: no operation fails.
-/

namespace Formula

inductive Operator where
  | add
  | sub
  | div
  | mul
  | pow
deriving DecidableEq, Repr

namespace Operator

def table : List Operator := [add, sub, div, mul, pow]

def symbol : Operator → Char
  | add => '+'
  | sub => '-'
  | div => '/'
  | mul => '*'
  | pow => '^'

def text (o : Operator) : String := String.singleton o.symbol

def ofSymbol? (c : Char) : Option Operator := table.find? (·.symbol = c)

def ofText? (s : String) : Option Operator := table.find? (·.text = s)

def precedence : Operator → Nat
  | add | sub => 1
  | div | mul => 2
  | pow => 3

/-- Whether an operator that was read first is also applied first when `next` follows. Only a
tighter `next` goes before it, so every operator associates to the left. -/
def leftFirst (o next : Operator) : Bool := !(o.precedence < next.precedence)

def apply : Operator → Float → Float → Float
  | add, x, y => x + y
  | sub, x, y => x - y
  | div, x, y => x / y
  | mul, x, y => x * y
  | pow, x, y => Float.pow x y

def record (o : Operator) : String := "op(" ++ Text.quoted o.text ++ ")"

theorem ofSymbol?_symbol (o : Operator) : ofSymbol? o.symbol = some o := by cases o <;> decide

theorem symbol_of_ofSymbol? {c : Char} {o : Operator} (h : ofSymbol? c = some o) :
    o.symbol = c := by
  simpa using List.find?_some h

theorem ofText?_text (o : Operator) : ofText? o.text = some o := by cases o <;> decide

theorem text_of_ofText? {s : String} {o : Operator} (h : ofText? s = some o) : o.text = s := by
  simpa using List.find?_some h

end Operator

end Formula
