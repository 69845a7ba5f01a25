import Formula.Expr.Basic
import Formula.Number.Text

/-!
# Written forms of expressions

`Expr.render` writes an expression with every operator between its operands and in parentheses,
`Expr.renderPostorder` writes operands before operators and without parentheses, and
`Expr.record` shows the nodes of a tree with the names of their parts. Trees of any depth are
written: a limit on nested calls, which a runtime may set, is left out.
-/

namespace Formula.Expr

def text : Expr → String
  | num x => String.ofList (Number.canonical x)
  | var n => n
  | bin l s r => "(" ++ l.text ++ " " ++ s ++ " " ++ r.text ++ ")"
  | hole => ""

inductive Item where
  | number (x : Float)
  | name (name : String)
  | operator (symbol : String)
deriving DecidableEq

def Item.text : Item → String
  | number x => String.ofList (Number.canonical x)
  | name n => n
  | operator s => s

def postorder : Expr → List Item
  | num x => [.number x]
  | var n => [.name n]
  | bin l s r => l.postorder ++ r.postorder ++ [.operator s]
  | hole => []

def postorderText (e : Expr) : String := String.intercalate " " (e.postorder.map Item.text)

def record : Expr → String
  | num x => "Number(value=" ++ String.ofList (Number.text x) ++ ")"
  | var n => "Variable(name=" ++ Text.quoted n ++ ")"
  | bin l s r =>
    "Operator(left=" ++ l.record ++ ", op=" ++ Text.quoted s ++ ", right=" ++ r.record ++ ")"
  | hole => "namespace(kind=None)"

def render (e : Expr) : Except Fault String := e.clone.map text

def renderPostorder (e : Expr) : Except Fault String := e.clone.map postorderText

/-- The form for readers. No parentheses are left out: it is the infix form. -/
def pretty (e : Expr) : Except Fault String := e.render

/-- How a tree is shown. A root that is no expression is shown by its record. -/
def display : Expr → Except Fault String
  | hole => .ok hole.record
  | e => e.render

end Formula.Expr
