import Formula.Expr.Evaluate
import Formula.Expr.Reciprocal

/-!
# Questions about a tree

The questions that can be asked about a tree, and the kinds of answers there are.
-/

namespace Formula

inductive Answer where
  | tree (e : Expr)
  | number (x : Float)
  | text (s : String)
  | texts (ss : List String)
  | truth (b : Bool)
  | count (n : Nat)

inductive Query where
  | tree
  | kind
  | render
  | display
  | pretty
  | postorder
  | record
  | variableNames
  | clone
  | reciprocal
deriving DecidableEq, Repr

namespace Query

def answer : Query → Expr → Except Fault Answer
  | tree, e => .ok (.tree e)
  | kind, e => e.kind.map fun k => .text k.text
  | render, e => e.render.map .text
  | display, e => e.display.map .text
  | pretty, e => e.pretty.map .text
  | postorder, e => e.renderPostorder.map .text
  | record, e => .ok (.text e.record)
  | variableNames, e => e.variableNames.map .texts
  | clone, e => e.clone.map .tree
  | reciprocal, e => e.reciprocal.map .tree

end Query

end Formula
