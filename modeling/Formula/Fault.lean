import Formula.Text.Quoted

/-!
# What can go wrong with a tree

The causes for which an operation on a tree fails, and their wording.
-/

namespace Formula

inductive Fault where
  | unbound (name : String)
  | unknownOperator (symbol : String)
  | notAnExpression
  | tooLarge
deriving DecidableEq, Repr

namespace Fault

def message : Fault → String
  | unbound name => "Variable " ++ Text.quoted name ++ " is not assigned a value"
  | unknownOperator symbol => "Operator " ++ Text.quoted symbol ++ " is not a valid operator"
  | notAnExpression => "Not an expression: namespace(kind=None)"
  | tooLarge => "int too large to convert to float"

end Fault

end Formula
