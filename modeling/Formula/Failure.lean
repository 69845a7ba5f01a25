import Formula.Parse.Source

/-!
# Failures

The causes for which an operation fails that may read source text, work on trees and keep trees on a
stack or in registers, and their wording.
-/

namespace Formula

inductive Failure where
  | fault (f : Fault)
  | parse (e : ParseError)
  | underflow (u : Underflow)
  | emptyRegister (name : String)
  | emptyStack
deriving DecidableEq, Repr

def Failure.message : Failure → String
  | fault f => f.message
  | parse e => e.message
  | underflow u => u.message
  | emptyRegister name => "Register " ++ Text.quoted name ++ " is empty"
  | emptyStack => "The stack is empty"

end Formula
