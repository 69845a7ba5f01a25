import Formula.Expr.Basic
import Formula.Token

/-!
# The two stacks of the parser

Trees wait on one stack for the operator that joins them, operators and opening parentheses wait on
the other for what comes after them. An operator is reduced when the two trees on top are replaced
by their join. A token first reduces the waiting operators that go before it, back to the innermost
open parenthesis at most, and then takes its own place.
-/

namespace Formula

structure Underflow where
  held : Nat
deriving DecidableEq, Repr

def Underflow.message (u : Underflow) : String :=
  "not enough values to unpack (expected 2, got " ++ toString u.held ++ ")"

/-- Replaces the two trees on top of a stack by their join. The right one is on top. -/
def Operator.reduce (o : Operator) : List Expr → Except Underflow (List Expr)
  | r :: l :: rest => .ok (l.join o r :: rest)
  | short => .error ⟨short.length⟩

/-- What waits for later tokens: an operator, or a parenthesis that is open. -/
inductive Pending where
  | operator (o : Operator)
  | opening
deriving DecidableEq, Repr

/-- The stacks of the parser, both from the top down. -/
structure Stacks where
  operands : List Expr
  pending : List Pending
deriving DecidableEq

namespace Stacks

def empty : Stacks := ⟨[], []⟩

/-- Reduces waiting operators from the top as long as they are due, back to the innermost open
parenthesis at most. -/
def settle (due : Operator → Bool) : List Expr → List Pending → Except Underflow Stacks
  | operands, .operator o :: pending =>
    if due o then do
      let operands ← o.reduce operands
      settle due operands pending
    else .ok ⟨operands, .operator o :: pending⟩
  | operands, pending => .ok ⟨operands, pending⟩

def push (st : Stacks) (e : Expr) : Stacks := { st with operands := e :: st.operands }

def openGroup (st : Stacks) : Stacks := { st with pending := .opening :: st.pending }

/-- Closes the innermost open parenthesis. There must be one, and every operator in it must find its
operands. -/
def closeGroup? (st : Stacks) : Option Stacks :=
  match settle (fun _ => true) st.operands st.pending with
  | .ok ⟨operands, .opening :: pending⟩ => some ⟨operands, pending⟩
  | _ => none

def pushOperator? (st : Stacks) (o : Operator) : Option Stacks :=
  match settle (·.leftFirst o) st.operands st.pending with
  | .ok st => some { st with pending := .operator o :: st.pending }
  | .error _ => none

def step? (st : Stacks) : Token → Option Stacks
  | .number x => some (st.push (.num x))
  | .name n => some (st.push (.var n))
  | .operator o => st.pushOperator? o
  | .opening => some st.openGroup
  | .closing => st.closeGroup?

def run? (st : Stacks) : List Token → Option Stacks
  | [] => some st
  | t :: ts => (st.step? t).bind (run? · ts)

theorem run?_append (st : Stacks) (ts us : List Token) :
    st.run? (ts ++ us) = (st.run? ts).bind (run? · us) := by
  induction ts generalizing st with
  | nil => rfl
  | cons t ts ih =>
    simp only [List.cons_append, run?, Option.bind_assoc]
    congr 1
    exact funext fun st => ih st

end Stacks

end Formula
