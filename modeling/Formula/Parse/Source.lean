import Formula.Expr.Render
import Formula.Journal
import Formula.Parse.Stacks
import Formula.Reading

/-!
# Parsing source text

`parse` turns a source text into an expression. Tokens are taken in as they are read, so of two
errors the one further left is reported; an open parenthesis and operands that are left over show
only at the end.
-/

namespace Formula

inductive ParseCause where
  | strayCharacter (stray : Stray)
  | unbalanced
  | malformed
deriving DecidableEq, Repr

structure ParseError where
  cause : ParseCause
  source : String
deriving DecidableEq, Repr

namespace ParseError

def message (e : ParseError) : String :=
  match e.cause with
  | .strayCharacter stray =>
    "Unexpected character " ++ Text.quoted (String.singleton stray.char) ++ " at position "
      ++ toString stray.position
  | .unbalanced => "Unbalanced '(' in " ++ Text.quoted e.source
  | .malformed => "Malformed expression " ++ Text.quoted e.source

end ParseError

/-- Reduces everything that still waits at the end. One tree must be left. -/
def Stacks.finish (st : Stacks) : Except ParseCause Expr :=
  match settle (fun _ => true) st.operands st.pending with
  | .error _ => .error .malformed
  | .ok ⟨_, _ :: _⟩ => .error .unbalanced
  | .ok ⟨[e], []⟩ => .ok e
  | .ok ⟨_, []⟩ => .error .malformed

def Reading.tree (r : Reading) : Except ParseCause Expr :=
  match Stacks.empty.run? r.tokens with
  | none => .error .malformed
  | some st =>
    match r.stray with
    | some stray => .error (.strayCharacter stray)
    | none => st.finish

/-- Parses a source text and keeps a journal: one entry for a text that is an expression. -/
def parseTraced (s : String) : Traced ParseError Expr :=
  match (read s).tree with
  | .error cause => .fail ⟨cause, s⟩
  | .ok e => .noting .parser ("parsed " ++ Text.quoted s ++ " as " ++ e.text) e

def parse (s : String) : Except ParseError Expr := (parseTraced s).outcome

theorem parse_eq (s : String) : parse s = (read s).tree.mapError (⟨·, s⟩) := by
  simp only [parse, parseTraced]
  cases (read s).tree <;> rfl

end Formula
