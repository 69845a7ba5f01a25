/-!
# Journals

Parsing and evaluating leave entries in a journal, each on a channel. A `Traced` computation is an
outcome together with the entries written on the way; after a failure nothing more is written.
-/

namespace Formula

inductive Channel where
  | parser
  | expression
deriving DecidableEq, Repr

def Channel.name : Channel → String
  | parser => "parser"
  | expression => "expression"

structure Entry where
  channel : Channel
  text : String
deriving DecidableEq, Repr

/-- An outcome, and the entries written before it was reached. -/
structure Traced (ε α : Type) where
  journal : List Entry
  outcome : Except ε α

namespace Traced

variable {ε ε' α β : Type}

def ofExcept (r : Except ε α) : Traced ε α := ⟨[], r⟩

def fail (e : ε) : Traced ε α := ⟨[], .error e⟩

def failNoting (channel : Channel) (text : String) (e : ε) : Traced ε α :=
  ⟨[⟨channel, text⟩], .error e⟩

def noting (channel : Channel) (text : String) (a : α) : Traced ε α := ⟨[⟨channel, text⟩], .ok a⟩

instance : Monad (Traced ε) where
  pure a := ⟨[], .ok a⟩
  bind x f :=
    match x.outcome with
    | .error e => ⟨x.journal, .error e⟩
    | .ok a => ⟨x.journal ++ (f a).journal, (f a).outcome⟩

def mapError (f : ε → ε') (x : Traced ε α) : Traced ε' α := ⟨x.journal, x.outcome.mapError f⟩

end Traced

end Formula
