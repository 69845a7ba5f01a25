import Formula.Numeral.Scan
import Formula.Operator
import Formula.Text.Word

/-!
# Lexemes and tokens

A lexeme is a piece of a text that belongs together: a numeral, a name, the symbol of an operator or
a parenthesis. `Lexeme.scan?` takes the longest one that a text begins with. A token is what a
lexeme means.
-/

namespace Formula

open Text

inductive Token where
  | number (x : Float)
  | name (name : String)
  | operator (o : Operator)
  | opening
  | closing
deriving DecidableEq

inductive Lexeme where
  | numeral (n : Numeral)
  | name (name : List Char)
  | operator (o : Operator)
  | opening
  | closing
deriving DecidableEq, Repr

namespace Lexeme

def text : Lexeme → List Char
  | numeral n => n.text
  | name cs => cs
  | operator o => [o.symbol]
  | opening => ['(']
  | closing => [')']

def token : Lexeme → Token
  | numeral n => .number n.value
  | name cs => .name (String.ofList cs)
  | operator o => .operator o
  | opening => .opening
  | closing => .closing

def ofSymbol? (c : Char) : Option Lexeme :=
  if c = '(' then some opening
  else if c = ')' then some closing
  else (Operator.ofSymbol? c).map operator

def scanName? : List Char → Option (Lexeme × List Char)
  | [] => none
  | c :: cs =>
    if startsName c then some (name (c :: cs.takeWhile isWord), cs.dropWhile isWord) else none

def scanSymbol? : List Char → Option (Lexeme × List Char)
  | [] => none
  | c :: cs => (ofSymbol? c).map (·, cs)

/-- The longest lexeme that a text begins with, and the rest. -/
def scan? (cs : List Char) : Option (Lexeme × List Char) :=
  match Numeral.scan? cs with
  | some (n, rest) => some (numeral n, rest)
  | none => (scanName? cs).or (scanSymbol? cs)

theorem text_of_ofSymbol? {c : Char} {l : Lexeme} (h : ofSymbol? c = some l) : l.text = [c] := by
  unfold ofSymbol? at h
  split at h
  · cases h; simp_all [text]
  · split at h
    · cases h; simp_all [text]
    · obtain ⟨o, ho, rfl⟩ := Option.map_eq_some_iff.mp h
      simp [text, Operator.symbol_of_ofSymbol? ho]

theorem text_append_of_scanName? {cs rest : List Char} {l : Lexeme}
    (h : scanName? cs = some (l, rest)) : l.text ++ rest = cs ∧ l.text ≠ [] := by
  cases cs with
  | nil => simp [scanName?] at h
  | cons c cs =>
    simp only [scanName?, Option.ite_none_right_eq_some, Option.some.injEq, Prod.mk.injEq] at h
    obtain ⟨-, rfl, rfl⟩ := h
    simp [text]

theorem text_append_of_scanSymbol? {cs rest : List Char} {l : Lexeme}
    (h : scanSymbol? cs = some (l, rest)) : l.text ++ rest = cs ∧ l.text ≠ [] := by
  cases cs with
  | nil => simp [scanSymbol?] at h
  | cons c cs =>
    obtain ⟨l, hl, he⟩ := Option.map_eq_some_iff.mp h
    cases he
    simp [text_of_ofSymbol? hl]

/-- Nothing of the text is lost, and a lexeme has at least one character. -/
theorem text_append_of_scan? {cs rest : List Char} {l : Lexeme}
    (h : scan? cs = some (l, rest)) : l.text ++ rest = cs ∧ l.text ≠ [] := by
  unfold scan? at h
  split at h
  · rename_i n rest' hn
    cases h
    have ht := Numeral.text_append_of_scan? hn
    refine ⟨ht, fun he => ?_⟩
    have hl := Numeral.length_lt_of_scan? hn
    rw [← ht, show n.text = [] from he] at hl
    simp at hl
  · rcases Option.or_eq_some_iff.mp h with hn | ⟨-, hs⟩
    · exact text_append_of_scanName? hn
    · exact text_append_of_scanSymbol? hs

theorem length_lt_of_scan? {cs rest : List Char} {l : Lexeme}
    (h : scan? cs = some (l, rest)) : rest.length < cs.length := by
  obtain ⟨ht, hne⟩ := text_append_of_scan? h
  have := List.length_pos_iff.mpr hne
  rw [← ht, List.length_append]
  omega

end Lexeme

end Formula
