import Formula.Text.Blank
import Formula.Token

/-!
# Reading a text as lexemes

`read` cuts a text into pieces, each a lexeme with the blanks before it. It ends at the end of the
text, or at the first character that is neither blank nor the beginning of a lexeme. What was read
before such a character is kept. Main statement: a text that is read to its end is the pieces put
together (`flatMap_text_readFrom`).
-/

namespace Formula

open Text

structure Piece where
  blanks : List Char
  lexeme : Lexeme
deriving DecidableEq, Repr

def Piece.text (p : Piece) : List Char := p.blanks ++ p.lexeme.text

/-- A character that begins no lexeme, and the number of characters before it. -/
structure Stray where
  char : Char
  position : Nat
deriving DecidableEq, Repr

/-- The pieces of a text, and the stray character that ended the reading, if one did. -/
structure Reading where
  pieces : List Piece
  stray : Option Stray
deriving DecidableEq, Repr

def Reading.tokens (r : Reading) : List Token := r.pieces.map (·.lexeme.token)

def readFrom (position : Nat) (cs : List Char) : Reading :=
  let blanks := cs.takeWhile isBlank
  let start := position + blanks.length
  match _ : cs.dropWhile isBlank with
  | [] => ⟨[], none⟩
  | c :: rest =>
    match _ : Lexeme.scan? (c :: rest) with
    | none => ⟨[], some ⟨c, start⟩⟩
    | some (l, after) =>
      let later := readFrom (start + l.text.length) after
      ⟨⟨blanks, l⟩ :: later.pieces, later.stray⟩
termination_by cs.length
decreasing_by
  rename_i hd hs
  have h := Lexeme.length_lt_of_scan? hs
  have := (List.dropWhile_suffix isBlank (l := cs)).length_le
  rw [hd] at this
  omega

/-- A text that is read to its end is its pieces, put together, and blanks after them. -/
theorem flatMap_text_readFrom {position : Nat} {cs : List Char}
    (h : (readFrom position cs).stray = none) :
    ∃ blanks, blanks.all isBlank ∧
      (readFrom position cs).pieces.flatMap Piece.text ++ blanks = cs := by
  fun_induction readFrom position cs with
  | case1 position cs hd =>
    have hc := List.takeWhile_append_dropWhile (p := isBlank) (l := cs)
    rw [hd, List.append_nil] at hc
    exact ⟨cs, hc ▸ List.all_takeWhile, rfl⟩
  | case2 => simp at h
  | case3 position cs blanks start c rest hd l after hs later ih =>
    obtain ⟨tail, ht, he⟩ := ih h
    have hc : blanks ++ c :: rest = cs := by
      rw [← hd]
      exact List.takeWhile_append_dropWhile
    refine ⟨tail, ht, ?_⟩
    simp only [List.flatMap_cons, Piece.text, List.append_assoc]
    rw [he, (Lexeme.text_append_of_scan? hs).1, hc]

def read (s : String) : Reading := readFrom 0 (trimEnd s.toList)

end Formula
