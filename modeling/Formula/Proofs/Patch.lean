import Formula.Proofs.Isolation
import Formula.Proofs.Scanning
import Formula.Proofs.Scope

/-!
# Lexemes replaced by texts in parentheses

A `Patch` is a piece of a text and what is written in place of its lexeme, if anything: another text
in parentheses. With patches for all its pieces a text is written anew. What follows the lexemes
that are kept is no longer the same, but it is the same up to a parenthesis (`Agrees`), so they are
read as before and the others as the tokens of their group (`scans_patched`).
-/

namespace Formula

open Text

/-- Two texts are the same up to a place from which the second goes on with a delimiter. -/
def Agrees (cs cs' : List Char) : Prop :=
  ∃ as ds ds', cs = as ++ ds ∧ cs' = as ++ ds' ∧ Delimits ds'

theorem Agrees.refl (cs : List Char) : Agrees cs cs :=
  ⟨cs, [], [], by simp, by simp, delimits_nil⟩

theorem Agrees.append {cs cs' : List Char} (h : Agrees cs cs') (bs : List Char) :
    Agrees (bs ++ cs) (bs ++ cs') := by
  obtain ⟨as, ds, ds', rfl, rfl, hds⟩ := h
  exact ⟨bs ++ as, ds, ds', by simp, by simp, hds⟩

theorem Lexeme.StopsAt.agrees {l : Lexeme} {cs cs' : List Char} (hl : l.StopsAt cs)
    (h : Agrees cs cs') : l.StopsAt cs' := by
  obtain ⟨as, ds, ds', rfl, rfl, hds⟩ := h
  exact hl.of_append.append hds

/-- A piece of a text, and the text that is put in parentheses in place of its lexeme, with the tree
of that text. -/
structure Patch where
  piece : Piece
  group : Option (String × Expr)

namespace Patch

def text (q : Patch) : List Char :=
  match q.group with
  | none => q.piece.text
  | some (s, _) => q.piece.blanks ++ '(' :: (s.toList ++ [')'])

def tokens (q : Patch) : List Token :=
  match q.group with
  | none => [q.piece.lexeme.token]
  | some (s, _) => .opening :: ((read s).tokens ++ [.closing])

def Valid (q : Patch) : Prop :=
  ∀ s e, q.group = some (s, e) → q.piece.lexeme.token.isOperand = true ∧ parse s = .ok e

end Patch

/-- A text that is read to its end, written with patches, is read as the tokens of the patches. -/
theorem scans_patched {position : Nat} {cs : List Char}
    (h : (readFrom position cs).stray = none) :
    ∀ qs : List Patch, qs.map Patch.piece = (readFrom position cs).pieces → (∀ q ∈ qs, q.Valid) →
      ∃ tail, (readFrom position cs).pieces.flatMap Piece.text ++ tail = cs ∧
        Scans (qs.flatMap Patch.text ++ tail) (qs.flatMap Patch.tokens) ∧
        Agrees cs (qs.flatMap Patch.text ++ tail) := by
  fun_induction readFrom position cs with
  | case1 position cs hd =>
    intro qs hqs _
    obtain rfl := List.map_eq_nil_iff.mp hqs
    have hscans := Scans.blanks (List.dropWhile_eq_nil_iff.mp hd) scans_nil
    rw [List.append_nil] at hscans
    exact ⟨cs, rfl, hscans, .refl cs⟩
  | case2 => cases h
  | case3 position cs blanks start c rest hd l after hs later ih =>
    intro qs hqs hvalid
    obtain ⟨q, qs, rfl, hq, hqs⟩ := List.map_eq_cons_iff.mp hqs
    obtain ⟨tail, htail, hscans, hagrees⟩ :=
      ih h qs hqs fun q' hq' => hvalid q' (List.mem_cons_of_mem q hq')
    obtain ⟨hl, hstop, htext⟩ := Lexeme.scan?_eq_some_iff.mp hs
    have hblanks : ∀ d ∈ blanks, isBlank d = true := List.all_eq_true.mp List.all_takeWhile
    have hcs : cs = blanks ++ (l.text ++ after) := by
      rw [htext, ← hd]
      exact List.takeWhile_append_dropWhile.symm
    refine ⟨tail, ?_, ?_⟩
    · rw [hcs, ← htail]
      simp [Piece.text, later]
    · rw [List.flatMap_cons, List.flatMap_cons]
      cases hg : q.group with
      | none =>
        have hq' : q.text = blanks ++ l.text := by simp [Patch.text, hg, hq, Piece.text]
        have htokens : q.tokens = [l.token] := by simp [Patch.tokens, hg, hq]
        rw [hq', htokens, hcs, List.append_assoc, List.append_assoc]
        exact ⟨(hscans.lexeme hl (hstop.agrees hagrees)).blanks hblanks,
          (hagrees.append _).append _⟩
      | some g =>
        obtain ⟨s, e⟩ := g
        obtain ⟨-, hparse⟩ := hvalid q List.mem_cons_self s e hg
        have hgroup := Scans.group (scans_of_parse hparse) hscans
        have hq' : q.text = blanks ++ '(' :: (s.toList ++ [')']) := by
          simp [Patch.text, hg, hq]
        have htokens : q.tokens = .opening :: ((read s).tokens ++ [.closing]) := by
          simp [Patch.tokens, hg]
        rw [hq', htokens, hcs]
        have htext' : blanks ++ '(' :: (s.toList ++ [')']) ++ qs.flatMap Patch.text ++ tail =
            blanks ++ '(' :: (s.toList ++ ')' :: (qs.flatMap Patch.text ++ tail)) := by simp
        refine ⟨?_, blanks, l.text ++ after, _, rfl, htext', delimits_opening⟩
        rw [htext']
        simpa using hgroup.blanks hblanks

end Formula
