import Mathlib.Data.List.Forall2
import Formula.Proofs.Scanning

/-!
# Cutting a text into lexemes

There are three classes of lexemes: numerals, names and symbols. A text is `Cut` into segments, each
a run of blanks and the text of a lexeme, if every lexeme is the longest beginning of what is left
of the text that belongs to its class. A lexeme is the longest exactly if it does not go on with
what follows it (`Lexeme.longest_iff_stopsAt`). So a text that ends in no blank can be cut if and
only if it is read to its end, and only into the lexemes that are read (`cut_trimEnd_iff`).
-/

namespace Formula

open Text

namespace Numeral

variable {n : Numeral}

theorem exists_append_digit (hn : n.Valid) {c : Char} (hc : c.isDigit) :
    ∃ m : Numeral, m.Valid ∧ m.text = n.text ++ [c] := by
  obtain ⟨hds, hne, hpoint, hexp⟩ := hn
  obtain ⟨hwhole, hfraction⟩ := List.forall_mem_append.mp hds
  have hone : ∀ d ∈ [c], d.isDigit := List.forall_mem_singleton.mpr hc
  cases hx : n.exponent with
  | some x =>
    obtain ⟨hmark, hsign, hdigits, hall⟩ := hexp x hx
    let y : Exponent := { x with digits := x.digits ++ [c] }
    have hy : y.Valid := ⟨hmark, hsign, by simp [y], List.forall_mem_append.mpr ⟨hall, hone⟩⟩
    refine ⟨{ n with exponent := some y }, ⟨hds, hne, hpoint, ?_⟩, ?_⟩
    · rintro _ ⟨⟩
      exact hy
    · simp [text, hx, Exponent.text, y]
  | none =>
    by_cases hp : n.point = true
    · have hall : ∀ d ∈ n.whole ++ (n.fraction ++ [c]), d.isDigit :=
        List.forall_mem_append.mpr ⟨hwhole, List.forall_mem_append.mpr ⟨hfraction, hone⟩⟩
      have hpoint' : n.point = false → n.fraction ++ [c] = [] := fun h => by simp [hp] at h
      exact ⟨{ n with fraction := n.fraction ++ [c] }, ⟨hall, by simp, hpoint', hexp⟩,
        by simp [text, hx]⟩
    · have hnil := hpoint (eq_false_of_ne_true hp)
      have hall : ∀ d ∈ n.whole ++ [c] ++ n.fraction, d.isDigit :=
        List.forall_mem_append.mpr ⟨List.forall_mem_append.mpr ⟨hwhole, hone⟩, hfraction⟩
      exact ⟨{ n with whole := n.whole ++ [c] }, ⟨hall, by simp, hpoint, hexp⟩,
        by simp [text, hx, hp, hnil]⟩

theorem exists_append_point (hn : n.Valid) (hx : n.exponent = none) (hp : n.point = false) :
    ∃ m : Numeral, m.Valid ∧ m.text = n.text ++ ['.'] := by
  obtain ⟨hds, hne, hpoint, hexp⟩ := hn
  exact ⟨{ n with point := true }, ⟨hds, hne, Bool.noConfusion, hexp⟩,
    by simp [text, hx, hp, hpoint hp]⟩

theorem exists_append_exponent (hn : n.Valid) (hx : n.exponent = none) {x : Exponent}
    (hvalid : x.Valid) : ∃ m : Numeral, m.Valid ∧ m.text = n.text ++ x.text := by
  obtain ⟨hds, hne, hpoint, -⟩ := hn
  refine ⟨{ n with exponent := some x }, ⟨hds, hne, hpoint, ?_⟩, by simp [text, hx]⟩
  rintro _ ⟨⟩
  exact hvalid

end Numeral

theorem Text.isName_append_singleton {cs : List Char} (h : isName cs = true) {c : Char}
    (hc : isWord c = true) : isName (cs ++ [c]) = true := by
  cases cs with
  | nil => cases h
  | cons d ds =>
    obtain ⟨hstart, hwords⟩ := Bool.and_eq_true_iff.mp h
    simp [isName, hstart, hwords, hc]

inductive LexemeClass where
  | numeral
  | name
  | symbol
deriving DecidableEq, Repr

namespace LexemeClass

def Has : LexemeClass → List Char → Prop
  | numeral, cs => ∃ n : Numeral, n.Valid ∧ n.text = cs
  | name, cs => isName cs = true
  | symbol, cs => ∃ c ∈ ['(', ')', '^', '+', '-', '*', '/'], cs = [c]

/-- Whether a beginning of a text is the longest one that belongs to a class. -/
structure Longest (k : LexemeClass) (cs text : List Char) : Prop where
  has : k.Has cs
  isPrefix : cs <+: text
  length_le : ∀ ds, ds <+: text → k.Has ds → ds.length ≤ cs.length

def ofLexeme : Lexeme → LexemeClass
  | .numeral _ => numeral
  | .name _ => name
  | .operator _ | .opening | .closing => symbol

variable {k k' : LexemeClass} {cs ds rest : List Char}

theorem has_ofLexeme {l : Lexeme} (hl : l.Valid) : (ofLexeme l).Has l.text := by
  cases l with
  | numeral n => exact ⟨n, hl, rfl⟩
  | name cs => exact hl
  | operator o => exact ⟨o.symbol, by cases o <;> decide, rfl⟩
  | opening => exact ⟨'(', by decide, rfl⟩
  | closing => exact ⟨')', by decide, rfl⟩

theorem exists_lexeme (h : k.Has cs) : ∃ l : Lexeme, l.Valid ∧ ofLexeme l = k ∧ l.text = cs := by
  cases k with
  | numeral =>
    obtain ⟨n, hn, rfl⟩ := h
    exact ⟨.numeral n, hn, rfl, rfl⟩
  | name => exact ⟨.name cs, h, rfl, rfl⟩
  | symbol =>
    obtain ⟨c, hc, rfl⟩ := h
    simp only [List.mem_cons, List.not_mem_nil, or_false] at hc
    rcases hc with rfl | rfl | rfl | rfl | rfl | rfl | rfl
    · exact ⟨.opening, trivial, rfl, rfl⟩
    · exact ⟨.closing, trivial, rfl, rfl⟩
    · exact ⟨.operator .pow, trivial, rfl, rfl⟩
    · exact ⟨.operator .add, trivial, rfl, rfl⟩
    · exact ⟨.operator .sub, trivial, rfl, rfl⟩
    · exact ⟨.operator .mul, trivial, rfl, rfl⟩
    · exact ⟨.operator .div, trivial, rfl, rfl⟩

theorem eq_of_has (h : k.Has cs) (h' : k'.Has cs) : k = k' := by
  obtain ⟨l, hl, rfl, rfl⟩ := exists_lexeme h
  obtain ⟨l', hl', rfl, htext⟩ := exists_lexeme h'
  have hscan := Lexeme.scan?_text hl
  rw [← htext, Lexeme.scan?_text hl'] at hscan
  cases hscan
  rfl

theorem Longest.not_has_append (h : k.Longest cs (cs ++ rest)) (hne : ds ≠ [])
    (hds : ds <+: rest) : ¬ k.Has (cs ++ ds) := by
  intro hhas
  have hlength := h.length_le _ ((List.prefix_append_right_inj cs).mpr hds) hhas
  have hpos := List.length_pos_iff.mpr hne
  rw [List.length_append] at hlength
  omega

end LexemeClass

namespace Lexeme

variable {l : Lexeme} {rest : List Char}

theorem stopsAt_of_longest (hl : l.Valid)
    (h : (LexemeClass.ofLexeme l).Longest l.text (l.text ++ rest)) : l.StopsAt rest := by
  have hhead {c : Char} (hc : c ∈ rest.head?) :
      ¬ (LexemeClass.ofLexeme l).Has (l.text ++ [c]) := by
    obtain ⟨cs, rfl⟩ := List.head?_eq_some_iff.mp hc
    exact h.not_has_append (List.cons_ne_nil c []) ⟨cs, rfl⟩
  cases l with
  | numeral n =>
    refine ⟨fun c hc => ?_, fun hexp => ⟨fun x hx hpre => ?_, fun hpoint c hc => ?_⟩⟩
    · exact eq_false_of_ne_true fun hdigit => hhead hc (n.exists_append_digit hl hdigit)
    · exact h.not_has_append (List.cons_ne_nil _ _) hpre (n.exists_append_exponent hl hexp hx)
    · rintro rfl
      exact hhead hc (n.exists_append_point hl hexp hpoint)
  | name cs =>
    intro c hc
    exact eq_false_of_ne_true fun hword => hhead hc (isName_append_singleton hl hword)
  | operator o | opening | closing => trivial

/-- A lexeme is the longest of its class exactly if it does not go on with the rest of the text. -/
theorem longest_iff_stopsAt (hl : l.Valid) :
    (LexemeClass.ofLexeme l).Longest l.text (l.text ++ rest) ↔ l.StopsAt rest := by
  refine ⟨stopsAt_of_longest hl, fun hrest => ?_⟩
  refine ⟨LexemeClass.has_ofLexeme hl, List.prefix_append _ _, fun ds hds hhas => ?_⟩
  obtain ⟨l', hl', -, rfl⟩ := LexemeClass.exists_lexeme hhas
  rcases List.prefix_or_prefix_of_prefix hds (List.prefix_append l.text rest) with hpre | ⟨as, has⟩
  · exact hpre.length_le
  · rw [← has, List.prefix_append_right_inj] at hds
    obtain ⟨bs, rfl⟩ := hds
    have hscan := scan?_text_append hl hrest.of_append
    rw [has, scan?_text hl'] at hscan
    cases hscan
    exact Nat.le_refl _

end Lexeme

structure Segment where
  blanks : List Char
  body : List Char
deriving DecidableEq

def Segment.text (g : Segment) : List Char := g.blanks ++ g.body

def Piece.segment (p : Piece) : Segment := ⟨p.blanks, p.lexeme.text⟩

/-- A text is the segments put together, and the body of each is the longest beginning of what is
left of the text that belongs to its class. -/
inductive Cut : List Char → List Segment → Prop
  | nil : Cut [] []
  | cons {g : Segment} {k : LexemeClass} {rest : List Char} {gs : List Segment}
      (hblanks : ∀ c ∈ g.blanks, isBlank c = true) (hbody : k.Longest g.body (g.body ++ rest))
      (hrest : Cut rest gs) : Cut (g.text ++ rest) (g :: gs)

namespace Cut

variable {cs : List Char} {gs : List Segment}

theorem readFrom_eq (h : Cut cs gs) (position : Nat) :
    (readFrom position cs).stray = none ∧ (readFrom position cs).pieces.map Piece.segment = gs := by
  induction h generalizing position with
  | nil =>
    rw [readFrom_blank rfl]
    exact ⟨rfl, rfl⟩
  | @cons g k rest gs hblanks hbody hrest ih =>
    obtain ⟨l, hl, rfl, htext⟩ := LexemeClass.exists_lexeme hbody.has
    obtain ⟨blanks, body⟩ := g
    obtain rfl : l.text = body := htext
    have hstop := (Lexeme.longest_iff_stopsAt hl).mp hbody
    have hread := readFrom_piece_append (p := ⟨blanks, l⟩) hblanks hl hstop position
    obtain ⟨hstray, hpieces⟩ := ih (position + blanks.length + l.text.length)
    change (readFrom position (Piece.text ⟨blanks, l⟩ ++ rest)).stray = none ∧
      (readFrom position (Piece.text ⟨blanks, l⟩ ++ rest)).pieces.map Piece.segment = _
    rw [hread]
    exact ⟨hstray, congrArg (_ :: ·) hpieces⟩

theorem flatMap_text (h : Cut cs gs) : gs.flatMap Segment.text = cs := by
  induction h with
  | nil => rfl
  | cons hblanks hbody hrest ih => rw [List.flatMap_cons, ih]

theorem flatMap_body (h : Cut cs gs) : gs.flatMap Segment.body = cs.filter (!isBlank ·) := by
  induction h with
  | nil => rfl
  | @cons g k rest gs hblanks hbody hrest ih =>
    obtain ⟨l, hl, -, htext⟩ := LexemeClass.exists_lexeme hbody.has
    have hnone : g.blanks.filter (!isBlank ·) = [] := by
      refine List.filter_eq_nil_iff.mpr fun c hc => ?_
      simp [hblanks c hc]
    have hall : g.body.filter (!isBlank ·) = g.body := by
      refine List.filter_eq_self.mpr fun c hc => ?_
      simp [hl.not_isBlank_of_mem_text c (htext ▸ hc)]
    rw [List.flatMap_cons, ih, Segment.text, List.filter_append, List.filter_append, hnone, hall,
      List.nil_append]

end Cut

theorem cut_readFrom {position : Nat} {cs : List Char}
    (hend : ∀ c ∈ cs.getLast?, isBlank c = false) (h : (readFrom position cs).stray = none) :
    Cut cs ((readFrom position cs).pieces.map Piece.segment) := by
  fun_induction readFrom position cs with
  | case1 position cs hd =>
    have hblanks := List.dropWhile_eq_nil_iff.mp hd
    have hnil : cs = [] := by
      refine List.getLast?_eq_none_iff.mp (Option.eq_none_iff_forall_ne_some.mpr fun c hc => ?_)
      have hblank := hblanks c (List.mem_of_getLast? hc)
      rw [hend c hc] at hblank
      cases hblank
    exact hnil ▸ Cut.nil
  | case2 => cases h
  | case3 position cs blanks start c rest hd l after hs later ih =>
    obtain ⟨hl, hstop, htext⟩ := Lexeme.scan?_eq_some_iff.mp hs
    have hcs : blanks ++ l.text ++ after = cs := by
      rw [List.append_assoc, htext, ← hd]
      exact List.takeWhile_append_dropWhile
    have hend' : ∀ c ∈ after.getLast?, isBlank c = false := by
      intro c hc
      apply hend
      rw [← hcs, List.getLast?_append, Option.mem_def.mp hc]
      rfl
    have hcut := Cut.cons (g := ⟨blanks, l.text⟩) (List.all_eq_true.mp List.all_takeWhile)
      ((Lexeme.longest_iff_stopsAt hl).mpr hstop) (ih hend' h)
    exact hcs ▸ hcut

theorem not_isBlank_getLast?_trimEnd (cs : List Char) :
    ∀ c ∈ (trimEnd cs).getLast?, isBlank c = false := by
  intro c hc
  rw [trimEnd, List.getLast?_reverse] at hc
  have hnot := List.head?_dropWhile_not isBlank cs.reverse
  rwa [Option.mem_def.mp hc] at hnot

/-- What is read of a text is the only way to cut it. -/
theorem cut_trimEnd_iff {s : String} {gs : List Segment} : Cut (trimEnd s.toList) gs ↔
    (read s).stray = none ∧ (read s).pieces.map Piece.segment = gs := by
  constructor
  · intro h
    exact h.readFrom_eq 0
  · rintro ⟨hs, rfl⟩
    exact cut_readFrom (not_isBlank_getLast?_trimEnd _) hs

/-- Whether a token is what a text means: the double nearest to the number that a numeral spells,
and the text itself if it is a name or a symbol. -/
def Token.Means : Token → List Char → Prop
  | number x, cs => ∃ n : Numeral, n.Valid ∧ n.text = cs ∧ n.value = x
  | name n, cs => isName cs = true ∧ n.toList = cs
  | operator o, cs => [o.symbol] = cs
  | opening, cs => ['('] = cs
  | closing, cs => [')'] = cs

theorem Lexeme.Valid.means {l : Lexeme} (hl : l.Valid) : l.token.Means l.text := by
  cases l with
  | numeral n => exact ⟨n, hl, rfl, rfl⟩
  | name cs => exact ⟨hl, String.toList_ofList⟩
  | operator o | opening | closing => rfl

theorem filter_trimEnd (cs : List Char) :
    (trimEnd cs).filter (!isBlank ·) = cs.filter (!isBlank ·) := by
  obtain ⟨bs, hbs, htrim⟩ := trimEnd_append cs
  have hnone : bs.filter (!isBlank ·) = [] := by
    refine List.filter_eq_nil_iff.mpr fun c hc => ?_
    simp [hbs c hc]
  have hfilter := congrArg (List.filter (!isBlank ·)) htrim
  rwa [List.filter_append, hnone, List.append_nil] at hfilter

/-- A text that is read to its end is, but for the blanks at its end, cut into segments in one way.
Each body belongs to one class only, the tokens are what the bodies mean, and the bodies have all
the characters that are no blanks, once each and in their order. -/
theorem exists_unique_cut {s : String} (hs : (read s).stray = none) :
    ∃ gs : List Segment, Cut (trimEnd s.toList) gs ∧
      (∀ gs', Cut (trimEnd s.toList) gs' → gs' = gs) ∧
      gs.flatMap Segment.text = trimEnd s.toList ∧
      (∀ g ∈ gs, g.body ≠ [] ∧ ∃! k : LexemeClass, k.Has g.body) ∧
      List.Forall₂ (fun g t => Token.Means t g.body) gs (read s).tokens ∧
      gs.flatMap Segment.body = s.toList.filter (!isBlank ·) := by
  have hcut := cut_trimEnd_iff.mpr ⟨hs, rfl⟩
  have hvalid : ∀ p ∈ (read s).pieces, p.lexeme.Valid := fun p hp => valid_of_mem_pieces hp
  refine ⟨_, hcut, fun gs' hgs' => (cut_trimEnd_iff.mp hgs').2.symm, hcut.flatMap_text, ?_, ?_, ?_⟩
  · refine List.forall_mem_map.mpr fun p hp => ⟨(hvalid p hp).text_ne_nil, ?_⟩
    have hhas := LexemeClass.has_ofLexeme (hvalid p hp)
    exact ⟨_, hhas, fun k hk => LexemeClass.eq_of_has hk hhas⟩
  · rw [Reading.tokens, List.forall₂_map_left_iff, List.forall₂_map_right_iff, List.forall₂_same]
    exact fun p hp => (hvalid p hp).means
  · rw [hcut.flatMap_body, filter_trimEnd]

theorem exists_unique_cut_points :
    (read "1e+ .5.5 12.e5x\t").stray = none ∧
    Cut "1e+ .5.5 12.e5x".toList [⟨[], ['1']⟩, ⟨[], ['e']⟩, ⟨[], ['+']⟩, ⟨[' '], ['.', '5']⟩,
      ⟨[], ['.', '5']⟩, ⟨[' '], ['1', '2', '.', 'e', '5']⟩, ⟨[], ['x']⟩] := by
  have hs : (read "1e+ .5.5 12.e5x\t").stray = none := by decide +kernel
  have hpieces : (read "1e+ .5.5 12.e5x\t").pieces.map Piece.segment = [⟨[], ['1']⟩, ⟨[], ['e']⟩,
      ⟨[], ['+']⟩, ⟨[' '], ['.', '5']⟩, ⟨[], ['.', '5']⟩, ⟨[' '], ['1', '2', '.', 'e', '5']⟩,
      ⟨[], ['x']⟩] := by decide +kernel
  have htrim : trimEnd "1e+ .5.5 12.e5x\t".toList = "1e+ .5.5 12.e5x".toList := by decide +kernel
  obtain ⟨gs, hcut, hunique, -⟩ := exists_unique_cut hs
  obtain rfl := hunique _ (cut_trimEnd_iff.mpr ⟨hs, hpieces⟩)
  rw [htrim] at hcut
  exact ⟨hs, hcut⟩

end Formula
