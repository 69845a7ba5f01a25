import Mathlib.Data.List.TakeWhile
import Formula.Proofs.Munch
import Formula.Proofs.Settling

/-!
# Texts and their tokens

A text is described by the tokens it `Scans` to, so that one can be put together from right to left,
blanks included. Main statements: if a text is read to its end and a delimiter comes next, the rest
is read as if it stood alone (`readFrom_append`), and blanks at the end change nothing
(`readFrom_append_blanks`).
-/

namespace Formula

open Text

def Stray.later (n : Nat) (s : Stray) : Stray := { s with position := s.position + n }

section Reading

variable {cs ds rest : List Char} {c : Char} {l : Lexeme} {ts us : List Token}

theorem readFrom_blank (hd : cs.dropWhile isBlank = []) (position : Nat) :
    readFrom position cs = ⟨[], none⟩ := by
  rw [readFrom]
  split
  · rfl
  · rename_i hd'
    rw [hd] at hd'
    cases hd'

theorem readFrom_of_scan?_eq_none (hd : cs.dropWhile isBlank = c :: rest)
    (hl : Lexeme.scan? (c :: rest) = none) (position : Nat) :
    readFrom position cs = ⟨[], some ⟨c, position + (cs.takeWhile isBlank).length⟩⟩ := by
  rw [readFrom]
  split
  · rename_i hd'
    rw [hd] at hd'
    cases hd'
  · rename_i c' cs' hd'
    rw [hd] at hd'
    cases hd'
    split
    · rfl
    · rename_i hs
      rw [hl] at hs
      cases hs

theorem readFrom_of_scan? (hl : Lexeme.scan? (cs.dropWhile isBlank) = some (l, rest))
    (position : Nat) :
    let later := readFrom (position + (cs.takeWhile isBlank).length + l.text.length) rest
    readFrom position cs = ⟨⟨cs.takeWhile isBlank, l⟩ :: later.pieces, later.stray⟩ := by
  intro later
  rw [readFrom]
  split
  · rename_i hd
    rw [hd] at hl
    cases hl
  · rename_i c cs' hd
    rw [hd] at hl
    split
    · rename_i hs
      rw [hs] at hl
      cases hl
    · rename_i l' after hs
      rw [hs] at hl
      cases hl
      rfl

theorem valid_of_mem_pieces {position : Nat} {p : Piece}
    (hp : p ∈ (readFrom position cs).pieces) : p.lexeme.Valid := by
  fun_induction readFrom position cs with
  | case1 => cases hp
  | case2 => cases hp
  | case3 position cs blanks start c rest hd l after hs later ih =>
    rcases List.mem_cons.mp hp with rfl | hp
    · exact (Lexeme.scan?_eq_some_iff.mp hs).1
    · exact ih hp

theorem readFrom_add (n position : Nat) (cs : List Char) : readFrom (position + n) cs =
    ⟨(readFrom position cs).pieces, (readFrom position cs).stray.map (·.later n)⟩ := by
  fun_induction readFrom position cs with
  | case1 position cs hd => exact readFrom_blank hd _
  | case2 position cs blanks start c rest hd hs =>
    rw [readFrom_of_scan?_eq_none hd hs]
    simp only [Option.map_some, Stray.later, start, blanks]
    congr 3
    omega
  | case3 position cs blanks start c rest hd l after hs later ih =>
    have hplace : position + n + blanks.length + l.text.length =
        start + l.text.length + n := by
      simp only [start]
      omega
    rw [readFrom_of_scan? (hd ▸ hs), hplace, ih]

/-- A text that is read to its end, as the tokens given. -/
def Scans (cs : List Char) (ts : List Token) : Prop :=
  ∀ position, (readFrom position cs).stray = none ∧ (readFrom position cs).tokens = ts

theorem scans_iff_readFrom (position : Nat) : Scans cs ts ↔
    (readFrom position cs).stray = none ∧ (readFrom position cs).tokens = ts := by
  have hzero (n : Nat) : readFrom n cs =
      ⟨(readFrom 0 cs).pieces, (readFrom 0 cs).stray.map (·.later n)⟩ := by
    rw [← readFrom_add, Nat.zero_add]
  constructor
  · intro h
    exact h position
  · intro h n
    rw [hzero, Option.map_eq_none_iff] at h
    rw [hzero, Option.map_eq_none_iff]
    exact h

theorem scans_nil : Scans [] [] := by
  intro position
  rw [readFrom_blank rfl]
  exact ⟨rfl, rfl⟩

theorem not_isBlank_head?_text_append (hl : l.Valid) (rest : List Char) :
    ∀ c ∈ (l.text ++ rest).head?, isBlank c = false := by
  obtain ⟨d, ds, htext⟩ := List.exists_cons_of_ne_nil hl.text_ne_nil
  intro c hc
  rw [htext] at hc
  cases hc
  exact hl.not_isBlank_of_mem_text d (htext ▸ List.mem_cons_self)

/-- A piece is read off the front of a text if its lexeme does not go on with the rest. -/
theorem readFrom_piece_append {p : Piece} (hblanks : ∀ c ∈ p.blanks, isBlank c = true)
    (hl : p.lexeme.Valid) (hrest : p.lexeme.StopsAt rest) (position : Nat) :
    let later := readFrom (position + p.blanks.length + p.lexeme.text.length) rest
    readFrom position (p.text ++ rest) = ⟨p :: later.pieces, later.stray⟩ := by
  have hhead := not_isBlank_head?_text_append hl rest
  have htake := takeWhile_append_eq hblanks hhead
  have hscan : Lexeme.scan? ((p.text ++ rest).dropWhile isBlank) = some (p.lexeme, rest) := by
    rw [Piece.text, List.append_assoc, dropWhile_append_eq hblanks hhead]
    exact Lexeme.scan?_text_append hl hrest
  rw [readFrom_of_scan? hscan position, Piece.text, List.append_assoc, htake]

theorem Scans.lexeme (hl : l.Valid) (hrest : l.StopsAt rest) (h : Scans rest ts) :
    Scans (l.text ++ rest) (l.token :: ts) := by
  intro position
  have hread := readFrom_piece_append (p := ⟨[], l⟩) (by simp) hl hrest position
  obtain ⟨hstray, htokens⟩ := h (position + 0 + l.text.length)
  change readFrom position (l.text ++ rest) = _ at hread
  rw [hread]
  exact ⟨hstray, congrArg (l.token :: ·) htokens⟩

theorem Scans.symbol (hl : Lexeme.ofSymbol? c = some l) (h : Scans rest ts) :
    Scans (c :: rest) (l.token :: ts) := by
  obtain ⟨hvalid, hstop⟩ := Lexeme.valid_of_ofSymbol? hl rest
  have hscans := Scans.lexeme hvalid hstop h
  rwa [Lexeme.text_of_ofSymbol? hl] at hscans

theorem Scans.numeral {n : Numeral} (hn : n.Valid) (hrest : Ends rest) (h : Scans rest ts) :
    Scans (n.text ++ rest) (.number n.value :: ts) :=
  Scans.lexeme (l := .numeral n) hn (.of_ends hrest) h

theorem Scans.name {name : List Char} (hname : isName name = true) (hrest : Ends rest)
    (h : Scans rest ts) : Scans (name ++ rest) (.name (String.ofList name) :: ts) :=
  Scans.lexeme (l := .name name) hname (.of_ends hrest) h

theorem readFrom_blanks_append (hcs : ∀ c ∈ cs, isBlank c = true) (ds : List Char)
    (position : Nat) :
    (readFrom position (cs ++ ds)).tokens = (readFrom (position + cs.length) ds).tokens ∧
      (readFrom position (cs ++ ds)).stray = (readFrom (position + cs.length) ds).stray := by
  have hdrop : (cs ++ ds).dropWhile isBlank = ds.dropWhile isBlank :=
    List.dropWhile_append_of_pos hcs
  have hlength : position + ((cs ++ ds).takeWhile isBlank).length =
      position + cs.length + (ds.takeWhile isBlank).length := by
    rw [List.takeWhile_append_of_pos hcs, List.length_append]
    omega
  cases hd : ds.dropWhile isBlank with
  | nil =>
    rw [readFrom_blank hd, readFrom_blank (hdrop.trans hd)]
    exact ⟨rfl, rfl⟩
  | cons c rest =>
    cases hl : Lexeme.scan? (c :: rest) with
    | none =>
      rw [readFrom_of_scan?_eq_none hd hl, readFrom_of_scan?_eq_none (hdrop.trans hd) hl, hlength]
      exact ⟨rfl, rfl⟩
    | some p =>
      obtain ⟨l, after⟩ := p
      rw [← hd] at hl
      rw [readFrom_of_scan? hl, readFrom_of_scan? (hdrop ▸ hl), hlength]
      exact ⟨rfl, rfl⟩

theorem Scans.blanks (hcs : ∀ c ∈ cs, isBlank c = true) (h : Scans ds ts) :
    Scans (cs ++ ds) ts := by
  intro position
  obtain ⟨htokens, hstray⟩ := readFrom_blanks_append hcs ds position
  rw [htokens, hstray]
  exact h _

theorem Scans.blank (hc : isBlank c = true) (h : Scans cs ts) : Scans (c :: cs) ts := by
  have hone : ∀ d ∈ [c], isBlank d = true := by simpa using hc
  exact Scans.blanks hone h

theorem Scans.space (h : Scans cs ts) : Scans (' ' :: cs) ts := h.blank (by decide)

theorem takeWhile_append_of_dropWhile {p : Char → Bool} (hd : cs.dropWhile p = c :: rest)
    (ds : List Char) :
    (cs ++ ds).takeWhile p = cs.takeWhile p ∧ (cs ++ ds).dropWhile p = c :: rest ++ ds := by
  have hc : p c = false := by
    have hnot := List.head?_dropWhile_not p cs
    rwa [hd] at hnot
  have hsplit : cs ++ ds = cs.takeWhile p ++ (c :: rest ++ ds) := by
    rw [← hd, ← List.append_assoc, List.takeWhile_append_dropWhile]
  have hall := List.all_eq_true.mp (List.all_takeWhile (p := p) (l := cs))
  have hhead : ∀ d ∈ (c :: rest ++ ds).head?, p d = false := by
    intro d hd
    cases hd
    exact hc
  rw [hsplit, takeWhile_append_eq hall hhead, dropWhile_append_eq hall hhead]
  exact ⟨rfl, rfl⟩

/-- A delimiter after a text does not change the lexeme that the text begins with. -/
theorem scan?_append_of_delimits (hl : Lexeme.scan? cs = some (l, rest)) (hds : Delimits ds) :
    Lexeme.scan? (cs ++ ds) = some (l, rest ++ ds) := by
  obtain ⟨hvalid, hstop, rfl⟩ := Lexeme.scan?_eq_some_iff.mp hl
  rw [List.append_assoc]
  exact Lexeme.scan?_text_append hvalid (hstop.append hds)

theorem readFrom_append_of_scan? {after : List Char} (hd : cs.dropWhile isBlank = c :: rest)
    (hs : Lexeme.scan? (c :: rest) = some (l, after)) (hds : Delimits ds) (position : Nat) :
    let later := readFrom (position + (cs.takeWhile isBlank).length + l.text.length) (after ++ ds)
    readFrom position (cs ++ ds) = ⟨⟨cs.takeWhile isBlank, l⟩ :: later.pieces, later.stray⟩ := by
  obtain ⟨htake, hdrop⟩ := takeWhile_append_of_dropWhile hd ds
  have hscan : Lexeme.scan? ((cs ++ ds).dropWhile isBlank) = some (l, after ++ ds) := by
    rw [hdrop]
    exact scan?_append_of_delimits hs hds
  rw [← htake]
  exact readFrom_of_scan? hscan position

/-- What follows a text that is read to its end is read as if it stood alone, if it begins with a
delimiter. -/
theorem readFrom_append {position : Nat} (h : (readFrom position cs).stray = none)
    (hds : Delimits ds) :
    (readFrom position (cs ++ ds)).tokens =
        (readFrom position cs).tokens ++ (readFrom (position + cs.length) ds).tokens ∧
      (readFrom position (cs ++ ds)).stray = (readFrom (position + cs.length) ds).stray := by
  fun_induction readFrom position cs with
  | case1 position cs hd =>
    exact readFrom_blanks_append (List.dropWhile_eq_nil_iff.mp hd) ds position
  | case2 => cases h
  | case3 position cs blanks start c rest hd l after hs later ih =>
    have hlength : start + l.text.length + after.length = position + cs.length := by
      have hcs := congrArg List.length (List.takeWhile_append_dropWhile (p := isBlank) (l := cs))
      rw [hd, ← (Lexeme.text_append_of_scan? hs).1] at hcs
      simp only [List.length_append] at hcs
      simp only [start, blanks]
      omega
    obtain ⟨htokens, hstray⟩ := ih h
    rw [readFrom_append_of_scan? hd hs hds]
    refine ⟨?_, hstray.trans (by rw [hlength])⟩
    rw [hlength] at htokens
    exact congrArg (l.token :: ·) htokens

theorem Scans.append (h : Scans cs ts) (hds : Delimits ds) (h' : Scans ds us) :
    Scans (cs ++ ds) (ts ++ us) := by
  intro position
  obtain ⟨hstray, htokens⟩ := h position
  obtain ⟨htokens', hstray'⟩ := readFrom_append hstray hds
  rw [htokens', hstray', htokens, (h' _).2]
  exact ⟨(h' _).1, rfl⟩

theorem Scans.group (h : Scans cs ts) (h' : Scans rest us) :
    Scans ('(' :: (cs ++ ')' :: rest)) (.opening :: (ts ++ .closing :: us)) := by
  have hclose := Scans.symbol (rfl : Lexeme.ofSymbol? ')' = some .closing) h'
  exact Scans.symbol (rfl : Lexeme.ofSymbol? '(' = some .opening) (h.append delimits_closing hclose)

section Blank

variable (hds : ∀ c ∈ ds.head?, isBlank c = true)

include hds

theorem delimits_of_head? : Delimits ds := by
  cases ds with
  | nil => exact delimits_nil
  | cons d ds => exact delimits_of_isBlank (hds d rfl)

/-- A lexeme does not reach over a blank. -/
theorem scan?_of_append (hl : Lexeme.scan? (cs ++ ds) = some (l, rest)) :
    ∃ rest', Lexeme.scan? cs = some (l, rest') ∧ rest = rest' ++ ds := by
  obtain ⟨hvalid, hstop, htext⟩ := Lexeme.scan?_eq_some_iff.mp hl
  rcases List.append_eq_append_iff.mp htext with ⟨as, rfl, rfl⟩ | ⟨as, has, rfl⟩
  · exact ⟨as, Lexeme.scan?_text_append hvalid hstop.of_append, rfl⟩
  · have hnil : as = [] := by
      cases as with
      | nil => rfl
      | cons a as =>
        have hblank := hds a rfl
        have hmem : a ∈ l.text := has ▸ List.mem_append_right cs List.mem_cons_self
        rw [hvalid.not_isBlank_of_mem_text a hmem] at hblank
        cases hblank
    subst hnil
    rw [List.append_nil] at has
    have hend : l.StopsAt ([] ++ rest) := hstop
    have hscan := Lexeme.scan?_text_append hvalid hend.of_append
    rw [List.append_nil, has] at hscan
    exact ⟨[], hscan, rfl⟩

theorem scan?_append_eq_none (hl : Lexeme.scan? cs = none) : Lexeme.scan? (cs ++ ds) = none := by
  refine Option.eq_none_iff_forall_ne_some.mpr fun p hp => ?_
  obtain ⟨rest', hscan, -⟩ := scan?_of_append hds hp
  rw [hl] at hscan
  cases hscan

theorem readFrom_append_eq {position : Nat}
    (h : (readFrom position cs).stray = none → ∀ c ∈ ds, isBlank c = true) :
    readFrom position (cs ++ ds) = readFrom position cs := by
  fun_induction readFrom position cs with
  | case1 position cs hd =>
    have hcs := List.dropWhile_eq_nil_iff.mp hd
    have hall := List.forall_mem_append.mpr ⟨hcs, h rfl⟩
    exact readFrom_blank (List.dropWhile_eq_nil_iff.mpr hall) _
  | case2 position cs blanks start c rest hd hs =>
    obtain ⟨htake, hdrop⟩ := takeWhile_append_of_dropWhile hd ds
    rw [readFrom_of_scan?_eq_none hdrop (scan?_append_eq_none hds hs), htake]
  | case3 position cs blanks start c rest hd l after hs later ih =>
    rw [readFrom_append_of_scan? hd hs (delimits_of_head? hds), ih h]

end Blank

theorem readFrom_append_blanks {bs : List Char} (hbs : ∀ c ∈ bs, isBlank c = true)
    (position : Nat) : readFrom position (cs ++ bs) = readFrom position cs :=
  readFrom_append_eq (fun c hc => hbs c (List.mem_of_mem_head? hc)) fun _ => hbs

theorem trimEnd_append (cs : List Char) :
    ∃ bs, (∀ c ∈ bs, isBlank c = true) ∧ trimEnd cs ++ bs = cs := by
  refine ⟨(cs.reverse.takeWhile isBlank).reverse, fun c hc => ?_, ?_⟩
  · exact List.all_eq_true.mp List.all_takeWhile c (List.mem_reverse.mp hc)
  · rw [trimEnd, ← List.reverse_append, List.takeWhile_append_dropWhile, List.reverse_reverse]

/-- The blanks at the end of a text need not be taken away before it is read. -/
theorem read_eq (s : String) : read s = readFrom 0 s.toList := by
  obtain ⟨bs, hbs, htrim⟩ := trimEnd_append s.toList
  rw [read, ← readFrom_append_blanks hbs, htrim]

theorem scans_iff_read {s : String} :
    Scans s.toList ts ↔ (read s).stray = none ∧ (read s).tokens = ts := by
  rw [read_eq]
  exact scans_iff_readFrom 0

theorem Scans.parse_eq_ok {s : String} {st : Stacks} {e : Expr} (h : Scans s.toList ts)
    (hrun : Stacks.empty.run? ts = some st) (hfin : st.finish = .ok e) : parse s = .ok e := by
  obtain ⟨hstray, htokens⟩ := scans_iff_read.mp h
  refine Formula.parse_eq_ok.mpr (Reading.tree_eq_ok.mpr ⟨hstray, st, ?_, hfin⟩)
  rwa [htokens]

theorem scans_of_parse {s : String} {e : Expr} (h : parse s = .ok e) :
    Scans s.toList (read s).tokens :=
  scans_iff_read.mpr ⟨(Reading.tree_eq_ok.mp (Formula.parse_eq_ok.mp h)).1, rfl⟩

end Reading

end Formula
