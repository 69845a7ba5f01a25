import Formula.Proofs.Juxtaposition
import Formula.Proofs.Scanning

/-!
# Blanks between lexemes

A blank cuts a text in two: what stands before it and what stands after it are read apart from each
other (`read_append_blanks_append`). Where no operand stands directly after another no blanks are
needed, since neither a numeral nor a name goes on with an operator or a closing parenthesis. So a
well-formed expression is read as the same tokens, and parsed as the same tree, however it is spaced
(`parse_layout`).
-/

namespace Formula

open Text

/-- Blanks between two texts separate them. After the first text, if it is read to its end, comes
what is read of the second, and a character that is stray there is stray here. A character that is
stray in the first text ends the reading. -/
theorem read_append_blanks_append (s t : String) {w : String} (hw : w ≠ "")
    (hblanks : ∀ c ∈ w.toList, isBlank c = true) :
    ((read s).stray = none →
      (read (s ++ w ++ t)).tokens = (read s).tokens ++ (read t).tokens ∧
      (read (s ++ w ++ t)).stray = (read t).stray.map (·.later (s.length + w.length))) ∧
    ∀ stray, (read s).stray = some stray →
      (read (s ++ w ++ t)).tokens = (read s).tokens ∧ (read (s ++ w ++ t)).stray = some stray := by
  have hhead : ∀ c ∈ (w.toList ++ t.toList).head?, isBlank c = true := by
    obtain ⟨d, ds, hd⟩ := List.exists_cons_of_ne_nil (mt String.toList_eq_nil_iff.mp hw)
    intro c hc
    rw [hd] at hc
    cases hc
    exact hblanks d (hd ▸ List.mem_cons_self)
  have htext : (s ++ w ++ t).toList = s.toList ++ (w.toList ++ t.toList) := by
    rw [String.toList_append, String.toList_append, List.append_assoc]
  simp only [read_eq, htext]
  constructor
  · intro hs
    obtain ⟨htokens, hstray⟩ := readFrom_append hs (delimits_of_head? hhead)
    obtain ⟨htokens', hstray'⟩ :=
      readFrom_blanks_append hblanks t.toList (0 + s.toList.length)
    have hlength : 0 + s.toList.length + w.toList.length = 0 + (s.length + w.length) := by
      rw [String.length_toList, String.length_toList, Nat.add_assoc]
    rw [hlength, readFrom_add _ 0 t.toList] at htokens' hstray'
    exact ⟨htokens.trans (congrArg _ htokens'), hstray.trans hstray'⟩
  · intro stray hs
    have hread : readFrom 0 (s.toList ++ (w.toList ++ t.toList)) = readFrom 0 s.toList := by
      refine readFrom_append_eq hhead fun hnone => ?_
      rw [hs] at hnone
      cases hnone
    exact ⟨congrArg _ hread, (congrArg _ hread).trans hs⟩

theorem read_append_blanks_append_exponent :
    (read "1e \t+5 $ 7").tokens = (read "1e").tokens ++ (read "+5 $ 7").tokens ∧
    (read "1e \t+5 $ 7").stray = some ⟨'$', 7⟩ ∧
    (read "1e \t+5 $ 7 (").tokens = (read "1e \t+5 $ 7").tokens ∧
    (read "1e \t+5 $ 7 (").stray = some ⟨'$', 7⟩ := by
  have hs : (read "1e").stray = none := by decide +kernel
  have ht : (read "+5 $ 7").stray = some ⟨'$', 3⟩ := by decide +kernel
  have hne : " \t" ≠ "" ∧ " " ≠ "" := by decide
  have htab : ∀ c ∈ " \t".toList, isBlank c = true := List.all_eq_true.mp rfl
  have hspace : ∀ c ∈ " ".toList, isBlank c = true := List.all_eq_true.mp rfl
  obtain ⟨htokens, hstray⟩ := (read_append_blanks_append "1e" "+5 $ 7" hne.1 htab).1 hs
  rw [ht] at hstray
  obtain ⟨htokens', hstray'⟩ :=
    (read_append_blanks_append "1e \t+5 $ 7" "(" hne.2 hspace).2 _ hstray
  exact ⟨htokens, hstray, htokens', hstray'⟩

structure Piece.Valid (p : Piece) : Prop where
  blanks : ∀ c ∈ p.blanks, isBlank c = true
  lexeme : p.lexeme.Valid

section Layout

variable {l : Lexeme} {bs rest tail : List Char} {ps : List Piece}

theorem Ends.blanks_append (hbs : ∀ c ∈ bs, isBlank c = true) (h : Ends rest) :
    Ends (bs ++ rest) := by
  cases bs with
  | nil => exact h
  | cons b bs => exact (delimits_of_isBlank (hbs b List.mem_cons_self)).1

theorem Lexeme.ends_text_append (hl : l.token.beginsOperand = false) (rest : List Char) :
    Ends (l.text ++ rest) := by
  cases l with
  | numeral n => cases hl
  | name cs => cases hl
  | opening => cases hl
  | operator o =>
    obtain ⟨hword, -, hpoint⟩ := ofSymbol?_eq_some (ofSymbol?_symbol o)
    exact ends_cons hword hpoint
  | closing => exact delimits_closing.1

theorem Lexeme.stopsAt_of_endsOperand (h : l.token.endsOperand = true → Ends rest) :
    l.StopsAt rest := by
  cases l with
  | numeral n => exact .of_ends (h rfl)
  | name cs => exact .of_ends (h rfl)
  | operator o | opening | closing => trivial

theorem ends_layout (hps : ∀ p ∈ ps, p.Valid) (htail : ∀ c ∈ tail, isBlank c = true)
    (hbegins : ∀ p ∈ ps.head?, p.lexeme.token.beginsOperand = false) :
    Ends (ps.flatMap Piece.text ++ tail) := by
  cases ps with
  | nil =>
    have hends := ends_nil.blanks_append htail
    rw [List.append_nil] at hends
    exact hends
  | cons p ps =>
    rw [List.flatMap_cons, Piece.text, List.append_assoc, List.append_assoc]
    have hends := Lexeme.ends_text_append (hbegins p rfl) (ps.flatMap Piece.text ++ tail)
    exact hends.blanks_append (hps p List.mem_cons_self).blanks

/-- Lexemes among which no operand stands directly after another are read as they are, with any
blanks between them. -/
theorem readFrom_layout (hps : ∀ p ∈ ps, p.Valid) (htail : ∀ c ∈ tail, isBlank c = true)
    (hseparated : Separated (ps.map (·.lexeme.token))) (position : Nat) :
    readFrom position (ps.flatMap Piece.text ++ tail) = ⟨ps, none⟩ := by
  induction ps generalizing position with
  | nil => exact readFrom_blank (List.dropWhile_eq_nil_iff.mpr htail) position
  | cons p ps ih =>
    obtain ⟨⟨hblanks, hlexeme⟩, hps⟩ := List.forall_mem_cons.mp hps
    have hstop : p.lexeme.StopsAt (ps.flatMap Piece.text ++ tail) := by
      refine Lexeme.stopsAt_of_endsOperand fun hend => ends_layout hps htail ?_
      rintro q hq
      obtain ⟨qs, rfl⟩ := List.head?_eq_some_iff.mp hq
      exact (Separated.cons_cons_iff.mp hseparated).1 hend
    rw [List.flatMap_cons, List.append_assoc, readFrom_piece_append hblanks hlexeme hstop,
      ih hps hseparated.tail]

end Layout

/-- The layout of a well-formed expression does not matter: lexemes that spell a sum of the grammar
are read as its tokens and parsed as its tree, whatever blanks stand before, between and after
them. -/
theorem parse_layout (p : Phrase .sum) {ps : List Piece} {tail : List Char} {s : String}
    (hps : ∀ q ∈ ps, q.Valid) (htail : ∀ c ∈ tail, isBlank c = true)
    (htokens : ps.map (·.lexeme.token) = p.tokens)
    (hs : s.toList = ps.flatMap Piece.text ++ tail) :
    read s = ⟨ps, none⟩ ∧ (read s).tokens = p.tokens ∧ parse s = .ok p.tree := by
  have hseparated : Separated (ps.map (·.lexeme.token)) := htokens ▸ p.separated_tokens
  have hread : read s = ⟨ps, none⟩ := by
    rw [read_eq, hs]
    exact readFrom_layout hps htail hseparated 0
  have hphrase : (read s).tokens = p.tokens := by
    rw [hread]
    exact htokens
  have hstray : (read s).stray = none := by rw [hread]
  exact ⟨hread, hphrase, parse_eq_ok.mpr (p.tree_reading hstray hphrase.symm)⟩

theorem parse_layout_exponents :
    parse "2.-e5*(.5E1)" =
      .ok ((Expr.num 2).join .sub ((Expr.var "e5").join .mul (.num 5))) ∧
    parse " 2. - e5 * ( .5E1 )\n" =
      .ok ((Expr.num 2).join .sub ((Expr.var "e5").join .mul (.num 5))) := by
  let two : Lexeme := .numeral ⟨['2'], true, [], none⟩
  let five : Lexeme := .numeral ⟨[], true, ['5'], some ⟨'E', none, ['1']⟩⟩
  let ls : List Lexeme :=
    [two, .operator .sub, .name ['e', '5'], .operator .mul, .opening, five, .closing]
  let group : Phrase .atom := .group (.alone nofun (.alone nofun (.alone nofun (.number 5))))
  let product : Phrase .product :=
    .binary .mul rfl (.alone nofun (.alone nofun (.name "e5"))) (.alone nofun group)
  let p : Phrase .sum :=
    .binary .sub rfl (.alone nofun (.alone nofun (.alone nofun (.number 2)))) product
  have htokens : ls.map Lexeme.token = p.tokens := by decide +kernel
  have hscan : ∀ l ∈ ls, Lexeme.scan? l.text = some (l, []) := by decide +kernel
  have hls : ∀ l ∈ ls, l.Valid := fun l hl => (Lexeme.scan?_eq_some_iff.mp (hscan l hl)).1
  have hps (bs : List Char) (hbs : ∀ c ∈ bs, isBlank c = true) :
      ∀ q ∈ ls.map (Piece.mk bs), q.Valid :=
    List.forall_mem_map.mpr fun l hl => ⟨hbs, hls l hl⟩
  have hnone : ∀ c ∈ ([] : List Char), isBlank c = true := nofun
  have hspace : ∀ c ∈ [' '], isBlank c = true := List.forall_mem_singleton.mpr rfl
  have hnewline : ∀ c ∈ ['\n'], isBlank c = true := List.forall_mem_singleton.mpr rfl
  exact ⟨(parse_layout p (hps [] hnone) hnone htokens rfl).2.2,
    (parse_layout p (hps [' '] hspace) hnewline htokens rfl).2.2⟩

end Formula
