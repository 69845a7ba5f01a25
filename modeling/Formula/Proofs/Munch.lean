import Formula.Text.Blank
import Formula.Token

/-!
# Where a lexeme ends

`Lexeme.scan?` takes a lexeme off the front of a text exactly if the lexeme is valid and does not go
on with what follows it (`Lexeme.scan?_eq_some_iff`). Little of what follows counts: a lexeme that
ends in a text also ends in each part of that text (`Lexeme.StopsAt.of_append`), and it still ends
if such a part goes on with a delimiter instead (`Lexeme.StopsAt.append`).
-/

namespace Formula

open Text

/-- Neither a numeral nor a name goes on with this text. -/
def Ends (cs : List Char) : Prop := ∀ c ∈ cs.head?, isWord c = false ∧ c ≠ '.'

theorem ends_nil : Ends [] := by
  intro c hc
  cases hc

theorem ends_cons {c : Char} {cs : List Char} (hword : isWord c = false) (hpoint : c ≠ '.') :
    Ends (c :: cs) := by
  intro d hd
  cases hd
  exact ⟨hword, hpoint⟩

theorem has_of_isDigit {c : Char} (h : c.isDigit) {rs : Ranges}
    (hrs : (0x30, 0x39) ∈ rs.intervals) : rs.has c.toNat = true :=
  Ranges.has_iff.mpr ⟨_, hrs, Char.isDigit_iff_toNat.mp h⟩

theorem isWord_of_isDigit {c : Char} (h : c.isDigit) : isWord c = true :=
  has_of_isDigit h List.mem_cons_self

theorem not_isDigit_of_startsName {c : Char} (h : startsName c = true) : ¬ c.isDigit := by
  intro hdigit
  have hdecimal : decimals.has c.toNat = true := has_of_isDigit hdigit List.mem_cons_self
  unfold startsName at h
  rw [hdecimal] at h
  simp at h

theorem Ends.not_isDigit {cs : List Char} (h : Ends cs) : ∀ c ∈ cs.head?, c.isDigit = false := by
  intro c hc
  by_cases hdigit : c.isDigit
  · have hword := isWord_of_isDigit hdigit
    rw [(h c hc).1] at hword
    cases hword
  · exact eq_false_of_ne_true hdigit

namespace Text

/-- Whether no interval of one class meets an interval of another. -/
def Ranges.apart (rs ss : Ranges) : Bool :=
  rs.intervals.all fun r => ss.intervals.all fun s => r.2 < s.1 || s.2 < r.1

theorem Ranges.not_has_of_apart {rs ss : Ranges} (hapart : rs.apart ss = true) {n : Nat}
    (hr : rs.has n = true) : ss.has n = false := by
  by_cases hs : ss.has n = true
  · obtain ⟨r, hmem, hlo, hhi⟩ := has_iff.mp hr
    obtain ⟨s, hmem', hlo', hhi'⟩ := has_iff.mp hs
    have hdisjoint := List.all_eq_true.mp (List.all_eq_true.mp hapart r hmem) s hmem'
    have hlt : r.2 < s.1 ∨ s.2 < r.1 := by simpa using hdisjoint
    omega
  · exact eq_false_of_ne_true hs

theorem not_isBlank_of_isWord {c : Char} (h : isWord c = true) : isBlank c = false :=
  Ranges.not_has_of_apart (by decide +kernel : words.apart blanks = true) h

end Text

theorem takeWhile_append_eq {p : Char → Bool} {cs rest : List Char} (hcs : ∀ c ∈ cs, p c = true)
    (hrest : ∀ c ∈ rest.head?, p c = false) : (cs ++ rest).takeWhile p = cs := by
  rw [List.takeWhile_append_of_pos hcs]
  cases rest with
  | nil => simp
  | cons c rest => simp [hrest c rfl]

theorem dropWhile_append_eq {p : Char → Bool} {cs rest : List Char} (hcs : ∀ c ∈ cs, p c = true)
    (hrest : ∀ c ∈ rest.head?, p c = false) : (cs ++ rest).dropWhile p = rest := by
  rw [List.dropWhile_append_of_pos hcs]
  cases rest with
  | nil => rfl
  | cons c rest => simp [hrest c rfl]

theorem splitDigits_append_eq {ds rest : List Char} (hds : ∀ c ∈ ds, c.isDigit)
    (hrest : ∀ c ∈ rest.head?, c.isDigit = false) : splitDigits (ds ++ rest) = (ds, rest) := by
  unfold splitDigits
  rw [takeWhile_append_eq hds hrest, dropWhile_append_eq hds hrest]

theorem Exponent.scan?_text_append {x : Exponent} {rest : List Char} (hx : x.Valid)
    (hrest : ∀ c ∈ rest.head?, c.isDigit = false) :
    Exponent.scan? (x.text ++ rest) = some (x, rest) := by
  obtain ⟨hmark, hsign, hne, hdigits⟩ := hx
  have hsplit : splitSign (x.sign.toList ++ x.digits ++ rest) = (x.sign, x.digits ++ rest) := by
    cases hs : x.sign with
    | none =>
      obtain ⟨c, ds, hds⟩ := List.exists_cons_of_ne_nil hne
      have hc : c.isDigit := hdigits c (hds ▸ List.mem_cons_self)
      have hnot : ¬ (c = '+' ∨ c = '-') := by
        rintro (rfl | rfl)
        · exact absurd hc (by decide)
        · exact absurd hc (by decide)
      simp [hds, splitSign, hnot]
    | some c =>
      have hc : c = '+' ∨ c = '-' := hsign c hs
      simp [splitSign, hc]
  unfold Exponent.text Exponent.scan?
  simp only [List.cons_append, hsplit, splitDigits_append_eq hdigits hrest]
  rw [if_pos ⟨hmark, hne⟩]

theorem isDigit_of_mem_splitDigits (cs : List Char) : ∀ c ∈ (splitDigits cs).1, c.isDigit := by
  intro c hc
  exact List.all_eq_true.mp List.all_takeWhile c hc

theorem not_isDigit_head?_splitDigits (cs : List Char) :
    ∀ c ∈ (splitDigits cs).2.head?, c.isDigit = false := by
  intro c hc
  have hnot := List.head?_dropWhile_not Char.isDigit cs
  change (cs.dropWhile Char.isDigit).head? = some c at hc
  rwa [hc] at hnot

theorem Exponent.valid_of_scan? {cs rest : List Char} {x : Exponent}
    (h : Exponent.scan? cs = some (x, rest)) :
    x.Valid ∧ ∀ c ∈ rest.head?, c.isDigit = false := by
  cases cs with
  | nil => cases h
  | cons c cs =>
    simp only [scan?, Option.ite_none_right_eq_some, Option.some.injEq, Prod.mk.injEq] at h
    obtain ⟨⟨hmark, hne⟩, rfl, rfl⟩ := h
    refine ⟨⟨hmark, ?_, hne, isDigit_of_mem_splitDigits _⟩, not_isDigit_head?_splitDigits _⟩
    intro s hs
    cases cs with
    | nil => cases hs
    | cons d ds =>
      by_cases hd : d = '+' ∨ d = '-'
      · simp only [splitSign, if_pos hd] at hs
        cases hs
        exact hd
      · simp [splitSign, hd] at hs

theorem Exponent.scan?_eq_none_iff {cs : List Char} :
    Exponent.scan? cs = none ↔ ∀ x : Exponent, x.Valid → ¬ x.text <+: cs := by
  constructor
  · rintro h x hx ⟨rest, rfl⟩
    let y : Exponent := { x with digits := x.digits ++ (splitDigits rest).1 }
    have hy : y.Valid := by
      obtain ⟨hmark, hsign, hne, hdigits⟩ := hx
      refine ⟨hmark, hsign, by simp [y, hne], ?_⟩
      exact List.forall_mem_append.mpr ⟨hdigits, isDigit_of_mem_splitDigits rest⟩
    have htext : y.text ++ (splitDigits rest).2 = x.text ++ rest := by
      simp [y, text, splitDigits_append]
    rw [← htext, scan?_text_append hy (not_isDigit_head?_splitDigits rest)] at h
    cases h
  · intro h
    refine Option.eq_none_iff_forall_ne_some.mpr fun p hp => ?_
    exact h p.1 (valid_of_scan? hp).1 ⟨p.2, text_append_of_scan? hp⟩

theorem Exponent.Valid.mem_text {x : Exponent} (hx : x.Valid) :
    ∀ c ∈ x.text, isWord c = true ∨ c = '+' ∨ c = '-' := by
  obtain ⟨hmark, hsign, -, hdigits⟩ := hx
  intro c hc
  unfold text at hc
  rcases List.mem_cons.mp hc with rfl | hc
  · rcases hmark with he | he
    · rw [he]
      decide
    · rw [he]
      decide
  · rcases List.mem_append.mp hc with hc | hc
    · exact Or.inr (hsign c (Option.mem_toList.mp hc))
    · exact Or.inl (isWord_of_isDigit (hdigits c hc))

theorem Exponent.Valid.head?_text {x : Exponent} (hx : x.Valid) :
    ∀ c ∈ x.text.head?, isWord c = true := by
  intro c hc
  have hmark : x.mark = c := Option.some.inj hc
  rcases hx.1 with he | he
  · rw [← hmark, he]
    decide
  · rw [← hmark, he]
    decide

namespace Numeral

theorem scanMantissa?_append {whole fraction after : List Char} {point : Bool}
    (hds : ∀ c ∈ whole ++ fraction, c.isDigit) (hne : whole ++ fraction ≠ [])
    (hpoint : point = false → fraction = []) (hdigit : ∀ c ∈ after.head?, c.isDigit = false)
    (hafter : point = false → ∀ c ∈ after.head?, c ≠ '.') :
    scanMantissa? (whole ++ (if point then ['.'] else []) ++ fraction ++ after) =
      some (⟨whole, point, fraction, none⟩, after) := by
  obtain ⟨hwhole, hfraction⟩ := List.forall_mem_append.mp hds
  cases point with
  | true =>
    have htext : whole ++ (if true then ['.'] else []) ++ fraction ++ after =
        whole ++ '.' :: (fraction ++ after) := by simp
    have hstop : ∀ c ∈ ('.' :: (fraction ++ after)).head?, c.isDigit = false := by
      intro c hc
      cases hc
      decide
    have hsome : ¬ (whole = [] ∧ fraction = []) := by
      rintro ⟨rfl, rfl⟩
      exact hne rfl
    unfold scanMantissa?
    rw [htext, splitDigits_append_eq hwhole hstop]
    simp only [splitDigits_append_eq hfraction hdigit]
    rw [if_neg hsome]
  | false =>
    obtain rfl := hpoint rfl
    rw [List.append_nil] at hne
    have htext : whole ++ (if false then ['.'] else []) ++ [] ++ after = whole ++ after := by simp
    unfold scanMantissa?
    rw [htext, splitDigits_append_eq hwhole hdigit]
    cases after with
    | nil => simp [hne]
    | cons c after =>
      have hc : c ≠ '.' := hafter rfl c rfl
      simp [hne, hc]

theorem valid_of_scanMantissa? {cs after : List Char} {n : Numeral}
    (h : scanMantissa? cs = some (n, after)) : n.Valid ∧ n.exponent = none ∧
      (∀ c ∈ after.head?, c.isDigit = false) ∧ (n.point = false → ∀ c ∈ after.head?, c ≠ '.') := by
  simp only [scanMantissa?] at h
  have hwhole := isDigit_of_mem_splitDigits cs
  have hstop := not_isDigit_head?_splitDigits cs
  split at h
  · rename_i after' ha
    have hfraction := isDigit_of_mem_splitDigits after'
    have hstop' := not_isDigit_head?_splitDigits after'
    simp only [Option.ite_none_left_eq_some, Option.some.injEq, Prod.mk.injEq] at h
    obtain ⟨hne, rfl, rfl⟩ := h
    refine ⟨⟨List.forall_mem_append.mpr ⟨hwhole, hfraction⟩, ?_, by simp, by simp⟩, rfl, hstop',
      by simp⟩
    intro he
    exact hne (List.append_eq_nil_iff.mp he)
  · rename_i hpoint
    simp only [Option.ite_none_left_eq_some, Option.some.injEq, Prod.mk.injEq] at h
    obtain ⟨hne, rfl, rfl⟩ := h
    refine ⟨⟨by simpa using hwhole, by simpa using hne, by simp, by simp⟩, rfl, hstop, ?_⟩
    rintro - c hc rfl
    obtain ⟨cs', hcs'⟩ := List.head?_eq_some_iff.mp hc
    exact hpoint cs' hcs'

/-- The numeral does not go on with this text: not with a digit, and, if it has no exponent, neither
with one nor with the point that it may lack. -/
def StopsAt (n : Numeral) (rest : List Char) : Prop :=
  (∀ c ∈ rest.head?, c.isDigit = false) ∧
    (n.exponent = none → (∀ x : Exponent, x.Valid → ¬ x.text <+: rest) ∧
      (n.point = false → ∀ c ∈ rest.head?, c ≠ '.'))

theorem scan?_text_append {n : Numeral} {rest : List Char} (hn : n.Valid) (hrest : n.StopsAt rest) :
    scan? (n.text ++ rest) = some (n, rest) := by
  obtain ⟨hds, hne, hpoint, hexp⟩ := hn
  obtain ⟨hdigit, hstop⟩ := hrest
  unfold text scan?
  rw [List.append_assoc]
  cases hx : n.exponent with
  | none =>
    obtain ⟨hnone, hafter⟩ := hstop hx
    simp only [Option.map_none, Option.getD_none, List.nil_append]
    rw [scanMantissa?_append hds hne hpoint hdigit hafter]
    simp only [Exponent.scan?_eq_none_iff.mpr hnone]
    rw [← hx]
  | some x =>
    have hvalid := hexp x hx
    have hmark : ∀ c ∈ (x.text ++ rest).head?, c.isDigit = false ∧ c ≠ '.' := by
      intro c hc
      have hmark : x.mark = c := Option.some.inj hc
      rcases hvalid.1 with he | he
      · rw [← hmark, he]
        decide
      · rw [← hmark, he]
        decide
    simp only [Option.map_some, Option.getD_some]
    rw [scanMantissa?_append hds hne hpoint (fun c hc => (hmark c hc).1)
      fun _ c hc => (hmark c hc).2]
    simp only [Exponent.scan?_text_append hvalid hdigit]
    rw [← hx]

theorem valid_of_scan? {cs rest : List Char} {n : Numeral} (h : scan? cs = some (n, rest)) :
    n.Valid ∧ n.StopsAt rest := by
  unfold scan? at h
  split at h
  · cases h
  · rename_i m after hm
    obtain ⟨⟨hds, hne, hpoint, -⟩, hnone, hdigit, hafter⟩ := valid_of_scanMantissa? hm
    split at h
    · rename_i hx
      cases h
      exact ⟨⟨hds, hne, hpoint, by simp [hnone]⟩, hdigit,
        fun _ => ⟨Exponent.scan?_eq_none_iff.mp hx, hafter⟩⟩
    · rename_i x rest' hx
      cases h
      obtain ⟨hvalid, hdigit'⟩ := Exponent.valid_of_scan? hx
      refine ⟨⟨hds, hne, hpoint, ?_⟩, hdigit', by simp⟩
      rintro x' hx'
      cases hx'
      exact hvalid

theorem StopsAt.of_ends {n : Numeral} {rest : List Char} (h : Ends rest) : n.StopsAt rest := by
  refine ⟨h.not_isDigit, fun _ => ⟨?_, fun _ c hc => (h c hc).2⟩⟩
  rintro x hx ⟨after, rfl⟩
  have hword := hx.head?_text x.mark rfl
  rw [(h x.mark rfl).1] at hword
  cases hword

theorem read?_text {n : Numeral} (hn : n.Valid) : read? n.text = some n.value := by
  have hscan := scan?_text_append hn (.of_ends ends_nil)
  rw [List.append_nil] at hscan
  unfold read?
  rw [hscan]

theorem scan?_eq_none {c : Char} {cs : List Char} (hdigit : ¬ c.isDigit) (hpoint : c ≠ '.') :
    scan? (c :: cs) = none := by
  have hsplit : splitDigits (c :: cs) = ([], c :: cs) := by
    simp [splitDigits, hdigit]
  have hmantissa : scanMantissa? (c :: cs) = none := by
    unfold scanMantissa?
    rw [hsplit]
    simp [hpoint]
  unfold scan?
  rw [hmantissa]

end Numeral

namespace Lexeme

def Valid : Lexeme → Prop
  | numeral n => n.Valid
  | name cs => isName cs = true
  | operator _ | opening | closing => True

def StopsAt : Lexeme → List Char → Prop
  | numeral n, rest => n.StopsAt rest
  | name _, rest => ∀ c ∈ rest.head?, isWord c = false
  | operator _, _ | opening, _ | closing, _ => True

theorem ofSymbol?_eq_some {c : Char} {l : Lexeme} (h : ofSymbol? c = some l) :
    isWord c = false ∧ isBlank c = false ∧ c ≠ '.' := by
  unfold ofSymbol? at h
  split at h
  · rename_i hc
    rw [hc]
    decide
  · split at h
    · rename_i hc
      rw [hc]
      decide
    · obtain ⟨o, ho, -⟩ := Option.map_eq_some_iff.mp h
      rw [← Operator.symbol_of_ofSymbol? ho]
      cases o <;> decide

theorem ofSymbol?_symbol (o : Operator) : ofSymbol? o.symbol = some (operator o) := by
  cases o <;> decide

theorem scan?_symbol {l : Lexeme} {c : Char} (hl : ofSymbol? c = some l) (rest : List Char) :
    scan? (c :: rest) = some (l, rest) := by
  obtain ⟨hword, -, hpoint⟩ := ofSymbol?_eq_some hl
  have hdigit : ¬ c.isDigit := by
    intro h
    rw [isWord_of_isDigit h] at hword
    cases hword
  have hname : startsName c = false := by
    unfold startsName
    rw [hword]
    rfl
  unfold scan? scanName? scanSymbol?
  rw [Numeral.scan?_eq_none hdigit hpoint]
  simp [hl, hname]

theorem scan?_text_append {l : Lexeme} {rest : List Char} (hl : l.Valid) (hrest : l.StopsAt rest) :
    scan? (l.text ++ rest) = some (l, rest) := by
  cases l with
  | numeral n =>
    unfold scan? text
    rw [Numeral.scan?_text_append hl hrest]
  | name cs =>
    unfold text
    cases cs with
    | nil => cases hl
    | cons c cs =>
      obtain ⟨hstart, hwords⟩ := Bool.and_eq_true_iff.mp hl
      have hpoint : c ≠ '.' := by
        rintro rfl
        exact absurd hstart (by decide)
      have hall := List.all_eq_true.mp hwords
      rw [List.cons_append]
      unfold scan? scanName?
      rw [Numeral.scan?_eq_none (not_isDigit_of_startsName hstart) hpoint]
      simp only [hstart, if_true, takeWhile_append_eq hall hrest, dropWhile_append_eq hall hrest,
        Option.some_or]
  | operator o => exact scan?_symbol (ofSymbol?_symbol o) rest
  | opening => exact scan?_symbol rfl rest
  | closing => exact scan?_symbol rfl rest

theorem valid_of_ofSymbol? {c : Char} {l : Lexeme} (h : ofSymbol? c = some l) (rest : List Char) :
    l.Valid ∧ l.StopsAt rest := by
  unfold ofSymbol? at h
  split at h
  · cases h
    exact ⟨trivial, trivial⟩
  · split at h
    · cases h
      exact ⟨trivial, trivial⟩
    · obtain ⟨o, -, rfl⟩ := Option.map_eq_some_iff.mp h
      exact ⟨trivial, trivial⟩

theorem valid_of_scan? {cs rest : List Char} {l : Lexeme} (h : scan? cs = some (l, rest)) :
    l.Valid ∧ l.StopsAt rest := by
  unfold scan? at h
  split at h
  · rename_i n rest' hn
    cases h
    exact Numeral.valid_of_scan? hn
  · rcases Option.or_eq_some_iff.mp h with hn | ⟨-, hs⟩
    · cases cs with
      | nil => cases hn
      | cons c cs =>
        simp only [scanName?, Option.ite_none_right_eq_some, Option.some.injEq, Prod.mk.injEq] at hn
        obtain ⟨hstart, rfl, rfl⟩ := hn
        refine ⟨Bool.and_eq_true_iff.mpr ⟨hstart, List.all_takeWhile⟩, fun d hd => ?_⟩
        have hnot := List.head?_dropWhile_not isWord cs
        rwa [Option.mem_def.mp hd] at hnot
    · cases cs with
      | nil => cases hs
      | cons c cs =>
        obtain ⟨l', hl', he⟩ := Option.map_eq_some_iff.mp hs
        cases he
        exact valid_of_ofSymbol? hl' _

/-- The lexeme that a text begins with is the valid one that goes on no further. -/
theorem scan?_eq_some_iff {cs rest : List Char} {l : Lexeme} :
    scan? cs = some (l, rest) ↔ l.Valid ∧ l.StopsAt rest ∧ l.text ++ rest = cs := by
  constructor
  · intro h
    obtain ⟨hvalid, hstop⟩ := valid_of_scan? h
    exact ⟨hvalid, hstop, (text_append_of_scan? h).1⟩
  · rintro ⟨hvalid, hstop, rfl⟩
    exact scan?_text_append hvalid hstop

theorem StopsAt.of_ends {l : Lexeme} {rest : List Char} (h : Ends rest) : l.StopsAt rest := by
  cases l with
  | numeral n => exact Numeral.StopsAt.of_ends h
  | name cs => exact fun c hc => (h c hc).1
  | operator o | opening | closing => trivial

theorem scan?_text {l : Lexeme} (hl : l.Valid) : scan? l.text = some (l, []) := by
  have hscan := scan?_text_append hl (.of_ends ends_nil)
  rwa [List.append_nil] at hscan

theorem Valid.text_ne_nil {l : Lexeme} (hl : l.Valid) : l.text ≠ [] :=
  (text_append_of_scan? (scan?_text hl)).2

end Lexeme

section Delimiters

/-- No lexeme goes on with this text, nor a numeral with an exponent that ends in it. -/
def Delimits (cs : List Char) : Prop := Ends cs ∧ ∀ c ∈ cs.head?, c ≠ '+' ∧ c ≠ '-'

variable {cs ds : List Char}

theorem delimits_nil : Delimits [] := ⟨ends_nil, by simp⟩

theorem delimits_cons {c : Char} (hends : Ends [c]) (hsign : c ≠ '+' ∧ c ≠ '-') :
    Delimits (c :: cs) := by
  refine ⟨fun d hd => hends d hd, fun d hd => ?_⟩
  cases hd
  exact hsign

theorem delimits_opening : Delimits ('(' :: cs) :=
  delimits_cons (ends_cons (by decide) (by decide)) (by decide)

theorem delimits_closing : Delimits (')' :: cs) :=
  delimits_cons (ends_cons (by decide) (by decide)) (by decide)

theorem delimits_of_isBlank {c : Char} (hc : isBlank c = true) : Delimits (c :: cs) := by
  have hne : ∀ d, isBlank d = false → c ≠ d := by
    rintro d hd rfl
    rw [hc] at hd
    cases hd
  have hword : isWord c = false := by
    refine eq_false_of_ne_true fun hword => ?_
    rw [not_isBlank_of_isWord hword] at hc
    cases hc
  exact delimits_cons (ends_cons hword (hne '.' (by decide)))
    ⟨hne '+' (by decide), hne '-' (by decide)⟩

theorem delimits_space : Delimits (' ' :: cs) := delimits_of_isBlank (by decide)

theorem mem_head?_append_left {c : Char} (h : c ∈ cs.head?) : c ∈ (cs ++ ds).head? := by
  cases cs with
  | nil => cases h
  | cons d cs => exact h

theorem mem_head?_append {c : Char} (h : c ∈ (cs ++ ds).head?) : c ∈ cs.head? ∨ c ∈ ds.head? := by
  cases cs with
  | nil => exact Or.inr h
  | cons d cs => exact Or.inl h

theorem Exponent.prefix_of_prefix_append {x : Exponent} (hx : x.Valid) (hds : Delimits ds)
    (h : x.text <+: cs ++ ds) : x.text <+: cs := by
  obtain ⟨rest, hrest⟩ := h
  rcases List.append_eq_append_iff.mp hrest with ⟨as, has, -⟩ | ⟨as, has, hds'⟩
  · exact ⟨as, has.symm⟩
  · cases as with
    | nil => exact ⟨[], by simpa using has⟩
    | cons a as =>
      have hhead : a ∈ ds.head? := by simp [hds']
      rcases hx.mem_text a (by simp [has]) with hword | hplus | hminus
      · rw [(hds.1 a hhead).1] at hword
        cases hword
      · exact absurd hplus (hds.2 a hhead).1
      · exact absurd hminus (hds.2 a hhead).2

theorem Numeral.StopsAt.of_append {n : Numeral} (h : n.StopsAt (cs ++ ds)) : n.StopsAt cs := by
  obtain ⟨hdigit, hstop⟩ := h
  refine ⟨fun c hc => hdigit c (mem_head?_append_left hc), fun hx => ?_⟩
  obtain ⟨hnone, hpoint⟩ := hstop hx
  exact ⟨fun x hx hpre => hnone x hx (hpre.trans (List.prefix_append cs ds)),
    fun hp c hc => hpoint hp c (mem_head?_append_left hc)⟩

theorem Numeral.StopsAt.append {n : Numeral} (h : n.StopsAt cs) (hds : Delimits ds) :
    n.StopsAt (cs ++ ds) := by
  obtain ⟨hdigit, hstop⟩ := h
  refine ⟨fun c hc => ?_, fun hx => ?_⟩
  · rcases mem_head?_append hc with hc | hc
    · exact hdigit c hc
    · exact hds.1.not_isDigit c hc
  · obtain ⟨hnone, hpoint⟩ := hstop hx
    refine ⟨fun x hx hpre => hnone x hx (x.prefix_of_prefix_append hx hds hpre), fun hp c hc => ?_⟩
    rcases mem_head?_append hc with hc | hc
    · exact hpoint hp c hc
    · exact (hds.1 c hc).2

theorem Lexeme.StopsAt.of_append {l : Lexeme} (h : l.StopsAt (cs ++ ds)) : l.StopsAt cs := by
  cases l with
  | numeral n => exact Numeral.StopsAt.of_append h
  | name ns => exact fun c hc => h c (mem_head?_append_left hc)
  | operator o | opening | closing => trivial

theorem Lexeme.StopsAt.append {l : Lexeme} (h : l.StopsAt cs) (hds : Delimits ds) :
    l.StopsAt (cs ++ ds) := by
  cases l with
  | numeral n => exact Numeral.StopsAt.append h hds
  | name ns =>
    intro c hc
    rcases mem_head?_append hc with hc | hc
    · exact h c hc
    · exact (hds.1 c hc).1
  | operator o | opening | closing => trivial

end Delimiters

section Operand

variable {c : Char}

def isOperandChar (c : Char) : Bool := isWord c || c == '.' || c == '+' || c == '-'

theorem isOperandChar_of_isWord (h : isWord c = true) : isOperandChar c = true := by
  unfold isOperandChar
  rw [h]
  rfl

theorem not_isBlank_of_isOperandChar (h : isOperandChar c = true) : isBlank c = false := by
  simp only [isOperandChar, Bool.or_eq_true, beq_iff_eq] at h
  rcases h with ((hword | rfl) | rfl) | rfl
  · exact not_isBlank_of_isWord hword
  · decide
  · decide
  · decide

theorem Numeral.Valid.isOperandChar_of_mem_text {n : Numeral} (hn : n.Valid) :
    ∀ c ∈ n.text, isOperandChar c = true := by
  obtain ⟨hds, -, -, hexp⟩ := hn
  intro c hc
  unfold text at hc
  simp only [List.mem_append] at hc
  rcases hc with ((hc | hc) | hc) | hc
  · exact isOperandChar_of_isWord (isWord_of_isDigit (hds c (List.mem_append_left _ hc)))
  · split at hc
    · rw [List.mem_singleton.mp hc]
      decide
    · cases hc
  · exact isOperandChar_of_isWord (isWord_of_isDigit (hds c (List.mem_append_right _ hc)))
  · cases hx : n.exponent with
    | none =>
      rw [hx] at hc
      cases hc
    | some x =>
      rw [hx] at hc
      rcases (hexp x hx).mem_text c hc with hword | rfl | rfl
      · exact isOperandChar_of_isWord hword
      · decide
      · decide

theorem isOperandChar_of_isName {cs : List Char} (h : isName cs = true) :
    ∀ c ∈ cs, isOperandChar c = true := by
  cases cs with
  | nil => cases h
  | cons d cs =>
    obtain ⟨hstart, hwords⟩ := Bool.and_eq_true_iff.mp h
    intro c hc
    apply isOperandChar_of_isWord
    rcases List.mem_cons.mp hc with rfl | hc
    · exact isWord_of_startsName hstart
    · exact List.all_eq_true.mp hwords c hc

end Operand

theorem Lexeme.Valid.not_isBlank_of_mem_text {l : Lexeme} (hl : l.Valid) :
    ∀ c ∈ l.text, isBlank c = false := by
  cases l with
  | numeral n =>
    exact fun c hc => not_isBlank_of_isOperandChar (Numeral.Valid.isOperandChar_of_mem_text hl c hc)
  | name cs => exact fun c hc => not_isBlank_of_isOperandChar (isOperandChar_of_isName hl c hc)
  | operator o =>
    intro c hc
    obtain rfl := List.mem_singleton.mp hc
    exact (ofSymbol?_eq_some (ofSymbol?_symbol o)).2.1
  | opening =>
    intro c hc
    obtain rfl := List.mem_singleton.mp hc
    decide
  | closing =>
    intro c hc
    obtain rfl := List.mem_singleton.mp hc
    decide

end Formula
