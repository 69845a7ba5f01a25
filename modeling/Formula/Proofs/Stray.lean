import Formula.Proofs.Scanning

/-!
# The character that ends a reading

A reading ends at the first place, blanks aside, at which no lexeme begins. Whether one begins
there is seen at one character, or at two if the first is a point (`Lexeme.scan?_eq_none_iff`). What
stands before that place does not depend on what follows: read alone it gives the same pieces
and is read to its end (`exists_of_stray`).
-/

namespace Formula

open Text

theorem Numeral.scan?_eq_none_iff_scanMantissa? {cs : List Char} :
    scan? cs = none ↔ scanMantissa? cs = none := by
  unfold scan?
  cases scanMantissa? cs with
  | none => simp
  | some p => cases hx : Exponent.scan? p.2 <;> simp [hx]

theorem splitDigits_fst_eq_nil_iff {cs : List Char} :
    (splitDigits cs).1 = [] ↔ ∀ d ∈ cs.head?, ¬ d.isDigit := by
  cases cs with
  | nil => simp [splitDigits]
  | cons d ds => by_cases hd : d.isDigit <;> simp [splitDigits, hd]

theorem Numeral.scan?_cons_eq_none_iff {c : Char} {cs : List Char} : scan? (c :: cs) = none ↔
    ¬ c.isDigit ∧ (c = '.' → ∀ d ∈ cs.head?, ¬ d.isDigit) := by
  by_cases hdigit : c.isDigit
  · have hwhole : (splitDigits (c :: cs)).1 ≠ [] := by simp [splitDigits, hdigit]
    have hsome : scanMantissa? (c :: cs) ≠ none := by
      simp only [scanMantissa?]
      split <;> simp [hwhole]
    simp [scan?_eq_none_iff_scanMantissa?, hsome, hdigit]
  · by_cases hpoint : c = '.'
    · subst hpoint
      have hsplit : splitDigits ('.' :: cs) = ([], '.' :: cs) := by simp [splitDigits, hdigit]
      have hmantissa : scanMantissa? ('.' :: cs) = none ↔ (splitDigits cs).1 = [] := by
        simp [scanMantissa?, hsplit]
      simp [scan?_eq_none_iff_scanMantissa?, hmantissa, splitDigits_fst_eq_nil_iff, hdigit]
    · simp [scan?_eq_none hdigit hpoint, hdigit, hpoint]

namespace Lexeme

variable {c : Char} {cs : List Char}

theorem ofSymbol?_eq_none_iff :
    ofSymbol? c = none ↔ c ∉ ['(', ')', '^', '+', '-', '*', '/'] := by
  constructor
  · intro h hc
    simp only [List.mem_cons, List.not_mem_nil, or_false] at hc
    rcases hc with rfl | rfl | rfl | rfl | rfl | rfl | rfl <;> cases h
  · intro h
    simp only [List.mem_cons, List.not_mem_nil, or_false, not_or] at h
    obtain ⟨hopening, hclosing, hpow, hadd, hsub, hmul, hdiv⟩ := h
    have hoperator : Operator.ofSymbol? c = none := by
      refine List.find?_eq_none.mpr fun o _ ho => ?_
      have hc : c = o.symbol := (of_decide_eq_true ho).symm
      cases o with
      | add => exact hadd hc
      | sub => exact hsub hc
      | div => exact hdiv hc
      | mul => exact hmul hc
      | pow => exact hpow hc
    rw [ofSymbol?, if_neg hopening, if_neg hclosing, hoperator]
    rfl

/-- Whether a lexeme begins a text shows at its first character, or at the second if the first is a
point. -/
theorem scan?_eq_none_iff : scan? (c :: cs) = none ↔ ¬ c.isDigit ∧ startsName c = false ∧
    ofSymbol? c = none ∧ (c = '.' → ∀ d ∈ cs.head?, ¬ d.isDigit) := by
  have hparts : scan? (c :: cs) = none ↔ Numeral.scan? (c :: cs) = none ∧
      scanName? (c :: cs) = none ∧ scanSymbol? (c :: cs) = none := by
    unfold scan?
    cases Numeral.scan? (c :: cs) <;> simp
  rw [hparts, Numeral.scan?_cons_eq_none_iff]
  simp only [scanName?, scanSymbol?, Option.map_eq_none_iff]
  by_cases hname : startsName c = true
  · simp [hname]
  · simp [hname, and_comm, and_left_comm]

end Lexeme

/-- Before a stray character a text is read as if it ended there. -/
theorem exists_of_stray {position : Nat} {cs : List Char} {x : Stray}
    (h : (readFrom position cs).stray = some x) : ∃ before after,
      cs = before ++ x.char :: after ∧ x.position = position + before.length ∧
      isBlank x.char = false ∧ Lexeme.scan? (x.char :: after) = none ∧
      readFrom position before = ⟨(readFrom position cs).pieces, none⟩ := by
  fun_induction readFrom position cs with
  | case1 => cases h
  | case2 position cs blanks start c rest hd hs =>
    cases h
    have hblanks : ∀ d ∈ blanks, isBlank d = true := List.all_eq_true.mp List.all_takeWhile
    have hc : isBlank c = false := by
      have hnot := List.head?_dropWhile_not isBlank cs
      rwa [hd] at hnot
    refine ⟨blanks, rest, ?_, rfl, hc, hs, readFrom_blank (List.dropWhile_eq_nil_iff.mpr hblanks) _⟩
    rw [← hd]
    exact List.takeWhile_append_dropWhile.symm
  | case3 position cs blanks start c rest hd l after hs later ih =>
    obtain ⟨before, after', rfl, hposition, hblank, hnone, hread⟩ := ih h
    obtain ⟨hl, hstop, htext⟩ := Lexeme.scan?_eq_some_iff.mp hs
    have hblanks : ∀ d ∈ blanks, isBlank d = true := List.all_eq_true.mp List.all_takeWhile
    have hread' := readFrom_piece_append (p := ⟨blanks, l⟩) hblanks hl hstop.of_append position
    refine ⟨blanks ++ l.text ++ before, after', ?_, ?_, hblank, hnone, ?_⟩
    · rw [List.append_assoc, List.append_assoc, htext, ← hd]
      exact List.takeWhile_append_dropWhile.symm
    · rw [hposition, List.length_append, List.length_append]
      simp only [start]
      omega
    · simp only [start] at hread
      simp only [hread] at hread'
      exact hread'

/-- What is reported of a stray character is exact. It stands at the place that is named and is no
blank, the text before that place is read to its end, as the same tokens, and at that place no
lexeme can begin. -/
theorem read_take_of_stray {s : String} {x : Stray} (h : (read s).stray = some x) :
    s.toList[x.position]? = some x.char ∧ isBlank x.char = false ∧
    (read (String.ofList (s.toList.take x.position))).stray = none ∧
    (read (String.ofList (s.toList.take x.position))).tokens = (read s).tokens ∧
    ¬ x.char.isDigit ∧ startsName x.char = false ∧
    x.char ∉ ['(', ')', '^', '+', '-', '*', '/'] ∧
    (x.char = '.' → ∀ d, s.toList[x.position + 1]? = some d → ¬ d.isDigit) := by
  rw [read_eq] at h
  obtain ⟨before, after, hs, hposition, hblank, hnone, hread⟩ := exists_of_stray h
  rw [Nat.zero_add] at hposition
  have hbefore : read (String.ofList (s.toList.take x.position)) = ⟨(read s).pieces, none⟩ := by
    rw [read_eq, read_eq, String.toList_ofList, hs, hposition, List.take_left, ← hs]
    exact hread
  obtain ⟨hdigit, hname, hsymbol, hpoint⟩ := Lexeme.scan?_eq_none_iff.mp hnone
  refine ⟨?_, hblank, ?_, ?_, hdigit, hname, Lexeme.ofSymbol?_eq_none_iff.mp hsymbol, ?_⟩
  · rw [hs, hposition]
    simp
  · rw [hbefore]
  · rw [hbefore, Reading.tokens, Reading.tokens]
  · intro hc d hd
    refine hpoint hc d ?_
    rw [hs, hposition, List.getElem?_append_right (Nat.le_succ _)] at hd
    simpa [List.head?_eq_getElem?] using hd

theorem read_take_of_stray_point :
    (read "x1.5e+.e").stray = some ⟨'.', 6⟩ ∧ (read "x1.5e+").stray = none ∧
    (read "x1.5e+").tokens = (read "x1.5e+.e").tokens := by
  have h : (read "x1.5e+.e").stray = some ⟨'.', 6⟩ := by decide +kernel
  obtain ⟨-, -, hstray, htokens, -⟩ := read_take_of_stray h
  have hbefore : String.ofList ("x1.5e+.e".toList.take 6) = "x1.5e+" := by decide +kernel
  rw [hbefore] at hstray htokens
  exact ⟨h, hstray, htokens⟩

end Formula
