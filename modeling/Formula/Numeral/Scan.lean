import Formula.Numeral.Basic

/-!
# Reading a numeral off the front of a text

`Numeral.scan?` takes the longest numeral that a text begins with. An exponent letter without a
digit after it does not belong to the numeral. Main statement: nothing of the text is lost
(`Numeral.text_append_of_scan?`), so the rest is shorter (`Numeral.length_lt_of_scan?`).
-/

namespace Formula

def splitDigits (cs : List Char) : List Char × List Char :=
  (cs.takeWhile Char.isDigit, cs.dropWhile Char.isDigit)

theorem splitDigits_append (cs : List Char) : (splitDigits cs).1 ++ (splitDigits cs).2 = cs :=
  List.takeWhile_append_dropWhile

def splitSign : List Char → Option Char × List Char
  | [] => (none, [])
  | c :: cs => if c = '+' ∨ c = '-' then (some c, cs) else (none, c :: cs)

theorem splitSign_append (cs : List Char) : (splitSign cs).1.toList ++ (splitSign cs).2 = cs := by
  cases cs with
  | nil => rfl
  | cons c cs => by_cases h : c = '+' ∨ c = '-' <;> simp [splitSign, h]

def Exponent.scan? : List Char → Option (Exponent × List Char)
  | [] => none
  | c :: cs =>
    let (sign, after) := splitSign cs
    let (digits, rest) := splitDigits after
    if (c = 'e' ∨ c = 'E') ∧ digits ≠ [] then some (⟨c, sign, digits⟩, rest) else none

theorem Exponent.text_append_of_scan? {cs rest : List Char} {x : Exponent}
    (h : Exponent.scan? cs = some (x, rest)) : x.text ++ rest = cs := by
  cases cs with
  | nil => simp [Exponent.scan?] at h
  | cons c cs =>
    simp only [Exponent.scan?, Option.ite_none_right_eq_some, Option.some.injEq, Prod.mk.injEq] at h
    obtain ⟨-, rfl, rfl⟩ := h
    simp [Exponent.text, splitDigits_append, splitSign_append]

namespace Numeral

def scanMantissa? (cs : List Char) : Option (Numeral × List Char) :=
  let (whole, after) := splitDigits cs
  match after with
  | '.' :: after =>
    let (fraction, rest) := splitDigits after
    if whole = [] ∧ fraction = [] then none else some (⟨whole, true, fraction, none⟩, rest)
  | rest => if whole = [] then none else some (⟨whole, false, [], none⟩, rest)

/-- The longest numeral that a text begins with, and the rest. -/
def scan? (cs : List Char) : Option (Numeral × List Char) :=
  match scanMantissa? cs with
  | none => none
  | some (n, after) =>
    match Exponent.scan? after with
    | none => some (n, after)
    | some (x, rest) => some ({ n with exponent := some x }, rest)

def read? (cs : List Char) : Option Float :=
  match scan? cs with
  | some (n, []) => some n.value
  | _ => none

theorem text_append_of_scanMantissa? {cs rest : List Char} {n : Numeral}
    (h : scanMantissa? cs = some (n, rest)) : n.text ++ rest = cs ∧ n.exponent = none := by
  have hc := splitDigits_append cs
  simp only [scanMantissa?] at h
  split at h
  · rename_i after ha
    have hf := splitDigits_append after
    simp only [Option.ite_none_left_eq_some, Option.some.injEq, Prod.mk.injEq] at h
    obtain ⟨-, rfl, rfl⟩ := h
    rw [ha] at hc
    simpa [text, hf] using hc
  · simp only [Option.ite_none_left_eq_some, Option.some.injEq, Prod.mk.injEq] at h
    obtain ⟨-, rfl, rfl⟩ := h
    simpa [text] using hc

theorem text_append_of_scan? {cs rest : List Char} {n : Numeral}
    (h : scan? cs = some (n, rest)) : n.text ++ rest = cs := by
  unfold scan? at h
  split at h
  · contradiction
  · rename_i m after hm
    obtain ⟨hm, he⟩ := text_append_of_scanMantissa? hm
    split at h
    · cases h
      exact hm
    · rename_i x rest' hx
      cases h
      have hx := Exponent.text_append_of_scan? hx
      simpa [text, he, ← hx] using hm

theorem length_text_pos_of_scanMantissa? {cs rest : List Char} {n : Numeral}
    (h : scanMantissa? cs = some (n, rest)) : 0 < (n.whole ++ n.fraction).length := by
  simp only [scanMantissa?] at h
  split at h <;>
    simp only [Option.ite_none_left_eq_some, Option.some.injEq, Prod.mk.injEq] at h <;>
    obtain ⟨hne, rfl, -⟩ := h <;> grind [List.length_pos_iff]

theorem length_lt_of_scan? {cs rest : List Char} {n : Numeral}
    (h : scan? cs = some (n, rest)) : rest.length < cs.length := by
  have hl : 0 < (n.whole ++ n.fraction).length := by
    unfold scan? at h
    split at h
    · contradiction
    · rename_i m after hm
      have hp := length_text_pos_of_scanMantissa? hm
      split at h <;> cases h <;> exact hp
  rw [← text_append_of_scan? h]
  simp only [text, List.length_append] at hl ⊢
  omega

end Numeral

end Formula
