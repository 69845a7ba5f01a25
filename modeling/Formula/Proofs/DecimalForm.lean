import Formula.Number.Text
import Mathlib.Algebra.Order.Field.Power
import Mathlib.Tactic.Ring

/-!
# What the written form of a decimal spells

The written form of a decimal other than zero is a numeral for the same number, whether it is
positional or has a power of ten. Both forms are determined by the significant digits and the power
of ten at the first of them, so they are compared with that number, not with the decimal.
-/

namespace Formula

/-- The number that a numeral stands for, before it is rounded to a double. -/
def Numeral.amount (n : Numeral) : ℚ := n.mantissa * 10 ^ n.scale

def Decimal.amount (d : Decimal) : ℚ := d.digits * 10 ^ d.exponent

def Spells (cs : List Char) (q : ℚ) : Prop :=
  ∃ n : Numeral, n.Valid ∧ n.text = cs ∧ n.amount = q

theorem isDigit_zeros (n : Nat) : ∀ c ∈ List.replicate n '0', c.isDigit := by
  intro c hc
  rw [List.eq_of_mem_replicate hc]
  decide

theorem ofDigitChars_zeros_append (n : Nat) (ds : List Char) :
    Nat.ofDigitChars 10 (List.replicate n '0' ++ ds) 0 = Nat.ofDigitChars 10 ds 0 := by
  rw [Nat.ofDigitChars_append, Nat.ofDigitChars_replicate_zero, Nat.mul_zero]

theorem ofDigitChars_append_zeros (ds : List Char) (n : Nat) :
    Nat.ofDigitChars 10 (ds ++ List.replicate n '0') 0 = 10 ^ n * Nat.ofDigitChars 10 ds 0 := by
  rw [Nat.ofDigitChars_append, Nat.ofDigitChars_replicate_zero]

theorem spells_point {whole fraction : List Char} (hne : whole ++ fraction ≠ [])
    (hds : ∀ c ∈ whole ++ fraction, c.isDigit) : Spells (whole ++ '.' :: fraction)
      (Nat.ofDigitChars 10 (whole ++ fraction) 0 * 10 ^ (-fraction.length : Int)) := by
  refine ⟨⟨whole, true, fraction, none⟩, ⟨hds, hne, ?_, ?_⟩, ?_, ?_⟩
  · intro h
    cases h
  · intro x hx
    cases hx
  · simp [Numeral.text]
  · simp [Numeral.amount, Numeral.mantissa, Numeral.scale]

namespace Decimal

variable {ds : List Char}

theorem spells_positional (hne : ds ≠ []) (hds : ∀ c ∈ ds, c.isDigit) (lead : Int) :
    Spells (positional ds lead) (Nat.ofDigitChars 10 ds 0 * 10 ^ (lead + 1 - ds.length)) := by
  unfold positional
  by_cases hlead : lead < 0
  · rw [if_pos hlead]
    have hall : ∀ c ∈ List.replicate 1 '0' ++ (List.replicate (-lead - 1).toNat '0' ++ ds),
        c.isDigit := by
      rw [List.forall_mem_append]
      exact ⟨isDigit_zeros 1, List.forall_mem_append.mpr ⟨isDigit_zeros _, hds⟩⟩
    have hspells := spells_point (by simp) hall
    rw [ofDigitChars_zeros_append, ofDigitChars_zeros_append] at hspells
    have hexp : (-(List.replicate (-lead - 1).toNat '0' ++ ds).length : Int) =
        lead + 1 - ds.length := by
      rw [List.length_append, List.length_replicate]
      omega
    rwa [hexp] at hspells
  · rw [if_neg hlead]
    dsimp only
    by_cases hlen : ds.length ≤ lead.toNat + 1
    · rw [if_pos hlen]
      obtain ⟨z, hz⟩ := Nat.exists_eq_add_of_le hlen
      have hall : ∀ c ∈ (ds ++ List.replicate z '0') ++ List.replicate 1 '0', c.isDigit := by
        rw [List.forall_mem_append]
        exact ⟨List.forall_mem_append.mpr ⟨hds, isDigit_zeros z⟩, isDigit_zeros 1⟩
      have hspells := spells_point (by simp) hall
      rw [ofDigitChars_append_zeros, ofDigitChars_append_zeros] at hspells
      have hexp : lead + 1 - ds.length = z := by omega
      have hzeros : lead.toNat + 1 - ds.length = z := by omega
      rw [hexp, hzeros]
      have hone : (-(List.replicate 1 '0').length : Int) = -1 := rfl
      have hvalue : (Nat.ofDigitChars 10 ds 0 : ℚ) * 10 ^ (z : Int) =
          (10 ^ 1 * (10 ^ z * Nat.ofDigitChars 10 ds 0) : Nat) * 10 ^ (-1 : Int) := by
        rw [zpow_neg_one, zpow_natCast]
        push_cast
        ring
      rw [hone, ← hvalue] at hspells
      exact hspells
    · rw [if_neg hlen]
      have hall : ∀ c ∈ ds.take (lead.toNat + 1) ++ ds.drop (lead.toNat + 1), c.isDigit := by
        rwa [List.take_append_drop]
      have hspells := spells_point (by rwa [List.take_append_drop]) hall
      rw [List.take_append_drop] at hspells
      have hexp : (-(ds.drop (lead.toNat + 1)).length : Int) = lead + 1 - ds.length := by
        rw [List.length_drop]
        omega
      rwa [hexp] at hspells

theorem spells_scientific (hne : ds ≠ []) (hds : ∀ c ∈ ds, c.isDigit) (lead : Int) :
    Spells (scientific ds lead) (Nat.ofDigitChars 10 ds 0 * 10 ^ (lead + 1 - ds.length)) := by
  have hpos := List.length_pos_iff.mpr hne
  let power := Nat.toDigits 10 lead.natAbs
  let zeros := List.replicate (2 - power.length) '0'
  let x : Exponent := ⟨'e', some (if lead < 0 then '-' else '+'), zeros ++ power⟩
  have hpower : Nat.ofDigitChars 10 x.digits 0 = lead.natAbs := by
    rw [ofDigitChars_zeros_append, Nat.ofDigitChars_ten_toDigits]
  have hx : x.Valid := by
    refine ⟨Or.inl rfl, ?_, ?_, ?_⟩
    · intro c hc
      obtain rfl : (if lead < 0 then '-' else '+') = c := Option.some.inj hc
      by_cases hlead : lead < 0
      · exact Or.inr (if_pos hlead)
      · exact Or.inl (if_neg hlead)
    · exact List.append_ne_nil_of_right_ne_nil _ Nat.toDigits_ne_nil
    · rw [List.forall_mem_append]
      exact ⟨isDigit_zeros _, fun c hc => Nat.isDigit_of_mem_toDigits (by decide) (by decide) hc⟩
  have hvalue : x.value = lead := by
    unfold Exponent.value
    dsimp only
    rw [hpower]
    by_cases hlead : lead < 0
    · have hsign : x.sign = some '-' := congrArg some (if_pos hlead)
      rw [if_pos hsign]
      omega
    · have hsign : x.sign = some '+' := congrArg some (if_neg hlead)
      rw [if_neg (by rw [hsign]; decide)]
      omega
  refine ⟨⟨ds.take 1, !decide (ds.length ≤ 1), ds.drop 1, some x⟩, ⟨?_, ?_, ?_, ?_⟩, ?_, ?_⟩
  · rwa [List.take_append_drop]
  · rwa [List.take_append_drop]
  · intro h
    exact List.drop_eq_nil_of_le (by simpa using h)
  · intro y hy
    cases hy
    exact hx
  · unfold Numeral.text scientific Exponent.text
    by_cases hlen : ds.length ≤ 1
    · simp [hlen, List.drop_eq_nil_of_le hlen, x, zeros, power]
    · simp [hlen, x, zeros, power]
  · unfold Numeral.amount Numeral.mantissa Numeral.scale
    have hscale : lead - (ds.drop 1).length = lead + 1 - ds.length := by
      rw [List.length_drop]
      omega
    rw [List.take_append_drop, Option.map_some, Option.getD_some, hvalue, hscale]

theorem significant_append (d : Decimal) :
    ∃ z, d.significant ++ List.replicate z '0' = Nat.toDigits 10 d.digits := by
  let ds := (Nat.toDigits 10 d.digits).reverse
  refine ⟨(ds.takeWhile (· = '0')).length, ?_⟩
  have hzeros : ds.takeWhile (· = '0') =
      List.replicate (ds.takeWhile (· = '0')).length '0' := by
    apply List.eq_replicate_of_mem
    intro c hc
    exact of_decide_eq_true (List.all_eq_true.mp List.all_takeWhile c hc)
  have hsplit : ds.takeWhile (· = '0') ++ ds.dropWhile (· = '0') = ds :=
    List.takeWhile_append_dropWhile
  rw [hzeros] at hsplit
  have hreverse := congrArg List.reverse hsplit
  rwa [List.reverse_append, List.reverse_replicate, List.reverse_reverse] at hreverse

theorem ofDigitChars_significant {d : Decimal} {z : Nat}
    (hz : d.significant ++ List.replicate z '0' = Nat.toDigits 10 d.digits) :
    10 ^ z * Nat.ofDigitChars 10 d.significant 0 = d.digits := by
  rw [← ofDigitChars_append_zeros, hz, Nat.ofDigitChars_ten_toDigits]

theorem significant_ne_nil {d : Decimal} (h : 0 < d.digits) : d.significant ≠ [] := by
  obtain ⟨z, hz⟩ := d.significant_append
  intro hnil
  have hvalue := ofDigitChars_significant hz
  rw [hnil] at hvalue
  rw [← hvalue] at h
  exact absurd h (Nat.lt_irrefl 0)

theorem isDigit_of_mem_significant (d : Decimal) : ∀ c ∈ d.significant, c.isDigit := by
  obtain ⟨z, hz⟩ := d.significant_append
  intro c hc
  have hmem : c ∈ Nat.toDigits 10 d.digits := hz ▸ List.mem_append_left _ hc
  exact Nat.isDigit_of_mem_toDigits (by decide) (by decide) hmem

theorem spells_text {d : Decimal} (h : 0 < d.digits) : Spells d.text d.amount := by
  obtain ⟨z, hz⟩ := d.significant_append
  have hne := significant_ne_nil h
  have hds := d.isDigit_of_mem_significant
  have hlen : d.length = d.significant.length + z := by
    unfold length
    rw [← hz, List.length_append, List.length_replicate]
  have hamount : d.amount =
      Nat.ofDigitChars 10 d.significant 0 * 10 ^ (d.leading + 1 - d.significant.length) := by
    have hexp : d.leading + 1 - d.significant.length = z + d.exponent := by
      unfold leading
      omega
    unfold amount
    rw [hexp, zpow_add₀ (by norm_num), zpow_natCast, ← ofDigitChars_significant hz]
    push_cast
    ring
  rw [hamount]
  unfold text
  by_cases hlead : -4 ≤ d.leading ∧ d.leading < 16
  · rw [if_pos hlead]
    exact spells_positional hne hds d.leading
  · rw [if_neg hlead]
    exact spells_scientific hne hds d.leading

theorem isDigit_head?_positional {c : Char} (hc : c.isDigit) (cs : List Char) (lead : Int) :
    ∀ d ∈ (positional (c :: cs) lead).head?, d.isDigit := by
  unfold positional
  by_cases hlead : lead < 0
  · simp [hlead]
  · rw [if_neg hlead]
    dsimp only
    by_cases hlen : (c :: cs).length ≤ lead.toNat + 1
    · rw [if_pos hlen]
      simpa using hc
    · rw [if_neg hlen]
      simpa using hc

theorem isDigit_head?_text {d : Decimal} (h : 0 < d.digits) : ∀ c ∈ d.text.head?, c.isDigit := by
  obtain ⟨c, cs, hcs⟩ := List.exists_cons_of_ne_nil (significant_ne_nil h)
  have hc : c.isDigit := d.isDigit_of_mem_significant c (hcs ▸ List.mem_cons_self)
  unfold text
  rw [hcs]
  by_cases hlead : -4 ≤ d.leading ∧ d.leading < 16
  · rw [if_pos hlead]
    exact isDigit_head?_positional hc cs d.leading
  · rw [if_neg hlead]
    simpa [scientific] using hc

end Decimal

end Formula
