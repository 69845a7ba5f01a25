import Formula.Proofs.Integral
import Formula.Proofs.Overflow

/-!
# Integers are written like their doubles

An integer that is given from outside is compared with the bound before it is rounded, a double
after that. The difference cannot be seen: below the bound every integer is a double
(`Number.isPlain_ofInt`), and from there on an integer is rounded to a double that is not below the
bound either (`Number.not_isPlain_ofInt`). So an integer of any size has the text of its double, and
no text if it has no double (`Quantity.canonical_int`).
-/

namespace Formula

namespace Number

open Float.Model Float.Model.UnpackedFloat

section OfInt

variable {n : Int} {k : Nat}

theorem exists_round_eq_of_lt (hk : 0 < k) (hlt : k < 2 ^ 53) (s : Sign) : ∃ m e, ∃ h : Fits m e,
    UnpackedFloat.round .binary64 s k 0 = .finite s m e h.pos ∧ (k : ℚ) = m * 2 ^ e := by
  have hlog : k.log2 < 53 := (Nat.log2_lt hk.ne').mpr hlt
  have hpos : 0 < k * 2 ^ (52 - k.log2) := Nat.mul_pos hk (Nat.two_pow_pos _)
  have hbits : (k * 2 ^ (52 - k.log2)).log2 < 53 := by
    rw [log2_mul_two_pow hk]
    omega
  have hfits : Fits (k * 2 ^ (52 - k.log2)) (0 - (52 - k.log2 : Nat)) :=
    ⟨hpos, (Nat.log2_lt hpos.ne').mp hbits, by omega, by omega, Or.inl (two_pow_le_of_log2 hk)⟩
  refine ⟨_, _, hfits, ?_, ?_⟩
  · rw [round_eq]
    have hround := roundWithAccuracy_mul_two_pow hfits 0 s
    rwa [pow_zero, Nat.mul_one, Nat.cast_zero, Int.sub_zero] at hround
  · rw [Nat.cast_mul, Nat.cast_pow, zero_sub, zpow_neg, zpow_natCast, Nat.cast_ofNat]
    exact (mul_inv_cancel_right₀ (by positivity) _).symm

theorem isPlain_ofInt (hlt : n.natAbs < 2 ^ 53) : IsPlain (ofInt n) n := by
  by_cases hn : n = 0
  · subst hn
    exact isPlain_of_zero rfl
  · obtain ⟨s, hsign, hnormalize⟩ := exists_normalize_eq hn
    obtain ⟨m, e, hfits, hround, hvalue⟩ := exists_round_eq_of_lt (Int.natAbs_pos.mpr hn) hlt s
    have hunpack : (ofInt n).toModel.unpack = .finite s m e hfits.pos := by
      rw [unpack_ofInt, hnormalize, hround, hfits.unpack_pack]
    have hplain := isPlain_of_finite hunpack hvalue hlt
    rwa [hsign] at hplain

theorem not_isPlain_ofInt (hle : 2 ^ 53 ≤ n.natAbs) (hinf : (ofInt n).isInf = false) (j : Int) :
    ¬ IsPlain (ofInt n) j := by
  have hn : n ≠ 0 := by
    rintro rfl
    exact absurd hle (by decide)
  obtain ⟨s, m, e, h, -, hunpack, hlo, -, hlower⟩ := exists_unpack_ofInt hn hinf
  have hlog : 53 ≤ n.natAbs.log2 := (Nat.le_log2 (Int.natAbs_ne_zero.mpr hn)).mpr hle
  intro hplain
  have hnat := (hplain.of_finite hunpack).1
  have hexp : (2 : ℚ) ^ (1 : Int) ≤ 2 ^ e := zpow_le_zpow_right₀ (by norm_num) (by omega)
  have hlarge : (2 ^ 53 : ℚ) ≤ j.natAbs := by
    have hm : (2 ^ 52 : ℚ) ≤ m := by exact_mod_cast hlo
    calc (2 ^ 53 : ℚ) = 2 ^ 52 * 2 ^ (1 : Int) := by norm_num
      _ ≤ m * 2 ^ e := mul_le_mul hm hexp (by positivity) (by positivity)
      _ = j.natAbs := hnat.symm
  have hplainlt := hplain.lt
  exact absurd (by exact_mod_cast hlarge) (not_le.mpr hplainlt)

end OfInt

end Number

namespace Quantity

theorem canonical_int_eq (n : Int) :
    (int n).canonical = (int n).toFloat.map Number.canonical := by
  rw [canonical, toFloat_int]
  by_cases hlarge : 2 ^ 1024 - 2 ^ 970 ≤ n.natAbs
  · rw [if_pos hlarge]
    rfl
  · have hinf : (Number.ofInt n).isInf = false := by
      rw [Bool.eq_false_iff, Ne, Number.isInf_ofInt]
      exact hlarge
    rw [if_neg hlarge]
    apply congrArg Except.ok
    by_cases hlt : n.natAbs < Number.integerBound
    · rw [if_pos hlt, (Number.isPlain_ofInt hlt).canonical_eq]
    · rw [if_neg hlt, Number.canonical_eq_text (Number.not_isPlain_ofInt (not_lt.mp hlt) hinf)]

/-- An integer is written like the double nearest to it. If it is too large for a double, it fails
to be written as it fails to be converted. -/
theorem canonical_int (n : Int) :
    (n.natAbs < 2 ^ 1024 - 2 ^ 970 →
      ∃ x, (int n).toFloat = .ok x ∧ (int n).canonical = (float x).canonical) ∧
    (2 ^ 1024 - 2 ^ 970 ≤ n.natAbs →
      (int n).toFloat = .error .tooLarge ∧ (int n).canonical = .error .tooLarge) := by
  rw [canonical_int_eq, toFloat_int]
  constructor
  · intro hlt
    rw [if_neg (not_le.mpr hlt)]
    exact ⟨_, rfl, rfl⟩
  · intro hle
    rw [if_pos hle]
    exact ⟨rfl, rfl⟩

/-- The least positive integer that is no double lies halfway between two of them. -/
theorem canonical_int_halfway :
    (9007199254740993 : Int).natAbs < 2 ^ 1024 - 2 ^ 970 ∧
    (int 9007199254740993).canonical = (float 9007199254740992).canonical ∧
    2 ^ 1024 - 2 ^ 970 ≤ (2 ^ 1024 : Int).natAbs ∧
    (int (2 ^ 1024)).canonical = .error .tooLarge := by
  have hsmall : (9007199254740993 : Int).natAbs < 2 ^ 1024 - 2 ^ 970 := by decide +kernel
  have hpow (a b : Nat) : 2 ^ a - 2 ^ b ≤ (2 ^ a : Int).natAbs := by
    rw [Int.natAbs_pow]
    exact Nat.sub_le _ _
  have hlarge := hpow 1024 970
  obtain ⟨x, hx, htext⟩ := (canonical_int 9007199254740993).1 hsmall
  have hround : (int 9007199254740993).toFloat = .ok 9007199254740992 := rfl
  obtain rfl := Except.ok.inj (hx.symm.trans hround)
  exact ⟨hsmall, htext, hlarge, ((canonical_int _).2 hlarge).2⟩

end Quantity

end Formula
