import Formula.Proofs.NumberText
import Formula.Proofs.Overflow

/-!
# Dividing by one, and dividing one

A double divided by one is the same double, be it a number or not (`div_one`): the quotient is
exact, so nothing is rounded. One divided by a double that is at least one has a finite double
without sign (`isUnsigned_one_div`). Its mantissa has few bits and its exponent is small, so however
it is rounded, it stays far from the infinite. The double nearest to a positive integer is such a
divisor, or infinite (`isUnsigned_one_div_ofInt`).
-/

namespace Formula.Number

open Float.Model Float.Model.UnpackedFloat

theorem unpack_one :
    (1 : Float).toModel.unpack = .finite .positive (2 ^ 52) (-52) (Nat.two_pow_pos 52) := by
  rfl

theorem totalExponent_one : totalExponent (2 ^ 52) (-52) = 1 := by
  unfold totalExponent
  rw [Nat.log2_two_pow]
  rfl

theorem unpack_div (x y : Float) : (x / y).toModel.unpack =
    UnpackedFloat.unpack .binary64 (UnpackedFloat.pack .binary64
      (UnpackedFloat.div .binary64 x.toModel.unpack y.toModel.unpack)) := rfl

section ByOne

variable {m : Nat} {e : Int}

theorem div_positive (s : Sign) : s / .positive = s := by cases s <;> rfl

theorem Fits.exists_divCore_one (h : Fits m e) : ∃ n : Nat,
    divCore .binary64 m e (2 ^ 52) (-52) = (m * 2 ^ n, e - n, .exact) := by
  have hle := targetExponent_mono (show totalExponent m e - 1 ≤ totalExponent m e by omega)
  rw [h.targetExponent_eq] at hle
  unfold divCore
  rw [totalExponent_one]
  generalize Format.binary64.targetExponent (totalExponent m e - 1) = t at hle ⊢
  obtain ⟨n, hn⟩ := Int.eq_ofNat_of_zero_le (show 0 ≤ e - t by omega)
  have hmin : min (e - -52) t = e - n := by omega
  have hamount : (e - -52 - (e - n)).toNat = n + 52 := by omega
  refine ⟨n, ?_⟩
  dsimp only
  rw [hmin, hamount, Nat.shiftLeft_eq, Nat.pow_add, ← Nat.mul_assoc,
    Nat.mul_div_cancel _ (Nat.two_pow_pos 52), Nat.mul_mod_left]
  rfl

theorem unpacked_div_one (x : Float) :
    UnpackedFloat.div .binary64 x.toModel.unpack (1 : Float).toModel.unpack = x.toModel.unpack := by
  rw [unpack_one]
  cases hu : x.toModel.unpack with
  | notANumber => rfl
  | infinity s => exact congrArg infinity (div_positive s)
  | zero s => exact congrArg zero (div_positive s)
  | finite s m e h =>
    have hfits := fits_of_unpack hu
    obtain ⟨n, hcore⟩ := hfits.exists_divCore_one
    unfold UnpackedFloat.div
    dsimp only
    rw [hcore, div_positive]
    exact roundWithAccuracy_mul_two_pow hfits n s

/-- A double divided by one is the same double, also if it is infinite, a zero or no number. -/
theorem div_one (x : Float) : x / 1 = x := by
  change Float.ofModel (.pack (UnpackedFloat.div .binary64 x.toModel.unpack
    (1 : Float).toModel.unpack)) = x
  rw [unpacked_div_one, ofModel_pack_unpack]

end ByOne

section Rounding

variable {k n : Nat} {e : Int}

theorem mantissa_ofMantissaAndAccuracy (k : Nat) (a : Accuracy) :
    (ExtendedMantissa.ofMantissaAndAccuracy k a).mantissa = k := by
  cases a with
  | exact => rfl
  | inexact o => cases o <;> rfl

theorem shiftToTargetExponent_bounds (hk : k < 2 ^ n) (a : Accuracy) :
    (shiftToTargetExponent .binary64 k e a).1.mantissa ≤ k ∧
      (shiftToTargetExponent .binary64 k e a).2 ≤ max (e + n) (-1074) := by
  have hbits : Format.binary64.mantissaBits = 53 := rfl
  have hmin : Format.binary64.minExponent = -1074 := rfl
  have hlog : k.log2 ≤ n := by
    rcases Nat.eq_zero_or_pos k with rfl | hpos
    · exact Nat.zero_le n
    · exact Nat.le_of_lt ((Nat.log2_lt hpos.ne').mpr hk)
  unfold shiftToTargetExponent shiftToExponent
  dsimp only
  constructor
  · rw [mantissa_shiftRight, mantissa_ofMantissaAndAccuracy]
    exact Nat.div_le_self _ _
  · unfold Format.targetExponent totalExponent
    rw [hbits, hmin]
    omega

theorem isInf_unpack_pack_roundWithAccuracy (hk : k < 2 ^ n) (he : e + 2 * n < 971)
    (hn : n ≤ 2000) (s : Sign) (a : Accuracy) :
    (UnpackedFloat.unpack .binary64 (UnpackedFloat.pack .binary64
      (roundWithAccuracy .binary64 s k e a))).isInf = false := by
  obtain ⟨hmantissa, hexp⟩ := shiftToTargetExponent_bounds (e := e) hk a
  generalize hfirst : shiftToTargetExponent .binary64 k e a = first at hmantissa hexp
  have hrounded := (roundedMantissa_bounds first.1).2
  have hk' : first.1.roundedMantissa < 2 ^ (n + 1) := by
    rw [Nat.pow_succ]
    omega
  obtain ⟨-, hexp'⟩ := shiftToTargetExponent_bounds (e := first.2) hk' .exact
  rcases roundWithAccuracy_cases hfirst rfl s with hround | ⟨h, hround⟩
  · rw [hround]
    cases s <;> rfl
  · rw [hround]
    refine eq_false_of_ne_true fun hinf => ?_
    rw [isInf_unpack_pack_finite] at hinf
    omega

end Rounding

section OfOne

variable {x : Float} {m : Nat} {e : Int} {h : 0 < m}

theorem Fits.divCore_bounds (hfits : Fits m e) (hone : 1 ≤ totalExponent m e) :
    (divCore .binary64 (2 ^ 52) (-52) m e).1 < 2 ^ 106 ∧
      (divCore .binary64 (2 ^ 52) (-52) m e).2.1 ≤ 0 := by
  have hbits : Format.binary64.mantissaBits = 53 := rfl
  have hmin : Format.binary64.minExponent = -1074 := rfl
  have hlog : m.log2 < 53 := (Nat.log2_lt hfits.pos.ne').mpr hfits.lt
  unfold divCore
  rw [totalExponent_one]
  unfold Format.targetExponent
  rw [hbits, hmin]
  dsimp only
  constructor
  · refine (Nat.div_le_self _ _).trans_lt ?_
    rw [Nat.shiftLeft_eq, ← Nat.pow_add]
    refine Nat.pow_lt_pow_right (by decide) ?_
    unfold totalExponent at hone ⊢
    omega
  · omega

/-- One over a number that is at least one has a finite double without sign. -/
theorem isUnsigned_one_div (hx : x.toModel.unpack = .finite .positive m e h)
    (hone : 1 ≤ totalExponent m e) : isUnsigned (1 / x) = true := by
  have hinf : (1 / x).isInf = (1 / x).toModel.unpack.isInf := rfl
  obtain ⟨hquotient, hexp⟩ := (fits_of_unpack hx).divCore_bounds hone
  rw [isUnsigned_iff, hasSign_iff, hinf, unpack_div, hx, unpack_one]
  unfold UnpackedFloat.div
  dsimp only
  generalize divCore .binary64 (2 ^ 52) (-52) m e = core at hquotient hexp ⊢
  obtain ⟨q, t, a⟩ := core
  dsimp only at hquotient hexp ⊢
  constructor
  · rw [sign?_unpack_pack]
    exact sign?_roundWithAccuracy _ _ _ _
  · exact isInf_unpack_pack_roundWithAccuracy hquotient (by omega) (by decide) _ _

theorem isUnsigned_one_div_of_infinity (hx : x.toModel.unpack = .infinity .positive) :
    isUnsigned (1 / x) = true := by
  unfold isUnsigned
  rw [unpack_div, hx, unpack_one]
  rfl

theorem unpack_ofInt_of_pos {n : Int} (hn : 0 < n) :
    (ofInt n).toModel.unpack = .infinity .positive ∨
      ∃ m e h, (ofInt n).toModel.unpack = .finite .positive m e h ∧ 1 ≤ totalExponent m e := by
  by_cases hinf : (ofInt n).isInf = true
  · have hsign : sign? (ofInt n).toModel.unpack = some .positive := by
      rw [unpack_ofInt, sign?_unpack_pack]
      unfold UnpackedFloat.normalize
      rw [compare_gt_iff_gt.mpr hn]
      dsimp only
      rw [round_eq, sign?_roundWithAccuracy]
    obtain ⟨s, hs⟩ := exists_of_isInf hinf
    rw [hs] at hsign
    cases hsign
    exact Or.inl hs
  · obtain ⟨s, m, e, h, hsign, hunpack, hlo, hlt, hlower⟩ :=
      exists_unpack_ofInt hn.ne' (eq_false_of_ne_true hinf)
    have hone : 1 ≤ totalExponent m e := by
      unfold totalExponent
      rw [log2_of_normal hlo hlt]
      omega
    cases s with
    | positive => exact Or.inr ⟨m, e, h, hunpack, hone⟩
    | negative =>
      have hneg : -(n.natAbs : Int) = n := hsign
      omega

theorem isUnsigned_one_div_ofInt {n : Int} (hn : 0 < n) : isUnsigned (1 / ofInt n) = true := by
  rcases unpack_ofInt_of_pos hn with hinf | ⟨m, e, h, hfinite, hone⟩
  · exact isUnsigned_one_div_of_infinity hinf
  · exact isUnsigned_one_div hfinite hone

end OfOne

end Formula.Number
