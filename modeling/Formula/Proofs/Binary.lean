import Formula.Number.Text
import Mathlib.Algebra.Order.Field.Power
import Mathlib.Tactic.Linarith
import Mathlib.Tactic.Ring

/-!
# Doubles as exact binary fractions

A finite double is taken apart into a mantissa and an exponent that `Fits`. Putting the parts
together gives the double back, since no bit is lost on the way. The same holds for a decimal of the
same value: reading it multiplies or divides by a power of ten, and what is rounded away after that
is zeros only. The value of a double is a rational number here, and sizes are compared by the
position of the first bit, `totalExponent`.
-/

namespace Formula.Number

open Float.Model Float.Model.UnpackedFloat

/-- The mantissa and the exponent of a finite double. The first of the 53 bits is set unless the
exponent is the least. -/
structure Fits (m : Nat) (e : Int) : Prop where
  pos : 0 < m
  lt : m < 2 ^ 53
  lower : -1074 ≤ e
  upper : e ≤ 971
  normal : 2 ^ 52 ≤ m ∨ e = -1074

theorem toNat_implicit {w : Nat} (v : BitVec w) : (1#1 ++ v).toNat = 2 ^ w + v.toNat := by
  rw [BitVec.toNat_append, ← Nat.shiftLeft_add_eq_or_of_lt v.isLt]
  simp [Nat.shiftLeft_eq]

theorem toBitVec_ofBitVec (b : BitVec 1) : (Sign.ofBitVec b).toBitVec = b := by
  unfold Sign.ofBitVec
  by_cases hb : b = 0#1
  · simp [hb, Sign.toBitVec]
  · rw [if_neg hb]
    have hlt := b.isLt
    apply BitVec.eq_of_toNat_eq
    have hne : b.toNat ≠ 0 := fun h => hb (BitVec.eq_of_toNat_eq h)
    simp [Sign.toBitVec]
    omega

theorem unpackSign_eq {spec : Format} (b : BitVec spec.numBits) :
    unpackSign b = (b.extractLsb (spec.mantissaBitsWithoutImplicit + spec.exponentBits)
      (spec.mantissaBitsWithoutImplicit + spec.exponentBits)).cast (by omega) := rfl

theorem packComponents_fields (b : BitVec Format.binary64.numBits) :
    packComponents .binary64 (Sign.ofBitVec (unpackSign b)) (unpackExponent b) (unpackMantissa b) =
      b := by
  unfold packComponents
  rw [toBitVec_ofBitVec]
  ext i hi
  have hi' : i < 64 := hi
  simp only [unpackSign_eq, unpackExponent, unpackMantissa, BitVec.getElem_append]
  by_cases hm : i < 52
  · simp [hm, BitVec.getLsbD_eq_getElem hi]
  · by_cases he : i - 52 < 11
    · have hindex : 52 + (i - 52) = i := by omega
      simp [hm, he, hindex, BitVec.getLsbD_eq_getElem hi]
    · have hindex : 63 + (i - 52 - 11) = i := by omega
      simp [hm, he, hindex, BitVec.getLsbD_eq_getElem hi]

/-- What a sign and the two fields of a double unpack to. -/
def ofFields (s : Sign) (e : BitVec 11) (m : BitVec 52) : UnpackedFloat :=
  if e = -1#11 then
    if m = 0#52 then .infinity s else .notANumber
  else if e = 0#11 then
    if h : m = 0#52 then .zero s
    else .finite s m.toNat (e.toNat - 1075 + 1)
      (Nat.pos_of_ne_zero fun hm => h (BitVec.eq_of_toNat_eq hm))
  else .finite s (1#1 ++ m).toNat (e.toNat - 1075) (by rw [toNat_implicit]; omega)

theorem ofFields_least (s : Sign) {m : BitVec 52} (hm : m ≠ 0#52) (h : 0 < m.toNat) :
    ofFields s 0#11 m = .finite s m.toNat (-1074) h := by
  rw [ofFields, if_neg (by decide), if_pos rfl, dif_neg hm]
  rfl

theorem ofFields_normal (s : Sign) {e : BitVec 11} (m : BitVec 52) (hzero : e ≠ 0#11)
    (hones : e ≠ -1#11) (h : 0 < 2 ^ 52 + m.toNat) :
    ofFields s e m = .finite s (2 ^ 52 + m.toNat) (e.toNat - 1075) h := by
  rw [ofFields, if_neg hones, if_neg hzero, finite.injEq]
  exact ⟨rfl, toNat_implicit m, rfl⟩

theorem ofFields_cases (s : Sign) (e : BitVec 11) (m : BitVec 52) :
    (e = -1#11 ∧ m = 0#52 ∧ ofFields s e m = .infinity s) ∨
    (e = -1#11 ∧ m ≠ 0#52 ∧ ofFields s e m = .notANumber) ∨
    (e = 0#11 ∧ m = 0#52 ∧ ofFields s e m = .zero s) ∨
    (e = 0#11 ∧ m ≠ 0#52 ∧ ∃ h, ofFields s e m = .finite s m.toNat (-1074) h) ∨
    (e ≠ 0#11 ∧ e ≠ -1#11 ∧
      ∃ h, ofFields s e m = .finite s (2 ^ 52 + m.toNat) (e.toNat - 1075) h) := by
  by_cases hones : e = -1#11
  · by_cases hm : m = 0#52
    · exact Or.inl ⟨hones, hm, by rw [ofFields, if_pos hones, if_pos hm]⟩
    · exact Or.inr (Or.inl ⟨hones, hm, by rw [ofFields, if_pos hones, if_neg hm]⟩)
  · refine Or.inr (Or.inr ?_)
    by_cases hzero : e = 0#11
    · subst hzero
      by_cases hm : m = 0#52
      · exact Or.inl ⟨rfl, hm, by rw [ofFields, if_neg hones, if_pos rfl, dif_pos hm]⟩
      · have hpos : 0 < m.toNat := Nat.pos_of_ne_zero fun h => hm (BitVec.eq_of_toNat_eq h)
        exact Or.inr (Or.inl ⟨rfl, hm, hpos, ofFields_least s hm hpos⟩)
    · exact Or.inr (Or.inr ⟨hzero, hones, by omega, ofFields_normal s m hzero hones _⟩)

theorem unpack_eq_ofFields (b : BitVec Format.binary64.numBits) :
    UnpackedFloat.unpack .binary64 b =
      ofFields (Sign.ofBitVec (unpackSign b)) (unpackExponent b) (unpackMantissa b) := rfl

theorem unpack_eq_finite {b : BitVec Format.binary64.numBits} {s : Sign} {m : Nat} {e : Int}
    {h : 0 < m} (hu : UnpackedFloat.unpack .binary64 b = .finite s m e h) :
    s = Sign.ofBitVec (unpackSign b) ∧
      ((unpackExponent b = 0#11 ∧ m = (unpackMantissa b).toNat ∧ e = -1074) ∨
        (unpackExponent b ≠ 0#11 ∧ unpackExponent b ≠ -1#11 ∧
          m = 2 ^ 52 + (unpackMantissa b).toNat ∧ e = (unpackExponent b).toNat - 1075)) := by
  rw [unpack_eq_ofFields] at hu
  rcases ofFields_cases (Sign.ofBitVec (unpackSign b)) (unpackExponent b) (unpackMantissa b) with
    ⟨-, -, hf⟩ | ⟨-, -, hf⟩ | ⟨-, -, hf⟩ | ⟨hzero, -, _, hf⟩ | ⟨hzero, hones, _, hf⟩
  · rw [hf] at hu
    cases hu
  · rw [hf] at hu
    cases hu
  · rw [hf] at hu
    cases hu
  · rw [hf] at hu
    cases hu
    exact ⟨rfl, Or.inl ⟨hzero, rfl, rfl⟩⟩
  · rw [hf] at hu
    cases hu
    exact ⟨rfl, Or.inr ⟨hzero, hones, rfl, rfl⟩⟩

theorem fits_of_unpack {b : BitVec Format.binary64.numBits} {s : Sign} {m : Nat} {e : Int}
    {h : 0 < m} (hu : UnpackedFloat.unpack .binary64 b = .finite s m e h) : Fits m e := by
  have hm : (unpackMantissa b).toNat < 2 ^ 52 := (unpackMantissa b).isLt
  have he : (unpackExponent b).toNat < 2 ^ 11 := (unpackExponent b).isLt
  obtain ⟨-, ⟨-, rfl, rfl⟩ | ⟨hzero, hinf, rfl, rfl⟩⟩ := unpack_eq_finite hu
  · exact ⟨h, by omega, by omega, by omega, Or.inr rfl⟩
  · have hlo : (unpackExponent b).toNat ≠ 0 := fun h => hzero (BitVec.eq_of_toNat_eq h)
    have hhi : (unpackExponent b).toNat ≠ 2047 := fun h => hinf (BitVec.eq_of_toNat_eq h)
    exact ⟨h, by omega, by omega, by omega, Or.inl (by omega)⟩

theorem log2_of_normal {m : Nat} (hlo : 2 ^ 52 ≤ m) (hlt : m < 2 ^ 53) : m.log2 = 52 :=
  (Nat.log2_eq_iff (by omega)).mpr ⟨hlo, hlt⟩

theorem pack_finite (s : Sign) (m : Nat) (e : Int) (h : 0 < m) :
    UnpackedFloat.pack .binary64 (.finite s m e h) =
      if 2 ^ 11 ≤ (e + 1023 + 52).toNat + 1 then packedInfinity .binary64 s
      else if m.log2 + 1 = 53 then
        packComponents .binary64 s (BitVec.ofNat 11 (e + 1023 + 52).toNat) (BitVec.ofNat 52 m)
      else packComponents .binary64 s 0#11 (BitVec.ofNat 52 m) := rfl

theorem pack_unpack_finite {b : BitVec Format.binary64.numBits} {s : Sign} {m : Nat} {e : Int}
    {h : 0 < m} (hu : UnpackedFloat.unpack .binary64 b = .finite s m e h) :
    UnpackedFloat.pack .binary64 (.finite s m e h) = b := by
  have hm : (unpackMantissa b).toNat < 2 ^ 52 := (unpackMantissa b).isLt
  have he : (unpackExponent b).toNat < 2 ^ 11 := (unpackExponent b).isLt
  have hfits := fits_of_unpack hu
  have hb := packComponents_fields b
  obtain ⟨rfl, ⟨hzero, rfl, rfl⟩ | ⟨hzero, hinf, rfl, rfl⟩⟩ := unpack_eq_finite hu
  · have hlog : (unpackMantissa b).toNat.log2 < 52 := (Nat.log2_lt (by omega)).mpr hm
    rw [pack_finite, if_neg (by decide), if_neg (by omega), BitVec.ofNat_toNat, BitVec.setWidth_eq,
      ← hzero]
    exact hb
  · have hlog := log2_of_normal (Nat.le_add_right _ _) hfits.lt
    have hhi : (unpackExponent b).toNat ≠ 2047 := fun h => hinf (BitVec.eq_of_toNat_eq h)
    have hexp : ((unpackExponent b).toNat - 1075 + 1023 + 52 : Int).toNat =
        (unpackExponent b).toNat := by omega
    have hmant : BitVec.ofNat 52 (2 ^ 52 + (unpackMantissa b).toNat) = unpackMantissa b := by
      apply BitVec.eq_of_toNat_eq
      rw [BitVec.toNat_ofNat, Nat.add_mod_left, Nat.mod_eq_of_lt hm]
    rw [pack_finite, hexp, hlog, hmant, if_neg (by omega), if_pos rfl, BitVec.ofNat_toNat,
      BitVec.setWidth_eq]
    exact hb

theorem ofNat_ne_ones {b : Nat} (h : ¬ 2 ^ 11 ≤ b + 1) : BitVec.ofNat 11 b ≠ -1#11 := by
  intro hones
  have hb := congrArg BitVec.toNat hones
  rw [BitVec.toNat_ofNat, Nat.mod_eq_of_lt (by omega)] at hb
  change b = 2047 at hb
  omega

theorem Fits.targetExponent_eq {m : Nat} {e : Int} (h : Fits m e) :
    Format.binary64.targetExponent (totalExponent m e) = e := by
  obtain ⟨hpos, hlt, hlower, hupper, hnormal⟩ := h
  have hbits : Format.binary64.mantissaBits = 53 := rfl
  have hmin : Format.binary64.minExponent = -1074 := rfl
  have hlog : m.log2 < 53 := (Nat.log2_lt (by omega)).mpr hlt
  unfold Format.targetExponent totalExponent
  rw [hbits, hmin]
  rcases hnormal with hlo | rfl
  · rw [log2_of_normal hlo hlt]
    omega
  · omega

theorem targetExponent_mono {t u : Int} (h : t ≤ u) :
    Format.binary64.targetExponent t ≤ Format.binary64.targetExponent u := by
  unfold Format.targetExponent
  omega

theorem log2_mul_two_pow {m : Nat} (hm : 0 < m) (n : Nat) : (m * 2 ^ n).log2 = m.log2 + n := by
  induction n with
  | zero => simp
  | succ n ih =>
    have hne : m * 2 ^ n ≠ 0 := (Nat.mul_pos hm (Nat.two_pow_pos n)).ne'
    rw [Nat.pow_succ', Nat.mul_left_comm, Nat.log2_two_mul hne, ih]
    omega

theorem totalExponent_mul_two_pow {m : Nat} (hm : 0 < m) (n : Nat) (e : Int) :
    totalExponent (m * 2 ^ n) e = totalExponent m (e + n) := by
  unfold totalExponent
  rw [log2_mul_two_pow hm]
  omega

theorem shiftRight_mul_two_pow (m n : Nat) :
    (⟨m * 2 ^ n, false, false⟩ : ExtendedMantissa) >>> n = ⟨m, false, false⟩ := by
  induction n generalizing m with
  | zero => simp [HShiftRight.hShiftRight, Nat.repeat]
  | succ n ih =>
    change ExtendedMantissa.shiftRightOne
      ((⟨m * 2 ^ (n + 1), false, false⟩ : ExtendedMantissa) >>> n) = _
    have hdouble : m * 2 ^ (n + 1) = 2 * m * 2 ^ n := by ring
    rw [hdouble, ih]
    simp [ExtendedMantissa.shiftRightOne]

theorem shiftToTargetExponent_mul_two_pow {m : Nat} {e : Int} (h : Fits m e) (n : Nat) :
    shiftToTargetExponent .binary64 (m * 2 ^ n) (e - n) .exact = (⟨m, false, false⟩, e) := by
  unfold shiftToTargetExponent shiftToExponent
  rw [totalExponent_mul_two_pow h.pos, Int.sub_add_cancel, h.targetExponent_eq]
  have hamount : (e - (e - n)).toNat = n := by omega
  dsimp only
  rw [hamount, ExtendedMantissa.ofMantissaAndAccuracy, shiftRight_mul_two_pow, Int.sub_add_cancel]

theorem roundWithAccuracy_cases {m : Nat} {e : Int} {a : Accuracy}
    {first second : ExtendedMantissa × Int}
    (hfirst : shiftToTargetExponent .binary64 m e a = first)
    (hsecond : shiftToTargetExponent .binary64 first.1.roundedMantissa first.2 .exact = second)
    (s : Sign) :
    roundWithAccuracy .binary64 s m e a = .zero s ∨
      ∃ h, roundWithAccuracy .binary64 s m e a = .finite s second.1.mantissa second.2 h := by
  by_cases h : second.1.mantissa = 0
  · subst hfirst hsecond
    exact Or.inl (dif_pos h)
  · subst hfirst hsecond
    exact Or.inr ⟨Nat.pos_of_ne_zero h, dif_neg h⟩

/-- A double is not rounded. -/
theorem roundWithAccuracy_mul_two_pow {m : Nat} {e : Int} (h : Fits m e) (n : Nat) (s : Sign) :
    roundWithAccuracy .binary64 s (m * 2 ^ n) (e - n) .exact = .finite s m e h.pos := by
  have hagain : shiftToTargetExponent .binary64 m e .exact = (⟨m, false, false⟩, e) := by
    simpa using shiftToTargetExponent_mul_two_pow h 0
  unfold roundWithAccuracy
  rw [shiftToTargetExponent_mul_two_pow h]
  dsimp only [ExtendedMantissa.roundedMantissa, ExtendedMantissa.accuracy,
    Accuracy.roundToNearestEven]
  rw [hagain]
  dsimp only
  rw [dif_neg h.pos.ne']

section Scientific

variable {m d : Nat} {e k : Int}

theorem Fits.totalExponent_bounds (h : Fits m e) : -1074 < totalExponent m e ∧
    totalExponent m e ≤ 1024 ∧ totalExponent m e ≤ e + 53 := by
  obtain ⟨hpos, hlt, hlower, hupper, -⟩ := h
  have hlog : m.log2 < 53 := (Nat.log2_lt (by omega)).mpr hlt
  unfold totalExponent
  omega

theorem two_zpow_le (hm : 0 < m) (e : Int) : (2 : ℚ) ^ (totalExponent m e - 1) ≤ m * 2 ^ e := by
  have hlog : ((2 ^ m.log2 : Nat) : ℚ) ≤ m := by exact_mod_cast Nat.log2_self_le hm.ne'
  have hsum : totalExponent m e - 1 = (m.log2 : Int) + e := by
    unfold totalExponent
    omega
  rw [hsum, zpow_add₀ two_ne_zero, zpow_natCast]
  push_cast at hlog
  exact mul_le_mul_of_nonneg_right hlog (by positivity)

theorem lt_two_zpow (m : Nat) (e : Int) : (m : ℚ) * 2 ^ e < 2 ^ totalExponent m e := by
  have hlog : (m : ℚ) < (2 ^ (m.log2 + 1) : Nat) := by exact_mod_cast Nat.lt_log2_self
  have hsum : totalExponent m e = ((m.log2 + 1 : Nat) : Int) + e := by
    unfold totalExponent
    omega
  rw [hsum, zpow_add₀ two_ne_zero, zpow_natCast]
  push_cast at hlog
  exact mul_lt_mul_of_pos_right hlog (by positivity)

theorem mul_two_pow_eq {x y a b : Nat} (h : (x : ℚ) = m * 2 ^ e * y) (hab : (b : Int) = e + a) :
    x * 2 ^ a = m * 2 ^ b * y := by
  have hpow : (2 : ℚ) ^ b = 2 ^ e * 2 ^ a := by
    rw [← zpow_natCast, ← zpow_natCast, ← zpow_add₀ two_ne_zero, hab]
  have hcast : ((x * 2 ^ a : Nat) : ℚ) = (m * 2 ^ b * y : Nat) := by
    push_cast
    rw [h, hpow]
    ring
  exact_mod_cast hcast

theorem scale_le (h : Fits m e) (hd : 0 < d) (heq : (d : ℚ) * 10 ^ k = m * 2 ^ e) :
    k ≤ 2 ^ 11 := by
  by_contra hlarge
  obtain ⟨-, hupper, -⟩ := h.totalExponent_bounds
  have hk : 0 ≤ k := by omega
  have hone : (1 : ℚ) ≤ d := by exact_mod_cast hd
  have hlt : (2 : ℚ) ^ k < 2 ^ totalExponent m e := by
    calc (2 : ℚ) ^ k ≤ 10 ^ k := zpow_le_zpow_left₀ hk (by norm_num) (by norm_num)
      _ ≤ d * 10 ^ k := le_mul_of_one_le_left (by positivity) hone
      _ = m * 2 ^ e := heq
      _ < 2 ^ totalExponent m e := lt_two_zpow m e
  have := (zpow_lt_zpow_iff_right₀ (by norm_num)).mp hlt
  omega

theorem le_scale (h : Fits m e) (heq : (d : ℚ) * 10 ^ k = m * 2 ^ e) :
    -(2 ^ 11 + (d.log2 : Int)) ≤ k := by
  by_contra hsmall
  obtain ⟨hlower, -, -⟩ := h.totalExponent_bounds
  have hk : 0 ≤ -k := by omega
  have hten : (10 : ℚ) ^ k ≤ 2 ^ k := by
    have hneg : (2 : ℚ) ^ (-k) ≤ 10 ^ (-k) := zpow_le_zpow_left₀ hk (by norm_num) (by norm_num)
    rw [zpow_neg, zpow_neg] at hneg
    exact (inv_le_inv₀ (by positivity) (by positivity)).mp hneg
  have hlt : (2 : ℚ) ^ (totalExponent m e - 1) < 2 ^ totalExponent d k := by
    calc (2 : ℚ) ^ (totalExponent m e - 1) ≤ m * 2 ^ e := two_zpow_le h.pos e
      _ = d * 10 ^ k := heq.symm
      _ ≤ d * 2 ^ k := mul_le_mul_of_nonneg_left hten (by positivity)
      _ < 2 ^ totalExponent d k := lt_two_zpow d k
  have := (zpow_lt_zpow_iff_right₀ (by norm_num)).mp hlt
  unfold totalExponent at this hlower
  omega

theorem mul_eq_finite (h : Fits m e) {n : Nat} (heq : ((d * 10 ^ n : Nat) : ℚ) = m * 2 ^ e)
    (hd : 0 < d) {h₁ h₂} : UnpackedFloat.mul .binary64 (.finite .positive (d <<< 53) (-53) h₁)
      (.finite .positive (10 ^ n) 0 h₂) = .finite .positive m e h.pos := by
  have hbound : -53 < e := by
    have hone : (1 : ℚ) ≤ (d * 10 ^ n : Nat) := by
      exact_mod_cast Nat.mul_pos hd (Nat.pow_pos (by decide))
    have hlt : (2 : ℚ) ^ (0 : Int) < 2 ^ totalExponent m e := by
      calc (2 : ℚ) ^ (0 : Int) ≤ (d * 10 ^ n : Nat) := by simpa using hone
        _ = m * 2 ^ e := heq
        _ < 2 ^ totalExponent m e := lt_two_zpow m e
    have := (zpow_lt_zpow_iff_right₀ (by norm_num)).mp hlt
    have := h.totalExponent_bounds
    omega
  obtain ⟨j, hj⟩ := Int.eq_ofNat_of_zero_le (show 0 ≤ e + 53 by omega)
  have hshift : d <<< 53 * 10 ^ n = m * 2 ^ j := by
    have hnat : d * 10 ^ n * 2 ^ 53 = m * 2 ^ j * 1 := by
      apply mul_two_pow_eq (by simpa using heq)
      omega
    rw [Nat.shiftLeft_eq]
    linarith
  have hexp : (-53 : Int) + 0 = e - j := by omega
  unfold UnpackedFloat.mul
  dsimp only
  rw [hshift, hexp]
  exact roundWithAccuracy_mul_two_pow h j .positive

theorem div_eq_finite (h : Fits m e) {n : Nat} (heq : (d : ℚ) = m * 2 ^ e * (10 ^ n : Nat))
    {h₁ h₂} : UnpackedFloat.div .binary64 (.finite .positive d 0 h₁)
      (.finite .positive (10 ^ n) 0 h₂) = .finite .positive m e h.pos := by
  have htotal : totalExponent d 0 - totalExponent (10 ^ n) 0 ≤ totalExponent m e := by
    have hden : (0 : ℚ) < (10 ^ n : Nat) := by exact_mod_cast h₂
    have hlt : (2 : ℚ) ^ (totalExponent d 0 - 1) <
        2 ^ (totalExponent m e + totalExponent (10 ^ n) 0) := by
      calc (2 : ℚ) ^ (totalExponent d 0 - 1) ≤ d := by simpa using two_zpow_le h₁ 0
        _ = m * 2 ^ e * (10 ^ n : Nat) := heq
        _ < 2 ^ totalExponent m e * 2 ^ totalExponent (10 ^ n) 0 := by
          apply mul_lt_mul'' (lt_two_zpow m e) _ (by positivity) hden.le
          simpa using lt_two_zpow (10 ^ n) 0
        _ = _ := (zpow_add₀ two_ne_zero _ _).symm
    have := (zpow_lt_zpow_iff_right₀ (by norm_num)).mp hlt
    omega
  have htarget := targetExponent_mono htotal
  rw [h.targetExponent_eq] at htarget
  unfold UnpackedFloat.div divCore
  dsimp only
  generalize Format.binary64.targetExponent
    (totalExponent d 0 - totalExponent (10 ^ n) 0) = t at htarget ⊢
  obtain ⟨a, ha⟩ := Int.eq_ofNat_of_zero_le (show 0 ≤ -min (0 - 0) t by omega)
  obtain ⟨b, hb⟩ := Int.eq_ofNat_of_zero_le (show 0 ≤ e - min (0 - 0) t by omega)
  have hamount : (0 - 0 - min (0 - 0) t).toNat = a := by omega
  have hshift : d <<< a = m * 2 ^ b * 10 ^ n := by
    rw [Nat.shiftLeft_eq]
    apply mul_two_pow_eq heq
    omega
  have hexp : min (0 - 0) t = e - b := by omega
  rw [hamount, hshift, Nat.mul_div_cancel _ h₂, Nat.mul_mod_left, hexp]
  exact roundWithAccuracy_mul_two_pow h b .positive

theorem ofScientific_eq (h : Fits m e) (heq : (d : ℚ) * 10 ^ k = m * 2 ^ e) :
    UnpackedFloat.ofScientific .binary64 d k = .finite .positive m e h.pos := by
  have hd : 0 < d := by
    rcases Nat.eq_zero_or_pos d with rfl | hd
    · have hpos : (0 : ℚ) < m * 2 ^ e := by
        have := h.pos
        positivity
      rw [← heq] at hpos
      simp at hpos
    · exact hd
  have hlarge := scale_le h hd heq
  have hsmall := le_scale h heq
  unfold UnpackedFloat.ofScientific
  rw [dif_neg hd.ne', if_neg (by simpa using hlarge), if_neg (by simpa using hsmall)]
  by_cases hk : 0 ≤ k
  · obtain ⟨n, rfl⟩ := Int.eq_ofNat_of_zero_le hk
    rw [if_pos hk]
    apply mul_eq_finite h _ hd
    simpa using heq
  · obtain ⟨n, rfl⟩ : ∃ n : Nat, k = -n := ⟨(-k).toNat, by omega⟩
    rw [if_neg hk]
    apply div_eq_finite h
    rw [← heq]
    simp

end Scientific

theorem ofModel_pack_eq {x : Float} {u : UnpackedFloat}
    (h : UnpackedFloat.pack .binary64 u = x.toModel.toBits.toBitVec) :
    Float.ofModel (.pack u) = x := by
  obtain ⟨⟨⟨bits⟩, hvalid⟩⟩ := x
  obtain rfl : UnpackedFloat.pack .binary64 u = bits := h
  rfl

/-- A decimal that equals a positive double is read as that double. -/
theorem ofScientific_of_unpack {x : Float} {m d : Nat} {e k : Int} {h : 0 < m}
    (hx : x.toModel.unpack = .finite .positive m e h) (heq : (d : ℚ) * 10 ^ k = m * 2 ^ e) :
    Float.ofModel (.ofScientific d k) = x := by
  apply ofModel_pack_eq
  rw [ofScientific_eq (fits_of_unpack hx) heq]
  exact pack_unpack_finite hx

theorem unpack_ofScientific_zero (k : Int) :
    (Float.ofModel (.ofScientific 0 k)).toModel.unpack = .zero .positive := by
  change UnpackedFloat.unpack .binary64
    (UnpackedFloat.pack .binary64 (UnpackedFloat.ofScientific .binary64 0 k)) = _
  unfold UnpackedFloat.ofScientific
  rw [dif_pos rfl]
  rfl

end Formula.Number
