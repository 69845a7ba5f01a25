import Formula.Number.Quantity
import Formula.Proofs.Sign

/-!
# Integers that are too large for a double

An integer is rounded to its first 53 bits. If these bits are all set, and so is the next one, the
rounded number has one bit more, and its exponent is greater by one (`exists_round_eq`). So an
integer has no double if and only if it is at least halfway from the greatest double to the power of
two after it (`isInf_ofInt`).
-/

namespace Formula.Number

open Float.Model Float.Model.UnpackedFloat

section Pack

theorem isInf_unpack_packComponents (s : Sign) (e : BitVec 11) (m : BitVec 52) :
    (UnpackedFloat.unpack .binary64 (packComponents .binary64 s e m)).isInf = true ↔
      e = -1#11 ∧ m = 0#52 := by
  rw [unpack_packComponents]
  rcases ofFields_cases s e m with
    ⟨he, hm, hf⟩ | ⟨-, hm, hf⟩ | ⟨he, -, hf⟩ | ⟨he, -, _, hf⟩ | ⟨-, he, _, hf⟩
  · rw [hf]
    exact iff_of_true rfl ⟨he, hm⟩
  · rw [hf]
    exact iff_of_false Bool.false_ne_true fun h => hm h.2
  · rw [hf, he]
    exact iff_of_false Bool.false_ne_true fun h => absurd h.1 (by decide)
  · rw [hf, he]
    exact iff_of_false Bool.false_ne_true fun h => absurd h.1 (by decide)
  · rw [hf]
    exact iff_of_false Bool.false_ne_true fun h => he h.1

theorem isInf_unpack_pack_finite (s : Sign) (m : Nat) (e : Int) (h : 0 < m) :
    (UnpackedFloat.unpack .binary64 (UnpackedFloat.pack .binary64 (.finite s m e h))).isInf = true ↔
      971 < e := by
  rw [pack_finite]
  generalize hb : (e + 1023 + 52).toNat = b
  by_cases hlarge : 2 ^ 11 ≤ b + 1
  · rw [if_pos hlarge, packedInfinity, isInf_unpack_packComponents]
    exact ⟨fun _ => by omega, fun _ => ⟨rfl, rfl⟩⟩
  · rw [if_neg hlarge]
    have hsmall : ¬ 971 < e := by omega
    refine iff_of_false ?_ hsmall
    split
    · rw [isInf_unpack_packComponents]
      exact fun hones => ofNat_ne_ones hlarge hones.1
    · rw [isInf_unpack_packComponents]
      exact fun hones => absurd hones.1 (by decide)

end Pack

section Round

theorem mantissa_shiftRight (em : ExtendedMantissa) (n : Nat) :
    (em >>> n).mantissa = em.mantissa / 2 ^ n := by
  induction n with
  | zero => simp [HShiftRight.hShiftRight, Nat.repeat]
  | succ n ih =>
    change (em >>> n).mantissa / 2 = _
    rw [ih, Nat.div_div_eq_div_mul, Nat.pow_succ]

theorem roundBit_shiftRight_succ (em : ExtendedMantissa) (n : Nat) :
    (em >>> (n + 1)).roundBit = (em.mantissa / 2 ^ n % 2 != 0) := by
  change ((em >>> n).mantissa % 2 != 0) = _
  rw [mantissa_shiftRight]

theorem roundedMantissa_bounds (em : ExtendedMantissa) :
    em.mantissa ≤ em.roundedMantissa ∧ em.roundedMantissa ≤ em.mantissa + 1 := by
  obtain ⟨m, r, s⟩ := em
  cases r <;> cases s <;>
    simp only [ExtendedMantissa.roundedMantissa, ExtendedMantissa.accuracy,
      Accuracy.roundToNearestEven] <;> omega

theorem roundedMantissa_of_odd {em : ExtendedMantissa} (h : em.mantissa % 2 = 1) :
    em.roundedMantissa = if em.roundBit then em.mantissa + 1 else em.mantissa := by
  obtain ⟨m, r, s⟩ := em
  cases r <;> cases s <;>
    simp_all [ExtendedMantissa.roundedMantissa, ExtendedMantissa.accuracy,
      Accuracy.roundToNearestEven]

variable {k : Nat}

/-- The first 53 bits of an integer that has so many, rounded. -/
def roundedHead (k : Nat) : Nat :=
  ((⟨k, false, false⟩ : ExtendedMantissa) >>> (k.log2 - 52)).roundedMantissa

theorem quotient_bounds (hk : 2 ^ 52 ≤ k) :
    2 ^ 52 ≤ k / 2 ^ (k.log2 - 52) ∧ k / 2 ^ (k.log2 - 52) < 2 ^ 53 := by
  have hlog : 52 ≤ k.log2 := (Nat.le_log2 (by omega)).mpr hk
  have hpos : 0 < 2 ^ (k.log2 - 52) := Nat.two_pow_pos _
  constructor
  · rw [Nat.le_div_iff_mul_le hpos, ← Nat.pow_add, Nat.add_sub_cancel' hlog]
    exact Nat.log2_self_le (by omega)
  · rw [Nat.div_lt_iff_lt_mul hpos, ← Nat.pow_add, show 53 + (k.log2 - 52) = k.log2 + 1 by omega]
    exact Nat.lt_log2_self

theorem roundedHead_bounds (hk : 2 ^ 52 ≤ k) : 2 ^ 52 ≤ roundedHead k ∧ roundedHead k ≤ 2 ^ 53 := by
  have hquotient := quotient_bounds hk
  have hbounds := roundedMantissa_bounds
    ((⟨k, false, false⟩ : ExtendedMantissa) >>> (k.log2 - 52))
  rw [mantissa_shiftRight] at hbounds
  exact ⟨hquotient.1.trans hbounds.1, hbounds.2.trans hquotient.2⟩

theorem shiftToTargetExponent_eq {e : Int} (hk : 2 ^ 52 ≤ k) (he : -1074 ≤ e) :
    shiftToTargetExponent .binary64 k e .exact =
      ((⟨k, false, false⟩ : ExtendedMantissa) >>> (k.log2 - 52), e + (k.log2 - 52 : Nat)) := by
  have hbits : Format.binary64.mantissaBits = 53 := rfl
  have hmin : Format.binary64.minExponent = -1074 := rfl
  have hlog : 52 ≤ k.log2 := (Nat.le_log2 (by omega)).mpr hk
  have htarget : Format.binary64.targetExponent (totalExponent k e) = e + (k.log2 - 52 : Nat) := by
    unfold Format.targetExponent totalExponent
    rw [hbits, hmin]
    omega
  unfold shiftToTargetExponent shiftToExponent
  dsimp only [ExtendedMantissa.ofMantissaAndAccuracy]
  have hamount : (e + (k.log2 - 52 : Nat) - e).toNat = k.log2 - 52 := by omega
  rw [htarget, hamount]

theorem exists_roundWithAccuracy_eq {e : Int} (hk : 2 ^ 52 ≤ k) (he : -1074 ≤ e) (s : Sign) :
    ∃ m h, roundWithAccuracy .binary64 s k e .exact =
      .finite s m (e + (k.log2 - 52 : Nat) + ((roundedHead k).log2 - 52 : Nat)) h ∧
        2 ^ 52 ≤ m ∧ m < 2 ^ 53 := by
  have hhead := (roundedHead_bounds hk).1
  have hsecond := shiftToTargetExponent_eq hhead (e := e + (k.log2 - 52 : Nat)) (by omega)
  have hbounds := quotient_bounds hhead
  rw [← mantissa_shiftRight ⟨roundedHead k, false, false⟩] at hbounds
  unfold roundWithAccuracy
  rw [shiftToTargetExponent_eq hk he]
  dsimp only
  rw [← roundedHead, hsecond]
  dsimp only
  rw [dif_neg (by omega)]
  exact ⟨_, _, rfl, hbounds⟩

/-- An integer is rounded to the next power of two if it is at least halfway there from the last
number of 53 bits. -/
theorem roundedHead_eq_iff {n : Nat} (hk : k.log2 = n + 53) :
    roundedHead k = 2 ^ 53 ↔ 2 ^ (n + 54) - 2 ^ n ≤ k := by
  have hle : 2 ^ 52 ≤ k := by
    have hne : k ≠ 0 := by
      rintro rfl
      simp at hk
    exact (Nat.le_log2 hne).mp (by omega)
  have hshift : k.log2 - 52 = n + 1 := by omega
  have hhalfway : 2 ^ (n + 54) - 2 ^ n ≤ k ↔ 2 ^ 54 - 1 ≤ k / 2 ^ n := by
    rw [Nat.le_div_iff_mul_le (Nat.two_pow_pos n), Nat.sub_mul, ← Nat.pow_add, Nat.one_mul,
      Nat.add_comm 54]
  have hlt := (quotient_bounds hle).2
  have hmantissa := mantissa_shiftRight ⟨k, false, false⟩ (n + 1)
  have hround := roundBit_shiftRight_succ ⟨k, false, false⟩ n
  rw [hhalfway, roundedHead, hshift]
  rw [hshift, Nat.pow_succ, ← Nat.div_div_eq_div_mul] at hlt
  rw [Nat.pow_succ, ← Nat.div_div_eq_div_mul] at hmantissa
  dsimp only at hmantissa hround
  generalize (⟨k, false, false⟩ : ExtendedMantissa) >>> (n + 1) = em at *
  generalize k / 2 ^ n = t at *
  by_cases hodd : em.mantissa % 2 = 1
  · rw [roundedMantissa_of_odd hodd, hround]
    by_cases hbit : (t % 2 != 0) = true
    · rw [if_pos hbit]
      rw [bne_iff_ne] at hbit
      omega
    · rw [if_neg hbit]
      rw [bne_iff_ne, not_not] at hbit
      omega
  · have := roundedMantissa_bounds em
    omega

theorem not_le_of_log2_lt {n : Nat} (hk : 0 < k) (h : k.log2 < n + 53) :
    ¬ 2 ^ (n + 54) - 2 ^ n ≤ k := by
  have hlt : k < 2 ^ (n + 53) := (Nat.log2_lt hk.ne').mp h
  rw [Nat.pow_add] at hlt ⊢
  omega

theorem log2_roundedHead (hk : 2 ^ 52 ≤ k) :
    (roundedHead k).log2 = if roundedHead k = 2 ^ 53 then 53 else 52 := by
  obtain ⟨hlo, hhi⟩ := roundedHead_bounds hk
  split
  · rename_i heq
    rw [heq, Nat.log2_two_pow]
  · rename_i hne
    exact log2_of_normal hlo (by omega)

theorem round_eq (k : Nat) (s : Sign) : UnpackedFloat.round .binary64 s k 0 =
    roundWithAccuracy .binary64 s (k * 2 ^ (52 - k.log2)) (0 - (52 - k.log2 : Nat)) .exact := by
  have hbits : Format.binary64.mantissaBits = 53 := rfl
  have hmin : Format.binary64.minExponent = -1074 := rfl
  have hamount : (0 - Format.binary64.targetExponent (totalExponent k 0)).toNat = 52 - k.log2 := by
    unfold Format.targetExponent totalExponent
    rw [hbits, hmin]
    omega
  unfold UnpackedFloat.round decreaseExponent
  dsimp only
  rw [hamount, Nat.shiftLeft_eq]

theorem two_pow_le_of_log2 (hk : 0 < k) : 2 ^ 52 ≤ k * 2 ^ (52 - k.log2) := by
  have hne : k * 2 ^ (52 - k.log2) ≠ 0 := (Nat.mul_pos hk (Nat.two_pow_pos _)).ne'
  rw [← Nat.le_log2 hne, log2_mul_two_pow hk]
  omega

/-- A positive integer is rounded to 53 bits. Its exponent exceeds `n + 1` if the integer is at
least halfway from the last number with that exponent to the power of two after it. -/
theorem exists_round_eq (hk : 0 < k) (s : Sign) :
    ∃ m e h, UnpackedFloat.round .binary64 s k 0 = .finite s m e h ∧
      (2 ^ 52 ≤ m ∧ m < 2 ^ 53) ∧ (k.log2 : Int) - 52 ≤ e ∧
        ∀ n : Nat, n + 1 < e ↔ 2 ^ (n + 54) - 2 ^ n ≤ k := by
  have hle := two_pow_le_of_log2 hk
  obtain ⟨m, h, hround, hm⟩ := exists_roundWithAccuracy_eq hle
    (e := 0 - (52 - k.log2 : Nat)) (by omega) s
  have hhead := log2_roundedHead hle
  have hlog := log2_mul_two_pow hk (52 - k.log2)
  refine ⟨m, _, h, (round_eq k s).trans hround, hm, by omega, fun n => ?_⟩
  rw [hlog]
  rcases Nat.lt_trichotomy k.log2 (n + 53) with hlt | heq | hgt
  · refine iff_of_false ?_ (not_le_of_log2_lt hk hlt)
    split at hhead
    · omega
    · omega
  · have hfull : k * 2 ^ (52 - k.log2) = k := by
      rw [show 52 - k.log2 = 0 by omega]
      exact Nat.mul_one k
    rw [hfull] at hhead ⊢
    rw [← roundedHead_eq_iff heq]
    split at hhead
    · rename_i h53
      exact iff_of_true (by omega) h53
    · rename_i h53
      exact iff_of_false (by omega) h53
  · have hlarge : 2 ^ (n + 54) ≤ k := (Nat.le_log2 hk.ne').mp hgt
    exact iff_of_true (by omega) ((Nat.sub_le _ _).trans hlarge)

end Round

theorem exists_normalize_eq {n : Int} (hn : n ≠ 0) : ∃ s : Sign, s.apply n.natAbs = n ∧
    UnpackedFloat.normalize .binary64 n 0 .positive =
      UnpackedFloat.round .binary64 s n.natAbs 0 := by
  unfold UnpackedFloat.normalize
  rcases Int.lt_trichotomy n 0 with hneg | hzero | hpos
  · have hamount : (-n).toNat = n.natAbs := by omega
    have hsign : -(n.natAbs : Int) = n := by omega
    rw [compare_lt_iff_lt.mpr hneg]
    exact ⟨.negative, hsign, by rw [hamount]⟩
  · exact absurd hzero hn
  · have hamount : n.toNat = n.natAbs := by omega
    have hsign : (n.natAbs : Int) = n := by omega
    rw [compare_gt_iff_gt.mpr hpos]
    exact ⟨.positive, hsign, by rw [hamount]⟩

theorem unpack_ofInt (n : Int) : (ofInt n).toModel.unpack = UnpackedFloat.unpack .binary64
    (UnpackedFloat.pack .binary64 (UnpackedFloat.normalize .binary64 n 0 .positive)) := rfl

/-- An integer is too large for a double if it is at least halfway from the greatest double to the
power of two after it. -/
theorem isInf_ofInt (n : Int) :
    (ofInt n).isInf = true ↔ 2 ^ 1024 - 2 ^ 970 ≤ n.natAbs := by
  change (ofInt n).toModel.unpack.isInf = true ↔ _
  rw [unpack_ofInt]
  by_cases hn : n = 0
  · subst hn
    exact iff_of_false (by decide) (by decide +kernel)
  · obtain ⟨s, -, hnormalize⟩ := exists_normalize_eq hn
    obtain ⟨m, e, h, hround, -, -, he⟩ := exists_round_eq (Int.natAbs_pos.mpr hn) s
    rw [hnormalize, hround, isInf_unpack_pack_finite, ← he]
    rfl

/-- An integer that has a double keeps its sign, and its 53 bits are put where they stood. -/
theorem exists_unpack_ofInt {n : Int} (hn : n ≠ 0) (hinf : (ofInt n).isInf = false) :
    ∃ s m e h, s.apply n.natAbs = n ∧ (ofInt n).toModel.unpack = .finite s m e h ∧
      2 ^ 52 ≤ m ∧ m < 2 ^ 53 ∧ (n.natAbs.log2 : Int) - 52 ≤ e := by
  obtain ⟨s, hsign, hnormalize⟩ := exists_normalize_eq hn
  obtain ⟨m, e, h, hround, ⟨hlo, hlt⟩, hlower, -⟩ := exists_round_eq (Int.natAbs_pos.mpr hn) s
  have hupper : ¬ 971 < e := by
    rw [← isInf_unpack_pack_finite s m e h, ← hround, ← hnormalize, ← unpack_ofInt]
    exact Bool.eq_false_iff.mp hinf
  have hfits : Fits m e := ⟨h, hlt, by omega, by omega, Or.inl hlo⟩
  refine ⟨s, m, e, h, hsign, ?_, hlo, hlt, hlower⟩
  rw [unpack_ofInt, hnormalize, hround, hfits.unpack_pack]

end Formula.Number

theorem Formula.Quantity.toFloat_int (n : Int) : (int n).toFloat =
    if 2 ^ 1024 - 2 ^ 970 ≤ n.natAbs then .error .tooLarge else .ok (Number.ofInt n) := by
  simp only [toFloat, Number.isInf_ofInt]
