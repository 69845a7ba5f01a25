import Formula.Proofs.Binary

/-!
# The sign of a double

Every double but a NaN has a sign, zeros and infinities among them, and keeps it when it is packed
(`sign?_unpack_pack`). A double is determined by its parts (`eq_of_unpack_eq`), so changing the sign
twice changes nothing. Doubles that compare as equal are the same, zeros apart
(`eq_or_zero_of_beq`). A numeral stands for a number without sign, and neither rounding nor an
overflow gives its double another one (`Numeral.hasSign_value`).
-/

namespace Formula

namespace Number

open Float.Model Float.Model.UnpackedFloat

instance instLawfulBEqSign : LawfulBEq Sign where
  eq_of_beq {s t} h := by
    cases s <;> cases t
    · rfl
    · cases h
    · cases h
    · rfl
  rfl {s} := by cases s <;> rfl

def sign? : UnpackedFloat → Option Sign
  | .notANumber => none
  | .infinity s | .zero s | .finite s _ _ _ => some s

/-- Whether a double is a number, possibly zero or infinite, of this sign. -/
def hasSign (s : Sign) (x : Float) : Bool := sign? x.toModel.unpack == some s

theorem hasSign_iff {s : Sign} {x : Float} :
    hasSign s x = true ↔ sign? x.toModel.unpack = some s := beq_iff_eq

theorem ofBitVec_toBitVec (s : Sign) : Sign.ofBitVec s.toBitVec = s := by cases s <;> rfl

theorem unpackSign_packComponents {spec : Format} (s : Sign) (e : BitVec spec.exponentBits)
    (m : BitVec spec.mantissaBitsWithoutImplicit) :
    unpackSign (packComponents spec s e m) = s.toBitVec := by
  apply BitVec.eq_of_getLsbD_eq
  intro i hi
  obtain rfl : i = 0 := by omega
  simp [unpackSign_eq, packComponents, BitVec.getLsbD_append, BitVec.getElem_append]

theorem unpack_packComponents (s : Sign) (e : BitVec 11) (m : BitVec 52) :
    UnpackedFloat.unpack .binary64 (packComponents .binary64 s e m) = ofFields s e m := by
  rw [unpack_eq_ofFields, unpackSign_packComponents, unpackExponent_packComponents,
    unpackMantissa_packComponents, ofBitVec_toBitVec]

theorem sign?_unpack_packComponents {s : Sign} {e : BitVec 11} {m : BitVec 52}
    (h : e = -1#11 → m = 0#52) :
    sign? (UnpackedFloat.unpack .binary64 (packComponents .binary64 s e m)) = some s := by
  rw [unpack_packComponents]
  rcases ofFields_cases s e m with
    ⟨-, -, hf⟩ | ⟨hones, hm, -⟩ | ⟨-, -, hf⟩ | ⟨-, -, _, hf⟩ | ⟨-, -, _, hf⟩
  · rw [hf]
    rfl
  · exact absurd (h hones) hm
  · rw [hf]
    rfl
  · rw [hf]
    rfl
  · rw [hf]
    rfl

theorem sign?_unpack_pack (u : UnpackedFloat) :
    sign? (UnpackedFloat.unpack .binary64 (UnpackedFloat.pack .binary64 u)) = sign? u := by
  cases u with
  | notANumber => rfl
  | infinity s => exact sign?_unpack_packComponents fun _ => rfl
  | zero s => exact sign?_unpack_packComponents fun _ => rfl
  | finite s m e h =>
    rw [pack_finite]
    generalize (e + 1023 + 52).toNat = b
    by_cases hlarge : 2 ^ 11 ≤ b + 1
    · rw [if_pos hlarge]
      exact sign?_unpack_packComponents fun _ => rfl
    · rw [if_neg hlarge]
      by_cases hbits : m.log2 + 1 = 53
      · rw [if_pos hbits]
        exact sign?_unpack_packComponents fun hones => absurd hones (ofNat_ne_ones hlarge)
      · rw [if_neg hbits]
        exact sign?_unpack_packComponents fun hones => absurd hones (by decide)

theorem sign?_roundWithAccuracy (s : Sign) (m : Nat) (e : Int) (a : Accuracy) :
    sign? (roundWithAccuracy .binary64 s m e a) = some s := by
  rcases roundWithAccuracy_cases rfl rfl s with hround | ⟨_, hround⟩
  · rw [hround]
    rfl
  · rw [hround]
    rfl

theorem sign?_ofScientific (d : Nat) (k : Int) :
    sign? (UnpackedFloat.ofScientific .binary64 d k) = some .positive := by
  unfold UnpackedFloat.ofScientific
  by_cases hd : d = 0
  · rw [dif_pos hd]
    rfl
  rw [dif_neg hd]
  by_cases hlarge : k > 2 ^ Format.binary64.exponentBits
  · rw [if_pos hlarge]
    rfl
  rw [if_neg hlarge]
  by_cases hsmall : k < -(2 ^ Format.binary64.exponentBits + (d.log2 : Int))
  · rw [if_pos hsmall]
    rfl
  rw [if_neg hsmall]
  by_cases hk : 0 ≤ k
  · rw [if_pos hk]
    exact sign?_roundWithAccuracy _ _ _ _
  · rw [if_neg hk]
    exact sign?_roundWithAccuracy _ _ _ _

section Parts

theorem pack_unpack {b : BitVec Format.binary64.numBits} (hb : Format.binary64.Valid b) :
    UnpackedFloat.pack .binary64 (UnpackedFloat.unpack .binary64 b) = b := by
  have hfields := packComponents_fields b
  have hu := unpack_eq_ofFields b
  rcases ofFields_cases (Sign.ofBitVec (unpackSign b)) (unpackExponent b) (unpackMantissa b) with
    ⟨he, hm, hf⟩ | ⟨he, hm, hf⟩ | ⟨he, hm, hf⟩ | ⟨-, -, _, hf⟩ | ⟨-, -, _, hf⟩
  · rw [he, hm] at hfields
    rw [hu, hf]
    exact hfields
  · rw [hu, hf]
    exact (hb.eq_packedNaN he hm).symm
  · rw [he, hm] at hfields
    rw [hu, hf]
    exact hfields
  · rw [hu, hf]
    exact pack_unpack_finite (hu.trans hf)
  · rw [hu, hf]
    exact pack_unpack_finite (hu.trans hf)

theorem ofModel_pack_unpack (x : Float) : Float.ofModel (.pack x.toModel.unpack) = x :=
  ofModel_pack_eq (pack_unpack x.toModel.valid)

theorem eq_of_unpack_eq {x y : Float} (h : x.toModel.unpack = y.toModel.unpack) : x = y := by
  rw [← ofModel_pack_unpack x, ← ofModel_pack_unpack y, h]

theorem unpack_packComponents_finite {b : BitVec Format.binary64.numBits} {s : Sign} {m : Nat}
    {e : Int} {h : 0 < m} (hu : UnpackedFloat.unpack .binary64 b = .finite s m e h) (t : Sign) :
    UnpackedFloat.unpack .binary64
      (packComponents .binary64 t (unpackExponent b) (unpackMantissa b)) = .finite t m e h := by
  rw [unpack_packComponents]
  obtain ⟨-, ⟨hzero, rfl, rfl⟩ | ⟨hzero, hones, rfl, rfl⟩⟩ := unpack_eq_finite hu
  · have hm : unpackMantissa b ≠ 0#52 := by
      intro hm
      rw [hm] at h
      exact absurd h (by decide)
    rw [hzero]
    exact ofFields_least t hm h
  · exact ofFields_normal t _ hzero hones h

/-- Nothing is lost when a mantissa and an exponent that fit are packed. -/
theorem Fits.unpack_pack {m : Nat} {e : Int} (h : Fits m e) (s : Sign) :
    UnpackedFloat.unpack .binary64 (UnpackedFloat.pack .binary64 (.finite s m e h.pos)) =
      .finite s m e h.pos := by
  obtain ⟨hpos, hlt, hlower, hupper, hnormal⟩ := h
  rw [pack_finite]
  generalize hb : (e + 1023 + 52).toNat = b
  have hsmall : ¬ 2 ^ 11 ≤ b + 1 := by omega
  rw [if_neg hsmall]
  by_cases hlo : 2 ^ 52 ≤ m
  · have hfield : (BitVec.ofNat 11 b).toNat = b := by
      rw [BitVec.toNat_ofNat, Nat.mod_eq_of_lt (by omega)]
    have hzero : BitVec.ofNat 11 b ≠ 0#11 := by
      intro hzero
      rw [hzero] at hfield
      change 0 = b at hfield
      omega
    have hmant : 2 ^ 52 + (BitVec.ofNat 52 m).toNat = m := by
      rw [BitVec.toNat_ofNat]
      omega
    have hexp : ((BitVec.ofNat 11 b).toNat : Int) - 1075 = e := by
      rw [hfield]
      omega
    rw [log2_of_normal hlo hlt, if_pos rfl, unpack_packComponents,
      ofFields_normal s _ hzero (ofNat_ne_ones hsmall) (by omega), finite.injEq]
    exact ⟨rfl, hmant, hexp⟩
  · obtain rfl : e = -1074 := by omega
    have hlog : m.log2 < 52 := (Nat.log2_lt hpos.ne').mpr (by omega)
    have hmant : (BitVec.ofNat 52 m).toNat = m := by
      rw [BitVec.toNat_ofNat, Nat.mod_eq_of_lt (by omega)]
    have hzero : BitVec.ofNat 52 m ≠ 0#52 := by
      intro hzero
      rw [hzero] at hmant
      change 0 = m at hmant
      omega
    rw [if_neg (by omega), unpack_packComponents, ofFields_least s hzero (by omega), finite.injEq]
    exact ⟨rfl, hmant, rfl⟩

theorem unpack_neg (x : Float) : (-x).toModel.unpack = x.toModel.unpack.neg := by
  change UnpackedFloat.unpack .binary64 (UnpackedFloat.pack .binary64 x.toModel.unpack.neg) = _
  cases hu : x.toModel.unpack with
  | notANumber => rfl
  | infinity s | zero s => cases s <;> rfl
  | finite s m e h =>
    have hother := unpack_packComponents_finite hu (-s)
    change UnpackedFloat.unpack .binary64 (UnpackedFloat.pack .binary64 (.finite (-s) m e h)) = _
    rw [pack_unpack_finite hother]
    exact hother

theorem neg_neg_eq (x : Float) : - -x = x := by
  apply eq_of_unpack_eq
  rw [unpack_neg, unpack_neg]
  cases x.toModel.unpack with
  | notANumber => rfl
  | infinity s | zero s | finite s m e h => cases s <;> rfl

/-- The double itself after a positive sign, and its negation after a negative one. -/
def withSign : Sign → Float → Float
  | .positive, x => x
  | .negative, x => -x

theorem exists_withSign {x : Float} {s : Sign} {m : Nat} {e : Int} {h : 0 < m}
    (hx : x.toModel.unpack = .finite s m e h) :
    ∃ y, y.toModel.unpack = .finite .positive m e h ∧ withSign s y = x := by
  cases s with
  | positive => exact ⟨x, hx, rfl⟩
  | negative =>
    refine ⟨-x, ?_, neg_neg_eq x⟩
    rw [unpack_neg, hx]
    rfl

theorem then_compare_eq {e k : Int} {m n : Nat}
    (h : (compare e k).then (compare m n) = .eq) : e = k ∧ m = n := by
  obtain ⟨hexp, hmant⟩ := Ordering.then_eq_eq.mp h
  exact ⟨Std.LawfulEqOrd.eq_of_compare hexp, Std.LawfulEqOrd.eq_of_compare hmant⟩

theorem eq_or_zero_of_compare {u v : UnpackedFloat} (h : u.compare v = some .eq) :
    u = v ∨ (∃ s, u = .zero s) ∧ ∃ s, v = .zero s := by
  cases u with
  | notANumber => cases h
  | infinity s =>
    cases v with
    | infinity t =>
      cases s <;> cases t
      · exact Or.inl rfl
      · cases h
      · cases h
      · exact Or.inl rfl
    | notANumber | zero t | finite t n k hn => cases s <;> cases h
  | zero s =>
    cases v with
    | zero t => exact Or.inr ⟨⟨s, rfl⟩, t, rfl⟩
    | notANumber => cases h
    | infinity t | finite t n k hn => cases t <;> cases h
  | finite s m e hm =>
    cases v with
    | finite t n k hn =>
      cases s <;> cases t
      · obtain ⟨rfl, rfl⟩ := then_compare_eq (Ordering.swap_eq_eq.mp (Option.some.inj h))
        exact Or.inl rfl
      · cases h
      · cases h
      · obtain ⟨rfl, rfl⟩ := then_compare_eq (Option.some.inj h)
        exact Or.inl rfl
    | notANumber => cases s <;> cases h
    | infinity t => cases t <;> cases s <;> cases h
    | zero t => cases s <;> cases h

theorem eq_or_zero_of_beq {x y : Float} (h : (x == y) = true) : x = y ∨
    (∃ s, x.toModel.unpack = .zero s) ∧ ∃ s, y.toModel.unpack = .zero s := by
  rcases eq_or_zero_of_compare (eq_of_beq h) with heq | hzero
  · exact Or.inl (eq_of_unpack_eq heq)
  · exact Or.inr hzero

theorem beq_zero_of_unpack {x : Float} {s : Sign} (h : x.toModel.unpack = .zero s) :
    (x == 0) = true := by
  change (x.toModel.unpack.compare (Float.toModel 0).unpack == some .eq) = true
  rw [h]
  rfl

theorem exists_zero_of_beq_zero {x : Float} (h : (x == 0) = true) :
    ∃ s, x.toModel.unpack = .zero s := by
  rcases eq_or_zero_of_beq h with rfl | ⟨hx, -⟩
  · exact ⟨.positive, rfl⟩
  · exact hx

theorem eq_of_zeros {x y : Float} (hx : (x == 0) = true) (hy : (y == 0) = true)
    (hsign : hasSign .negative x = hasSign .negative y) : x = y := by
  obtain ⟨s, hs⟩ := exists_zero_of_beq_zero hx
  obtain ⟨t, ht⟩ := exists_zero_of_beq_zero hy
  unfold hasSign at hsign
  rw [hs, ht] at hsign
  apply eq_of_unpack_eq
  rw [hs, ht]
  cases s <;> cases t
  · rfl
  · cases hsign
  · cases hsign
  · rfl

end Parts

end Number

theorem Numeral.hasSign_value (n : Numeral) : Number.hasSign .positive n.value = true :=
  Number.hasSign_iff.mpr ((Number.sign?_unpack_pack _).trans (Number.sign?_ofScientific _ _))

end Formula
