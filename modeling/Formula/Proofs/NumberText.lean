import Formula.Proofs.DecimalForm
import Formula.Proofs.Scanning
import Formula.Proofs.Scope
import Formula.Proofs.Sign

/-!
# The text of a double is a numeral for it

Every finite double is written as a numeral after its sign, and the numeral stands for the double
without that sign (`exists_numeral_of_isFinite`). So the text is read as the same double
(`read?_canonical`), and a double without sign is written as a numeral alone.
-/

namespace Formula

namespace Numeral

theorem exists_head_text {n : Numeral} (hn : n.Valid) :
    ∃ c cs, n.text = c :: cs ∧ (c.isDigit ∨ c = '.') := by
  obtain ⟨hds, hne, hpoint, -⟩ := hn
  unfold text
  cases hw : n.whole with
  | cons c cs => exact ⟨c, _, rfl, Or.inl (hds c (by simp [hw]))⟩
  | nil =>
    cases hp : n.point with
    | true => exact ⟨'.', _, rfl, Or.inr rfl⟩
    | false =>
      rw [hw, hpoint hp] at hne
      exact absurd rfl hne

def ofNat (k : Nat) : Numeral := ⟨Nat.toDigits 10 k, false, [], none⟩

theorem text_ofNat (k : Nat) : (ofNat k).text = Nat.toDigits 10 k := by
  simp [ofNat, text]

theorem isDigit_of_mem_ofNat {k : Nat} : ∀ c ∈ (ofNat k).text, c.isDigit := by
  rw [text_ofNat]
  exact fun c hc => Nat.isDigit_of_mem_toDigits (by decide) (by decide) hc

theorem valid_ofNat (k : Nat) : (ofNat k).Valid := by
  refine ⟨?_, ?_, fun _ => rfl, ?_⟩
  · intro c hc
    have hmem : c ∈ (ofNat k).text := by simpa [ofNat, text] using hc
    exact isDigit_of_mem_ofNat c hmem
  · exact List.append_ne_nil_of_left_ne_nil Nat.toDigits_ne_nil _
  · intro x hx
    cases hx

theorem mantissa_ofNat (k : Nat) : (ofNat k).mantissa = k := by
  simp [ofNat, mantissa]

theorem amount_ofNat (k : Nat) : (ofNat k).amount = k := by
  unfold amount
  rw [mantissa_ofNat]
  simp [ofNat, scale]

end Numeral

namespace Decimal

theorem amount_ofDyadic (m : Nat) (e : Int) : (ofDyadic m e).amount = m * 2 ^ e := by
  by_cases he : 0 ≤ e
  · obtain ⟨n, rfl⟩ := Int.eq_ofNat_of_zero_le he
    unfold ofDyadic amount
    simp
  · obtain ⟨n, hn⟩ := Int.eq_ofNat_of_zero_le (show 0 ≤ -e by omega)
    obtain rfl : e = -n := by omega
    have hten : (10 : ℚ) ^ n = 5 ^ n * 2 ^ n := by
      rw [← mul_pow]
      norm_num
    have hpow : (5 : ℚ) ^ n * 10 ^ (-n : Int) = 2 ^ (-n : Int) := by
      rw [zpow_neg, zpow_neg, zpow_natCast, zpow_natCast, hten, mul_inv,
        mul_inv_cancel_left₀ (by positivity)]
    have habs : (-n : Int).natAbs = n := by omega
    unfold ofDyadic amount
    rw [if_neg he, habs, Nat.pow_eq, Nat.cast_mul, Nat.cast_pow, mul_assoc]
    exact congrArg (_ * ·) hpow

theorem digits_ofDyadic_pos {m : Nat} (hm : 0 < m) (e : Int) : 0 < (ofDyadic m e).digits := by
  unfold ofDyadic
  split
  · exact Nat.mul_pos hm (Nat.pow_pos (by decide))
  · exact Nat.mul_pos hm (Nat.pow_pos (by decide))

theorem ten_pow_le_digits {d : Decimal} (hd : 0 < d.digits) : 10 ^ (d.length - 1) ≤ d.digits := by
  by_contra hlt
  rcases Nat.eq_zero_or_pos (d.length - 1) with hzero | hpos
  · rw [hzero] at hlt
    omega
  · have hlen := (Nat.length_toDigits_le_iff (by decide) hpos).mpr (Nat.lt_of_not_le hlt)
    unfold length at hlen hpos
    omega

theorem digits_pos_of_mem_neighbours {d d' : Decimal} {drop : Nat} (hdrop : 10 ^ drop ≤ d.digits)
    (h : d' ∈ d.neighbours drop) : 0 < d'.digits := by
  have hquotient : 0 < d.digits / 10 ^ drop := Nat.div_pos hdrop (Nat.pow_pos (by decide))
  have hmem : d' = ⟨d.digits / 10 ^ drop, d.exponent + drop⟩ ∨
      d' = ⟨d.digits / 10 ^ drop + 1, d.exponent + drop⟩ := by
    unfold neighbours at h
    dsimp only at h
    split at h
    · simpa using h
    · simpa [or_comm] using h
  rcases hmem with rfl | rfl
  · exact hquotient
  · exact Nat.succ_pos _

theorem exists_text_eq_shortest (accepts : List Char → Bool) {d : Decimal} {drop : Nat}
    (hd : 0 < d.digits) (hdrop : 10 ^ drop ≤ d.digits) : ∃ d' : Decimal, 0 < d'.digits ∧
      d'.text = d.shortest accepts drop ∧ (d' = d ∨ accepts d'.text = true) := by
  induction drop with
  | zero => exact ⟨d, hd, rfl, Or.inl rfl⟩
  | succ drop ih =>
    unfold shortest
    split
    · rename_i t ht
      obtain ⟨d', hd', rfl⟩ := List.mem_map.mp (List.mem_of_find?_eq_some ht)
      exact ⟨d', digits_pos_of_mem_neighbours hdrop hd', rfl, Or.inr (List.find?_some ht)⟩
    · apply ih
      exact Nat.le_trans (Nat.pow_le_pow_right (by decide) (Nat.le_succ drop)) hdrop

end Decimal

namespace Number

open Float.Model Float.Model.UnpackedFloat

theorem readMagnitude?_text {n : Numeral} (hn : n.Valid) :
    readMagnitude? n.text = some n.value ∧ splitSign n.text = (none, n.text) := by
  obtain ⟨c, cs, htext, hc⟩ := n.exists_head_text hn
  have hne : c ≠ '+' ∧ c ≠ '-' ∧ c ≠ 'i' ∧ c ≠ 'n' := by
    refine ⟨?_, ?_, ?_, ?_⟩ <;> (rintro rfl; revert hc; decide)
  constructor
  · unfold readMagnitude?
    rw [if_neg (by simp [htext, hne.2.2.1]), if_neg (by simp [htext, hne.2.2.2])]
    exact Numeral.read?_text hn
  · simp [htext, splitSign, hne.1, hne.2.1]

theorem read?_signText_append {n : Numeral} (hn : n.Valid) (s : Sign) :
    read? (signText s ++ n.text) = some (withSign s n.value) := by
  obtain ⟨hmagnitude, hsplit⟩ := readMagnitude?_text hn
  cases s with
  | positive =>
    change read? n.text = some n.value
    unfold read?
    rw [hsplit]
    exact hmagnitude
  | negative => exact congrArg (Option.map (- ·)) hmagnitude

theorem value_eq_of_unpack {x : Float} {m : Nat} {e : Int} {h : 0 < m} {n : Numeral}
    (hx : x.toModel.unpack = .finite .positive m e h) (hn : n.amount = m * 2 ^ e) : n.value = x :=
  ofScientific_of_unpack hx hn

theorem withSign_value_eq {x : Float} {s : Sign} {m : Nat} {e : Int} {h : 0 < m} {n : Numeral}
    (hx : x.toModel.unpack = .finite s m e h) (hn : n.amount = m * 2 ^ e) :
    withSign s n.value = x := by
  obtain ⟨y, hy, rfl⟩ := exists_withSign hx
  rw [value_eq_of_unpack hy hn]

theorem exists_numeral_magnitudeText {x : Float} {s : Sign} {m : Nat} {e : Int} {h : 0 < m}
    (hx : x.toModel.unpack = .finite s m e h) :
    ∃ n : Numeral, n.Valid ∧ (∀ c ∈ n.text.head?, c.isDigit) ∧
      n.text = magnitudeText x s m e ∧ withSign s n.value = x := by
  have hd := Decimal.digits_ofDyadic_pos h e
  obtain ⟨d, hpos, htext, hcases⟩ := Decimal.exists_text_eq_shortest
    (fun t => read? (signText s ++ t) = some x) hd (Decimal.ten_pow_le_digits hd)
  obtain ⟨n, hn, hntext, hamount⟩ := Decimal.spells_text hpos
  refine ⟨n, hn, ?_, hntext.trans htext, ?_⟩
  · rw [hntext]
    exact Decimal.isDigit_head?_text hpos
  · rcases hcases with rfl | haccepts
    · apply withSign_value_eq hx
      rw [hamount, Decimal.amount_ofDyadic]
    · have hread : read? (signText s ++ n.text) = some x := by
        rw [hntext]
        exact of_decide_eq_true haccepts
      rw [read?_signText_append hn] at hread
      exact Option.some.inj hread

theorem wholePart?_eq {m n : Nat} {e : Int} (h : wholePart? m e = some n) :
    (n : ℚ) = m * 2 ^ e := by
  unfold wholePart? at h
  dsimp only at h
  split at h
  · rename_i he
    obtain ⟨k, rfl⟩ := Int.eq_ofNat_of_zero_le he
    cases h
    simp
  · rename_i he
    split at h
    · rename_i hmod
      obtain ⟨k, hk⟩ := Int.eq_ofNat_of_zero_le (show 0 ≤ -e by omega)
      obtain rfl : e = -k := by omega
      have habs : (-k : Int).natAbs = k := by omega
      rw [habs, Nat.pow_eq] at h hmod
      cases h
      obtain ⟨q, rfl⟩ := Nat.dvd_of_mod_eq_zero hmod
      rw [Nat.mul_div_cancel_left q (Nat.two_pow_pos k), Nat.mul_comm, Nat.cast_mul, Nat.cast_pow,
        zpow_neg, zpow_natCast, mul_assoc]
      have htwo : ((2 : Nat) : ℚ) ^ k * (2 ^ k)⁻¹ = 1 := mul_inv_cancel₀ (by positivity)
      rw [htwo, mul_one]
    · cases h

theorem withSign_value_eq_of_zero {x : Float} {s : Sign} {n : Numeral}
    (hx : x.toModel.unpack = .zero s) (hn : n.mantissa = 0) : withSign s n.value = x := by
  have hvalue : n.value.toModel.unpack = .zero .positive := by
    unfold Numeral.value
    rw [hn]
    exact unpack_ofScientific_zero n.scale
  apply eq_of_unpack_eq
  rw [hx]
  cases s with
  | positive => exact hvalue
  | negative =>
    change (-n.value).toModel.unpack = _
    rw [unpack_neg, hvalue]
    rfl

theorem exists_numeral_zero {x : Float} {s : Sign} (hx : x.toModel.unpack = .zero s) :
    ∃ n : Numeral, n.Valid ∧ (∀ c ∈ n.text.head?, c.isDigit) ∧ canonical x = signText s ++ n.text ∧
      withSign s n.value = x := by
  cases s with
  | positive =>
    refine ⟨.ofNat 0, Numeral.valid_ofNat 0, ?_, ?_, ?_⟩
    · exact fun c hc => Numeral.isDigit_of_mem_ofNat c (List.mem_of_mem_head? hc)
    · unfold canonical
      rw [hx]
      rfl
    · exact withSign_value_eq_of_zero hx (Numeral.mantissa_ofNat 0)
  | negative =>
    let n : Numeral := ⟨['0'], true, ['0'], none⟩
    have hn : n.Valid := ⟨isDigit_zeros 2, by simp [n], by simp [n], by simp [n]⟩
    refine ⟨n, hn, by simp [n, Numeral.text], ?_, withSign_value_eq_of_zero hx rfl⟩
    unfold canonical text
    rw [hx]
    rfl

/-- A finite double is written as a numeral after its sign. -/
theorem exists_numeral_of_isFinite {x : Float} (hx : x.isFinite = true) :
    ∃ s, ∃ n : Numeral, n.Valid ∧ (∀ c ∈ n.text.head?, c.isDigit) ∧
      sign? x.toModel.unpack = some s ∧ canonical x = signText s ++ n.text ∧
      withSign s n.value = x := by
  cases hu : x.toModel.unpack with
  | notANumber | infinity s =>
    change x.toModel.unpack.isFinite = true at hx
    rw [hu] at hx
    cases hx
  | zero s =>
    obtain ⟨n, hn, hhead, htext, hvalue⟩ := exists_numeral_zero hu
    exact ⟨s, n, hn, hhead, rfl, htext, hvalue⟩
  | finite s m e h =>
    obtain ⟨n, hn, hhead, hmagnitude, hvalue⟩ := exists_numeral_magnitudeText hu
    have htext : text x = signText s ++ n.text := by
      unfold text
      rw [hu, hmagnitude]
    unfold canonical
    rw [hu, htext]
    dsimp only
    cases hk : wholePart? m e with
    | none => exact ⟨s, n, hn, hhead, rfl, rfl, hvalue⟩
    | some k =>
      dsimp only
      by_cases hbound : k < integerBound
      · rw [if_pos hbound]
        refine ⟨s, .ofNat k, Numeral.valid_ofNat k, ?_, rfl, by rw [Numeral.text_ofNat], ?_⟩
        · exact fun c hc => Numeral.isDigit_of_mem_ofNat c (List.mem_of_mem_head? hc)
        · apply withSign_value_eq hu
          rw [Numeral.amount_ofNat, wholePart?_eq hk]
      · rw [if_neg hbound]
        exact ⟨s, n, hn, hhead, rfl, rfl, hvalue⟩

/-- The text of a finite double is read as the same double, its sign included. -/
theorem read?_canonical {x : Float} (hx : x.isFinite = true) : read? (canonical x) = some x := by
  obtain ⟨s, n, hn, -, -, htext, hvalue⟩ := exists_numeral_of_isFinite hx
  rw [htext, read?_signText_append hn, hvalue]

theorem isOperandChar_of_mem_canonical {x : Float} (hx : x.isFinite = true) :
    ∀ c ∈ canonical x, isOperandChar c = true := by
  obtain ⟨s, n, hn, -, -, htext, -⟩ := exists_numeral_of_isFinite hx
  rw [htext, List.forall_mem_append]
  refine ⟨?_, hn.isOperandChar_of_mem_text⟩
  cases s with
  | positive => simp [signText]
  | negative => simp [signText, isOperandChar]

theorem beq_self_of_isFinite {x : Float} (hx : x.isFinite = true) : (x == x) = true := by
  have hcompare : x.toModel.unpack.compare x.toModel.unpack = some .eq := by
    change x.toModel.unpack.isFinite = true at hx
    cases hu : x.toModel.unpack with
    | notANumber | infinity s =>
      rw [hu] at hx
      cases hx
    | zero s => rfl
    | finite s m e h =>
      have hself : (compare e e).then (compare m m) = .eq :=
        Ordering.then_eq_eq.mpr ⟨Std.ReflCmp.compare_self, Std.ReflCmp.compare_self⟩
      cases s with
      | positive => exact congrArg some hself
      | negative => exact congrArg some (Ordering.swap_eq_eq.mpr hself)
  change (x.toModel.unpack.compare x.toModel.unpack == some .eq) = true
  rw [hcompare]
  rfl

theorem exists_of_isInf {x : Float} (h : x.isInf = true) :
    ∃ s, x.toModel.unpack = .infinity s := by
  change x.toModel.unpack.isInf = true at h
  cases hu : x.toModel.unpack with
  | infinity s => exact ⟨s, rfl⟩
  | notANumber | zero s | finite s m e hm =>
    rw [hu] at h
    cases h

theorem canonical_of_isInf {x : Float} (hx : hasSign .positive x = true) (hinf : x.isInf = true) :
    canonical x = ['i', 'n', 'f'] := by
  obtain ⟨s, hu⟩ := exists_of_isInf hinf
  rw [hasSign_iff, hu] at hx
  cases hx
  unfold canonical text
  rw [hu]
  rfl

section Unsigned

/-- Whether a double is finite and its sign is positive. -/
def isUnsigned (x : Float) : Bool :=
  match x.toModel.unpack with
  | .zero .positive => true
  | .finite .positive _ _ _ => true
  | _ => false

variable {x : Float}

theorem isUnsigned_iff :
    isUnsigned x = true ↔ hasSign .positive x = true ∧ x.isInf = false := by
  have hinf : x.isInf = x.toModel.unpack.isInf := rfl
  rw [hasSign_iff, hinf]
  unfold isUnsigned
  cases x.toModel.unpack with
  | notANumber => exact iff_of_false Bool.false_ne_true fun h => nomatch h.1
  | infinity s => exact iff_of_false Bool.false_ne_true fun h => nomatch h.2
  | zero s | finite s m e hm =>
    cases s with
    | positive => exact iff_of_true rfl ⟨rfl, rfl⟩
    | negative => exact iff_of_false Bool.false_ne_true fun h => nomatch h.1

theorem isFinite_of_isUnsigned (hx : isUnsigned x = true) : x.isFinite = true := by
  change x.toModel.unpack.isFinite = true
  unfold isUnsigned at hx
  cases hu : x.toModel.unpack with
  | notANumber | infinity s =>
    rw [hu] at hx
    cases hx
  | zero s | finite s m e h => rfl

theorem beq_self_of_isUnsigned (hx : isUnsigned x = true) : (x == x) = true :=
  beq_self_of_isFinite (isFinite_of_isUnsigned hx)

/-- A double without sign is written as a numeral that is read as the same double. -/
theorem exists_numeral_canonical (hx : isUnsigned x = true) :
    ∃ n : Numeral, n.Valid ∧ n.text = canonical x ∧ n.value = x := by
  obtain ⟨s, n, hn, -, hsign, htext, hvalue⟩ :=
    exists_numeral_of_isFinite (isFinite_of_isUnsigned hx)
  have hpositive := hasSign_iff.mp (isUnsigned_iff.mp hx).1
  rw [hsign] at hpositive
  obtain rfl := Option.some.inj hpositive
  exact ⟨n, hn, htext.symm, hvalue⟩

end Unsigned

end Number

end Formula
