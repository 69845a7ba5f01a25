import Formula.Number.Quantity
import Formula.Proofs.NumberText

/-!
# Which doubles are written as integers

The text of a double inside a formula loses nothing: it is read as the same double, so two doubles
that are numbers never share a text. It is the text of an integer if and only if the double is an
integer below the bound, negative zero apart (`Number.IsPlain`), and any other text shows a point,
an exponent, or that the double is infinite or no number.
-/

namespace Formula

theorem Decimal.mem_text (d : Decimal) : '.' ∈ d.text ∨ 'e' ∈ d.text := by
  unfold text
  by_cases hlead : -4 ≤ d.leading ∧ d.leading < 16
  · rw [if_pos hlead]
    left
    unfold positional
    by_cases hneg : d.leading < 0
    · simp [hneg]
    · rw [if_neg hneg]
      dsimp only
      split
      · simp
      · simp
  · rw [if_neg hlead]
    right
    simp [scientific]

namespace Number

open Float.Model Float.Model.UnpackedFloat

def rational? (x : Float) : Option ℚ :=
  match x.toModel.unpack with
  | .notANumber | .infinity _ => none
  | .zero _ => some 0
  | .finite s m e _ => some (s.apply m * 2 ^ e)

/-- A double that is an integer below the bound, and not the negative zero. -/
structure IsPlain (x : Float) (n : Int) : Prop where
  rational : rational? x = some (n : ℚ)
  lt : n.natAbs < 2 ^ 53
  ne : x ≠ -0.0

/-- A text that shows a point or an exponent, or that a double is infinite or no number. -/
def ShowsDouble (cs : List Char) : Prop :=
  '.' ∈ cs ∨ 'e' ∈ cs ∨ ['i', 'n', 'f'] <:+: cs ∨ ['n', 'a', 'n'] <:+: cs

section Read

variable {x : Float}

theorem read?_canonical_of_infinity {s : Sign} (hx : x.toModel.unpack = .infinity s) :
    read? (canonical x) = some x := by
  have htext : canonical x = signText s ++ ['i', 'n', 'f'] := by
    unfold canonical text
    rw [hx]
  rw [htext]
  cases s with
  | positive =>
    have hvalue : Float.ofModel (.pack (.infinity .positive)) = x := by
      apply eq_of_unpack_eq
      rw [hx]
      rfl
    exact congrArg some hvalue
  | negative =>
    have hvalue : -Float.ofModel (.pack (.infinity .positive)) = x := by
      apply eq_of_unpack_eq
      rw [unpack_neg, hx]
      rfl
    exact congrArg some hvalue

theorem read?_canonical_of_isNaN (hx : x.isNaN = false) : read? (canonical x) = some x := by
  change x.toModel.unpack.isNaN = false at hx
  cases hu : x.toModel.unpack with
  | notANumber =>
    rw [hu] at hx
    cases hx
  | infinity s => exact read?_canonical_of_infinity hu
  | zero s | finite s m e h =>
    apply read?_canonical
    change x.toModel.unpack.isFinite = true
    rw [hu]
    rfl

end Read

section Plain

variable {x : Float} {s : Sign} {m k : Nat} {e n : Int} {h : 0 < m}

theorem ne_neg_zero_iff : x ≠ -0.0 ↔ x.toModel.unpack ≠ .zero .negative := by
  have hzero : (-0.0 : Float).toModel.unpack = .zero .negative := rfl
  constructor
  · intro hne hx
    exact hne (eq_of_unpack_eq (hx.trans hzero.symm))
  · rintro hne rfl
    exact hne hzero

theorem isPlain_of_zero (hx : x.toModel.unpack = .zero .positive) : IsPlain x 0 := by
  refine ⟨?_, by decide, ?_⟩
  · unfold rational?
    rw [hx, Int.cast_zero]
  · rw [ne_neg_zero_iff, hx]
    simp

theorem isPlain_of_finite (hx : x.toModel.unpack = .finite s m e h) (hk : (k : ℚ) = m * 2 ^ e)
    (hlt : k < 2 ^ 53) : IsPlain x (s.apply k) := by
  refine ⟨?_, ?_, ?_⟩
  · unfold rational?
    rw [hx]
    cases s <;> simp [Sign.apply, hk]
  · cases s <;> simpa [Sign.apply] using hlt
  · rw [ne_neg_zero_iff, hx]
    exact nofun

theorem IsPlain.of_finite (hplain : IsPlain x n) (hx : x.toModel.unpack = .finite s m e h) :
    (n.natAbs : ℚ) = m * 2 ^ e ∧ signText s = if n < 0 then ['-'] else [] := by
  have hpos : (0 : ℚ) < m * 2 ^ e := by positivity
  have hn := hplain.rational
  unfold rational? at hn
  rw [hx, Option.some.injEq] at hn
  rw [Nat.cast_natAbs, Int.cast_abs]
  cases s with
  | positive =>
    have hvalue : (n : ℚ) = m * 2 ^ e := by simp [← hn, Sign.apply]
    rw [← hvalue] at hpos ⊢
    have hsign : ¬ n < 0 := not_lt.mpr (Int.cast_pos.mp hpos).le
    rw [abs_of_pos hpos, if_neg hsign]
    exact ⟨rfl, rfl⟩
  | negative =>
    have hvalue : -(n : ℚ) = m * 2 ^ e := by simp [← hn, Sign.apply]
    rw [← hvalue] at hpos ⊢
    have hneg : (n : ℚ) < 0 := neg_pos.mp hpos
    rw [abs_of_neg hneg, if_pos (Int.cast_lt_zero.mp hneg)]
    exact ⟨rfl, rfl⟩

end Plain

section Form

variable {x : Float} {m : Nat} {e n : Int}

theorem wholePart?_eq_some_iff {k : Nat} : wholePart? m e = some k ↔ (k : ℚ) = m * 2 ^ e := by
  refine ⟨wholePart?_eq, fun hk => ?_⟩
  have hone : (k : ℚ) = m * 2 ^ e * (1 : Nat) := by
    rw [Nat.cast_one, mul_one]
    exact hk
  unfold wholePart?
  by_cases he : 0 ≤ e
  · obtain ⟨j, rfl⟩ := Int.eq_ofNat_of_zero_le he
    have hnat : k * 2 ^ 0 = m * 2 ^ j * 1 := mul_two_pow_eq hone (by omega)
    rw [if_pos he, Int.natAbs_natCast]
    exact congrArg some (by simpa using hnat.symm)
  · obtain ⟨j, hj⟩ := Int.eq_ofNat_of_zero_le (show 0 ≤ -e by omega)
    have hnat : k * 2 ^ j = m * 2 ^ 0 * 1 := mul_two_pow_eq hone (by omega)
    have hunit : Nat.pow 2 e.natAbs = 2 ^ j := by
      rw [show e.natAbs = j by omega, Nat.pow_eq]
    rw [pow_zero, mul_one, mul_one] at hnat
    rw [if_neg he, hunit, ← hnat, if_pos (Nat.mul_mod_left k _),
      Nat.mul_div_cancel k (Nat.two_pow_pos j)]

/-- An integer below the bound is written by its digits, after a minus if it is negative. -/
theorem IsPlain.canonical_eq (hx : IsPlain x n) : canonical x = Quantity.intText n := by
  unfold canonical
  cases hu : x.toModel.unpack with
  | notANumber | infinity s =>
    have hvalue := hx.rational
    unfold rational? at hvalue
    rw [hu] at hvalue
    cases hvalue
  | zero s =>
    have hvalue := hx.rational
    unfold rational? at hvalue
    rw [hu] at hvalue
    obtain rfl : n = 0 := Int.cast_eq_zero.mp (Option.some.inj hvalue).symm
    cases s with
    | positive => rfl
    | negative => exact absurd hu (ne_neg_zero_iff.mp hx.ne)
  | finite s m e h =>
    obtain ⟨hnat, hsign⟩ := hx.of_finite hu
    have hbound : n.natAbs < integerBound := hx.lt
    dsimp only
    rw [wholePart?_eq_some_iff.mpr hnat]
    dsimp only
    rw [if_pos hbound, hsign]
    rfl

/-- Any other double has the same text inside a formula and outside. -/
theorem canonical_eq_text (hx : ∀ n, ¬ IsPlain x n) : canonical x = text x := by
  unfold canonical
  cases hu : x.toModel.unpack with
  | notANumber | infinity s => rfl
  | zero s =>
    cases s with
    | positive => exact absurd (isPlain_of_zero hu) (hx 0)
    | negative => rfl
  | finite s m e h =>
    dsimp only
    split
    · rename_i k hk
      by_cases hlt : k < integerBound
      · exact absurd (isPlain_of_finite hu (wholePart?_eq hk) hlt) (hx _)
      · exact if_neg hlt
    · rfl

theorem showsDouble_text (x : Float) : ShowsDouble (text x) := by
  unfold text
  cases hu : x.toModel.unpack with
  | notANumber => exact Or.inr (Or.inr (Or.inr List.infix_rfl))
  | infinity s => exact Or.inr (Or.inr (Or.inl (List.suffix_append _ _).isInfix))
  | zero s => exact Or.inl (List.mem_append_right _ (by simp))
  | finite s m e h =>
    have hd := Decimal.digits_ofDyadic_pos h e
    obtain ⟨d, -, htext, -⟩ := Decimal.exists_text_eq_shortest
      (fun t => read? (signText s ++ t) = some x) hd (Decimal.ten_pow_le_digits hd)
    have hmagnitude : magnitudeText x s m e = d.text := htext.symm
    dsimp only
    rw [hmagnitude]
    rcases d.mem_text with hpoint | hmark
    · exact Or.inl (List.mem_append_right _ hpoint)
    · exact Or.inr (Or.inl (List.mem_append_right _ hmark))

/-- The text of a double inside a formula is read as the same double, and shows whether the double
is an integer below the bound. -/
theorem canonical_faithful (x : Float) :
    (x.isNaN = false → read? (canonical x) = some x ∧
      ∀ y : Float, y.isNaN = false → canonical y = canonical x → y = x) ∧
    (∀ n, IsPlain x n → canonical x = Quantity.intText n) ∧
    ((¬ ∃ n, IsPlain x n) → ShowsDouble (canonical x)) := by
  refine ⟨fun hx => ⟨read?_canonical_of_isNaN hx, ?_⟩, fun n hn => ?_, fun hx => ?_⟩
  · intro y hy htext
    have hread := read?_canonical_of_isNaN hy
    rw [htext, read?_canonical_of_isNaN hx] at hread
    exact (Option.some.inj hread).symm
  · exact hn.canonical_eq
  · rw [canonical_eq_text fun n hn => hx ⟨n, hn⟩]
    exact showsDouble_text x

theorem canonical_faithful_least :
    IsPlain (-9007199254740991) (-9007199254740991) ∧
    canonical (-9007199254740991) = Quantity.intText (-9007199254740991) ∧
    (-0.0 : Float).isNaN = false ∧ read? (canonical (-0.0)) = some (-0.0) ∧
    (0 : Float).isNaN = false ∧ canonical 0 ≠ canonical (-0.0) ∧
    (¬ ∃ n, IsPlain (-0.0) n) ∧ ShowsDouble (canonical (-0.0)) := by
  have hunpack : (-9007199254740991 : Float).toModel.unpack =
      .finite .negative 9007199254740991 0 (by decide) := rfl
  have hplain : IsPlain (-9007199254740991) (-9007199254740991) :=
    isPlain_of_finite hunpack (by simp) (by decide)
  have hnot : ¬ ∃ n, IsPlain (-0.0) n := fun ⟨_, hn⟩ => hn.ne rfl
  obtain ⟨-, hform, -⟩ := canonical_faithful (-9007199254740991)
  obtain ⟨hread, -, hshows⟩ := canonical_faithful (-0.0)
  have hne : (0 : Float) ≠ -0.0 := ne_neg_zero_iff.mpr (by simp [show (0 : Float).toModel.unpack =
    .zero .positive from rfl])
  obtain ⟨hvalue, hinj⟩ := hread rfl
  exact ⟨hplain, hform _ hplain, rfl, hvalue, rfl, fun htext => hne (hinj 0 rfl htext), hnot,
    hshows hnot⟩

end Form

end Number

end Formula
