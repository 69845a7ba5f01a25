import Formula.Proofs.PostorderText

/-!
# A rendering is read in one way only

The text of a tree with negative numbers is no text that the parser accepts, yet it belongs to no
other tree. What is between two parentheses is cut at the spaces in one way: a number or a name has
no space in it, and the text of an operator node ends with the parenthesis that closes it. So of two
trees that a text begins with neither is longer (`Expr.text_append_inj`). Trees that compare as
equal may still differ in the signs of their zeros, which the text shows (`Expr.eq_iff_same`).
-/

namespace Formula

open Text Number

def Stops (cs : List Char) : Prop := ∀ c ∈ cs.head?, isOperandChar c = false

theorem stops_nil : Stops [] := by simp [Stops]

theorem stops_cons {c : Char} (hc : isOperandChar c = false) (cs : List Char) :
    Stops (c :: cs) := by
  simpa [Stops] using hc

theorem operand_append_inj {cs cs' rest rest' : List Char}
    (hcs : ∀ c ∈ cs, isOperandChar c = true) (hcs' : ∀ c ∈ cs', isOperandChar c = true)
    (hrest : Stops rest) (hrest' : Stops rest') (h : cs ++ rest = cs' ++ rest') :
    cs = cs' ∧ rest = rest' := by
  have htake := congrArg (List.takeWhile isOperandChar) h
  rw [takeWhile_append_eq hcs hrest, takeWhile_append_eq hcs' hrest'] at htake
  subst htake
  exact ⟨rfl, List.append_cancel_left h⟩

namespace Expr

variable {e e' : Expr}

def isLeaf : Expr → Bool
  | num _ | var _ => true
  | bin _ _ _ | hole => false

theorem isOperandChar_of_mem_text (he : e.isFormula Float.isFinite = true)
    (hleaf : e.isLeaf = true) : ∀ c ∈ e.text.toList, isOperandChar c = true := by
  cases e with
  | num x =>
    rw [text, String.toList_ofList]
    exact isOperandChar_of_mem_canonical he
  | var n => exact isOperandChar_of_isName he
  | bin l s r | hole => cases hleaf

theorem takePiece?_leaf (he : e.isFormula Float.isFinite = true) (hleaf : e.isLeaf = true)
    (es : List Expr) : takePiece? es e.text.toList = some (e :: es) := by
  cases e with
  | num x =>
    rw [text, String.toList_ofList]
    exact takePiece?_canonical he es
  | var n =>
    have hpiece := takePiece?_of_isName es he
    rwa [String.ofList_toList] at hpiece
  | bin l s r | hole => cases hleaf

theorem leaf_append_inj {rest rest' : List Char} (he : e.isFormula Float.isFinite = true)
    (he' : e'.isFormula Float.isFinite = true) (hleaf : e.isLeaf = true) (hleaf' : e'.isLeaf = true)
    (hrest : Stops rest) (hrest' : Stops rest')
    (h : e.text.toList ++ rest = e'.text.toList ++ rest') : e = e' ∧ rest = rest' := by
  obtain ⟨htext, hrests⟩ := operand_append_inj (isOperandChar_of_mem_text he hleaf)
    (isOperandChar_of_mem_text he' hleaf') hrest hrest' h
  have hpiece := takePiece?_leaf he hleaf []
  rw [htext, takePiece?_leaf he' hleaf'] at hpiece
  cases hpiece
  exact ⟨rfl, hrests⟩

theorem leaf_append_ne {rest rest' : List Char} {l r : Expr} {s : String}
    (he : e.isFormula Float.isFinite = true) (hleaf : e.isLeaf = true) (hrest : Stops rest) :
    e.text.toList ++ rest ≠ (bin l s r).text.toList ++ rest' := by
  intro h
  have htake := congrArg (List.takeWhile isOperandChar) h
  rw [takeWhile_append_eq (isOperandChar_of_mem_text he hleaf) hrest, toList_text_bin] at htake
  have hnil : e.text.toList = [] := htake
  have hpiece := takePiece?_leaf he hleaf []
  rw [hnil] at hpiece
  cases hpiece
  cases he

/-- Of two trees that a text begins with neither is longer. -/
theorem text_append_inj {rest rest' : List Char} (he : e.isFormula Float.isFinite = true)
    (he' : e'.isFormula Float.isFinite = true) (hrest : Stops rest) (hrest' : Stops rest')
    (h : e.text.toList ++ rest = e'.text.toList ++ rest') : e = e' ∧ rest = rest' := by
  induction e generalizing e' rest rest' with
  | num x | var n =>
    cases e' with
    | num y | var m => exact leaf_append_inj he he' rfl rfl hrest hrest' h
    | bin l s r => exact absurd h (leaf_append_ne he rfl hrest)
    | hole => cases he'
  | hole => cases he
  | bin l s r ihl ihr =>
    cases e' with
    | num y | var m => exact absurd h.symm (leaf_append_ne he' rfl hrest')
    | hole => cases he'
    | bin l' s' r' =>
      obtain ⟨hl, ⟨o, rfl⟩, hr⟩ := isFormula_bin he
      obtain ⟨hl', ⟨o', rfl⟩, hr'⟩ := isFormula_bin he'
      have hspace (cs : List Char) : Stops (' ' :: cs) := stops_cons (by decide) cs
      have hclose (cs : List Char) : Stops (')' :: cs) := stops_cons (by decide) cs
      simp only [toList_text_bin, o.toList_text, o'.toList_text, List.cons_append,
        List.append_assoc, List.nil_append, List.cons.injEq, true_and] at h
      obtain ⟨rfl, hsymbols⟩ := ihl hl hl' (hspace _) (hspace _) h
      simp only [List.cons.injEq, true_and] at hsymbols
      obtain ⟨hsymbol, hright⟩ := hsymbols
      obtain ⟨rfl, hends⟩ := ihr hr hr' (hclose _) (hclose _) hright
      have ho := congrArg Operator.ofSymbol? hsymbol
      rw [Operator.ofSymbol?_symbol, Operator.ofSymbol?_symbol] at ho
      obtain rfl := Option.some.inj ho
      exact ⟨rfl, (List.cons.inj hends).2⟩

theorem text_injective (he : e.isFormula Float.isFinite = true)
    (he' : e'.isFormula Float.isFinite = true) (h : e.text = e'.text) : e = e' :=
  (text_append_inj he he' stops_nil stops_nil (congrArg (·.toList ++ []) h)).1

/-- Corresponding leaves that are zeros have the same sign. -/
def ZerosAgree (e e' : Expr) : Prop :=
  ∀ (i : Nat) (x y : Float), e.leaves[i]? = some (.number x) → e'.leaves[i]? = some (.number y) →
    (x == 0) = true → (y == 0) = true → hasSign .negative x = hasSign .negative y

theorem zerosAgree_self (e : Expr) : e.ZerosAgree e := by
  intro i x y hx hy _ _
  rw [hx] at hy
  cases hy
  rfl

theorem length_leaves_of_same (h : e.same e' = true) : e.leaves.length = e'.leaves.length := by
  induction e generalizing e' with
  | num x =>
    cases e' with
    | num y => rfl
    | var m | bin l s r | hole => cases h
  | var n =>
    cases e' with
    | var m => rfl
    | num y | bin l s r | hole => cases h
  | hole =>
    cases e' with
    | hole => rfl
    | num y | var m | bin l s r => cases h
  | bin l s r ihl ihr =>
    cases e' with
    | num y | var m | hole => cases h
    | bin l' s' r' =>
      simp only [same, Bool.and_eq_true] at h
      rw [leaves, leaves, List.length_append, List.length_append, ihl h.1.1, ihr h.2]

theorem zerosAgree_bin {l r l' r' : Expr} {s s' : String} (hl : l.same l' = true)
    (h : (bin l s r).ZerosAgree (bin l' s' r')) : l.ZerosAgree l' ∧ r.ZerosAgree r' := by
  have hlength := length_leaves_of_same hl
  constructor
  · intro i x y hx hy
    obtain ⟨hi, -⟩ := List.getElem?_eq_some_iff.mp hx
    apply h i x y
    · rwa [leaves, List.getElem?_append_left hi]
    · rwa [leaves, List.getElem?_append_left (hlength ▸ hi)]
  · intro i x y hx hy
    apply h (l.leaves.length + i) x y
    · rwa [leaves, List.getElem?_append_right (Nat.le_add_right _ _), Nat.add_sub_cancel_left]
    · rwa [hlength, leaves, List.getElem?_append_right (Nat.le_add_right _ _),
        Nat.add_sub_cancel_left]

theorem eq_of_same (hsame : e.same e' = true) (hzeros : e.ZerosAgree e') : e = e' := by
  induction e generalizing e' with
  | num x =>
    cases e' with
    | num y =>
      rcases eq_or_zero_of_beq hsame with rfl | ⟨⟨s, hx⟩, t, hy⟩
      · rfl
      · have hx := beq_zero_of_unpack hx
        have hy := beq_zero_of_unpack hy
        exact congrArg num (eq_of_zeros hx hy (hzeros 0 x y rfl rfl hx hy))
    | var m | bin l s r | hole => cases hsame
  | var n =>
    cases e' with
    | var m => exact congrArg var (eq_of_beq hsame)
    | num y | bin l s r | hole => cases hsame
  | hole =>
    cases e' with
    | hole => rfl
    | num y | var m | bin l s r => cases hsame
  | bin l s r ihl ihr =>
    cases e' with
    | num y | var m | hole => cases hsame
    | bin l' s' r' =>
      simp only [same, Bool.and_eq_true, beq_iff_eq] at hsame
      obtain ⟨hzerosl, hzerosr⟩ := zerosAgree_bin hsame.1.1 hzeros
      rw [ihl hsame.1.1 hzerosl, ihr hsame.2 hzerosr, hsame.1.2]

/-- Trees with finite numbers are the same if they compare as equal and so do the signs of their
zeros. -/
theorem eq_iff_same (he : e.isFormula Float.isFinite = true) :
    e = e' ↔ (e == e') = true ∧ e.ZerosAgree e' := by
  constructor
  · rintro rfl
    exact ⟨same_self_of_isFormula (fun _ => beq_self_of_isFinite) he, zerosAgree_self e⟩
  · rintro ⟨hsame, hzeros⟩
    exact eq_of_same hsame hzeros

theorem zerosAgree_of_ne (h : ∀ x, .number x ∈ e.leaves ++ e'.leaves → x ≠ -0.0) :
    e.ZerosAgree e' := by
  have hpositive {x : Float} (hx : .number x ∈ e.leaves ++ e'.leaves) (hzero : (x == 0) = true) :
      hasSign .negative x = false := by
    refine eq_false_of_ne_true fun hsign => h x hx (eq_of_zeros hzero rfl ?_)
    rw [hsign]
    rfl
  intro i x y hx hy hx0 hy0
  rw [hpositive (List.mem_append_left _ (List.mem_of_getElem? hx)) hx0,
    hpositive (List.mem_append_right _ (List.mem_of_getElem? hy)) hy0]

end Expr

/-- Trees are rendered as the same text if and only if they are equal, the signs of their zeros
included. -/
theorem render_eq_iff {e e' : Expr} (he : e.isFormula Float.isFinite = true)
    (he' : e'.isFormula Float.isFinite = true) :
    ∃ s s', e.render = .ok s ∧ e'.render = .ok s' ∧
      (s = s' ↔ (e == e') = true ∧ e.ZerosAgree e') ∧
      ((∀ x, .number x ∈ e.leaves ++ e'.leaves → x ≠ -0.0) → (s = s' ↔ (e == e') = true)) := by
  have htext : e.text = e'.text ↔ (e == e') = true ∧ e.ZerosAgree e' := by
    rw [← Expr.eq_iff_same he]
    exact ⟨Expr.text_injective he he', congrArg Expr.text⟩
  refine ⟨e.text, e'.text, Expr.render_of_isComplete (Expr.isComplete_of_isFormula he),
    Expr.render_of_isComplete (Expr.isComplete_of_isFormula he'), htext, fun hzeros => ?_⟩
  rw [htext, and_iff_left (Expr.zerosAgree_of_ne hzeros)]

theorem render_eq_iff_zeros :
    let e : Expr := (Expr.num (-2)).join .sub (.num (-0.0))
    let e' : Expr := (Expr.num (-2)).join .sub (.num 0)
    e.isFormula Float.isFinite = true ∧ e'.isFormula Float.isFinite = true ∧
    (e == e') = true ∧ ¬ e.ZerosAgree e' := by
  intro e e'
  have he : e.isFormula Float.isFinite = true := by decide +kernel
  have he' : e'.isFormula Float.isFinite = true := by decide +kernel
  have htext : e.render.toOption = some "(-2 - -0.0)" := by decide +kernel
  have htext' : e'.render.toOption = some "(-2 - 0)" := by decide +kernel
  have hsame : (e == e') = true := by decide +kernel
  refine ⟨he, he', hsame, fun hzeros => ?_⟩
  obtain ⟨s, s', hrender, hrender', hiff, -⟩ := render_eq_iff he he'
  obtain rfl := hiff.mpr ⟨hsame, hzeros⟩
  rw [hrender] at htext
  rw [hrender', htext] at htext'
  exact absurd (Option.some.inj htext') (by decide)

end Formula
