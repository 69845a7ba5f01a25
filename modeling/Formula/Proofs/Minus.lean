import Formula.Proofs.Excess
import Formula.Proofs.WrittenTokens

/-!
# A minus is not read back

There are no negative numerals: the minus that a negative number is written with is read as an
operator. Each one is an operator too many for the whole text (`Expr.exists_scans_text`). Trees may
be joined wrongly on the way, across parentheses too, but none of them is ever returned.
-/

namespace Formula

open Text Number

namespace Expr

def Item.isNegative : Item → Bool
  | number x => hasSign .negative x
  | name _ | operator _ => false

def minuses (e : Expr) : Nat := e.leaves.countP Item.isNegative

theorem minuses_bin (l : Expr) (s : String) (r : Expr) :
    (bin l s r).minuses = l.minuses + r.minuses := List.countP_append

theorem minuses_num (x : Float) :
    (num x).minuses = if hasSign .negative x then 1 else 0 := List.countP_singleton

end Expr

theorem balanced_and_excess_tokens (x : Float) :
    Balanced (tokens x) ∧ excess (tokens x) + (Expr.num x).minuses = 1 := by
  have hoperand : (operand x).isOperand = true := by
    unfold operand
    cases x.toModel.unpack <;> rfl
  have hbalanced := Balanced.nil.cons (nesting_of_isOperand hoperand)
  have hone := excess_of_isOperand hoperand
  unfold tokens
  rw [Expr.minuses_num]
  by_cases hx : hasSign .negative x = true
  · rw [if_pos hx, if_pos hx]
    refine ⟨hbalanced.cons rfl, ?_⟩
    rw [excess_append, excess_operator, hone]
    rfl
  · rw [if_neg hx, if_neg hx]
    refine ⟨hbalanced, ?_⟩
    rw [List.nil_append, hone]
    rfl

/-- The tokens of a rendering are balanced, and every minus among them takes an operand that is not
there. -/
theorem Expr.exists_scans_text {e : Expr} (he : e.isFormula (fun _ => true) = true) :
    ∃ ts, Scans e.text.toList ts ∧ Balanced ts ∧ excess ts + e.minuses = 1 := by
  refine ⟨e.infixTokens, scans_text he, ?_⟩
  induction e with
  | num x => exact balanced_and_excess_tokens x
  | var n => exact ⟨Balanced.nil.cons rfl, rfl⟩
  | hole => cases he
  | bin l s r ihl ihr =>
    obtain ⟨hl, ⟨o, rfl⟩, hr⟩ := isFormula_bin he
    obtain ⟨hbl, hcl⟩ := ihl hl
    obtain ⟨hbr, hcr⟩ := ihr hr
    rw [infixTokens_join]
    refine ⟨(hbl.append (hbr.cons rfl)).group, ?_⟩
    rw [minuses_bin, excess_cons, excess_append, excess_append, excess_cons (.operator o),
      excess_opening, excess_operator, excess_closing]
    omega

/-- The rendering of a tree with a negative number, zero and infinity included, is rejected. -/
theorem rejectedWith_of_negative (e : Expr) (he : e.isFormula (fun _ => true) = true)
    (hneg : ∃ x, .number x ∈ e.leaves ∧ hasSign .negative x = true) :
    ∃ s, e.render = .ok s ∧ RejectedWith ("Malformed expression " ++ Text.quoted s) s := by
  obtain ⟨x, hx, hsign⟩ := hneg
  have hminuses : 0 < e.minuses := List.countP_pos_iff.mpr ⟨_, hx, hsign⟩
  obtain ⟨ts, hscans, hbalanced, hexcess⟩ := Expr.exists_scans_text he
  refine ⟨e.text, Expr.render_of_isComplete (Expr.isComplete_of_isFormula he), ?_⟩
  apply rejectedWith_of_excess hscans hbalanced
  omega

theorem rejectedWith_of_negative_in_group :
    ((Expr.var "y").join .mul ((Expr.var "x").join .add (.num (-1)))).render =
      .ok "(y * (x + -1))" ∧
    RejectedWith ("Malformed expression " ++ Text.quoted "(y * (x + -1))") "(y * (x + -1))" := by
  let e : Expr := (Expr.var "y").join .mul ((Expr.var "x").join .add (.num (-1)))
  have htext : e.render.toOption = some "(y * (x + -1))" := by decide +kernel
  have hsign : hasSign .negative (-1) = true := by decide +kernel
  have hmem : .number (-1) ∈ e.leaves := by simp [e, Expr.leaves]
  obtain ⟨s, hrender, hrejected⟩ :=
    rejectedWith_of_negative e (by decide +kernel) ⟨-1, hmem, hsign⟩
  have hs := hrender
  rw [hs] at htext
  obtain rfl := Option.some.inj htext
  exact ⟨hrender, hrejected⟩

end Formula
