import Formula.Proofs.Outcome
import Formula.Proofs.Scanning

/-!
# One operand more than operators

An operator takes two trees off the stack and puts one there, so a text is accepted only if it has
one operand more than operators, in whatever order. A text that has not, and whose parentheses are
balanced, is rejected for this reason alone (`rejectedWith_of_excess`).
-/

namespace Formula

/-- How many more operands there are than operators. -/
def excess (ts : List Token) : Int := ts.countP Token.isOperand - ts.countP Token.isOperator

@[simp] theorem excess_nil : excess [] = 0 := rfl

@[simp] theorem excess_append (ts us : List Token) : excess (ts ++ us) = excess ts + excess us := by
  simp only [excess, List.countP_append]
  omega

theorem excess_cons (t : Token) (ts : List Token) : excess (t :: ts) = excess [t] + excess ts :=
  excess_append [t] ts

theorem excess_of_isOperand {t : Token} (h : t.isOperand = true) : excess [t] = 1 := by
  cases t with
  | number x | name n => rfl
  | operator o | opening | closing => cases h

theorem excess_operator (o : Operator) : excess [.operator o] = -1 := rfl

theorem excess_opening : excess [.opening] = 0 := rfl

theorem excess_closing : excess [.closing] = 0 := rfl

theorem nesting_of_isOperand {t : Token} (h : t.isOperand = true) : nesting [t] = 0 := by
  cases t with
  | number x | name n => rfl
  | operator o | opening | closing => cases h

theorem excess_eq_one_iff {ts : List Token} :
    excess ts = 1 ↔ ts.countP Token.isOperand = ts.countP Token.isOperator + 1 := by
  unfold excess
  omega

theorem Reading.excess_of_tree {r : Reading} {e : Expr} (h : r.tree = .ok e) :
    Balanced r.tokens ∧ excess r.tokens = 1 := by
  obtain ⟨hstray, -⟩ := tree_eq_ok.mp h
  obtain ⟨hbalanced, hsuffices⟩ := (exists_tree_iff hstray).mp ⟨e, h⟩
  exact ⟨hbalanced, excess_eq_one_iff.mpr ((suffices_zero_iff _).mp hsuffices).1⟩

/-- Balanced tokens without the right number of operands are malformed. -/
theorem rejectedWith_of_excess {s : String} {ts : List Token} (h : Scans s.toList ts)
    (hbalanced : Balanced ts) (hexcess : excess ts ≠ 1) :
    RejectedWith ("Malformed expression " ++ Text.quoted s) s := by
  obtain ⟨hstray, rfl⟩ := scans_iff_read.mp h
  cases hrun : Stacks.empty.run? (read s).tokens with
  | none => exact rejectedWith_of_run? hrun
  | some st =>
    have hcount := Stacks.count_run? hrun
    rw [hbalanced.nesting_eq] at hcount
    have hopen : st.pending.count .opening = 0 := by simpa [Stacks.empty] using hcount
    cases hfin : st.finish with
    | ok e =>
      have htree := Reading.tree_eq_ok.mpr ⟨hstray, st, hrun, hfin⟩
      exact absurd (Reading.excess_of_tree htree).2 hexcess
    | error cause =>
      obtain rfl := Stacks.finish_eq_error hopen hfin
      exact rejectedWith_of_tree ((tree_eq_finish hrun hstray).trans hfin)

end Formula
