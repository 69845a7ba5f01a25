import Mathlib.Data.List.Perm.Subperm
import Formula.Proofs.Excess
import Formula.Proofs.Viability

/-!
# The stacks at any moment

What the parser holds at any moment of any run is told by the tokens that it has taken in, whether
or not they make sense: in each group of parentheses the operators that wait bind tighter and
tighter towards the top, as many parentheses are open as were opened and not closed, and the
operands are those that were read, less one for each operator that waits no more
(`Stacks.Invariant`). Each token keeps this up (`Stacks.Invariant.step?`), and so does each of the
reductions that a token makes on its way (`Stacks.Invariant.reduce`).
-/

namespace Formula

def Token.reduces : Token → Operator → Bool
  | .operator o, p => p.leftFirst o
  | .closing, _ => true
  | .number _, _ | .name _, _ | .opening, _ => false

namespace Stacks

/-- The stacks between two tokens: `st'` is what is left of `st` after some of the reductions that
the token `t` makes, none or all of them included. -/
inductive Between (t : Token) : Stacks → Stacks → Prop where
  | refl (st : Stacks) : Between t st st
  | reduce {o : Operator} {es es' : List Expr} {ps : List Pending} {st' : Stacks}
      (ho : t.reduces o = true) (hes : o.reduce es = .ok es') (h : Between t ⟨es', ps⟩ st') :
      Between t ⟨es, .operator o :: ps⟩ st'

theorem between_of_settle {t : Token} {es : List Expr} {ps : List Pending} {st' : Stacks}
    (h : settle t.reduces es ps = .ok st') : Between t ⟨es, ps⟩ st' := by
  induction ps generalizing es with
  | nil =>
    cases h
    exact .refl _
  | cons p ps ih =>
    cases p with
    | opening =>
      cases h
      exact .refl _
    | operator o =>
      rw [settle] at h
      by_cases ho : t.reduces o = true
      · rw [if_pos ho] at h
        cases hes : o.reduce es with
        | error u =>
          rw [hes] at h
          cases h
        | ok es' =>
          rw [hes] at h
          exact .reduce ho hes (ih h)
      · rw [if_neg ho] at h
        cases h
        exact .refl _

/-- What holds of the stacks when the tokens `ts` have been taken in. -/
structure Invariant (ts : List Token) (st : Stacks) : Prop where
  ascending : Ascending st.pending
  count_opening : (st.pending.count .opening : Int) = nesting ts
  surplus_eq : st.surplus = excess ts

variable {ts us : List Token} {t : Token} {st st' : Stacks}

namespace Invariant

theorem empty : Invariant [] .empty where
  ascending := ascending_nil
  count_opening := rfl
  surplus_eq := rfl

theorem step? (hinv : Invariant ts st) (h : st.step? t = some st') : Invariant (ts ++ [t]) st' := by
  obtain ⟨es, -, hafter, -⟩ := step?_eq_some.mp h
  refine ⟨Pending.ascending_after? hinv.ascending hafter, ?_, ?_⟩
  · rw [Pending.count_after? hafter, hinv.count_opening, nesting_append]
  · rw [surplus_step? h, hinv.surplus_eq, excess_append]
    rfl

theorem run? (hinv : Invariant us st) (h : st.run? ts = some st') : Invariant (us ++ ts) st' := by
  induction ts generalizing us st with
  | nil =>
    cases h
    rwa [List.append_nil]
  | cons t ts ih =>
    obtain ⟨st₁, ht, hrun⟩ := run?_cons_eq_some.mp h
    rw [← List.singleton_append, ← List.append_assoc]
    exact ih (hinv.step? ht) hrun

theorem reduce {o : Operator} {es es' : List Expr} {ps : List Pending}
    (hinv : Invariant ts ⟨es, .operator o :: ps⟩) (h : o.reduce es = .ok es') :
    Invariant ts ⟨es', ps⟩ := by
  refine ⟨hinv.ascending.tail, ?_, ?_⟩
  · rw [← hinv.count_opening, List.count_cons_of_ne (by simp)]
  · have hreduce : reduceAll [o] es = .ok es' := by
      rw [reduceAll_cons, h]
      rfl
    have hlength : es'.length + 1 = es.length := length_reduceAll hreduce
    have hsurplus := hinv.surplus_eq
    simp only [surplus, List.countP_cons_of_pos (rfl : Pending.isOperator (.operator o) = true)]
      at hsurplus ⊢
    omega

theorem between (hinv : Invariant ts st) (h : st.Between t st') : Invariant ts st' := by
  induction h with
  | refl => exact hinv
  | reduce ho hes h ih => exact ih (hinv.reduce hes)

end Invariant

end Stacks

theorem Ascending.pairwise {above below : List Pending} {os : List Operator}
    (h : Ascending (above ++ os.map .operator ++ below)) :
    (os.map Operator.precedence).Pairwise (· > ·) := by
  have hinfix : Ascending (os.map .operator) := h.infix ⟨above, below, rfl⟩
  have hchain : (os.map Operator.precedence).IsChain (· > ·) :=
    (List.isChain_map _).mpr ((List.isChain_map Pending.operator).mp hinfix)
  exact hchain.pairwise

theorem length_le_three {os : List Operator} (h : (os.map Operator.precedence).Pairwise (· > ·)) :
    os.length ≤ 3 := by
  have hnodup : (os.map Operator.precedence).Nodup := h.imp fun hlt => Nat.ne_of_gt hlt
  have hsub : os.map Operator.precedence ⊆ [1, 2, 3] := by
    intro n hn
    obtain ⟨o, -, rfl⟩ := List.mem_map.mp hn
    cases o <;> decide
  simpa using (List.subperm_of_subset hnodup hsub).length_le

/-- At any moment of any run, with the tokens `ts` taken in and some of the reductions made that the
next token calls for: operators that stand next to each other on the stack bind tighter and tighter
towards its top, so there are at most three of them in a row; as many parentheses are open as were
opened and not closed; and there are as many operands as were read, less the operators that were
read, plus the operators that wait. -/
theorem stacks_invariant {ts : List Token} {t : Token} {st st' : Stacks}
    (hrun : Stacks.empty.run? ts = some st) (h : st.Between t st') :
    (∀ (above below : List Pending) (os : List Operator),
      st'.pending = above ++ os.map .operator ++ below →
        (os.map Operator.precedence).Pairwise (· > ·) ∧ os.length ≤ 3) ∧
    (st'.pending.count .opening : Int) = ts.count .opening - ts.count .closing ∧
    (st'.operands.length : Int) = ts.countP Token.isOperand - ts.countP Token.isOperator +
      st'.pending.countP Pending.isOperator := by
  have hinv : Stacks.Invariant ts st' := (Stacks.Invariant.empty.run? hrun).between h
  refine ⟨fun above below os hpending => ?_, hinv.count_opening, ?_⟩
  · have hpairwise := Ascending.pairwise (hpending ▸ hinv.ascending)
    exact ⟨hpairwise, length_le_three hpairwise⟩
  · have hsurplus := hinv.surplus_eq
    unfold Stacks.surplus excess at hsurplus
    omega

/-- A product waits while the power above it is reduced, with a sum in front of the group that lacks
its operands. -/
theorem stacks_invariant_reducing :
    let ts : List Token := [.operator .add, .opening, .number 2, .operator .mul, .number 3,
      .operator .pow, .number 4]
    let st : Stacks := ⟨[.num 4, .num 3, .num 2],
      [.operator .pow, .operator .mul, .opening, .operator .add]⟩
    let st' : Stacks := ⟨[(Expr.num 3).join .pow (.num 4), .num 2],
      [.operator .mul, .opening, .operator .add]⟩
    Stacks.empty.run? ts = some st ∧ st.Between (.operator .sub) st' ∧
    (st'.pending.count .opening : Int) = ts.count .opening - ts.count .closing ∧
    (st'.operands.length : Int) = ts.countP Token.isOperand - ts.countP Token.isOperator +
      st'.pending.countP Pending.isOperator := by
  intro ts st st'
  have hrun : Stacks.empty.run? ts = some st := rfl
  have hbetween : st.Between (.operator .sub) st' := .reduce rfl rfl (.refl st')
  exact ⟨hrun, hbetween, (stacks_invariant hrun hbetween).2⟩

end Formula
