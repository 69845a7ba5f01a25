import Formula.Proofs.Settling

/-!
# A text in parentheses stands for its tree

The operands of a group lie on the same stack as those before it, and a reduction in the group could
take any of them. It takes none if the tokens in the parentheses are accepted on their own: what
these do to the stacks they also do above any other stacks, parted from them by the parenthesis
(`Stacks.run?_inGroup`), and when it is closed, one tree is left in their place
(`Reading.run?_group`).
-/

namespace Formula

theorem reduceAll_append_operands {os : List Operator} {es es' : List Expr}
    (h : reduceAll os es = .ok es') (fs : List Expr) :
    reduceAll os (es ++ fs) = .ok (es' ++ fs) := by
  induction os generalizing es with
  | nil =>
    cases h
    rfl
  | cons o os ih =>
    obtain ⟨l, r, rest, rfl, hr⟩ := reduceAll_cons_eq_ok.mp h
    exact reduceAll_cons_eq_ok.mpr ⟨l, r, rest ++ fs, rfl, ih hr⟩

namespace Pending

variable {ps ps' : List Pending}

theorem released_append_opening (due : Operator → Bool) (ps qs : List Pending) :
    released due (ps ++ .opening :: qs) = released due ps := by
  induction ps with
  | nil => rfl
  | cons p ps ih =>
    cases p with
    | opening => rfl
    | operator o => simp only [List.cons_append, released, ih]

theorem kept_append_opening (due : Operator → Bool) (ps qs : List Pending) :
    kept due (ps ++ .opening :: qs) = kept due ps ++ .opening :: qs := by
  induction ps with
  | nil => rfl
  | cons p ps ih =>
    cases p with
    | opening => rfl
    | operator o =>
      simp only [List.cons_append, kept, ih]
      split
      · rfl
      · rfl

theorem reducedBy_append_opening (ps qs : List Pending) (t : Token) :
    reducedBy (ps ++ .opening :: qs) t = reducedBy ps t := by
  cases t with
  | operator o => exact released_append_opening _ ps qs
  | closing => exact released_append_opening _ ps qs
  | number x | name n | opening => rfl

theorem after?_append_opening {t : Token} (h : after? ps t = some ps') (qs : List Pending) :
    after? (ps ++ .opening :: qs) t = some (ps' ++ .opening :: qs) := by
  cases t with
  | number x | name n | opening =>
    cases h
    rfl
  | operator o =>
    cases h
    simp only [after?, kept_append_opening, List.cons_append]
  | closing =>
    simp only [after?] at h
    split at h
    · rename_i ps'' hkept
      cases h
      simp only [after?, kept_append_opening, hkept, List.cons_append]
    · cases h

end Pending

namespace Stacks

/-- The stacks of a group, above those on which it was opened. -/
def inGroup (base st : Stacks) : Stacks :=
  ⟨st.operands ++ base.operands, st.pending ++ .opening :: base.pending⟩

variable {base st st' : Stacks} {e : Expr}

theorem step?_inGroup {t : Token} (h : st.step? t = some st') :
    (base.inGroup st).step? t = some (base.inGroup st') := by
  obtain ⟨es, hred, hafter, hes⟩ := step?_eq_some.mp h
  refine step?_eq_some.mpr ⟨es ++ base.operands, ?_, Pending.after?_append_opening hafter _, ?_⟩
  · rw [inGroup, Pending.reducedBy_append_opening]
    exact reduceAll_append_operands hred _
  · rw [inGroup, hes, List.append_assoc]

theorem run?_inGroup {ts : List Token} (h : st.run? ts = some st') :
    (base.inGroup st).run? ts = some (base.inGroup st') := by
  induction ts generalizing st with
  | nil =>
    cases h
    rfl
  | cons t ts ih =>
    obtain ⟨st₁, hstep, hrun⟩ := run?_cons_eq_some.mp h
    exact run?_cons_eq_some.mpr ⟨base.inGroup st₁, step?_inGroup hstep, ih hrun⟩

theorem step?_closing_inGroup (h : st.finish = .ok e) :
    (base.inGroup st).step? .closing = some (base.push e) := by
  obtain ⟨hkept, hred⟩ := finish_eq_ok.mp h
  refine step?_eq_some.mpr ⟨e :: base.operands, ?_, ?_, rfl⟩
  · rw [inGroup, Pending.reducedBy_append_opening]
    exact reduceAll_append_operands hred base.operands
  · simp only [inGroup, Pending.after?, Pending.kept_append_opening, hkept, List.nil_append]
    rfl

end Stacks

/-- Tokens that are accepted on their own stand, in parentheses, for their tree. -/
theorem Reading.run?_group {r : Reading} {e : Expr} (h : r.tree = .ok e) (base : Stacks) :
    base.run? (.opening :: (r.tokens ++ [.closing])) = some (base.push e) := by
  obtain ⟨-, st, hrun, hfin⟩ := tree_eq_ok.mp h
  have hopen : base.step? .opening = some (base.inGroup .empty) := rfl
  refine Stacks.run?_cons_eq_some.mpr ⟨base.inGroup .empty, hopen, ?_⟩
  rw [Stacks.run?_append, Stacks.run?_inGroup hrun, Option.bind_some]
  exact Stacks.run?_cons_eq_some.mpr ⟨base.push e, Stacks.step?_closing_inGroup hfin, rfl⟩

end Formula
