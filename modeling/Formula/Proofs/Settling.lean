import Formula.Parse.Source

/-!
# What a token does to the stacks

Which operators a token reduces and what waits after it depends on what waits before it alone, and
not on the operands: `Pending.reducedBy` and `Pending.after?`. The operands only have to suffice for
the reductions. Main statements: a token is taken in exactly if both succeed
(`Stacks.step?_eq_some`), and so at the end of the tokens (`Stacks.finish_eq_ok`).
-/

namespace Formula

def reduceAll : List Operator → List Expr → Except Underflow (List Expr)
  | [], es => .ok es
  | o :: os, es => o.reduce es >>= reduceAll os

@[simp] theorem reduceAll_nil (es : List Expr) : reduceAll [] es = .ok es := rfl

theorem reduceAll_cons (o : Operator) (os : List Operator) (es : List Expr) :
    reduceAll (o :: os) es = o.reduce es >>= reduceAll os := rfl

theorem reduceAll_append (os os' : List Operator) (es : List Expr) :
    reduceAll (os ++ os') es = reduceAll os es >>= reduceAll os' := by
  induction os generalizing es with
  | nil => rfl
  | cons o os ih =>
    rw [List.cons_append, reduceAll_cons, reduceAll_cons]
    cases o.reduce es with
    | error u => rfl
    | ok es => exact ih es

theorem reduceAll_cons_eq_ok {o : Operator} {os : List Operator} {es es' : List Expr} :
    reduceAll (o :: os) es = .ok es' ↔
      ∃ l r rest, es = r :: l :: rest ∧ reduceAll os (l.join o r :: rest) = .ok es' := by
  rcases es with - | ⟨r, - | ⟨l, rest⟩⟩
  · simp [reduceAll_cons, Operator.reduce, bind, Except.bind]
  · simp [reduceAll_cons, Operator.reduce, bind, Except.bind]
  · constructor
    · intro h
      exact ⟨l, r, rest, rfl, h⟩
    · rintro ⟨l', r', rest', he, h⟩
      cases he
      exact h

/-- Each reduction takes one tree off the stack and needs two. -/
theorem length_reduceAll {os : List Operator} {es es' : List Expr}
    (h : reduceAll os es = .ok es') : es'.length + os.length = es.length := by
  induction os generalizing es with
  | nil =>
    cases h
    rfl
  | cons o os ih =>
    obtain ⟨l, r, rest, rfl, hr⟩ := reduceAll_cons_eq_ok.mp h
    have := ih hr
    simp only [List.length_cons] at this ⊢
    omega

theorem exists_reduceAll_iff {os : List Operator} {es : List Expr} :
    (∃ es', reduceAll os es = .ok es') ↔ os = [] ∨ os.length < es.length := by
  induction os generalizing es with
  | nil => simp
  | cons o os ih =>
    simp only [reduceAll_cons_eq_ok]
    constructor
    · rintro ⟨es', l, r, rest, rfl, hr⟩
      have := length_reduceAll hr
      rcases ih.mp ⟨es', hr⟩ with rfl | hlt
      · exact Or.inr (by simp)
      · exact Or.inr (by simpa using hlt)
    · rintro (h | hlt)
      · cases h
      · rcases es with - | ⟨r, - | ⟨l, rest⟩⟩
        · simp at hlt
        · simp at hlt
        · have hlt' : os.length < (l.join o r :: rest).length := by simpa using hlt
          obtain ⟨es', hr⟩ := ih.mpr (Or.inr hlt')
          exact ⟨es', l, r, rest, rfl, hr⟩

def Token.operand? : Token → Option Expr
  | .number x => some (.num x)
  | .name n => some (.var n)
  | _ => none

namespace Pending

/-- The operators on top that are due, from the top down. -/
def released (due : Operator → Bool) : List Pending → List Operator
  | .operator o :: ps => if due o then o :: released due ps else []
  | _ => []

/-- What is under the operators on top that are due. -/
def kept (due : Operator → Bool) : List Pending → List Pending
  | .operator o :: ps => if due o then kept due ps else .operator o :: ps
  | ps => ps

@[simp] theorem released_nil (due : Operator → Bool) : released due [] = [] := rfl

@[simp] theorem released_opening (due : Operator → Bool) (ps : List Pending) :
    released due (.opening :: ps) = [] := rfl

@[simp] theorem kept_nil (due : Operator → Bool) : kept due [] = [] := rfl

@[simp] theorem kept_opening (due : Operator → Bool) (ps : List Pending) :
    kept due (.opening :: ps) = .opening :: ps := rfl

theorem released_append {due : Operator → Bool} {os : List Operator} (h : ∀ o ∈ os, due o)
    (ps : List Pending) : released due (os.map .operator ++ ps) = os ++ released due ps := by
  induction os with
  | nil => rfl
  | cons o os ih =>
    have ho : due o := h o List.mem_cons_self
    simp only [List.map_cons, List.cons_append, released, if_pos ho]
    rw [ih fun o' ho' => h o' (List.mem_cons_of_mem o ho')]

theorem kept_append {due : Operator → Bool} {os : List Operator} (h : ∀ o ∈ os, due o)
    (ps : List Pending) : kept due (os.map .operator ++ ps) = kept due ps := by
  induction os with
  | nil => rfl
  | cons o os ih =>
    have ho : due o := h o List.mem_cons_self
    simp only [List.map_cons, List.cons_append, kept, if_pos ho]
    exact ih fun o' ho' => h o' (List.mem_cons_of_mem o ho')

def reducedBy (ps : List Pending) : Token → List Operator
  | .operator o => released (·.leftFirst o) ps
  | .closing => released (fun _ => true) ps
  | _ => []

/-- What waits after a token. Only a parenthesis that was never opened cannot be taken in. -/
def after? (ps : List Pending) : Token → Option (List Pending)
  | .operator o => some (.operator o :: kept (·.leftFirst o) ps)
  | .opening => some (.opening :: ps)
  | .closing =>
    match kept (fun _ => true) ps with
    | .opening :: ps => some ps
    | _ => none
  | _ => some ps

end Pending

namespace Stacks

open Pending

theorem settle_eq (due : Operator → Bool) (es : List Expr) (ps : List Pending) :
    settle due es ps = (reduceAll (released due ps) es).map (⟨·, kept due ps⟩) := by
  induction ps generalizing es with
  | nil => rfl
  | cons p ps ih =>
    cases p with
    | opening => rfl
    | operator o =>
      simp only [settle, released, kept]
      by_cases ho : due o
      · rw [if_pos ho, if_pos ho, if_pos ho, reduceAll_cons]
        cases o.reduce es with
        | error u => rfl
        | ok es => exact ih es
      · rw [if_neg ho, if_neg ho, if_neg ho]
        rfl

/-- A token is taken in if what waits admits it and the operands suffice. -/
theorem step?_eq_some {st st' : Stacks} {t : Token} :
    st.step? t = some st' ↔ ∃ es, reduceAll (reducedBy st.pending t) st.operands = .ok es ∧
      after? st.pending t = some st'.pending ∧ st'.operands = t.operand?.toList ++ es := by
  obtain ⟨es', ps'⟩ := st'
  cases t with
  | number x | name n =>
    simp [step?, push, reducedBy, after?, Token.operand?, and_comm, eq_comm]
  | opening =>
    simp [step?, openGroup, reducedBy, after?, Token.operand?, and_comm, eq_comm]
  | operator o =>
    simp only [step?, pushOperator?, reducedBy, after?, settle_eq, Token.operand?]
    cases reduceAll (released (·.leftFirst o) st.pending) st.operands with
    | error u => simp [Except.map]
    | ok es => simp [Except.map, and_comm, eq_comm]
  | closing =>
    simp only [step?, closeGroup?, reducedBy, after?, settle_eq, Token.operand?]
    cases reduceAll (released (fun _ => true) st.pending) st.operands with
    | error u => simp [Except.map]
    | ok es =>
      rcases kept (fun _ => true) st.pending with - | ⟨_ | _, ps⟩ <;>
        simp [Except.map, and_comm, eq_comm]

/-- A tree is left at the end if no parenthesis is open and the operands suffice and no more. -/
theorem finish_eq_ok {st : Stacks} {e : Expr} :
    st.finish = .ok e ↔ kept (fun _ => true) st.pending = [] ∧
      reduceAll (released (fun _ => true) st.pending) st.operands = .ok [e] := by
  simp only [finish, settle_eq]
  cases reduceAll (released (fun _ => true) st.pending) st.operands with
  | error u => simp [Except.map]
  | ok es =>
    rcases kept (fun _ => true) st.pending with - | ⟨p, ps⟩
    · rcases es with - | ⟨e', - | ⟨e'', es⟩⟩ <;> simp [Except.map]
    · simp [Except.map]

theorem run?_cons_eq_some {st st' : Stacks} {t : Token} {ts : List Token} :
    st.run? (t :: ts) = some st' ↔ ∃ st₁, st.step? t = some st₁ ∧ st₁.run? ts = some st' :=
  Option.bind_eq_some_iff

section Trees

variable {P : Expr → Prop} (hjoin : ∀ l o r, P l → P r → P (l.join o r))

include hjoin

theorem forall_mem_of_reduceAll {os : List Operator} {es es' : List Expr}
    (h : reduceAll os es = .ok es') (hes : ∀ e ∈ es, P e) : ∀ e ∈ es', P e := by
  induction os generalizing es with
  | nil =>
    cases h
    exact hes
  | cons o os ih =>
    obtain ⟨l, r, rest, rfl, hr⟩ := reduceAll_cons_eq_ok.mp h
    refine ih hr fun e he => ?_
    rcases List.mem_cons.mp he with rfl | he
    · exact hjoin l o r (hes l (by simp)) (hes r (by simp))
    · exact hes e (by simp [he])

theorem forall_mem_of_run? {st st' : Stacks} {ts : List Token} (h : st.run? ts = some st')
    (hleaf : ∀ t ∈ ts, ∀ e, t.operand? = some e → P e) (hst : ∀ e ∈ st.operands, P e) :
    ∀ e ∈ st'.operands, P e := by
  induction ts generalizing st with
  | nil =>
    cases h
    exact hst
  | cons t ts ih =>
    obtain ⟨st₁, hstep, hrun⟩ := run?_cons_eq_some.mp h
    obtain ⟨es, hred, -, hes⟩ := step?_eq_some.mp hstep
    refine ih hrun (fun u hu => hleaf u (List.mem_cons_of_mem t hu)) fun e he => ?_
    rw [hes] at he
    rcases List.mem_append.mp he with he | he
    · exact hleaf t List.mem_cons_self e (by simpa using he)
    · exact forall_mem_of_reduceAll hjoin hred hst e he

end Trees

end Stacks

theorem Reading.tree_eq_ok {r : Reading} {e : Expr} :
    r.tree = .ok e ↔ r.stray = none ∧
      ∃ st, Stacks.empty.run? r.tokens = some st ∧ st.finish = .ok e := by
  rw [tree]
  cases Stacks.empty.run? r.tokens with
  | none => simp
  | some st => cases r.stray <;> simp

/-- What holds of every operand of a text and is kept by joining holds of its tree. -/
theorem Reading.tree_induction {P : Expr → Prop} {r : Reading} {e : Expr} (h : r.tree = .ok e)
    (hleaf : ∀ t ∈ r.tokens, ∀ e, t.operand? = some e → P e)
    (hjoin : ∀ l o r, P l → P r → P (l.join o r)) : P e := by
  obtain ⟨-, st, hrun, hfin⟩ := tree_eq_ok.mp h
  obtain ⟨-, hred⟩ := Stacks.finish_eq_ok.mp hfin
  have hst := Stacks.forall_mem_of_run? hjoin hrun hleaf (by simp [Stacks.empty])
  exact Stacks.forall_mem_of_reduceAll hjoin hred hst e List.mem_cons_self

theorem parse_eq_ok {s : String} {e : Expr} : parse s = .ok e ↔ (read s).tree = .ok e := by
  rw [parse_eq]
  cases (read s).tree with
  | error cause =>
    constructor
    · intro h
      cases h
    · intro h
      cases h
  | ok e' =>
    constructor
    · intro h
      cases h
      rfl
    · intro h
      cases h
      rfl

theorem parse_eq_ok_of_toOption {s : String} {e : Expr} (h : (parse s).toOption = some e) :
    parse s = .ok e := by
  cases hp : parse s with
  | error f => simp [hp, Except.toOption] at h
  | ok e' => simpa [hp, Except.toOption] using h

end Formula
