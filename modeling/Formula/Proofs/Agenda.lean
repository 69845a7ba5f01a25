import Mathlib.Data.List.Chain
import Formula.Proofs.Scope
import Formula.Proofs.Settling

/-!
# What waits and when its scope ends

The operators that wait on the stack of the parser, together with those that are still to be read,
have scopes in the tokens to come. `agenda` lists these in the order in which the operators stand in
the text. In each group of parentheses the operators that wait bind tighter and tighter towards the
top (`Ascending`), and therefore a token reduces exactly those whose scope it ends
(`Pending.exists_schedule`).
-/

namespace Formula

def Pending.Above : Pending → Pending → Prop
  | .operator o, .operator o' => o'.precedence < o.precedence
  | _, _ => True

def Ascending (ps : List Pending) : Prop := ps.IsChain Pending.Above

theorem ascending_nil : Ascending [] := List.IsChain.nil

theorem ascending_cons_opening {ps : List Pending} (h : Ascending ps) :
    Ascending (.opening :: ps) := by
  cases ps with
  | nil => exact List.IsChain.singleton _
  | cons p ps => exact List.isChain_cons_cons.mpr ⟨trivial, h⟩

theorem Ascending.tail {p : Pending} {ps : List Pending} (h : Ascending (p :: ps)) :
    Ascending ps := by
  cases ps with
  | nil => exact List.IsChain.nil
  | cons q ps => exact (List.isChain_cons_cons.mp h).2

/-- The scopes of the operators that wait, from the top down, if the tokens to come begin `depth`
parentheses deeper than what is on top. -/
def pendingScopes : Nat → List Pending → List Token → List Scope
  | _, [], _ => []
  | depth, .operator o :: ps, ts => ⟨o, reach o depth ts⟩ :: pendingScopes depth ps ts
  | depth, .opening :: ps, ts => pendingScopes (depth + 1) ps ts

def agenda (ps : List Pending) (ts : List Token) : List Scope :=
  (pendingScopes 0 ps ts).reverse ++ scopes ts

namespace Pending

variable {ps : List Pending} {t : Token} {ts : List Token}

theorem pendingScopes_deeper (depth : Nat) (ps : List Pending) (t : Token) (ts : List Token) :
    pendingScopes (depth + 1) ps (t :: ts) =
      (pendingScopes (t.depthAfter (depth + 1)) ps ts).map Scope.later := by
  induction ps generalizing depth with
  | nil => rfl
  | cons p ps ih =>
    cases p with
    | operator o => simp [pendingScopes, reach, Scope.later, ih]
    | opening =>
      have hd : t.depthAfter (depth + 1 + 1) = t.depthAfter (depth + 1) + 1 := by
        cases t <;> simp [Token.depthAfter]
      simp only [pendingScopes, ih (depth + 1), hd]

theorem pendingScopes_of_not_endsScope (h : ∀ o, t.endsScope o = false) :
    pendingScopes 0 ps (t :: ts) = (pendingScopes (t.depthAfter 0) ps ts).map Scope.later := by
  induction ps with
  | nil => rfl
  | cons p ps ih =>
    cases p with
    | operator o => simp [pendingScopes, reach, Scope.later, h, ih]
    | opening =>
      have hd : t.depthAfter (0 + 1) = t.depthAfter 0 + 1 := by
        cases t with
        | closing => cases h .add
        | number x | name n | operator o | opening => rfl
      simp only [pendingScopes, pendingScopes_deeper, hd]

theorem pendingScopes_of_lt {o : Operator} (ha : Ascending ps)
    (hlt : ∀ p, ps.head? = some (.operator p) → p.precedence < o.precedence) :
    pendingScopes 0 ps (.operator o :: ts) = (pendingScopes 0 ps ts).map Scope.later := by
  induction ps with
  | nil => rfl
  | cons p ps ih =>
    cases p with
    | opening => exact pendingScopes_deeper 0 ps (.operator o) ts
    | operator p =>
      have hp : p.precedence < o.precedence := hlt p rfl
      have hps : pendingScopes 0 ps (.operator o :: ts) =
          (pendingScopes 0 ps ts).map Scope.later := by
        refine ih ha.tail fun q hq => ?_
        rcases ps with - | ⟨q' | -, ps⟩
        · cases hq
        · cases hq
          have hqp : q.precedence < p.precedence := (List.isChain_cons_cons.mp ha).1
          omega
        · cases hq
      have hr : reach p 0 (.operator o :: ts) = reach p 0 ts + 1 := by
        simp [reach, Token.endsScope, Token.depthAfter, hp]
      simp [pendingScopes, hps, hr, Scope.later]

theorem pendingScopes_operator {o : Operator} (ha : Ascending ps) :
    pendingScopes 0 ps (.operator o :: ts) =
      (released (·.leftFirst o) ps).map Scope.ending ++
        (pendingScopes 0 (kept (·.leftFirst o) ps) ts).map Scope.later := by
  induction ps with
  | nil => rfl
  | cons p ps ih =>
    cases p with
    | opening => exact pendingScopes_deeper 0 ps (.operator o) ts
    | operator p =>
      by_cases hp : p.precedence < o.precedence
      · have hnd : p.leftFirst o = false := by simp [Operator.leftFirst, hp]
        rw [pendingScopes_of_lt ha fun q hq => by cases hq; exact hp]
        simp [released, kept, hnd]
      · have hd : p.leftFirst o = true := by simp [Operator.leftFirst, hp]
        have hr : reach p 0 (.operator o :: ts) = 0 := by
          simp [reach, Token.endsScope]
          omega
        simp [pendingScopes, released, kept, hd, hr, ih ha.tail, Scope.ending]

theorem pendingScopes_closing {ps' : List Pending} (h : after? ps .closing = some ps') :
    pendingScopes 0 ps (.closing :: ts) =
      (released (fun _ => true) ps).map Scope.ending ++
        (pendingScopes 0 ps' ts).map Scope.later := by
  induction ps with
  | nil => simp [after?] at h
  | cons p ps ih =>
    cases p with
    | opening =>
      obtain rfl : ps = ps' := Option.some.inj h
      exact pendingScopes_deeper 0 ps .closing ts
    | operator p =>
      have hr : reach p 0 (.closing :: ts) = 0 := by simp [reach, Token.endsScope]
      simp [pendingScopes, released, hr, ih h, Scope.ending]

theorem pendingScopes_nil (h : kept (fun _ => true) ps = []) :
    pendingScopes 0 ps [] = (released (fun _ => true) ps).map Scope.ending := by
  induction ps with
  | nil => rfl
  | cons p ps ih =>
    cases p with
    | opening => cases h
    | operator p => simp [pendingScopes, released, reach, ih h, Scope.ending]

theorem ascending_kept {due : Operator → Bool} (ha : Ascending ps) : Ascending (kept due ps) := by
  induction ps with
  | nil => exact ha
  | cons p ps ih =>
    cases p with
    | opening => exact ha
    | operator p =>
      rw [kept]
      split
      · exact ih ha.tail
      · exact ha

theorem not_due_of_head?_kept {due : Operator → Bool} {o : Operator}
    (h : (kept due ps).head? = some (.operator o)) : due o = false := by
  induction ps with
  | nil => cases h
  | cons p ps ih =>
    cases p with
    | opening => cases h
    | operator p =>
      rw [kept] at h
      split at h
      · exact ih h
      · rename_i hp
        cases h
        exact eq_false_of_ne_true hp

theorem ascending_after? {ps' : List Pending} (ha : Ascending ps) (h : after? ps t = some ps') :
    Ascending ps' := by
  cases t with
  | number x | name n =>
    cases h
    exact ha
  | opening =>
    cases h
    exact ascending_cons_opening ha
  | operator o =>
    cases h
    have hk : Ascending (kept (·.leftFirst o) ps) := ascending_kept ha
    cases hkept : kept (·.leftFirst o) ps with
    | nil => exact List.IsChain.singleton _
    | cons q qs =>
      rw [hkept] at hk
      refine List.isChain_cons_cons.mpr ⟨?_, hk⟩
      cases q with
      | opening => trivial
      | operator q =>
        have hhead : (kept (·.leftFirst o) ps).head? = some (.operator q) := by
          rw [hkept]
          rfl
        have hq := not_due_of_head?_kept hhead
        simpa [Above, Operator.leftFirst] using hq
  | closing =>
    have hk : Ascending (kept (fun _ => true) ps) := ascending_kept ha
    simp only [after?] at h
    split at h
    · rename_i ps'' hkept
      cases h
      rw [hkept] at hk
      exact hk.tail
    · cases h

/-- A token reduces the operators whose scope it ends, and no others. -/
theorem exists_schedule {ps' : List Pending} (ha : Ascending ps) (h : after? ps t = some ps')
    (ts : List Token) : ∃ ss ss', agenda ps (t :: ts) = Scope.schedule (reducedBy ps t) ss ss' ∧
      agenda ps' ts = ss ++ ss' := by
  cases t with
  | number x | name n =>
    cases h
    refine ⟨(pendingScopes 0 ps ts).reverse, scopes ts, ?_, rfl⟩
    rw [agenda, scopes_cons rfl, pendingScopes_of_not_endsScope fun _ => rfl]
    simp [Scope.schedule, reducedBy, Token.depthAfter]
  | opening =>
    cases h
    refine ⟨(pendingScopes 1 ps ts).reverse, scopes ts, ?_, rfl⟩
    rw [agenda, scopes_cons rfl, pendingScopes_of_not_endsScope fun _ => rfl]
    simp [Scope.schedule, reducedBy, Token.depthAfter]
  | operator o =>
    cases h
    refine ⟨(pendingScopes 0 (kept (·.leftFirst o) ps) ts).reverse,
      ⟨o, reach o 0 ts⟩ :: scopes ts, ?_, ?_⟩
    · rw [agenda, scopes_cons_operator, pendingScopes_operator ha]
      simp [Scope.schedule, reducedBy, Scope.later]
    · simp [agenda, pendingScopes]
  | closing =>
    refine ⟨(pendingScopes 0 ps' ts).reverse, scopes ts, ?_, rfl⟩
    rw [agenda, scopes_cons rfl, pendingScopes_closing h]
    simp [Scope.schedule, reducedBy]

theorem agenda_nil (h : kept (fun _ => true) ps = []) :
    agenda ps [] = ((released (fun _ => true) ps).map Scope.ending).reverse := by
  rw [agenda, pendingScopes_nil h]
  exact List.append_nil _

end Pending

end Formula
