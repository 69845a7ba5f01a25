import Formula.Proofs.Acceptance

/-!
# Which error a text is rejected with

The parser fails at the first token that does not fit what came before it, without regard to what
follows (`rejectedWith_of_run?`). If there is no such token, a stray character is reported
(`rejectedWith_of_stray`), and only then what is left on the stacks at the end: an operator without
operands, or else a parenthesis that is still open (`rejectedWith_of_opening`).
-/

namespace Formula

namespace Pending

variable {ps : List Pending}

theorem exists_innermost (h : 0 < ps.count .opening) :
    ∃ (os : List Operator) (rest : List Pending), ps = os.map .operator ++ .opening :: rest := by
  induction ps with
  | nil => cases h
  | cons p ps ih =>
    cases p with
    | opening => exact ⟨[], ps, rfl⟩
    | operator o =>
      rw [List.count_cons_of_ne (by simp)] at h
      obtain ⟨os, rest, rfl⟩ := ih h
      exact ⟨o :: os, rest, rfl⟩

theorem released_innermost (os : List Operator) (rest : List Pending) :
    released (fun _ => true) (os.map .operator ++ .opening :: rest) = os := by
  rw [released_append (by simp), released_opening, List.append_nil]

end Pending

namespace Stacks

/-- One of the tokens cannot be taken in after those before it. -/
def Rejects (st : Stacks) (ts : List Token) : Prop :=
  ∃ us t vs st', ts = us ++ t :: vs ∧ st.run? us = some st' ∧ st'.step? t = none

variable {st st' : Stacks} {ts : List Token}

theorem run?_eq_none_iff : st.run? ts = none ↔ st.Rejects ts := by
  constructor
  · intro h
    induction ts generalizing st with
    | nil => cases h
    | cons t ts ih =>
      cases ht : st.step? t with
      | none => exact ⟨[], t, ts, st, rfl, rfl, ht⟩
      | some st₁ =>
        rw [run?, ht, Option.bind_some] at h
        obtain ⟨us, u, vs, st', rfl, hrun, hu⟩ := ih h
        exact ⟨t :: us, u, vs, st', rfl, run?_cons_eq_some.mpr ⟨st₁, ht, hrun⟩, hu⟩
  · rintro ⟨us, t, vs, st', rfl, hrun, ht⟩
    rw [run?_append, hrun, Option.bind_some, run?, ht, Option.bind_none]

theorem not_rejects_of_run? (h : st.run? ts = some st') : ¬ st.Rejects ts := by
  rw [← run?_eq_none_iff, h]
  exact Option.some_ne_none st'

theorem count_run? (h : st.run? ts = some st') :
    (st'.pending.count .opening : Int) = st.pending.count .opening + nesting ts := by
  induction ts generalizing st with
  | nil =>
    cases h
    simp
  | cons t ts ih =>
    obtain ⟨st₁, ht, hrun⟩ := run?_cons_eq_some.mp h
    obtain ⟨es, -, hafter, -⟩ := step?_eq_some.mp ht
    rw [ih hrun, Pending.count_after? hafter, nesting_cons t ts]
    omega

/-- Tokens that are taken in close no parenthesis that they have not opened. -/
theorem balanced_of_run? (h : empty.run? ts = some st) (hopen : ¬ 0 < nesting ts) :
    Balanced ts := by
  have hnonneg : ∀ us, us <+: ts → 0 ≤ nesting us := by
    rintro us ⟨vs, rfl⟩
    rw [run?_append] at h
    obtain ⟨st₁, hrun, -⟩ := Option.bind_eq_some_iff.mp h
    have hcount := count_run? hrun
    simp only [empty, List.count_nil] at hcount
    omega
  have hwhole := hnonneg ts List.prefix_rfl
  exact ⟨hnonneg, by omega⟩

/-- An open parenthesis shows if the operators in it find their operands. -/
theorem finish_of_opening {os : List Operator} {rest : List Pending}
    (h : st.pending = os.map .operator ++ .opening :: rest) :
    st.finish = .error (if os = [] ∨ os.length < st.operands.length then .unbalanced
      else .malformed) := by
  have hreleased : Pending.released (fun _ => true) st.pending = os := by
    rw [h, Pending.released_innermost]
  have hkept : Pending.kept (fun _ => true) st.pending = .opening :: rest := by
    rw [h, Pending.kept_append (by simp), Pending.kept_opening]
  simp only [finish, settle_eq, hreleased, hkept]
  by_cases hos : os = [] ∨ os.length < st.operands.length
  · obtain ⟨es, hred⟩ := exists_reduceAll_iff.mpr hos
    rw [if_pos hos, hred]
    rfl
  · rw [if_neg hos]
    cases hred : reduceAll os st.operands with
    | error u => rfl
    | ok es => exact absurd (exists_reduceAll_iff.mp ⟨es, hred⟩) hos

theorem finish_eq_error {cause : ParseCause} (hopen : st.pending.count .opening = 0)
    (h : st.finish = .error cause) : cause = .malformed := by
  simp only [finish, settle_eq, Pending.kept_eq_nil_iff.mpr hopen] at h
  cases hred : reduceAll (Pending.released (fun _ => true) st.pending) st.operands with
  | error u =>
    rw [hred] at h
    cases h
    rfl
  | ok es =>
    rw [hred] at h
    rcases es with - | ⟨e, - | ⟨e', es⟩⟩
    · cases h
      rfl
    · cases h
    · cases h
      rfl

end Stacks

/-- The parser rejects a text with this message, and with the text itself. -/
def RejectedWith (message s : String) : Prop :=
  ∃ err, parse s = .error err ∧ err.source = s ∧ err.message = message

section Rejected

variable {s : String} {st : Stacks}

theorem rejectedWith_of_tree {cause : ParseCause} (h : (read s).tree = .error cause) :
    RejectedWith (ParseError.message ⟨cause, s⟩) s := by
  refine ⟨⟨cause, s⟩, ?_, rfl, rfl⟩
  rw [parse_eq, h]
  rfl

theorem rejectedWith_of_run? (h : Stacks.empty.run? (read s).tokens = none) :
    RejectedWith ("Malformed expression " ++ Text.quoted s) s := by
  have htree : (read s).tree = .error .malformed := by rw [Reading.tree, h]
  exact rejectedWith_of_tree htree

theorem rejectedWith_of_stray {stray : Stray} (h : Stacks.empty.run? (read s).tokens = some st)
    (hs : (read s).stray = some stray) :
    RejectedWith ("Unexpected character " ++ Text.quoted (String.singleton stray.char) ++
      " at position " ++ toString stray.position) s := by
  have htree : (read s).tree = .error (.strayCharacter stray) := by simp only [Reading.tree, h, hs]
  exact rejectedWith_of_tree htree

theorem tree_eq_finish (h : Stacks.empty.run? (read s).tokens = some st)
    (hs : (read s).stray = none) : (read s).tree = st.finish := by
  simp only [Reading.tree, h, hs]

theorem rejectedWith_of_opening {os : List Operator} {rest : List Pending}
    (h : Stacks.empty.run? (read s).tokens = some st) (hs : (read s).stray = none)
    (hpending : st.pending = os.map .operator ++ .opening :: rest) :
    RejectedWith ((if os = [] ∨ os.length < st.operands.length then "Unbalanced '(' in "
      else "Malformed expression ") ++ Text.quoted s) s := by
  have htree := tree_eq_finish h hs
  rw [Stacks.finish_of_opening hpending] at htree
  have hrejected := rejectedWith_of_tree htree
  by_cases hos : os = [] ∨ os.length < st.operands.length
  · rw [if_pos hos] at hrejected ⊢
    exact hrejected
  · rw [if_neg hos] at hrejected ⊢
    exact hrejected

theorem message_eq_of_balanced {message : String}
    (h : Stacks.empty.run? (read s).tokens = some st) (hs : (read s).stray = none)
    (hopen : st.pending.count .opening = 0) (hrejected : RejectedWith message s) :
    message = "Malformed expression " ++ Text.quoted s := by
  obtain ⟨err, herr, -, rfl⟩ := hrejected
  rw [parse_eq, tree_eq_finish h hs] at herr
  cases hfin : st.finish with
  | ok e =>
    rw [hfin] at herr
    cases herr
  | error cause =>
    rw [hfin] at herr
    cases herr
    rw [Stacks.finish_eq_error hopen hfin]
    rfl

end Rejected

/-- The outcome of every text. The parser returns a tree or an error that names the text. A token
that cannot be taken in is reported before anything that follows it, then a stray character, and
then what the stacks hold at the end. -/
theorem parse_outcome (s : String) :
    ((∃ e, parse s = .ok e) ∨ ∃ err, parse s = .error err ∧ err.source = s) ∧
    (Stacks.empty.Rejects (read s).tokens →
      RejectedWith ("Malformed expression " ++ Text.quoted s) s) ∧
    (¬ Stacks.empty.Rejects (read s).tokens →
      ∃ st, Stacks.empty.run? (read s).tokens = some st ∧
        (∀ stray, (read s).stray = some stray →
          RejectedWith ("Unexpected character " ++ Text.quoted (String.singleton stray.char) ++
            " at position " ++ toString stray.position) s) ∧
        ((read s).stray = none → 0 < nesting (read s).tokens →
          ∃ (os : List Operator) (rest : List Pending),
            st.pending = os.map .operator ++ .opening :: rest ∧
            RejectedWith ((if os = [] ∨ os.length < st.operands.length then "Unbalanced '(' in "
              else "Malformed expression ") ++ Text.quoted s) s) ∧
        ((read s).stray = none → ¬ 0 < nesting (read s).tokens → Balanced (read s).tokens ∧
          ∀ message, RejectedWith message s →
            message = "Malformed expression " ++ Text.quoted s)) := by
  refine ⟨?_, fun hrejects => ?_, fun htaken => ?_⟩
  · cases htree : (read s).tree with
    | ok e => exact Or.inl ⟨e, parse_eq_ok.mpr htree⟩
    | error cause =>
      obtain ⟨err, herr, hsource, -⟩ := rejectedWith_of_tree htree
      exact Or.inr ⟨err, herr, hsource⟩
  · exact rejectedWith_of_run? (Stacks.run?_eq_none_iff.mpr hrejects)
  · obtain ⟨st, hst⟩ := Option.ne_none_iff_exists'.mp (htaken ∘ Stacks.run?_eq_none_iff.mp)
    have hcount := Stacks.count_run? hst
    simp only [Stacks.empty, List.count_nil] at hcount
    refine ⟨st, hst, fun stray hs => rejectedWith_of_stray hst hs, fun hs hopen => ?_,
      fun hs hopen => ⟨Stacks.balanced_of_run? hst hopen, fun message hm => ?_⟩⟩
    · have hpos : 0 < st.pending.count .opening := by omega
      obtain ⟨os, rest, hpending⟩ := Pending.exists_innermost hpos
      exact ⟨os, rest, hpending, rejectedWith_of_opening hst hs hpending⟩
    · exact message_eq_of_balanced hst hs (by omega) hm

/-- A text for each message: a token before a stray character, a stray character, an open
parenthesis whose operator finds its operands and one whose operator does not, and two operands. -/
theorem parse_outcome_of_each_kind :
    ((read "1 ) $").stray = some ⟨'$', 4⟩ ∧
      RejectedWith ("Malformed expression " ++ Text.quoted "1 ) $") "1 ) $") ∧
    RejectedWith "Unexpected character '$' at position 2" "1 $" ∧
    RejectedWith "Unbalanced '(' in '(1+2'" "(1+2" ∧
    RejectedWith "Malformed expression '(1+'" "(1+" ∧
    RejectedWith "Malformed expression '1 2'" "1 2" := by
  refine ⟨?_, ?_, ?_, ?_, ?_⟩
  · have htokens : (read "1 ) $").tokens = [.number 1] ++ .closing :: [] := by decide +kernel
    have hrun : Stacks.empty.run? [.number 1] = some ⟨[.num 1], []⟩ := rfl
    have hstep : (Stacks.mk [.num 1] []).step? .closing = none := rfl
    have hstray : (read "1 ) $").stray = some ⟨'$', 4⟩ := by decide +kernel
    exact ⟨hstray, (parse_outcome "1 ) $").2.1 ⟨_, _, _, _, htokens, hrun, hstep⟩⟩
  · have htokens : (read "1 $").tokens = [.number 1] := by decide +kernel
    have hrun : Stacks.empty.run? (read "1 $").tokens = some ⟨[.num 1], []⟩ := by
      rw [htokens]
      rfl
    obtain ⟨-, -, hstray, -⟩ := (parse_outcome "1 $").2.2 (Stacks.not_rejects_of_run? hrun)
    have hmessage : "Unexpected character " ++ Text.quoted (String.singleton '$') ++
        " at position " ++ toString 2 = "Unexpected character '$' at position 2" := by
      decide +kernel
    rw [← hmessage]
    exact hstray ⟨'$', 2⟩ (by decide +kernel)
  · have htokens : (read "(1+2").tokens = [.opening, .number 1, .operator .add, .number 2] := by
      decide +kernel
    have hrun : Stacks.empty.run? (read "(1+2").tokens =
        some ⟨[.num 2, .num 1], [.operator .add, .opening]⟩ := by
      rw [htokens]
      rfl
    obtain ⟨st, hst, -, hopening, -⟩ := (parse_outcome "(1+2").2.2 (Stacks.not_rejects_of_run? hrun)
    obtain rfl := Option.some.inj (hrun.symm.trans hst)
    obtain ⟨os, rest, hpending, hrejected⟩ := hopening (by decide +kernel) (by decide +kernel)
    obtain rfl : [.add] = os := by
      rw [← Pending.released_innermost os rest, ← hpending]
      rfl
    have hmessage : "Unbalanced '(' in " ++ Text.quoted "(1+2" = "Unbalanced '(' in '(1+2'" := by
      decide +kernel
    rwa [if_pos (by decide), hmessage] at hrejected
  · have htokens : (read "(1+").tokens = [.opening, .number 1, .operator .add] := by
      decide +kernel
    have hrun : Stacks.empty.run? (read "(1+").tokens =
        some ⟨[.num 1], [.operator .add, .opening]⟩ := by
      rw [htokens]
      rfl
    obtain ⟨st, hst, -, hopening, -⟩ := (parse_outcome "(1+").2.2 (Stacks.not_rejects_of_run? hrun)
    obtain rfl := Option.some.inj (hrun.symm.trans hst)
    obtain ⟨os, rest, hpending, hrejected⟩ := hopening (by decide +kernel) (by decide +kernel)
    obtain rfl : [.add] = os := by
      rw [← Pending.released_innermost os rest, ← hpending]
      rfl
    have hmessage : "Malformed expression " ++ Text.quoted "(1+" =
        "Malformed expression '(1+'" := by decide +kernel
    rwa [if_neg (by decide), hmessage] at hrejected
  · have htokens : (read "1 2").tokens = [.number 1, .number 2] := by decide +kernel
    have hrun : Stacks.empty.run? (read "1 2").tokens = some ⟨[.num 2, .num 1], []⟩ := by
      rw [htokens]
      rfl
    obtain ⟨houtcome, -, htaken⟩ := parse_outcome "1 2"
    obtain ⟨-, -, -, -, hbalanced⟩ := htaken (Stacks.not_rejects_of_run? hrun)
    obtain ⟨-, honly⟩ := hbalanced (by decide +kernel) (by decide +kernel)
    have hmessage : "Malformed expression " ++ Text.quoted "1 2" =
        "Malformed expression '1 2'" := by decide +kernel
    rcases houtcome with ⟨e, he⟩ | ⟨err, herr, hsource⟩
    · have hnone : (parse "1 2").toOption = none := by decide +kernel
      rw [he] at hnone
      cases hnone
    · have hrejected : RejectedWith err.message "1 2" := ⟨err, herr, hsource, rfl⟩
      rwa [honly _ hrejected, hmessage] at hrejected

end Formula
