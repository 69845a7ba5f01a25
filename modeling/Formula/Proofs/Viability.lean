import Formula.Proofs.Acceptance
import Formula.Proofs.Scanning

/-!
# Which texts can be completed

A text that the parser has taken in without error can be completed, whatever is on the stacks. What
counts is the surplus of the operands over the operators that wait (`Stacks.surplus`): as long as it
is positive, every reduction finds its operands, and only operands and operators change it. So
operands are added until there is a surplus, then every open parenthesis is closed, and in the end
operators take the surplus away (`exists_completion`). A text that was not taken in cannot be
completed, because more text adds tokens at its end alone.
-/

namespace Formula

def Token.gain (t : Token) : Int := [t].countP isOperand - [t].countP isOperator

namespace Pending

def isOperator : Pending → Bool
  | operator _ => true
  | opening => false

variable {ps ps' : List Pending} {t : Token}

theorem length_released (due : Operator → Bool) (ps : List Pending) :
    (released due ps).length + (kept due ps).countP isOperator = ps.countP isOperator := by
  induction ps with
  | nil => rfl
  | cons p ps ih =>
    cases p with
    | opening => simp [isOperator]
    | operator o =>
      rw [released, kept, List.countP_cons_of_pos rfl]
      by_cases ho : due o
      · rw [if_pos ho, if_pos ho, List.length_cons]
        omega
      · rw [if_neg ho, if_neg ho, List.countP_cons_of_pos rfl, List.length_nil]
        omega

theorem length_reducedBy_le (ps : List Pending) (t : Token) :
    (reducedBy ps t).length ≤ ps.countP isOperator := by
  have hreleased (due : Operator → Bool) : (released due ps).length ≤ ps.countP isOperator := by
    have hlength := length_released due ps
    omega
  cases t with
  | operator o => exact hreleased _
  | closing => exact hreleased _
  | number x | name n | opening => exact Nat.zero_le _

theorem length_reducedBy (h : after? ps t = some ps') :
    (reducedBy ps t).length + ps'.countP isOperator =
      ps.countP isOperator + [t].countP Token.isOperator := by
  cases t with
  | number x | name n =>
    cases h
    simp [reducedBy, Token.isOperator]
  | opening =>
    cases h
    simp [reducedBy, isOperator, Token.isOperator]
  | operator o =>
    cases h
    have hlength := length_released (·.leftFirst o) ps
    simp only [reducedBy, List.countP_cons_of_pos (rfl : isOperator (.operator o) = true),
      List.countP_cons_of_pos (rfl : Token.isOperator (.operator o) = true), List.countP_nil]
    omega
  | closing =>
    have hlength := length_released (fun _ => true) ps
    simp only [after?] at h
    split at h
    · rename_i ps'' hkept
      cases h
      rw [hkept] at hlength
      exact hlength
    · cases h

end Pending

namespace Stacks

/-- How many more operands there are than operators that wait. -/
def surplus (st : Stacks) : Int := st.operands.length - st.pending.countP Pending.isOperator

variable {st st' : Stacks} {t : Token}

theorem surplus_step? (h : st.step? t = some st') : st'.surplus = st.surplus + t.gain := by
  obtain ⟨es, hred, hafter, hes⟩ := step?_eq_some.mp h
  have hlength := length_reduceAll hred
  have hpending := Pending.length_reducedBy hafter
  have hoperands : st'.operands.length = [t].countP Token.isOperand + es.length := by
    rw [hes, List.length_append, length_operand?]
  unfold surplus Token.gain
  omega

/-- With a surplus every reduction finds its operands. -/
theorem exists_step? {ps : List Pending} (hst : 1 ≤ st.surplus)
    (hafter : Pending.after? st.pending t = some ps) :
    ∃ st', st.step? t = some st' ∧ st'.pending = ps := by
  have hle := Pending.length_reducedBy_le st.pending t
  have hlt : (Pending.reducedBy st.pending t).length < st.operands.length := by
    unfold surplus at hst
    omega
  obtain ⟨es, hred⟩ := exists_reduceAll_iff.mpr (Or.inr hlt)
  exact ⟨⟨t.operand?.toList ++ es, ps⟩, step?_eq_some.mpr ⟨es, hred, hafter, rfl⟩, rfl⟩

theorem exists_finish (hst : st.surplus = 1) (hopen : st.pending.count .opening = 0) :
    ∃ e, st.finish = .ok e := by
  have hkept := Pending.kept_eq_nil_iff.mpr hopen
  have hlength := Pending.length_released (fun _ => true) st.pending
  rw [hkept, List.countP_nil, Nat.add_zero] at hlength
  unfold surplus at hst
  have hlt : (Pending.released (fun _ => true) st.pending).length < st.operands.length := by omega
  obtain ⟨es, hred⟩ := exists_reduceAll_iff.mpr (Or.inr hlt)
  have hone := length_reduceAll hred
  obtain ⟨e, rfl⟩ : ∃ e, es = [e] := List.length_eq_one_iff.mp (by omega)
  exact ⟨e, finish_eq_ok.mpr ⟨hkept, hred⟩⟩

/-- A token that can always be taken in while something is counted down to zero. -/
theorem exists_run?_replicate {P : Nat → Stacks → Prop}
    (hstep : ∀ n st, P (n + 1) st → ∃ st', st.step? t = some st' ∧ P n st') (n : Nat) :
    ∀ st, P n st → ∃ st', st.run? (List.replicate n t) = some st' ∧ P 0 st' := by
  induction n with
  | zero => exact fun st hst => ⟨st, rfl, hst⟩
  | succ n ih =>
    intro st hst
    obtain ⟨st₁, ht, hst₁⟩ := hstep n st hst
    obtain ⟨st', hrun, hst'⟩ := ih st₁ hst₁
    exact ⟨st', run?_cons_eq_some.mpr ⟨st₁, ht, hrun⟩, hst'⟩

theorem exists_run?_names (x : String) (st : Stacks) :
    ∃ n st', st.run? (List.replicate n (.name x)) = some st' ∧ 1 ≤ st'.surplus := by
  have hstep (n : Nat) (st : Stacks) (hst : 1 ≤ st.surplus + (n + 1 : Nat)) :
      ∃ st', st.step? (.name x) = some st' ∧ 1 ≤ st'.surplus + n := by
    have hpush : st.step? (.name x) = some (st.push (.var x)) := rfl
    have hsurplus : (st.push (.var x)).surplus = st.surplus + 1 := surplus_step? hpush
    exact ⟨st.push (.var x), hpush, by omega⟩
  obtain ⟨st', hrun, hst'⟩ := exists_run?_replicate (P := fun n st => 1 ≤ st.surplus + n) hstep
    (1 - st.surplus).toNat st (by omega)
  exact ⟨_, st', hrun, by simpa using hst'⟩

theorem exists_step?_closing (hst : 1 ≤ st.surplus) (hopen : 0 < st.pending.count .opening) :
    ∃ st', st.step? .closing = some st' ∧ st'.surplus = st.surplus ∧
      st'.pending.count .opening + 1 = st.pending.count .opening := by
  have hafter : Pending.after? st.pending .closing ≠ none := by
    intro hnone
    rw [Pending.after?_closing_eq_none] at hnone
    omega
  obtain ⟨ps, hps⟩ := Option.ne_none_iff_exists'.mp hafter
  obtain ⟨st', ht, rfl⟩ := exists_step? hst hps
  have hsurplus : st'.surplus = st.surplus + 0 := surplus_step? ht
  have hcount : (st'.pending.count .opening : Int) = st.pending.count .opening + -1 :=
    Pending.count_after? hps
  exact ⟨st', ht, by omega, by omega⟩

theorem exists_run?_closings (st : Stacks) (hst : 1 ≤ st.surplus) :
    ∃ n st', st.run? (List.replicate n .closing) = some st' ∧ 1 ≤ st'.surplus ∧
      st'.pending.count .opening = 0 := by
  have hstep (n : Nat) (st : Stacks) (hst : 1 ≤ st.surplus ∧ st.pending.count .opening = n + 1) :
      ∃ st', st.step? .closing = some st' ∧ 1 ≤ st'.surplus ∧ st'.pending.count .opening = n := by
    obtain ⟨hsurplus, hopen⟩ := hst
    obtain ⟨st', ht, hsurplus', hopen'⟩ := exists_step?_closing hsurplus (by omega)
    exact ⟨st', ht, by omega, by omega⟩
  obtain ⟨st', hrun, hst'⟩ := exists_run?_replicate
    (P := fun n st => 1 ≤ st.surplus ∧ st.pending.count .opening = n) hstep _ st ⟨hst, rfl⟩
  exact ⟨_, st', hrun, hst'⟩

theorem exists_step?_operator (o : Operator) (hst : 1 ≤ st.surplus) :
    ∃ st', st.step? (.operator o) = some st' ∧ st'.surplus + 1 = st.surplus ∧
      st'.pending.count .opening = st.pending.count .opening := by
  have hafter : Pending.after? st.pending (.operator o) =
      some (.operator o :: Pending.kept (·.leftFirst o) st.pending) := rfl
  obtain ⟨st', ht, hpending⟩ := exists_step? hst hafter
  have hsurplus : st'.surplus = st.surplus + -1 := surplus_step? ht
  refine ⟨st', ht, by omega, ?_⟩
  rw [hpending, List.count_cons_of_ne (by simp), Pending.count_kept]

theorem exists_run?_operators (o : Operator) (st : Stacks) (hst : 1 ≤ st.surplus)
    (hopen : st.pending.count .opening = 0) :
    ∃ n st', st.run? (List.replicate n (.operator o)) = some st' ∧ st'.surplus = 1 ∧
      st'.pending.count .opening = 0 := by
  have hstep (n : Nat) (st : Stacks)
      (hst : st.surplus = (n + 1 : Nat) + 1 ∧ st.pending.count .opening = 0) :
      ∃ st', st.step? (.operator o) = some st' ∧ st'.surplus = n + 1 ∧
        st'.pending.count .opening = 0 := by
    obtain ⟨hsurplus, hopen⟩ := hst
    have hpos : 1 ≤ st.surplus := by omega
    obtain ⟨st', ht, hsurplus', hopen'⟩ := exists_step?_operator o hpos
    exact ⟨st', ht, by omega, by omega⟩
  obtain ⟨st', hrun, hst'⟩ := exists_run?_replicate
    (P := fun n st => st.surplus = n + 1 ∧ st.pending.count .opening = 0) hstep
    (st.surplus - 1).toNat st ⟨by omega, hopen⟩
  exact ⟨_, st', hrun, hst'⟩

end Stacks

def completion (i j k : Nat) : List Lexeme :=
  List.replicate i (.name ['x']) ++ List.replicate j .closing ++ List.replicate k (.operator .add)

theorem valid_of_mem_completion {i j k : Nat} {l : Lexeme} (hl : l ∈ completion i j k) :
    l.Valid := by
  simp only [completion, List.mem_append, List.mem_replicate] at hl
  rcases hl with (⟨-, rfl⟩ | ⟨-, rfl⟩) | ⟨-, rfl⟩
  · exact (by decide : Text.isName ['x'] = true)
  · trivial
  · trivial

theorem map_token_completion (i j k : Nat) : (completion i j k).map Lexeme.token =
    List.replicate i (.name "x") ++ List.replicate j .closing ++
      List.replicate k (.operator .add) := by
  simp [completion, Lexeme.token]

/-- From any stacks the parser comes to a tree. -/
theorem exists_completion (st : Stacks) : ∃ i j k st' e,
    st.run? ((completion i j k).map Lexeme.token) = some st' ∧ st'.finish = .ok e := by
  obtain ⟨i, st₁, hnames, hst₁⟩ := st.exists_run?_names "x"
  obtain ⟨j, st₂, hclosings, hst₂, hopen₂⟩ := st₁.exists_run?_closings hst₁
  obtain ⟨k, st', hoperators, hst', hopen⟩ := st₂.exists_run?_operators .add hst₂ hopen₂
  obtain ⟨e, hfin⟩ := Stacks.exists_finish hst' hopen
  refine ⟨i, j, k, st', e, ?_, hfin⟩
  rw [map_token_completion, Stacks.run?_append, Stacks.run?_append, hnames, Option.bind_some,
    hclosings, Option.bind_some, hoperators]

def spaced (ls : List Lexeme) : List Char := ls.flatMap fun l => l.text ++ [' ']

theorem scans_spaced {ls : List Lexeme} (hls : ∀ l ∈ ls, l.Valid) :
    Scans (spaced ls) (ls.map Lexeme.token) := by
  induction ls with
  | nil => exact scans_nil
  | cons l ls ih =>
    obtain ⟨hl, hls⟩ := List.forall_mem_cons.mp hls
    have hscans := (ih hls).space.lexeme hl (.of_ends delimits_space.1)
    simpa [spaced] using hscans

/-- A text of lexemes can be completed to one that is accepted if and only if the parser has taken
in all its tokens. -/
theorem run?_tokens_eq_none_iff {s : String} (hs : (read s).stray = none) :
    Stacks.empty.run? (read s).tokens = none ↔ ¬ ∃ t e, parse (s ++ " " ++ t) = .ok e := by
  have htext (t : String) : (s ++ " " ++ t).toList = s.toList ++ ' ' :: t.toList := by simp
  constructor
  · rintro hnone ⟨t, e, hparse⟩
    obtain ⟨-, st, hrun, -⟩ := Reading.tree_eq_ok.mp (parse_eq_ok.mp hparse)
    rw [read_eq] at hs hnone hrun
    rw [htext, (readFrom_append hs delimits_space).1, Stacks.run?_append, hnone] at hrun
    cases hrun
  · intro hdead
    refine Option.eq_none_iff_forall_ne_some.mpr fun st hst => hdead ?_
    obtain ⟨i, j, k, st', e, hrun, hfin⟩ := exists_completion st
    let t := String.ofList (spaced (completion i j k))
    have ht : Scans t.toList ((completion i j k).map Lexeme.token) := by
      rw [String.toList_ofList]
      exact scans_spaced fun l => valid_of_mem_completion
    have hwhole := (scans_iff_read.mpr ⟨hs, rfl⟩).append delimits_space ht.space
    rw [← htext] at hwhole
    refine ⟨t, e, hwhole.parse_eq_ok ?_ hfin⟩
    rw [Stacks.run?_append, hst, Option.bind_some, hrun]

theorem run?_tokens_eq_none_iff_product_first :
    (¬ ∃ t e, parse ("2 * + 1" ++ " " ++ t) = .ok e) ∧
      ∃ t e, parse ("(+ 2 *" ++ " " ++ t) = .ok e := by
  have hdead : Stacks.empty.run? (read "2 * + 1").tokens = none := by decide +kernel
  have hopen : Stacks.empty.run? (read "(+ 2 *").tokens ≠ none := by decide +kernel
  refine ⟨(run?_tokens_eq_none_iff (by decide +kernel)).mp hdead, ?_⟩
  by_contra hnot
  exact hopen ((run?_tokens_eq_none_iff (by decide +kernel)).mpr hnot)

end Formula
