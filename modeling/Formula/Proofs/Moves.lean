import Mathlib.Data.List.Basic
import Formula.Expr.Render
import Formula.Proofs.Settling

/-!
# Pushing and reducing

A stack of trees takes two kinds of moves: a tree is pushed, or an operator puts the join of the two
trees on top in their place. Here the moves are made in place, on a stack from the bottom up, so
that what a move leaves behind shows also when it fails, and a run goes on after that (`Move.run`).
A reduction fails on fewer than two trees, before it has touched them. The postorders of the trees
on the stack record the moves that succeeded: each of these adds its items at the end and leaves
those before them in place (`Move.stack_of_run`). The parser makes such runs: the tokens alone
tell the moves, and they are taken in only if none of these fails (`Stacks.run?_eq_some_iff_run`).
-/

namespace Formula

theorem eq_nil_or_singleton {es : List Expr} (h : es.length < 2) : es = [] ∨ ∃ e, es = [e] := by
  rcases es with - | ⟨e, - | ⟨e', es⟩⟩
  · exact .inl rfl
  · exact .inr ⟨e, rfl⟩
  · simp only [List.length_cons] at h
    omega

theorem exists_eq_append_pair {es : List Expr} (h : 2 ≤ es.length) :
    ∃ below l r, es = below ++ [l, r] := by
  have htop : (es.drop (es.length - 2)).length = 2 := by
    rw [List.length_drop]
    omega
  obtain ⟨l, r, hlr⟩ := List.length_eq_two.mp htop
  exact ⟨es.take (es.length - 2), l, r, by rw [← hlr, List.take_append_drop]⟩

namespace Operator

/-- Replaces the two trees on top of a stack by their join, in place. -/
def reduceInPlace (o : Operator) : EStateM Underflow (List Expr) Unit := do
  let es ← get
  match es.drop (es.length - 2) with
  | [l, r] => set (es.take (es.length - 2) ++ [l.join o r])
  | short => throw ⟨short.length⟩

variable (o : Operator)

theorem run_reduceInPlace_of_lt {es : List Expr} (h : es.length < 2) :
    o.reduceInPlace.run es = .error ⟨es.length⟩ es := by
  obtain rfl | ⟨e, rfl⟩ := eq_nil_or_singleton h
  · rfl
  · rfl

theorem run_reduceInPlace_append (es : List Expr) (l r : Expr) :
    o.reduceInPlace.run (es ++ [l, r]) = .ok () (es ++ [l.join o r]) := by
  have hlength : (es ++ [l, r]).length - 2 = es.length := by simp
  have htop : (es ++ [l, r]).drop es.length = [l, r] := List.drop_left
  have hbelow : (es ++ [l, r]).take es.length = es := List.take_left
  simp only [reduceInPlace, EStateM.run_bind, EStateM.run_get, hlength, htop, hbelow]
  rfl

theorem reduce_reverse_of_lt {es : List Expr} (h : es.length < 2) :
    o.reduce es.reverse = .error ⟨es.length⟩ := by
  obtain rfl | ⟨e, rfl⟩ := eq_nil_or_singleton h
  · rfl
  · rfl

theorem reduce_reverse_append (es : List Expr) (l r : Expr) :
    o.reduce (es ++ [l, r]).reverse = .ok (es ++ [l.join o r]).reverse := by
  simp [reduce]

end Operator

inductive Move where
  | push (e : Expr)
  | reduce (o : Operator)

namespace Move

/-- Makes a move in place, on a stack from the bottom up. -/
def make : Move → EStateM Underflow (List Expr) Unit
  | push e => modify (· ++ [e])
  | reduce o => o.reduceInPlace

def items : Move → List Expr.Item
  | push e => e.postorder
  | reduce o => [.operator o.text]

def isPush : Move → Bool
  | push _ => true
  | reduce _ => false

def isReduction (m : Move) : Bool := !m.isPush

/-- The moves of a run that succeeded, and the stack after all of its moves. -/
@[ext]
structure Run where
  made : List Move
  stack : List Expr

/-- Makes moves one after the other. A move that fails does not end the run. -/
def run : List Move → List Expr → Run
  | [], es => ⟨[], es⟩
  | m :: ms, es =>
    match m.make.run es with
    | .ok _ es' => ⟨m :: (run ms es').made, (run ms es').stack⟩
    | .error _ es' => run ms es'

variable {m : Move} {ms ms' : List Move} {es es' : List Expr}

/-- The ways a move can go. Only a reduction of fewer than two trees fails. -/
theorem make_cases (m : Move) (es : List Expr) :
    (∃ e, m = push e ∧ m.make.run es = .ok () (es ++ [e])) ∨
    (∃ o below l r, m = reduce o ∧ es = below ++ [l, r] ∧
      m.make.run es = .ok () (below ++ [l.join o r])) ∨
    (∃ o, m = reduce o ∧ es.length < 2 ∧ m.make.run es = .error ⟨es.length⟩ es) := by
  cases m with
  | push e => exact .inl ⟨e, rfl, rfl⟩
  | reduce o =>
    by_cases hes : es.length < 2
    · exact .inr (.inr ⟨o, rfl, hes, o.run_reduceInPlace_of_lt hes⟩)
    · obtain ⟨below, l, r, rfl⟩ := exists_eq_append_pair (Nat.le_of_not_lt hes)
      exact .inr (.inl ⟨o, below, l, r, rfl, rfl, o.run_reduceInPlace_append below l r⟩)

theorem make_eq_ok (h : m.make.run es = .ok () es') :
    (∃ e, m = push e ∧ es' = es ++ [e]) ∨
    ∃ o below l r, m = reduce o ∧ es = below ++ [l, r] ∧ es' = below ++ [l.join o r] := by
  obtain ⟨e, hm, hmake⟩ | ⟨o, below, l, r, hm, hes, hmake⟩ | ⟨o, -, -, hmake⟩ := make_cases m es
  · cases hmake.symm.trans h
    exact .inl ⟨e, hm, rfl⟩
  · cases hmake.symm.trans h
    exact .inr ⟨o, below, l, r, hm, hes, rfl⟩
  · cases hmake.symm.trans h

theorem make_eq_error {u : Underflow} (h : m.make.run es = .error u es') :
    m.isPush = false ∧ es' = es := by
  obtain ⟨e, -, hmake⟩ | ⟨o, below, l, r, -, -, hmake⟩ | ⟨o, rfl, -, hmake⟩ := make_cases m es
  · cases hmake.symm.trans h
  · cases hmake.symm.trans h
  · cases hmake.symm.trans h
    exact ⟨rfl, rfl⟩

theorem postorder_of_make (h : m.make.run es = .ok () es') :
    es'.flatMap Expr.postorder = es.flatMap Expr.postorder ++ m.items := by
  obtain ⟨e, rfl, rfl⟩ | ⟨o, below, l, r, rfl, rfl, rfl⟩ := make_eq_ok h
  · simp [items]
  · simp [items, Expr.postorder]

theorem length_of_make (h : m.make.run es = .ok () es') :
    es'.length + (if m.isReduction then 1 else 0) = es.length + if m.isPush then 1 else 0 := by
  obtain ⟨e, rfl, rfl⟩ | ⟨o, below, l, r, rfl, rfl, rfl⟩ := make_eq_ok h
  · simp [isReduction, isPush]
  · simp [isReduction, isPush]

theorem run_cons_of_ok (h : m.make.run es = .ok () es') (ms : List Move) :
    run (m :: ms) es = ⟨m :: (run ms es').made, (run ms es').stack⟩ := by
  rw [run, h]

theorem run_cons_of_error {u : Underflow} (h : m.make.run es = .error u es') (ms : List Move) :
    run (m :: ms) es = run ms es' := by
  rw [run, h]

theorem run_append (ms ms' : List Move) (es : List Expr) :
    run (ms ++ ms') es = ⟨(run ms es).made ++ (run ms' (run ms es).stack).made,
      (run ms' (run ms es).stack).stack⟩ := by
  induction ms generalizing es with
  | nil => rfl
  | cons m ms ih =>
    rw [List.cons_append]
    cases h : m.make.run es with
    | ok _ es' => rw [run_cons_of_ok h, run_cons_of_ok h, ih, List.cons_append]
    | error u es' => rw [run_cons_of_error h, run_cons_of_error h, ih]

theorem run_concat_of_ok (h : m.make.run (run ms es).stack = .ok () es') :
    run (ms ++ [m]) es = ⟨(run ms es).made ++ [m], es'⟩ := by
  rw [run_append, run_cons_of_ok h]
  rfl

theorem run_concat_of_error {u : Underflow} (h : m.make.run (run ms es).stack = .error u es') :
    run (ms ++ [m]) es = run ms es := by
  rw [run_append, run_cons_of_error h, (make_eq_error h).2]
  simp [run]

theorem postorder_run (ms : List Move) (es : List Expr) :
    (run ms es).stack.flatMap Expr.postorder =
      es.flatMap Expr.postorder ++ (run ms es).made.flatMap items := by
  induction ms generalizing es with
  | nil => simp [run]
  | cons m ms ih =>
    cases h : m.make.run es with
    | ok _ es' =>
      rw [run_cons_of_ok h, ih, postorder_of_make h, List.flatMap_cons, List.append_assoc]
    | error u es' => rw [run_cons_of_error h, ih, (make_eq_error h).2]

theorem length_run (ms : List Move) (es : List Expr) :
    (run ms es).stack.length + (run ms es).made.countP isReduction =
      es.length + ms.countP isPush := by
  induction ms generalizing es with
  | nil => rfl
  | cons m ms ih =>
    cases h : m.make.run es with
    | ok _ es' =>
      have hstep := length_of_make h
      have hrest := ih es'
      simp only [run_cons_of_ok h, List.countP_cons]
      omega
    | error u es' =>
      obtain ⟨hpush, rfl⟩ := make_eq_error h
      rw [run_cons_of_error h, ih, List.countP_cons_of_neg (by simp [hpush])]

/-- What a run of pushes and reductions leaves on a stack. A tree that is pushed next lies on top. A
reduction that comes next fails on fewer than two trees, with their number, and leaves the stack as
it is; on two or more it puts the join of the upper two in their place. The postorders on the stack
are those from before the run and then the items of the moves that succeeded, in their order, and
there are as many trees as before and pushed, less the reductions that succeeded. -/
theorem stack_of_run (ms : List Move) (es : List Expr) :
    let made := (run ms es).made
    let st := (run ms es).stack
    (∀ e, run (ms ++ [push e]) es = ⟨made ++ [push e], st ++ [e]⟩) ∧
    (∀ o, st.length < 2 →
      (reduce o).make.run st = .error ⟨st.length⟩ st ∧
      o.reduce st.reverse = .error ⟨st.length⟩ ∧
      run (ms ++ [reduce o]) es = ⟨made, st⟩) ∧
    (∀ o, 2 ≤ st.length → ∃ below l r, st = below ++ [l, r] ∧
      (reduce o).make.run st = .ok () (below ++ [l.join o r]) ∧
      o.reduce st.reverse = .ok (below ++ [l.join o r]).reverse ∧
      run (ms ++ [reduce o]) es = ⟨made ++ [reduce o], below ++ [l.join o r]⟩) ∧
    st.flatMap Expr.postorder = es.flatMap Expr.postorder ++ made.flatMap items ∧
    (st.length : Int) = es.length + ms.countP isPush - made.countP isReduction := by
  intro made st
  refine ⟨fun e => run_concat_of_ok rfl, fun o hst => ?_, fun o hst => ?_, postorder_run ms es, ?_⟩
  · have hmake : (reduce o).make.run st = .error ⟨st.length⟩ st := o.run_reduceInPlace_of_lt hst
    exact ⟨hmake, o.reduce_reverse_of_lt hst, run_concat_of_error hmake⟩
  · obtain ⟨below, l, r, hsplit⟩ := exists_eq_append_pair hst
    have hmake : (reduce o).make.run st = .ok () (below ++ [l.join o r]) :=
      hsplit ▸ o.run_reduceInPlace_append below l r
    have hreduce : o.reduce st.reverse = .ok (below ++ [l.join o r]).reverse :=
      hsplit ▸ o.reduce_reverse_append below l r
    exact ⟨below, l, r, hsplit, hmake, hreduce, run_concat_of_ok hmake⟩
  · have hlength : st.length + made.countP isReduction = es.length + ms.countP isPush :=
      length_run ms es
    omega

theorem stack_of_run_interleaved :
    let a := Expr.var "a"
    let b := Expr.var "b"
    let c := Expr.var "c"
    let ms : List Move := [reduce .add, push b, reduce .sub]
    let ms' : List Move := ms ++ [reduce .mul] ++ [push c]
    run ms [a] = ⟨[push b, reduce .sub], [a.join .sub b]⟩ ∧
    (reduce .mul).make.run [a.join .sub b] = .error ⟨1⟩ [a.join .sub b] ∧
    run (ms ++ [reduce .mul]) [a] = ⟨[push b, reduce .sub], [a.join .sub b]⟩ ∧
    run ms' [a] = ⟨[push b, reduce .sub, push c], [a.join .sub b, c]⟩ ∧
    run (ms' ++ [reduce .div]) [a] =
      ⟨[push b, reduce .sub, push c, reduce .div], [(a.join .sub b).join .div c]⟩ := by
  intro a b c ms ms'
  obtain ⟨-, hshort, -⟩ := stack_of_run ms [a]
  obtain ⟨hmake, -, hrun⟩ := hshort .mul (by decide)
  obtain ⟨-, -, hlong, -⟩ := stack_of_run ms' [a]
  obtain ⟨below, l, r, hsplit, -, -, hrun'⟩ := hlong .div (by decide)
  have hpair : [] ++ [a.join .sub b, c] = below ++ [l, r] := hsplit
  obtain ⟨rfl, hlr⟩ := List.append_inj' hpair rfl
  cases hlr
  exact ⟨rfl, hmake, hrun, rfl, hrun'⟩

theorem made_sublist (ms : List Move) (es : List Expr) : (run ms es).made.Sublist ms := by
  induction ms generalizing es with
  | nil => exact .slnil
  | cons m ms ih =>
    cases h : m.make.run es with
    | ok _ es' =>
      rw [run_cons_of_ok h]
      exact (ih es').cons_cons m
    | error u es' =>
      rw [run_cons_of_error h]
      exact (ih es').cons m

section Complete

variable {st : List Expr}

theorem run_cons_eq : run (m :: ms) es = ⟨m :: ms, st⟩ ↔
    ∃ es', m.make.run es = .ok () es' ∧ run ms es' = ⟨ms, st⟩ := by
  constructor
  · intro h
    cases hm : m.make.run es with
    | ok _ es' =>
      rw [run_cons_of_ok hm, Run.mk.injEq, List.cons.injEq] at h
      exact ⟨es', rfl, Run.ext h.1.2 h.2⟩
    | error u es' =>
      have hle := (made_sublist ms es').length_le
      rw [run_cons_of_error hm] at h
      rw [h, List.length_cons] at hle
      omega
  · rintro ⟨es', hm, hrun⟩
    rw [run_cons_of_ok hm, hrun]

theorem run_append_eq : run (ms ++ ms') es = ⟨ms ++ ms', st⟩ ↔
    ∃ es', run ms es = ⟨ms, es'⟩ ∧ run ms' es' = ⟨ms', st⟩ := by
  induction ms generalizing es with
  | nil => simp [run]
  | cons m ms ih =>
    simp only [List.cons_append, run_cons_eq, ih]
    constructor
    · rintro ⟨es₁, hm, es₂, hms, hms'⟩
      exact ⟨es₂, ⟨es₁, hm, hms⟩, hms'⟩
    · rintro ⟨es₂, ⟨es₁, hm, hms⟩, hms'⟩
      exact ⟨es₁, hm, es₂, hms, hms'⟩

theorem run_map_push (es es' : List Expr) : run (es'.map push) es = ⟨es'.map push, es ++ es'⟩ := by
  induction es' generalizing es with
  | nil => simp [run]
  | cons e es' ih =>
    rw [List.append_cons]
    exact run_cons_eq.mpr ⟨es ++ [e], rfl, ih (es ++ [e])⟩

theorem reduceAll_eq_ok_iff_run {os : List Operator} :
    reduceAll os es.reverse = .ok st.reverse ↔ run (os.map reduce) es = ⟨os.map reduce, st⟩ := by
  induction os generalizing es with
  | nil => simp [run]
  | cons o os ih =>
    rw [List.map_cons, run_cons_eq, reduceAll_cons_eq_ok]
    constructor
    · rintro ⟨l, r, rest, hes, hrest⟩
      obtain rfl : es = rest.reverse ++ [l, r] := by
        rw [← es.reverse_reverse, hes]
        simp
      refine ⟨_, o.run_reduceInPlace_append rest.reverse l r, ih.mp ?_⟩
      simpa using hrest
    · rintro ⟨es', hm, hrest⟩
      obtain ⟨e, hpush, -⟩ | ⟨o', below, l, r, ho, rfl, rfl⟩ := make_eq_ok hm
      · cases hpush
      · cases ho
        refine ⟨l, r, below.reverse, by simp, ?_⟩
        simpa using ih.mpr hrest

end Complete

end Move

/-- The moves that a token makes on the operands when `ps` waits. -/
def Token.moves (ps : List Pending) (t : Token) : List Move :=
  (Pending.reducedBy ps t).map .reduce ++ t.operand?.toList.map .push

def Pending.moves (ps : List Pending) : List Token → List Move
  | [] => []
  | t :: ts => t.moves ps ++ ((after? ps t).map (moves · ts)).getD []

namespace Stacks

variable {st st' : Stacks}

/-- A token is taken in if and only if what waits admits it and none of its moves fails. -/
theorem step?_eq_some_iff_run {t : Token} :
    st.step? t = some st' ↔ Pending.after? st.pending t = some st'.pending ∧
      Move.run (t.moves st.pending) st.operands.reverse =
        ⟨t.moves st.pending, st'.operands.reverse⟩ := by
  have hone : t.operand?.toList.reverse = t.operand?.toList := by
    cases t.operand? <;> rfl
  rw [step?_eq_some, Token.moves, Move.run_append_eq]
  constructor
  · rintro ⟨es, hred, hafter, hes⟩
    refine ⟨hafter, es.reverse, Move.reduceAll_eq_ok_iff_run.mp ?_, ?_⟩
    · rwa [List.reverse_reverse, List.reverse_reverse]
    · rw [Move.run_map_push, hes, List.reverse_append, hone]
  · rintro ⟨hafter, es, hred, hpush⟩
    rw [Move.run_map_push, Move.Run.mk.injEq] at hpush
    have hreduce := Move.reduceAll_eq_ok_iff_run.mpr hred
    rw [List.reverse_reverse] at hreduce
    refine ⟨es.reverse, hreduce, hafter, ?_⟩
    rw [← List.reverse_inj, ← hpush.2, List.reverse_append, List.reverse_reverse, hone]

/-- A run of the parser comes apart into what waits, which the tokens alone decide, and moves of the
operands, none of which may fail. -/
theorem run?_eq_some_iff_run {ts : List Token} :
    st.run? ts = some st' ↔ ts.foldlM Pending.after? st.pending = some st'.pending ∧
      Move.run (Pending.moves st.pending ts) st.operands.reverse =
        ⟨Pending.moves st.pending ts, st'.operands.reverse⟩ := by
  induction ts generalizing st with
  | nil =>
    obtain ⟨es, ps⟩ := st
    obtain ⟨es', ps'⟩ := st'
    simp [run?, Pending.moves, Move.run, and_comm]
  | cons t ts ih =>
    rw [run?_cons_eq_some, List.foldlM_cons, Pending.moves]
    constructor
    · rintro ⟨st₁, hstep, hrun⟩
      obtain ⟨hafter, hmoves⟩ := step?_eq_some_iff_run.mp hstep
      obtain ⟨hfold, hrest⟩ := ih.mp hrun
      rw [hafter]
      exact ⟨hfold, Move.run_append_eq.mpr ⟨_, hmoves, hrest⟩⟩
    · rintro ⟨hfold, hrun⟩
      obtain ⟨ps, hafter, hfold⟩ := Option.bind_eq_some_iff.mp hfold
      rw [hafter] at hrun
      obtain ⟨es, hmoves, hrest⟩ := Move.run_append_eq.mp hrun
      refine ⟨⟨es.reverse, ps⟩, step?_eq_some_iff_run.mpr ⟨hafter, ?_⟩, ih.mpr ⟨hfold, ?_⟩⟩
      · rwa [List.reverse_reverse]
      · rwa [List.reverse_reverse]

end Stacks

end Formula
