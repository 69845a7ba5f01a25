import Formula.Proofs.Dependence
import Formula.Proofs.FirstFault
import Formula.Proofs.NormalForm

/-!
# What is noted in the journal

An accepted text leaves one entry, which shows its tree, and a rejected one leaves none. An
evaluation notes something only at the node that makes it fail, so its journal is the entry of the
first node at fault, if that fault is noted (`Expr.journal_evaluateTraced`). The journal and the
outcome therefore always tell of the same name or symbol (`journal_of_outcome`).
-/

namespace Formula

theorem Traced.journal_bind {ε α β : Type} (x : Traced ε α) (f : α → Traced ε β) :
    (x >>= f).journal = match x.outcome with
      | .error _ => x.journal
      | .ok a => x.journal ++ (f a).journal := by
  simp only [bind]
  cases x.outcome <;> rfl

theorem journal_parseTraced (s : String) : (parseTraced s).journal = match parse s with
    | .error _ => []
    | .ok e => [⟨.parser, "parsed " ++ Text.quoted s ++ " as " ++ e.text⟩] := by
  rw [parse_eq, parseTraced]
  cases (read s).tree <;> rfl

namespace Expr

variable {b : Bindings} {a e : Expr} {f : Fault}

def note? (b : Bindings) (a : Expr) : Option Entry :=
  match a.rootFault? b with
  | some (.unbound n) =>
    some ⟨.expression,
      "unbound variable " ++ Text.quoted n ++ ", bound: " ++ Text.quotedList b.names⟩
  | some (.unknownOperator s) =>
    some ⟨.expression, "unknown operator " ++ Text.quoted s ++ " in " ++ a.record⟩
  | some .notAnExpression | some .tooLarge | none => none

def firstAtFault? (b : Bindings) (e : Expr) : Option Expr :=
  e.nodes.find? fun a => (a.rootFault? b).isSome

theorem firstAtFault?_eq_none_iff : e.firstAtFault? b = none ↔ ∃ x, e.evaluate b = .ok x := by
  rw [exists_evaluate_eq_ok_iff, faults_eq_filterMap, List.filterMap_eq_nil_iff, firstAtFault?,
    List.find?_eq_none]
  simp only [Option.not_isSome_iff_eq_none]

theorem firstAtFault?_bin (l r : Expr) {s : String} {o : Operator}
    (hs : Operator.ofText? s = some o) :
    (bin l s r).firstAtFault? b = (l.firstAtFault? b).or (r.firstAtFault? b) := by
  have hroot : (bin l s r).rootFault? b = none := by simp [rootFault?, hs]
  simp [firstAtFault?, nodes, hroot]

theorem note?_var (b : Bindings) (n : String) : (var n).note? b = match b.lookup n with
    | none => some ⟨.expression,
        "unbound variable " ++ Text.quoted n ++ ", bound: " ++ Text.quotedList b.names⟩
    | some _ => none := by
  rw [note?, rootFault?_var, Bindings.fault?]
  cases b.lookup n with
  | none => rfl
  | some q =>
    cases q with
    | float x => rfl
    | int k => by_cases hk : (Number.ofInt k).isInf = true <;> simp [hk]

theorem firstAtFault?_bind_note? (ha : a.nodes = [a]) :
    (a.firstAtFault? b).bind (note? b) = a.note? b := by
  rw [firstAtFault?, ha]
  cases hf : a.rootFault? b <;> simp [note?, hf]

/-- An evaluation leaves the entry of the first node at fault and nothing else. -/
theorem journal_evaluateTraced (b : Bindings) (e : Expr) :
    (e.evaluateTraced b).journal = ((e.firstAtFault? b).bind (note? b)).toList := by
  induction e with
  | num x | hole => rfl
  | var n =>
    rw [firstAtFault?_bind_note? rfl, note?_var, evaluateTraced]
    cases b.lookup n <;> rfl
  | bin l s r ihl ihr =>
    cases hs : Operator.ofText? s with
    | none =>
      have hroot : (bin l s r).rootFault? b = some (.unknownOperator s) := by
        rw [rootFault?, hs]
        rfl
      simp [evaluateTraced, firstAtFault?, nodes, hs, hroot, note?, Traced.failNoting]
    | some o =>
      have hl : (l.evaluateTraced b).outcome = l.evaluate b := rfl
      have hr : (r.evaluateTraced b).outcome = r.evaluate b := rfl
      rw [firstAtFault?_bin l r hs]
      simp only [evaluateTraced, hs, Traced.journal_bind, ihl, ihr, hl, hr]
      cases hx : l.evaluate b with
      | error f =>
        have hsome : (l.firstAtFault? b).isSome := by
          refine Option.isSome_iff_ne_none.mpr fun hnone => ?_
          obtain ⟨x, hok⟩ := firstAtFault?_eq_none_iff.mp hnone
          rw [hx] at hok
          cases hok
        rw [Option.or_of_isSome hsome]
      | ok x =>
        rw [firstAtFault?_eq_none_iff.mpr ⟨x, hx⟩]
        cases r.evaluate b with
        | error f => rfl
        | ok y => exact List.append_nil _

/-- What a failing evaluation leaves is the entry of the node that makes it fail. -/
theorem journal_of_error (h : e.evaluate b = .error f) : ∃ before a after,
    e.nodes = before ++ a :: after ∧ (∀ c ∈ before, c.rootFault? b = none) ∧
      a.rootFault? b = some f ∧ (e.evaluateTraced b).journal = (a.note? b).toList := by
  rw [evaluate_eq_error_iff, faults_eq_filterMap, List.head?_filterMap,
    List.findSome?_eq_some_iff] at h
  obtain ⟨before, a, after, hnodes, ha, hbefore⟩ := h
  have hfirst : e.firstAtFault? b = some a := by
    rw [firstAtFault?, List.find?_eq_some_iff_append]
    exact ⟨by simp [ha], before, after, hnodes, fun c hc => by simp [hbefore c hc]⟩
  exact ⟨before, a, after, hnodes, hbefore, ha, by
    rw [journal_evaluateTraced, hfirst, Option.bind_some]⟩

theorem eq_bin_of_rootFault? {s : String} (h : a.rootFault? b = some (.unknownOperator s)) :
    ∃ l r, a = bin l s r := by
  cases a with
  | num x | hole => cases h
  | var n =>
    rw [rootFault?_var] at h
    rcases Bindings.fault?_eq_some h with hf | hf <;> cases hf
  | bin l s' r =>
    rw [rootFault?, Option.ite_none_left_eq_some] at h
    cases h.2
    exact ⟨l, r, rfl⟩

end Expr

/-- A parse leaves one entry if it comes to a tree, with the text and the tree in it, and none if it
fails. An evaluation leaves none if it has a value, if a node is no expression, and if an integer is
too large. Otherwise it leaves one, which tells of the name or the symbol that the failure tells of:
with a name all names that are bound, in order and once each, and with a symbol the node that has
it, which is the first node at fault. -/
theorem journal_of_outcome (s : String) (e : Expr) (b : Bindings) :
    ((∀ t, parse s = .ok t → ∃ text, t.render = .ok text ∧ (parseTraced s).journal =
        [⟨.parser, "parsed " ++ Text.quoted s ++ " as " ++ text⟩]) ∧
      ∀ err, parse s = .error err → (parseTraced s).journal = []) ∧
    (∀ x, e.evaluate b = .ok x → (e.evaluateTraced b).journal = []) ∧
    (e.evaluate b = .error .notAnExpression → (e.evaluateTraced b).journal = []) ∧
    (e.evaluate b = .error .tooLarge → (e.evaluateTraced b).journal = []) ∧
    (∀ n, e.evaluate b = .error (.unbound n) → (e.evaluateTraced b).journal = [⟨.expression,
      "unbound variable " ++ Text.quoted n ++ ", bound: " ++ Text.quotedList b.names⟩]) ∧
    (b.names.Pairwise (· < ·) ∧ ∀ n, n ∈ b.names ↔ (b.lookup n).isSome) ∧
    ∀ symbol, e.evaluate b = .error (.unknownOperator symbol) → ∃ before l r after,
      e.nodes = before ++ .bin l symbol r :: after ∧ (∀ c ∈ before, c.rootFault? b = none) ∧
      (e.evaluateTraced b).journal = [⟨.expression,
        "unknown operator " ++ Text.quoted symbol ++ " in " ++ (Expr.bin l symbol r).record⟩] := by
  refine ⟨⟨fun t ht => ?_, fun err herr => ?_⟩, fun x hx => ?_, fun h => ?_, fun h => ?_,
    fun n h => ?_, ⟨Text.pairwise_sortedDistinct _, fun n => Bindings.mem_names⟩,
    fun symbol h => ?_⟩
  · refine ⟨t.text, Expr.render_of_isComplete (isComplete_tree (parse_eq_ok.mp ht)), ?_⟩
    rw [journal_parseTraced, ht]
  · rw [journal_parseTraced, herr]
  · rw [Expr.journal_evaluateTraced, Expr.firstAtFault?_eq_none_iff.mpr ⟨x, hx⟩]
    rfl
  · obtain ⟨-, a, -, -, -, ha, hjournal⟩ := Expr.journal_of_error h
    rw [hjournal, Expr.note?, ha]
    rfl
  · obtain ⟨-, a, -, -, -, ha, hjournal⟩ := Expr.journal_of_error h
    rw [hjournal, Expr.note?, ha]
    rfl
  · obtain ⟨-, a, -, -, -, ha, hjournal⟩ := Expr.journal_of_error h
    rw [hjournal, Expr.note?, ha]
    rfl
  · obtain ⟨before, a, after, hnodes, hbefore, ha, hjournal⟩ := Expr.journal_of_error h
    obtain ⟨l, r, rfl⟩ := Expr.eq_bin_of_rootFault? ha
    refine ⟨before, l, r, after, hnodes, hbefore, ?_⟩
    rw [hjournal, Expr.note?, ha]
    rfl

/-- Only the first fault is noted: a name without a value before two other faults, and a symbol
with the node that has it. -/
theorem journal_of_outcome_first_of_three :
    let b : Bindings := .ofList [("y", .float 1), ("x", .int 2)]
    let e : Expr := ((Expr.var "x").join .add (.var "z")).join .sub (.bin (.num 1) "%" .hole)
    let e' : Expr := (Expr.bin ((Expr.num 0.5).join .sub (.var "x")) "%" .hole).join .mul (.var "z")
    parse "1 x +" = .ok ((Expr.num 1).join .add (.var "x")) ∧
    (parseTraced "1 x +").journal = [⟨.parser, "parsed '1 x +' as (1 + x)"⟩] ∧
    e.evaluate b = .error (.unbound "z") ∧
    (e.evaluateTraced b).journal = [⟨.expression, "unbound variable 'z', bound: ['x', 'y']"⟩] ∧
    e'.evaluate b = .error (.unknownOperator "%") ∧
    (e'.evaluateTraced b).journal = [⟨.expression, "unknown operator '%' in Operator(" ++
      "left=Operator(left=Number(value=0.5), op='-', right=Variable(name='x')), op='%', " ++
      "right=namespace(kind=None))"⟩] := by
  intro b e e'
  have hparse : parse "1 x +" = .ok ((Expr.num 1).join .add (.var "x")) :=
    parse_eq_ok_of_toOption (by decide +kernel)
  have hrender : ((Expr.num 1).join .add (.var "x")).render = .ok "(1 + x)" := by decide +kernel
  have hunbound : e.evaluate b = .error (.unbound "z") := by decide +kernel
  have hunknown : e'.evaluate b = .error (.unknownOperator "%") := by decide +kernel
  obtain ⟨⟨haccepted, -⟩, -, -, -, hnamed, -⟩ := journal_of_outcome "1 x +" e b
  obtain ⟨text, htext, hjournal⟩ := haccepted _ hparse
  obtain rfl : "(1 + x)" = text := Except.ok.inj (hrender.symm.trans htext)
  refine ⟨hparse, hjournal.trans ?_, hunbound, (hnamed "z" hunbound).trans ?_, hunknown, ?_⟩
  · decide +kernel
  · decide +kernel
  · obtain ⟨-, -, -, -, -, -, hsymbol⟩ := journal_of_outcome "" e' b
    obtain ⟨before, l, r, after, hnodes, hbefore, hjournal⟩ := hsymbol "%" hunknown
    rcases before with - | ⟨c, - | ⟨d, before⟩⟩
    · obtain ⟨hroot, -⟩ := List.cons.inj hnodes
      obtain ⟨-, hop, -⟩ := Expr.bin.inj hroot
      exact absurd hop (by decide)
    · obtain ⟨-, hrest⟩ := List.cons.inj hnodes
      obtain ⟨hleft, -⟩ := List.cons.inj hrest
      obtain ⟨rfl, -, rfl⟩ := Expr.bin.inj hleft
      refine hjournal.trans ?_
      decide +kernel
    · obtain ⟨-, hrest⟩ := List.cons.inj hnodes
      obtain ⟨rfl, -⟩ := List.cons.inj hrest
      cases hbefore _ (List.mem_cons_of_mem c List.mem_cons_self)

end Formula
