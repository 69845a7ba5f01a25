import Formula.Expr.Reciprocal
import Formula.Proofs.Dependence
import Formula.Proofs.Division
import Formula.Proofs.Graft
import Formula.Proofs.RoundTrip

/-!
# What the reciprocal of a tree stands for

A reciprocal is formed in one of three ways (`Expr.reciprocal_cases`): a number is divided at once,
the sides of a quotient change places, and any other tree is put under one. So it has the variables
of the tree, and a value if and only if the tree has one (`Expr.evaluate_reciprocal`). The fault
that is reported differs for quotients alone, whose sides are evaluated in the other order. A second
reciprocal takes back what the first one did, since a quotient by one is exact, and only a number is
rounded for good (`Expr.evaluate_reciprocal_reciprocal`). A text can be inverted in the same ways,
with parentheses around what is moved, and is then parsed as the reciprocal (`reciprocal_parse`).
-/

namespace Formula

namespace Expr

variable {e l r : Expr} {b : Bindings}

theorem isComplete_join {o : Operator} :
    (l.join o r).isComplete = true ↔ l.isComplete = true ∧ r.isComplete = true :=
  Bool.and_eq_true_iff

theorem reciprocal_quotient (h : (l.join .div r).isComplete = true) :
    (l.join .div r).reciprocal = .ok (r.join .div l) := by
  obtain ⟨hl, hr⟩ := isComplete_join.mp h
  rw [reciprocal, if_pos rfl, clone_of_isComplete hl, clone_of_isComplete hr]
  rfl

theorem reciprocal_of_ne (h : e.isComplete = true) (hnum : ∀ x, e ≠ num x)
    (hdiv : ∀ l r : Expr, e ≠ l.join .div r) : e.reciprocal = .ok ((num 1).join .div e) := by
  have hone : e.oneOver = .ok ((num 1).join .div e) := by
    rw [oneOver, clone_of_isComplete h]
    rfl
  cases e with
  | num x => exact absurd rfl (hnum x)
  | var n | hole => exact hone
  | bin l s r =>
    have hs : s ≠ Operator.div.text := by
      rintro rfl
      exact hdiv l r rfl
    rw [reciprocal, if_neg hs]
    exact hone

/-- The three ways in which a reciprocal is formed. -/
theorem reciprocal_cases (h : e.isComplete = true) :
    (∃ x, e = num x ∧ e.reciprocal = .ok (num (Operator.div.apply 1 x))) ∨
    (∃ l r : Expr, e = l.join .div r ∧ e.reciprocal = .ok (r.join .div l)) ∨
    (∀ x, e ≠ num x) ∧ (∀ l r : Expr, e ≠ l.join .div r) ∧
      e.reciprocal = .ok ((num 1).join .div e) := by
  by_cases hnum : ∃ x, e = num x
  · obtain ⟨x, rfl⟩ := hnum
    exact Or.inl ⟨x, rfl, rfl⟩
  · by_cases hdiv : ∃ l r : Expr, e = l.join .div r
    · obtain ⟨l, r, rfl⟩ := hdiv
      exact Or.inr (Or.inl ⟨l, r, rfl, reciprocal_quotient h⟩)
    · simp only [not_exists] at hnum hdiv
      exact Or.inr (Or.inr ⟨hnum, hdiv, reciprocal_of_ne h hnum hdiv⟩)

theorem evaluate_join (o : Operator) (l r : Expr) (b : Bindings) : (l.join o r).evaluate b =
    l.evaluate b >>= fun x => r.evaluate b >>= fun y => .ok (o.apply x y) := by
  rw [evaluate_bin, Operator.ofText?_text]

theorem evaluate_join_of_left_error {f : Fault} (hl : l.evaluate b = .error f) (o : Operator)
    (r : Expr) : (l.join o r).evaluate b = .error f := by
  rw [evaluate_join, hl]
  rfl

theorem evaluate_join_of_left {x : Float} (hl : l.evaluate b = .ok x) (o : Operator) (r : Expr) :
    (l.join o r).evaluate b = (r.evaluate b).map (o.apply x) := by
  rw [evaluate_join, hl]
  cases r.evaluate b <;> rfl

theorem evaluate_join_of_right {y : Float} (hr : r.evaluate b = .ok y) (o : Operator) (l : Expr) :
    (l.join o r).evaluate b = (l.evaluate b).map (o.apply · y) := by
  rw [evaluate_join, hr]
  cases l.evaluate b <;> rfl

theorem evaluate_over_one (e : Expr) (b : Bindings) :
    (e.join .div (num 1)).evaluate b = e.evaluate b := by
  rw [evaluate_join_of_right (evaluate_num b 1)]
  cases e.evaluate b with
  | error f => rfl
  | ok x => exact congrArg Except.ok (Number.div_one x)

/-- The reciprocal of the reciprocal of a tree that is no number has the same outcome as the tree
for all bindings, and its own reciprocal is the first one again. -/
theorem evaluate_reciprocal_reciprocal (h : e.isComplete = true) (hnum : ∀ x, e ≠ num x) :
    ∃ e₁ e₂, e.reciprocal = .ok e₁ ∧ e₁.reciprocal = .ok e₂ ∧ e₂.reciprocal = .ok e₁ ∧
      ∀ b, e₂.evaluate b = e.evaluate b := by
  rcases reciprocal_cases h with ⟨x, rfl, -⟩ | ⟨l, r, rfl, hrec⟩ | ⟨-, -, hrec⟩
  · exact absurd rfl (hnum x)
  · have hback := reciprocal_quotient (isComplete_join.mpr (isComplete_join.mp h).symm)
    exact ⟨_, _, hrec, hback, hrec, fun b => rfl⟩
  · have hone : ((num 1).join .div e).isComplete = true := isComplete_join.mpr ⟨rfl, h⟩
    have hover : (e.join .div (num 1)).isComplete = true := isComplete_join.mpr ⟨h, rfl⟩
    exact ⟨_, _, hrec, reciprocal_quotient hone, reciprocal_quotient hover, evaluate_over_one e⟩

theorem evaluate_reciprocal_reciprocal_of_product :
    let e := (var "x").join .mul (num 0)
    e.isComplete = true ∧ (∀ x, e ≠ num x) ∧
    ∃ e₁ e₂, e.reciprocal = .ok e₁ ∧ e₁.reciprocal = .ok e₂ ∧ e₂.reciprocal = .ok e₁ ∧
      e₂.evaluate (Bindings.empty.bind "x" (.float (-1))) = .ok (-0.0) ∧
      e₂.evaluate .empty = .error (.unbound "x") := by
  intro e
  have he : e.isComplete = true := rfl
  have hnum : ∀ x, e ≠ num x := nofun
  obtain ⟨e₁, e₂, h₁, h₂, h₃, hvalue⟩ := evaluate_reciprocal_reciprocal he hnum
  exact ⟨he, hnum, e₁, e₂, h₁, h₂, h₃, (hvalue _).trans (by decide +kernel), hvalue _⟩

theorem variableNames_congr (hl : l.isComplete = true) (hr : r.isComplete = true)
    (h : ∀ n, n ∈ l.names ↔ n ∈ r.names) : l.variableNames = r.variableNames := by
  rw [variableNames_of_isComplete hl, variableNames_of_isComplete hr, Text.sortedDistinct_congr h]

theorem exists_evaluate_join {o : Operator} : (∃ v, (l.join o r).evaluate b = .ok v) ↔
    (∃ x, l.evaluate b = .ok x) ∧ ∃ y, r.evaluate b = .ok y := by
  rw [exists_evaluate_eq_ok_iff, exists_evaluate_eq_ok_iff, exists_evaluate_eq_ok_iff, faults,
    Operator.ofText?_text, List.append_eq_nil_iff, List.append_eq_nil_iff]
  exact and_iff_right rfl

theorem exists_evaluate_exchanged {o : Operator} {x : Float}
    (h : (l.join o r).evaluate b = .ok x) :
    ∃ y z, l.evaluate b = .ok y ∧ r.evaluate b = .ok z ∧
      (r.join o l).evaluate b = .ok (o.apply z y) := by
  obtain ⟨⟨y, hy⟩, z, hz⟩ := exists_evaluate_join.mp ⟨x, h⟩
  refine ⟨y, z, hy, hz, ?_⟩
  rw [evaluate_join_of_left hz, hy]
  rfl

/-- The order of the sides decides which fault is reported only if both sides are at fault. -/
theorem evaluate_exchanged_eq_error {o : Operator} {z : Float} (hr : r.evaluate b = .ok z)
    (f : Fault) :
    (r.join o l).evaluate b = .error f ↔ (l.join o r).evaluate b = .error f := by
  rw [evaluate_join_of_left hr, evaluate_join_of_right hr]
  cases l.evaluate b <;> simp [Except.map]

theorem evaluate_reciprocal_of_ne (h : e.isComplete = true)
    (hdiv : ∀ l r : Expr, e ≠ l.join .div r) :
    ∃ e', e.reciprocal = .ok e' ∧ e'.variableNames = e.variableNames ∧
      ∀ b : Bindings, e'.evaluate b = (e.evaluate b).map (Operator.div.apply 1) := by
  rcases reciprocal_cases h with ⟨x, rfl, hrec⟩ | ⟨l, r, rfl, -⟩ | ⟨-, -, hrec⟩
  · exact ⟨_, hrec, rfl, fun b => rfl⟩
  · exact absurd rfl (hdiv l r)
  · have hone : ((num 1).join .div e).isComplete = true := isComplete_join.mpr ⟨rfl, h⟩
    refine ⟨_, hrec, variableNames_congr hone h fun n => Iff.rfl, fun b => ?_⟩
    exact evaluate_join_of_left (evaluate_num b 1) .div e

/-- A reciprocal has the variables of its tree, and a value if and only if the tree has one. It
fails as its tree does, but the right side of a quotient is the first to be evaluated. -/
theorem evaluate_reciprocal (h : e.isComplete = true) :
    ∃ e' ns, e.reciprocal = .ok e' ∧ e.variableNames = .ok ns ∧ e'.variableNames = .ok ns ∧
    ∀ b : Bindings,
      ((∃ y, e'.evaluate b = .ok y) ↔ ∃ x, e.evaluate b = .ok x) ∧
      ((∀ l r : Expr, e ≠ l.join .div r) →
        e'.evaluate b = (e.evaluate b).map (Operator.div.apply 1)) ∧
      ∀ l r : Expr, e = l.join .div r →
        (∀ x, e.evaluate b = .ok x → ∃ y z, l.evaluate b = .ok y ∧ r.evaluate b = .ok z ∧
          e'.evaluate b = .ok (Operator.div.apply z y)) ∧
        (∀ f, r.evaluate b = .error f → e'.evaluate b = .error f) ∧
        ∀ z, r.evaluate b = .ok z → ∀ f, e'.evaluate b = .error f ↔ e.evaluate b = .error f := by
  have hns := variableNames_of_isComplete h
  by_cases hdiv : ∃ l r : Expr, e = l.join .div r
  · obtain ⟨l, r, rfl⟩ := hdiv
    have h' : (r.join .div l).isComplete = true := isComplete_join.mpr (isComplete_join.mp h).symm
    have hnames := variableNames_congr h' h fun n => by
      simp only [names, List.mem_append, or_comm]
    refine ⟨_, _, reciprocal_quotient h, hns, hnames.trans hns, fun b => ⟨?_, ?_, ?_⟩⟩
    · rw [exists_evaluate_join, exists_evaluate_join, and_comm]
    · exact fun hne => absurd rfl (hne l r)
    · intro l' r' heq
      obtain ⟨rfl, -, rfl⟩ := bin.inj heq
      exact ⟨fun x hx => exists_evaluate_exchanged hx,
        fun f hf => evaluate_join_of_left_error hf .div l,
        fun z hz f => evaluate_exchanged_eq_error hz f⟩
  · simp only [not_exists] at hdiv
    obtain ⟨e', hrec, hnames, hvalue⟩ := evaluate_reciprocal_of_ne h hdiv
    refine ⟨e', _, hrec, hns, hnames.trans hns, fun b => ⟨?_, fun _ => hvalue b, ?_⟩⟩
    · rw [hvalue]
      cases e.evaluate b <;> simp [Except.map]
    · exact fun l r heq => absurd heq (hdiv l r)

theorem evaluate_reciprocal_of_two_names :
    let e := (var "y").join .div (var "x")
    e.isComplete = true ∧ ∃ e', e.reciprocal = .ok e' ∧ e'.variableNames = .ok ["x", "y"] ∧
      e.evaluate .empty = .error (.unbound "y") ∧ e'.evaluate .empty = .error (.unbound "x") ∧
      e'.evaluate (.ofList [("x", .int 1), ("y", .float 4)]) = .ok 0.25 := by
  intro e
  have he : e.isComplete = true := rfl
  obtain ⟨e', ns, hrec, hns, hns', hvalue⟩ := evaluate_reciprocal he
  have hnames : e.variableNames = .ok ["x", "y"] := by decide +kernel
  have hfour : e.evaluate (.ofList [("x", .int 1), ("y", .float 4)]) = .ok 4 := by decide +kernel
  refine ⟨he, e', hrec, hns'.trans (hns.symm.trans hnames), rfl, ?_, ?_⟩
  · exact ((hvalue .empty).2.2 _ _ rfl).2.1 _ rfl
  · obtain ⟨y, z, hy, hz, hquotient⟩ := ((hvalue _).2.2 _ _ rfl).1 _ hfour
    obtain rfl : y = 4 := Except.ok.inj (hy.symm.trans (by decide +kernel))
    obtain rfl : z = 1 := Except.ok.inj (hz.symm.trans (by decide +kernel))
    exact hquotient.trans (by decide +kernel)

end Expr

section Text

variable {s s' : String} {e e' : Expr}

theorem parse_quotient (hs : parse s = .ok e) (hs' : parse s' = .ok e') :
    parse ("(" ++ s ++ ") / (" ++ s' ++ ")") = .ok (e.join .div e') := by
  have htext : ") / (" = ") " ++ Operator.div.text ++ " (" := by decide +kernel
  rw [htext, ← parse_join_groups hs hs' .div]
  simp only [String.append_assoc]

theorem parse_number_over_group {x : Float} (hx : Number.isUnsigned x = true)
    (hs : parse s = .ok e) :
    parse ((Expr.num x).text ++ " / (" ++ s ++ ")") = .ok ((Expr.num x).join .div e) := by
  have hright := (Scans.group (scans_of_parse hs) scans_nil).space
  have hsymbol := (Scans.symbol (Lexeme.ofSymbol?_symbol .div) hright).space
  have hscans := Scans.canonical hx (ends_cons (by decide) (by decide)) hsymbol
  have htext : ((Expr.num x).text ++ " / (" ++ s ++ ")").toList =
      Number.canonical x ++ ' ' :: Operator.div.symbol :: ' ' :: '(' :: (s.toList ++ [')']) := by
    simp [Expr.text, Operator.symbol]
  rw [← htext] at hscans
  let st : Stacks := ⟨[.num x], [.operator .div]⟩
  exact hscans.parse_eq_ok (Reading.run?_group (parse_eq_ok.mp hs) st) rfl

/-- The reciprocal of a tree that is parsed is what its text gives under one, in parentheses, and if
it is a quotient, what the texts of its sides give when they change places. -/
theorem reciprocal_parse (hs : parse s = .ok e) :
    (∀ s' e', parse s' = .ok e' → ∃ q q', parse ("(" ++ s ++ ") / (" ++ s' ++ ")") = .ok q ∧
      q.reciprocal = .ok q' ∧ parse ("(" ++ s' ++ ") / (" ++ s ++ ")") = .ok q') ∧
    ((∀ x, e ≠ .num x) → (∀ l r : Expr, e ≠ l.join .div r) →
      ∃ e', e.reciprocal = .ok e' ∧ parse ("1 / (" ++ s ++ ")") = .ok e') := by
  have hcomplete {s : String} {e : Expr} (hs : parse s = .ok e) : e.isComplete = true :=
    isComplete_tree (parse_eq_ok.mp hs)
  refine ⟨fun s' e' hs' => ?_, fun hnum hdiv => ?_⟩
  · have hjoin : (e.join .div e').isComplete = true :=
      Expr.isComplete_join.mpr ⟨hcomplete hs, hcomplete hs'⟩
    exact ⟨_, _, parse_quotient hs hs', Expr.reciprocal_quotient hjoin, parse_quotient hs' hs⟩
  · have hone : (Expr.num 1).text = "1" := by decide +kernel
    have hparse := parse_number_over_group (x := 1) (by decide +kernel) hs
    rw [hone] at hparse
    exact ⟨_, Expr.reciprocal_of_ne (hcomplete hs) hnum hdiv, hparse⟩

theorem reciprocal_parse_postfix :
    parse "x 2 /" = .ok ((Expr.var "x").join .div (.num 2)) ∧
    (∃ q, parse "1 / (y 3 +)" = .ok q ∧
      ((Expr.var "y").join .add (.num 3)).reciprocal = .ok q) ∧
    ∃ q q', parse "(x 2 /) / (y 3 +)" = .ok q ∧ q.reciprocal = .ok q' ∧
      parse "(y 3 +) / (x 2 /)" = .ok q' := by
  have hs : parse "x 2 /" = .ok ((Expr.var "x").join .div (.num 2)) :=
    parse_eq_ok_of_toOption (by decide +kernel)
  have hs' : parse "y 3 +" = .ok ((Expr.var "y").join .add (.num 3)) :=
    parse_eq_ok_of_toOption (by decide +kernel)
  have hdiv (l r : Expr) : (Expr.var "y").join .add (.num 3) ≠ l.join .div r := by
    intro heq
    exact absurd (Expr.bin.inj heq).2.1 (by decide)
  have hone : "1 / (" ++ "y 3 +" ++ ")" = "1 / (y 3 +)" := by decide +kernel
  have htext : "(" ++ "x 2 /" ++ ") / (" ++ "y 3 +" ++ ")" = "(x 2 /) / (y 3 +)" := by
    decide +kernel
  have htext' : "(" ++ "y 3 +" ++ ") / (" ++ "x 2 /" ++ ")" = "(y 3 +) / (x 2 /)" := by
    decide +kernel
  obtain ⟨q, hrec, hparse⟩ := (reciprocal_parse hs').2 nofun hdiv
  have hquotient := (reciprocal_parse hs).1 _ _ hs'
  rw [hone] at hparse
  rw [htext, htext'] at hquotient
  exact ⟨hs, ⟨q, hparse, hrec⟩, hquotient⟩

end Text

end Formula
