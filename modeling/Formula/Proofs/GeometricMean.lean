import Formula.Expr.Reciprocal
import Formula.Proofs.Division
import Formula.Proofs.NormalForm

/-!
# The formula of a geometric mean

A geometric mean is the product of its numbers, grouped to the left, to the power of one over how
many they are (`Expr.geometricMean_map_float`). Numbers without sign are written as numerals, and so
is this exponent, so the tree is parsed from a formula that shows the numbers one after another with
no parentheses between them (`Expr.geometricMean_eq_parse`): the parser goes through the factors as
the fold does.
-/

namespace Formula

namespace Phrase

def times (p : Phrase .product) (xs : List Float) : Phrase .product :=
  xs.foldl (fun p y => .binary .mul rfl p (.alone nofun (.number y))) p

theorem tokens_times (p : Phrase .product) (xs : List Float) :
    (p.times xs).tokens = p.tokens ++ xs.flatMap fun y => [.operator .mul, .number y] := by
  induction xs generalizing p with
  | nil => exact (List.append_nil _).symm
  | cons y ys ih =>
    refine (ih _).trans ?_
    simp [tokens]

theorem tree_times (p : Phrase .product) (xs : List Float) :
    (p.times xs).tree = xs.foldl (fun e y => e.join .mul (.num y)) p.tree := by
  induction xs generalizing p with
  | nil => rfl
  | cons y ys ih => exact ih _

def factors (x : Float) (xs : List Float) : Phrase .product :=
  times (.alone nofun (.alone nofun (.number x))) xs

def raised (p : Phrase .product) (y : Float) : Phrase .power :=
  .binary .pow rfl (.alone nofun (.group (.alone nofun p))) (.number y)

theorem tokens_factors (x : Float) (xs : List Float) : (factors x xs).tokens =
    .number x :: xs.flatMap fun y => [.operator .mul, .number y] := tokens_times _ xs

theorem tree_factors (x : Float) (xs : List Float) : (factors x xs).tree = Expr.product x xs :=
  tree_times _ xs

theorem tokens_raised (p : Phrase .product) (y : Float) : (p.raised y).tokens =
    .opening :: (p.tokens ++ .closing :: [.operator .pow, .number y]) :=
  congrArg (Token.opening :: ·) (List.append_assoc p.tokens [.closing] _)

theorem tree_raised (p : Phrase .product) (y : Float) :
    (p.raised y).tree = p.tree.join .pow (.num y) := rfl

end Phrase

theorem scans_factors {x : Float} {xs : List Float}
    (h : ∀ y ∈ x :: xs, Number.isUnsigned y = true) :
    Scans ([' ', '*', ' '].intercalate ((x :: xs).map Number.canonical))
      (Phrase.factors x xs).tokens := by
  rw [Phrase.tokens_factors]
  induction xs generalizing x with
  | nil =>
    have hscans := Scans.canonical (h x List.mem_cons_self) ends_nil scans_nil
    simpa [List.intercalate_singleton] using hscans
  | cons y ys ih =>
    obtain ⟨hx, hys⟩ := List.forall_mem_cons.mp h
    have hsymbol := Scans.symbol (Lexeme.ofSymbol?_symbol .mul) (ih hys).space
    have hscans := Scans.canonical hx (ends_cons (by decide) (by decide)) hsymbol.space
    simpa [List.intercalate_cons_cons, Operator.symbol, Lexeme.token] using hscans

theorem parse_raised {x y : Float} {xs : List Float}
    (h : ∀ z ∈ x :: xs, Number.isUnsigned z = true) (hy : Number.isUnsigned y = true) :
    parse ("(" ++ String.intercalate " * " ((x :: xs).map fun z =>
        String.ofList (Number.canonical z)) ++ ") ^ " ++ String.ofList (Number.canonical y)) =
      .ok ((Expr.product x xs).join .pow (.num y)) := by
  rw [← Phrase.tree_factors, ← Phrase.tree_raised]
  apply Phrase.parse_of_scans
  have hnumber := Scans.canonical hy ends_nil scans_nil
  rw [List.append_nil] at hnumber
  have hpower := Scans.symbol (Lexeme.ofSymbol?_symbol .pow) hnumber.space
  have hscans := Scans.group (scans_factors h) hpower.space
  rw [Phrase.tokens_raised]
  simpa [String.toList_intercalate, Operator.symbol, Lexeme.token, Function.comp_def] using hscans

namespace Expr

theorem mapM_toFloat_map_float (xs : List Float) :
    (xs.map Quantity.float).mapM Quantity.toFloat = .ok xs := by
  induction xs with
  | nil => rfl
  | cons x xs ih =>
    rw [List.map_cons, List.mapM_cons, ih]
    rfl

/-- The tree of a geometric mean of doubles. -/
theorem geometricMean_map_float (x : Float) (xs : List Float) :
    geometricMean ((x :: xs).map .float) = .ok ((product x xs).join .pow
      (num (Operator.div.apply 1 (Number.ofInt (x :: xs).length)))) := by
  rw [List.map_cons, geometricMean, mapM_toFloat_map_float, List.length_map]
  rfl

theorem leaves_foldl_mul (e : Expr) (xs : List Float) :
    (xs.foldl (fun e y => e.join .mul (num y)) e).leaves = e.leaves ++ xs.map .number := by
  induction xs generalizing e with
  | nil => exact (List.append_nil _).symm
  | cons y ys ih =>
    refine (ih _).trans ?_
    simp [leaves]

/-- The geometric mean of numbers without sign is parsed from a formula with one pair of
parentheses, around the factors in their order. -/
theorem geometricMean_eq_parse {x : Float} {xs : List Float}
    (h : ∀ y ∈ x :: xs, Number.isUnsigned y = true) :
    let exponent := Operator.div.apply 1 (Number.ofInt (x :: xs).length)
    let factors := (x :: xs).map fun y => String.ofList (Number.canonical y)
    let text := "(" ++ String.intercalate " * " factors ++ ") ^ " ++
      String.ofList (Number.canonical exponent)
    ∃ e, geometricMean ((x :: xs).map .float) = .ok e ∧ parse text = .ok e ∧
      e = (xs.foldl (fun e y => e.join .mul (num y)) (num x)).join .pow (num exponent) ∧
      e.leaves = (x :: xs).map .number ++ [.number exponent] := by
  intro exponent factors text
  have hexponent : Number.isUnsigned exponent = true := Number.isUnsigned_one_div_ofInt (by simp)
  refine ⟨_, geometricMean_map_float x xs, parse_raised h hexponent, rfl, ?_⟩
  exact congrArg (· ++ [.number exponent]) (leaves_foldl_mul (num x) xs)

theorem geometricMean_eq_parse_of_three :
    (∀ y ∈ [4, 0.5, 1e22], Number.isUnsigned y = true) ∧
    ∃ e, geometricMean [.float 4, .float 0.5, .float 1e22] = .ok e ∧
      parse "(4 * 0.5 * 1e+22) ^ 0.3333333333333333" = .ok e := by
  have h : ∀ y ∈ [4, 0.5, 1e22], Number.isUnsigned y = true := by decide +kernel
  have htext : "(" ++ String.intercalate " * "
      ([4, 0.5, 1e22].map fun y => String.ofList (Number.canonical y)) ++ ") ^ " ++
        String.ofList (Number.canonical (Operator.div.apply 1 (Number.ofInt 3))) =
      "(4 * 0.5 * 1e+22) ^ 0.3333333333333333" := by
    decide +kernel
  obtain ⟨e, hmean, hparse, -, -⟩ := geometricMean_eq_parse h
  exact ⟨h, e, hmean, htext ▸ hparse⟩

end Expr

end Formula
