import Formula.Proofs.GeometricMean
import Formula.Proofs.Reciprocal

/-!
# The value of a geometric mean

The tree of a geometric mean is evaluated from its innermost product outwards, so the numbers are
multiplied from left to right and every product is rounded before the next factor
(`Expr.evaluate_foldl_mul`). Infinities, zeros and NaN are multiplied like any other double, and
there are no names in the tree, so it always has a value. An integer that is too large for a double
is found while the numbers are converted, wherever it stands, and then there is no tree.
-/

namespace Formula

namespace Quantity

theorem eq_tooLarge_of_toFloat {q : Quantity} {f : Fault} (h : q.toFloat = .error f) :
    f = .tooLarge := by
  cases q with
  | float x => cases h
  | int n =>
    rw [toFloat_int] at h
    split at h
    · cases h
      rfl
    · cases h

theorem mapM_toFloat_eq_error {q : Quantity} {qs : List Quantity} (hq : q ∈ qs)
    (h : q.toFloat = .error .tooLarge) : qs.mapM toFloat = .error .tooLarge := by
  induction qs with
  | nil => cases hq
  | cons p ps ih =>
    rw [List.mapM_cons]
    rcases List.mem_cons.mp hq with rfl | hmem
    · rw [h]
      rfl
    · cases hp : p.toFloat with
      | error f =>
        obtain rfl := eq_tooLarge_of_toFloat hp
        rfl
      | ok x =>
        rw [ih hmem]
        rfl

end Quantity

namespace Expr

variable {b : Bindings} {e : Expr} {y : Float}

theorem evaluate_foldl_mul (he : e.evaluate b = .ok y) (xs : List Float) :
    (xs.foldl (fun e x => e.join .mul (num x)) e).evaluate b = .ok (xs.foldl (· * ·) y) := by
  induction xs generalizing e y with
  | nil => exact he
  | cons x xs ih =>
    have hstep : (e.join .mul (num x)).evaluate b = .ok (y * x) := by
      rw [evaluate_join_of_left he, evaluate_num]
      rfl
    exact ih hstep

theorem length_symbols_foldl_mul (e : Expr) (xs : List Float) :
    (xs.foldl (fun e x => e.join .mul (num x)) e).symbols.length =
      e.symbols.length + xs.length := by
  induction xs generalizing e with
  | nil => rfl
  | cons x xs ih =>
    refine (ih _).trans ?_
    simp only [symbols, List.append_nil, List.length_cons]
    omega

theorem names_of_leaves {xs : List Float} (h : e.leaves = xs.map .number) : e.names = [] := by
  rw [names_eq, h, List.filterMap_map, List.filterMap_eq_nil_iff]
  exact fun _ _ => rfl

theorem geometricMean_eq_error {q : Quantity} {qs : List Quantity} (hq : q ∈ qs)
    (h : q.toFloat = .error .tooLarge) : geometricMean qs = .error .tooLarge := by
  cases qs with
  | nil => cases hq
  | cons p ps =>
    rw [geometricMean]
    rcases List.mem_cons.mp hq with rfl | hmem
    · rw [h]
      rfl
    · cases hp : p.toFloat with
      | error f =>
        obtain rfl := Quantity.eq_tooLarge_of_toFloat hp
        rfl
      | ok x =>
        rw [Quantity.mapM_toFloat_eq_error hmem h]
        rfl

/-- A geometric mean of doubles has the value that its numbers have when they are multiplied in
order and the last product is raised to one over how many they are. With an integer that is too
large at any place, there is no geometric mean. -/
theorem evaluate_geometricMean :
    (∀ (x : Float) (xs : List Float),
      let exponent := Operator.div.apply 1 (Number.ofInt (x :: xs).length)
      ∃ base e : Expr, geometricMean ((x :: xs).map .float) = .ok e ∧
        e = base.join .pow (num exponent) ∧ base.leaves = (x :: xs).map .number ∧
        e.symbols.length = (x :: xs).length ∧ e.names = [] ∧
        ∀ b, e.evaluate b = .ok (Operator.pow.apply (xs.foldl (· * ·) x) exponent)) ∧
    ∀ (qs : List Quantity) (n : Int), .int n ∈ qs → 2 ^ 1024 - 2 ^ 970 ≤ n.natAbs →
      geometricMean qs = .error .tooLarge := by
  constructor
  · intro x xs exponent
    have hleaves : (product x xs).leaves = (x :: xs).map .number := leaves_foldl_mul (num x) xs
    refine ⟨product x xs, _, geometricMean_map_float x xs, rfl, hleaves, ?_, ?_, fun b => ?_⟩
    · have hsymbols := length_symbols_foldl_mul (num x) xs
      simp only [symbols, product, List.append_nil, List.length_cons, hsymbols]
      exact congrArg (· + 1) (Nat.zero_add _)
    · have hall : ((product x xs).join .pow (num exponent)).leaves =
          (x :: xs ++ [exponent]).map .number := by
        rw [leaves, hleaves, List.map_append]
        rfl
      exact names_of_leaves hall
    · have hproduct : (product x xs).evaluate b = .ok (xs.foldl (· * ·) x) :=
        evaluate_foldl_mul (evaluate_num b x) xs
      rw [evaluate_join_of_left hproduct, evaluate_num]
      rfl
  · intro qs n hn hlarge
    apply geometricMean_eq_error hn
    rw [Quantity.toFloat_int, if_pos hlarge]

/-- The first product overflows, and the last factor does not bring it back. -/
theorem evaluate_geometricMean_overflow :
    (∃ e, geometricMean [.float 1e308, .float 10, .float 0.1] = .ok e ∧
      ∀ b, e.evaluate b = .ok (Operator.pow.apply 1e400 (Operator.div.apply 1 3))) ∧
    .int (2 ^ 1024) ∈ [Quantity.float 2, .int (2 ^ 1024), .float 0.5] ∧
    2 ^ 1024 - 2 ^ 970 ≤ (2 ^ 1024 : Int).natAbs ∧
    geometricMean [.float 2, .int (2 ^ 1024), .float 0.5] = .error .tooLarge := by
  have hmem : .int (2 ^ 1024) ∈ [Quantity.float 2, .int (2 ^ 1024), .float 0.5] :=
    List.mem_cons_of_mem _ List.mem_cons_self
  have hpow (a b : Nat) : 2 ^ a - 2 ^ b ≤ (2 ^ a : Int).natAbs := by
    rw [Int.natAbs_pow]
    exact Nat.sub_le _ _
  have hlarge := hpow 1024 970
  obtain ⟨hvalue, herror⟩ := evaluate_geometricMean
  obtain ⟨-, e, hmean, -, -, -, -, heval⟩ := hvalue 1e308 [10, 0.1]
  refine ⟨⟨e, hmean, fun b => (heval b).trans ?_⟩, hmem, hlarge, herror _ _ hmem hlarge⟩
  have hproduct : [10, 0.1].foldl (· * ·) 1e308 = (1e400 : Float) := by decide +kernel
  have hexponent : Number.ofInt [1e308, 10, 0.1].length = 3 := by decide +kernel
  rw [hproduct, hexponent]

end Expr

end Formula
