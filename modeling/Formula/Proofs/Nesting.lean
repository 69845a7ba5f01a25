import Formula.Token

/-!
# Balanced parentheses

How deep a place in a list of tokens lies in parentheses, and the lists in which every parenthesis
that is opened is closed after it and the other way round.
-/

namespace Formula

/-- How many more parentheses are opened than closed. -/
def nesting (ts : List Token) : Int := ts.count .opening - ts.count .closing

@[simp] theorem nesting_nil : nesting [] = 0 := rfl

@[simp] theorem nesting_append (ts us : List Token) :
    nesting (ts ++ us) = nesting ts + nesting us := by
  simp only [nesting, List.count_append]
  omega

theorem nesting_cons (t : Token) (ts : List Token) :
    nesting (t :: ts) = nesting [t] + nesting ts := nesting_append [t] ts

@[simp] theorem nesting_cons_number (x : Float) (ts : List Token) :
    nesting (.number x :: ts) = nesting ts := by simp [nesting]

@[simp] theorem nesting_cons_name (n : String) (ts : List Token) :
    nesting (.name n :: ts) = nesting ts := by simp [nesting]

@[simp] theorem nesting_cons_operator (o : Operator) (ts : List Token) :
    nesting (.operator o :: ts) = nesting ts := by simp [nesting]

@[simp] theorem nesting_cons_opening (ts : List Token) :
    nesting (.opening :: ts) = nesting ts + 1 := by
  simp [nesting]
  omega

@[simp] theorem nesting_cons_closing (ts : List Token) :
    nesting (.closing :: ts) = nesting ts - 1 := by
  simp [nesting]
  omega

/-- No parenthesis is closed before it is opened, and none stays open. -/
structure Balanced (ts : List Token) : Prop where
  nonneg : ∀ us, us <+: ts → 0 ≤ nesting us
  nesting_eq : nesting ts = 0

namespace Balanced

theorem nil : Balanced [] where
  nonneg us h := by simp [List.prefix_nil.mp h]
  nesting_eq := rfl

theorem append {ts us : List Token} (ht : Balanced ts) (hu : Balanced us) :
    Balanced (ts ++ us) where
  nonneg vs h := by
    obtain ⟨ws, hw⟩ := h
    rcases List.append_eq_append_iff.mp hw with ⟨as, rfl, -⟩ | ⟨as, rfl, rfl⟩
    · exact ht.nonneg _ ⟨as, rfl⟩
    · have has := hu.nonneg as ⟨ws, rfl⟩
      rw [nesting_append, ht.nesting_eq]
      omega
  nesting_eq := by
    rw [nesting_append, ht.nesting_eq, hu.nesting_eq]
    rfl

theorem cons {t : Token} {ts : List Token} (h : nesting [t] = 0) (ht : Balanced ts) :
    Balanced (t :: ts) := by
  have hone : Balanced [t] := by
    refine ⟨fun us hus => ?_, h⟩
    rcases List.prefix_cons_iff.mp hus with rfl | ⟨vs, rfl, hvs⟩
    · exact Int.le_refl _
    · rw [List.prefix_nil.mp hvs]
      exact Int.le_of_eq h.symm
  exact hone.append ht

theorem group {ts : List Token} (h : Balanced ts) : Balanced (.opening :: (ts ++ [.closing])) where
  nonneg us hus := by
    rcases List.prefix_cons_iff.mp hus with rfl | ⟨vs, rfl, hvs⟩
    · exact Int.le_refl _
    · rw [nesting_cons_opening]
      rcases List.prefix_concat_iff.mp hvs with rfl | hvs
      · simp [h.nesting_eq]
      · have := h.nonneg vs hvs
        omega
  nesting_eq := by simp [h.nesting_eq]

end Balanced

end Formula
