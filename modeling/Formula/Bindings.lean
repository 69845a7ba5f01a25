import Formula.Number.Quantity
import Formula.Text.Sorted

/-!
# Bindings

Values for variables. A name has at most one value, the last one bound to it.
-/

namespace Formula

structure Bindings where
  entries : List (String × Quantity)
deriving DecidableEq

namespace Bindings

def empty : Bindings := ⟨[]⟩

def lookup (b : Bindings) (name : String) : Option Quantity := b.entries.lookup name

def unbind (name : String) (b : Bindings) : Bindings := ⟨b.entries.filter (·.1 ≠ name)⟩

def bind (name : String) (q : Quantity) (b : Bindings) : Bindings :=
  ⟨(name, q) :: (b.unbind name).entries⟩

def ofList (entries : List (String × Quantity)) : Bindings :=
  entries.foldl (fun b e => b.bind e.1 e.2) empty

def names (b : Bindings) : List String := Text.sortedDistinct (b.entries.map (·.1))

@[simp] theorem lookup_empty (name : String) : empty.lookup name = none := rfl

theorem lookup_unbind (b : Bindings) (name other : String) :
    (b.unbind name).lookup other = if other = name then none else b.lookup other := by
  obtain ⟨entries⟩ := b
  induction entries with
  | nil => simp [unbind, lookup]
  | cons e es ih =>
    obtain ⟨n, q⟩ := e
    simp only [unbind, lookup] at ih ⊢
    by_cases hn : n = name
    · subst hn
      simp only [List.filter_cons, List.lookup_cons]
      grind
    · simp only [List.filter_cons, List.lookup_cons]
      grind

theorem lookup_bind (b : Bindings) (name other : String) (q : Quantity) :
    (b.bind name q).lookup other = if other = name then some q else b.lookup other := by
  have h := lookup_unbind b name other
  simp only [bind, lookup, List.lookup_cons] at h ⊢
  grind

end Bindings

end Formula
