/-!
# Classes of characters given by ranges

A class is a list of closed intervals of code points, ascending and apart. Membership stops at the
first interval that ends at or after the code point, and none of those behind it has been missed
(`Ranges.has_iff`).
-/

namespace Formula.Text

def isAscending : List (Nat × Nat) → Bool
  | [] => true
  | (lo, hi) :: rest => lo ≤ hi && rest.head?.all (hi + 1 < ·.1) && isAscending rest

structure Ranges where
  intervals : List (Nat × Nat)
  ascending : isAscending intervals = true := by decide +kernel

def covers : List (Nat × Nat) → Nat → Bool
  | [], _ => false
  | (lo, hi) :: rest, n => if n ≤ hi then lo ≤ n else covers rest n

theorem isAscending_cons {r : Nat × Nat} {rs : List (Nat × Nat)} :
    isAscending (r :: rs) = true ↔
      r.1 ≤ r.2 ∧ (∀ s ∈ rs.head?, r.2 + 1 < s.1) ∧ isAscending rs = true := by
  simp [isAscending, and_assoc, Option.all_eq_true]

/-- What ascends from one interval to the next ascends over all of them. -/
theorem lt_of_isAscending {r : Nat × Nat} {rs : List (Nat × Nat)}
    (h : isAscending (r :: rs) = true) : ∀ s ∈ rs, r.2 < s.1 := by
  induction rs generalizing r with
  | nil => simp
  | cons s rs ih =>
    obtain ⟨-, hnext, hrest⟩ := isAscending_cons.mp h
    have hlt : r.2 + 1 < s.1 := hnext s rfl
    intro t ht
    rcases List.mem_cons.mp ht with rfl | ht
    · omega
    · have hle := (isAscending_cons.mp hrest).1
      have hlt' := ih hrest t ht
      omega

theorem covers_iff {rs : List (Nat × Nat)} (h : isAscending rs = true) {n : Nat} :
    covers rs n = true ↔ ∃ r ∈ rs, r.1 ≤ n ∧ n ≤ r.2 := by
  induction rs with
  | nil => simp [covers]
  | cons r rs ih =>
    have hrest := ih (isAscending_cons.mp h).2.2
    rw [covers]
    by_cases hn : n ≤ r.2
    · rw [if_pos hn, decide_eq_true_eq]
      constructor
      · intro hlo
        exact ⟨r, List.mem_cons_self, hlo, hn⟩
      · rintro ⟨s, hs, hlo, -⟩
        rcases List.mem_cons.mp hs with rfl | hs
        · exact hlo
        · have hlt := lt_of_isAscending h s hs
          omega
    · rw [if_neg hn, hrest]
      constructor
      · rintro ⟨s, hs, hle⟩
        exact ⟨s, List.mem_cons_of_mem r hs, hle⟩
      · rintro ⟨s, hs, hle⟩
        rcases List.mem_cons.mp hs with rfl | hs
        · exact absurd hle.2 hn
        · exact ⟨s, hs, hle⟩

namespace Ranges

def has (rs : Ranges) (n : Nat) : Bool := covers rs.intervals n

theorem has_iff {rs : Ranges} {n : Nat} :
    rs.has n = true ↔ ∃ r ∈ rs.intervals, r.1 ≤ n ∧ n ≤ r.2 :=
  covers_iff rs.ascending

end Ranges

end Formula.Text
