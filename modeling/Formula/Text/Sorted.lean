/-!
# Sorted texts

The distinct members of a list of texts, in the order of their code points.
-/

namespace Formula.Text

def insertSorted (s : String) : List String → List String
  | [] => [s]
  | t :: ts => if s < t then s :: t :: ts else if s = t then t :: ts else t :: insertSorted s ts

def sortedDistinct (ss : List String) : List String := ss.foldr insertSorted []

theorem mem_insertSorted {s u : String} {ts : List String} :
    u ∈ insertSorted s ts ↔ u = s ∨ u ∈ ts := by
  induction ts with
  | nil => simp [insertSorted]
  | cons t ts ih =>
    unfold insertSorted
    split
    · simp
    · split
      · simp_all
      · simp only [List.mem_cons, ih]
        exact or_left_comm

theorem mem_sortedDistinct {s : String} {ss : List String} : s ∈ sortedDistinct ss ↔ s ∈ ss := by
  induction ss with
  | nil => simp [sortedDistinct]
  | cons t ts ih => simpa [sortedDistinct, mem_insertSorted] using or_congr_right ih

end Formula.Text
