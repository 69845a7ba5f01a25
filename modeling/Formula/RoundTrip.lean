import Formula.Failure

/-!
# Rendering and reading back

What becomes of a tree that is rendered and parsed again.
-/

namespace Formula

/-- A rendering, whether it is read as the same tree, and the rendering of the tree that is read. -/
structure RoundTrip where
  rendering : String
  same : Bool
  again : String
deriving DecidableEq, Repr

def Expr.roundTrip (e : Expr) : Except Failure RoundTrip := do
  let rendering ← e.render.mapError .fault
  let back ← (parse rendering).mapError .parse
  let again ← back.render.mapError .fault
  .ok ⟨rendering, back == e, again⟩

end Formula
