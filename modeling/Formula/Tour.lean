import Formula.Expr.Evaluate
import Formula.Expr.Reciprocal
import Formula.Failure

/-!
# A walk through the operations

Shows what can be done with an expression that is read and with one that is built. The journal of
the walk is shown too if that is asked for.
-/

namespace Formula.Tour

structure Output where
  standard : List String
  diagnostic : List String
deriving DecidableEq, Repr

def bindings : Bindings := Bindings.ofList [("x", .float 10), ("y", .float 27)]

def readExpr (s : String) : Traced Failure Expr := (parseTraced s).mapError .parse

def valueText (b : Bindings) (e : Expr) : Traced Failure String := do
  let x ← (e.evaluateTraced b).mapError .fault
  pure (String.ofList (Number.text x))

def renderedResult (r : Except Fault Expr) : Traced Failure String :=
  .ofExcept ((r >>= Expr.render).mapError .fault)

def lines : Traced Failure (List String) := do
  let e ← readExpr "4*x + y/9 + 12"
  let render ← renderedResult (.ok e)
  let postorder ← .ofExcept (e.renderPostorder.mapError .fault)
  let value ← valueText bindings e
  let reciprocal ← renderedResult e.reciprocal
  let ofNumber ← renderedResult (Expr.num 7).reciprocal
  let quotient ← readExpr "x / 10"
  let ofQuotient ← renderedResult quotient.reciprocal
  let names ← .ofExcept (e.variableNames.mapError .fault)
  let mean ← .ofExcept ((Expr.geometricMean ([4, 9, 3, 7, 6].map .int)).mapError .fault)
  let meanText ← renderedResult (.ok mean)
  let meanValue ← valueText bindings mean
  pure
    ["render:           " ++ render,
     "postfix:          " ++ postorder,
     "evaluate:         " ++ value,
     "reciprocal:       " ++ reciprocal,
     "reciprocal(num):  " ++ ofNumber,
     "reciprocal(div):  " ++ ofQuotient,
     "variables:        " ++ Text.quotedList names,
     "geometric mean:   " ++ meanText,
     "which evaluates to " ++ meanValue]

def entryLine (entry : Entry) : String := "DEBUG:" ++ entry.channel.name ++ ":" ++ entry.text

/-- What the walk writes. The journal is shown if the setting is there and not empty. -/
def output (setting : Option String) : Output where
  standard :=
    match lines.outcome with
    | .ok lines => lines
    | .error _ => []
  diagnostic :=
    (if setting.any (· ≠ "") then lines.journal.map entryLine else []) ++
      match lines.outcome with
      | .ok _ => []
      | .error f => [f.message]

end Formula.Tour
