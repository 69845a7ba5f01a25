import Formula.Numeral.Scan
import Formula.Number.Decimal

/-!
# The text of a number

Two written forms of a double. `Number.text` always shows that the number is a double: the fewest
digits that read back to it, of those the closest, with a point or an exponent. `Number.canonical`
is the form inside formulas, where an integer below `2 ^ 53` in magnitude stands without a point.
`Number.read?` reads either form.
-/

namespace Formula.Number

open Float.Model (UnpackedFloat)

def signText : UnpackedFloat.Sign → List Char
  | .negative => ['-']
  | .positive => []

def readMagnitude? (cs : List Char) : Option Float :=
  if cs = ['i', 'n', 'f'] then some (Float.ofModel (.pack (.infinity .positive)))
  else if cs = ['n', 'a', 'n'] then some (Float.ofModel (.pack .notANumber))
  else Numeral.read? cs

def read? (cs : List Char) : Option Float :=
  match splitSign cs with
  | (some '-', rest) => (readMagnitude? rest).map (- ·)
  | (_, rest) => readMagnitude? rest

/-- The written form of a positive finite number with the fewest digits for which the whole text,
sign included, reads back to `x`. -/
def magnitudeText (x : Float) (sign : UnpackedFloat.Sign) (m : Nat) (e : Int) : List Char :=
  let d := Decimal.ofDyadic m e
  d.shortest (fun t => read? (signText sign ++ t) = some x) (d.length - 1)

def text (x : Float) : List Char :=
  match x.toModel.unpack with
  | .notANumber => ['n', 'a', 'n']
  | .infinity sign => signText sign ++ ['i', 'n', 'f']
  | .zero sign => signText sign ++ ['0', '.', '0']
  | .finite sign m e _ => signText sign ++ magnitudeText x sign m e

def wholePart? (m : Nat) (e : Int) : Option Nat :=
  let unit := Nat.pow 2 e.natAbs
  if 0 ≤ e then some (m * unit) else if m % unit = 0 then some (m / unit) else none

/-- The bound below which every integer is a double and stands without a point. -/
def integerBound : Nat := Nat.pow 2 53

/-- The written form of a double inside a formula: an integer below the bound by its digits, any
other number, negative zero among them, by its `text`. -/
def canonical (x : Float) : List Char :=
  match x.toModel.unpack with
  | .zero .positive => ['0']
  | .finite sign m e _ =>
    match wholePart? m e with
    | some n => if n < integerBound then signText sign ++ Nat.toDigits 10 n else text x
    | none => text x
  | _ => text x

end Formula.Number
