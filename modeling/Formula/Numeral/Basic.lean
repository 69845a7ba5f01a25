/-!
# Numerals

A numeral is an unsigned decimal literal: digits with at most one point among or around them, and
possibly an exponent. A `Numeral` keeps the spelling, `Numeral.text` writes it out, and
`Numeral.value` is the double nearest to the number it stands for.
-/

namespace Formula

structure Exponent where
  mark : Char
  sign : Option Char
  digits : List Char
deriving DecidableEq, Repr

structure Numeral where
  whole : List Char
  point : Bool
  fraction : List Char
  exponent : Option Exponent
deriving DecidableEq, Repr

namespace Exponent

def text (x : Exponent) : List Char := x.mark :: (x.sign.toList ++ x.digits)

def value (x : Exponent) : Int :=
  let n := Nat.ofDigitChars 10 x.digits 0
  if x.sign = some '-' then -n else n

def Valid (x : Exponent) : Prop :=
  (x.mark = 'e' ∨ x.mark = 'E') ∧ (∀ s ∈ x.sign, s = '+' ∨ s = '-') ∧
    x.digits ≠ [] ∧ ∀ c ∈ x.digits, c.isDigit

end Exponent

namespace Numeral

def text (n : Numeral) : List Char :=
  n.whole ++ (if n.point then ['.'] else []) ++ n.fraction ++
    (n.exponent.map Exponent.text).getD []

def mantissa (n : Numeral) : Nat := Nat.ofDigitChars 10 (n.whole ++ n.fraction) 0

def scale (n : Numeral) : Int := (n.exponent.map Exponent.value).getD 0 - n.fraction.length

/-- The double nearest to the number that a numeral stands for, infinite if that is too large. -/
def value (n : Numeral) : Float := Float.ofModel (.ofScientific n.mantissa n.scale)

/-- At least one digit in all, a fraction only after a point, and a valid exponent. -/
def Valid (n : Numeral) : Prop :=
  (∀ c ∈ n.whole ++ n.fraction, c.isDigit) ∧ n.whole ++ n.fraction ≠ [] ∧
    (n.point = false → n.fraction = []) ∧ ∀ x ∈ n.exponent, x.Valid

end Numeral

end Formula
