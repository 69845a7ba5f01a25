/-!
# Decimals and their written form

A `Decimal` is a natural number times a power of ten. A finite binary fraction is a decimal exactly
(`Decimal.ofDyadic`). `Decimal.text` writes one without needless digits, and `Decimal.shortest`
drops as many of its last digits as a test on the written form allows.
-/

namespace Formula

structure Decimal where
  digits : Nat
  exponent : Int
deriving DecidableEq, Repr

namespace Decimal

def ofDyadic (m : Nat) (e : Int) : Decimal :=
  if 0 ≤ e then ⟨m * Nat.pow 2 e.natAbs, 0⟩ else ⟨m * Nat.pow 5 e.natAbs, e⟩

def length (d : Decimal) : Nat := (Nat.toDigits 10 d.digits).length

def leading (d : Decimal) : Int := d.exponent + d.length - 1

def significant (d : Decimal) : List Char :=
  ((Nat.toDigits 10 d.digits).reverse.dropWhile (· = '0')).reverse

def positional (digits : List Char) (lead : Int) : List Char :=
  if lead < 0 then '0' :: '.' :: (List.replicate (-lead - 1).toNat '0' ++ digits)
  else
    let places := lead.toNat + 1
    if digits.length ≤ places then
      digits ++ List.replicate (places - digits.length) '0' ++ ['.', '0']
    else digits.take places ++ '.' :: digits.drop places

def scientific (digits : List Char) (lead : Int) : List Char :=
  let power := Nat.toDigits 10 lead.natAbs
  digits.take 1 ++ (if digits.length ≤ 1 then [] else '.' :: digits.drop 1) ++
    'e' :: (if lead < 0 then '-' else '+') :: (List.replicate (2 - power.length) '0' ++ power)

/-- The written form: positional if the leading digit stands between the fourth place after the
point and the sixteenth before it, otherwise with a power of ten. -/
def text (d : Decimal) : List Char :=
  if -4 ≤ d.leading ∧ d.leading < 16 then positional d.significant d.leading
  else scientific d.significant d.leading

/-- The two decimals closest to `d` among those without its last `drop` digits, the closer one
first; if both are equally close, the even one first. -/
def neighbours (d : Decimal) (drop : Nat) : List Decimal :=
  let unit := Nat.pow 10 drop
  let below : Decimal := ⟨d.digits / unit, d.exponent + drop⟩
  let above : Decimal := ⟨d.digits / unit + 1, d.exponent + drop⟩
  let twice := 2 * (d.digits % unit)
  if twice < unit ∨ (twice = unit ∧ below.digits % 2 = 0) then [below, above] else [above, below]

/-- The first written form that a test accepts, of the neighbours of `d` without `drop` digits, or
else without one digit fewer, and so on. If it accepts none, the written form of `d` itself. -/
def shortest (accepts : List Char → Bool) (d : Decimal) : Nat → List Char
  | 0 => d.text
  | drop + 1 =>
    match ((d.neighbours (drop + 1)).map text).find? accepts with
    | some t => t
    | none => shortest accepts d drop

end Decimal

end Formula
