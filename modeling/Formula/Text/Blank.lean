import Formula.Text.Ranges

/-!
# Blank characters

The blanks that separate lexemes: the Unicode property White_Space (version 14.0) and the four
information separators U+001C to U+001F, 29 characters in all.
-/

namespace Formula.Text

def blanks : Ranges where
  intervals :=
    [(0x09, 0x0D), (0x1C, 0x20), (0x85, 0x85), (0xA0, 0xA0), (0x1680, 0x1680), (0x2000, 0x200A),
     (0x2028, 0x2029), (0x202F, 0x202F), (0x205F, 0x205F), (0x3000, 0x3000)]

def isBlank (c : Char) : Bool := blanks.has c.toNat

def trimEnd (cs : List Char) : List Char := (cs.reverse.dropWhile isBlank).reverse

end Formula.Text
