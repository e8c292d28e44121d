import Prose.Decimal.Shortest

/-!
Ways to write a number in decimal: where digits are written out in full and where a power of ten
is used, and what the parts look like.
-/

namespace Prose.Decimal

/-- The decisions about how numbers look. -/
structure Form where
  /-- Whether a number whose first digit has this power of ten is written out in full. -/
  isPositional : Int → Bool
  /-- Whether a whole number that is written out keeps `.0`. -/
  keepsFraction : Bool
  /-- Whether a whole coefficient before a power of ten keeps `.0`. -/
  keepsCoefficientFraction : Bool
  /-- What stands between the coefficient and the power of ten. -/
  exponentMark : String
  /-- The word for a number too large to represent. -/
  infinity : String

/-- Digits with a point after the first `n` of them; after all of them, `.0` or nothing. -/
def withPoint (n : Nat) (keepsFraction : Bool) (digits : List Char) : List Char :=
  if n < digits.length then digits.take n ++ '.' :: digits.drop n
  else if keepsFraction then digits ++ ['.', '0']
  else digits

namespace Form

/-- A decimal written out in full. -/
def positional (f : Form) (s : Scientific) : List Char :=
  let point := s.exponent + 1
  if point ≤ 0 then '0' :: '.' :: (List.replicate (-point).toNat '0' ++ s.digits)
  else
    let digits := s.digits ++ List.replicate (point.toNat - s.digits.length) '0'
    withPoint point.toNat f.keepsFraction digits

/-- A decimal with a power of ten. -/
def scientific (f : Form) (s : Scientific) : List Char :=
  withPoint 1 f.keepsCoefficientFraction s.digits ++ f.exponentMark.toList ++
    (toString s.exponent).toList

/-- A positive decimal. -/
def magnitude (f : Form) (s : Scientific) : List Char :=
  if f.isPositional s.exponent then f.positional s else f.scientific s

/-- The number with the given bits. -/
def writeBits (f : Form) (bits : Nat) : String :=
  let sign := if bits / Nat.pow 2 63 % 2 = 1 then "-" else ""
  let field := bits / Nat.pow 2 52 % Nat.pow 2 11
  let fraction := bits % Nat.pow 2 52
  if field = 2047 then
    if fraction = 0 then sign ++ f.infinity else "NaN"
  else if field = 0 ∧ fraction = 0 then sign ++ (if f.keepsFraction then "0.0" else "0")
  else sign ++ String.ofList (f.magnitude (shortest (.ofBits bits)))

/-- A number as text. -/
def write (f : Form) (r : Float) : String := f.writeBits r.toBits.toNat

/-- Every digit written out, whole numbers without a point. -/
def plain : Form where
  isPositional _ := true
  keepsFraction := false
  keepsCoefficientFraction := false
  exponentMark := "e"
  infinity := "inf"

end Form

end Prose.Decimal
