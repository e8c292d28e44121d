/-!
The binary number nearest to a fraction: the exact value is rounded once, to the nearest number
with 53 binary digits, and a value half-way between two goes to the one with an even coefficient.
-/

namespace Prose.Decimal

/-- `num / den` rounded to the nearest integer, halves to the even neighbour. -/
def roundHalfEven (num den : Nat) : Nat :=
  let q := num / den
  let r := num % den
  if 2 * r < den then q
  else if den < 2 * r then q + 1
  else if q % 2 = 0 then q else q + 1

/-- The exponent of the largest power of two that is at most `num / den`, or one less. -/
def binaryExponent (num den : Nat) : Int := (num.log2 : Int) - (den.log2 : Int) - 1

/-- `num / (den · 2 ^ e)` as a fraction of naturals. -/
def scaled (num den : Nat) (e : Int) : Nat × Nat :=
  if 0 ≤ e then (num, den * Nat.pow 2 e.toNat) else (num * Nat.pow 2 (-e).toNat, den)

/-- The unit in the last place for a value near `num / den`, as an exponent of two: the coefficient
has 53 digits, fewer below the smallest such value. -/
def unitExponent (num den : Nat) : Int :=
  let e := binaryExponent num den
  let p := scaled num den (e - 51)
  -- the estimate may be one too small, which shows as a coefficient of 54 digits
  let unit :=
    if Nat.pow 2 53 ≤ p.1 / p.2 then e - 50
    else if Nat.pow 2 52 ≤ p.1 / p.2 then e - 51
    else e - 52
  max unit (-1074)

/-- The bits of the number nearest to `num / den`, for a positive `den`. -/
def nearestBits (num den : Nat) : Nat :=
  if num = 0 then 0
  else
    let unit := unitExponent num den
    let p := scaled num den unit
    let coefficient := roundHalfEven p.1 p.2
    let bits :=
      if coefficient < Nat.pow 2 52 then coefficient
      else (unit + 1075).toNat * Nat.pow 2 52 + (coefficient - Nat.pow 2 52)
    -- beyond the largest exponent stands infinity
    min bits (2047 * Nat.pow 2 52)

def nearest (num den : Nat) : Float := Float.ofBits (UInt64.ofNat (nearestBits num den))

/-- The number nearest to `coefficient · 10 ^ exponent`. Exponents so large or so small that the
result is infinite or zero whatever the coefficient are decided without computing the power. -/
def ofScientific (coefficient : Nat) (exponent : Int) : Float :=
  let magnitude := ((Nat.toDigits 10 coefficient).length : Int) + exponent
  if coefficient = 0 then Float.ofBits 0
  else if 400 < magnitude then Float.ofBits 0x7FF0000000000000
  else if magnitude < -400 then Float.ofBits 0
  else if 0 ≤ exponent then nearest (coefficient * Nat.pow 10 exponent.toNat) 1
  else nearest coefficient (Nat.pow 10 (-exponent).toNat)

end Prose.Decimal
