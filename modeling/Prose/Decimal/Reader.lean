import Prose.Decimal.Nearest

/-!
Numbers written in decimal: runs of digits, signed integers of 64 bits, and reals with an optional
sign, fraction and exponent.
-/

namespace Prose.Decimal

/-- Whether a character is one of `0` to `9`. -/
def isDigit (c : Char) : Bool := '0' ≤ c && c ≤ '9'

def digitValue (c : Char) : Nat := c.toNat - '0'.toNat

/-- The number a run of digits stands for. -/
def naturalValue (cs : List Char) : Nat := cs.foldl (fun n c => 10 * n + digitValue c) 0

/-- A number as an integer of 64 bits, if it fits. -/
def toInt64? (n : Int) : Option Int64 :=
  if -9223372036854775808 ≤ n ∧ n ≤ 9223372036854775807 then some (Int64.ofInt n) else none

/-- Splits an optional sign off: whether it is a minus, and what follows it. -/
def takeSign : List Char → Bool × List Char
  | '-' :: cs => (true, cs)
  | '+' :: cs => (false, cs)
  | cs => (false, cs)

/-- Reads an integer: an optional sign and at least one digit, with a value of 64 bits. -/
def readInteger? (cs : List Char) : Option Int64 :=
  let (negative, digits) := takeSign cs
  if digits.isEmpty || !digits.all isDigit then none
  else
    let n : Int := naturalValue digits
    toInt64? (if negative then -n else n)

/-- Reads an exponent: nothing, or `e` with an optional sign and at least one digit. -/
def readExponent? : List Char → Option Int
  | [] => some 0
  | c :: cs =>
    if c.toLower = 'e' then
      let (negative, digits) := takeSign cs
      if digits.isEmpty || !digits.all isDigit then none
      else
        let n : Int := naturalValue digits
        some (if negative then -n else n)
    else none

/-- Reads a magnitude: digits, a fraction and an exponent, with a digit before or after the
point. -/
def readMagnitude? (cs : List Char) : Option Float :=
  let whole := cs.takeWhile isDigit
  let rest := cs.dropWhile isDigit
  let (fraction, rest) :=
    match rest with
    | '.' :: rest => (rest.takeWhile isDigit, rest.dropWhile isDigit)
    | rest => ([], rest)
  if whole.isEmpty && fraction.isEmpty then none
  else (readExponent? rest).map fun exponent =>
    ofScientific (naturalValue (whole ++ fraction)) (exponent - fraction.length)

/-- Reads a real: an optional sign before a magnitude or before a word for infinity or for the
undefined number, in any case. -/
def readReal? (cs : List Char) : Option Float :=
  let (negative, rest) := takeSign cs
  let word := String.ofList (rest.map Char.toLower)
  let magnitude :=
    if word = "inf" ∨ word = "infinity" then some (Float.ofBits 0x7FF0000000000000)
    else if word = "nan" then some (Float.ofBits 0x7FF8000000000000)
    else readMagnitude? rest
  magnitude.map fun r => if negative then -r else r

end Prose.Decimal
