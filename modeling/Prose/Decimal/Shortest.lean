/-!
The shortest decimal that reads back as a given binary number. A binary number `m · 2 ^ q` is the
nearest one to every real in an interval around it. For 1, 2, … 17 digits the two neighbours of
the number on the decimal grid with so many digits are tried; the first grid that has a point in
the interval gives the answer, and of two such points the nearer, the upper one if they are
equally near. All is exact arithmetic on naturals.
-/

namespace Prose.Decimal

/-- A positive binary number `coefficient · 2 ^ exponent` of 53 binary digits. -/
structure Binary where
  coefficient : Nat
  exponent : Int
  /-- Whether the next smaller number is only half a unit away, as it is below a power of two. -/
  isPower : Bool
deriving DecidableEq, Inhabited

/-- A decimal: its digits, none of them a needless zero at the end, with the point after the first
and a power of ten. -/
structure Scientific where
  digits : List Char
  exponent : Int
deriving DecidableEq, Inhabited

namespace Binary

/-- The magnitude of a finite number with the given bits. -/
def ofBits (bits : Nat) : Binary :=
  let fraction : Nat := bits % Nat.pow 2 52
  let field : Nat := bits / Nat.pow 2 52 % Nat.pow 2 11
  if field = 0 then ⟨fraction, -1074, false⟩
  else ⟨Nat.pow 2 52 + fraction, (field : Int) - 1075, fraction == 0 && decide (1 < field)⟩

/-- Quarter units of the number: its lower bound, itself, and its upper bound. The reals between
the bounds have it as their nearest binary number. -/
def quarters (b : Binary) : Nat × Nat × Nat :=
  let value := 4 * b.coefficient
  (value - (if b.isPower then 1 else 2), value, value + 2)

/-- Whether the bounds themselves still have it as their nearest: a half goes to the even
neighbour. -/
def includesBounds (b : Binary) : Bool := b.coefficient % 2 == 0

end Binary

/-- The ratio of a quarter unit of the number to `10 ^ p`, as a fraction of naturals. -/
def quarterOverPower (b : Binary) (p : Int) : Nat × Nat :=
  let e := b.exponent - 2
  (Nat.pow 2 e.toNat * Nat.pow 10 (-p).toNat, Nat.pow 2 (-e).toNat * Nat.pow 10 p.toNat)

/-- The power of ten of the first digit. -/
def leadingExponent (b : Binary) : Int :=
  let (num, den) := quarterOverPower b 0
  let num := num * (4 * b.coefficient)
  let guess : Int := (Nat.toDigits 10 num).length - (Nat.toDigits 10 den).length
  -- the guess is right or one too large
  if den * Nat.pow 10 guess.toNat ≤ num * Nat.pow 10 (-guess).toNat then guess else guess - 1

/-- The point of the grid of multiples of `10 ^ p` that stands for the number, if one does. -/
def onGrid? (b : Binary) (p : Int) : Option Nat :=
  let (num, den) := quarterOverPower b p
  let (lower, value, upper) := b.quarters
  let fits (n : Nat) : Bool :=
    if b.includesBounds then decide (lower * num ≤ n * den) && decide (n * den ≤ upper * num)
    else decide (lower * num < n * den) && decide (n * den < upper * num)
  let below := value * num / den
  let above := below + 1
  match fits below, fits above with
  | true, true => if 2 * (value * num) < (below + above) * den then some below else some above
  | true, false => some below
  | false, true => some above
  | false, false => none

/-- The number `n · 10 ^ p` without needless zeros. -/
def scientificOf (n : Nat) (p : Int) : Scientific :=
  let digits := Nat.toDigits 10 n
  { digits := (digits.reverse.dropWhile (· == '0')).reverse
    exponent := p + digits.length - 1 }

/-- The most digits a number needs. -/
def mostDigits : Nat := 17

/-- The shortest decimal that reads back as the number. -/
def shortest (b : Binary) : Scientific :=
  let e := leadingExponent b
  ((List.range mostDigits).findSome? fun n : Nat =>
    (onGrid? b (e - n)).map fun m => scientificOf m (e - n)).getD ⟨[], 0⟩

end Prose.Decimal
