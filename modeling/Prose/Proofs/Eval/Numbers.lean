import Mathlib.Algebra.Order.Group.Int
import Mathlib.Algebra.Order.Ring.Int
import Mathlib.Data.Int.Order.Basic
import Prose.Eval.Operators
import Prose.Proofs.Decimal.Integers

/-!
Operators on numbers. Adding, subtracting, multiplying and raising integers gives
the exact result or, if that has more than 64 bits, an overflow; no power of a
number other than 0, 1 and -1 with a large exponent fits, so it is not computed.
The six operators that compare ask one comparison six questions, so they cannot
contradict each other.
-/

namespace Prose

namespace Operator

/-- What an operator makes of two integers of any size, if that is an integer, and
what doing so is called. -/
def onIntegers? (op : Operator) (a b : Int) : Option (String × Int) :=
  match op with
  | add => some ("addition", a + b)
  | subtract => some ("subtraction", a - b)
  | multiply => some ("multiplication", a * b)
  | power => if 0 ≤ b then some ("exponentiation", a ^ b.toNat) else none
  | _ => none

/-- What an operator that compares asks about the order of two numbers. -/
def asks? : Operator → Option (Option Ordering → Bool)
  | equal => some (· == some .eq)
  | notEqual => some fun order => !order == some .eq
  | less => some (· == some .lt)
  | lessEqual => some fun order => order == some .lt || order == some .eq
  | greater => some (· == some .gt)
  | greaterEqual => some fun order => order == some .gt || order == some .eq
  | _ => none

end Operator

namespace Eval

/-! ### Arithmetic of integers -/

/-- The result is the integer `x` if it has 64 bits, and an overflow in the named
operation exactly if it has not. -/
structure IsExact (operation : String) (x : Int) (result : Result) : Prop where
  fits : FitsInt64 x → ∃ n : Int64, n.toInt = x ∧ result = .ok (.integer n)
  overflows : result = fail (.integerOverflow operation) ↔ ¬ FitsInt64 x

theorem isExact_exact (operation : String) (x : Int) :
    IsExact operation x (exact operation x) := by
  by_cases hx : FitsInt64 x
  · obtain ⟨n, hread, hn⟩ := Decimal.exists_toInt64?_of_fits hx
    have hresult : exact operation x = .ok (.integer n) := by rw [exact, hread]
    exact ⟨fun _ => ⟨n, hn, hresult⟩, by simp [hresult, hx, fail]⟩
  · have hresult : exact operation x = fail (.integerOverflow operation) := by
      rw [exact, Decimal.toInt64?_eq_none_iff.mpr hx]
    exact ⟨fun h => absurd h hx, by simp [hresult, hx]⟩

theorem not_fitsInt64_pow {a : Int} (ha : 2 ≤ a.natAbs) {b : Nat} (hb : 64 ≤ b) :
    ¬ FitsInt64 (a ^ b) := by
  intro hfits
  have hlarge : 2 ^ 64 ≤ (a ^ b).natAbs := by
    rw [Int.natAbs_pow]
    calc 2 ^ 64 ≤ 2 ^ b := Nat.pow_le_pow_right (by decide) hb
      _ ≤ a.natAbs ^ b := Nat.pow_le_pow_left ha b
  have hlow := hfits.1
  have hhigh := hfits.2
  omega

/-- The powers of 0, 1 and -1 depend on no more than whether the exponent is zero,
and whether it is even. -/
theorem pow_of_natAbs_le_one {a : Int} (ha : a.natAbs ≤ 1) (b : Nat) :
    a ^ b = if b = 0 then 1 else if b % 2 = 0 then a * a else a := by
  have hcases : a = 0 ∨ a = 1 ∨ a = -1 := by omega
  split
  · next hzero => rw [hzero, pow_zero]
  · next hzero =>
      rcases hcases with rfl | rfl | rfl
      · simp [hzero]
      · simp
      · split
        · next heven => rw [(Nat.even_iff.mpr heven).neg_one_pow]; rfl
        · next hodd => rw [(Nat.odd_iff.mpr (by omega)).neg_one_pow]

/-- Powers are exact, but for those of 0, 1 and -1 with an exponent that is not
looked at. -/
theorem naturalPower?_eq {a : Int} {b : Nat}
    (h : a.natAbs ≤ 1 → b ≤ largestExponent) :
    naturalPower? a b = Decimal.toInt64? (a ^ b) := by
  have hlarge (ha : 2 ≤ a.natAbs) (hb : 64 ≤ b) :
      none = Decimal.toInt64? (a ^ b) :=
    (Decimal.toInt64?_eq_none_iff.mpr (not_fitsInt64_pow ha hb)).symm
  unfold naturalPower?
  split
  · next hexponent =>
      have hmany : 64 ≤ b := le_trans (by decide) hexponent
      exact hlarge (by omega) hmany
  · split
    · next hbase => rw [pow_of_natAbs_le_one hbase]
    · split
      · next hbase hmany => exact hlarge (by omega) hmany
      · rfl

/-- The exponent is larger than is looked at, although no power of the base is
large. -/
def IsOverlooked (op : Operator) (a b : Int) : Prop :=
  op = .power ∧ a.natAbs ≤ 1 ∧ largestExponent < b

instance (op : Operator) (a b : Int) : Decidable (IsOverlooked op a b) :=
  inferInstanceAs (Decidable (_ ∧ _ ∧ _))

theorem isExact_power {a b : Int64} (hb : 0 ≤ b.toInt)
    (hseen : ¬ IsOverlooked .power a.toInt b.toInt) :
    IsExact "exponentiation" (a.toInt ^ b.toInt.toNat) (power a b) := by
  have hexponent : a.toInt.natAbs ≤ 1 → b.toInt.toNat ≤ largestExponent := by
    intro ha
    have hnot : ¬ (largestExponent : Int) < b.toInt :=
      fun hlt => hseen ⟨rfl, ha, hlt⟩
    omega
  have hpower : power a b = exact "exponentiation" (a.toInt ^ b.toInt.toNat) := by
    rw [power, if_neg (by omega), exact, naturalPower?_eq hexponent]
  rw [hpower]
  exact isExact_exact _ _

/-- Integers are added, subtracted, multiplied and raised to natural powers
exactly: the result is there if it has 64 bits, and else there is an overflow.
Only where an exponent beyond the largest one that is looked at stands over 0, 1
or -1 there is an overflow all the same. -/
theorem integer_arithmetic_is_exact (heap : Heap) (op : Operator) (a b : Int64)
    {operation : String} {x : Int}
    (hx : op.onIntegers? a.toInt b.toInt = some (operation, x)) :
    (¬ IsOverlooked op a.toInt b.toInt →
      IsExact operation x (applyOperator heap op (.integer a) (.integer b))) ∧
    (IsOverlooked op a.toInt b.toInt →
      applyOperator heap op (.integer a) (.integer b) =
        fail (.integerOverflow operation)) := by
  constructor
  · intro hseen
    cases op with
    | add => cases hx; exact isExact_exact _ _
    | subtract => cases hx; exact isExact_exact _ _
    | multiply => cases hx; exact isExact_exact _ _
    | power =>
        obtain ⟨hb, hvalue⟩ := Option.ite_none_right_eq_some.mp hx
        cases hvalue
        exact isExact_power hb hseen
    | _ => cases hx
  · rintro ⟨rfl, -, hexponent⟩
    obtain ⟨hb, hvalue⟩ := Option.ite_none_right_eq_some.mp hx
    cases hvalue
    have hmany : largestExponent < b.toInt.toNat := by omega
    change power a b = _
    rw [power, if_neg (by omega), naturalPower?, if_pos hmany]

/-- A power at the lower end of 64 bits, and one past the upper end. -/
theorem integer_arithmetic_is_exact_power :
    (∃ n : Int64, n.toInt = (-2) ^ 63 ∧
      applyOperator .empty .power (.integer (-2)) (.integer 63) =
        .ok (.integer n)) ∧
    applyOperator .empty .power (.integer 2) (.integer 63) =
      fail (.integerOverflow "exponentiation") := by
  have hlow := integer_arithmetic_is_exact .empty .power (-2) 63 rfl
  have hhigh := integer_arithmetic_is_exact .empty .power 2 63 rfl
  constructor
  · exact (hlow.1 (by decide)).fits (by decide)
  · exact (hhigh.1 (by decide)).overflows.mpr (by decide)

/-- Every power of 1 is 1, and yet there is an overflow when the exponent has more
than 32 bits. -/
theorem power_of_one_overflows :
    Operator.power.onIntegers? (1 : Int64).toInt (4294967296 : Int64).toInt =
      some ("exponentiation", 1) ∧ FitsInt64 1 ∧
    applyOperator .empty .power (.integer 1) (.integer 4294967296) =
      fail (.integerOverflow "exponentiation") := by
  refine ⟨?_, by decide, rfl⟩
  have hone : (1 : Int64).toInt ^ (4294967296 : Int64).toInt.toNat = 1 :=
    one_pow _
  rw [Operator.onIntegers?, if_pos (by decide), hone]

/-! ### Comparing numbers -/

variable {heap : Heap} {op : Operator} {a b : Value}

/-- Two numbers are equal if comparing them says so; for integers that is no other
question than whether they are the same. -/
theorem equal_eq_compare? (heap : Heap) (ha : a.isNumber = true)
    (hb : b.isNumber = true) :
    a.equal heap b = (a.compare? b == some .eq) := by
  have hintegers (m n : Int64) : (m == n) = (compare m.toInt n.toInt == .eq) := by
    rw [Bool.eq_iff_iff, beq_iff_eq, beq_iff_eq, compare_eq_iff_eq, Int64.toInt_inj]
  cases a with
  | integer m =>
      cases b with
      | integer n => exact hintegers m n
      | real => rfl
      | _ => cases hb
  | real =>
      cases b with
      | integer | real => rfl
      | _ => cases hb
  | _ => cases ha

/-- Numbers are compared as reals where no integer results from them; the order
itself does not depend on that. -/
theorem applyByKind_eq_reals (heap : Heap) (hop : ∀ m n, integers? op m n = none)
    (ha : a.isNumber = true) (hb : b.isNumber = true) :
    ∃ x y, applyByKind heap op a b = reals op a b x y := by
  cases a with
  | integer m =>
      cases b with
      | integer n =>
          refine ⟨m.toFloat, n.toFloat, ?_⟩
          change (integers? op m n).getD _ = _
          rw [hop m n]
          rfl
      | real r => exact ⟨m.toFloat, r, rfl⟩
      | _ => cases hb
  | real r =>
      cases b with
      | integer n => exact ⟨r, n.toFloat, rfl⟩
      | real s => exact ⟨r, s, rfl⟩
      | _ => cases hb
  | _ => cases ha

theorem ordered_eq {test : Ordering → Bool} {question : Option Ordering → Bool}
    (hnone : question none = false) (hsome : ∀ o, question (some o) = test o) :
    ordered a b test = .truth (question (a.compare? b)) := by
  unfold ordered
  cases a.compare? b with
  | none => rw [hnone]
  | some o => rw [hsome]

/-- An operator that compares numbers asks its question about their order. -/
theorem applyOperator_asks (heap : Heap) (op : Operator)
    {question : Option Ordering → Bool} (hop : op.asks? = some question)
    (ha : a.isNumber = true) (hb : b.isNumber = true) :
    applyOperator heap op a b = .ok (.truth (question (a.compare? b))) := by
  have hordered {test : Ordering → Bool} (hnone : question none = false)
      (hsome : ∀ o, question (some o) = test o) :
      Except.ok (ordered a b test) =
        (Except.ok (.truth (question (a.compare? b))) : Result) :=
    congrArg _ (ordered_eq hnone hsome)
  have hreals (hop : ∀ m n, integers? op m n = none) :=
    applyByKind_eq_reals heap hop ha hb
  cases op with
  | equal =>
      cases hop
      rw [applyOperator, equal_eq_compare? heap ha hb]
  | notEqual =>
      cases hop
      rw [applyOperator, equal_eq_compare? heap ha hb]
  | less | lessEqual | greater | greaterEqual =>
      cases hop
      obtain ⟨x, y, hkind⟩ := hreals fun _ _ => rfl
      refine hkind.trans (hordered rfl ?_)
      rintro (_ | _ | _) <;> rfl
  | _ => cases hop

/-- The six operators that compare agree. If two numbers have an order, exactly one
of less, equal and greater holds, and the others are made up of these; if they have
none, only unequal holds. Integers have the order that they have as integers of
any size. -/
theorem comparisons_agree (heap : Heap) (ha : a.isNumber = true)
    (hb : b.isNumber = true) :
    ∃ less equal greater : Bool,
      applyOperator heap .less a b = .ok (.truth less) ∧
      applyOperator heap .equal a b = .ok (.truth equal) ∧
      applyOperator heap .greater a b = .ok (.truth greater) ∧
      applyOperator heap .lessEqual a b = .ok (.truth (less || equal)) ∧
      applyOperator heap .greaterEqual a b = .ok (.truth (greater || equal)) ∧
      applyOperator heap .notEqual a b = .ok (.truth !equal) ∧
      (∀ order, a.compare? b = some order →
        [less, equal, greater].count true = 1 ∧
        less = (order == .lt) ∧ equal = (order == .eq) ∧ greater = (order == .gt)) ∧
      (a.compare? b = none → less = false ∧ equal = false ∧ greater = false) ∧
      (∀ m n, a = .integer m → b = .integer n →
        less = decide (m.toInt < n.toInt) ∧ equal = decide (m.toInt = n.toInt) ∧
        greater = decide (n.toInt < m.toInt)) := by
  have hless := applyOperator_asks heap .less rfl ha hb
  have hequal := applyOperator_asks heap .equal rfl ha hb
  have hgreater := applyOperator_asks heap .greater rfl ha hb
  have hlessEqual := applyOperator_asks heap .lessEqual rfl ha hb
  have hgreaterEqual := applyOperator_asks heap .greaterEqual rfl ha hb
  have hnotEqual := applyOperator_asks heap .notEqual rfl ha hb
  refine ⟨_, _, _, hless, hequal, hgreater, hlessEqual, hgreaterEqual, hnotEqual,
    ?_, ?_, ?_⟩
  · intro order horder
    rw [horder]
    cases order <;> decide
  · intro hnone
    rw [hnone]
    decide
  · rintro m n rfl rfl
    simp only [Value.compare?, Option.some_beq_some]
    refine ⟨?_, ?_, ?_⟩
    · rw [Bool.eq_iff_iff, beq_iff_eq, compare_lt_iff_lt, decide_eq_true_eq]
    · rw [Bool.eq_iff_iff, beq_iff_eq, compare_eq_iff_eq, decide_eq_true_eq]
    · rw [Bool.eq_iff_iff, beq_iff_eq, compare_gt_iff_gt, decide_eq_true_eq]

/-- Two neighbouring integers that are the same as reals. -/
theorem comparisons_agree_neighbours :
    (Value.integer 9007199254740993).isNumber = true ∧
    (Value.integer 9007199254740992).isNumber = true ∧
    applyOperator .empty .greater (.integer 9007199254740993)
      (.integer 9007199254740992) = .ok (.truth true) ∧
    applyOperator .empty .equal (.integer 9007199254740993)
      (.integer 9007199254740992) = .ok (.truth false) := by
  have hleft : (Value.integer 9007199254740993).isNumber = true := rfl
  have hright : (Value.integer 9007199254740992).isNumber = true := rfl
  obtain ⟨less, equal, greater, -, hequal, hgreater, -, -, -, -, -, hintegers⟩ :=
    comparisons_agree .empty hleft hright
  obtain ⟨-, rfl, rfl⟩ := hintegers _ _ rfl rfl
  exact ⟨hleft, hright, hgreater, hequal⟩

end Eval

end Prose
