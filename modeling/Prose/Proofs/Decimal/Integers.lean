import Prose.Decimal.Reader

/-!
Integers of 64 bits, and the digits of an integer. An integer that fits is held
exactly, and it is written as its digits after a minus sign if it is negative.
-/

namespace Prose

def FitsInt64 (x : Int) : Prop :=
  -9223372036854775808 ≤ x ∧ x ≤ 9223372036854775807

instance (x : Int) : Decidable (FitsInt64 x) := inferInstanceAs (Decidable (_ ∧ _))

/-- Only the smallest integer has no opposite of 64 bits. -/
theorem toInt_neg_of_ne {n : Int64} (hn : n ≠ .minValue) :
    (-n).toInt = -n.toInt := by
  have hlow : -9223372036854775808 ≤ n.toInt := n.le_toInt
  have hhigh : n.toInt ≤ 9223372036854775807 := n.toInt_le
  have hne : n.toInt ≠ -9223372036854775808 := fun heq =>
    hn (Int64.toInt_inj.mp heq)
  rw [Int64.toInt_neg]
  exact Int.bmod_eq_of_le (by omega) (by omega)

namespace Decimal

theorem toInt64?_eq (x : Int) :
    toInt64? x = if FitsInt64 x then some (Int64.ofInt x) else none := rfl

theorem toInt_ofInt_of_fits {x : Int} (hx : FitsInt64 x) :
    (Int64.ofInt x).toInt = x := by
  obtain ⟨hlow, hhigh⟩ := hx
  exact Int64.toInt_ofInt_of_le (by omega) (by omega)

theorem toInt64?_eq_some_iff {x : Int} {n : Int64} :
    toInt64? x = some n ↔ n.toInt = x := by
  rw [toInt64?_eq]
  constructor
  · intro h
    obtain ⟨hfits, heq⟩ := Option.ite_none_right_eq_some.mp h
    cases heq
    exact toInt_ofInt_of_fits hfits
  · rintro rfl
    have hfits : FitsInt64 n.toInt := ⟨n.le_toInt, n.toInt_le⟩
    rw [if_pos hfits, Int64.ofInt_toInt]

theorem toInt64?_eq_none_iff {x : Int} : toInt64? x = none ↔ ¬ FitsInt64 x := by
  rw [toInt64?_eq]
  split <;> simp_all

theorem exists_toInt64?_of_fits {x : Int} (hx : FitsInt64 x) :
    ∃ n, toInt64? x = some n ∧ n.toInt = x :=
  ⟨.ofInt x, by rw [toInt64?_eq, if_pos hx], toInt_ofInt_of_fits hx⟩

/-! ### Digits -/

theorem toList_toString_of_nonneg {x : Int} (hx : 0 ≤ x) :
    (toString x).toList = Nat.toDigits 10 x.toNat := by
  rw [Int.toString_eq_repr, Int.repr_eq_if, if_pos hx, Nat.toList_repr]

theorem toList_toString_of_neg {x : Int} (hx : x < 0) :
    (toString x).toList = '-' :: Nat.toDigits 10 (-x).toNat := by
  rw [Int.toString_eq_repr, Int.repr_eq_if, if_neg (Int.not_le.mpr hx),
    String.toList_append, Nat.toList_repr]
  rfl

end Decimal

end Prose
