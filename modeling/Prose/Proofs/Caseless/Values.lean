import Prose.Eval.Operators
import Prose.Proofs.Caseless.Tokens
import Prose.Proofs.Chain.Map
import Prose.Value.Show

/-!
Values whatever the case of names. The only names and words in a value are those
of functions, and no operator looks into a function: functions are told apart by
their numbers and all of them are shown alike. So operators, comparisons and the
texts of values do not depend on the case of names.
-/

namespace Prose

/-! ### Images -/

def Function.caseless (f : Function) : Function :=
  ⟨f.number, f.params.map Name.caseless, f.body.relabel .caseless⟩

def Value.caseless : Value → Value
  | .function f => .function f.caseless
  | value => value

def Heap.caseless (heap : Heap) : Heap :=
  ⟨heap.lists.map (Chain.map Value.caseless)⟩

namespace Heap

variable (heap : Heap)

@[simp] theorem size_caseless : heap.caseless.size = heap.size :=
  Array.size_map ..

@[simp] theorem get_caseless (ref : ListRef) :
    heap.caseless.get ref = (heap.get ref).map Value.caseless := by
  rw [get, caseless, Array.getElem?_map, get]
  cases heap.lists[ref.index]? with
  | none => exact (Chain.map_empty _).symm
  | some c => rfl

@[simp] theorem items_caseless (ref : ListRef) :
    heap.caseless.items ref = (heap.items ref).map Value.caseless := by
  rw [items, get_caseless, Chain.toList_map, items]

theorem alloc_caseless (c : Chain Value) :
    heap.caseless.alloc (c.map Value.caseless) =
      ((heap.alloc c).1, (heap.alloc c).2.caseless) := by
  simp only [alloc, caseless, Array.size_map, Array.map_push]

theorem put_caseless (ref : ListRef) (c : Chain Value) :
    heap.caseless.put ref (c.map Value.caseless) =
      (heap.put ref c).caseless := by
  simp only [put, caseless, Array.map_setIfInBounds]

theorem modify_push_caseless (ref : ListRef) (value : Value) :
    heap.caseless.modify ref (·.push value.caseless) =
      (heap.modify ref (·.push value)).caseless := by
  simp only [modify, caseless]
  rw [Chain.map_modify]
  intro c
  exact (c.push_map Value.caseless value).symm

end Heap

/-! ### Single values -/

namespace Value

variable (value : Value)

@[simp] theorem typeName_caseless :
    value.caseless.typeName = value.typeName := by
  cases value <;> rfl

@[simp] theorem isNumber_caseless :
    value.caseless.isNumber = value.isNumber := by
  cases value <;> rfl

theorem showUpTo_caseless (heap : Heap) (n : Nat) (openLists : List ListRef) :
    showUpTo heap.caseless n openLists value.caseless =
      showUpTo heap n openLists value := by
  induction n generalizing openLists value with
  | zero => rfl
  | succ n ih =>
      cases value with
      | list ref =>
          simp only [caseless, showUpTo, Heap.items_caseless, List.map_map]
          congr 4
          apply List.map_congr_left
          intro item _
          exact ih item _
      | _ => rfl

/-- What is printed of a value does not depend on the case of names. -/
@[simp] theorem toText_caseless (heap : Heap) :
    value.caseless.toText heap.caseless = value.toText heap := by
  rw [toText, Heap.size_caseless, showUpTo_caseless, toText]

@[simp] theorem toAnswer_caseless (heap : Heap) :
    value.caseless.toAnswer heap.caseless = value.toAnswer heap := by
  cases value with
  | text s => rfl
  | integer n => exact (Value.integer n).toText_caseless heap
  | real r => exact (Value.real r).toText_caseless heap
  | truth b => exact (Value.truth b).toText_caseless heap
  | list ref => exact (Value.list ref).toText_caseless heap
  | function f => exact (Value.function f).toText_caseless heap

theorem equalUpTo_caseless (heap : Heap) (n : Nat)
    (openPairs : List (ListRef × ListRef)) (a b : Value) :
    equalUpTo heap.caseless n openPairs a.caseless b.caseless =
      equalUpTo heap n openPairs a b := by
  induction n generalizing openPairs a b with
  | zero => rfl
  | succ n ih =>
      cases a with
      | list r =>
          cases b with
          | list r' =>
              have hitems (p : Value × Value) :=
                ih ((r, r') :: openPairs) p.1 p.2
              change equalUpTo heap.caseless (n + 1) openPairs (.list r)
                (.list r') = _
              simp only [equalUpTo, Heap.get_caseless, Chain.length_map,
                Heap.items_caseless, List.zip_map, List.all_map,
                Function.comp_def, Prod.map_fst, Prod.map_snd, hitems]
          | _ => rfl
      | _ => cases b <;> rfl

/-- Equality does not depend on the case of names. -/
@[simp] theorem equal_caseless (heap : Heap) (a b : Value) :
    a.caseless.equal heap.caseless b.caseless = a.equal heap b := by
  rw [equal, Heap.size_caseless, equalUpTo_caseless, equal]

end Value

/-! ### Operators -/

namespace Eval

def Result.caseless (result : Result) : Result := result.map Value.caseless

/-! Numbers are not functions, and neither are the results of operators on
numbers. -/

theorem caseless_exact (operation : String) (n : Int) :
    Result.caseless (exact operation n) = exact operation n := by
  unfold exact
  split <;> rfl

theorem caseless_power (a b : Int64) :
    Result.caseless (power a b) = power a b := by
  unfold power
  split
  · rfl
  · split <;> rfl

theorem caseless_reals (op : Operator) (left right : Value) (a b : Float) :
    Result.caseless (reals op left right a b) = reals op left right a b := by
  cases op <;> rfl

theorem caseless_numbers (op : Operator) (left right : Value) :
    Result.caseless (numbers op left right) = numbers op left right := by
  unfold numbers
  dsimp only
  split
  · next a b =>
      cases op with
      | add | subtract | multiply => exact caseless_exact _ _
      | power => exact caseless_power a b
      | _ => rfl
  · split
    · exact caseless_reals op _ _ _ _
    · rfl

theorem caseless_of_isNumber {value : Value} (h : value.isNumber = true) :
    value.caseless = value := by
  cases value <;> first | rfl | cases h

theorem element_caseless (heap : Heap) (ref : ListRef) (index : Int64) :
    element heap.caseless ref index =
      Result.caseless (element heap ref index) := by
  simp only [element, Heap.get_caseless, Chain.get?_map, outOfBounds,
    Chain.length_map]
  cases (heap.get ref).get? index.toInt <;> rfl

theorem applyToNumber_caseless (op : Operator) (left right : Value) :
    (if right.caseless.isNumber then numbers op left right.caseless
      else fail (.mismatchedOperands left.typeName op
        right.caseless.typeName) : Result) =
    Result.caseless (if right.isNumber then numbers op left right
      else fail (.mismatchedOperands left.typeName op right.typeName)) := by
  rw [Value.isNumber_caseless, Value.typeName_caseless]
  split
  · next hright => rw [caseless_of_isNumber hright, caseless_numbers]
  · rfl

theorem applyByKind_caseless (heap : Heap) (op : Operator)
    (left right : Value) :
    applyByKind heap.caseless op left.caseless right.caseless =
      Result.caseless (applyByKind heap op left right) := by
  cases left with
  | integer n => exact applyToNumber_caseless op (.integer n) right
  | real r => exact applyToNumber_caseless op (.real r) right
  | text a => cases right <;> cases op <;> rfl
  | list ref =>
      cases op with
      | atPosition =>
          cases right with
          | integer index => exact element_caseless heap ref index
          | _ => rfl
      | _ => cases right <;> rfl
  | truth b => rfl
  | function f => rfl

/-- Operators do not depend on the case of names. -/
theorem applyOperator_caseless (heap : Heap) (op : Operator)
    (left right : Value) :
    applyOperator heap.caseless op left.caseless right.caseless =
      Result.caseless (applyOperator heap op left right) := by
  have hkind := applyByKind_caseless heap op left right
  cases op with
  | equal | notEqual =>
      simp only [applyOperator, Value.equal_caseless]
      rfl
  | _ => exact hkind

end Eval

end Prose
