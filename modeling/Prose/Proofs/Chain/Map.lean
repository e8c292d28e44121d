import Mathlib.Data.List.Basic
import Prose.Value.Walk

/-!
Linked sequences element by element. No operation on a sequence looks at its
elements, so changing every element changes nothing but the elements: each
operation on the changed sequence gives the changed outcome of the operation.
-/

namespace Prose

variable {α β : Type}

def Chain.Node.map (f : α → β) (node : Chain.Node α) : Chain.Node β :=
  ⟨f node.value, node.serial, node.prev, node.next⟩

def Chain.map (f : α → β) (c : Chain α) : Chain β :=
  { slots := c.slots.map (Option.map (Node.map f))
    free := c.free
    head := c.head
    tail := c.tail
    length := c.length
    serials := c.serials }

namespace Chain

theorem map_modify {γ δ : Type} {f : γ → δ} {g : γ → γ} {g' : δ → δ}
    (h : ∀ a, f (g a) = g' (f a)) (slots : Array γ) (i : Nat) :
    (slots.modify i g).map f = (slots.map f).modify i g' := by
  apply Array.ext_getElem?
  intro j
  rw [Array.getElem?_map, Array.getElem?_modify, Array.getElem?_modify,
    Array.getElem?_map]
  split
  · cases slots[j]? with
    | none => rfl
    | some a => exact congrArg some (h a)
  · rfl

variable (f : α → β) (c : Chain α)

@[simp] theorem map_empty : (empty : Chain α).map f = empty := by
  simp [map, empty]

@[simp] theorem length_map : (c.map f).length = c.length := rfl

@[simp] theorem head_map : (c.map f).head = c.head := rfl

@[simp] theorem tail_map : (c.map f).tail = c.tail := rfl

@[simp] theorem size_slots_map : (c.map f).slots.size = c.slots.size :=
  Array.size_map ..

@[simp] theorem node?_map (slot : Nat) :
    (c.map f).node? slot = (c.node? slot).map (Node.map f) := by
  rw [node?, map, Array.getElem?_map, node?]
  rcases c.slots[slot]? with _ | _ | node <;> rfl

theorem linkNext_map (slots : Array (Option (Node α))) (slot : Nat)
    (next : Option Nat) :
    (linkNext slots slot next).map (Option.map (Node.map f)) =
      linkNext (slots.map (Option.map (Node.map f))) slot next := by
  apply map_modify
  rintro (_ | node) <;> rfl

theorem linkPrev_map (slots : Array (Option (Node α))) (slot : Nat)
    (prev : Option Nat) :
    (linkPrev slots slot prev).map (Option.map (Node.map f)) =
      linkPrev (slots.map (Option.map (Node.map f))) slot prev := by
  apply map_modify
  rintro (_ | node) <;> rfl

theorem place_map (node : Node α) :
    (c.map f).place (node.map f) =
      ((c.place node).1, (c.place node).2.map f) := by
  obtain ⟨slots, free, head, tail, length, serials⟩ := c
  cases free with
  | nil => simp [place, map]
  | cons slot free => simp [place, map]

@[simp] theorem push_map (value : α) :
    (c.map f).push (f value) = (c.push value).map f := by
  have hplace := c.place_map f ⟨value, c.serials + 1, c.tail, none⟩
  rw [Node.map] at hplace
  unfold push
  simp only [tail_map]
  rw [show (c.map f).serials = c.serials from rfl, hplace]
  generalize c.place ⟨value, c.serials + 1, c.tail, none⟩ = placed
  cases c.tail with
  | none => rfl
  | some tail => simp only [map, linkNext_map]

theorem ofList_map (values : List α) :
    ofList (values.map f) = (ofList values).map f := by
  have hfold (c : Chain α) :
      (values.map f).foldl push (c.map f) = (values.foldl push c).map f := by
    induction values generalizing c with
    | nil => rfl
    | cons value values ih =>
        rw [List.map_cons, List.foldl_cons, List.foldl_cons, push_map, ih]
  rw [ofList, ← map_empty f, hfold, ofList]

theorem stepForward_map (n : Nat) (slot : Option Nat) :
    (c.map f).stepForward n slot = c.stepForward n slot := by
  induction n generalizing slot with
  | zero => rfl
  | succ n ih =>
      rw [stepForward, stepForward, ih]
      congr 1
      cases slot with
      | none => rfl
      | some slot =>
          simp only [Option.bind_some, node?_map]
          cases c.node? slot <;> rfl

theorem stepBackward_map (n : Nat) (slot : Option Nat) :
    (c.map f).stepBackward n slot = c.stepBackward n slot := by
  induction n generalizing slot with
  | zero => rfl
  | succ n ih =>
      rw [stepBackward, stepBackward, ih]
      congr 1
      cases slot with
      | none => rfl
      | some slot =>
          simp only [Option.bind_some, node?_map]
          cases c.node? slot <;> rfl

@[simp] theorem locate?_map (index : Int) :
    (c.map f).locate? index = c.locate? index := by
  simp only [locate?, length_map, head_map, tail_map, stepForward_map,
    stepBackward_map]

theorem get?_map (index : Int) :
    (c.map f).get? index = (c.get? index).map f := by
  rw [get?, locate?_map, get?]
  cases c.locate? index with
  | none => rfl
  | some slot =>
      simp only [Option.bind_some, node?_map]
      cases c.node? slot <;> rfl

theorem set?_map (index : Int) (value : α) :
    (c.map f).set? index (f value) = (c.set? index value).map (map f) := by
  rw [set?, locate?_map, set?]
  cases c.locate? index with
  | none => rfl
  | some slot =>
      simp only [Option.map_some, map]
      rw [map_modify (f := Option.map (Node.map f))]
      rintro (_ | node) <;> rfl

theorem unlink_map (node : Node α) :
    (c.map f).unlink (node.map f) = (c.unlink node).map f := by
  obtain ⟨value, serial, prev, next⟩ := node
  cases prev <;> cases next <;>
    simp only [unlink, Node.map, map, linkNext_map, linkPrev_map]

theorem remove?_map (index : Int) :
    (c.map f).remove? index =
      (c.remove? index).map fun p => (f p.1, p.2.map f) := by
  rw [remove?, locate?_map, remove?]
  cases c.locate? index with
  | none => rfl
  | some slot =>
      simp only [Option.bind_some, node?_map]
      cases c.node? slot with
      | none => rfl
      | some node =>
          have hunlink := unlink_map f
            { c with slots := c.slots.setIfInBounds slot none } node
          simp only [map, Array.map_setIfInBounds, Option.map_none] at hunlink
          simp only [Option.map_some, map, hunlink]
          rfl

theorem collect_map (n : Nat) (slot : Option Nat) :
    (c.map f).collect n slot = (c.collect n slot).map f := by
  induction n generalizing slot with
  | zero => rfl
  | succ n ih =>
      cases slot with
      | none => rfl
      | some slot =>
          simp only [collect, Option.bind_some, node?_map]
          cases c.node? slot with
          | none => rfl
          | some node => exact congrArg _ (ih node.next)

@[simp] theorem toList_map : (c.map f).toList = c.toList.map f := by
  rw [toList, size_slots_map, head_map, collect_map, toList]

theorem holds_map : (c.map f).holds = c.holds := by
  funext mark
  rw [holds, node?_map, holds]
  cases c.node? mark.slot <;> rfl

theorem mark?_map : (c.map f).mark? = c.mark? := by
  funext slot
  rw [mark?, node?_map, mark?]
  cases c.node? slot <;> rfl

end Chain

/-- A walk goes through the changed sequence as through the sequence. -/
theorem Walk.next_map (f : α → β) (c : Chain α) (walk : Walk) :
    walk.next (c.map f) = ((walk.next c).1.map f, (walk.next c).2) := by
  have htarget : walk.target? (c.map f) = walk.target? c := by
    cases walk with
    | start | done => rfl
    | visiting current ahead =>
        simp only [target?, Chain.holds_map, Chain.node?_map]
        cases c.node? current.slot <;> rfl
  rw [next, htarget, next]
  cases walk.target? c with
  | none => rfl
  | some slot =>
      simp only [Chain.node?_map, Chain.mark?_map]
      cases c.node? slot <;> rfl

end Prose
