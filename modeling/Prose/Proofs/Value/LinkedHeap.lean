import Prose.Proofs.Chain.Linked
import Prose.Value.Basic

/-!
Heaps whose lists are in good shape. New lists are, and no operation on a list of
the heap changes that.
-/

namespace Prose

namespace Chain

variable {α : Type} {c c' : Chain α} {cells : List (Cell α)}

/-- Adding the elements of a list one after the other. -/
theorem Linked.foldl_push (h : c.Linked cells) (values : List α) :
    ∃ cells', (values.foldl Chain.push c).Linked cells' := by
  induction values generalizing c cells with
  | nil => exact ⟨cells, h⟩
  | cons value values ih => exact ih (h.push value)

theorem linked_ofList (values : List α) :
    ∃ cells, (ofList values).Linked cells :=
  linked_empty.foldl_push values

theorem Linked.of_set? (h : c.Linked cells) {index : Int} {value : α}
    (hset : c.set? index value = some c') : ∃ cells', c'.Linked cells' := by
  rw [set?_eq] at hset
  obtain ⟨slot, hslot, rfl⟩ := Option.map_eq_some_iff.mp hset
  obtain ⟨before, cell, after, rfl, _, rfl⟩ :=
    (h.locate?_eq_some_iff index slot).mp hslot
  exact ⟨_, h.withValue value⟩

theorem Linked.of_remove? (h : c.Linked cells) {index : Int} {value : α}
    (hremove : c.remove? index = some (value, c')) :
    ∃ cells', c'.Linked cells' := by
  rw [remove?_eq] at hremove
  obtain ⟨slot, hslot, hnode⟩ := Option.bind_eq_some_iff.mp hremove
  obtain ⟨before, cell, after, rfl, _, rfl⟩ :=
    (h.locate?_eq_some_iff index slot).mp hslot
  rw [h.node before cell after rfl, Option.map_some, Option.some.injEq] at hnode
  obtain ⟨_, rfl⟩ := Prod.mk.inj hnode
  exact ⟨_, h.withoutSlot⟩

end Chain

namespace Heap

variable {h : Heap}

def Linked (h : Heap) : Prop := ∀ ref, ∃ cells, (h.get ref).Linked cells

/-- A reference that names no list of the heap stands for the empty list. -/
theorem linked_of_forall_mem (hlists : ∀ c ∈ h.lists, ∃ cells, c.Linked cells) :
    h.Linked := by
  intro ref
  rw [get]
  cases hlist : h.lists[ref.index]? with
  | none => exact ⟨[], Chain.linked_empty⟩
  | some c => exact hlists c (Array.mem_of_getElem? hlist)

theorem Linked.of_mem (hlinked : h.Linked) {c : Chain Value} (hc : c ∈ h.lists) :
    ∃ cells, c.Linked cells := by
  obtain ⟨i, hi⟩ := Array.mem_iff_getElem?.mp hc
  have hget := hlinked ⟨i⟩
  rw [get, hi] at hget
  exact hget

theorem linked_empty : empty.Linked := by
  apply linked_of_forall_mem
  simp [empty]

theorem Linked.alloc (hlinked : h.Linked) (values : List Value) :
    (h.alloc (.ofList values)).2.Linked := by
  apply linked_of_forall_mem
  intro c hc
  rcases Array.mem_push.mp hc with hold | rfl
  · exact hlinked.of_mem hold
  · exact Chain.linked_ofList values

theorem Linked.put (hlinked : h.Linked) (ref : ListRef) {c : Chain Value}
    (hc : ∃ cells, c.Linked cells) : (h.put ref c).Linked := by
  apply linked_of_forall_mem
  intro other hother
  rcases Array.mem_or_eq_of_mem_setIfInBounds hother with hold | rfl
  · exact hlinked.of_mem hold
  · exact hc

theorem Linked.modify_push (hlinked : h.Linked) (ref : ListRef) (value : Value) :
    (h.modify ref (·.push value)).Linked := by
  apply linked_of_forall_mem
  intro c hc
  obtain ⟨i, hi⟩ := Array.mem_iff_getElem?.mp hc
  simp only [modify, Array.getElem?_modify] at hi
  split at hi
  · obtain ⟨old, hold, rfl⟩ := Option.map_eq_some_iff.mp hi
    obtain ⟨cells, hcells⟩ := hlinked.of_mem (Array.mem_of_getElem? hold)
    exact ⟨_, hcells.push value⟩
  · exact hlinked.of_mem (Array.mem_of_getElem? hi)

theorem Linked.length_items (hlinked : h.Linked) (ref : ListRef) :
    (h.items ref).length = (h.get ref).length := by
  obtain ⟨cells, hcells⟩ := hlinked ref
  rw [items, hcells.toList_eq, List.length_map, hcells.length]

end Heap

end Prose
