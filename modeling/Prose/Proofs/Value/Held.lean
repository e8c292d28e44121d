import Prose.Scope
import Prose.Value.Walk

/-!
The values that lists and scopes hold. What an operation leaves in a list or a
scope was there before or was given to it, so a property of all values held is
kept by every operation that is given values with the property, and every value
that is taken out has it.
-/

namespace Prose

/-- An array with one element changed has its old elements and the changed
one. -/
theorem mem_or_eq_of_mem_modify {γ : Type} {xs : Array γ} {i : Nat} {f : γ → γ}
    {x : γ} (h : x ∈ xs.modify i f) : x ∈ xs ∨ ∃ y ∈ xs, x = f y := by
  obtain ⟨j, hj⟩ := Array.mem_iff_getElem?.1 h
  rw [Array.getElem?_modify] at hj
  split at hj
  · obtain ⟨y, hy, rfl⟩ := Option.map_eq_some_iff.1 hj
    exact Or.inr ⟨y, Array.mem_of_getElem? hy, rfl⟩
  · exact Or.inl (Array.mem_of_getElem? hj)

/-! ### Sequences -/

namespace Chain

variable {α : Type} {Q : α → Prop}

/-- Every element in the slots has a property. -/
def Filled (Q : α → Prop) (slots : Array (Option (Node α))) : Prop :=
  ∀ node, some node ∈ slots → Q node.value

def All (Q : α → Prop) (c : Chain α) : Prop := Filled Q c.slots

theorem Filled.modify {slots : Array (Option (Node α))} (h : Filled Q slots)
    (slot : Nat) {f : Node α → Node α}
    (hf : ∀ node, Q node.value → Q (f node).value) :
    Filled Q (slots.modify slot fun n => n.map f) := by
  intro node hnode
  rcases mem_or_eq_of_mem_modify hnode with hold | ⟨old, hold, hchanged⟩
  · exact h node hold
  · obtain ⟨before, rfl, rfl⟩ := Option.map_eq_some_iff.1 hchanged.symm
    exact hf before (h before hold)

/-- Links are not elements. -/
theorem Filled.linkNext {slots : Array (Option (Node α))} (h : Filled Q slots)
    (slot : Nat) (next : Option Nat) :
    Filled Q (Chain.linkNext slots slot next) :=
  h.modify slot fun _ hnode => hnode

theorem Filled.linkPrev {slots : Array (Option (Node α))} (h : Filled Q slots)
    (slot : Nat) (prev : Option Nat) :
    Filled Q (Chain.linkPrev slots slot prev) :=
  h.modify slot fun _ hnode => hnode

theorem all_empty : (empty : Chain α).All Q := by
  intro node hnode
  simp [empty] at hnode

namespace All

variable {c c' : Chain α}

theorem node? (h : c.All Q) {slot : Nat} {node : Node α}
    (hnode : c.node? slot = some node) : Q node.value := by
  obtain ⟨content, hcontent, rfl⟩ := Option.bind_eq_some_iff.1 hnode
  exact h node (Array.mem_of_getElem? hcontent)

theorem place (h : c.All Q) {node : Node α} (hnode : Q node.value) :
    (c.place node).2.All Q := by
  unfold Chain.place
  split
  · intro other hother
    rcases Array.mem_or_eq_of_mem_setIfInBounds hother with hold | hnew
    · exact h other hold
    · cases hnew
      exact hnode
  · intro other hother
    rcases Array.mem_push.1 hother with hold | hnew
    · exact h other hold
    · cases hnew
      exact hnode

theorem push (h : c.All Q) {value : α} (hvalue : Q value) :
    (c.push value).All Q := by
  have hplaced : (c.place ⟨value, c.serials + 1, c.tail, none⟩).2.All Q :=
    h.place hvalue
  unfold Chain.push
  dsimp only
  split
  · exact hplaced.linkNext _ _
  · exact hplaced

theorem foldl_push (h : c.All Q) {values : List α}
    (hvalues : ∀ value ∈ values, Q value) :
    (values.foldl Chain.push c).All Q := by
  induction values generalizing c with
  | nil => exact h
  | cons value values ih =>
      rw [List.forall_mem_cons] at hvalues
      exact ih (h.push hvalues.1) hvalues.2

theorem get? (h : c.All Q) {index : Int} {value : α}
    (hget : c.get? index = some value) : Q value := by
  obtain ⟨node, hnode, rfl⟩ := Option.map_eq_some_iff.1 hget
  obtain ⟨slot, _, hslot⟩ := Option.bind_eq_some_iff.1 hnode
  exact h.node? hslot

theorem set? (h : c.All Q) {index : Int} {value : α} (hvalue : Q value)
    (hset : c.set? index value = some c') : c'.All Q := by
  obtain ⟨slot, _, rfl⟩ := Option.map_eq_some_iff.1 hset
  exact h.modify slot fun _ _ => hvalue

theorem unlink (h : c.All Q) (node : Node α) : (c.unlink node).All Q := by
  obtain ⟨value, serial, prev, next⟩ := node
  cases prev with
  | none =>
      cases next with
      | none => exact h
      | some next => exact h.linkPrev next _
  | some prev =>
      cases next with
      | none => exact h.linkNext prev _
      | some next => exact (h.linkNext prev _).linkPrev next _

theorem remove? (h : c.All Q) {index : Int} {value : α}
    (hremove : c.remove? index = some (value, c')) : Q value ∧ c'.All Q := by
  obtain ⟨slot, _, hslot⟩ := Option.bind_eq_some_iff.1 hremove
  obtain ⟨node, hnode, hremoved⟩ := Option.map_eq_some_iff.1 hslot
  obtain ⟨rfl, rfl⟩ := Prod.mk.inj hremoved
  refine ⟨h.node? hnode, ?_⟩
  have hcleared : ({ c with slots := c.slots.setIfInBounds slot none } :
      Chain α).All Q := by
    intro other hother
    rcases Array.mem_or_eq_of_mem_setIfInBounds hother with hold | hnone
    · exact h other hold
    · cases hnone
  exact hcleared.unlink node

/-- A walk visits elements of the sequence. -/
theorem next (h : c.All Q) {walk walk' : Walk} {value : α}
    (hnext : walk.next c = (some value, walk')) : Q value := by
  unfold Walk.next at hnext
  split at hnext
  · cases hnext
  · split at hnext
    · cases hnext
    · next node hnode =>
        cases hnext
        exact h.node? hnode

end All

theorem all_ofList {values : List α} (h : ∀ value ∈ values, Q value) :
    (ofList values).All Q :=
  all_empty.foldl_push h

end Chain

/-! ### Heaps -/

namespace Heap

variable {Q : Value → Prop} {h : Heap}

def All (Q : Value → Prop) (h : Heap) : Prop := ∀ c ∈ h.lists, c.All Q

theorem all_empty : empty.All Q := by
  intro c hc
  simp [empty] at hc

namespace All

theorem get (hall : h.All Q) (ref : ListRef) : (h.get ref).All Q := by
  rw [Heap.get]
  cases hlist : h.lists[ref.index]? with
  | none => exact Chain.all_empty
  | some c => exact hall c (Array.mem_of_getElem? hlist)

theorem alloc (hall : h.All Q) {c : Chain Value} (hc : c.All Q) :
    (h.alloc c).2.All Q := by
  intro other hother
  rcases Array.mem_push.1 hother with hold | rfl
  · exact hall other hold
  · exact hc

theorem put (hall : h.All Q) (ref : ListRef) {c : Chain Value} (hc : c.All Q) :
    (h.put ref c).All Q := by
  intro other hother
  rcases Array.mem_or_eq_of_mem_setIfInBounds hother with hold | rfl
  · exact hall other hold
  · exact hc

theorem modify_push (hall : h.All Q) (ref : ListRef) {value : Value}
    (hvalue : Q value) : (h.modify ref (·.push value)).All Q := by
  intro c hc
  simp only [Heap.modify] at hc
  rcases mem_or_eq_of_mem_modify hc with hold | ⟨old, hold, rfl⟩
  · exact hall c hold
  · exact (hall old hold).push hvalue

end All

end Heap

/-! ### Scopes -/

namespace Frame

variable {Q : Value → Prop} {f : Frame}

def All (Q : Value → Prop) (f : Frame) : Prop := ∀ b ∈ f.bindings, Q b.2

theorem all_empty : empty.All Q := by
  intro b hb
  cases hb

namespace All

theorem get? (h : f.All Q) {name : Name} {value : Value}
    (hget : f.get? name = some value) : Q value := by
  obtain ⟨b, hb, rfl⟩ := Option.map_eq_some_iff.1 hget
  exact h b (List.mem_of_find?_eq_some hb)

theorem update (h : f.All Q) (name : Name) {value : Value} (hvalue : Q value) :
    (f.update name value).All Q := by
  intro b hb
  obtain ⟨old, hold, rfl⟩ := List.mem_map.1 hb
  split
  · exact hvalue
  · exact h old hold

theorem declare (h : f.All Q) (name : Name) {value : Value} (hvalue : Q value) :
    (f.declare name value).All Q := by
  unfold Frame.declare
  split
  · exact h.update name hvalue
  · intro b hb
    rcases List.mem_append.1 hb with hold | hnew
    · exact h b hold
    · obtain rfl := List.mem_singleton.1 hnew
      exact hvalue

end All

end Frame

namespace Scope

variable {Q : Value → Prop} {s : Scope}

def All (Q : Value → Prop) (s : Scope) : Prop := ∀ f ∈ s.frames, f.All Q

theorem all_root : root.All Q := by
  intro f hf
  obtain rfl := List.mem_singleton.1 hf
  exact Frame.all_empty

/-- Changing the innermost binding of a name. -/
theorem all_of_updateFirst? {name : Name} {value : Value} {fs fs' : List Frame}
    (h : updateFirst? name value fs = some fs') (hfs : ∀ f ∈ fs, f.All Q)
    (hvalue : Q value) : ∀ f ∈ fs', f.All Q := by
  induction fs generalizing fs' with
  | nil => cases h
  | cons f rest ih =>
      rw [List.forall_mem_cons] at hfs
      rw [updateFirst?] at h
      split at h
      · cases h
        exact List.forall_mem_cons.2 ⟨hfs.1.update name hvalue, hfs.2⟩
      · obtain ⟨rest', hrest, rfl⟩ := Option.map_eq_some_iff.1 h
        exact List.forall_mem_cons.2 ⟨hfs.1, ih hrest hfs.2⟩

namespace All

theorem get? (h : s.All Q) {name : Name} {value : Value}
    (hget : s.get? name = some value) : Q value := by
  obtain ⟨f, hf, hvalue⟩ := List.exists_of_findSome?_eq_some hget
  exact (h f hf).get? hvalue

theorem enter (h : s.All Q) {frame : Frame} (hframe : frame.All Q) :
    (s.enter frame).All Q :=
  List.forall_mem_cons.2 ⟨hframe, h⟩

theorem leave (h : s.All Q) : s.leave.All Q := by
  obtain ⟨inner, outer⟩ := s
  cases outer with
  | nil => exact h
  | cons frame rest => exact (List.forall_mem_cons.1 h).2

theorem assign (h : s.All Q) (name : Name) {value : Value} (hvalue : Q value) :
    (s.assign name value).All Q := by
  unfold Scope.assign
  split
  · next inner outer hupdated => exact all_of_updateFirst? hupdated h hvalue
  · obtain ⟨hinner, houter⟩ := List.forall_mem_cons.1 h
    exact List.forall_mem_cons.2 ⟨hinner.declare name hvalue, houter⟩

end All

end Scope

end Prose
