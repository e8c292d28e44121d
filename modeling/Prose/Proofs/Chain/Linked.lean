import Mathlib.Data.List.Nodup
import Prose.Value.Chain

/-!
The shape of a linked sequence. A sequence of cells stands for the elements in
order, each with the slot it lives in and its serial number; `Linked` says that
the slots, the links in both directions, the ends and the free slots are those
of that sequence. Every operation takes a linked sequence to a linked one.
-/

namespace Prose.Chain

variable {α : Type}

/-- An element with the slot it lives in and its serial number. -/
structure Cell (α : Type) where
  slot : Nat
  serial : Nat
  value : α

def Cell.node (before : List (Cell α)) (cell : Cell α)
    (after : List (Cell α)) : Node α :=
  ⟨cell.value, cell.serial, before.getLast?.map Cell.slot,
    after.head?.map Cell.slot⟩

/-- The invariant of linked sequences: `cells` are the elements in order. -/
structure Linked (c : Chain α) (cells : List (Cell α)) : Prop where
  head : c.head = cells.head?.map Cell.slot
  tail : c.tail = cells.getLast?.map Cell.slot
  /-- Both links of every element name its neighbours. -/
  node : ∀ before cell after, cells = before ++ cell :: after →
    c.node? cell.slot = some (cell.node before after)
  /-- No slot outside the sequence is occupied. -/
  occupied : ∀ slot, (c.node? slot).isSome → slot ∈ cells.map Cell.slot
  slots_nodup : (cells.map Cell.slot).Nodup
  /-- The free slots are the empty ones, each listed once. -/
  mem_free : ∀ slot, slot ∈ c.free ↔
    slot < c.slots.size ∧ c.node? slot = none
  free_nodup : c.free.Nodup
  length : c.length = cells.length
  size : c.slots.size = cells.length + c.free.length
  /-- Serial numbers grow along the sequence and were all given before. -/
  serials : cells.Pairwise fun x y => x.serial < y.serial
  serial_le : ∀ cell ∈ cells, cell.serial ≤ c.serials

/-! ### Cutting a sequence -/

/-- A place in two joined sequences is a place in one of them. -/
theorem split_append {β : Type} {xs ys before after : List β} {x : β}
    (h : xs ++ ys = before ++ x :: after) :
    (∃ rest, xs = before ++ x :: rest ∧ after = rest ++ ys) ∨
      ∃ rest, ys = rest ++ x :: after ∧ before = xs ++ rest := by
  rcases List.append_eq_append_iff.mp h with ⟨rest, hbefore, hys⟩ | ⟨rest, hxs, hx⟩
  · exact Or.inr ⟨rest, hys, hbefore⟩
  · cases rest with
    | nil => exact Or.inr ⟨[], by simpa using hx.symm, by simpa using hxs.symm⟩
    | cons y rest =>
        obtain ⟨rfl, rfl⟩ := List.cons.inj hx
        exact Or.inl ⟨rest, hxs, rfl⟩

/-- A place in a sequence is before, at or after any other. -/
theorem split_append_cons {β : Type} {xs ys before after : List β} {x y : β}
    (h : xs ++ y :: ys = before ++ x :: after) :
    (∃ rest, xs = before ++ x :: rest ∧ after = rest ++ y :: ys) ∨
      (before = xs ∧ x = y ∧ after = ys) ∨
      ∃ rest, ys = rest ++ x :: after ∧ before = xs ++ y :: rest := by
  rcases split_append h with hleft | ⟨rest, hrest, rfl⟩
  · exact Or.inl hleft
  · cases rest with
    | nil =>
        obtain ⟨rfl, rfl⟩ := List.cons.inj hrest
        exact Or.inr (Or.inl ⟨by simp, rfl, rfl⟩)
    | cons z rest =>
        obtain ⟨rfl, rfl⟩ := List.cons.inj hrest
        exact Or.inr (Or.inr ⟨rest, rfl, rfl⟩)

theorem getLast?_cons_concat {β : Type} (x last : β) (init : List β) :
    (x :: (init ++ [last])).getLast? = some last := by
  rw [← List.cons_append, List.getLast?_concat]

/-- Only a last element has the slot of the last element. -/
theorem getLast?_slot_eq_iff {before rest : List (Cell α)} {cell : Cell α}
    (hnodup : ((before ++ cell :: rest).map Cell.slot).Nodup) :
    (before ++ cell :: rest).getLast?.map Cell.slot = some cell.slot ↔
      rest = [] := by
  rcases List.eq_nil_or_concat rest with rfl | ⟨init, last, rfl⟩
  · simp
  · have hne : last.slot ≠ cell.slot := by
      simp [List.nodup_append] at hnodup
      grind
    simpa [getLast?_cons_concat] using hne

/-- Only a first element has the slot of the first element. -/
theorem head?_slot_eq_iff {rest after : List (Cell α)} {cell : Cell α}
    (hnodup : ((rest ++ cell :: after).map Cell.slot).Nodup) :
    (rest ++ cell :: after).head?.map Cell.slot = some cell.slot ↔
      rest = [] := by
  cases rest with
  | nil => simp
  | cons first rest =>
      have hne : first.slot ≠ cell.slot := by
        simp [List.nodup_append] at hnodup
        grind
      simpa using hne

/-! ### Occupied slots -/

/-- The element in a slot of an array. -/
def occupant (slots : Array (Option (Node α))) (slot : Nat) : Option (Node α) :=
  (slots[slot]?).bind id

theorem node?_eq_occupant (c : Chain α) (slot : Nat) :
    c.node? slot = occupant c.slots slot := rfl

theorem lt_size_of_occupant {slots : Array (Option (Node α))} {slot : Nat}
    {node : Node α} (h : occupant slots slot = some node) :
    slot < slots.size := by
  by_contra hlt
  have hnone : slots[slot]? = none := by simpa using hlt
  simp [occupant, hnone] at h

theorem occupant_modify (slots : Array (Option (Node α))) (slot other : Nat)
    (f : Node α → Node α) :
    occupant (slots.modify slot fun n => n.map f) other =
      if other = slot then (occupant slots other).map f
      else occupant slots other := by
  by_cases heq : other = slot
  · subst heq
    cases h : slots[other]? with
    | none => simp [occupant, Array.getElem?_modify, h]
    | some n => simp [occupant, Array.getElem?_modify, h]
  · have hne : slot ≠ other := fun h => heq h.symm
    simp [occupant, Array.getElem?_modify, heq, hne]

theorem occupant_linkNext (slots : Array (Option (Node α))) (slot other : Nat)
    (next : Option Nat) :
    occupant (linkNext slots slot next) other =
      if other = slot then
        (occupant slots other).map fun n => { n with next := next }
      else occupant slots other :=
  occupant_modify slots slot other _

theorem occupant_linkPrev (slots : Array (Option (Node α))) (slot other : Nat)
    (prev : Option Nat) :
    occupant (linkPrev slots slot prev) other =
      if other = slot then
        (occupant slots other).map fun n => { n with prev := prev }
      else occupant slots other :=
  occupant_modify slots slot other _

theorem occupant_setIfInBounds (slots : Array (Option (Node α)))
    (slot other : Nat) (content : Option (Node α)) (h : slot < slots.size) :
    occupant (slots.setIfInBounds slot content) other =
      if other = slot then content else occupant slots other := by
  by_cases heq : other = slot
  · subst heq
    simp [occupant, h]
  · have hne : slot ≠ other := fun h => heq h.symm
    simp [occupant, heq, hne]

theorem occupant_push (slots : Array (Option (Node α))) (other : Nat)
    (content : Option (Node α)) :
    occupant (slots.push content) other =
      if other = slots.size then content else occupant slots other := by
  by_cases heq : other = slots.size
  · subst heq
    simp [occupant]
  · simp [occupant, Array.getElem?_push, heq]

@[simp] theorem size_linkNext (slots : Array (Option (Node α))) (slot : Nat)
    (next : Option Nat) : (linkNext slots slot next).size = slots.size := by
  simp [linkNext]

@[simp] theorem size_linkPrev (slots : Array (Option (Node α))) (slot : Nat)
    (prev : Option Nat) : (linkPrev slots slot prev).size = slots.size := by
  simp [linkPrev]

theorem Linked.occupied_of_mem {c : Chain α} {cells : List (Cell α)}
    (h : c.Linked cells) {cell : Cell α} (hcell : cell ∈ cells) :
    c.node? cell.slot ≠ none := by
  obtain ⟨before, after, hsplit⟩ := List.append_of_mem hcell
  simp [h.node before cell after hsplit]

theorem Linked.tail_occupied {c : Chain α} {cells : List (Cell α)}
    (h : c.Linked cells) {tail : Nat} (htail : c.tail = some tail) :
    c.node? tail ≠ none := by
  rw [h.tail, Option.map_eq_some_iff] at htail
  obtain ⟨last, hlast, rfl⟩ := htail
  exact h.occupied_of_mem (List.mem_of_getLast? hlast)

/-- Cells of one sequence that share a slot are at the same place. -/
theorem Linked.slot_ne {c : Chain α} {before after : List (Cell α)}
    {cell other : Cell α} (h : c.Linked (before ++ cell :: after))
    (hother : other ∈ before ∨ other ∈ after) : other.slot ≠ cell.slot := by
  have hnodup := h.slots_nodup
  simp only [List.map_append, List.map_cons, List.nodup_append,
    List.nodup_cons] at hnodup
  rcases hother with hbefore | hafter
  · exact hnodup.2.2 _ (List.mem_map_of_mem hbefore) _ List.mem_cons_self
  · intro heq
    exact hnodup.2.1.1 (heq ▸ List.mem_map_of_mem hafter)

/-! ### Adding -/

/-- What `place` does: it finds an empty slot, which is the free slot emptied
last or a new one, and fills it. -/
structure Placed (c : Chain α) (node : Node α) (slot : Nat) (c' : Chain α) :
    Prop where
  empty : c.node? slot = none
  node : ∀ other, occupant c'.slots other =
    if other = slot then some node else c.node? other
  free : c.free = slot :: c'.free ∧ c'.slots.size = c.slots.size ∨
    c.free = [] ∧ c'.free = [] ∧ slot = c.slots.size ∧
      c'.slots.size = c.slots.size + 1
  head : c'.head = c.head
  tail : c'.tail = c.tail
  length : c'.length = c.length
  serials : c'.serials = c.serials

theorem Linked.place {c : Chain α} {cells : List (Cell α)}
    (h : c.Linked cells) (node : Node α) :
    Placed c node (c.place node).1 (c.place node).2 := by
  unfold Chain.place
  cases hfree : c.free with
  | nil =>
      refine ⟨?_, fun other => ?_, Or.inr ⟨hfree, rfl, rfl, by simp⟩,
        rfl, rfl, rfl, rfl⟩
      · simp [node?]
      · exact occupant_push c.slots other (some node)
  | cons slot free =>
      have hslot := (h.mem_free slot).mp (by simp [hfree])
      refine ⟨hslot.2, fun other => ?_, Or.inl ⟨hfree, by simp⟩,
        rfl, rfl, rfl, rfl⟩
      exact occupant_setIfInBounds c.slots slot other (some node) hslot.1

theorem push_nil_tail {c : Chain α} (htail : c.tail = none) (value : α) :
    c.push value =
      let placed := c.place ⟨value, c.serials + 1, none, none⟩
      { placed.2 with
          tail := some placed.1
          head := some placed.1
          length := placed.2.length + 1
          serials := c.serials + 1 } := by
  unfold push
  rw [htail]

theorem push_some_tail {c : Chain α} {tail : Nat} (htail : c.tail = some tail)
    (value : α) :
    c.push value =
      let placed := c.place ⟨value, c.serials + 1, some tail, none⟩
      { placed.2 with
          slots := linkNext placed.2.slots tail (some placed.1)
          tail := some placed.1
          length := placed.2.length + 1
          serials := c.serials + 1 } := by
  unfold push
  rw [htail]

/-- The slot that the next element will live in. -/
def nextSlot (c : Chain α) : Nat := (c.free.head?).getD c.slots.size

/-- The cell of an element added at the end. -/
def newCell (c : Chain α) (value : α) : Cell α :=
  ⟨c.nextSlot, c.serials + 1, value⟩

theorem place_fst (c : Chain α) (node : Node α) :
    (c.place node).1 = c.nextSlot := by
  unfold Chain.place nextSlot
  cases c.free <;> rfl

/-- The parts of a sequence after adding, but for the links. -/
structure Pushed (c : Chain α) (value : α) (c' : Chain α) : Prop where
  empty : c.node? c.nextSlot = none
  node : ∀ other, c'.node? other =
    if other = c.nextSlot then some ⟨value, c.serials + 1, c.tail, none⟩
    else if c.tail = some other then
      (c.node? other).map fun n => { n with next := some c.nextSlot }
    else c.node? other
  free : c.free = c.nextSlot :: c'.free ∧ c'.slots.size = c.slots.size ∨
    c.free = [] ∧ c'.free = [] ∧ c.nextSlot = c.slots.size ∧
      c'.slots.size = c.slots.size + 1
  head : c'.head = if c.tail = none then some c.nextSlot else c.head
  tail : c'.tail = some c.nextSlot
  length : c'.length = c.length + 1
  serials : c'.serials = c.serials + 1

theorem Pushed.node?_eq_none_iff {c c' : Chain α} {value : α}
    (h : Pushed c value c') (slot : Nat) :
    c'.node? slot = none ↔ slot ≠ c.nextSlot ∧ c.node? slot = none := by
  rw [h.node]
  by_cases heq : slot = c.nextSlot
  · simp [heq]
  · by_cases htail : c.tail = some slot <;> simp [heq, htail]

theorem Linked.pushed {c : Chain α} {cells : List (Cell α)}
    (h : c.Linked cells) (value : α) : Pushed c value (c.push value) := by
  cases htail : c.tail with
  | none =>
      have hplaced := h.place ⟨value, c.serials + 1, none, none⟩
      rw [place_fst] at hplaced
      rw [push_nil_tail htail]
      refine ⟨hplaced.empty, fun other => ?_, hplaced.free, ?_, ?_,
        congrArg (· + 1) hplaced.length, rfl⟩
      · rw [node?_eq_occupant, hplaced.node]
        simp [htail]
      · simp [htail, place_fst]
      · simp [place_fst]
  | some tail =>
      have hplaced := h.place ⟨value, c.serials + 1, some tail, none⟩
      rw [place_fst] at hplaced
      rw [push_some_tail htail]
      refine ⟨hplaced.empty, fun other => ?_, by simpa using hplaced.free,
        by simpa [htail] using hplaced.head, ?_,
        congrArg (· + 1) hplaced.length, rfl⟩
      · rw [node?_eq_occupant, occupant_linkNext, hplaced.node, place_fst]
        by_cases hother : other = tail
        · subst hother
          have hne : other ≠ c.nextSlot := by
            rintro rfl
            exact h.tail_occupied htail hplaced.empty
          simp [htail, hne]
        · have hne : tail ≠ other := fun heq => hother heq.symm
          simp [htail, hother, hne]
      · simp [place_fst]

/-- The links after adding an element at the end: the new one is reached from
what was last before, and nothing else changes. -/
theorem Linked.push_node {c : Chain α} {cells : List (Cell α)}
    (h : c.Linked cells) (value : α) {before after : List (Cell α)}
    {cell : Cell α}
    (hsplit : cells ++ [c.newCell value] = before ++ cell :: after) :
    (c.push value).node? cell.slot = some (cell.node before after) := by
  have hpushed := h.pushed value
  rw [hpushed.node]
  rcases split_append_cons hsplit with
    ⟨rest, rfl, rfl⟩ | ⟨rfl, rfl, rfl⟩ | ⟨rest, hnil, _⟩
  · have hnode := h.node before cell rest rfl
    have hne : cell.slot ≠ c.nextSlot := by
      intro heq
      simp [heq, hpushed.empty] at hnode
    rcases List.eq_nil_or_concat rest with rfl | ⟨init, last, rfl⟩
    · simp [h.tail, hne, hnode, Cell.node, newCell]
    · have hlast : last.slot ≠ cell.slot := h.slot_ne (by simp)
      have htail : c.tail = some last.slot := by
        simp [h.tail, getLast?_cons_concat]
      simp [htail, hne, hnode, hlast, Cell.node]
  · simp [newCell, Cell.node, h.tail]
  · simp at hnil

/-- Adding an element keeps the sequence linked. -/
theorem Linked.push {c : Chain α} {cells : List (Cell α)}
    (h : c.Linked cells) (value : α) :
    (c.push value).Linked (cells ++ [c.newCell value]) := by
  have hpushed := h.pushed value
  have hfresh : c.nextSlot ∉ cells.map Cell.slot := by
    intro hmem
    obtain ⟨cell, hcell, heq⟩ := List.mem_map.mp hmem
    exact h.occupied_of_mem hcell (heq ▸ hpushed.empty)
  refine
    { head := ?_
      tail := by simp [hpushed.tail, newCell]
      node := fun before cell after => h.push_node value
      occupied := ?_
      slots_nodup := ?_
      mem_free := ?_
      free_nodup := ?_
      length := by simp [hpushed.length, h.length]
      size := ?_
      serials := ?_
      serial_le := ?_ }
  · rw [hpushed.head, h.head, h.tail]
    cases cells <;> simp [newCell]
  · intro slot hslot
    by_cases heq : slot = c.nextSlot
    · simp [heq, newCell]
    · have hold : (c.node? slot).isSome := by
        rw [Option.isSome_iff_ne_none, ne_eq, hpushed.node?_eq_none_iff] at hslot
        rw [Option.isSome_iff_ne_none]
        exact fun hnone => hslot ⟨heq, hnone⟩
      simpa using Or.inl (h.occupied slot hold)
  · simp only [List.map_append, List.map_cons, List.map_nil]
    exact h.slots_nodup.append (List.nodup_singleton _)
      (by simpa [List.disjoint_singleton, newCell] using hfresh)
  · intro slot
    rw [hpushed.node?_eq_none_iff]
    have hold := h.mem_free slot
    rcases hpushed.free with ⟨hfree, hsize⟩ | ⟨hnil, hfree, hnext, hsize⟩
    · have hnext := (List.nodup_cons.mp (hfree ▸ h.free_nodup)).1
      rw [hfree, List.mem_cons] at hold
      grind
    · rw [hnil] at hold
      grind
  · rcases hpushed.free with ⟨hfree, _⟩ | ⟨_, hfree, _⟩
    · exact (List.nodup_cons.mp (hfree ▸ h.free_nodup)).2
    · simp [hfree]
  · rcases hpushed.free with ⟨hfree, hsize⟩ | ⟨hnil, hfree, _, hsize⟩
    · have := h.size
      simp only [hfree, List.length_cons] at this
      simp only [List.length_append, List.length_singleton]
      omega
    · have := h.size
      simp only [hnil, hfree, hsize, List.length_append, List.length_singleton,
        List.length_nil] at this ⊢
      omega
  · rw [List.pairwise_append]
    refine ⟨h.serials, List.pairwise_singleton _ _, ?_⟩
    intro cell hcell new hnew
    rw [List.mem_singleton.mp hnew]
    exact Nat.lt_succ_of_le (h.serial_le cell hcell)
  · intro cell hcell
    rw [hpushed.serials]
    rcases List.mem_append.mp hcell with hold | hnew
    · exact Nat.le_succ_of_le (h.serial_le cell hold)
    · rw [List.mem_singleton.mp hnew]
      exact Nat.le_refl _

theorem linked_empty : (empty : Chain α).Linked [] := by
  constructor <;> simp [empty, node?]

/-! ### Finding -/

theorem stepForward_none (c : Chain α) (n : Nat) :
    c.stepForward n none = none := by
  induction n with
  | zero => rfl
  | succ n ih => simpa [stepForward] using ih

theorem stepBackward_none (c : Chain α) (n : Nat) :
    c.stepBackward n none = none := by
  induction n with
  | zero => rfl
  | succ n ih => simpa [stepBackward] using ih

/-- Successors lead along the cells. -/
theorem Linked.stepForward {c : Chain α} (before after : List (Cell α))
    (h : c.Linked (before ++ after)) (n : Nat) :
    c.stepForward n (after.head?.map Cell.slot) = after[n]?.map Cell.slot := by
  induction n generalizing before after with
  | zero => cases after <;> simp [Chain.stepForward]
  | succ n ih =>
      cases after with
      | nil => simp [Chain.stepForward, stepForward_none]
      | cons cell after =>
          have hnode := h.node before cell after rfl
          have hrest := ih (before ++ [cell]) after (by simpa using h)
          simpa [Chain.stepForward, hnode, Cell.node] using hrest

/-- Predecessors lead back along the cells. -/
theorem Linked.stepBackward {c : Chain α} (before after : List (Cell α))
    (h : c.Linked (before ++ after)) (n : Nat) :
    c.stepBackward n (before.getLast?.map Cell.slot) =
      before.reverse[n]?.map Cell.slot := by
  induction n generalizing before after with
  | zero => rw [Chain.stepBackward, ← List.head?_eq_getElem?, List.head?_reverse]
  | succ n ih =>
      rcases List.eq_nil_or_concat before with rfl | ⟨before, cell, rfl⟩
      · simp [Chain.stepBackward, stepBackward_none]
      · have hnode := h.node before cell after (by simp)
        have hrest := ih before (cell :: after) (by simpa using h)
        simpa [Chain.stepBackward, hnode, Cell.node] using hrest

/-- An index inside the sequence is found, whichever end the walk starts
from. -/
theorem Linked.locate?_eq {c : Chain α} {cells : List (Cell α)}
    (h : c.Linked cells) (index : Int) :
    c.locate? index =
      if 0 ≤ index then cells[index.toNat]?.map Cell.slot else none := by
  unfold locate?
  by_cases hrange : 0 ≤ index ∧ index < c.length
  · have hlt : index.toNat < cells.length := by
      have := h.length
      omega
    simp only [hrange, and_self, if_true]
    split
    · rw [h.head]
      exact Linked.stepForward [] cells h _
    · have hback := Linked.stepBackward cells [] (by simpa using h)
        (c.length - index.toNat - 1)
      rw [h.tail, hback, List.getElem?_reverse (by have := h.length; omega)]
      have hindex : cells.length - 1 - (c.length - index.toNat - 1) =
          index.toNat := by
        have := h.length
        omega
      rw [hindex]
  · rw [if_neg hrange]
    split
    · have hge : cells.length ≤ index.toNat := by
        have := h.length
        omega
      simp [List.getElem?_eq_none hge]
    · rfl

/-- The cell that an index names, with the cells around it. -/
theorem Linked.locate?_eq_some_iff {c : Chain α} {cells : List (Cell α)}
    (h : c.Linked cells) (index : Int) (slot : Nat) :
    c.locate? index = some slot ↔
      ∃ before cell after, cells = before ++ cell :: after ∧
        index = before.length ∧ slot = cell.slot := by
  rw [h.locate?_eq]
  constructor
  · intro hsome
    split at hsome
    · obtain ⟨cell, hcell, rfl⟩ := Option.map_eq_some_iff.mp hsome
      obtain ⟨hlt, rfl⟩ := List.getElem?_eq_some_iff.mp hcell
      refine ⟨cells.take index.toNat, _, cells.drop (index.toNat + 1),
        ?_, ?_, rfl⟩
      · simp
      · simp only [List.length_take]
        omega
    · contradiction
  · rintro ⟨before, cell, after, rfl, rfl, rfl⟩
    simp

/-- The elements in order are the values of the cells. -/
theorem Linked.collect {c : Chain α} (before after : List (Cell α))
    (h : c.Linked (before ++ after)) (n : Nat) :
    c.collect n (after.head?.map Cell.slot) =
      (after.map Cell.value).take n := by
  induction n generalizing before after with
  | zero => simp [Chain.collect]
  | succ n ih =>
      cases after with
      | nil => simp [Chain.collect]
      | cons cell after =>
          have hnode := h.node before cell after rfl
          have hrest := ih (before ++ [cell]) after (by simpa using h)
          simpa [Chain.collect, hnode, Cell.node] using hrest

theorem Linked.toList_eq {c : Chain α} {cells : List (Cell α)}
    (h : c.Linked cells) : c.toList = cells.map Cell.value := by
  have hcollect := Linked.collect [] cells h c.slots.size
  rw [toList, h.head, hcollect]
  apply List.take_of_length_le
  rw [List.length_map, h.size]
  omega

/-! ### Replacing -/

def withValue (c : Chain α) (slot : Nat) (value : α) : Chain α :=
  { c with slots := c.slots.modify slot fun n =>
      n.map fun n => { n with value := value } }

theorem set?_eq (c : Chain α) (index : Int) (value : α) :
    c.set? index value = (c.locate? index).map (c.withValue · value) := rfl

theorem node?_withValue (c : Chain α) (slot other : Nat) (value : α) :
    (c.withValue slot value).node? other =
      if other = slot then
        (c.node? other).map fun n => { n with value := value }
      else c.node? other :=
  occupant_modify c.slots slot other _

theorem node?_withValue_eq_none_iff (c : Chain α) (slot other : Nat)
    (value : α) :
    (c.withValue slot value).node? other = none ↔ c.node? other = none := by
  rw [node?_withValue]
  split <;> simp

/-- The node of a cell depends on its neighbours by their slots only. -/
theorem Cell.node_congr {before before' after after' : List (Cell α)}
    (cell : Cell α) (hbefore : before.map slot = before'.map slot)
    (hafter : after.map slot = after'.map slot) :
    cell.node before after = cell.node before' after' := by
  simp only [Cell.node, ← List.getLast?_map, ← List.head?_map, hbefore, hafter]

/-- Replacing a value keeps the sequence linked. -/
theorem Linked.withValue {c : Chain α} {before after : List (Cell α)}
    {cell : Cell α} (h : c.Linked (before ++ cell :: after)) (value : α) :
    (c.withValue cell.slot value).Linked
      (before ++ { cell with value := value } :: after) := by
  have hslots : (before ++ { cell with value := value } :: after).map Cell.slot =
      (before ++ cell :: after).map Cell.slot := by simp
  refine
    { head := ?_
      tail := ?_
      node := ?_
      occupied := ?_
      slots_nodup := hslots ▸ h.slots_nodup
      mem_free := ?_
      free_nodup := h.free_nodup
      length := h.length.trans (by simp)
      size := ?_
      serials := ?_
      serial_le := ?_ }
  · rw [← List.head?_map, hslots, List.head?_map]
    exact h.head
  · rw [← List.getLast?_map, hslots, List.getLast?_map]
    exact h.tail
  · intro before' cell' after' hsplit
    rw [node?_withValue]
    rcases split_append_cons hsplit with
      ⟨rest, rfl, rfl⟩ | ⟨rfl, rfl, rfl⟩ | ⟨rest, rfl, rfl⟩
    · have hnode := h.node before' cell' (rest ++ cell :: after) (by simp)
      rw [if_neg (h.slot_ne (by simp)), hnode]
      exact congrArg some (cell'.node_congr rfl (by simp))
    · have hnode := h.node before' cell after' rfl
      simp [hnode, Cell.node]
    · have hnode := h.node (before ++ cell :: rest) cell' after' (by simp)
      rw [if_neg (h.slot_ne (by simp)), hnode]
      exact congrArg some (cell'.node_congr (by simp) rfl)
  · intro slot hslot
    rw [Option.isSome_iff_ne_none, ne_eq, node?_withValue_eq_none_iff] at hslot
    rw [hslots]
    exact h.occupied slot (Option.isSome_iff_ne_none.mpr hslot)
  · intro slot
    rw [node?_withValue_eq_none_iff]
    simpa [Chain.withValue] using h.mem_free slot
  · simpa [Chain.withValue] using h.size
  · simpa [List.pairwise_append] using h.serials
  · simpa [Chain.withValue, or_imp, forall_and] using h.serial_le

/-! ### Removing -/

/-- The sequence without the node in a slot. -/
def withoutSlot (c : Chain α) (slot : Nat) (node : Node α) : Chain α :=
  let unlinked := { c with slots := c.slots.setIfInBounds slot none }.unlink node
  { unlinked with free := slot :: unlinked.free, length := unlinked.length - 1 }

theorem remove?_eq (c : Chain α) (index : Int) :
    c.remove? index = (c.locate? index).bind fun slot =>
      (c.node? slot).map fun node => (node.value, c.withoutSlot slot node) := rfl

/-- What `unlink` makes of the links of the node in a slot. -/
def relinked (removed : Node α) (slot : Nat) (node : Node α) : Node α :=
  { node with
      next := if removed.prev = some slot then removed.next else node.next
      prev := if removed.next = some slot then removed.prev else node.prev }

theorem occupant_unlink (c : Chain α) (removed : Node α) (slot : Nat) :
    occupant (c.unlink removed).slots slot =
      (occupant c.slots slot).map (relinked removed slot) := by
  obtain ⟨value, serial, prev, next⟩ := removed
  cases prev <;> cases next <;>
    simp only [unlink, occupant_linkNext, occupant_linkPrev] <;>
    rcases occupant c.slots slot with _ | ⟨_, _, _, _⟩ <;> grind [relinked]

@[simp] theorem size_unlink (c : Chain α) (removed : Node α) :
    (c.unlink removed).slots.size = c.slots.size := by
  obtain ⟨value, serial, prev, next⟩ := removed
  cases prev <;> cases next <;> simp [unlink]

theorem unlink_head (c : Chain α) (removed : Node α) :
    (c.unlink removed).head =
      if removed.prev = none then removed.next else c.head := by
  obtain ⟨value, serial, prev, next⟩ := removed
  cases prev <;> cases next <;> simp [unlink]

theorem unlink_tail (c : Chain α) (removed : Node α) :
    (c.unlink removed).tail =
      if removed.next = none then removed.prev else c.tail := by
  obtain ⟨value, serial, prev, next⟩ := removed
  cases prev <;> cases next <;> simp [unlink]

theorem unlink_free (c : Chain α) (removed : Node α) :
    (c.unlink removed).free = c.free := by
  obtain ⟨value, serial, prev, next⟩ := removed
  cases prev <;> cases next <;> simp [unlink]

theorem unlink_length (c : Chain α) (removed : Node α) :
    (c.unlink removed).length = c.length := by
  obtain ⟨value, serial, prev, next⟩ := removed
  cases prev <;> cases next <;> simp [unlink]

theorem unlink_serials (c : Chain α) (removed : Node α) :
    (c.unlink removed).serials = c.serials := by
  obtain ⟨value, serial, prev, next⟩ := removed
  cases prev <;> cases next <;> simp [unlink]

@[simp] theorem withoutSlot_free (c : Chain α) (slot : Nat) (node : Node α) :
    (c.withoutSlot slot node).free = slot :: c.free := by
  simp [withoutSlot, unlink_free]

@[simp] theorem withoutSlot_length (c : Chain α) (slot : Nat) (node : Node α) :
    (c.withoutSlot slot node).length = c.length - 1 := by
  simp [withoutSlot, unlink_length]

@[simp] theorem withoutSlot_serials (c : Chain α) (slot : Nat) (node : Node α) :
    (c.withoutSlot slot node).serials = c.serials := by
  simp [withoutSlot, unlink_serials]

@[simp] theorem withoutSlot_size (c : Chain α) (slot : Nat) (node : Node α) :
    (c.withoutSlot slot node).slots.size = c.slots.size := by
  simp [withoutSlot]

theorem node?_withoutSlot (c : Chain α) {slot : Nat} {node : Node α}
    (hnode : c.node? slot = some node) (other : Nat) :
    (c.withoutSlot slot node).node? other =
      if other = slot then none
      else (c.node? other).map (relinked node other) := by
  have hlt : slot < c.slots.size := lt_size_of_occupant hnode
  rw [node?_eq_occupant, withoutSlot, occupant_unlink,
    occupant_setIfInBounds _ _ _ _ hlt]
  split <;> rfl

theorem node?_withoutSlot_eq_none_iff (c : Chain α) {slot : Nat} {node : Node α}
    (hnode : c.node? slot = some node) (other : Nat) :
    (c.withoutSlot slot node).node? other = none ↔
      other = slot ∨ c.node? other = none := by
  rw [node?_withoutSlot c hnode]
  split <;> simp_all

/-- The links of a cell that stood before the removed one. -/
theorem Linked.relinked_before {c : Chain α}
    {before rest after : List (Cell α)} {cell removed : Cell α}
    (h : c.Linked (before ++ cell :: rest ++ removed :: after)) :
    relinked (removed.node (before ++ cell :: rest) after) cell.slot
        (cell.node before (rest ++ removed :: after)) =
      cell.node before (rest ++ after) := by
  have hnodup := h.slots_nodup
  rw [List.map_append] at hnodup
  have hlast := getLast?_slot_eq_iff hnodup.of_append_left
  have hhead : after.head?.map Cell.slot ≠ some cell.slot := by
    intro heq
    obtain ⟨other, hother, hslot⟩ := Option.map_eq_some_iff.mp heq
    have hcut : c.Linked (before ++ cell :: (rest ++ removed :: after)) := by
      simpa using h
    exact hcut.slot_ne (Or.inr (by simp [List.mem_of_head? hother])) hslot
  cases rest with
  | nil => simp [relinked, Cell.node, hhead]
  | cons first rest => simp_all [relinked, Cell.node]

/-- The links of a cell that stood after the removed one. -/
theorem Linked.relinked_after {c : Chain α}
    {before rest after : List (Cell α)} {cell removed : Cell α}
    (h : c.Linked (before ++ removed :: (rest ++ cell :: after))) :
    relinked (removed.node before (rest ++ cell :: after)) cell.slot
        (cell.node (before ++ removed :: rest) after) =
      cell.node (before ++ rest) after := by
  have hnodup := h.slots_nodup
  rw [List.map_append, List.map_cons] at hnodup
  have hhead := head?_slot_eq_iff (hnodup.of_append_right.of_cons)
  have hlast : before.getLast?.map Cell.slot ≠ some cell.slot := by
    intro heq
    obtain ⟨other, hother, hslot⟩ := Option.map_eq_some_iff.mp heq
    have hcut : c.Linked ((before ++ removed :: rest) ++ cell :: after) := by
      simpa using h
    exact hcut.slot_ne (Or.inl (by simp [List.mem_of_getLast? hother])) hslot
  rcases List.eq_nil_or_concat rest with rfl | ⟨init, last, rfl⟩
  · simp [relinked, Cell.node, hlast]
  · simp_all [relinked, Cell.node, getLast?_cons_concat]

/-- The links of the cells around a removed one. -/
theorem Linked.withoutSlot_node {c : Chain α} {before after : List (Cell α)}
    {removed : Cell α} (h : c.Linked (before ++ removed :: after))
    {before' after' : List (Cell α)} {cell : Cell α}
    (hsplit : before ++ after = before' ++ cell :: after') :
    (c.withoutSlot removed.slot (removed.node before after)).node? cell.slot =
      some (cell.node before' after') := by
  rw [node?_withoutSlot c (h.node before removed after rfl)]
  rcases split_append hsplit with ⟨rest, rfl, rfl⟩ | ⟨rest, rfl, rfl⟩
  · have hnode := h.node before' cell (rest ++ removed :: after) (by simp)
    rw [if_neg (h.slot_ne (by simp)), hnode, Option.map_some,
      h.relinked_before]
  · have hnode := h.node (before ++ removed :: rest) cell after' (by simp)
    rw [if_neg (h.slot_ne (by simp)), hnode, Option.map_some,
      h.relinked_after]

/-- Removing an element keeps the sequence linked. -/
theorem Linked.withoutSlot {c : Chain α} {before after : List (Cell α)}
    {removed : Cell α} (h : c.Linked (before ++ removed :: after)) :
    (c.withoutSlot removed.slot (removed.node before after)).Linked
      (before ++ after) := by
  have hnode := h.node before removed after rfl
  have hlt : removed.slot < c.slots.size := lt_size_of_occupant hnode
  have hother := node?_withoutSlot_eq_none_iff c hnode
  have hsub : (before ++ after).Sublist (before ++ removed :: after) :=
    List.Sublist.append_left (List.sublist_cons_self removed after) before
  refine
    { head := ?_
      tail := ?_
      node := fun before' cell after' => h.withoutSlot_node
      occupied := ?_
      slots_nodup := h.slots_nodup.sublist (hsub.map Cell.slot)
      mem_free := ?_
      free_nodup := ?_
      length := ?_
      size := ?_
      serials := h.serials.sublist hsub
      serial_le := ?_ }
  · rw [Chain.withoutSlot, unlink_head]
    cases before <;> simp [Cell.node, h.head]
  · rw [Chain.withoutSlot, unlink_tail]
    rcases List.eq_nil_or_concat after with rfl | ⟨init, last, rfl⟩
    · simp [Cell.node]
    · simp [Cell.node, h.tail, getLast?_cons_concat]
  · intro slot hslot
    rw [Option.isSome_iff_ne_none, ne_eq, hother, not_or] at hslot
    have hold := h.occupied slot (Option.isSome_iff_ne_none.mpr hslot.2)
    simp only [List.map_append, List.map_cons, List.mem_append,
      List.mem_cons] at hold ⊢
    rcases hold with hbefore | heq | hafter
    · exact Or.inl hbefore
    · exact absurd heq hslot.1
    · exact Or.inr hafter
  · intro slot
    have hold := h.mem_free slot
    simp only [hother, withoutSlot_free, withoutSlot_size, List.mem_cons, hold]
    constructor
    · rintro (rfl | ⟨hbound, hempty⟩)
      · exact ⟨hlt, Or.inl rfl⟩
      · exact ⟨hbound, Or.inr hempty⟩
    · rintro ⟨hbound, heq | hempty⟩
      · exact Or.inl heq
      · exact Or.inr ⟨hbound, hempty⟩
  · have hnotFree : removed.slot ∉ c.free := by
      intro hmem
      have hempty := ((h.mem_free _).mp hmem).2
      rw [hnode] at hempty
      contradiction
    simpa using ⟨hnotFree, h.free_nodup⟩
  · have hlength := h.length
    simp only [List.length_append, List.length_cons] at hlength
    simp only [withoutSlot_length, List.length_append]
    omega
  · have hsize := h.size
    simp only [List.length_append, List.length_cons] at hsize
    simp only [withoutSlot_size, withoutSlot_free, List.length_append,
      List.length_cons]
    omega
  · intro cell hcell
    rw [withoutSlot_serials]
    exact h.serial_le cell (hsub.subset hcell)

end Prose.Chain
