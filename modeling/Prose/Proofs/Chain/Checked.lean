import Mathlib.Data.List.Induction
import Prose.Proofs.Chain.Linked

/-!
Operations that look where they step. Each operation on linked sequences has a
checked form, which fails with a defect where the plain one would read or write
an empty slot, or would run off the links before the index it was sent to. On a
linked sequence the checked forms never fail, so they give what the plain ones
give.
-/

namespace Prose.Chain

variable {α : Type}

/-- What the links of a sequence must never show. -/
inductive Defect where
  /-- A link or an end names a slot that is empty or does not exist. -/
  | emptySlot (slot : Nat)
  /-- The links end, or go on, where they should not. -/
  | brokenWalk
deriving DecidableEq

/-- The element in a slot that a link or an end names. -/
def nodeChecked (c : Chain α) (slot : Nat) : Except Defect (Node α) :=
  match c.node? slot with
  | some node => .ok node
  | none => .error (.emptySlot slot)

/-- Makes sure that a link, if it names a slot, names an element. -/
def checkLink (c : Chain α) : Option Nat → Except Defect Unit
  | none => return ()
  | some slot => do
      let _ ← c.nodeChecked slot

/-- Follows a link the given number of times. -/
def walkChecked (c : Chain α) (link : Node α → Option Nat) :
    Nat → Option Nat → Except Defect Nat
  | _, none => .error .brokenWalk
  | 0, some slot => .ok slot
  | n + 1, some slot => do
      let node ← c.nodeChecked slot
      c.walkChecked link n (link node)

/-- The slot of the element at an index, if there is such an index. -/
def locateChecked (c : Chain α) (index : Int) : Except Defect (Option Nat) :=
  if 0 ≤ index ∧ index < c.length then
    let position := index.toNat
    if position < c.length / 2 then
      some <$> c.walkChecked Node.next position c.head
    else some <$> c.walkChecked Node.prev (c.length - position - 1) c.tail
  else return none

def pushChecked (c : Chain α) (value : α) : Except Defect (Chain α) := do
  (c.place ⟨value, c.serials + 1, c.tail, none⟩).2.checkLink c.tail
  return c.push value

def getChecked (c : Chain α) (index : Int) : Except Defect (Option α) := do
  match ← c.locateChecked index with
  | none => return none
  | some slot => return some (← c.nodeChecked slot).value

def setChecked (c : Chain α) (index : Int) (value : α) :
    Except Defect (Option (Chain α)) := do
  match ← c.locateChecked index with
  | none => return none
  | some slot =>
      let _ ← c.nodeChecked slot
      return some (c.withValue slot value)

/-- Takes out the element at an index. Its neighbours are linked to each other
when its slot is empty already. -/
def removeChecked (c : Chain α) (index : Int) :
    Except Defect (Option (α × Chain α)) := do
  match ← c.locateChecked index with
  | none => return none
  | some slot =>
      let node ← c.nodeChecked slot
      let emptied := { c with slots := c.slots.setIfInBounds slot none }
      emptied.checkLink node.prev
      emptied.checkLink node.next
      return some (node.value, c.withoutSlot slot node)

/-- The elements from a slot on, which must not be more than `n`. -/
def collectChecked (c : Chain α) : Nat → Option Nat → Except Defect (List α)
  | _, none => return []
  | 0, some _ => .error .brokenWalk
  | n + 1, some slot => do
      let node ← c.nodeChecked slot
      return node.value :: (← c.collectChecked n node.next)

/-- Following a link from a slot to its end passes the given slots, and all of
them are occupied. -/
inductive Visits (c : Chain α) (link : Node α → Option Nat) :
    Option Nat → List Nat → Prop
  | stop : Visits c link none []
  | step {slot : Nat} {node : Node α} {rest : List Nat} :
      c.node? slot = some node → Visits c link (link node) rest →
        Visits c link (some slot) (slot :: rest)

/-! ### Linked sequences have no defect -/

theorem ok_bind {ε β γ : Type} (b : β) (f : β → Except ε γ) :
    (Except.ok b >>= f) = f b := rfl

theorem nodeChecked_of_node? {c : Chain α} {slot : Nat} {node : Node α}
    (h : c.node? slot = some node) : c.nodeChecked slot = .ok node := by
  simp [nodeChecked, h]

theorem checkLink_eq_ok {c : Chain α} {link : Option Nat}
    (h : ∀ slot, link = some slot → c.node? slot ≠ none) :
    c.checkLink link = .ok () := by
  cases link with
  | none => rfl
  | some slot =>
      obtain ⟨node, hnode⟩ := Option.ne_none_iff_exists'.mp (h slot rfl)
      rw [checkLink, nodeChecked_of_node? hnode]
      rfl

theorem Linked.walkChecked_next {c : Chain α} (before after : List (Cell α))
    (h : c.Linked (before ++ after)) {n : Nat} {cell : Cell α}
    (hcell : after[n]? = some cell) :
    c.walkChecked Node.next n (after.head?.map Cell.slot) = .ok cell.slot := by
  induction n generalizing before after with
  | zero =>
      cases after with
      | nil => simp at hcell
      | cons first after => simp_all [walkChecked]
  | succ n ih =>
      cases after with
      | nil => simp at hcell
      | cons first after =>
          have hnode := h.node before first after rfl
          have hrest := ih (before ++ [first]) after (by simpa using h)
            (by simpa using hcell)
          simp only [List.head?_cons, Option.map_some, walkChecked,
            nodeChecked_of_node? hnode]
          exact hrest

theorem Linked.walkChecked_prev {c : Chain α} (before after : List (Cell α))
    (h : c.Linked (before ++ after)) {n : Nat} {cell : Cell α}
    (hcell : before.reverse[n]? = some cell) :
    c.walkChecked Node.prev n (before.getLast?.map Cell.slot) =
      .ok cell.slot := by
  induction n generalizing before after with
  | zero =>
      rcases List.eq_nil_or_concat before with rfl | ⟨before, last, rfl⟩
      · simp at hcell
      · simp_all [walkChecked]
  | succ n ih =>
      rcases List.eq_nil_or_concat before with rfl | ⟨before, last, rfl⟩
      · simp at hcell
      · have hnode := h.node before last after (by simp)
        have hrest := ih before (last :: after) (by simpa using h)
          (by simpa using hcell)
        simp only [List.concat_eq_append, List.getLast?_concat,
          Option.map_some, walkChecked, nodeChecked_of_node? hnode]
        exact hrest

/-- The slot of the cell at an index, found without a defect. -/
theorem Linked.locateChecked {c : Chain α} {cells : List (Cell α)}
    (h : c.Linked cells) (index : Int) :
    c.locateChecked index = .ok (c.locate? index) := by
  rw [h.locate?_eq]
  unfold Chain.locateChecked
  by_cases hrange : 0 ≤ index ∧ index < c.length
  · have hlength := h.length
    have hlt : index.toNat < cells.length := by omega
    have hcell : cells[index.toNat]? = some cells[index.toNat] :=
      List.getElem?_eq_getElem hlt
    rw [if_pos hrange, if_pos hrange.1, hcell]
    dsimp only
    split
    · have hwalk := Linked.walkChecked_next [] cells h hcell
      rw [h.head, hwalk]
      rfl
    · have hindex : cells.length - 1 - (c.length - index.toNat - 1) =
          index.toNat := by omega
      have hback : cells.reverse[c.length - index.toNat - 1]? =
          some cells[index.toNat] := by
        rw [List.getElem?_reverse (by omega), hindex, hcell]
      have hwalk := Linked.walkChecked_prev cells []
        (by simpa using h) hback
      rw [h.tail, hwalk]
      rfl
  · rw [if_neg hrange]
    split
    · have hge : cells.length ≤ index.toNat := by
        have := h.length
        omega
      rw [List.getElem?_eq_none hge]
      rfl
    · rfl

theorem Linked.pushChecked {c : Chain α} {cells : List (Cell α)}
    (h : c.Linked cells) (value : α) :
    c.pushChecked value = .ok (c.push value) := by
  have hplaced := h.place ⟨value, c.serials + 1, c.tail, none⟩
  have hlink : (c.place ⟨value, c.serials + 1, c.tail, none⟩).2.checkLink
      c.tail = .ok () := by
    apply checkLink_eq_ok
    intro tail htail
    rw [node?_eq_occupant, hplaced.node]
    split
    · simp
    · exact h.tail_occupied htail
  rw [Chain.pushChecked, hlink]
  rfl

/-- What an index names in a linked sequence: nothing, or a cell in its
place. -/
theorem Linked.locate?_cases {c : Chain α} {cells : List (Cell α)}
    (h : c.Linked cells) (index : Int) :
    (c.locate? index = none ∧ ¬ (0 ≤ index ∧ index < cells.length)) ∨
      ∃ before cell after, cells = before ++ cell :: after ∧
        index = before.length ∧ c.locate? index = some cell.slot ∧
        c.node? cell.slot = some (cell.node before after) := by
  cases hlocate : c.locate? index with
  | none =>
      left
      refine ⟨rfl, fun hrange => ?_⟩
      rw [h.locate?_eq, if_pos hrange.1] at hlocate
      simp at hlocate
      omega
  | some slot =>
      right
      obtain ⟨before, cell, after, hcells, hindex, rfl⟩ :=
        (h.locate?_eq_some_iff index slot).mp hlocate
      exact ⟨before, cell, after, hcells, hindex, rfl,
        h.node before cell after hcells⟩

theorem Linked.getChecked {c : Chain α} {cells : List (Cell α)}
    (h : c.Linked cells) (index : Int) :
    c.getChecked index = .ok (c.get? index) := by
  unfold Chain.getChecked
  rw [h.locateChecked, get?]
  rcases h.locate?_cases index with
    ⟨hnone, _⟩ | ⟨before, cell, after, _, _, hsome, hnode⟩
  · rw [hnone]
    rfl
  · simp only [hsome, ok_bind, nodeChecked_of_node? hnode, Option.bind_some,
      hnode]
    rfl

theorem Linked.setChecked {c : Chain α} {cells : List (Cell α)}
    (h : c.Linked cells) (index : Int) (value : α) :
    c.setChecked index value = .ok (c.set? index value) := by
  unfold Chain.setChecked
  rw [h.locateChecked, set?_eq]
  rcases h.locate?_cases index with
    ⟨hnone, _⟩ | ⟨before, cell, after, _, _, hsome, hnode⟩
  · rw [hnone]
    rfl
  · simp only [hsome, ok_bind, nodeChecked_of_node? hnode]
    rfl

/-- The neighbours of a cell are still there when its slot is emptied. -/
theorem Linked.node?_emptied_ne_none {c : Chain α}
    {before after : List (Cell α)} {cell neighbour : Cell α}
    (h : c.Linked (before ++ cell :: after))
    (hmem : neighbour ∈ before ∨ neighbour ∈ after) :
    ({ c with slots := c.slots.setIfInBounds cell.slot none } :
      Chain α).node? neighbour.slot ≠ none := by
  have hlt : cell.slot < c.slots.size :=
    lt_size_of_occupant (h.node before cell after rfl)
  rw [node?_eq_occupant, occupant_setIfInBounds _ _ _ _ hlt,
    if_neg (h.slot_ne hmem)]
  apply h.occupied_of_mem
  rcases hmem with hbefore | hafter
  · simp [hbefore]
  · simp [hafter]

theorem Linked.removeChecked {c : Chain α} {cells : List (Cell α)}
    (h : c.Linked cells) (index : Int) :
    c.removeChecked index = .ok (c.remove? index) := by
  unfold Chain.removeChecked
  rw [h.locateChecked, remove?_eq]
  rcases h.locate?_cases index with
    ⟨hnone, _⟩ | ⟨before, cell, after, rfl, _, hsome, hnode⟩
  · rw [hnone]
    rfl
  · let emptied := { c with slots := c.slots.setIfInBounds cell.slot none }
    have hprev : emptied.checkLink (cell.node before after).prev = .ok () := by
      apply checkLink_eq_ok
      intro slot hslot
      obtain ⟨last, hlast, rfl⟩ := Option.map_eq_some_iff.mp hslot
      exact h.node?_emptied_ne_none (Or.inl (List.mem_of_getLast? hlast))
    have hnext : emptied.checkLink (cell.node before after).next = .ok () := by
      apply checkLink_eq_ok
      intro slot hslot
      obtain ⟨first, hfirst, rfl⟩ := Option.map_eq_some_iff.mp hslot
      exact h.node?_emptied_ne_none (Or.inr (List.mem_of_head? hfirst))
    simp only [emptied] at hprev hnext
    simp only [hsome, ok_bind, nodeChecked_of_node? hnode, hprev, hnext, hnode,
      Option.bind_some, Option.map_some]
    rfl

theorem Linked.collectChecked {c : Chain α} (before after : List (Cell α))
    (h : c.Linked (before ++ after)) {n : Nat} (hn : after.length ≤ n) :
    c.collectChecked n (after.head?.map Cell.slot) =
      .ok (after.map Cell.value) := by
  induction n generalizing before after with
  | zero =>
      cases after with
      | nil => rfl
      | cons cell after => simp at hn
  | succ n ih =>
      cases after with
      | nil => rfl
      | cons cell after =>
          have hnode := h.node before cell after rfl
          have hrest := ih (before ++ [cell]) after (by simpa using h)
            (by simpa using hn)
          simp only [List.head?_cons, Option.map_some, Chain.collectChecked,
            nodeChecked_of_node? hnode, ok_bind]
          simp only [Cell.node, hrest]
          rfl

/-- The elements in order are found by following successors to their end. -/
theorem Linked.collectChecked_head {c : Chain α} {cells : List (Cell α)}
    (h : c.Linked cells) :
    c.collectChecked c.slots.size c.head = .ok c.toList := by
  have hbound : cells.length ≤ c.slots.size := by
    rw [h.size]
    omega
  have hcollect := Linked.collectChecked [] cells h hbound
  rw [h.head, hcollect, h.toList_eq]

theorem Linked.visits_next {c : Chain α} (before after : List (Cell α))
    (h : c.Linked (before ++ after)) :
    c.Visits Node.next (after.head?.map Cell.slot) (after.map Cell.slot) := by
  induction after generalizing before with
  | nil => exact Visits.stop
  | cons cell after ih =>
      apply Visits.step (h.node before cell after rfl)
      exact ih (before ++ [cell]) (by simpa using h)

theorem Linked.visits_prev {c : Chain α} (before after : List (Cell α))
    (h : c.Linked (before ++ after)) :
    c.Visits Node.prev (before.getLast?.map Cell.slot)
      (before.map Cell.slot).reverse := by
  induction before using List.reverseRecOn generalizing after with
  | nil => exact Visits.stop
  | append_singleton before cell ih =>
      simp only [List.getLast?_concat, Option.map_some, List.map_append,
        List.map_cons, List.map_nil, List.reverse_append, List.reverse_singleton]
      apply Visits.step (h.node before cell after (by simp))
      exact ih (cell :: after) (by simpa using h)

/-- A sequence in good shape that holds the given elements, on which no
operation meets a defect. -/
structure Represents (c : Chain α) (values : List α) : Prop where
  toList : c.toList = values
  length : c.length = values.length
  /-- From either end the links pass all occupied slots, in opposite orders. -/
  order : ∃ order : List Nat,
    c.Visits Node.next c.head order ∧
      c.Visits Node.prev c.tail order.reverse ∧
      order.Nodup ∧ ∀ slot, slot ∈ order ↔ c.node? slot ≠ none
  /-- The free slots are the empty ones, each listed once. -/
  mem_free : ∀ slot, slot ∈ c.free ↔
    slot < c.slots.size ∧ c.node? slot = none
  free_nodup : c.free.Nodup
  size : c.slots.size = c.length + c.free.length
  push : ∀ value, c.pushChecked value = .ok (c.push value)
  get : ∀ index, c.getChecked index = .ok (c.get? index)
  set : ∀ index value, c.setChecked index value = .ok (c.set? index value)
  remove : ∀ index, c.removeChecked index = .ok (c.remove? index)
  items : c.collectChecked c.slots.size c.head = .ok c.toList

theorem Linked.mem_slots_iff {c : Chain α} {cells : List (Cell α)}
    (h : c.Linked cells) (slot : Nat) :
    slot ∈ cells.map Cell.slot ↔ c.node? slot ≠ none := by
  constructor
  · intro hslot
    obtain ⟨cell, hcell, rfl⟩ := List.mem_map.mp hslot
    exact h.occupied_of_mem hcell
  · intro hslot
    exact h.occupied slot (Option.isSome_iff_ne_none.mpr hslot)

theorem Linked.represents {c : Chain α} {cells : List (Cell α)}
    (h : c.Linked cells) : c.Represents (cells.map Cell.value) where
  toList := h.toList_eq
  length := by simpa using h.length
  order := by
    refine ⟨cells.map Cell.slot, ?_, ?_, h.slots_nodup, h.mem_slots_iff⟩
    · rw [h.head]
      exact Linked.visits_next [] cells h
    · rw [h.tail]
      exact Linked.visits_prev cells [] (by simpa using h)
  mem_free := h.mem_free
  free_nodup := h.free_nodup
  size := by rw [h.size, h.length]
  push := h.pushChecked
  get := h.getChecked
  set := h.setChecked
  remove := h.removeChecked
  items := h.collectChecked_head

end Prose.Chain
