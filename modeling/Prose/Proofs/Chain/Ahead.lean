import Mathlib.Data.List.TakeWhile
import Prose.Proofs.Chain.Checked
import Prose.Value.Walk

/-!
What a walk has ahead of it. The cells of a linked sequence can be computed by
following its links, and a walk that stands somewhere has a run of them still
to visit: those after the element it visited last or, if that one is gone, those
from the element it remembers. The next step visits the first of them.
-/

namespace Prose

namespace Chain

variable {α : Type}

/-- Names the element of a cell, whatever its value is. -/
def Cell.mark (cell : Cell α) : Mark := ⟨cell.slot, cell.serial⟩

@[simp] theorem Cell.mark_slot (cell : Cell α) : cell.mark.slot = cell.slot := rfl

@[simp] theorem Cell.mark_serial (cell : Cell α) :
    cell.mark.serial = cell.serial := rfl

theorem Cell.serial_eq {x y : Cell α} (h : x.mark = y.mark) :
    x.serial = y.serial :=
  congrArg Mark.serial h

/-- The cells from a slot on, at most `n` of them. -/
def cellsFrom (c : Chain α) : Nat → Option Nat → List (Cell α)
  | 0, _ => []
  | _ + 1, none => []
  | n + 1, some slot =>
      match c.node? slot with
      | none => []
      | some node => ⟨slot, node.serial, node.value⟩ :: c.cellsFrom n node.next

def cells (c : Chain α) : List (Cell α) := c.cellsFrom c.slots.size c.head

theorem Linked.cellsFrom {c : Chain α} (before after : List (Cell α))
    (h : c.Linked (before ++ after)) (n : Nat) :
    c.cellsFrom n (after.head?.map Cell.slot) = after.take n := by
  induction n generalizing before after with
  | zero => simp [Chain.cellsFrom]
  | succ n ih =>
      cases after with
      | nil => simp [Chain.cellsFrom]
      | cons cell after =>
          have hnode := h.node before cell after rfl
          have hrest := ih (before ++ [cell]) after (by simpa using h)
          simpa [Chain.cellsFrom, hnode, Cell.node] using hrest

theorem Linked.cells_eq {c : Chain α} {cells : List (Cell α)}
    (h : c.Linked cells) : c.cells = cells := by
  have hcells := Linked.cellsFrom [] cells h c.slots.size
  rw [Chain.cells, h.head, hcells]
  apply List.take_of_length_le
  rw [h.size]
  omega

/-! ### Marked elements -/

theorem Linked.holds_iff {c : Chain α} {cells : List (Cell α)}
    (h : c.Linked cells) (mark : Mark) :
    c.holds mark = true ↔ mark ∈ cells.map Cell.mark := by
  constructor
  · intro hholds
    unfold holds at hholds
    split at hholds
    · next node hnode =>
        have hslot := h.occupied mark.slot (by simp [hnode])
        obtain ⟨cell, hcell, heq⟩ := List.mem_map.mp hslot
        obtain ⟨before, after, rfl⟩ := List.append_of_mem hcell
        have hserial := h.node before cell after rfl
        rw [heq, hnode, Option.some.injEq] at hserial
        rw [hserial] at hholds
        refine List.mem_map.mpr ⟨cell, hcell, ?_⟩
        simp only [Cell.node, beq_iff_eq] at hholds
        rw [Cell.mark, heq, hholds]
    · contradiction
  · intro hmark
    obtain ⟨cell, hcell, rfl⟩ := List.mem_map.mp hmark
    obtain ⟨before, after, rfl⟩ := List.append_of_mem hcell
    have hnode := h.node before cell after rfl
    simp [holds, hnode, Cell.node]

theorem Linked.mark?_slot {c : Chain α} {before after : List (Cell α)}
    {cell : Cell α} (h : c.Linked (before ++ cell :: after)) :
    c.mark? cell.slot = some cell.mark := by
  simp [mark?, h.node before cell after rfl, Cell.node, Cell.mark]

/-- The cells from a marked one on. -/
def fromMark (mark : Mark) (cells : List (Cell α)) : List (Cell α) :=
  cells.dropWhile fun x => x.mark ≠ mark

theorem fromMark_of_not_mem {mark : Mark} {cells : List (Cell α)}
    (h : mark ∉ cells.map Cell.mark) : fromMark mark cells = [] := by
  rw [fromMark, List.dropWhile_eq_nil_iff]
  intro x hx
  simp only [decide_eq_true_eq]
  rintro rfl
  exact h (List.mem_map_of_mem hx)

theorem head?_fromMark (mark : Mark) (cells : List (Cell α)) :
    (fromMark mark cells).head? = cells.find? fun x => x.mark = mark := by
  induction cells with
  | nil => rfl
  | cons cell cells ih =>
      by_cases h : cell.mark = mark
      · simp [fromMark, h]
      · rw [List.find?_cons_of_neg (by simpa using h), ← ih]
        simp [fromMark, h]

theorem Linked.fromMark_eq {c : Chain α} {before after : List (Cell α)}
    {cell : Cell α} (h : c.Linked (before ++ cell :: after)) :
    fromMark cell.mark (before ++ cell :: after) = cell :: after := by
  have hbefore : cell.mark ∉ before.map Cell.mark := by
    intro hmem
    obtain ⟨x, hx, heq⟩ := List.mem_map.mp hmem
    exact h.slot_ne (Or.inl hx) (congrArg Mark.slot heq)
  have hnil := fromMark_of_not_mem hbefore
  rw [fromMark] at hnil ⊢
  rw [List.dropWhile_append, hnil]
  simp

end Chain

/-! ### The next step -/

namespace Walk

open Chain

variable {α : Type}

/-- The cells that a walk has still to visit. -/
def rest (w : Walk) (cells : List (Cell α)) : List (Cell α) :=
  match w with
  | start => cells
  | visiting current ahead =>
      if current ∈ cells.map Cell.mark then (fromMark current cells).drop 1
      else (ahead.map (fromMark · cells)).getD []
  | done => []

/-- They stand together at the end of the sequence. -/
theorem rest_suffix (w : Walk) (cells : List (Cell α)) :
    w.rest cells <:+ cells := by
  cases w with
  | start => exact List.suffix_refl cells
  | done => exact List.nil_suffix
  | visiting current ahead =>
      simp only [rest]
      split
      · exact (List.drop_suffix 1 _).trans (List.dropWhile_suffix _)
      · cases ahead with
        | none => exact List.nil_suffix
        | some mark => exact List.dropWhile_suffix _

/-- After an element that is still in the sequence come those that follow it
now. -/
theorem rest_visiting {c : Chain α} {before after : List (Cell α)}
    {cell : Cell α} (h : c.Linked (before ++ cell :: after))
    (ahead : Option Mark) :
    (visiting cell.mark ahead).rest (before ++ cell :: after) = after := by
  simp [rest, h.fromMark_eq]

/-- After an element that is gone come those from the remembered one on. -/
theorem rest_of_removed {current : Mark} {cells : List (Cell α)}
    (h : current ∉ cells.map Cell.mark) (ahead : Option Mark) :
    (visiting current ahead).rest cells =
      (ahead.map (fromMark · cells)).getD [] :=
  if_neg h

/-- The first cell ahead has all later ones behind it. -/
theorem rest_eq_of_head? {c : Chain α} {before after : List (Cell α)}
    {cell : Cell α} (h : c.Linked (before ++ cell :: after)) {w : Walk}
    (hhead : (w.rest (before ++ cell :: after)).head? = some cell) :
    w.rest (before ++ cell :: after) = cell :: after := by
  obtain ⟨tail, htail⟩ := List.head?_eq_some_iff.mp hhead
  obtain ⟨front, hfront⟩ := w.rest_suffix (before ++ cell :: after)
  rw [htail] at hfront ⊢
  rcases split_append_cons hfront with
    ⟨run, _, rfl⟩ | ⟨_, _, rfl⟩ | ⟨run, _, rfl⟩
  · exact absurd rfl (h.slot_ne (Or.inr (by simp)))
  · rfl
  · exact absurd rfl (h.slot_ne (Or.inl (by simp)))

theorem target?_eq {c : Chain α} {cells : List (Cell α)} (h : c.Linked cells)
    (w : Walk) : w.target? c = (w.rest cells).head?.map Cell.slot := by
  cases w with
  | start => exact h.head
  | done => rfl
  | visiting current ahead =>
      by_cases hheld : current ∈ cells.map Cell.mark
      · have hholds := (h.holds_iff current).mpr hheld
        obtain ⟨cell, hcell, rfl⟩ := List.mem_map.mp hheld
        obtain ⟨before, after, rfl⟩ := List.append_of_mem hcell
        have hnode := h.node before cell after rfl
        rw [target?, if_pos hholds, rest_visiting h]
        simp [hnode, Cell.node]
      · have hholds : ¬ c.holds current := by rwa [h.holds_iff]
        rw [target?, if_neg hholds, rest_of_removed hheld]
        cases ahead with
        | none => rfl
        | some mark =>
            by_cases hahead : mark ∈ cells.map Cell.mark
            · have hholds := (h.holds_iff mark).mpr hahead
              obtain ⟨cell, hcell, rfl⟩ := List.mem_map.mp hahead
              obtain ⟨before, after, rfl⟩ := List.append_of_mem hcell
              simp [Option.filter, hholds, h.fromMark_eq]
            · have hholds : c.holds mark = false := by
                rwa [← Bool.not_eq_true, h.holds_iff]
              simp [Option.filter, hholds, fromMark_of_not_mem hahead]

/-- A step visits the first of the cells ahead and remembers the one after
it. -/
theorem next_eq {c : Chain α} {cells : List (Cell α)} (h : c.Linked cells)
    (w : Walk) :
    w.next c =
      match w.rest cells with
      | [] => (none, done)
      | cell :: after =>
          (some cell.value, visiting cell.mark (after.head?.map Cell.mark)) := by
  rw [next, target?_eq h]
  cases hrest : w.rest cells with
  | nil => rfl
  | cons cell after =>
      obtain ⟨before, rfl⟩ := hrest ▸ w.rest_suffix cells
      have hahead : (after.head?.map Cell.slot).bind c.mark? =
          after.head?.map Cell.mark := by
        cases after with
        | nil => rfl
        | cons following after =>
            have hsplit : c.Linked
                ((before ++ [cell]) ++ following :: after) := by simpa using h
            simpa using hsplit.mark?_slot
      simp [h.node before cell after rfl, Cell.node, Cell.mark, hahead]

end Walk

end Prose
