import Mathlib.Data.List.Infix
import Prose.Proofs.Chain.Ahead

/-!
Walks along a list that changes. Elements are added, replaced and removed while
any number of walks go on, in any order. Serial numbers grow along the list and
a walk only ever moves to a greater one, so it visits no element twice, although
slots are used again. As long as the element visited last is in the list, a walk
goes on to what follows it now; if it is gone, to what followed it when it was
visited.
-/

namespace Prose

open Chain

variable {α : Type}

namespace Walk

/-- The element that the next step visits. -/
def reply (w : Walk) (c : Chain α) : Option (Cell α) :=
  match w.next c with
  | (some value, visiting mark _) => some ⟨mark.slot, mark.serial, value⟩
  | _ => none

theorem reply_value (w : Walk) (c : Chain α) :
    (w.reply c).map Cell.value = (w.next c).1 := by
  unfold reply next
  split <;> rename_i heq <;> grind

theorem reply_eq {c : Chain α} {cells : List (Cell α)} (h : c.Linked cells)
    (w : Walk) : w.reply c = (w.rest cells).head? := by
  rw [reply, next_eq h]
  cases w.rest cells <;> rfl

end Walk

/-- A walk with what each of its steps gave: the element visited, or nothing. -/
structure Stroll (α : Type) where
  walk : Walk
  replies : List (Option (Cell α))

namespace Stroll

def setOut : Stroll α := ⟨.start, []⟩

def step (s : Stroll α) (c : Chain α) : Stroll α :=
  ⟨(s.walk.next c).2, s.replies ++ [s.walk.reply c]⟩

def visits (s : Stroll α) : List (Cell α) := s.replies.filterMap id

/-- Whether a step has found nothing to visit. -/
def HasEnded (s : Stroll α) : Prop := none ∈ s.replies

instance (s : Stroll α) : Decidable s.HasEnded :=
  decidable_of_iff (s.replies.any Option.isNone) (by simp [HasEnded])

end Stroll

/-- A list and the walks along it, in the order they set out. -/
structure Tour (α : Type) where
  chain : Chain α
  strolls : List (Stroll α)

namespace Tour

/-- What may happen to a list and the walks along it. -/
inductive Event (α : Type) where
  | push (value : α)
  | set (index : Int) (value : α)
  | remove (index : Int)
  /-- A new walk sets out. -/
  | setOut
  /-- The walk with a number, counted from zero, takes its next step. -/
  | next (number : Nat)

/-- What an event does. An index outside the list changes nothing. -/
def step (t : Tour α) : Event α → Tour α
  | .push value => { t with chain := t.chain.push value }
  | .set index value =>
      { t with chain := (t.chain.set? index value).getD t.chain }
  | .remove index =>
      { t with chain := ((t.chain.remove? index).map Prod.snd).getD t.chain }
  | .setOut => { t with strolls := t.strolls ++ [.setOut] }
  | .next number =>
      { t with strolls := t.strolls.modify number (·.step t.chain) }

/-- What a history leads to, from a list without elements and no walks. -/
def after (events : List (Event α)) : Tour α :=
  events.foldl step ⟨.empty, []⟩

@[simp] theorem after_append_singleton (events : List (Event α))
    (event : Event α) :
    after (events ++ [event]) = (after events).step event := by
  simp [after]

end Tour

/-! ### One walk -/

namespace Stroll

theorem visits_step (s : Stroll α) (c : Chain α) :
    (s.step c).visits = s.visits ++ (s.walk.reply c).toList := by
  cases h : s.walk.reply c <;> simp [step, visits, h]

/-- What is true of a walk whatever happens to the list. -/
structure Fits (s : Stroll α) : Prop where
  ascending : (s.visits.map Cell.serial).Pairwise (· < ·)
  start : s.walk = .start → s.replies = []
  /-- The walk remembers the element visited last, and one added later than
  that. -/
  current : ∀ mark ahead, s.walk = .visiting mark ahead →
    ¬ s.HasEnded ∧ s.visits.getLast?.map Cell.mark = some mark ∧
      (∀ cell ∈ s.visits, cell.serial ≤ mark.serial) ∧
      ∀ following, ahead = some following → mark.serial < following.serial
  done : s.walk = .done → s.HasEnded

theorem fits_setOut : (setOut : Stroll α).Fits := by
  constructor <;> simp [setOut, visits]

/-- Whatever is ahead was added later than all that has been visited. -/
theorem Fits.serial_lt {s : Stroll α} (h : s.Fits) {c : Chain α}
    {cells after : List (Cell α)} {cell : Cell α} (hlinked : c.Linked cells)
    (hrest : s.walk.rest cells = cell :: after) :
    ∀ visited ∈ s.visits, visited.serial < cell.serial := by
  intro visited hvisited
  cases hwalk : s.walk with
  | start => simp [visits, h.start hwalk] at hvisited
  | done => simp [hwalk, Walk.rest] at hrest
  | visiting mark ahead =>
      obtain ⟨_, _, hlatest, hahead⟩ := h.current mark ahead hwalk
      apply Nat.lt_of_le_of_lt (hlatest visited hvisited)
      rw [hwalk] at hrest
      by_cases hheld : mark ∈ cells.map Cell.mark
      · obtain ⟨last, hlast, rfl⟩ := List.mem_map.mp hheld
        obtain ⟨before, rest, rfl⟩ := List.append_of_mem hlast
        rw [Walk.rest_visiting hlinked] at hrest
        have hserials := (List.pairwise_append.mp hlinked.serials).2.1
        exact List.rel_of_pairwise_cons hserials (by simp [hrest])
      · rw [Walk.rest_of_removed hheld] at hrest
        cases ahead with
        | none => simp at hrest
        | some following =>
            by_cases hthere : following ∈ cells.map Cell.mark
            · obtain ⟨found, hfound, rfl⟩ := List.mem_map.mp hthere
              obtain ⟨before, rest, rfl⟩ := List.append_of_mem hfound
              simp only [Option.map_some, Option.getD_some,
                hlinked.fromMark_eq, List.cons.injEq] at hrest
              rw [← hrest.1]
              exact hahead _ rfl
            · simp [fromMark_of_not_mem hthere] at hrest

/-- A walk that has something ahead has not ended. -/
theorem Fits.not_hasEnded {s : Stroll α} (h : s.Fits) {cells : List (Cell α)}
    (hrest : s.walk.rest cells ≠ []) : ¬ s.HasEnded := by
  cases hwalk : s.walk with
  | start => simp [HasEnded, h.start hwalk]
  | done => simp [hwalk, Walk.rest] at hrest
  | visiting mark ahead => exact (h.current mark ahead hwalk).1

/-- A step keeps what is true of a walk. -/
theorem Fits.step {s : Stroll α} (h : s.Fits) {c : Chain α}
    {cells : List (Cell α)} (hlinked : c.Linked cells) : (s.step c).Fits := by
  have hnext := Walk.next_eq hlinked s.walk
  have hreply := Walk.reply_eq hlinked s.walk
  have hvisits := s.visits_step c
  cases hrest : s.walk.rest cells with
  | nil =>
      rw [hrest] at hnext hreply
      rw [hreply, List.head?_nil, Option.toList_none, List.append_nil] at hvisits
      have hended : (s.step c).HasEnded := by simp [HasEnded, Stroll.step, hreply]
      refine ⟨hvisits ▸ h.ascending, ?_, ?_, fun _ => hended⟩ <;>
        simp [Stroll.step, hnext]
  | cons cell after =>
      rw [hrest] at hnext hreply
      rw [hreply, List.head?_cons, Option.toList_some] at hvisits
      have hlt := h.serial_lt hlinked hrest
      have hne : s.walk.rest cells ≠ [] := by simp [hrest]
      have hgoing := h.not_hasEnded hne
      refine ⟨?_, by simp [Stroll.step, hnext], ?_, by simp [Stroll.step, hnext]⟩
      · rw [hvisits, List.map_append, List.pairwise_append]
        exact ⟨h.ascending, by simp, by simpa using hlt⟩
      · intro mark ahead hwalk
        simp only [Stroll.step, hnext, Walk.visiting.injEq] at hwalk
        obtain ⟨rfl, rfl⟩ := hwalk
        refine ⟨?_, by simp [hvisits], ?_, ?_⟩
        · simpa [HasEnded, Stroll.step, hreply] using hgoing
        · intro visited hvisited
          rw [hvisits, List.mem_append, List.mem_singleton] at hvisited
          rcases hvisited with hold | rfl
          · exact Nat.le_of_lt (hlt visited hold)
          · exact Nat.le_refl _
        · intro following hfollowing
          obtain ⟨found, hfound, rfl⟩ := Option.map_eq_some_iff.mp hfollowing
          have hserials := hlinked.serials.sublist
            (hrest ▸ s.walk.rest_suffix cells).sublist
          exact List.rel_of_pairwise_cons hserials (List.mem_of_head? hfound)

/-- A walk that has not ended and whose last element is in the list goes on to
the elements after it. -/
theorem Fits.rest_of_last {s : Stroll α} (h : s.Fits) {c : Chain α}
    {before after : List (Cell α)} {cell last : Cell α}
    (hlinked : c.Linked (before ++ cell :: after)) (hgoing : ¬ s.HasEnded)
    (hlast : s.visits.getLast? = some last) (hmark : cell.mark = last.mark) :
    s.walk.rest (before ++ cell :: after) = after := by
  cases hwalk : s.walk with
  | start => simp [visits, h.start hwalk] at hlast
  | done => exact absurd (h.done hwalk) hgoing
  | visiting mark ahead =>
      have hcurrent := (h.current mark ahead hwalk).2.1
      rw [hlast, Option.map_some, Option.some.injEq] at hcurrent
      rw [← hcurrent, ← hmark]
      exact Walk.rest_visiting hlinked ahead

theorem Fits.rest_of_hasEnded {s : Stroll α} (h : s.Fits) (hended : s.HasEnded)
    (cells : List (Cell α)) : s.walk.rest cells = [] := by
  cases hwalk : s.walk with
  | start => simp [HasEnded, h.start hwalk] at hended
  | done => rfl
  | visiting mark ahead => exact absurd hended (h.current mark ahead hwalk).1

theorem Fits.visits_nodup {s : Stroll α} (h : s.Fits) :
    (s.visits.map Cell.mark).Nodup := by
  apply List.Nodup.of_map Mark.serial
  rw [List.map_map]
  exact h.ascending.imp Nat.ne_of_lt

/-- Everything in the list up to the element visited last has been visited. -/
def Covers (s : Stroll α) (cells : List (Cell α)) : Prop :=
  ∀ last, s.visits.getLast? = some last → ∀ cell ∈ cells,
    cell.serial ≤ last.serial → cell.mark ∈ s.visits.map Cell.mark

/-- The element visited last, if there is one, is in the list. -/
def HasPlace (s : Stroll α) (cells : List (Cell α)) : Prop :=
  ∀ last ∈ s.visits.getLast?, last.mark ∈ cells.map Cell.mark

instance (s : Stroll α) (cells : List (Cell α)) : Decidable (s.HasPlace cells) :=
  inferInstanceAs (Decidable (∀ last ∈ s.visits.getLast?, _))

/-- A walk that has its place has every element ahead of it or has visited
it. -/
theorem Covers.ahead_or_visited {s : Stroll α} {c : Chain α}
    {cells : List (Cell α)} (h : s.Covers cells) (hfits : s.Fits)
    (hplace : s.HasPlace cells) (hlinked : c.Linked cells)
    (hgoing : ¬ s.HasEnded) {cell : Cell α} (hcell : cell ∈ cells) :
    cell ∈ s.walk.rest cells ∨ cell.mark ∈ s.visits.map Cell.mark := by
  cases hlast : s.visits.getLast? with
  | none =>
      cases hwalk : s.walk with
      | start => exact Or.inl hcell
      | done => exact absurd (hfits.done hwalk) hgoing
      | visiting mark ahead =>
          have hcurrent := (hfits.current mark ahead hwalk).2.1
          simp [hlast] at hcurrent
  | some last =>
      obtain ⟨place, hmem, hmark⟩ := List.mem_map.mp (hplace last hlast)
      obtain ⟨before, after, rfl⟩ := List.append_of_mem hmem
      rw [hfits.rest_of_last hlinked hgoing hlast hmark]
      have hserials := (List.pairwise_append.mp hlinked.serials).2.2
      rcases List.mem_append.mp hcell with hbefore | hfrom
      · have hlt := hserials cell hbefore place List.mem_cons_self
        exact Or.inr (h last hlast cell hcell
          (Cell.serial_eq hmark ▸ Nat.le_of_lt hlt))
      · rcases List.mem_cons.mp hfrom with rfl | hafter
        · exact Or.inr (h last hlast cell hcell
            (Nat.le_of_eq (Cell.serial_eq hmark)))
        · exact Or.inl hafter

/-- A walk that has its place leaves nothing out when it takes a step. -/
theorem Covers.step {s : Stroll α} {c : Chain α} {cells : List (Cell α)}
    (h : s.Covers cells) (hfits : s.Fits) (hplace : s.HasPlace cells)
    (hlinked : c.Linked cells) (hgoing : ¬ (s.step c).HasEnded) :
    (s.step c).Covers cells := by
  have hreply := Walk.reply_eq hlinked s.walk
  have hvisits := s.visits_step c
  rw [hreply] at hvisits
  cases hrest : s.walk.rest cells with
  | nil => simp [HasEnded, Stroll.step, hreply, hrest] at hgoing
  | cons next after =>
      have hne : s.walk.rest cells ≠ [] := by simp [hrest]
      have hserials := hlinked.serials.sublist
        (hrest ▸ s.walk.rest_suffix cells).sublist
      rw [hrest, List.head?_cons, Option.toList_some] at hvisits
      intro last hlast cell hcell hle
      rw [hvisits, List.getLast?_concat, Option.some.injEq] at hlast
      subst hlast
      rw [hvisits, List.map_append, List.mem_append]
      rcases h.ahead_or_visited hfits hplace hlinked (hfits.not_hasEnded hne)
          hcell with hahead | hvisited
      · rw [hrest, List.mem_cons] at hahead
        rcases hahead with rfl | hafter
        · exact Or.inr (by simp)
        · have hlt := List.rel_of_pairwise_cons hserials hafter
          omega
      · exact Or.inl hvisited

/-- An event that leaves a walk alone leaves it its cover. -/
theorem Covers.change {s : Stroll α} {c : Chain α} {cells cells' : List (Cell α)}
    (h : s.Covers cells) (hplace : s.HasPlace cells) (hlinked : c.Linked cells)
    (hcells' : ∀ cell ∈ cells', cell.mark ∈ cells.map Cell.mark ∨
      c.serials < cell.serial) : s.Covers cells' := by
  intro last hlast cell hcell hle
  rcases hcells' cell hcell with hmark | hnew
  · obtain ⟨old, hold, hmark⟩ := List.mem_map.mp hmark
    rw [← hmark]
    apply h last hlast old hold
    rwa [Cell.serial_eq hmark]
  · obtain ⟨place, hplace, hmark⟩ := List.mem_map.mp (hplace last hlast)
    have hgiven := hlinked.serial_le place hplace
    rw [Cell.serial_eq hmark] at hgiven
    omega

end Stroll

/-! ### Histories -/

namespace Tour

open Stroll

/-- What an event does to the walk with a number: nothing, unless the walk sets
out or takes a step. -/
theorem step_strolls {t : Tour α} {event : Event α} {number : Nat}
    {s : Stroll α} (h : (t.step event).strolls[number]? = some s) :
    t.strolls[number]? = some s ∨ s = .setOut ∨
      ∃ old, t.strolls[number]? = some old ∧ s = old.step t.chain ∧
        (t.step event).chain = t.chain := by
  cases event with
  | push value | set index value | remove index => exact Or.inl h
  | setOut =>
      simp only [step, List.getElem?_append] at h
      split at h
      · exact Or.inl h
      · simp only [List.getElem?_singleton, Option.ite_none_right_eq_some,
          Option.some.injEq] at h
        exact Or.inr (Or.inl h.2.symm)
  | next m =>
      simp only [step, List.getElem?_modify, Option.map_eq_map] at h
      obtain ⟨old, hold, rfl⟩ := Option.map_eq_some_iff.mp h
      split
      · exact Or.inr (Or.inr ⟨old, hold, rfl, rfl⟩)
      · exact Or.inl hold

/-- What an event does to the list: an element that is in it afterwards was in
it before, or has been added after all others. -/
theorem step_cells {t : Tour α} {cells : List (Cell α)}
    (h : t.chain.Linked cells) (event : Event α) :
    ∃ cells', (t.step event).chain.Linked cells' ∧
      ∀ cell ∈ cells', cell.mark ∈ cells.map Cell.mark ∨
        t.chain.serials < cell.serial := by
  have hsame : ∀ cell ∈ cells, cell.mark ∈ cells.map Cell.mark ∨
      t.chain.serials < cell.serial :=
    fun cell hcell => Or.inl (List.mem_map_of_mem hcell)
  cases event with
  | push value =>
      refine ⟨_, h.push value, ?_⟩
      intro cell hcell
      rcases List.mem_append.mp hcell with hold | hnew
      · exact hsame cell hold
      · rw [List.mem_singleton.mp hnew]
        exact Or.inr (Nat.lt_succ_self _)
  | set index value =>
      simp only [step, set?_eq]
      rcases h.locate?_cases index with
        ⟨hnone, _⟩ | ⟨before, cell, after, rfl, _, hsome, _⟩
      · rw [hnone]
        exact ⟨cells, h, hsame⟩
      · rw [hsome]
        refine ⟨_, h.withValue value, ?_⟩
        intro other hother
        left
        simp [Cell.mark] at hother ⊢
        grind
  | remove index =>
      simp only [step, remove?_eq]
      rcases h.locate?_cases index with
        ⟨hnone, _⟩ | ⟨before, cell, after, rfl, _, hsome, hnode⟩
      · rw [hnone]
        exact ⟨cells, h, hsame⟩
      · rw [hsome, Option.bind_some, hnode]
        refine ⟨_, h.withoutSlot, ?_⟩
        intro other hother
        apply hsame
        simp only [List.mem_append, List.mem_cons] at hother ⊢
        grind
  | setOut | next m => exact ⟨cells, h, hsame⟩

/-- After any history the list is linked. -/
theorem linked_after (events : List (Event α)) :
    ∃ cells, (after events).chain.Linked cells := by
  induction events using List.reverseRecOn with
  | nil => exact ⟨[], linked_empty⟩
  | append_singleton events event ih =>
      obtain ⟨cells, hlinked⟩ := ih
      obtain ⟨cells', hlinked', _⟩ := step_cells hlinked event
      exact ⟨cells', by simpa using hlinked'⟩

/-- After any history every walk is as it should be. -/
theorem fits_after {events : List (Event α)} {number : Nat} {s : Stroll α}
    (hs : (after events).strolls[number]? = some s) : s.Fits := by
  induction events using List.reverseRecOn generalizing s with
  | nil => simp [after] at hs
  | append_singleton events event ih =>
      obtain ⟨cells, hlinked⟩ := linked_after events
      rw [after_append_singleton] at hs
      rcases step_strolls hs with hold | rfl | ⟨old, hold, rfl, _⟩
      · exact ih hold
      · exact fits_setOut
      · exact (ih hold).step hlinked

/-! ### Elements that stay -/

/-- Throughout a history the element that a walk visited last is in the list. -/
def KeepsPlace (number : Nat) (events : List (Event α)) : Prop :=
  ∀ past ∈ events.inits, ∀ s ∈ (after past).strolls[number]?,
    s.HasPlace (after past).chain.cells

instance (number : Nat) (events : List (Event α)) :
    Decidable (KeepsPlace number events) :=
  inferInstanceAs (Decidable (∀ past ∈ events.inits, _))

theorem KeepsPlace.of_append {number : Nat} {events later : List (Event α)}
    (h : KeepsPlace number (events ++ later)) : KeepsPlace number events := by
  intro past hpast
  rw [List.mem_inits] at hpast
  apply h past
  rw [List.mem_inits]
  exact hpast.trans (List.prefix_append events later)

theorem KeepsPlace.hasPlace {number : Nat} {events : List (Event α)}
    (h : KeepsPlace number events) {s : Stroll α}
    (hs : (after events).strolls[number]? = some s) :
    s.HasPlace (after events).chain.cells :=
  h events (by simp) s hs

/-- A walk that never loses its place has visited everything up to there. -/
theorem covers_after {events : List (Event α)} {number : Nat}
    (hkeeps : KeepsPlace number events) {s : Stroll α}
    (hs : (after events).strolls[number]? = some s) (hgoing : ¬ s.HasEnded) :
    s.Covers (after events).chain.cells := by
  induction events using List.reverseRecOn generalizing s with
  | nil => simp [after] at hs
  | append_singleton events event ih =>
      have hkept := hkeeps.of_append
      have hplace : ∀ s, (after events).strolls[number]? = some s →
          s.HasPlace (after events).chain.cells := fun s => hkept.hasPlace
      obtain ⟨cells, hlinked⟩ := linked_after events
      obtain ⟨cells', hlinked', hcells'⟩ := step_cells hlinked event
      rw [hlinked.cells_eq] at hplace ih
      rw [after_append_singleton] at hs ⊢
      rw [hlinked'.cells_eq]
      rcases step_strolls hs with hold | rfl | ⟨old, hold, rfl, hchain⟩
      · exact (ih hkept hold hgoing).change (hplace s hold) hlinked hcells'
      · simp [Covers, Stroll.setOut, visits]
      · have hsame : cells' = cells := by
          rw [← hlinked'.cells_eq, hchain, hlinked.cells_eq]
        have hbefore : ¬ old.HasEnded := by
          intro hended
          exact hgoing (List.mem_append_left _ hended)
        rw [hsame]
        exact (ih hkept hold hbefore).step (fits_after hold) (hplace old hold)
          hlinked hgoing

/-- Walks along a list that changes. After any history of additions, replacements,
removals and steps of walks: a step visits an element that is in the list then;
a walk visits elements in the order of their serial numbers, which is that of
the list; while the element visited last is in the list, the next step visits
the one that follows it now, and there is none just when it is the last; a walk
that has found nothing to visit finds nothing ever after. A walk that never loses
its place has, when it ends, visited every element of the list exactly once. -/
theorem walks_follow_the_list (events : List (Event α)) (number : Nat)
    (s : Stroll α) (hs : (after events).strolls[number]? = some s) :
    let c := (after events).chain
    c.cells.map Cell.value = c.toList ∧
    (s.walk.next c).1 = (s.walk.reply c).map Cell.value ∧
    (∀ cell, s.walk.reply c = some cell → cell ∈ c.cells) ∧
    (c.cells.map Cell.serial).Pairwise (· < ·) ∧
    (s.visits.map Cell.serial).Pairwise (· < ·) ∧
    (∀ last before cell after, ¬ s.HasEnded → s.visits.getLast? = some last →
      c.cells = before ++ cell :: after → cell.mark = last.mark →
        s.walk.reply c = after.head?) ∧
    (s.HasEnded → s.walk.reply c = none) ∧
    (KeepsPlace number events → ¬ s.HasEnded → s.walk.reply c = none →
      ∀ cell ∈ c.cells, (s.visits.map Cell.mark).count cell.mark = 1) := by
  intro c
  obtain ⟨cells, hlinked⟩ := linked_after events
  have hcells : c.cells = cells := hlinked.cells_eq
  have hfits := fits_after hs
  have hreply := Walk.reply_eq hlinked s.walk
  refine ⟨?_, ?_, ?_, ?_, hfits.ascending, ?_, ?_, ?_⟩
  · rw [hcells, hlinked.toList_eq]
  · rw [Walk.reply_value]
  · intro cell hcell
    rw [hreply] at hcell
    rw [hcells]
    exact (s.walk.rest_suffix cells).mem (List.mem_of_head? hcell)
  · rw [hcells, List.pairwise_map]
    exact hlinked.serials
  · intro last before cell after hgoing hlast hsplit hmark
    rw [hcells] at hsplit
    subst hsplit
    rw [hreply, hfits.rest_of_last hlinked hgoing hlast hmark]
  · intro hended
    rw [hreply, hfits.rest_of_hasEnded hended, List.head?_nil]
  · intro hkeeps hgoing hnone cell hcell
    have hcovers := covers_after hkeeps hs hgoing
    have hplace := hkeeps.hasPlace hs
    rw [hreply, List.head?_eq_none_iff] at hnone
    rw [hlinked.cells_eq] at hcovers hplace
    rw [hcells] at hcell
    rcases hcovers.ahead_or_visited hfits hplace hlinked hgoing hcell with
      hahead | hvisited
    · simp [hnone] at hahead
    · exact List.count_eq_one_of_mem hfits.visits_nodup hvisited

/-- A walk along a list from which the second element is removed; the element
added then uses its slot. -/
theorem walks_follow_the_list_reused_slot :
    let events : List (Event Nat) :=
      [.push 1, .push 2, .push 3, .setOut, .next 0, .remove 1, .push 4, .next 0,
        .next 0]
    ∃ s, (after events).strolls[0]? = some s ∧ KeepsPlace 0 events ∧
      s.visits.map Cell.value = [1, 3, 4] ∧
      ∀ cell ∈ (after events).chain.cells,
        (s.visits.map Cell.mark).count cell.mark = 1 := by
  intro events
  refine ⟨_, rfl, by decide, by decide, ?_⟩
  exact (walks_follow_the_list events 0 _ rfl).2.2.2.2.2.2.2 (by decide)
    (by decide) (by decide)

/-! ### Elements that are gone -/

/-- A walk stays as it is until its own next step. -/
theorem strolls_of_no_step {t : Tour α} {number : Nat} {s : Stroll α}
    (hs : t.strolls[number]? = some s) {events : List (Event α)}
    (hevents : ∀ event ∈ events, event ≠ .next number) :
    (events.foldl step t).strolls[number]? = some s := by
  induction events generalizing t with
  | nil => exact hs
  | cons event events ih =>
      rw [List.forall_mem_cons] at hevents
      apply ih _ hevents.2
      cases event with
      | push value | set index value | remove index => exact hs
      | setOut =>
          have hlt := (List.getElem?_eq_some_iff.mp hs).1
          simpa [step, List.getElem?_append_left hlt] using hs
      | next m =>
          have hne : m ≠ number := fun heq => hevents.1 (by rw [heq])
          simpa [step, List.getElem?_modify, hne] using hs

/-- A walk whose element has been removed goes on with the one that followed it
when it was visited, if that one is still in the list, and ends otherwise. -/
theorem reply_after_removal (earlier later : List (Event α)) (number : Nat)
    (s : Stroll α) (before rest : List (Cell α)) (cell : Cell α)
    (hs : (after earlier).strolls[number]? = some s)
    (hcells : (after earlier).chain.cells = before ++ cell :: rest)
    (hvisit : s.walk.reply (after earlier).chain = some cell)
    (hlater : ∀ event ∈ later, event ≠ .next number)
    (hgone : cell.mark ∉
      (after (earlier ++ .next number :: later)).chain.cells.map Cell.mark) :
    ∃ s', (after (earlier ++ .next number :: later)).strolls[number]? = some s' ∧
      s'.visits = s.visits ++ [cell] ∧
      s'.walk.reply (after (earlier ++ .next number :: later)).chain =
        rest.head?.bind fun following =>
          (after (earlier ++ .next number :: later)).chain.cells.find? fun x =>
            x.mark = following.mark := by
  have hstep : after (earlier ++ .next number :: later) =
      later.foldl step ((after earlier).step (.next number)) := by
    simp [after]
  obtain ⟨cells, hlinked⟩ := linked_after earlier
  rw [hlinked.cells_eq] at hcells
  subst hcells
  have hrest : s.walk.rest (before ++ cell :: rest) = cell :: rest := by
    apply Walk.rest_eq_of_head? hlinked
    rw [← Walk.reply_eq hlinked, hvisit]
  have hwalk : (s.step (after earlier).chain).walk =
      .visiting cell.mark (rest.head?.map Cell.mark) := by
    simp [Stroll.step, Walk.next_eq hlinked, hrest]
  obtain ⟨now, hnow⟩ := linked_after (earlier ++ .next number :: later)
  rw [hnow.cells_eq] at hgone ⊢
  refine ⟨s.step (after earlier).chain, ?_, ?_, ?_⟩
  · rw [hstep]
    apply strolls_of_no_step _ hlater
    simp [step, hs]
  · rw [visits_step, hvisit, Option.toList_some]
  · rw [Walk.reply_eq hnow, hwalk, Walk.rest_of_removed hgone]
    cases rest with
    | nil => rfl
    | cons following rest => exact head?_fromMark following.mark now

/-- The second of two elements is found after the first, visited one has been
removed and a third one has been put into its slot. -/
theorem reply_after_removal_of_first :
    let earlier : List (Event Nat) := [.push 1, .push 2, .setOut]
    let later : List (Event Nat) := [.remove 0, .push 3]
    ∃ s, (after (earlier ++ .next 0 :: later)).strolls[0]? = some s ∧
      s.visits.map Cell.value = [1] ∧
      (after (earlier ++ .next 0 :: later)).chain.toList = [2, 3] ∧
      (s.walk.reply (after (earlier ++ .next 0 :: later)).chain).map Cell.value =
        some 2 := by
  intro earlier later
  obtain ⟨s, hs, hvisits, hreply⟩ := reply_after_removal earlier later 0 .setOut
    [] [⟨1, 2, 2⟩] ⟨0, 1, 1⟩ rfl rfl rfl (by simp [later]) (by decide)
  refine ⟨s, hs, by rw [hvisits]; rfl, rfl, ?_⟩
  rw [hreply]
  rfl

/-- What follows an element when it is removed need not be what is remembered.
The element 2 is added behind the element 1, which was visited as the last one;
then 1 is removed. The walk ends, although 2 is in the list, where it followed 1
directly. -/
theorem walk_ends_before_added_element :
    let added : List (Event Nat) := [.push 1, .setOut, .next 0, .push 2]
    (after added).chain.toList = [1, 2] ∧
      (after (added ++ [.remove 0])).chain.toList = [2] ∧
      ∃ s, (after (added ++ [.remove 0])).strolls[0]? = some s ∧
        s.visits.map Cell.value = [1] ∧ ¬ s.HasEnded ∧
        s.walk.reply (after (added ++ [.remove 0])).chain = none := by
  intro added
  exact ⟨rfl, rfl, _, rfl, rfl, by decide, rfl⟩

end Tour

end Prose
