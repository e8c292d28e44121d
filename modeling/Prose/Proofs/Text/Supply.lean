import Mathlib.Data.List.Basic

/-!
Supplies. A supply is asked for one item after the other; it answers with an item,
with nothing at its end, or with a failure, and is another supply after that. What
a supply hands out is determined by how often it is asked, so the items up to its
end are one list.
-/

namespace Prose

variable {σ ε α : Type}

/-- Asked again and again, the first supply hands out the items and is the second
supply then. -/
inductive Serves (ask : σ → Except ε (Option α) × σ) :
    σ → List α → σ → Prop where
  | nil (s : σ) : Serves ask s [] s
  | cons {s t u : σ} {a : α} {items : List α} :
      ask s = (.ok (some a), t) → Serves ask t items u →
        Serves ask s (a :: items) u

/-- The supply hands out the items, and then it has nothing more. -/
def Drains (ask : σ → Except ε (Option α) × σ) (s : σ) (items : List α) : Prop :=
  ∃ last, Serves ask s items last ∧ ask last = (.ok none, last)

variable {ask : σ → Except ε (Option α) × σ} {s t u : σ} {as bs : List α}

theorem Serves.append (h : Serves ask s as t) (hmore : Serves ask t bs u) :
    Serves ask s (as ++ bs) u := by
  induction h with
  | nil => exact hmore
  | cons hask _ ih => exact .cons hask (ih hmore)

/-- There is a supply between two items. -/
theorem Serves.split (h : Serves ask s (as ++ bs) u) :
    ∃ t, Serves ask s as t ∧ Serves ask t bs u := by
  induction as generalizing s with
  | nil => exact ⟨s, .nil s, h⟩
  | cons a as ih =>
      cases h with
      | cons hask hrest =>
          obtain ⟨t, has, hbs⟩ := ih hrest
          exact ⟨t, .cons hask has, hbs⟩

theorem Drains.nil_iff : Drains ask s [] ↔ ask s = (.ok none, s) := by
  constructor
  · rintro ⟨_, ⟨⟩, hlast⟩
    exact hlast
  · exact fun hlast => ⟨s, .nil s, hlast⟩

theorem Drains.cons_iff {a : α} :
    Drains ask s (a :: as) ↔ ∃ t, ask s = (.ok (some a), t) ∧ Drains ask t as := by
  constructor
  · rintro ⟨last, hserves, hlast⟩
    cases hserves with
    | cons hask hrest => exact ⟨_, hask, last, hrest, hlast⟩
  · rintro ⟨t, hask, last, hrest, hlast⟩
    exact ⟨last, .cons hask hrest, hlast⟩

/-- Some of the items have been handed out, and the others are still to come. -/
theorem Drains.split (h : Drains ask s (as ++ bs)) :
    ∃ t, Serves ask s as t ∧ Drains ask t bs := by
  obtain ⟨last, hserves, hlast⟩ := h
  obtain ⟨t, has, hbs⟩ := hserves.split
  exact ⟨t, has, last, hbs, hlast⟩

/-- A supply hands out one list of items. -/
theorem Drains.unique (h : Drains ask s as) (h' : Drains ask s bs) : as = bs := by
  induction as generalizing s bs with
  | nil =>
      rw [Drains.nil_iff] at h
      cases bs with
      | nil => rfl
      | cons b bs =>
          obtain ⟨t, hask, -⟩ := Drains.cons_iff.1 h'
          rw [h] at hask
          cases hask
  | cons a as ih =>
      obtain ⟨t, hask, hrest⟩ := Drains.cons_iff.1 h
      cases bs with
      | nil =>
          rw [Drains.nil_iff, hask] at h'
          cases h'
      | cons b bs =>
          obtain ⟨t', hask', hrest'⟩ := Drains.cons_iff.1 h'
          rw [hask] at hask'
          cases hask'
          rw [ih hrest hrest']

theorem Drains.iff_eq (h : Drains ask s as) : Drains ask s bs ↔ bs = as := by
  constructor
  · exact fun h' => h'.unique h
  · rintro rfl
    exact h

end Prose
