import Prose.Eval.Interpreter

/-!
What a step does to the scope, as a relation between the scope before and the
scope after it, on whatever outcome the step ends. Steps compose, so a relation
that every primitive step respects is respected by every program.
-/

namespace Prose.Run

variable {α β : Type} {R S T : Scope → Scope → Prop}

/-- However the step ends, the relation holds between the scopes before and
after it. -/
def OnScope (R : Scope → Scope → Prop) (x : Run α) : Prop :=
  ∀ m r m', x m = some (r, m') → R m.scope m'.scope

theorem OnScope.mono {x : Run α} (hx : OnScope R x)
    (himp : ∀ s t, R s t → S s t) : OnScope S x := by
  intro m r m' hrun
  exact himp _ _ (hx m r m' hrun)

/-- A step that leaves the scope alone respects every reflexive relation. -/
theorem onScope_of_fixed (hrefl : ∀ s, R s s) {x : Run α}
    (hx : ∀ m r m', x m = some (r, m') → m'.scope = m.scope) :
    OnScope R x := by
  intro m r m' hrun
  rw [hx m r m' hrun]
  exact hrefl _

theorem onScope_pure (hrefl : ∀ s, R s s) (a : α) :
    OnScope R (Pure.pure a : Run α) := by
  rintro m r m' ⟨⟩
  exact hrefl _

/-- One step after another: the first may end the run alone. -/
theorem OnScope.bind {x : Run α} {f : α → Run β} (hx : OnScope R x)
    (hf : ∀ a, OnScope S (f a)) (hleft : ∀ s t, R s t → T s t)
    (hboth : ∀ s t u, R s t → S t u → T s u) : OnScope T (x >>= f) := by
  intro m r m' hrun
  change Run.bind x f m = some (r, m') at hrun
  rw [Run.bind] at hrun
  split at hrun
  · contradiction
  · next fault m₁ hfirst =>
      obtain ⟨rfl, rfl⟩ := Prod.mk.inj (Option.some.inj hrun)
      exact hleft _ _ (hx m _ _ hfirst)
  · next a m₁ hfirst =>
      exact hboth _ _ _ (hx m _ _ hfirst) (hf a m₁ r m' hrun)

theorem onScope_unfinished : OnScope R (Run.unfinished : Run α) := by
  intro m r m' hrun
  contradiction

theorem OnScope.located {x : Run α} (hx : OnScope R x) (span : Span) :
    OnScope R (Run.located span x) := by
  intro m r m' hrun
  rw [Run.located] at hrun
  split at hrun
  · contradiction
  · next fault m₁ hfirst =>
      obtain ⟨rfl, rfl⟩ := Prod.mk.inj (Option.some.inj hrun)
      exact hx m _ _ hfirst
  · next a m₁ hfirst =>
      obtain ⟨rfl, rfl⟩ := Prod.mk.inj (Option.some.inj hrun)
      exact hx m _ _ hfirst

theorem OnScope.inCall {x : Run α} (hx : OnScope R x) (hrefl : ∀ s, R s s)
    (call : CallFrame) : OnScope R (Run.inCall call x) := by
  intro m r m' hrun
  rw [Run.inCall] at hrun
  split at hrun
  · obtain ⟨rfl, rfl⟩ := Prod.mk.inj (Option.some.inj hrun)
    exact hrefl _
  · next calls _ =>
      split at hrun
      · contradiction
      · next r₁ m₁ hbody =>
          have hscope := hx { m with calls := calls } r₁ m₁ hbody
          cases r₁ with
          | ok a =>
              obtain ⟨rfl, rfl⟩ := Prod.mk.inj (Option.some.inj hrun)
              exact hscope
          | error fault =>
              obtain ⟨rfl, rfl⟩ := Prod.mk.inj (Option.some.inj hrun)
              exact hscope

/-- A frame is entered before a step and left after it. -/
theorem OnScope.inFrame {x : Run α} (hx : OnScope R x) (frame : Frame)
    (hframe : ∀ s t, R (s.enter frame) t → S s t.leave) :
    OnScope S (Run.inFrame frame x) := by
  intro m r m' hrun
  rw [Run.inFrame] at hrun
  split at hrun
  · contradiction
  · next r₁ m₁ hbody =>
      obtain ⟨rfl, rfl⟩ := Prod.mk.inj (Option.some.inj hrun)
      exact hframe _ _ (hx _ _ _ hbody)

end Prose.Run
