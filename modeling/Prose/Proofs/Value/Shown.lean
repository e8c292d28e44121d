import Mathlib.Data.List.Perm.Subperm
import Mathlib.Logic.Relation
import Prose.Proofs.Value.Equality
import Prose.Value.Show

/-!
The text of values whose lists may contain each other. An occurrence of a list is
written with the lists known in which it stands: inside itself a list is cut off,
and everywhere else its elements are written in order. That comes to an end, since
no list is ever open twice. A list that occurs several times is not for that
inside itself, so a value in which no list contains itself is written out in full.
-/

namespace Prose

namespace Heap

/-- The inner list is an element of the outer one. -/
def Nests (heap : Heap) (outer inner : ListRef) : Prop :=
  .list inner ∈ heap.items outer

/-- The list contains itself, at once or through other lists. -/
def IsCyclic (heap : Heap) (ref : ListRef) : Prop :=
  Relation.TransGen heap.Nests ref ref

/-- There are no more open lists than lists in the heap. -/
theorem length_le_size {heap : Heap} {outer : List ListRef}
    (hnodup : outer.Nodup) (hin : ∀ ref ∈ outer, ref.index < heap.size) :
    outer.length ≤ heap.size := by
  have hinjective : Function.Injective ListRef.index := by
    rintro ⟨a⟩ ⟨b⟩ heq
    exact congrArg ListRef.mk heq
  have hsub : outer.map (·.index) ⊆ List.range heap.size := by
    intro index hindex
    obtain ⟨ref, href, rfl⟩ := List.mem_map.mp hindex
    exact List.mem_range.mpr (hin ref href)
  simpa using ((hnodup.map hinjective).subperm hsub).length_le

end Heap

namespace Value

variable {heap : Heap} {cuts : List ListRef → ListRef → Prop}
  {outer : List ListRef} {value : Value} {shown : String}

/-- The list is the value itself, or stands somewhere in it. -/
def Reaches (heap : Heap) (value : Value) (ref : ListRef) : Prop :=
  ∃ first, value = list first ∧ Relation.ReflTransGen heap.Nests first ref

/-- The texts of elements, in order between brackets. -/
def bracketed (texts : List String) : String :=
  "[" ++ String.intercalate ", " texts ++ "]"

/-- How a value is written that stands in the lists `outer`, the innermost of them
first. A list is cut off where `cuts` says so, and only there; else all of its
elements are written, which stand one list further in. -/
inductive Shows (heap : Heap) (cuts : List ListRef → ListRef → Prop) :
    List ListRef → Value → String → Prop
  | integer (outer : List ListRef) (n : Int64) :
      Shows heap cuts outer (integer n) (toString n.toInt)
  | real (outer : List ListRef) (r : Float) :
      Shows heap cuts outer (real r) (realForm.write r)
  | text (outer : List ListRef) (s : String) : Shows heap cuts outer (text s) s
  | truth (outer : List ListRef) (b : Bool) :
      Shows heap cuts outer (truth b) (truthWord b)
  | function (outer : List ListRef) (f : Function) :
      Shows heap cuts outer (function f) "<function>"
  | cut (outer : List ListRef) (ref : ListRef) (hcut : cuts outer ref) :
      Shows heap cuts outer (list ref) "[...]"
  | list (outer : List ListRef) (ref : ListRef) (textOf : Value → String)
      (hopen : ¬ cuts outer ref)
      (hitems : ∀ item ∈ heap.items ref,
        Shows heap cuts (ref :: outer) item (textOf item)) :
      Shows heap cuts outer (list ref) (bracketed ((heap.items ref).map textOf))

/-- Where a list stands inside itself. -/
abbrev InsideItself (outer : List ListRef) (ref : ListRef) : Prop := ref ∈ outer

/-- No list is cut off: the plain recursive text. -/
abbrev Nowhere (_ : List ListRef) (_ : ListRef) : Prop := False

/-- There is one way to write a value. -/
theorem Shows.unique (h : Shows heap cuts outer value shown) {other : String}
    (hother : Shows heap cuts outer value other) : shown = other := by
  induction h generalizing other with
  | integer => cases hother with | integer => rfl
  | real => cases hother with | real => rfl
  | text => cases hother with | text => rfl
  | truth => cases hother with | truth => rfl
  | function => cases hother with | function => rfl
  | cut _ _ hcut =>
      cases hother with
      | cut => rfl
      | list _ _ _ hopen => exact absurd hcut hopen
  | list _ _ _ hopen _ ih =>
      cases hother with
      | cut _ _ hcut => exact absurd hcut hopen
      | list _ _ _ _ hitems =>
          rw [List.map_congr_left fun item hitem => ih item hitem (hitems item hitem)]

theorem showUpTo_list (n : Nat) (outer : List ListRef) (ref : ListRef) :
    showUpTo heap (n + 1) outer (list ref) =
      if ref ∈ outer then "[...]"
      else bracketed ((heap.items ref).map (showUpTo heap n (ref :: outer))) := by
  simp only [showUpTo, bracketed]

/-- A list opens another one only if it is not open, so the lists of the heap are
levels enough to write every value. -/
theorem shows_showUpTo {n : Nat} (hnodup : outer.Nodup)
    (hin : ∀ ref ∈ outer, ref.index < heap.size)
    (hn : heap.size < n + outer.length) (value : Value) :
    Shows heap InsideItself outer value (showUpTo heap n outer value) := by
  induction n generalizing outer value with
  | zero =>
      have hle := Heap.length_le_size hnodup hin
      omega
  | succ n ih =>
      cases value with
      | integer i => exact .integer outer i
      | real r => exact .real outer r
      | text s => exact .text outer s
      | truth b => exact .truth outer b
      | function f => exact .function outer f
      | list ref =>
          rw [showUpTo_list]
          split
          · next hopen => exact .cut outer ref hopen
          · next hopen =>
            refine .list outer ref _ hopen fun item hitem => ?_
            have href := Heap.lt_size_of_mem_items hitem
            apply ih
            · exact List.nodup_cons.mpr ⟨hopen, hnodup⟩
            · exact List.forall_mem_cons.mpr ⟨href, hin⟩
            · rw [List.length_cons]
              omega

/-! ### Text without cuts -/

theorem Reaches.of_item {first ref : ListRef} {item : Value}
    (hitem : item ∈ heap.items first) (h : Reaches heap item ref) :
    Relation.TransGen heap.Nests first ref := by
  obtain ⟨inner, rfl, hinner⟩ := h
  exact .head' hitem hinner

/-- What is written in full holds no list that contains itself. -/
theorem Shows.not_isCyclic (h : Shows heap Nowhere outer value shown)
    {ref : ListRef} (href : Reaches heap value ref) : ¬ heap.IsCyclic ref := by
  induction h generalizing ref with
  | cut _ _ hcut => exact hcut.elim
  | list _ first _ _ _ ih =>
      obtain ⟨_, heq, hreach⟩ := href
      cases heq
      intro hcycle
      -- on a cycle, the first list comes before `ref` even if it is `ref`
      have hpath : Relation.TransGen heap.Nests first ref := hcycle.trans_right hreach
      obtain ⟨inner, hinner, hrest⟩ := Relation.TransGen.head'_iff.mp hpath
      exact ih (Value.list inner) hinner ⟨inner, rfl, hrest⟩ hcycle
  | _ =>
      obtain ⟨_, heq, _⟩ := href
      cases heq

/-- If the lists around a value contain it and it holds no list that contains
itself, nothing of it is cut off. -/
theorem Shows.uncut (h : Shows heap InsideItself outer value shown)
    (houter : ∀ ref ∈ outer, ∀ inner, value = .list inner →
      Relation.TransGen heap.Nests ref inner)
    (hacyclic : ∀ ref, Reaches heap value ref → ¬ heap.IsCyclic ref) :
    Shows heap Nowhere outer value shown := by
  induction h with
  | integer outer n => exact .integer outer n
  | real outer r => exact .real outer r
  | text outer s => exact .text outer s
  | truth outer b => exact .truth outer b
  | function outer f => exact .function outer f
  | cut outer ref hcut =>
      exact absurd (houter ref hcut ref rfl) (hacyclic ref ⟨ref, rfl, .refl⟩)
  | list outer first textOf _ _ ih =>
      refine .list outer first textOf not_false fun item hitem => ih item hitem ?_ ?_
      · rintro ref href inner rfl
        rcases List.mem_cons.mp href with rfl | href
        · exact .single hitem
        · exact (houter ref href first rfl).tail hitem
      · intro ref href
        exact hacyclic ref ⟨first, rfl, (href.of_item hitem).to_reflTransGen⟩

/-! ### The text of a value -/

/-- Every value has a text, however lists contain each other: it is the one in
which lists are cut off inside themselves and nowhere else, and more levels than
there are lists do not change it. It is the plain recursive text if that exists,
which it does exactly if no list in the value contains itself. -/
theorem toText_cuts_lists_inside_themselves (heap : Heap) (value : Value) :
    (∀ text, Shows heap InsideItself [] value text ↔ text = value.toText heap) ∧
    (∀ n, heap.size < n → showUpTo heap n [] value = value.toText heap) ∧
    (∀ text, Shows heap Nowhere [] value text ↔ text = value.toText heap ∧
      ∀ ref, Reaches heap value ref → ¬ heap.IsCyclic ref) := by
  have hlevels : ∀ n, heap.size < n →
      Shows heap InsideItself [] value (showUpTo heap n [] value) := by
    intro n hn
    exact shows_showUpTo List.nodup_nil (by simp) (by simpa using hn) value
  have htext : Shows heap InsideItself [] value (value.toText heap) :=
    hlevels (heap.size + 1) (Nat.lt_succ_self _)
  have huncut : (∀ ref, Reaches heap value ref → ¬ heap.IsCyclic ref) →
      Shows heap Nowhere [] value (value.toText heap) :=
    htext.uncut (by simp)
  refine ⟨fun text => ⟨fun h => h.unique htext, ?_⟩, ?_, fun text => ⟨?_, ?_⟩⟩
  · rintro rfl
    exact htext
  · intro n hn
    exact (hlevels n hn).unique htext
  · intro h
    have hacyclic : ∀ ref, Reaches heap value ref → ¬ heap.IsCyclic ref :=
      fun ref => h.not_isCyclic
    exact ⟨h.unique (huncut hacyclic), hacyclic⟩
  · rintro ⟨rfl, hacyclic⟩
    exact huncut hacyclic

/-- A list that holds itself is cut off; one that occurs twice side by side is not. -/
theorem toText_cuts_lists_inside_themselves_shared :
    let heap : Heap :=
      ⟨#[.ofList [integer 1, list ⟨0⟩], .ofList [list ⟨2⟩, list ⟨2⟩],
        .ofList [text "x"]]⟩
    Shows heap InsideItself [] (list ⟨0⟩) "[1, [...]]" ∧
      (¬ ∃ shown, Shows heap Nowhere [] (list ⟨0⟩) shown) ∧
      Shows heap Nowhere [] (list ⟨1⟩) "[[x], [x]]" ∧
      (list ⟨1⟩).toText heap = "[[x], [x]]" := by
  intro heap
  have hself : heap.items ⟨0⟩ = [integer 1, list ⟨0⟩] := rfl
  have htwice : heap.items ⟨1⟩ = [list ⟨2⟩, list ⟨2⟩] := rfl
  have hshared : heap.items ⟨2⟩ = [text "x"] := rfl
  obtain ⟨hcut, -, hplain⟩ := toText_cuts_lists_inside_themselves heap (list ⟨0⟩)
  obtain ⟨-, -, huncut⟩ := toText_cuts_lists_inside_themselves heap (list ⟨1⟩)
  have hinner : ∀ outer, Shows heap Nowhere outer (list ⟨2⟩) (bracketed ["x"]) := by
    intro outer
    have h : Shows heap Nowhere outer (list ⟨2⟩) _ :=
      .list outer ⟨2⟩ (fun _ => "x") not_false (by simp [hshared, Shows.text])
    rwa [hshared] at h
  have houter : Shows heap Nowhere [] (list ⟨1⟩) "[[x], [x]]" := by
    have h : Shows heap Nowhere [] (list ⟨1⟩) _ :=
      .list [] ⟨1⟩ (fun _ => bracketed ["x"]) not_false (by simp [htwice, hinner])
    rw [htwice] at h
    exact h
  refine ⟨(hcut _).mpr (by decide +kernel), ?_, houter, ?_⟩
  · rintro ⟨shown, h⟩
    have hcyclic : heap.IsCyclic ⟨0⟩ := .single (by simp [Heap.Nests, hself])
    exact ((hplain shown).mp h).2 ⟨0⟩ ⟨⟨0⟩, rfl, .refl⟩ hcyclic
  · exact ((huncut _).mp houter).1.symm

end Value

end Prose
