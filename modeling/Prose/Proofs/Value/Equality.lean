import Mathlib.Data.Finset.Card
import Mathlib.Data.Finset.Prod
import Mathlib.Data.List.Forall2
import Prose.Proofs.Value.LinkedHeap
import Prose.Value.Equal

/-!
What equality of values is. Lists may contain themselves, so equality is not
defined by recursion: it is the greatest relation whose pairs pass one
comparison, in which the elements of lists are compared by the relation itself.
Comparing takes a pair of lists that is being compared already to be equal. Such
an assumption is only ever used one level further in, hence it hides no
difference: two values that are found equal agree to every depth.
-/

namespace Prose

/-- A list with elements is in the heap. -/
theorem Heap.lt_size_of_mem_items {h : Heap} {ref : ListRef} {value : Value}
    (hvalue : value ∈ h.items ref) : ref.index < h.size := by
  by_contra hnot
  have hnone : h.lists[ref.index]? = none := by simpa [size] using hnot
  simp [items, get, hnone, Chain.toList, Chain.empty, Chain.collect] at hvalue

namespace Value

variable {heap : Heap} {R S : Value → Value → Prop}

/-! ### One comparison -/

/-- Whether two values pass one comparison, in which a relation compares the
elements of lists. -/
def AgreeBy (heap : Heap) (R : Value → Value → Prop) : Value → Value → Prop
  | integer a, integer b => a = b
  | text a, text b => a = b
  | truth a, truth b => a = b
  | function f, function g => f.number = g.number
  | list a, list b => a = b ∨ List.Forall₂ R (heap.items a) (heap.items b)
  | a, b => a.isNumber = true ∧ b.isNumber = true ∧ a.compare? b = some .eq

theorem AgreeBy.mono (himp : ∀ a b, R a b → S a b) {a b : Value}
    (h : AgreeBy heap R a b) : AgreeBy heap S a b := by
  cases a <;> cases b <;> try exact h
  case list.list a b =>
    exact h.imp_right fun hitems => hitems.imp fun x y hxy => himp x y hxy

/-- Two values agree when they cannot be told apart by that many comparisons,
one inside the other. -/
def AgreeTo (heap : Heap) : Nat → Value → Value → Prop
  | 0 => fun _ _ => True
  | k + 1 => AgreeBy heap (AgreeTo heap k)

theorem AgreeTo.of_succ {k : Nat} {a b : Value} (h : AgreeTo heap (k + 1) a b) :
    AgreeTo heap k a b := by
  induction k generalizing a b with
  | zero => trivial
  | succ k ih => exact AgreeBy.mono (fun x y hxy => ih hxy) h

/-- A relation whose pairs pass one comparison relates values that agree to every
depth. -/
theorem agreeTo_of_closed (hclosed : ∀ a b, R a b → AgreeBy heap R a b) (k : Nat)
    {a b : Value} (h : R a b) : AgreeTo heap k a b := by
  induction k generalizing a b with
  | zero => trivial
  | succ k ih => exact (hclosed a b h).mono fun x y hxy => ih hxy

/-- Agreement to every depth passes one comparison: lists are finite, so their
elements agree to every depth, too. -/
theorem agreeBy_of_forall {a b : Value} (h : ∀ k, AgreeTo heap k a b) :
    AgreeBy heap (fun x y => ∀ k, AgreeTo heap k x y) a b := by
  have hstep : ∀ k, AgreeBy heap (AgreeTo heap k) a b := fun k => h (k + 1)
  cases a <;> cases b <;> try exact hstep 0
  case list.list a b =>
    by_cases hsame : a = b
    · exact Or.inl hsame
    · have hitems : ∀ k, List.Forall₂ (AgreeTo heap k) (heap.items a)
          (heap.items b) := fun k => (hstep k).resolve_left hsame
      right
      rw [List.forall₂_iff_get]
      refine ⟨(hitems 0).length_eq, fun i ha hb k => ?_⟩
      exact (List.forall₂_iff_get.mp (hitems k)).2 i ha hb

/-! ### Comparing -/

/-- Compares pairs one after the other, up to the first that differs. -/
def compareAll? (compare : Value × Value → Option Bool) :
    List (Value × Value) → Option Bool
  | [] => some true
  | pair :: pairs => do
      if ← compare pair then compareAll? compare pairs else some false

/-- Whether two values are equal, given the pairs of lists that are being
compared. The pairs of elements are compared in an order of one's own. There is
no answer if lists nest deeper than `n`. -/
def equalWithin? (order : List (Value × Value) → List (Value × Value))
    (heap : Heap) :
    Nat → List (ListRef × ListRef) → Value → Value → Option Bool
  | 0, _, _, _ => none
  | n + 1, openPairs, a, b =>
      match a, b with
      | integer a, integer b => some (a == b)
      | text a, text b => some (a == b)
      | truth a, truth b => some (a == b)
      | function f, function g => some (f.number == g.number)
      | list a, list b =>
          if a = b then some true
          else if openPairs.contains (a, b) then some true
          else if (heap.get a).length ≠ (heap.get b).length then some false
          else compareAll?
            (fun p => equalWithin? order heap n ((a, b) :: openPairs) p.1 p.2)
            (order ((heap.items a).zip (heap.items b)))
      | a, b => some (if a.isNumber && b.isNumber then a.compare? b == some .eq
          else false)

theorem compareAll?_eq_some_true {compare : Value × Value → Option Bool}
    {pairs : List (Value × Value)} :
    compareAll? compare pairs = some true ↔
      ∀ pair ∈ pairs, compare pair = some true := by
  induction pairs with
  | nil => simp [compareAll?]
  | cons pair pairs ih =>
      rw [compareAll?, List.forall_mem_cons, ← ih]
      cases compare pair with
      | none => simp
      | some answer => cases answer <;> simp

theorem exists_of_compareAll?_eq_some_false
    {compare : Value × Value → Option Bool} {pairs : List (Value × Value)}
    (h : compareAll? compare pairs = some false) :
    ∃ pair ∈ pairs, compare pair = some false := by
  induction pairs with
  | nil => simp [compareAll?] at h
  | cons pair pairs ih =>
      cases hpair : compare pair with
      | none => simp [compareAll?, hpair] at h
      | some answer =>
          cases answer with
          | false => exact ⟨pair, List.mem_cons_self, hpair⟩
          | true =>
              simp only [compareAll?, hpair, Option.bind_eq_bind,
                Option.bind_some, if_true] at h
              obtain ⟨other, hother, hfalse⟩ := ih h
              exact ⟨other, List.mem_cons_of_mem pair hother, hfalse⟩

theorem compareAll?_ne_none {compare : Value × Value → Option Bool}
    {pairs : List (Value × Value)} (h : ∀ pair ∈ pairs, compare pair ≠ none) :
    compareAll? compare pairs ≠ none := by
  induction pairs with
  | nil => simp [compareAll?]
  | cons pair pairs ih =>
      rw [List.forall_mem_cons] at h
      cases hpair : compare pair with
      | none => exact absurd hpair h.1
      | some answer => cases answer <;> simp [compareAll?, hpair, ih h.2]

variable {order : List (Value × Value) → List (Value × Value)}

/-- Values that are not both lists are compared at once. -/
theorem equalWithin?_plain (order : List (Value × Value) → List (Value × Value))
    (heap : Heap) (R : Value → Value → Prop) {a b : Value}
    (hplain : ¬ ∃ x y, a = list x ∧ b = list y) (n : Nat)
    (openPairs : List (ListRef × ListRef)) :
    equalWithin? order heap (n + 1) openPairs a b =
        some (equalUpTo heap (n + 1) openPairs a b) ∧
      (equalUpTo heap (n + 1) openPairs a b = true ↔ AgreeBy heap R a b) := by
  cases a <;> cases b <;> simp_all [equalWithin?, equalUpTo, AgreeBy, isNumber]

/-- Two lists are compared by their elements, unless they are the same or are
being compared already. -/
theorem equalWithin?_list (n : Nat) (openPairs : List (ListRef × ListRef))
    (x y : ListRef) :
    equalWithin? order heap (n + 1) openPairs (list x) (list y) =
      if x = y ∨ (x, y) ∈ openPairs then some true
      else if (heap.get x).length ≠ (heap.get y).length then some false
      else compareAll?
        (fun p => equalWithin? order heap n ((x, y) :: openPairs) p.1 p.2)
        (order ((heap.items x).zip (heap.items y))) := by
  by_cases hsame : x = y <;> by_cases hopen : (x, y) ∈ openPairs <;>
    simp [equalWithin?, hsame, hopen]

/-- Values found equal agree to a depth to which all pairs do that are taken to
be equal. The elements of two lists are compared one level further in, where the
two lists themselves need to agree to one level less. -/
theorem agreeTo_of_equalWithin? (hheap : heap.Linked)
    (horder : ∀ pairs, (order pairs).Perm pairs) {n : Nat}
    {openPairs : List (ListRef × ListRef)} {a b : Value}
    (h : equalWithin? order heap n openPairs a b = some true) {k : Nat}
    (hopen : ∀ p ∈ openPairs, AgreeTo heap k (list p.1) (list p.2)) :
    AgreeTo heap k a b := by
  induction n generalizing openPairs a b k with
  | zero => simp [equalWithin?] at h
  | succ n ih =>
      by_cases hlists : ∃ x y, a = list x ∧ b = list y
      · obtain ⟨x, y, rfl, rfl⟩ := hlists
        rw [equalWithin?_list] at h
        induction k with
        | zero => trivial
        | succ k ihk =>
            have hless : ∀ p ∈ openPairs, AgreeTo heap k (list p.1) (list p.2) :=
              fun p hp => (hopen p hp).of_succ
            have hxy : AgreeTo heap k (list x) (list y) := ihk hless
            split at h
            · next hknown =>
                rcases hknown with rfl | hmem
                · exact Or.inl rfl
                · exact hopen (x, y) hmem
            · split at h
              · simp at h
              · next hlength =>
                  right
                  rw [List.forall₂_iff_zip]
                  refine ⟨?_, fun {u v} huv => ?_⟩
                  · rw [hheap.length_items, hheap.length_items]
                    simpa using hlength
                  · have huv' := (horder _).mem_iff.mpr huv
                    apply ih (compareAll?_eq_some_true.mp h _ huv')
                    rw [List.forall_mem_cons]
                    exact ⟨hxy, hless⟩
      · cases k with
        | zero => trivial
        | succ k =>
            obtain ⟨heq, hiff⟩ := equalWithin?_plain order heap (AgreeTo heap k)
              hlists n openPairs
            rw [heq, Option.some.injEq] at h
            exact hiff.mp h

/-- Values that a closed relation relates are never found different. -/
theorem equalWithin?_ne_false (hheap : heap.Linked)
    (horder : ∀ pairs, (order pairs).Perm pairs)
    (hclosed : ∀ a b, R a b → AgreeBy heap R a b) (n : Nat)
    (openPairs : List (ListRef × ListRef)) {a b : Value} (h : R a b) :
    equalWithin? order heap n openPairs a b ≠ some false := by
  induction n generalizing openPairs a b with
  | zero => simp [equalWithin?]
  | succ n ih =>
      have hagree := hclosed a b h
      by_cases hlists : ∃ x y, a = list x ∧ b = list y
      · obtain ⟨x, y, rfl, rfl⟩ := hlists
        rw [equalWithin?_list]
        split
        · simp
        · next hknown =>
            have hitems := hagree.resolve_left fun heq => hknown (Or.inl heq)
            have hlength := hitems.length_eq
            rw [hheap.length_items, hheap.length_items] at hlength
            rw [if_neg (by simpa using hlength)]
            intro hfalse
            obtain ⟨pair, hpair, hdiffer⟩ :=
              exists_of_compareAll?_eq_some_false hfalse
            rw [(horder _).mem_iff] at hpair
            exact ih _ ((List.forall₂_iff_zip.mp hitems).2 hpair) hdiffer
      · obtain ⟨heq, hiff⟩ := equalWithin?_plain order heap R hlists n openPairs
        rw [heq, hiff.mpr hagree]
        simp

/-- There are no more pairs of lists than the square of their number. -/
theorem length_le_of_nodup {openPairs : List (ListRef × ListRef)} {size : Nat}
    (hnodup : openPairs.Nodup)
    (hin : ∀ p ∈ openPairs, p.1.index < size ∧ p.2.index < size) :
    openPairs.length ≤ size * size := by
  have hinjective : Function.Injective
      fun p : ListRef × ListRef => (p.1.index, p.2.index) := by
    rintro ⟨⟨a⟩, ⟨b⟩⟩ ⟨⟨c⟩, ⟨d⟩⟩ heq
    simp_all
  have hindices := (hnodup.map hinjective)
  have hsub : (openPairs.map fun p => (p.1.index, p.2.index)).toFinset ⊆
      Finset.range size ×ˢ Finset.range size := by
    intro p hp
    simp only [List.mem_toFinset, List.mem_map] at hp
    obtain ⟨pair, hpair, rfl⟩ := hp
    simpa using hin pair hpair
  have hcard := Finset.card_le_card hsub
  rw [List.toFinset_card_of_nodup hindices] at hcard
  simpa using hcard

/-- Comparing comes to an end: each level opens a pair of lists of the heap that
was not open before. -/
theorem equalWithin?_ne_none (horder : ∀ pairs, (order pairs).Perm pairs)
    {n : Nat} {openPairs : List (ListRef × ListRef)} (hnodup : openPairs.Nodup)
    (hin : ∀ p ∈ openPairs, p.1.index < heap.size ∧ p.2.index < heap.size)
    (hn : heap.size * heap.size < n + openPairs.length) (a b : Value) :
    equalWithin? order heap n openPairs a b ≠ none := by
  induction n generalizing openPairs a b with
  | zero =>
      have hle := length_le_of_nodup hnodup hin
      omega
  | succ n ih =>
      by_cases hlists : ∃ x y, a = list x ∧ b = list y
      · obtain ⟨x, y, rfl, rfl⟩ := hlists
        rw [equalWithin?_list]
        split
        · simp
        · next hknown =>
            split
            · simp
            · apply compareAll?_ne_none
              rintro ⟨u, v⟩ huv
              rw [(horder _).mem_iff] at huv
              have hx := Heap.lt_size_of_mem_items (List.of_mem_zip huv).1
              have hy := Heap.lt_size_of_mem_items (List.of_mem_zip huv).2
              apply ih
              · exact List.nodup_cons.mpr ⟨fun hmem => hknown (Or.inr hmem), hnodup⟩
              · exact List.forall_mem_cons.mpr ⟨⟨hx, hy⟩, hin⟩
              · rw [List.length_cons]
                omega
      · simp [(equalWithin?_plain order heap (AgreeTo heap 0) hlists n openPairs).1]

/-- Comparing in the order of the lists answers as `equalUpTo` does. -/
theorem equalUpTo_of_equalWithin? {n : Nat}
    {openPairs : List (ListRef × ListRef)} {a b : Value} {answer : Bool}
    (h : equalWithin? id heap n openPairs a b = some answer) :
    equalUpTo heap n openPairs a b = answer := by
  induction n generalizing openPairs a b answer with
  | zero => simp [equalWithin?] at h
  | succ n ih =>
      by_cases hlists : ∃ x y, a = list x ∧ b = list y
      · obtain ⟨x, y, rfl, rfl⟩ := hlists
        rw [equalWithin?_list] at h
        simp only [equalUpTo]
        split at h
        · next hknown => rcases hknown with rfl | hmem <;> simp_all
        · next hknown =>
            rw [not_or] at hknown
            rw [if_neg hknown.1, if_neg hknown.2]
            split at h
            · next hlength => simp_all
            · next hlength =>
                rw [if_neg hlength]
                cases answer with
                | true =>
                    rw [List.all_eq_true]
                    intro pair hpair
                    exact ih (compareAll?_eq_some_true.mp h pair hpair)
                | false =>
                    obtain ⟨pair, hpair, hdiffer⟩ :=
                      exists_of_compareAll?_eq_some_false h
                    rw [List.all_eq_false]
                    exact ⟨pair, hpair, by simp [ih hdiffer]⟩
      · have heq :=
          (equalWithin?_plain id heap (AgreeTo heap 0) hlists n openPairs).1
        rw [heq, Option.some.injEq] at h
        exact h

/-! ### Equality -/

/-- In whatever order elements are compared, the answer says whether the values
agree to every depth. -/
theorem equalWithin?_eq_some (hheap : heap.Linked)
    (horder : ∀ pairs, (order pairs).Perm pairs) {n : Nat}
    (hn : heap.size * heap.size < n) (a b : Value) :
    ∃ answer, equalWithin? order heap n [] a b = some answer ∧
      (answer = true ↔ ∀ k, AgreeTo heap k a b) := by
  have hends : equalWithin? order heap n [] a b ≠ none := by
    apply equalWithin?_ne_none horder List.nodup_nil
    · simp
    · simpa using hn
  obtain ⟨answer, hanswer⟩ := Option.ne_none_iff_exists'.mp hends
  refine ⟨answer, hanswer, ?_, ?_⟩
  · rintro rfl k
    exact agreeTo_of_equalWithin? hheap horder hanswer (by simp)
  · intro hagree
    cases answer with
    | true => rfl
    | false =>
        have hnever := equalWithin?_ne_false hheap horder
          (fun x y => agreeBy_of_forall) n [] hagree
        exact absurd hanswer hnever

theorem equal_iff_forall_agreeTo (hheap : heap.Linked) (a b : Value) :
    equal heap a b = true ↔ ∀ k, AgreeTo heap k a b := by
  obtain ⟨answer, hanswer, hiff⟩ := equalWithin?_eq_some hheap
    (fun pairs => List.Perm.refl (id pairs)) (Nat.lt_succ_self _) a b
  rw [equal, equalUpTo_of_equalWithin? hanswer]
  exact hiff

/-- One comparison the other way round. -/
theorem AgreeBy.flip
    (hsymm : ∀ a b : Value, a.compare? b = some .eq → b.compare? a = some .eq)
    {a b : Value} (h : AgreeBy heap R a b) :
    AgreeBy heap (fun x y => R y x) b a := by
  cases a <;> cases b <;> try exact Eq.symm h
  case list.list a b => exact h.imp Eq.symm List.Forall₂.flip
  all_goals exact ⟨h.2.1, h.1, hsymm _ _ h.2.2⟩

/-- Equality of values is the greatest relation whose pairs pass one comparison.
It is decided by comparing, in whatever order elements are compared: that comes
to an end, however lists contain each other. Equality is symmetric if comparing
numbers is. -/
theorem equal_is_greatest (heap : Heap) (hheap : heap.Linked) :
    (∀ order : List (Value × Value) → List (Value × Value),
      (∀ pairs, (order pairs).Perm pairs) → ∀ n, heap.size * heap.size < n →
        ∀ a b, equalWithin? order heap n [] a b = some (equal heap a b)) ∧
    (∀ a b, equal heap a b = true ↔
      AgreeBy heap (fun x y => equal heap x y = true) a b) ∧
    (∀ R : Value → Value → Prop, (∀ a b, R a b → AgreeBy heap R a b) →
      ∀ a b, R a b → equal heap a b = true) ∧
    ((∀ a b : Value, a.compare? b = some .eq → b.compare? a = some .eq) →
      ∀ a b, equal heap a b = equal heap b a) := by
  have hequal := equal_iff_forall_agreeTo hheap
  have hfixed : ∀ a b, equal heap a b = true ↔
      AgreeBy heap (fun x y => equal heap x y = true) a b := by
    intro a b
    rw [hequal]
    constructor
    · intro hagree
      exact (agreeBy_of_forall hagree).mono fun x y => (hequal x y).mpr
    · intro hstep k
      cases k with
      | zero => trivial
      | succ k => exact hstep.mono fun x y hxy => (hequal x y).mp hxy k
  have hgreatest : ∀ R : Value → Value → Prop,
      (∀ a b, R a b → AgreeBy heap R a b) →
        ∀ a b, R a b → equal heap a b = true := by
    intro R hclosed a b hab
    exact (hequal a b).mpr fun k => agreeTo_of_closed hclosed k hab
  refine ⟨?_, hfixed, hgreatest, ?_⟩
  · intro order horder n hn a b
    obtain ⟨answer, hanswer, hiff⟩ := equalWithin?_eq_some hheap horder hn a b
    rw [← hequal] at hiff
    rw [hanswer, Bool.eq_iff_iff.mpr hiff]
  · intro hsymm a b
    have hflip : ∀ x y, equal heap y x = true → equal heap x y = true := by
      apply hgreatest
      intro x y hyx
      exact ((hfixed y x).mp hyx).flip hsymm
    exact Bool.eq_iff_iff.mpr ⟨hflip b a, hflip a b⟩

/-- Three lists that each hold a number and themselves, compared from their ends.
The first two hold the same number. -/
theorem equal_is_greatest_cyclic :
    let heap : Heap :=
      ⟨#[.ofList [integer 1, list ⟨0⟩], .ofList [integer 1, list ⟨1⟩],
        .ofList [integer 2, list ⟨2⟩]]⟩
    heap.Linked ∧
      equalWithin? List.reverse heap 10 [] (list ⟨0⟩) (list ⟨1⟩) = some true ∧
      equalWithin? List.reverse heap 10 [] (list ⟨0⟩) (list ⟨2⟩) = some false ∧
      AgreeBy heap (fun x y => equal heap x y = true) (list ⟨0⟩) (list ⟨1⟩) := by
  intro heap
  have hheap : heap.Linked := by
    apply Heap.linked_of_forall_mem
    intro c hc
    simp only [heap, List.mem_toArray, List.mem_cons, List.not_mem_nil,
      or_false] at hc
    rcases hc with rfl | rfl | rfl <;> exact Chain.linked_ofList _
  obtain ⟨hany, hfixed, _⟩ := equal_is_greatest heap hheap
  have hreverse := hany List.reverse List.reverse_perm 10 (by decide)
  have hsame : equal heap (list ⟨0⟩) (list ⟨1⟩) = true := by decide +kernel
  have hother : equal heap (list ⟨0⟩) (list ⟨2⟩) = false := by decide +kernel
  refine ⟨hheap, ?_, ?_, (hfixed _ _).mp hsame⟩
  · rw [hreverse, hsame]
  · rw [hreverse, hother]

end Value

end Prose
