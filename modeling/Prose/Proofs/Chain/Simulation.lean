import Prose.Eval.Interpreter
import Prose.Proofs.Chain.Checked

/-!
Lists of a running program against plain sequences. The operations a program
has on a list are performed one after the other, on the list in the heap and on
a sequence; the replies agree, faults included, and the list stays in shape.
-/

namespace Prose

/-- An operation on a list. -/
inductive ListOp where
  | push (value : Value)
  | get (index : Int64)
  | set (index : Int64) (value : Value)
  | remove (index : Int64)
  | items

/-- What an operation on a list gives. -/
inductive ListReply where
  | done
  | value (value : Value)
  | items (values : List Value)
  | fault (fault : Fault)

namespace ListReply

def isFault : ListReply → Bool
  | fault _ => true
  | _ => false

/-- The reply of a step that ended, and the state it left. -/
def ofRun {α : Type} (reply : α → ListReply) (step : Run α) (m : Machine) :
    Option (ListReply × Machine) :=
  (step m).map fun
    | (.ok a, m) => (reply a, m)
    | (.error f, m) => (fault f, m)

end ListReply

namespace ListOp

def perform (ref : ListRef) : ListOp → Machine → Option (ListReply × Machine)
  | push value => ListReply.ofRun (fun _ => .done) (Eval.addTo ref value)
  | get index =>
      ListReply.ofRun .value (Eval.applyTo .atPosition (.list ref) (.integer index))
  | set index value =>
      ListReply.ofRun (fun _ => .done) (Eval.setElement ref index value)
  | remove index => ListReply.ofRun .value (Eval.removeElement ref index)
  | items => ListReply.ofRun (fun m => .items (m.heap.items ref)) Run.machine

def performAll (ref : ListRef) :
    List ListOp → Machine → Option (List ListReply × Machine)
  | [], m => some ([], m)
  | op :: ops, m => do
      let (reply, m) ← op.perform ref m
      let (replies, m) ← performAll ref ops m
      return (reply :: replies, m)

def indexFault (index : Int64) (operation : String) (values : List Value) :
    Fault :=
  .ofCause (.indexOutOfBounds index.toInt operation values.length)

/-- Acts on the element of a sequence at an index, or fails. -/
def atIndex (index : Int64) (operation : String) (values : List Value)
    (act : Nat → Value → ListReply × List Value) : ListReply × List Value :=
  if h : 0 ≤ index.toInt ∧ index.toInt < values.length then
    let position : Fin values.length := ⟨index.toInt.toNat, by omega⟩
    act position (values.get position)
  else (.fault (indexFault index operation values), values)

/-- An operation on a plain sequence. -/
def onSequence (values : List Value) : ListOp → ListReply × List Value
  | push value => (.done, values ++ [value])
  | get index => atIndex index "get" values fun _ value => (.value value, values)
  | set index value =>
      atIndex index "update" values fun i _ => (.done, values.set i value)
  | remove index =>
      atIndex index "remove" values fun i value =>
        (.value value, values.eraseIdx i)
  | items => (.items values, values)

def allOnSequence (values : List Value) :
    List ListOp → List ListReply × List Value
  | [] => ([], values)
  | op :: ops =>
      let (reply, values) := op.onSequence values
      let (replies, values) := allOnSequence values ops
      (reply :: replies, values)

end ListOp

/-! ### Lists in the heap -/

namespace Heap

/-- Whether a reference names a list of the heap. -/
def Has (h : Heap) (ref : ListRef) : Prop := ref.index < h.lists.size

theorem get_put {h : Heap} {ref : ListRef} (href : h.Has ref)
    (c : Chain Value) : (h.put ref c).get ref = c := by
  have hlt : ref.index < h.lists.size := href
  simp [get, put, hlt]

theorem get_modify {h : Heap} {ref : ListRef} (href : h.Has ref)
    (f : Chain Value → Chain Value) :
    (h.modify ref f).get ref = f (h.get ref) := by
  have hlt : ref.index < h.lists.size := href
  simp only [get, modify, Array.getElem?_modify, if_true]
  simp [hlt]

theorem has_put {h : Heap} {ref : ListRef} (href : h.Has ref)
    (c : Chain Value) : (h.put ref c).Has ref := by
  simpa [Has, put] using href

theorem has_modify {h : Heap} {ref : ListRef} (href : h.Has ref)
    (f : Chain Value → Chain Value) : (h.modify ref f).Has ref := by
  simpa [Has, modify] using href

theorem has_alloc (h : Heap) (c : Chain Value) :
    (h.alloc c).2.Has (h.alloc c).1 := by
  simp [Has, alloc]

theorem get_alloc (h : Heap) (c : Chain Value) :
    (h.alloc c).2.get (h.alloc c).1 = c := by
  simp [get, alloc]

end Heap

/-! ### One operation -/

namespace ListOp

open Chain

theorem atIndex_of_not_mem {index : Int64} {values : List Value}
    (h : ¬ (0 ≤ index.toInt ∧ index.toInt < values.length))
    (operation : String) (act : Nat → Value → ListReply × List Value) :
    atIndex index operation values act =
      (.fault (indexFault index operation values), values) :=
  dif_neg h

theorem atIndex_of_split {index : Int64} {before after : List Value}
    {value : Value} (h : index.toInt = before.length) (operation : String)
    (act : Nat → Value → ListReply × List Value) :
    atIndex index operation (before ++ value :: after) act =
      act before.length value := by
  have hrange : 0 ≤ index.toInt ∧
      index.toInt < (before ++ value :: after).length := by
    simp only [List.length_append, List.length_cons]
    omega
  have hposition : index.toInt.toNat = before.length := by omega
  rw [atIndex, dif_pos hrange]
  simp [hposition]

/-- A list in the heap that is linked, and the sequence of its elements. -/
def Holds (m : Machine) (ref : ListRef) (values : List Value) : Prop :=
  m.heap.Has ref ∧
    ∃ cells, (m.heap.get ref).Linked cells ∧ cells.map Cell.value = values

theorem holds_put {m : Machine} {ref : ListRef} (hhas : m.heap.Has ref)
    {c : Chain Value} {cells : List (Cell Value)} (h : c.Linked cells) :
    Holds { m with heap := m.heap.put ref c } ref (cells.map Cell.value) := by
  refine ⟨Heap.has_put hhas c, cells, ?_, rfl⟩
  rw [Heap.get_put hhas]
  exact h

theorem outOfBounds_eq_indexFault {c : Chain Value} {cells : List (Cell Value)}
    (h : c.Linked cells) (index : Int64) (operation : String) :
    Eval.outOfBounds index operation c =
      indexFault index operation (cells.map Cell.value) := by
  simp [Eval.outOfBounds, indexFault, h.length]

theorem perform_get (ref : ListRef) (index : Int64) (m : Machine) :
    (get index).perform ref m =
      match (m.heap.get ref).get? index.toInt with
      | some value => some (.value value, m)
      | none => some (.fault (Eval.outOfBounds index "get" (m.heap.get ref)), m) := by
  simp only [perform, ListReply.ofRun, Eval.applyTo, Eval.applyOperator,
    Eval.applyByKind, Eval.element]
  cases (m.heap.get ref).get? index.toInt <;> rfl

theorem perform_set (ref : ListRef) (index : Int64) (value : Value)
    (m : Machine) :
    (set index value).perform ref m =
      match (m.heap.get ref).set? index.toInt value with
      | some c => some (.done, { m with heap := m.heap.put ref c })
      | none =>
          some (.fault (Eval.outOfBounds index "update" (m.heap.get ref)), m) := by
  simp only [perform, ListReply.ofRun, Eval.setElement]
  cases (m.heap.get ref).set? index.toInt value <;> rfl

theorem perform_remove (ref : ListRef) (index : Int64) (m : Machine) :
    (remove index).perform ref m =
      match (m.heap.get ref).remove? index.toInt with
      | some (value, c) =>
          some (.value value, { m with heap := m.heap.put ref c })
      | none =>
          some (.fault (Eval.outOfBounds index "remove" (m.heap.get ref)), m) := by
  simp only [perform, ListReply.ofRun, Eval.removeElement]
  cases (m.heap.get ref).remove? index.toInt <;> rfl

/-- One operation does to the list what it does to the sequence, and changes
nothing if it fails. -/
theorem perform_holds {m : Machine} {ref : ListRef} {values : List Value}
    (h : Holds m ref values) (op : ListOp) :
    ∃ m', op.perform ref m = some ((op.onSequence values).1, m') ∧
      Holds m' ref (op.onSequence values).2 ∧
      ((op.onSequence values).1.isFault → m' = m) := by
  obtain ⟨hhas, cells, hlinked, rfl⟩ := h
  have hkept : Holds m ref (cells.map Cell.value) := ⟨hhas, cells, hlinked, rfl⟩
  cases op with
  | push value =>
      have hpushed : ((m.heap.modify ref (·.push value)).get ref).Linked
          (cells ++ [(m.heap.get ref).newCell value]) := by
        rw [Heap.get_modify hhas]
        exact hlinked.push value
      refine ⟨{ m with heap := m.heap.modify ref (·.push value) }, rfl,
        ⟨Heap.has_modify hhas _, _, hpushed, ?_⟩, ?_⟩
      · simp [onSequence, newCell]
      · simp [onSequence, ListReply.isFault]
  | get index =>
      rw [perform_get, onSequence, get?]
      rcases hlinked.locate?_cases index.toInt with
        ⟨hnone, hrange⟩ | ⟨before, cell, after, rfl, hindex, hsome, hnode⟩
      · rw [atIndex_of_not_mem (by simpa using hrange), hnone,
          outOfBounds_eq_indexFault hlinked]
        exact ⟨m, rfl, hkept, fun _ => rfl⟩
      · rw [hsome, List.map_append, List.map_cons,
          atIndex_of_split (by simpa using hindex), Option.bind_some, hnode]
        exact ⟨m, rfl, by simpa using hkept, fun _ => rfl⟩
  | set index value =>
      rw [perform_set, onSequence, set?_eq]
      rcases hlinked.locate?_cases index.toInt with
        ⟨hnone, hrange⟩ | ⟨before, cell, after, rfl, hindex, hsome, hnode⟩
      · rw [atIndex_of_not_mem (by simpa using hrange), hnone,
          outOfBounds_eq_indexFault hlinked]
        exact ⟨m, rfl, hkept, fun _ => rfl⟩
      · rw [hsome, List.map_append, List.map_cons,
          atIndex_of_split (by simpa using hindex)]
        refine ⟨_, rfl, ?_, by simp [ListReply.isFault]⟩
        simpa using holds_put hhas (hlinked.withValue value)
  | remove index =>
      rw [perform_remove, onSequence, remove?_eq]
      rcases hlinked.locate?_cases index.toInt with
        ⟨hnone, hrange⟩ | ⟨before, cell, after, rfl, hindex, hsome, hnode⟩
      · rw [atIndex_of_not_mem (by simpa using hrange), hnone,
          outOfBounds_eq_indexFault hlinked]
        exact ⟨m, rfl, hkept, fun _ => rfl⟩
      · rw [hsome, List.map_append, List.map_cons,
          atIndex_of_split (by simpa using hindex), Option.bind_some, hnode]
        refine ⟨_, rfl, ?_, by simp [ListReply.isFault]⟩
        simpa [List.eraseIdx_append_of_length_le] using
          holds_put hhas hlinked.withoutSlot
  | items =>
      refine ⟨m, ?_, hkept, fun _ => rfl⟩
      simp [perform, ListReply.ofRun, Run.machine, onSequence, Heap.items,
        hlinked.toList_eq]

/-- Operations one after the other do to the list what they do to the
sequence. -/
theorem performAll_holds {m : Machine} {ref : ListRef} {values : List Value}
    (h : Holds m ref values) (ops : List ListOp) :
    ∃ m', performAll ref ops m = some ((allOnSequence values ops).1, m') ∧
      Holds m' ref (allOnSequence values ops).2 := by
  induction ops generalizing m values with
  | nil => exact ⟨m, rfl, h⟩
  | cons op ops ih =>
      obtain ⟨m₁, hop, hholds, _⟩ := perform_holds h op
      obtain ⟨m₂, hops, hholds⟩ := ih hholds
      refine ⟨m₂, ?_, hholds⟩
      simp [performAll, allOnSequence, hop, hops]

theorem newList_holds (m : Machine) :
    ∃ ref m', Run.newList [] m = some (.ok (.list ref), m') ∧
      Holds m' ref [] := by
  have hlinked : ((m.heap.alloc (.ofList [])).2.get
      (m.heap.alloc (.ofList [])).1).Linked [] := by
    rw [Heap.get_alloc]
    exact linked_empty
  exact ⟨_, _, rfl, Heap.has_alloc m.heap _, [], hlinked, rfl⟩

/-- A list of a program behaves as a plain sequence. Whatever operations are
performed on a list that was made empty, every reply is the one that the
sequence gives; after them the list is in good shape and holds the elements of
the sequence, and an operation that fails next leaves the whole state as it
was. -/
theorem performAll_simulates_sequence (m : Machine) (ops : List ListOp) :
    ∃ (ref : ListRef) (start stop : Machine),
      Run.newList [] m = some (.ok (.list ref), start) ∧
      performAll ref ops start = some ((allOnSequence [] ops).1, stop) ∧
      (stop.heap.get ref).Represents (allOnSequence [] ops).2 ∧
      ∀ op : ListOp, ∃ next,
        op.perform ref stop =
            some ((op.onSequence (allOnSequence [] ops).2).1, next) ∧
          ((op.onSequence (allOnSequence [] ops).2).1.isFault →
            next = stop) := by
  obtain ⟨ref, start, hstart, hempty⟩ := newList_holds m
  obtain ⟨stop, hstop, hholds⟩ := performAll_holds hempty ops
  refine ⟨ref, start, stop, hstart, hstop, ?_, ?_⟩
  · obtain ⟨_, cells, hlinked, hcells⟩ := hholds
    rw [← hcells]
    exact hlinked.represents
  · intro op
    obtain ⟨next, hnext, _, hfault⟩ := perform_holds hholds op
    exact ⟨next, hnext, hfault⟩

end ListOp

end Prose
