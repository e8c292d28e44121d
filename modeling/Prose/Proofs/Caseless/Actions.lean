import Prose.Proofs.Caseless.Machines
import Prose.Proofs.Eval.Script

/-!
Actions whatever the case of names. On machines that are alike each action does
the same to names, words and values that are alike: it gives values that are
alike, or fails for the same reason, and leaves machines that are alike.
-/

namespace Prose

open Text

/-- Values that are alike are the same, unless they are functions. -/
theorem Value.Alike.cases {v w : Value} (h : v.Alike w) :
    v = w ∨ ∃ f g : Function, v = .function f ∧ w = .function g ∧
      f.caseless = g.caseless := by
  rw [Alike] at h
  cases v with
  | function f =>
      cases w with
      | function g => exact .inr ⟨f, g, rfl, rfl, Value.function.inj h⟩
      | _ => cases h
  | _ =>
      cases w with
      | function g => cases h
      | _ => exact .inl h

theorem Value.Alike.typeName {v w : Value} (h : v.Alike w) :
    v.typeName = w.typeName := by
  rw [← v.typeName_caseless, h, w.typeName_caseless]

namespace Eval

/-! ### Actions -/

section Actions

variable {v w : Value}

theorem wrongType_alike {α : Type} {R : α → α → Prop} {e e' : Expr}
    (hspan : e.span = e'.span) (expected : String) (h : v.Alike w) :
    Run.Alike R (Run.failAt e.span (.wrongType expected v.typeName))
      (Run.failAt e'.span (.wrongType expected w.typeName)) :=
  .fault (by rw [hspan, h.typeName])

theorem asTruth_alike {e e' : Expr} (hspan : e.span = e'.span)
    (h : v.Alike w) : Run.Alike Eq (asTruth e v) (asTruth e' w) := by
  rcases h.cases with rfl | ⟨f, g, rfl, rfl, -⟩
  · cases v with
    | truth b => exact .pure rfl
    | _ => exact wrongType_alike hspan "boolean" h
  · exact wrongType_alike hspan "boolean" h

theorem asList_alike {e e' : Expr} (hspan : e.span = e'.span)
    (h : v.Alike w) : Run.Alike Eq (asList e v) (asList e' w) := by
  rcases h.cases with rfl | ⟨f, g, rfl, rfl, -⟩
  · cases v with
    | list ref => exact .pure rfl
    | _ => exact wrongType_alike hspan "list" h
  · exact wrongType_alike hspan "list" h

theorem asInteger_alike {e e' : Expr} (hspan : e.span = e'.span)
    (h : v.Alike w) : Run.Alike Eq (asInteger e v) (asInteger e' w) := by
  rcases h.cases with rfl | ⟨f, g, rfl, rfl, -⟩
  · cases v with
    | integer n => exact .pure rfl
    | _ => exact wrongType_alike hspan "integer" h
  · exact wrongType_alike hspan "integer" h

theorem asFunction_alike {e e' : Expr} (hspan : e.span = e'.span)
    (h : v.Alike w) :
    Run.Alike (fun f g => f.caseless = g.caseless) (asFunction e v)
      (asFunction e' w) := by
  rcases h.cases with rfl | ⟨f, g, rfl, rfl, hfunction⟩
  · cases v with
    | function f => exact .pure rfl
    | _ => exact wrongType_alike hspan "function" h
  · exact .pure hfunction

theorem lookup_alike {name name' : Name} (h : name.caseless = name'.caseless) :
    Run.Alike Value.Alike (Run.lookup name) (Run.lookup name') := by
  intro m m' hm
  exact .ended (Scope.lookup_alike hm.scope h) hm

theorem assign_alike {name name' : Name}
    (hname : name.caseless = name'.caseless) (h : v.Alike w) :
    Run.Alike Eq (Run.assign name v) (Run.assign name' w) := by
  intro m m' hm
  refine .ended (.ok rfl) { hm with scope := ?_ }
  rw [← Scope.assign_caseless, hm.scope, hname, h, Scope.assign_caseless]

theorem newList_alike {vs ws : List Value}
    (h : vs.map Value.caseless = ws.map Value.caseless) :
    Run.Alike Value.Alike (Run.newList vs) (Run.newList ws) := by
  intro m m' hm
  have hchain : (Chain.ofList vs).map Value.caseless =
      (Chain.ofList ws).map Value.caseless := by
    rw [← Chain.ofList_map, h, Chain.ofList_map]
  have halloc := m.heap.alloc_caseless (.ofList vs)
  rw [hm.heap, hchain, Heap.alloc_caseless, Prod.mk.injEq] at halloc
  exact .ended (.ok (congrArg (Value.caseless ∘ Value.list) halloc.1.symm))
    { hm with heap := halloc.2.symm }

theorem newFunction_alike {params params' : List Name} {body body' : Block}
    (hparams : params.map Name.caseless = params'.map Name.caseless)
    (hbody : body.relabel .caseless = body'.relabel .caseless) :
    Run.Alike Value.Alike (Run.newFunction params body)
      (Run.newFunction params' body') := by
  intro m m' hm
  refine .ended (.ok ?_) { hm with functions := by rw [hm.functions] }
  simp only [Value.Alike, Value.caseless, Function.caseless, hm.functions,
    hparams, hbody]

theorem applyTo_alike (op : Operator) {left left' right right' : Value}
    (hleft : left.Alike left') (hright : right.Alike right') :
    Run.Alike Value.Alike (applyTo op left right)
      (applyTo op left' right') := by
  intro m m' hm
  refine .ended (Answers.of_map_eq ?_) hm
  change Result.caseless _ = Result.caseless _
  rw [← applyOperator_caseless, hm.heap, hleft, hright, applyOperator_caseless]

theorem addTo_alike (ref : ListRef) (h : v.Alike w) :
    Run.Alike Eq (addTo ref v) (addTo ref w) := by
  intro m m' hm
  refine .ended (.ok rfl) { hm with heap := ?_ }
  rw [← Heap.modify_push_caseless, hm.heap, h, Heap.modify_push_caseless]

theorem get_alike {heap heap' : Heap} (h : heap.caseless = heap'.caseless)
    (ref : ListRef) : (heap.get ref).map Value.caseless =
      (heap'.get ref).map Value.caseless := by
  rw [← Heap.get_caseless, h, Heap.get_caseless]

theorem outOfBounds_alike {heap heap' : Heap}
    (h : heap.caseless = heap'.caseless) (ref : ListRef) (index : Int64)
    (operation : String) :
    outOfBounds index operation (heap.get ref) =
      outOfBounds index operation (heap'.get ref) := by
  have hlength := congrArg Chain.length (get_alike h ref)
  rw [Chain.length_map, Chain.length_map] at hlength
  rw [outOfBounds, hlength, outOfBounds]

theorem put_alike {heap heap' : Heap} (h : heap.caseless = heap'.caseless)
    (ref : ListRef) {c c' : Chain Value}
    (hc : c.map Value.caseless = c'.map Value.caseless) :
    (heap.put ref c).caseless = (heap'.put ref c').caseless := by
  rw [← Heap.put_caseless, h, hc, Heap.put_caseless]

theorem setElement_alike (ref : ListRef) (index : Int64) (h : v.Alike w) :
    Run.Alike Eq (setElement ref index v) (setElement ref index w) := by
  intro m m' hm
  have hset : ((m.heap.get ref).set? index.toInt v).map
        (Chain.map Value.caseless) =
      ((m'.heap.get ref).set? index.toInt w).map
        (Chain.map Value.caseless) := by
    rw [← Chain.set?_map, get_alike hm.heap, h, Chain.set?_map]
  have hfault := outOfBounds_alike hm.heap ref index "update"
  rw [setElement, setElement]
  cases hc : (m.heap.get ref).set? index.toInt v with
  | none =>
      rw [hc, Option.map_none, eq_comm, Option.map_eq_none_iff] at hset
      rw [hset]
      exact .ended (.error (by rw [hfault])) hm
  | some c =>
      rw [hc, Option.map_some, eq_comm, Option.map_eq_some_iff] at hset
      obtain ⟨c', hc', himage⟩ := hset
      rw [hc']
      exact .ended (.ok rfl)
        { hm with heap := put_alike hm.heap ref himage.symm }

theorem removeElement_alike (ref : ListRef) (index : Int64) :
    Run.Alike Value.Alike (removeElement ref index)
      (removeElement ref index) := by
  intro m m' hm
  have hremove := (m.heap.get ref).remove?_map Value.caseless index.toInt
  rw [get_alike hm.heap, Chain.remove?_map] at hremove
  have hfault := outOfBounds_alike hm.heap ref index "remove"
  rw [removeElement, removeElement]
  cases hc : (m.heap.get ref).remove? index.toInt with
  | none =>
      rw [hc, Option.map_none, Option.map_eq_none_iff] at hremove
      rw [hremove]
      exact .ended (.error (by rw [hfault])) hm
  | some removed =>
      rw [hc, Option.map_some, Option.map_eq_some_iff] at hremove
      obtain ⟨removed', hc', himage⟩ := hremove
      rw [Prod.mk.injEq] at himage
      rw [hc']
      exact .ended (.ok himage.1.symm)
        { hm with heap := put_alike hm.heap ref himage.2.symm }

theorem stepVariable_alike {name name' : Name}
    (h : name.caseless = name'.caseless) (delta : Int) (operation : String) :
    Run.Alike Eq (stepVariable name delta operation)
      (stepVariable name' delta operation) := by
  refine (lookup_alike h).bind ?_
  intro value value' hvalue
  rcases hvalue.cases with rfl | ⟨f, g, rfl, rfl, -⟩
  · cases value with
    | integer n =>
        refine Run.Alike.bind (R := Value.Alike)
          (.ofExcept (Answers.of_map_eq rfl)) ?_
        intro sum sum' hsum
        exact assign_alike h hsum
    | _ => exact .fault rfl
  · exact .fault rfl

theorem fromInput_alike {α : Type} (read : Input → Except Fault α × Input) :
    Run.Alike Eq (Run.fromInput read) (Run.fromInput read) := by
  intro m m' hm
  rw [Run.fromInput, Run.fromInput, hm.input]
  refine .ended ?_ { hm with input := rfl }
  rcases (read m'.input).1 with fault | a
  · exact .error rfl
  · exact .ok rfl

theorem readKind_alike {type type' : ReadType}
    (h : type.relabel .caseless = type'.relabel .caseless) :
    Answers Eq (readKind (some type)) (readKind (some type')) := by
  obtain ⟨htext, hspan⟩ := ReadType.mk.inj h
  change lowerString type.text = lowerString type'.text at htext
  change type.span = type'.span at hspan
  simp only [readKind, htext]
  split
  · exact .ok rfl
  · split
    · exact .ok rfl
    · split
      · exact .ok rfl
      · apply Answers.error
        simp only [Fault.caseless_locate, Fault.caseless_ofCause,
          Fault.Cause.caseless, lowerString_append, htext, hspan]

theorem readValue_alike {type type' : Option ReadType}
    (h : type.map (·.relabel .caseless) = type'.map (·.relabel .caseless)) :
    Run.Alike Value.Alike (readValue type) (readValue type') := by
  obtain ⟨hkind, hwanted⟩ : Answers Eq (readKind type) (readKind type') ∧
      lowerString ((type.map (·.text)).getD "value") =
        lowerString ((type'.map (·.text)).getD "value") := by
    cases type with
    | none =>
        rw [Option.map_none, eq_comm, Option.map_eq_none_iff] at h
        rw [h]
        exact ⟨.ok rfl, rfl⟩
    | some type =>
        rw [Option.map_some, eq_comm, Option.map_eq_some_iff] at h
        obtain ⟨type', rfl, himage⟩ := h
        exact ⟨readKind_alike himage.symm,
          (ReadType.mk.inj himage).1.symm⟩
  refine (Run.Alike.ofExcept hkind).bind ?_
  rintro kind _ rfl
  cases kind with
  | line =>
      refine (fromInput_alike _).bind ?_
      rintro line _ rfl
      exact .pure rfl
  | integer | real | truth =>
      refine (fromInput_alike _).bind ?_
      rintro word _ rfl
      generalize readWord? _ word = found
      cases found with
      | some value => exact .pure rfl
      | none =>
          apply Run.Alike.fault
          simp only [Fault.caseless_ofCause, Fault.Cause.caseless,
            lowerString_append, hwanted]

theorem print_alike {text text' : Heap → String}
    (h : ∀ heap heap' : Heap, heap.caseless = heap'.caseless →
      text heap = text' heap') :
    Run.Alike Eq (Action.print text).run (Action.print text').run := by
  intro m m' hm
  refine .ended (.ok rfl) { hm with output := ?_ }
  simp only [hm.output, h _ _ hm.heap]

theorem isOutside_alike :
    Run.Alike Eq Action.isOutside.run Action.isOutside.run := by
  intro m m' hm
  refine .ended (.ok ?_) hm
  rw [← CallStack.isEmpty_caseless, hm.calls, CallStack.isEmpty_caseless]

theorem next_alike (ref : ListRef) (walk : Walk) :
    Run.Alike (fun p q => p.1.map Value.caseless = q.1.map Value.caseless ∧
        p.2 = q.2)
      (Action.next ref walk).run (Action.next ref walk).run := by
  intro m m' hm
  have hnext := walk.next_map Value.caseless (m.heap.get ref)
  rw [get_alike hm.heap, Walk.next_map, Prod.mk.injEq] at hnext
  exact .ended (.ok ⟨hnext.1.symm, hnext.2.symm⟩) hm

end Actions

end Eval

end Prose
