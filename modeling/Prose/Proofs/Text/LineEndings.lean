import Prose.Proofs.Text.RawLines

/-!
Lines without their endings. There is one way to cut a text into lines: where a
line feed stands, and nowhere else, a line ends; a carriage return right before the
line feed goes with it, and any other one belongs to the line; a last line without
a line feed is a line unless it is empty. Cutting first and then taking the endings
away leaves these lines, and so does the reading of a text in one pass.
-/

namespace Prose.Text

/-- How a text is cut into lines. -/
inductive CutInto : List Char → List (List Char) → Prop where
  | nil : CutInto [] []
  | last {line : List Char} : line ≠ [] → '\n' ∉ line → CutInto line [line]
  | lineFeed {line text : List Char} {rest : List (List Char)} :
      '\n' ∉ line → line.getLast? ≠ some '\r' → CutInto text rest →
        CutInto (line ++ '\n' :: text) (line :: rest)
  | carriageReturn {line text : List Char} {rest : List (List Char)} :
      '\n' ∉ line → CutInto text rest →
        CutInto (line ++ '\r' :: '\n' :: text) (line :: rest)

/-! ### Reading in one pass -/

theorem lines_cons {c : Char} {text : List Char} (hfeed : c ≠ '\n')
    (hreturn : c = '\r' → text.head? ≠ some '\n') :
    lines (c :: text) =
      match lines text with
      | [] => [[c]]
      | line :: rest => (c :: line) :: rest := by
  refine (lines.eq_4 c text hfeed ?_).trans ?_
  · rintro rest hc rfl
    exact hreturn hc rfl
  · cases lines text <;> rfl

/-- Characters that end no line stand in front of the first line after them. -/
theorem lines_append {front text line : List Char} {rest : List (List Char)}
    (hfront : '\n' ∉ front)
    (hreturn : front.getLast? = some '\r' → text.head? ≠ some '\n')
    (htext : lines text = line :: rest) :
    lines (front ++ text) = (front ++ line) :: rest := by
  induction front with
  | nil => exact htext
  | cons c front ih =>
      rw [List.mem_cons, not_or] at hfront
      have hmore : lines (front ++ text) = (front ++ line) :: rest := by
        apply ih hfront.2
        intro hlast
        apply hreturn
        rw [List.getLast?_cons, hlast]
        rfl
      have hnext : c = '\r' → (front ++ text).head? ≠ some '\n' := by
        rintro rfl
        cases front with
        | nil => exact hreturn rfl
        | cons d front =>
            intro hd
            exact hfront.2 (List.mem_cons.2 (.inl (Option.some.inj hd).symm))
      rw [List.cons_append, lines_cons (Ne.symm hfront.1) hnext, hmore]
      rfl

/-- The lines of a text are what it is cut into. -/
theorem CutInto.lines_eq {text : List Char} {ls : List (List Char)}
    (h : CutInto text ls) : lines text = ls := by
  induction h with
  | nil => rfl
  | @last line hne hline =>
      obtain ⟨front, c, rfl⟩ := (List.eq_nil_or_concat' line).resolve_left hne
      have hc : c ≠ '\n' := by
        rintro rfl
        exact hline (List.mem_append_right _ List.mem_cons_self)
      have hfront : '\n' ∉ front := fun hmem =>
        hline (List.mem_append_left _ hmem)
      have hlast : lines [c] = [[c]] := lines_cons hc (fun _ => by simp)
      exact lines_append hfront (fun _ => by simpa using hc) hlast
  | @lineFeed line text rest hline hreturn _ ih =>
      have hfeed : lines ('\n' :: text) = [] :: rest := by rw [lines, ih]
      have hcut := lines_append hline (fun hlast => absurd hlast hreturn) hfeed
      rwa [List.append_nil] at hcut
  | @carriageReturn line text rest hline _ ih =>
      have hend : lines ('\r' :: '\n' :: text) = [] :: rest := by rw [lines, ih]
      have hcut := lines_append hline (fun _ => by simp) hend
      rwa [List.append_nil] at hcut

/-! ### Taking the endings away -/

theorem AreRaw.cutInto {raws : List (List Char)} (h : AreRaw raws) :
    CutInto raws.flatten (raws.map stripEnding) := by
  induction h with
  | nil => exact .nil
  | @last line hne hline =>
      rw [List.flatten_singleton, List.map_singleton, stripEnding_of_not_mem hline]
      exact .last hne hline
  | @cons line rest hline _ ih =>
      rw [List.flatten_cons, List.map_cons]
      by_cases hreturn : line.getLast? = some '\r'
      · obtain ⟨front, rfl⟩ := List.getLast?_eq_some_iff.1 hreturn
        have hfront : '\n' ∉ front := fun hmem =>
          hline (List.mem_append_left _ hmem)
        simp only [List.append_assoc, List.cons_append, List.nil_append]
        rw [stripEnding_append_carriageReturn]
        exact .carriageReturn hfront ih
      · rw [stripEnding_append_lineFeed hreturn, List.append_assoc]
        exact .lineFeed hline hreturn ih

theorem cutInto_rawLines (text : List Char) :
    CutInto text ((rawLines text).map stripEnding) := by
  have hcut := (areRaw_rawLines text).cutInto
  rwa [flatten_rawLines] at hcut

theorem lines_eq (text : List Char) :
    lines text = (rawLines text).map stripEnding :=
  (cutInto_rawLines text).lines_eq

/-- There is one way to cut a text into lines. -/
theorem cutInto_iff {text : List Char} {ls : List (List Char)} :
    CutInto text ls ↔ ls = (rawLines text).map stripEnding := by
  constructor
  · intro h
    rw [← h.lines_eq, lines_eq]
  · rintro rfl
    exact cutInto_rawLines text

example : lines "a\r\nb\rc\n\n\r\r\nd\r".toList =
    ["a".toList, "b\rc".toList, [], "\r".toList, "d\r".toList] := by
  decide

end Prose.Text
