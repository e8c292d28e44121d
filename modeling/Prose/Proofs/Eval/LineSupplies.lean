import Prose.Input
import Prose.Proofs.Layout.NextLine
import Prose.Proofs.Text.LineEndings
import Prose.Proofs.Text.Utf8
import Prose.Proofs.Text.Words

/-!
Lines from wherever they come. The reader of the program, an input that is a stream
of bytes, and an input that is a text known beforehand each cut off the endings of
lines in a way of their own, but for one text they hand out the same lines. What a
`Read` statement takes from an input depends on these lines only, so a program finds
the same values in a stream as in a text.
-/

namespace Prose

open Text Layout

namespace Input

variable {i j k : Input} {ls blanks rest : List (List Char)}
  {line word : List Char}

/-! ### Lines -/

theorem drains_buffer (ls : List (List Char)) : Drains line? (.buffer ls) ls := by
  induction ls with
  | nil => exact Drains.nil_iff.2 rfl
  | cons line ls ih => exact Drains.cons_iff.2 ⟨_, rfl, ih⟩

theorem drains_stream (raws : List (List Char)) :
    Drains line? (.stream (raws.map .text)) (raws.map stripEnding) := by
  induction raws with
  | nil => exact Drains.nil_iff.2 rfl
  | cons raw raws ih => exact Drains.cons_iff.2 ⟨_, rfl, ih⟩

theorem remaining_of_line? (h : i.line? = (.ok (some line), j)) :
    i.remaining = j.remaining + 1 := by
  unfold line? at h
  split at h <;> cases h <;> rfl

/-- What is said of a line or a word that is asked for at the end. -/
def pastEnd : Fault := .ofCause (.inputFailed "unexpected end of input")

theorem line_of_some (h : i.line? = (.ok (some line), j)) :
    i.line = (.ok line, j) := by
  rw [Input.line, h]

theorem line_of_none (h : i.line? = (.ok .none, j)) :
    i.line = (.error pastEnd, j) := by
  rw [Input.line, h]
  rfl

/-! ### Words -/

theorem word_of_line (h : i.line? = (.ok (some line), j))
    (hword : firstWord? line = some word) : i.word = (.ok word, j) := by
  simp only [Input.word, wordUpTo, line_of_some h, hword]

theorem word_of_end (h : i.line? = (.ok .none, j)) :
    i.word = (.error pastEnd, j) := by
  rw [Input.word, wordUpTo, line_of_none h]

theorem word_of_blank (h : i.line? = (.ok (some line), j))
    (hblank : isBlankText line = true) : i.word = j.word := by
  have hword := firstWord?_eq_none_iff.2 hblank
  rw [Input.word, remaining_of_line? h, wordUpTo]
  simp only [line_of_some h, hword]
  rfl

/-- Asking for a word passes over blank lines. -/
theorem word_of_blanks (h : Serves line? i blanks j)
    (hblanks : ∀ blank ∈ blanks, isBlankText blank = true) : i.word = j.word := by
  induction h with
  | nil => rfl
  | cons hline _ ih =>
      rw [List.forall_mem_cons] at hblanks
      rw [word_of_blank hline hblanks.1, ih hblanks.2]

/-- A word takes the lines up to the one that it stands in. -/
theorem word_of_found (h : Drains line? i (blanks ++ line :: rest))
    (hblanks : ∀ blank ∈ blanks, isBlankText blank = true)
    (hword : firstWord? line = some word) :
    ∃ j, i.word = (.ok word, j) ∧ Serves line? i (blanks ++ [line]) j ∧
      Drains line? j rest := by
  obtain ⟨k, hserves, hdrains⟩ := h.split
  obtain ⟨j, hline, hrest⟩ := Drains.cons_iff.1 hdrains
  refine ⟨j, ?_, hserves.append (.cons hline (.nil j)), hrest⟩
  rw [word_of_blanks hserves hblanks, word_of_line hline hword]

/-- Where there is no word, all lines are taken. -/
theorem word_of_all_blank (h : Drains line? i ls)
    (hblanks : ∀ line ∈ ls, isBlankText line = true) :
    ∃ j, i.word = (.error pastEnd, j) ∧
      Serves line? i ls j ∧ j.line? = (.ok .none, j) := by
  obtain ⟨j, hserves, hend⟩ := h
  refine ⟨j, ?_, hserves, hend⟩
  rw [word_of_blanks hserves hblanks, word_of_end hend]

/-- What asking for a word does where these lines are still to come. -/
inductive TakesWord (i : Input) : List (List Char) → Prop where
  /-- It takes the blank lines and the line after them, whose first word it gives. -/
  | found {blanks rest : List (List Char)} {line word : List Char} {j : Input} :
      (∀ blank ∈ blanks, isBlankText blank = true) → IsFirstWord line word →
      i.word = (.ok word, j) → Serves line? i (blanks ++ [line]) j →
      TakesWord i (blanks ++ line :: rest)
  /-- It fails and takes all lines. -/
  | failed {ls : List (List Char)} {j : Input} :
      (∀ line ∈ ls, isBlankText line = true) →
      i.word = (.error pastEnd, j) →
      Serves line? i ls j → j.line? = (.ok .none, j) → TakesWord i ls

theorem takesWord (h : Drains line? i ls) : i.TakesWord ls := by
  rcases all_blank_or_exists_word ls with
    hblanks | ⟨blanks, line, rest, word, rfl, hblanks, hword⟩
  · obtain ⟨j, hfails, hserves, hend⟩ := word_of_all_blank h hblanks
    exact .failed hblanks hfails hserves hend
  · obtain ⟨j, hfinds, hserves, -⟩ := word_of_found h hblanks hword
    exact .found hblanks (isFirstWord_of_firstWord? hword) hfinds hserves

/-- The lines that an input hands out, one by one and for words. -/
structure Offers (i : Input) (ls : List (List Char)) : Prop where
  lines : ∀ served, Drains line? i served ↔ served = ls
  words : ∀ n, ∃ j, Serves line? i (ls.take n) j ∧ j.TakesWord (ls.drop n)

theorem offers (h : Drains line? i ls) : i.Offers ls where
  lines _ := h.iff_eq
  words n := by
    rw [← List.take_append_drop n ls] at h
    obtain ⟨j, hserves, hdrains⟩ := h.split
    exact ⟨j, hserves, takesWord hdrains⟩

/-! ### Series of requests -/

/-- What a program may ask an input for. -/
inductive Request where
  /-- The next line, or nothing at the end. -/
  | lineIfAny
  /-- The next line. -/
  | line
  /-- The next word. -/
  | word
deriving DecidableEq

/-- The answer to a request, and the input after it. -/
def Request.answer : Request → Input → Except Fault (Option (List Char)) × Input
  | .lineIfAny, i => i.line?
  | .line, i => (i.line.1.map some, i.line.2)
  | .word, i => (i.word.1.map some, i.word.2)

/-- The answers to requests made one after the other, also after failures. -/
def answers (i : Input) : List Request → List (Except Fault (Option (List Char)))
  | [] => []
  | request :: more => (request.answer i).1 :: (request.answer i).2.answers more

/-- The lines still to come determine the answer and the lines that it leaves. -/
theorem Request.answer_of_drains (request : Request) (ls : List (List Char)) :
    ∃ reply left, ∀ i, Drains line? i ls →
      ∃ j, request.answer i = (reply, j) ∧ Drains line? j left := by
  cases request with
  | lineIfAny =>
      cases ls with
      | nil =>
          refine ⟨.ok .none, [], fun i h => ?_⟩
          exact ⟨i, Drains.nil_iff.1 h, h⟩
      | cons line ls =>
          refine ⟨.ok (some line), ls, fun i h => ?_⟩
          exact Drains.cons_iff.1 h
  | line =>
      cases ls with
      | nil =>
          refine ⟨.error pastEnd, [], fun i h => ⟨i, ?_, h⟩⟩
          rw [answer, line_of_none (Drains.nil_iff.1 h)]
          rfl
      | cons line ls =>
          refine ⟨.ok (some line), ls, fun i h => ?_⟩
          obtain ⟨j, hline, hrest⟩ := Drains.cons_iff.1 h
          refine ⟨j, ?_, hrest⟩
          rw [answer, line_of_some hline]
          rfl
  | word =>
      rcases all_blank_or_exists_word ls with
        hblanks | ⟨blanks, line, rest, word, rfl, hblanks, hword⟩
      · refine ⟨.error pastEnd, [], fun i h => ?_⟩
        obtain ⟨j, hfails, -, hend⟩ := word_of_all_blank h hblanks
        refine ⟨j, ?_, Drains.nil_iff.2 hend⟩
        rw [answer, hfails]
        rfl
      · refine ⟨.ok (some word), rest, fun i h => ?_⟩
        obtain ⟨j, hfinds, -, hrest⟩ := word_of_found h hblanks hword
        refine ⟨j, ?_, hrest⟩
        rw [answer, hfinds]
        rfl

/-- Inputs that hand out the same lines answer every series of requests alike. -/
theorem answers_eq (requests : List Request) (hi : Drains line? i ls)
    (hj : Drains line? j ls) : i.answers requests = j.answers requests := by
  induction requests generalizing i j ls with
  | nil => rfl
  | cons request requests ih =>
      obtain ⟨reply, left, hanswer⟩ := request.answer_of_drains ls
      obtain ⟨i', hreply, hleft⟩ := hanswer i hi
      obtain ⟨j', hreply', hleft'⟩ := hanswer j hj
      rw [answers, answers, hreply, hreply', ih hleft hleft']

end Input

/-- There is one way to cut a text into lines. These are the lines that the reader
of the program hands out, and uses up where it reads statements, from a stream of
the bytes of the text; that an input hands out from such a stream; and that an
input hands out where the text is known beforehand. From both inputs a word takes
the blank lines that come next and the line after them, or fails after the last
line; and they answer every series of requests alike. -/
theorem supplies_hand_out_same_lines (text : List Char) :
    let source := RawLine.ofBytes (toBytes text)
    let calls := Reader.fresh.calls (source.length + 1) source
    let stream := Input.stream source
    let buffer := Input.ofText text
    ∃ (ls : List (List Char)) (lines : List Line),
      (∀ cut, CutInto text cut ↔ cut = ls) ∧
      lines.map (·.text) = ls ∧
      (∀ handed, Drains Reader.line? (.fresh, source) handed ↔ handed = lines) ∧
      (calls.getLast?.map (·.result) = some (.ok none) ∧
        ∃ runs, runs.flatten = lines.map some ∧
          List.Forall₂ Reading.UsesUp calls runs) ∧
      stream.Offers ls ∧ buffer.Offers ls ∧
      ∀ requests, stream.answers requests = buffer.answers requests := by
  intro source calls stream buffer
  have hsource : source = (rawLines text).map .text := RawLine.ofBytes_toBytes text
  obtain ⟨lines, hlines, hphysical, htexts⟩ :=
    Reader.drains_text (r := .fresh) rfl (rawLines text)
  rw [← hsource] at hlines hphysical
  have hstream : Drains Input.line? stream ((rawLines text).map stripEnding) := by
    change Drains Input.line? (.stream source) _
    rw [hsource]
    exact Input.drains_stream (rawLines text)
  have hbuffer : Drains Input.line? buffer ((rawLines text).map stripEnding) := by
    rw [← lines_eq]
    exact Input.drains_buffer (Text.lines text)
  have hahead : Reader.fresh.ahead source = lines.map some :=
    (Reader.ahead_of_pending rfl source).trans hphysical.symm
  have hmore : (Reader.fresh.ahead source).length < source.length + 1 := by
    rw [Reader.ahead_of_pending rfl, length_physicalLines]
    exact Nat.lt_succ_self _
  obtain ⟨hend, runs, hruns, hused, -⟩ := Reader.calls_use_up hmore
  refine ⟨_, lines, fun cut => cutInto_iff, htexts, fun _ => hlines.iff_eq,
    ⟨hend, runs, hruns.trans hahead, hused⟩, Input.offers hstream,
    Input.offers hbuffer, ?_⟩
  intro requests
  exact Input.answers_eq requests hstream hbuffer

/-- The carriage return that is left in the second line is white space. -/
example :
    let text := "\n \r\r\n12 more\r\n\nlast\r".toList
    (Input.stream (RawLine.ofBytes (toBytes text))).answers
        [.word, .line, .line, .lineIfAny, .word] =
      [.ok (some "12".toList), .ok (some []), .ok (some "last\r".toList),
        .ok none, .error Input.pastEnd] := by
  rfl

end Prose
