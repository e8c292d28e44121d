import Prose.Proofs.Layout.LineRuns
import Prose.Proofs.Layout.LineTokens
import Prose.Proofs.Text.RawLines
import Prose.Proofs.Text.Utf8

/-!
How large the numbers of a reader become. Offsets, line numbers and lengths are
counted without a bound here, while a place can hold no more than `Span.limit`.
Bytes and lines of the source that have been taken bound the first two. The text
of a statement can be longer than its lines, for a line that begins a block comes
with two marks, but it is at most twice as long: such a line is indented, and all
lines but the last one of a source have an ending. So nothing is cut off in a
source of less than `2 ^ 31` bytes, and its lines are shared out exactly.
-/

namespace Prose.Layout

open Text

/-! ### Texts of statements -/

/-- What lines may add to the texts of statements, their marks included: no line
adds more than twice its length and one more. -/
def room : List (Option Line) → Nat
  | [] => 0
  | none :: lines => room lines
  | some line :: lines => 2 * byteLength line.text + 1 + room lines

theorem room_append (xs ys : List (Option Line)) :
    room (xs ++ ys) = room xs + room ys := by
  induction xs with
  | nil => simp [room]
  | cons line xs ih => cases line <;> simp [room, ih, Nat.add_assoc]

/-- What is trimmed away in front, and what is left, are parts of the line. -/
theorem byteLength_add_trimmed_le (line : Line) :
    byteLength (line.text.takeWhile isBlank) + byteLength line.trimmed ≤
      byteLength line.text := by
  obtain ⟨after, hsplit⟩ := trim_split line.text
  have hlength := congrArg byteLength hsplit
  rw [byteLength_append, byteLength_append] at hlength
  change _ + byteLength (trim line.text) ≤ byteLength line.text
  omega

/-- A line that is indented begins with white space. -/
theorem takeWhile_isBlank_ne_nil {line : Line} {indent : List Char}
    (h : line.indentation? = some indent) : line.text.takeWhile isBlank ≠ [] := by
  obtain ⟨c, rest, htext, hc, -⟩ := Line.eq_of_indentation? h
  rw [htext, List.takeWhile_cons_of_pos (isBlank_of_space hc)]
  exact List.cons_ne_nil _ _

theorem byteLength_closing (n : Nat) :
    byteLength ((closing n).flatMap Piece.text) = n := by
  rw [Folding.text_closing]
  induction n with
  | zero => rfl
  | succ n ih =>
      rw [List.replicate_succ, byteLength_cons, ih, Nat.add_comm]
      rfl

theorem byteLength_marks_line (marks : List Piece) (line : Line) :
    byteLength ((marks ++ [Piece.line line, .newline]).flatMap Piece.text) =
      byteLength (marks.flatMap Piece.text) + (byteLength line.trimmed + 1) := by
  rw [List.flatMap_append, byteLength_append, List.flatMap_cons, byteLength_append]
  rfl

namespace Folding

variable {f next : Folding} {line : Line} {pieces : List Piece}

/-- What a line adds to a statement, together with the marks that will end the
blocks it leaves open, takes no more than the room of the line and the marks for
the blocks that were open before it. -/
theorem byteLength_step_extend
    (hstep : f.step line = .ok (.extend pieces next)) :
    byteLength (pieces.flatMap Piece.text) + next.blocks.length ≤
      f.blocks.length + (2 * byteLength line.text + 1) := by
  have hle := byteLength_add_trimmed_le line
  unfold step at hstep
  split at hstep
  · split at hstep
    · cases hstep
    · next indent hindent =>
        -- A line that begins a block comes with two marks, but it is indented.
        cases hstep
        have hpos := byteLength_pos (takeWhile_isBlank_ne_nil hindent)
        have hmark : byteLength ([Piece.indent].flatMap Piece.text) = 1 := rfl
        rw [byteLength_marks_line, hmark, List.length_cons]
        omega
  · split at hstep
    · next closed left hplace =>
        cases hstep
        obtain ⟨⟨inner, hblocks, hinner⟩, -⟩ := Line.place_eq_inside hplace
        rw [byteLength_marks_line, byteLength_closing, hblocks, List.length_append]
        dsimp only
        omega
    · next closed left hplace =>
        cases hstep
        obtain ⟨rfl, -, indent, hblocks, -⟩ := Line.place_eq_alternative hplace
        rw [byteLength_marks_line, byteLength_closing, hblocks, List.length_cons]
        dsimp only
        omega
    · cases hstep

theorem byteLength_step_complete
    (hstep : f.step line = .ok (.complete pieces)) :
    byteLength (pieces.flatMap Piece.text) = f.blocks.length := by
  unfold step at hstep
  split at hstep
  · split at hstep <;> cases hstep
  · split at hstep
    · cases hstep
    · cases hstep
    · next closed hplace =>
        cases hstep
        rw [byteLength_closing, Line.closed_of_place_eq_after hplace]

theorem byteLength_finish (hfinish : f.finish = .ok pieces) :
    byteLength (pieces.flatMap Piece.text) = f.blocks.length := by
  unfold finish at hfinish
  split at hfinish
  · cases hfinish
  · cases hfinish
    exact byteLength_closing _

end Folding

namespace Reader

variable {r : Reader} {rest : List RawLine}

/-- The lines that are folded have room for all that is folded. -/
theorem byteLength_fold {f : Folding} {pieces : List Piece}
    (h : (r.fold f rest).result = .ok pieces) :
    byteLength (pieces.flatMap Piece.text) ≤
      f.blocks.length + room ((linesAmong pieces).map some) := by
  induction rest generalizing r f pieces with
  | nil => exact Nat.le_add_right_of_le (Nat.le_of_eq (Folding.byteLength_finish h))
  | cons raw rest ih =>
      cases raw with
      | undecodable => cases h
      | text raw =>
          cases hstep : f.step (r.take raw).1 with
          | error e =>
              simp only [fold, hstep] at h
              cases h
          | ok step =>
              cases step with
              | complete done =>
                  simp only [fold, hstep] at h
                  cases h
                  have hdone := Folding.byteLength_step_complete hstep
                  exact Nat.le_add_right_of_le (Nat.le_of_eq hdone)
              | extend added next =>
                  simp only [fold, hstep] at h
                  obtain ⟨more, hmore, rfl⟩ := map_eq_ok h
                  have hadded := Folding.byteLength_step_extend hstep
                  obtain ⟨marks, hmarks, rfl⟩ := Folding.step_extend hstep
                  have hrest := ih hmore
                  rw [List.flatMap_append, byteLength_append, linesAmong_append,
                    linesAmong_append, linesAmong_marks hmarks, List.map_append,
                    room_append]
                  simp only [linesAmong, List.nil_append, List.map_cons,
                    List.map_nil, room]
                  omega

/-- The lines of a statement have room for its text. -/
theorem byteLength_statementFrom {line : Line} {s : Statement}
    (h : (r.statementFrom line rest).result = .ok (some s)) :
    byteLength s.text ≤ room ((linesAmong s.pieces).map some) := by
  have hle := byteLength_add_trimmed_le line
  unfold statementFrom at h
  split at h
  · obtain ⟨pieces, hpieces, heq⟩ := map_eq_ok h
    cases heq
    have hfold := byteLength_fold hpieces
    have hblocks : (Folding.ofOpener line).blocks.length = 0 := rfl
    change byteLength (line.trimmed ++ '\n' :: pieces.flatMap Piece.text) ≤
      room (some line :: (linesAmong pieces).map some)
    rw [byteLength_append, byteLength_cons, room]
    have hfeed : '\n'.utf8Size = 1 := rfl
    omega
  · cases h
    change byteLength (line.trimmed ++ []) ≤ room [some line]
    rw [List.append_nil, room, room]
    omega

theorem byteLength_next {s : Statement} (h : (r.next rest).result = .ok (some s)) :
    byteLength s.text ≤ room ((linesAmong s.pieces).map some) := by
  obtain ⟨r', line, rest', hfound⟩ := exists_statementFrom_of_next h
  exact byteLength_statementFrom hfound

end Reader

/-! ### Places in the source -/

/-- The offset and the number of a reader that has taken all lines left. -/
def placeAfter (offset number : Nat) : List RawLine → Nat × Nat
  | [] => (offset, number)
  | .text raw :: rest => placeAfter (offset + byteLength raw) (number + 1) rest
  | .undecodable :: rest => placeAfter offset number rest

theorem le_placeAfter (offset number : Nat) (rest : List RawLine) :
    offset ≤ (placeAfter offset number rest).1 ∧
      number ≤ (placeAfter offset number rest).2 := by
  induction rest generalizing offset number with
  | nil => exact ⟨Nat.le_refl _, Nat.le_refl _⟩
  | cons raw rest ih =>
      cases raw with
      | undecodable => exact ih offset number
      | text raw =>
          have htaken := ih (offset + byteLength raw) (number + 1)
          rw [placeAfter]
          omega

def Reading.placeAfter {α : Type} (reading : Reading α) : Nat × Nat :=
  Layout.placeAfter reading.reader.offset reading.reader.number reading.rest

namespace Reader

variable {r : Reader} {rest : List RawLine}

/-- No matter how much a reading takes, all lines lead to the same place. -/
theorem placeAfter_fold (f : Folding) :
    (r.fold f rest).placeAfter = placeAfter r.offset r.number rest := by
  induction rest generalizing r f with
  | nil => rfl
  | cons raw rest ih =>
      cases raw with
      | undecodable => rfl
      | text raw =>
          cases hstep : f.step (r.take raw).1 with
          | error e =>
              simp only [fold, hstep]
              rfl
          | ok step =>
              cases step with
              | complete done =>
                  simp only [fold, hstep]
                  rfl
              | extend added next =>
                  simp only [fold, hstep]
                  exact ih next

theorem placeAfter_statementFrom (line : Line) :
    (r.statementFrom line rest).placeAfter = placeAfter r.offset r.number rest := by
  unfold statementFrom
  split
  · exact placeAfter_fold _
  · rfl

theorem placeAfter_search :
    (r.search rest).placeAfter = placeAfter r.offset r.number rest := by
  induction rest generalizing r with
  | nil => rfl
  | cons raw rest ih =>
      cases raw with
      | undecodable => rfl
      | text raw =>
          rw [search]
          dsimp only
          split
          · exact ih
          · exact placeAfter_statementFrom _

theorem placeAfter_next :
    (r.next rest).placeAfter = placeAfter r.offset r.number rest := by
  unfold next
  split
  · exact placeAfter_search
  · dsimp only
    split
    · exact placeAfter_search
    · exact placeAfter_statementFrom _

/-- Every reading begins somewhere on the way through the source. -/
theorem eq_next_of_mem_calls {n : Nat} {reading : Reading (Option Statement)}
    (h : reading ∈ r.calls n rest) :
    ∃ (r' : Reader) (rest' : List RawLine), reading = r'.next rest' ∧
      r'.ahead rest' <:+ r.ahead rest ∧
      placeAfter r'.offset r'.number rest' = placeAfter r.offset r.number rest := by
  induction n generalizing r rest with
  | zero => cases h
  | succ n ih =>
      rw [calls, List.mem_cons] at h
      rcases h with rfl | h
      · exact ⟨r, rest, rfl, List.suffix_rfl, rfl⟩
      · split at h
        · cases h
        · obtain ⟨r', rest', heq, hsuffix, hplace⟩ := ih h
          obtain ⟨run, hrun, -⟩ := r.next_usesUp rest
          have hahead : (r.next rest).ahead <:+ r.ahead rest := ⟨run, hrun.symm⟩
          exact ⟨r', rest', heq, hsuffix.trans hahead,
            hplace.trans placeAfter_next⟩

end Reader

/-! ### Lines of bytes -/

/-- Lines that so many bytes are cut into: none of them is empty, and all but the
last end in a line feed. -/
inductive Sized : List RawLine → Nat → Prop where
  | nil : Sized [] 0
  | last {raw : List Char} : raw ≠ [] → Sized [.text raw] (byteLength raw)
  | cons {line : List Char} {rest : List RawLine} {n : Nat} :
      Sized rest n →
        Sized (.text (line ++ ['\n']) :: rest) (byteLength (line ++ ['\n']) + n)
  | undecodable {rest : List RawLine} {n : Nat} (bytes : Nat) :
      Sized rest n → Sized (.undecodable :: rest) (bytes + n)

/-- A stream hands out lines that are together as long as the stream. -/
theorem sized_ofBytes (bytes : List UInt8) :
    Sized (RawLine.ofBytes bytes) bytes.length := by
  have hlines := areByteLines_byteLines bytes
  rw [RawLine.ofBytes]
  nth_rewrite 2 [← flatten_byteLines bytes]
  generalize byteLines bytes = lines at hlines
  induction hlines with
  | nil => exact .nil
  | @last line hne =>
      rw [List.map_singleton, List.flatten_singleton]
      cases htext : ofBytes? line with
      | none => exact .undecodable line.length .nil
      | some raw =>
          have hbytes := toBytes_of_ofBytes? htext
          rw [← hbytes, length_toBytes]
          refine .last ?_
          rintro rfl
          exact hne hbytes.symm
  | @cons rest front _ ih =>
      rw [List.map_cons, List.flatten_cons, List.length_append]
      cases htext : ofBytes? (front ++ [10]) with
      | none => exact .undecodable _ ih
      | some raw =>
          have hbytes := toBytes_of_ofBytes? htext
          obtain ⟨line, rfl⟩ := eq_append_lineFeed_of_toBytes hbytes
          rw [← hbytes, length_toBytes]
          exact .cons ih

theorem byteLength_stripEnding_le (raw : List Char) :
    byteLength (stripEnding raw) ≤ byteLength raw := by
  obtain ⟨ending, hsplit⟩ := stripEnding_prefix raw
  have hlength := congrArg byteLength hsplit
  rw [byteLength_append] at hlength
  omega

theorem byteLength_stripEnding_lt (line : List Char) :
    byteLength (stripEnding (line ++ ['\n'])) < byteLength (line ++ ['\n']) := by
  have hfeed : byteLength (line ++ ['\n']) = byteLength line + 1 :=
    byteLength_append line ['\n']
  by_cases hreturn : line.getLast? = some '\r'
  · obtain ⟨front, rfl⟩ := List.getLast?_eq_some_iff.1 hreturn
    rw [hfeed, List.append_assoc, List.singleton_append,
      stripEnding_append_carriageReturn, byteLength_append]
    omega
  · rw [hfeed, stripEnding_append_lineFeed hreturn]
    exact Nat.lt_succ_self _

namespace Sized

variable {source : List RawLine} {n : Nat}

/-- A line with an ending is short enough to make up for the one byte more. -/
theorem room_le (h : Sized source n) (offset number : Nat) :
    room (physicalLines offset number source) ≤ 2 * n + 1 := by
  induction h generalizing offset number with
  | nil => exact Nat.zero_le _
  | @last raw _ =>
      -- The one byte more is for a last line that may lack its ending.
      have hle := byteLength_stripEnding_le raw
      simp only [physicalLines, room]
      omega
  | @cons line rest n _ ih =>
      have hlt := byteLength_stripEnding_lt line
      have hrest := ih (offset + byteLength (line ++ ['\n'])) (number + 1)
      rw [physicalLines, room]
      dsimp only
      omega
  | undecodable bytes _ ih =>
      have hrest := ih offset number
      rw [physicalLines, room]
      omega

theorem placeAfter_le (h : Sized source n) (offset number : Nat) :
    (placeAfter offset number source).1 ≤ offset + n ∧
      (placeAfter offset number source).2 ≤ number + n := by
  induction h generalizing offset number with
  | nil => exact ⟨Nat.le_refl _, Nat.le_refl _⟩
  | @last raw hne =>
      have hpos := byteLength_pos hne
      simp only [placeAfter]
      omega
  | @cons line rest n _ ih =>
      have hpos : 0 < byteLength (line ++ ['\n']) := byteLength_pos (by simp)
      have hrest := ih (offset + byteLength (line ++ ['\n'])) (number + 1)
      rw [placeAfter]
      omega
  | undecodable bytes _ ih =>
      have hrest := ih offset number
      rw [placeAfter]
      omega

end Sized

/-! ### All readings -/

/-- The line ends, and is counted, within what a place can hold. -/
structure Line.Fits (line : Line) : Prop where
  stop : line.span.stop ≤ Span.limit
  number : line.number ≤ Span.limit

/-- The lines of a source end before its reader does. -/
theorem stop_le_placeAfter {offset number : Nat} {source : List RawLine}
    {line : Line} (h : some line ∈ physicalLines offset number source) :
    line.span.stop ≤ (placeAfter offset number source).1 ∧
      line.number ≤ (placeAfter offset number source).2 := by
  induction source generalizing offset number with
  | nil => cases h
  | cons raw source ih =>
      cases raw with
      | undecodable =>
          rw [physicalLines, List.mem_cons] at h
          rcases h with h | h
          · cases h
          · exact ih h
      | text raw =>
          rw [physicalLines, List.mem_cons] at h
          rcases h with h | h
          · cases h
            have hle := byteLength_stripEnding_le raw
            have hafter :=
              le_placeAfter (offset + byteLength raw) (number + 1) source
            rw [placeAfter]
            dsimp only [Line.span]
            omega
          · exact ih h

/-- What a reading counts stays small enough: the bytes and the lines taken, and
the length of the text found. -/
structure Reading.Fits (reading : Reading (Option Statement)) : Prop where
  offset : reading.reader.offset ≤ Span.limit
  number : reading.reader.number ≤ Span.limit
  text : ∀ s, reading.result = .ok (some s) → byteLength s.text ≤ Span.limit

namespace Reader

/-- Whatever a reading counts is within twice the size of the source. -/
theorem fits_of_mem_calls {source : List RawLine} {size n : Nat}
    (hsource : Sized source size) (hsize : 2 * size < Span.limit)
    {reading : Reading (Option Statement)} (h : reading ∈ fresh.calls n source) :
    reading.Fits := by
  obtain ⟨r, rest, rfl, ⟨front, hfront⟩, hplace⟩ := eq_next_of_mem_calls h
  have hbefore : (r.next rest).reader.offset ≤ (r.next rest).placeAfter.1 ∧
      (r.next rest).reader.number ≤ (r.next rest).placeAfter.2 :=
    le_placeAfter _ _ _
  have hend : (r.next rest).placeAfter.1 ≤ 0 + size ∧
      (r.next rest).placeAfter.2 ≤ 0 + size := by
    rw [placeAfter_next, hplace]
    exact hsource.placeAfter_le 0 0
  refine ⟨by omega, by omega, fun s hs => ?_⟩
  obtain ⟨run, hrun, hused⟩ := r.next_usesUp rest
  simp only [Reading.UsesUp, hs] at hused
  obtain ⟨blanks, lines, rfl, -, hmade⟩ := hused
  have hroom : room (fresh.ahead source) ≤ 2 * size + 1 := by
    rw [ahead_of_pending rfl]
    exact hsource.room_le 0 0
  have htext := byteLength_next hs
  rw [hmade.lines_eq] at htext
  rw [← hfront, hrun] at hroom
  simp only [room_append] at hroom
  omega

/-- No line is lost or used twice. Reading on and on, at most once more than there
are lines, finds all there is and reaches the end. The physical lines are cut into
runs, one for each reading, in order: blank lines and then the lines that the
statement is made of, or the lines that a reading used up which met an error, or
the blank lines at the end. What comes after a run is the line that the reader
keeps, if it keeps one, and then what it has not taken from the source. All that
is counted can be held if the source has less than `2 ^ 31` bytes. -/
theorem readings_share_out_lines (bytes : List UInt8)
    (hsize : 2 * bytes.length < Span.limit) :
    let source := RawLine.ofBytes bytes
    let calls := fresh.calls (source.length + 1) source
    calls.length ≤ source.length + 1 ∧
    calls.getLast?.map (·.result) = some (.ok none) ∧
    readAll source = calls.filterMap Reading.found? ∧
    (∀ reading ∈ calls, reading.Fits) ∧
    (∀ line, some line ∈ physicalLines 0 0 source → line.Fits) ∧
    ∃ runs, runs.flatten = physicalLines 0 0 source ∧
      List.Forall₂ Reading.UsesUp calls runs ∧
      ∀ i reading, calls[i]? = some reading →
        reading.reader.pending.toList.map some ++
          physicalLines reading.reader.offset reading.reader.number reading.rest =
            (runs.drop (i + 1)).flatten := by
  intro source calls
  have hsource : Sized source bytes.length := sized_ofBytes bytes
  have hmore : (fresh.ahead source).length < source.length + 1 := by
    rw [ahead_of_pending rfl, length_physicalLines]
    exact Nat.lt_succ_self _
  obtain ⟨hlast, hruns⟩ := calls_use_up hmore
  refine ⟨length_calls_le _ _ _, hlast, readUpTo_eq_filterMap _ _ _, ?_, ?_, hruns⟩
  · exact fun reading hreading => fits_of_mem_calls hsource hsize hreading
  · intro line hline
    have hplace := stop_le_placeAfter hline
    have hend := hsource.placeAfter_le 0 0
    exact ⟨by omega, by omega⟩

/-- A line that opens a block, the block, a blank line and a line without an
ending: three readings, and the first one has looked at the blank line. -/
theorem readings_share_out_lines_block :
    let text := "a:\n b.\n\nc.".toList
    2 * (toBytes text).length < Span.limit ∧
    readAll (RawLine.ofText text) =
      (fresh.calls 5 (RawLine.ofText text)).filterMap Reading.found? ∧
    ∃ runs, runs.flatten = physicalLines 0 0 (RawLine.ofText text) ∧
      List.Forall₂ Reading.UsesUp (fresh.calls 5 (RawLine.ofText text)) runs ∧
      (runs.drop 1).flatten = [some ⟨[], 7, 3⟩, some ⟨['c', '.'], 8, 4⟩] := by
  intro text
  have hsize : 2 * (toBytes text).length < Span.limit := by decide
  have hshared := readings_share_out_lines (toBytes text) hsize
  rw [RawLine.ofBytes_toBytes] at hshared
  obtain ⟨-, -, hfound, -, -, runs, hlines, hruns, hahead⟩ := hshared
  refine ⟨hsize, hfound, runs, hlines, hruns, ?_⟩
  exact (hahead 0 _ rfl).symm

end Reader

end Prose.Layout
