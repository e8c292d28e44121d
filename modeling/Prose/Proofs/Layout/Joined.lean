import Prose.Proofs.Layout.Alternatives
import Prose.Proofs.Layout.Folds
import Prose.Proofs.Layout.LineRuns
import Prose.Proofs.Layout.SourceMap

/-!
Reading two texts that are joined. If the first one ends with a line and the
second one does not begin inside a block, then the statements of both are those of
the first and then those of the second. The reader may look at the first line of
the second text before it gives out the last statement of the first. The
statements of the second are what they are when it is read alone, but they stand
further down.
-/

namespace Prose.Layout

open Text

/-! ### The first text -/

/-- The lines begin a statement of their own: the first one begins with neither
space nor tab and is no alternative. -/
def StartAfresh : List RawLine → Prop
  | [] => True
  | .text raw :: _ =>
      (stripEnding raw).head? ≠ some ' ' ∧ (stripEnding raw).head? ≠ some '\t' ∧
        Line.startsOtherwise ⟨stripEnding raw, 0, 1⟩ = false
  | .undecodable :: _ => False

/-- The indentations of the open blocks begin with a space or a tab. -/
def Folding.Indents (f : Folding) : Prop :=
  ∀ indent ∈ f.blocks, indent.head? = some ' ' ∨ indent.head? = some '\t'

theorem Line.head?_of_indentation? {line : Line} {indent : List Char}
    (h : line.indentation? = some indent) :
    indent.head? = some ' ' ∨ indent.head? = some '\t' := by
  obtain ⟨c, rest, htext, hc, rfl⟩ := eq_of_indentation? h
  rw [htext, List.takeWhile_cons_of_pos (by simp), List.head?_cons,
    Option.some.injEq, Option.some.injEq]
  exact hc

theorem Line.place_eq_after {line : Line} {blocks : List (List Char)}
    (hoff : ∀ indent ∈ blocks, startsWith line.text indent = false)
    (hplain : line.startsOtherwise = false) :
    line.place blocks = .after blocks.length := by
  induction blocks with
  | nil => rfl
  | cons indent blocks ih =>
      rw [List.forall_mem_cons] at hoff
      rw [place, hoff.1, hplain, ih hoff.2]
      rfl

namespace Folding

variable {f next : Folding} {line : Line} {pieces : List Piece}

theorem Indents.step (hf : f.Indents)
    (hstep : f.step line = .ok (.extend pieces next)) : next.Indents := by
  unfold Folding.step at hstep
  split at hstep
  · split at hstep
    · cases hstep
    · next indent hindent =>
        cases hstep
        exact List.forall_mem_cons.2 ⟨Line.head?_of_indentation? hindent, hf⟩
  · split at hstep
    · next closed blocks hplace =>
        cases hstep
        obtain ⟨⟨inner, hblocks, -⟩, -, -⟩ := Line.place_eq_inside hplace
        intro indent hindent
        exact hf indent (hblocks ▸ List.mem_append_right inner hindent)
    · next closed blocks hplace =>
        cases hstep
        obtain ⟨-, -, first, hblocks, -⟩ := Line.place_eq_alternative hplace
        intro indent hindent
        exact hf indent (hblocks ▸ List.mem_cons_of_mem first hindent)
    · cases hstep

/-- A line that begins a statement of its own completes the statement before it
just as the end of the input does. -/
theorem Indents.complete (hf : f.Indents) (hfinish : f.finish = .ok pieces)
    (hspace : line.text.head? ≠ some ' ') (htab : line.text.head? ≠ some '\t')
    (hplain : line.startsOtherwise = false) :
    f.step line = .ok (.complete pieces) := by
  have hoff : ∀ indent ∈ f.blocks, startsWith line.text indent = false := by
    intro indent hindent
    rw [startsWith, Bool.eq_false_iff, ne_eq, List.isPrefixOf_iff_prefix]
    rintro ⟨rest, htext⟩
    have hhead := hf indent hindent
    cases indent with
    | nil => rcases hhead with hhead | hhead <;> cases hhead
    | cons c indent =>
        rw [← htext] at hspace htab
        exact hhead.elim hspace htab
  unfold finish at hfinish
  unfold Folding.step
  split at hfinish
  · cases hfinish
  · cases hfinish
    simp only [Line.place_eq_after hoff hplain]

end Folding

/-- After both readings the same is read next, if more lines follow those that the
first one has left. The second one may have taken a line more, which it keeps. -/
def Reading.GoesOn {α : Type} (short long : Reading α) (more : List RawLine) :
    Prop :=
  long.reader.next long.rest = short.reader.next (short.rest ++ more)

/-- What a reading becomes if more lines follow: it finds the same statement, or,
if the end has been reached, what the lines that follow begin with. -/
def Reading.ContinuedBy (short long : Reading (Option Statement))
    (more : List RawLine) : Prop :=
  match short.result with
  | .ok (some s) => long.result = .ok (some s) ∧ short.GoesOn long more
  | .ok none => long = short.reader.next more
  | .error _ => True

namespace Reader

variable {r : Reader} {more : List RawLine}

/-- It makes no difference whether a reader has looked at a line. -/
theorem next_looked (hpending : r.pending = none) (raw : List Char) :
    ({ (r.take raw).2 with pending := some (r.take raw).1 } : Reader).next more =
      r.next (.text raw :: more) := by
  obtain ⟨pending, offset, number, taken⟩ := r
  cases hpending
  rfl

theorem fold_append {f : Folding} (hf : f.Indents) (hpending : r.pending = none)
    (hmore : StartAfresh more) {rest : List RawLine} {pieces : List Piece}
    (h : (r.fold f rest).result = .ok pieces) :
    (r.fold f (rest ++ more)).result = .ok pieces ∧
      (r.fold f rest).GoesOn (r.fold f (rest ++ more)) more := by
  induction rest generalizing f r pieces with
  | nil =>
      cases more with
      | nil => exact ⟨h, rfl⟩
      | cons first more =>
          cases first with
          | undecodable => cases hmore
          | text raw =>
              -- The line that follows closes the open blocks, as the end does, and
              -- is kept.
              obtain ⟨hspace, htab, hplain⟩ := hmore
              have hstep : f.step (r.take raw).1 = .ok (.complete pieces) :=
                hf.complete h hspace htab hplain
              simp only [List.nil_append, fold, hstep]
              exact ⟨trivial, next_looked hpending raw⟩
  | cons raw rest ih =>
      cases raw with
      | undecodable => cases h
      | text raw =>
          have htaken : (r.take raw).2.pending = none := hpending
          rw [List.cons_append, fold, fold]
          rw [fold] at h
          dsimp only at h ⊢
          cases hstep : f.step (r.take raw).1 with
          | error e =>
              rw [hstep] at h
              cases h
          | ok step =>
              rw [hstep] at h
              cases step with
              | complete done => exact ⟨h, rfl⟩
              | extend added next =>
                  obtain ⟨later, hlater, rfl⟩ := map_eq_ok h
                  obtain ⟨hresult, hgoes⟩ := ih (hf.step hstep) htaken hlater
                  refine ⟨?_, hgoes⟩
                  dsimp only
                  rw [hresult]
                  rfl

/-- A statement that begins with a line is cut off at the same place. -/
theorem statementFrom_append (line : Line) (hpending : r.pending = none)
    (hmore : StartAfresh more) (rest : List RawLine) :
    (r.statementFrom line rest).ContinuedBy
      (r.statementFrom line (rest ++ more)) more := by
  unfold statementFrom
  split
  · have hindents : (Folding.ofOpener line).Indents := nofun
    cases hresult : (r.fold (.ofOpener line) rest).result with
    | error e => simp only [Reading.ContinuedBy, hresult, Except.map]
    | ok pieces =>
        obtain ⟨hlong, hgoes⟩ := fold_append hindents hpending hmore hresult
        simp only [Reading.ContinuedBy, hresult, hlong, Except.map]
        exact ⟨trivial, hgoes⟩
  · exact ⟨rfl, rfl⟩

theorem search_append (hpending : r.pending = none) (hmore : StartAfresh more)
    (rest : List RawLine) :
    (r.search rest).ContinuedBy (r.search (rest ++ more)) more := by
  induction rest generalizing r with
  | nil =>
      change r.search more = r.next more
      rw [next, hpending]
  | cons raw rest ih =>
      cases raw with
      | undecodable => trivial
      | text raw =>
          have htaken : (r.take raw).2.pending = none := hpending
          rw [List.cons_append, search, search]
          dsimp only
          split
          · exact ih htaken
          · exact statementFrom_append _ htaken hmore rest

/-- Lines that begin a statement of their own do not change what is read before
them. -/
theorem next_append (r : Reader) (hmore : StartAfresh more)
    (rest : List RawLine) :
    (r.next rest).ContinuedBy (r.next (rest ++ more)) more := by
  unfold next
  split
  · next hpending => exact search_append hpending hmore rest
  · dsimp only
    split
    · exact search_append rfl hmore rest
    · exact statementFrom_append _ rfl hmore rest

/-- At the end nothing is kept and no line is left. -/
theorem atEnd_of_next {rest : List RawLine}
    (h : (r.next rest).result = .ok none) :
    (r.next rest).reader.pending = none ∧ (r.next rest).rest = [] := by
  obtain ⟨run, -, hused⟩ := r.next_usesUp rest
  simp only [Reading.UsesUp, h, Reading.ahead, ahead, List.append_eq_nil_iff,
    List.map_eq_nil_iff, Option.toList_eq_nil_iff] at hused
  obtain ⟨-, hpending, hlines⟩ := hused
  refine ⟨hpending, List.length_eq_zero_iff.1 ?_⟩
  rw [← length_physicalLines, hlines]
  rfl

theorem At.atEnd {raws : List (List Char)} (hat : At raws r []) :
    r.offset = byteLength raws.flatten ∧ r.number = raws.length := by
  obtain ⟨before, after, hraws, hrest, hoffset, hnumber⟩ := hat.between
  obtain rfl : after = [] := List.map_eq_nil_iff.1 hrest.symm
  rw [List.append_nil] at hraws
  rw [hraws]
  exact ⟨hoffset, hnumber⟩

end Reader

/-! ### The second text -/

section Below

variable (lines bytes : Nat)

/-- The line as it stands below some lines, which take some bytes. -/
def Line.below (line : Line) : Line :=
  { line with start := line.start + bytes, number := line.number + lines }

def Piece.below : Piece → Piece
  | line l => line (l.below lines bytes)
  | newline => newline
  | indent => indent
  | dedent => dedent

def Statement.below (s : Statement) : Statement :=
  ⟨s.line + lines, s.pieces.map (Piece.below lines bytes)⟩

def LayoutError.below : LayoutError → LayoutError
  | missingIndentation text line span =>
      missingIndentation text (line + lines) (span.shift bytes)
  | missingBlock line span => missingBlock (line + lines) (span.shift bytes)
  | undecodable => undecodable

def Folding.below (f : Folding) : Folding :=
  { f with
      awaiting := match f.awaiting with
        | .first opener => .first (opener.below lines bytes)
        | .further => .further }

def Step.below : Step → Step
  | extend pieces next =>
      extend (pieces.map (Piece.below lines bytes)) (next.below lines bytes)
  | complete pieces => complete (pieces.map (Piece.below lines bytes))

@[simp] theorem Line.span_below (line : Line) :
    (line.below lines bytes).span = line.span.shift bytes := by
  simp only [span, below, Span.shift, Nat.add_right_comm]

@[simp] theorem Line.place_below (line : Line) (blocks : List (List Char)) :
    (line.below lines bytes).place blocks = line.place blocks := by
  induction blocks with
  | nil => rfl
  | cons indent blocks ih =>
      rw [place, place, ih]
      rfl

@[simp] theorem map_below_closing (n : Nat) :
    (closing n).map (Piece.below lines bytes) = closing n := by
  simp [closing, Piece.below]

theorem Step.ofLine_below {marks : List Piece}
    (hmarks : marks.map (Piece.below lines bytes) = marks) (line : Line)
    (blocks : List (List Char)) :
    Step.ofLine marks (line.below lines bytes) blocks =
      (Step.ofLine marks line blocks).below lines bytes := by
  have hopens : (line.below lines bytes).opensBlock = line.opensBlock := rfl
  rw [ofLine, ofLine, below, List.map_append, hmarks, Folding.below, hopens]
  cases line.opensBlock <;> rfl

theorem Folding.step_below (f : Folding) (line : Line) :
    (f.below lines bytes).step (line.below lines bytes) =
      ((f.step line).map (Step.below lines bytes)).mapError
        (LayoutError.below lines bytes) := by
  obtain ⟨awaiting, blocks⟩ := f
  cases awaiting with
  | first opener =>
      have hindent : (line.below lines bytes).indentation? = line.indentation? :=
        rfl
      simp only [step, below, hindent]
      cases line.indentation? with
      | none =>
          rw [Line.span_below]
          rfl
      | some indent =>
          exact congrArg Except.ok (Step.ofLine_below lines bytes rfl line _)
  | further =>
      simp only [step, below, Line.place_below]
      cases line.place blocks with
      | inside closed left | alternative closed left =>
          exact congrArg Except.ok (Step.ofLine_below lines bytes
            (map_below_closing lines bytes closed) line _)
      | after closed =>
          simp only [Except.map, Except.mapError, Step.below, map_below_closing]

theorem Folding.finish_below (f : Folding) :
    (f.below lines bytes).finish =
      (f.finish.map (List.map (Piece.below lines bytes))).mapError
        (LayoutError.below lines bytes) := by
  obtain ⟨awaiting, blocks⟩ := f
  cases awaiting with
  | first opener =>
      simp only [finish, below, Line.span_below]
      rfl
  | further =>
      simp only [finish, below, Except.map, Except.mapError, map_below_closing]

end Below

/-- The reader as it is after another one has read what stands above. -/
def Reader.below (r above : Reader) : Reader :=
  { pending := r.pending.map (Line.below above.number above.offset)
    offset := r.offset + above.offset
    number := r.number + above.number
    taken := r.taken ++ above.taken }

def Reading.below {α : Type} (reading : Reading α) (above : Reader) (f : α → α) :
    Reading α :=
  { result := (reading.result.map f).mapError
      (LayoutError.below above.number above.offset)
    reader := reading.reader.below above
    rest := reading.rest }

namespace Reader

variable (r above : Reader)

theorem below_fresh {above : Reader} (h : above.pending = none) :
    fresh.below above = above := by
  obtain ⟨pending, offset, number, taken⟩ := above
  cases h
  simp [below, fresh]

theorem take_below (raw : List Char) :
    (r.below above).take raw =
      ((r.take raw).1.below above.number above.offset,
        (r.take raw).2.below above) := by
  simp only [take, below, Line.below, List.cons_append, Nat.add_right_comm]

theorem fold_below (f : Folding) (rest : List RawLine) :
    (r.below above).fold (f.below above.number above.offset) rest =
      (r.fold f rest).below above
        (List.map (Piece.below above.number above.offset)) := by
  induction rest generalizing f r with
  | nil =>
      rw [fold, fold, Folding.finish_below]
      rfl
  | cons raw rest ih =>
      cases raw with
      | undecodable => rfl
      | text raw =>
          simp only [fold, take_below, Folding.step_below]
          cases f.step (r.take raw).1 with
          | error e => rfl
          | ok step =>
              cases step with
              | complete pieces => rfl
              | extend pieces next =>
                  simp only [Except.map, Except.mapError, Step.below, ih,
                    Reading.below]
                  cases (fold next (r.take raw).2 rest).result with
                  | error e => rfl
                  | ok more => simp only [List.map_append]

/-- A statement as it is found after what stands above has been read. -/
abbrev statementBelow : Option Statement → Option Statement :=
  Option.map (Statement.below above.number above.offset)

theorem statementFrom_below (line : Line) (rest : List RawLine) :
    (r.below above).statementFrom (line.below above.number above.offset) rest =
      (r.statementFrom line rest).below above above.statementBelow := by
  have hopens : (line.below above.number above.offset).opensBlock =
      line.opensBlock := rfl
  rw [statementFrom, statementFrom, hopens]
  split
  · have hfold := fold_below r above (.ofOpener line) rest
    have hopener : (Folding.ofOpener line).below above.number above.offset =
        .ofOpener (line.below above.number above.offset) := rfl
    rw [hopener] at hfold
    rw [hfold]
    simp only [Reading.below]
    cases (fold (.ofOpener line) r rest).result <;> rfl
  · rfl

theorem search_below (rest : List RawLine) :
    (r.below above).search rest =
      (r.search rest).below above above.statementBelow := by
  induction rest generalizing r with
  | nil => rfl
  | cons raw rest ih =>
      cases raw with
      | undecodable => rfl
      | text raw =>
          have hblank :
              ((r.take raw).1.below above.number above.offset).isBlank =
                (r.take raw).1.isBlank := rfl
          simp only [search, take_below, hblank]
          split
          · exact ih _
          · exact statementFrom_below _ above _ rest

/-- What stands above moves the statements that are read down and changes nothing
else in them. -/
theorem next_below (rest : List RawLine) :
    (r.below above).next rest =
      (r.next rest).below above above.statementBelow := by
  obtain ⟨pending, offset, number, taken⟩ := r
  cases pending with
  | none => exact search_below _ above rest
  | some line =>
      have hblank : (line.below above.number above.offset).isBlank =
          line.isBlank := rfl
      simp only [next, below, Option.map_some, hblank]
      split
      · exact search_below ⟨none, offset, number, taken⟩ above rest
      · exact statementFrom_below ⟨none, offset, number, taken⟩ above line rest

end Reader

/-! ### Statements further down -/

def Segment.below (bytes : Nat) (seg : Segment) : Segment :=
  { seg with sourceStart := seg.sourceStart + bytes }

theorem Segment.sourceStop_below (bytes : Nat) (seg : Segment) :
    (seg.below bytes).sourceStop = seg.sourceStop + bytes :=
  Nat.add_right_comm _ _ _

theorem Segment.toSource_below (bytes offset : Nat) (seg : Segment) :
    (seg.below bytes).toSource offset = seg.toSource offset + bytes := by
  rw [toSource, sourceStop_below, below, Nat.add_right_comm, toSource,
    Nat.add_min_add_right]

/-- One statement is another that stands some lines and bytes further up. -/
structure Statement.IsBelow (lines bytes : Nat) (s s' : Statement) : Prop where
  line : s'.line = s.line + lines
  text : s'.text = s.text
  sourceSpan : ∀ span, s'.sourceSpan span = (s.sourceSpan span).shift bytes

namespace Statement

variable (lines bytes : Nat)

theorem text_below (s : Statement) : (s.below lines bytes).text = s.text := by
  rw [text, text, below, List.flatMap_map]
  congr 1
  funext piece
  cases piece <;> rfl

theorem segmentsFrom_below (offset : Nat) (pieces : List Piece) :
    segmentsFrom offset (pieces.map (Piece.below lines bytes)) =
      (segmentsFrom offset pieces).map (Segment.below bytes) := by
  induction pieces generalizing offset with
  | nil => rfl
  | cons piece pieces ih =>
      cases piece with
      | line line =>
          have hline : (line.below lines bytes).trimmedStart =
              line.trimmedStart + bytes := Nat.add_right_comm _ _ _
          simp only [List.map_cons, Piece.below, segmentsFrom, ih, hline]
          rfl
      | newline | indent | dedent => exact ih _

theorem segmentIndex?_below (s : Statement) (offset : Nat) :
    (s.below lines bytes).segmentIndex? offset = s.segmentIndex? offset := by
  have hearly : (fun seg : Segment => decide (seg.textStart ≤ offset)) ∘
      Segment.below bytes = fun seg => decide (seg.textStart ≤ offset) := rfl
  rw [segmentIndex?, segmentIndex?, segments, below, segmentsFrom_below,
    List.takeWhile_map, hearly, List.length_map]
  rfl

/-- What is traced back to the source is found further down too. -/
theorem sourceSpan_below {s : Statement} {first : Line} {rest : List Piece}
    (hopens : s.pieces = .line first :: rest) (span : Span) :
    (s.below lines bytes).sourceSpan span = (s.sourceSpan span).shift bytes := by
  obtain ⟨n, seg, hindex, hseg⟩ := exists_segment hopens span.start
  have hbelow : (s.below lines bytes).segments[n]? =
      some (seg.below bytes) := by
    rw [segments, below, segmentsFrom_below, List.getElem?_map]
    exact congrArg (Option.map _) hseg
  simp only [sourceSpan, segmentIndex?_below, hindex, hseg, hbelow,
    Segment.toSource_below, Segment.sourceStop_below, Span.shift]
  split <;> rw [Nat.add_max_add_right]

end Statement

theorem Reader.pieces_of_statementFrom {r : Reader} {line : Line}
    {rest : List RawLine} {s : Statement}
    (h : (r.statementFrom line rest).result = .ok (some s)) :
    ∃ more, s.pieces = .line line :: more := by
  unfold statementFrom at h
  split at h
  · obtain ⟨pieces, -, hs⟩ := map_eq_ok h
    cases hs
    exact ⟨_, rfl⟩
  · cases h
    exact ⟨_, rfl⟩

/-- Every statement that is read stands somewhere, and so further down too. -/
theorem Reader.isBelow_of_next {r : Reader} {rest : List RawLine}
    {s : Statement} (h : (r.next rest).result = .ok (some s))
    (lines bytes : Nat) :
    s.IsBelow lines bytes (s.below lines bytes) := by
  obtain ⟨r', first, rest', hs⟩ := exists_statementFrom_of_next h
  obtain ⟨more, hopens⟩ := pieces_of_statementFrom hs
  exact ⟨rfl, s.text_below lines bytes,
    Statement.sourceSpan_below lines bytes hopens⟩

end Prose.Layout
