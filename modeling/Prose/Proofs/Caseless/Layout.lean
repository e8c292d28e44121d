import Prose.Proofs.Caseless.Text
import Prose.Proofs.Layout.Alternatives
import Prose.Proofs.Layout.SourceLines

/-!
Reading lines whatever the case of their letters. What the reader decides on,
the indentation of a line, its last character and whether it begins with
`otherwise`, does not depend on the case of letters. So the statements of a
source in lower case are those of the source in lower case, and their lines
stand where they stood.
-/

namespace Prose.Layout

open Text

/-! ### Images -/

def Line.caseless (line : Line) : Line :=
  { line with text := Text.caseless line.text }

def RawLine.caseless : RawLine → RawLine
  | text raw => text (Text.caseless raw)
  | undecodable => undecodable

def Piece.caseless : Piece → Piece
  | line l => line l.caseless
  | newline => newline
  | indent => indent
  | dedent => dedent

def Statement.caseless (s : Statement) : Statement :=
  ⟨s.line, s.pieces.map Piece.caseless⟩

/-- An error with the letters outside literals of the text that it quotes in
lower case. -/
def LayoutError.caseless : LayoutError → LayoutError
  | missingIndentation text line span =>
      missingIndentation (Text.caseless text) line span
  | missingBlock line span => missingBlock line span
  | undecodable => undecodable

def Folding.caseless (f : Folding) : Folding :=
  { f with
      awaiting := match f.awaiting with
        | .first opener => .first opener.caseless
        | .further => .further }

def Step.caseless : Step → Step
  | extend pieces next => extend (pieces.map Piece.caseless) next.caseless
  | complete pieces => complete (pieces.map Piece.caseless)

def Reader.caseless (r : Reader) : Reader :=
  { r with
      pending := r.pending.map Line.caseless
      taken := r.taken.map Text.caseless }

def Reading.caseless {α : Type} (f : α → α) (reading : Reading α) : Reading α :=
  { result := (reading.result.map f).mapError LayoutError.caseless
    reader := reading.reader.caseless
    rest := reading.rest.map RawLine.caseless }

/-- Readings with the same image failed alike or found things with the same
image. -/
theorem Reading.result_cases {α : Type} {f : α → α} {reading other : Reading α}
    (h : reading.caseless f = other.caseless f) :
    (∃ e e', reading.result = .error e ∧ other.result = .error e' ∧
      e.caseless = e'.caseless) ∨
    ∃ a b, reading.result = .ok a ∧ other.result = .ok b ∧ f a = f b := by
  have hresult := (Reading.mk.inj h).1
  cases hleft : reading.result with
  | error e =>
      cases hright : other.result with
      | error e' =>
          rw [hleft, hright] at hresult
          exact .inl ⟨e, e', rfl, rfl, Except.error.inj hresult⟩
      | ok b =>
          rw [hleft, hright] at hresult
          cases hresult
  | ok a =>
      cases hright : other.result with
      | error e' =>
          rw [hleft, hright] at hresult
          cases hresult
      | ok b =>
          rw [hleft, hright] at hresult
          exact .inr ⟨a, b, rfl, rfl, Except.ok.inj hresult⟩

/-! ### One line -/

namespace Line

variable (line : Line)

@[simp] theorem trimmed_caseless :
    line.caseless.trimmed = Text.caseless line.trimmed :=
  trim_caseless line.text

@[simp] theorem trimmedStart_caseless :
    line.caseless.trimmedStart = line.trimmedStart := by
  simp only [trimmedStart, caseless,
    takeWhile_caseless isBlank_toLower (by decide), byteLength_lower]

@[simp] theorem span_caseless : line.caseless.span = line.span := by
  simp only [span, caseless, byteLength_caseless]

@[simp] theorem isBlank_caseless : line.caseless.isBlank = line.isBlank :=
  isBlankText_caseless line.text

@[simp] theorem opensBlock_caseless :
    line.caseless.opensBlock = line.opensBlock := by
  rw [Bool.eq_iff_iff, opensBlock, opensBlock, beq_iff_eq, beq_iff_eq, caseless,
    trimEnd_caseless]
  exact getLast?_eq_iff_of_lower_eq (lower_caseless _) (by decide)

@[simp] theorem startsOtherwise_caseless :
    line.caseless.startsOtherwise = line.startsOtherwise := by
  simp only [startsOtherwise, caseless, trimStart_caseless, lower_take,
    lower_caseless]

/-- The indentation of a line has no letters. -/
theorem isPlain_of_indentation? {line : Line} {indent : List Char}
    (h : line.indentation? = some indent) : ∀ c ∈ indent, IsPlain c := by
  obtain ⟨first, rest, -, hfirst, rfl⟩ := eq_of_indentation? h
  intro c hc
  have heq : c = first := by simpa using List.mem_takeWhile_imp hc
  rcases hfirst with rfl | rfl <;> subst heq <;> decide

theorem lower_of_isPlain {cs : List Char} (h : ∀ c ∈ cs, IsPlain c) :
    lower cs = cs := by
  rw [lower, List.map_congr_left, List.map_id]
  intro c hc
  exact ((h c hc).toLower_eq_iff c).2 rfl

@[simp] theorem indentation?_caseless :
    line.caseless.indentation? = line.indentation? := by
  obtain ⟨text, start, number⟩ := line
  cases text with
  | nil => rfl
  | cons c cs =>
      have hspace : IsPlain ' ' := by decide
      have htab : IsPlain '\t' := by decide
      by_cases hc : c = '"'
      · subst hc
        simp only [indentation?, caseless, caseless_quote]
        rfl
      · simp only [indentation?, caseless, caseless_cons hc,
          hspace.toLower_eq_iff, htab.toLower_eq_iff]
        split
        · next hfirst =>
            have hplain : IsPlain c := by
              rcases hfirst with rfl | rfl <;> assumption
            have hmark : (fun d : Char => d == c.toLower) = (· == c) := by
              rw [(hplain.toLower_eq_iff c).2 rfl]
            have hrun : (Text.caseless (c :: cs)).takeWhile (· == c) =
                lower ((c :: cs).takeWhile (· == c)) := by
              apply takeWhile_caseless
              · intro d
                rw [Bool.eq_iff_iff, beq_iff_eq, beq_iff_eq,
                  hplain.toLower_eq_iff]
              · simpa using Ne.symm hc
            rw [caseless_cons hc] at hrun
            rw [hmark, hrun, lower_of_isPlain]
            intro d hd
            have heq : d = c := by simpa using List.mem_takeWhile_imp hd
            rwa [heq]
        · rfl

theorem startsWith_caseless {indent : List Char}
    (hindent : ∀ c ∈ indent, IsPlain c) (cs : List Char) :
    startsWith (Text.caseless cs) indent = startsWith cs indent := by
  have hlower (ds : List Char) :
      startsWith (lower ds) indent = startsWith ds indent := by
    rw [startsWith, startsWith]
    induction indent generalizing ds with
    | nil => rfl
    | cons c indent ih =>
        cases ds with
        | nil => rfl
        | cons d ds =>
            have hplain := hindent c List.mem_cons_self
            have hcase : (c == d.toLower) = (c == d) := by
              rw [Bool.eq_iff_iff, beq_iff_eq, beq_iff_eq, eq_comm,
                hplain.toLower_eq_iff, eq_comm]
            rw [lower_cons, List.isPrefixOf_cons_cons,
              List.isPrefixOf_cons_cons, hcase,
              ih fun e he => hindent e (List.mem_cons_of_mem _ he)]
  rw [← hlower, lower_caseless, hlower]

theorem place_caseless {blocks : List (List Char)}
    (hblocks : ∀ indent ∈ blocks, ∀ c ∈ indent, IsPlain c) :
    line.caseless.place blocks = line.place blocks := by
  induction blocks with
  | nil => rfl
  | cons indent blocks ih =>
      rw [place, place, startsOtherwise_caseless,
        ih fun other hother => hblocks other (List.mem_cons_of_mem _ hother)]
      rw [caseless, startsWith_caseless (hblocks indent List.mem_cons_self)]

end Line

/-! ### Folding -/

/-- The indentations of the open blocks have no letters. -/
def Folding.IsPlain (f : Folding) : Prop :=
  ∀ indent ∈ f.blocks, ∀ c ∈ indent, Text.IsPlain c

@[simp] theorem map_caseless_closing (n : Nat) :
    (closing n).map Piece.caseless = closing n := by
  simp [closing, Piece.caseless]

theorem Step.ofLine_caseless {marks : List Piece}
    (hmarks : marks.map Piece.caseless = marks) (line : Line)
    (blocks : List (List Char)) :
    Step.ofLine marks line.caseless blocks =
      (Step.ofLine marks line blocks).caseless := by
  rw [ofLine, ofLine, caseless, List.map_append, hmarks, Folding.caseless,
    Line.opensBlock_caseless]
  cases line.opensBlock <;> rfl

/-- One step takes the same lines in and keeps the blocks plain. -/
theorem Folding.step_caseless {f : Folding} (hf : f.IsPlain) (line : Line) :
    f.caseless.step line.caseless =
      ((f.step line).map Step.caseless).mapError LayoutError.caseless ∧
    ∀ pieces next, f.step line = .ok (.extend pieces next) → next.IsPlain := by
  obtain ⟨awaiting, blocks⟩ := f
  cases awaiting with
  | first opener =>
      simp only [step, caseless, Line.indentation?_caseless]
      cases hindent : line.indentation? with
      | none =>
          refine ⟨?_, nofun⟩
          rw [Line.span_caseless]
          rfl
      | some indent =>
          -- The new block is the only one whose indentation is not known yet.
          refine ⟨congrArg Except.ok (Step.ofLine_caseless rfl line _), ?_⟩
          rintro pieces next ⟨⟩ other hother
          rcases List.mem_cons.1 hother with rfl | hother
          · exact Line.isPlain_of_indentation? hindent
          · exact hf other hother
  | further =>
      simp only [step, caseless, line.place_caseless hf]
      cases hplace : line.place blocks with
      | inside closed left =>
          refine ⟨congrArg Except.ok
            (Step.ofLine_caseless (map_caseless_closing closed) line _), ?_⟩
          obtain ⟨⟨inner, rfl, -⟩, -, -⟩ := Line.place_eq_inside hplace
          rintro pieces next ⟨⟩ indent hindent
          exact hf indent (List.mem_append_right _ hindent)
      | alternative closed left =>
          refine ⟨congrArg Except.ok
            (Step.ofLine_caseless (map_caseless_closing closed) line _), ?_⟩
          obtain ⟨-, -, first, rfl, -⟩ := Line.place_eq_alternative hplace
          rintro pieces next ⟨⟩ indent hindent
          exact hf indent (List.mem_cons_of_mem _ hindent)
      | after closed =>
          refine ⟨?_, nofun⟩
          simp only [Except.map, Except.mapError, Step.caseless,
            map_caseless_closing]

theorem Folding.finish_caseless (f : Folding) :
    f.caseless.finish =
      (f.finish.map (List.map Piece.caseless)).mapError
        LayoutError.caseless := by
  obtain ⟨awaiting, blocks⟩ := f
  cases awaiting with
  | first opener =>
      simp only [finish, caseless, Line.span_caseless]
      rfl
  | further =>
      simp only [finish, caseless, Except.map, Except.mapError,
        map_caseless_closing]

/-! ### The reader -/

namespace Reader

theorem take_caseless (r : Reader) (raw : List Char) :
    r.caseless.take (Text.caseless raw) =
      ((r.take raw).1.caseless, (r.take raw).2.caseless) := by
  simp only [take, caseless, Line.caseless, stripEnding_caseless,
    byteLength_caseless, List.map_cons]

theorem fold_caseless {f : Folding} (hf : f.IsPlain) (r : Reader)
    (rest : List RawLine) :
    r.caseless.fold f.caseless (rest.map RawLine.caseless) =
      (r.fold f rest).caseless (List.map Piece.caseless) := by
  induction rest generalizing f r with
  | nil =>
      rw [List.map_nil, fold, fold, Folding.finish_caseless]
      rfl
  | cons raw rest ih =>
      cases raw with
      | undecodable => rfl
      | text raw =>
          obtain ⟨hstep, hnext⟩ := f.step_caseless hf (r.take raw).1
          simp only [List.map_cons, RawLine.caseless, fold, take_caseless,
            hstep]
          cases hresult : f.step (r.take raw).1 with
          | error e => rfl
          | ok step =>
              cases step with
              | complete pieces => rfl
              | extend pieces next =>
                  simp only [Except.map, Except.mapError, Step.caseless,
                    ih (hnext _ _ hresult), Reading.caseless]
                  cases (fold next (r.take raw).2 rest).result with
                  | error e => rfl
                  | ok more => simp only [List.map_append]

abbrev caselessStatement : Option Statement → Option Statement :=
  Option.map Statement.caseless

theorem statementFrom_caseless (r : Reader) (line : Line)
    (rest : List RawLine) :
    r.caseless.statementFrom line.caseless (rest.map RawLine.caseless) =
      (r.statementFrom line rest).caseless caselessStatement := by
  have hplain : (Folding.ofOpener line).IsPlain := nofun
  rw [statementFrom, statementFrom, Line.opensBlock_caseless]
  split
  · have hfold := fold_caseless hplain r rest
    have hopener : (Folding.ofOpener line).caseless =
        .ofOpener line.caseless := rfl
    rw [hopener] at hfold
    rw [hfold, Reading.caseless]
    simp only [Reading.caseless]
    cases (fold (.ofOpener line) r rest).result <;> rfl
  · rfl

theorem search_caseless (r : Reader) (rest : List RawLine) :
    r.caseless.search (rest.map RawLine.caseless) =
      (r.search rest).caseless caselessStatement := by
  induction rest generalizing r with
  | nil => rfl
  | cons raw rest ih =>
      cases raw with
      | undecodable => rfl
      | text raw =>
          simp only [List.map_cons, RawLine.caseless, search, take_caseless,
            Line.isBlank_caseless]
          split
          · exact ih _
          · exact statementFrom_caseless _ _ rest

/-- The reader finds the same statements whatever the case of letters. -/
theorem next_caseless (r : Reader) (rest : List RawLine) :
    r.caseless.next (rest.map RawLine.caseless) =
      (r.next rest).caseless caselessStatement := by
  obtain ⟨pending, offset, number, taken⟩ := r
  cases pending with
  | none => exact search_caseless _ rest
  | some line =>
      simp only [next, caseless, Option.map_some, Line.isBlank_caseless]
      split
      · exact search_caseless ⟨none, offset, number, taken⟩ rest
      · exact statementFrom_caseless ⟨none, offset, number, taken⟩ line rest

end Reader

theorem RawLine.ofText_caseless (text : List Char) :
    RawLine.ofText (Text.caseless text) =
      (RawLine.ofText text).map RawLine.caseless := by
  simp only [ofText, rawLines_caseless, List.map_map]
  rfl

/-! ### Statements -/

/-- Folding keeps literals whole. -/
theorem Separated.text_caseless {pieces : List Piece} (h : Separated pieces) :
    (pieces.map Piece.caseless).flatMap Piece.text =
      Text.caseless (pieces.flatMap Piece.text) := by
  induction h with
  | nil => rfl
  | last line => simp [Piece.caseless, Piece.text]
  | line line hrest ih =>
      simp only [List.map_cons, List.flatMap_cons, Piece.caseless, Piece.text,
        ih, Line.trimmed_caseless, List.singleton_append]
      rw [caseless_append_lineFeed]
  | @mark piece rest hpiece hrest ih =>
      rw [List.map_cons, List.flatMap_cons, List.flatMap_cons, ih,
        caseless_append]
      · rcases hpiece with rfl | rfl <;> rfl
      · rcases hpiece with rfl | rfl <;> decide

theorem Statement.segmentsFrom_caseless (offset : Nat) (pieces : List Piece) :
    segmentsFrom offset (pieces.map Piece.caseless) =
      segmentsFrom offset pieces := by
  induction pieces generalizing offset with
  | nil => rfl
  | cons piece pieces ih =>
      cases piece with
      | line l =>
          simp only [List.map_cons, segmentsFrom, Piece.caseless, Piece.text,
            Line.trimmedStart_caseless, Line.trimmed_caseless,
            byteLength_caseless, ih]
      | newline | indent | dedent => exact ih _

/-- The places of a statement do not depend on the case of letters. -/
theorem Statement.sourceSpan_caseless (s : Statement) (span : Span) :
    s.caseless.sourceSpan span = s.sourceSpan span := by
  have hsegments : s.caseless.segments = s.segments :=
    segmentsFrom_caseless 0 s.pieces
  have hindex (offset : Nat) :
      s.caseless.segmentIndex? offset = s.segmentIndex? offset := by
    rw [segmentIndex?, segmentIndex?, hsegments]
  simp only [sourceSpan, hindex, hsegments]

end Prose.Layout
