import Prose.Proofs.Layout.SourceLines
import Prose.Proofs.Token.Scanning

/-!
From the text of a statement back to the source. Folding disturbs no token, so
a token of a statement is a token of one of its lines; and the part of the
source it is traced back to holds the same bytes. Any other span is traced back
to a part of one line.
-/

namespace Prose.Layout

open Text Lexer

/-! ### Tokens of pieces -/

/-- The tokens of pieces, each piece scanned by itself. -/
def scanPieces (offset : Nat) : List Piece → List Lexeme
  | [] => []
  | piece :: rest =>
    scan offset piece.text ++
      scanPieces (offset + byteLength piece.text) rest

theorem Piece.IsBlockMark.text_eq {piece : Piece}
    (hpiece : piece.IsBlockMark) :
    ∃ c ∈ ['\n', indentMark, dedentMark], piece.text = [c] ∧
      c.utf8Size = 1 := by
  rcases hpiece with rfl | rfl
  · exact ⟨indentMark, by decide, rfl, rfl⟩
  · exact ⟨dedentMark, by decide, rfl, rfl⟩

theorem scan_blockMark {piece : Piece} (hpiece : piece.IsBlockMark)
    (offset : Nat) (rest : List Char) :
    scan offset (piece.text ++ rest) =
      scan offset piece.text ++
        scan (offset + byteLength piece.text) rest := by
  obtain ⟨c, hc, htext, hsize⟩ := hpiece.text_eq
  simp [htext, scan_mark hc, scan_nil, hsize]

theorem start_of_mem_scan_blockMark {piece : Piece}
    (hpiece : piece.IsBlockMark) {offset : Nat} {lexeme : Lexeme}
    (hmem : lexeme ∈ scan offset piece.text) : lexeme.span.start = offset := by
  obtain ⟨c, hc, htext, -⟩ := hpiece.text_eq
  rw [htext, scan_mark hc, scan_nil, List.mem_singleton] at hmem
  rw [hmem]

/-- Folding disturbs no token. -/
theorem Separated.scan_text {pieces : List Piece} (hpieces : Separated pieces)
    (offset : Nat) :
    scan offset (pieces.flatMap Piece.text) = scanPieces offset pieces := by
  induction hpieces generalizing offset with
  | nil => simp [scanPieces, scan_nil]
  | last line => simp [scanPieces]
  | line line hrest ih =>
      have hmark : '\n' ∈ ['\n', indentMark, dedentMark] := by decide
      have hsize : '\n'.utf8Size = 1 := rfl
      simp only [List.flatMap_cons, scanPieces, ← ih, Piece.text,
        List.cons_append, List.nil_append]
      rw [scan_append_newline, scan_mark hmark, scan_mark hmark, scan_nil]
      simp [hsize]
  | mark hpiece hrest ih =>
      rw [List.flatMap_cons, scan_blockMark hpiece, ih, scanPieces]

theorem mem_scanPieces {pieces : List Piece} {offset : Nat} {lexeme : Lexeme}
    (hmem : lexeme ∈ scanPieces offset pieces) :
    ∃ before piece after, pieces = before ++ piece :: after ∧
      lexeme ∈ scan (offset + byteLength (before.flatMap Piece.text))
        piece.text := by
  induction pieces generalizing offset with
  | nil => cases hmem
  | cons piece rest ih =>
      rw [scanPieces, List.mem_append] at hmem
      rcases hmem with hmem | hmem
      · exact ⟨[], piece, rest, rfl, by simpa using hmem⟩
      · obtain ⟨before, other, after, hrest, hother⟩ := ih hmem
        refine ⟨piece :: before, other, after, by simp [hrest], ?_⟩
        simpa [Nat.add_assoc] using hother

/-! ### Segments -/

namespace Statement

theorem segmentsFrom_append (offset : Nat) (xs ys : List Piece) :
    segmentsFrom offset (xs ++ ys) =
      segmentsFrom offset xs ++
        segmentsFrom (offset + byteLength (xs.flatMap Piece.text)) ys := by
  induction xs generalizing offset with
  | nil => simp [segmentsFrom]
  | cons piece xs ih =>
      cases piece <;> simp [segmentsFrom, ih, Nat.add_assoc]

/-- A segment is a folded line, at its place in the text. -/
theorem mem_segmentsFrom {offset : Nat} {pieces : List Piece} {seg : Segment}
    (hseg : seg ∈ segmentsFrom offset pieces) :
    ∃ before line after, pieces = before ++ .line line :: after ∧
      seg = ⟨offset + byteLength (before.flatMap Piece.text),
        line.trimmedStart, byteLength line.trimmed⟩ := by
  induction pieces generalizing offset with
  | nil => cases hseg
  | cons piece rest ih =>
      have hlater : seg ∈ segmentsFrom (offset + byteLength piece.text) rest →
          ∃ before line after, piece :: rest = before ++ .line line :: after ∧
            seg = ⟨offset + byteLength (before.flatMap Piece.text),
              line.trimmedStart, byteLength line.trimmed⟩ := by
        intro hmem
        obtain ⟨before, line, after, hrest, heq⟩ := ih hmem
        refine ⟨piece :: before, line, after, by simp [hrest], ?_⟩
        rw [heq, List.flatMap_cons, byteLength_append, Nat.add_assoc]
      cases piece with
      | line line =>
          rw [segmentsFrom, List.mem_cons] at hseg
          rcases hseg with rfl | hseg
          · exact ⟨[], line, rest, rfl, by simp⟩
          · exact hlater hseg
      | newline => exact hlater hseg
      | indent => exact hlater hseg
      | dedent => exact hlater hseg

theorem textStart_le_of_mem {pieces : List Piece} {seg : Segment}
    (hseg : seg ∈ segmentsFrom 0 pieces) :
    seg.textStart ≤ byteLength (pieces.flatMap Piece.text) := by
  obtain ⟨before, line, after, rfl, rfl⟩ := mem_segmentsFrom hseg
  simp

theorem le_textStart_of_mem {offset : Nat} {pieces : List Piece}
    {seg : Segment} (hseg : seg ∈ segmentsFrom offset pieces) :
    offset ≤ seg.textStart := by
  obtain ⟨before, line, after, rfl, rfl⟩ := mem_segmentsFrom hseg
  simp

/-- An offset inside a line or at its end belongs to the segment of the line. -/
theorem segmentIndex?_line {s : Statement} {before after : List Piece}
    {line : Line} (hpieces : Separated s.pieces)
    (hsplit : s.pieces = before ++ .line line :: after) (offset : Nat)
    (hfrom : byteLength (before.flatMap Piece.text) ≤ offset)
    (hto : offset ≤
      byteLength (before.flatMap Piece.text) + byteLength line.trimmed) :
    s.segmentIndex? offset = some (segmentsFrom 0 before).length ∧
    s.segments[(segmentsFrom 0 before).length]? =
      some ⟨byteLength (before.flatMap Piece.text), line.trimmedStart,
        byteLength line.trimmed⟩ := by
  let start := byteLength (before.flatMap Piece.text)
  let seg : Segment := ⟨start, line.trimmedStart, byteLength line.trimmed⟩
  let later := segmentsFrom (start + byteLength line.trimmed) after
  have hsegments : s.segments = segmentsFrom 0 before ++ seg :: later := by
    rw [segments, hsplit, segmentsFrom_append]
    simp [segmentsFrom, Piece.text, seg, later, start]
  have hbefore : ∀ x ∈ segmentsFrom 0 before,
      decide (x.textStart ≤ offset) = true := by
    intro x hx
    have := textStart_le_of_mem hx
    simp only [decide_eq_true_eq]
    omega
  have hlater : ∀ x ∈ later, decide (x.textStart ≤ offset) = false := by
    -- The newline after the line keeps later lines from touching it.
    intro x hx
    rcases hpieces.after_line hsplit with rfl | ⟨rest, rfl⟩
    · simp [later, segmentsFrom] at hx
    · have hnewline : byteLength Piece.newline.text = 1 := rfl
      simp only [later, segmentsFrom] at hx
      have hge := le_textStart_of_mem hx
      simp only [decide_eq_false_iff_not]
      omega
  have hseg : decide (seg.textStart ≤ offset) = true := decide_eq_true hfrom
  have htake : s.segments.takeWhile (fun x => decide (x.textStart ≤ offset)) =
      segmentsFrom 0 before ++ [seg] := by
    rw [hsegments, List.takeWhile_append_of_pos hbefore]
    cases hcases : later with
    | nil => simp only [List.takeWhile_cons, List.takeWhile_nil, hseg, if_true]
    | cons x rest =>
        have hx := hlater x (by simp [hcases])
        simp only [List.takeWhile_cons, hseg, hx, if_true, Bool.false_eq_true,
          if_false]
  refine ⟨?_, by simp [hsegments, seg, start]⟩
  rw [segmentIndex?, htake, List.length_append]
  rfl

/-- A part of a line's text, of at least one character, is traced back to its
place in the line. -/
theorem sourceSpan_inside_line {s : Statement} {before after : List Piece}
    {line : Line} (hpieces : Separated s.pieces)
    (hsplit : s.pieces = before ++ .line line :: after)
    {left part right : List Char} (hpart : part ≠ [])
    (htrimmed : line.trimmed = left ++ part ++ right) :
    s.sourceSpan
        ⟨byteLength (before.flatMap Piece.text) + byteLength left,
          byteLength (before.flatMap Piece.text) + byteLength left +
            byteLength part⟩ =
      ⟨line.trimmedStart + byteLength left,
        line.trimmedStart + byteLength left + byteLength part⟩ := by
  have hpos : 0 < byteLength part := byteLength_pos hpart
  have hbytes : byteLength line.trimmed =
      byteLength left + byteLength part + byteLength right := by
    rw [htrimmed, byteLength_append, byteLength_append]
  obtain ⟨hstart, hsegment⟩ := segmentIndex?_line hpieces hsplit
    (byteLength (before.flatMap Piece.text) + byteLength left) (by omega)
    (by omega)
  obtain ⟨hstop, -⟩ := segmentIndex?_line hpieces hsplit
    (byteLength (before.flatMap Piece.text) + byteLength left +
      byteLength part - 1)
    (by omega) (by omega)
  simp only [sourceSpan, hstart, hsegment, hstop, if_true, Segment.toSource,
    Segment.sourceStop, Span.mk.injEq]
  omega

/-- In a statement that begins with a line every offset has a segment. -/
theorem exists_segment {s : Statement} {first : Line} {rest : List Piece}
    (hopens : s.pieces = .line first :: rest) (offset : Nat) :
    ∃ n seg, s.segmentIndex? offset = some n ∧ s.segments[n]? = some seg := by
  let early := s.segments.takeWhile fun seg => decide (seg.textStart ≤ offset)
  have hprefix : early <+: s.segments := List.takeWhile_prefix _
  obtain ⟨n, hn⟩ : ∃ n, early.length = n + 1 := by
    simp only [early, segments, hopens, segmentsFrom, List.takeWhile_cons,
      Nat.zero_le, decide_true, if_true, List.length_cons]
    exact ⟨_, rfl⟩
  have hindex : s.segmentIndex? offset = some n := by
    rw [segmentIndex?, show (s.segments.takeWhile _).length = n + 1 from hn]
  have hlength := hprefix.length_le
  exact ⟨n, s.segments[n], hindex, List.getElem?_eq_getElem (by omega)⟩

/-- Whatever is traced back falls within one line, without the white space
around it. -/
theorem sourceSpan_within_line {s : Statement} {first : Line}
    {rest : List Piece} (hopens : s.pieces = .line first :: rest)
    (span : Span) :
    ∃ line, .line line ∈ s.pieces ∧
      line.trimmedStart ≤ (s.sourceSpan span).start ∧
      (s.sourceSpan span).start ≤ (s.sourceSpan span).stop ∧
      (s.sourceSpan span).stop ≤
        line.trimmedStart + byteLength line.trimmed := by
  obtain ⟨n, seg, hindex, hseg⟩ := exists_segment hopens span.start
  obtain ⟨before, line, after, hsplit, rfl⟩ :=
    mem_segmentsFrom (List.mem_of_getElem? hseg)
  refine ⟨line, by simp [hsplit], ?_⟩
  simp only [sourceSpan, hindex, hseg, Segment.toSource, Segment.sourceStop]
  split <;> omega

end Statement

/-- The source holds a line where the line says it stands. -/
theorem Line.StandsIn.slice? {source : List Char} {line : Line}
    (hline : line.StandsIn (rawLines source)) {left part right : List Char}
    (htrimmed : line.trimmed = left ++ part ++ right) :
    Text.slice? (line.trimmedStart + byteLength left)
      (line.trimmedStart + byteLength left + byteLength part) source =
        some part := by
  obtain ⟨before, raw, after, hraws, rfl⟩ := hline
  obtain ⟨ending, hraw⟩ := stripEnding_prefix raw
  obtain ⟨blanks, htext⟩ := trim_split (stripEnding raw)
  let blank := (stripEnding raw).takeWhile Text.isBlank
  have hsource : source = (before.flatten ++ blank ++ left) ++ part ++
      (right ++ blanks ++ ending ++ after.flatten) := by
    calc source = (rawLines source).flatten := (flatten_rawLines source).symm
      _ = before.flatten ++ raw ++ after.flatten := by simp [hraws]
      _ = before.flatten ++ (blank ++ (left ++ part ++ right) ++ blanks ++
            ending) ++ after.flatten := by
          rw [← htrimmed, Line.trimmed, ← htext, ← hraw]
      _ = _ := by simp
  have hslice := slice?_append (before.flatten ++ blank ++ left) part
    (right ++ blanks ++ ending ++ after.flatten)
  rw [← hsource, byteLength_append, byteLength_append] at hslice
  exact hslice

/-- Where folding put marks of blocks into the text of pieces. -/
def Statement.blockMarksFrom (offset : Nat) : List Piece → List Nat
  | [] => []
  | piece :: rest =>
    let next := blockMarksFrom (offset + byteLength piece.text) rest
    match piece with
    | .indent | .dedent => offset :: next
    | _ => next

def Statement.blockMarks (s : Statement) : List Nat :=
  blockMarksFrom 0 s.pieces

theorem Statement.mem_blockMarksFrom {mark : Piece}
    (hmark : mark.IsBlockMark) (offset : Nat) (before after : List Piece) :
    offset + byteLength (before.flatMap Piece.text) ∈
      blockMarksFrom offset (before ++ mark :: after) := by
  induction before generalizing offset with
  | nil => rcases hmark with rfl | rfl <;> simp [blockMarksFrom]
  | cons piece before ih =>
      have hlater := ih (offset + byteLength piece.text)
      rw [List.flatMap_cons, byteLength_append, ← Nat.add_assoc]
      cases piece with
      | line line => exact hlater
      | newline => exact hlater
      | indent => exact List.mem_cons_of_mem _ hlater
      | dedent => exact List.mem_cons_of_mem _ hlater

/-- A token of a statement that is neither a newline nor a mark put there by
folding is a part of one of its lines. -/
theorem Separated.token_inside_line {s : Statement}
    (hpieces : Separated s.pieces) {token : Token}
    (htoken : token ∈ (lex s.text).tokens) (hnewline : token.kind ≠ .newline)
    (hfinish : token.kind ≠ .finish) (hmark : token.span.start ∉ s.blockMarks) :
    ∃ before line after left part right,
      s.pieces = before ++ .line line :: after ∧ part ≠ [] ∧
      line.trimmed = left ++ part ++ right ∧
      token.span =
        ⟨byteLength (before.flatMap Piece.text) + byteLength left,
          byteLength (before.flatMap Piece.text) + byteLength left +
            byteLength part⟩ := by
  simp only [lex, List.mem_append, List.mem_map, List.mem_singleton] at htoken
  rcases htoken with ⟨lexeme, hlexeme, rfl⟩ | rfl
  · rw [Statement.text, hpieces.scan_text] at hlexeme
    obtain ⟨before, piece, after, hsplit, hlexeme⟩ := mem_scanPieces hlexeme
    rw [Nat.zero_add] at hlexeme
    have hspan : lexeme.token.span = lexeme.span := by
      unfold Lexeme.token
      split <;> rfl
    have hmarked : piece.IsBlockMark →
        lexeme.token.span.start ∈ s.blockMarks := by
      intro hpiece
      rw [hspan, start_of_mem_scan_blockMark hpiece hlexeme,
        Statement.blockMarks, hsplit]
      simpa using Statement.mem_blockMarksFrom hpiece 0 before after
    cases piece with
    | line line =>
        obtain ⟨left, part, right, htrimmed, hpart, hat⟩ := mem_scan hlexeme
        exact ⟨before, line, after, left, part, right, hsplit, hpart, htrimmed,
          hspan.trans hat⟩
    | newline =>
        simp only [Piece.text, scan_mark (show '\n' ∈ _ by decide), scan_nil,
          List.mem_singleton] at hlexeme
        subst hlexeme
        exact absurd rfl hnewline
    | indent => exact absurd (hmarked (.inl rfl)) hmark
    | dedent => exact absurd (hmarked (.inr rfl)) hmark
  · exact absurd rfl hfinish

/-- However much of a source is read, every statement can be traced back to it:
the source holds the bytes of each token where the token is traced back to, and
every span falls within one folded line, without the white space around it. -/
theorem Statement.sourceSpan_faithful {source : List Char} {n : Nat}
    {s : Statement} {after : Reader}
    (hs : (.ok s, after) ∈ Reader.fresh.readUpTo n (RawLine.ofText source)) :
    (∀ token ∈ (lex s.text).tokens, token.kind ≠ .newline →
      token.kind ≠ .finish → token.span.start ∉ s.blockMarks →
      ∃ characters, characters ≠ [] ∧
        slice? token.span.start token.span.stop s.text = some characters ∧
        slice? (s.sourceSpan token.span).start (s.sourceSpan token.span).stop
          source = some characters) ∧
    ∀ span : Span, ∃ line, .line line ∈ s.pieces ∧
      line.StandsIn (rawLines source) ∧
      line.trimmedStart ≤ (s.sourceSpan span).start ∧
      (s.sourceSpan span).start ≤ (s.sourceSpan span).stop ∧
      (s.sourceSpan span).stop ≤
        line.trimmedStart + byteLength line.trimmed := by
  obtain ⟨hlines, first, rest, hopens⟩ := (Reader.At.fresh source).readUpTo hs
  constructor
  · intro token htoken hnewline hfinish hmark
    obtain ⟨before, line, after, left, part, right, hsplit, hpart, htrimmed,
      hspan⟩ := hlines.separated.token_inside_line htoken hnewline hfinish hmark
    have hline := hlines.stands line (by simp [hsplit])
    have htext : s.text = (before.flatMap Piece.text ++ left) ++ part ++
        (right ++ after.flatMap Piece.text) := by
      simp [Statement.text, hsplit, Piece.text, htrimmed]
    refine ⟨part, hpart, ?_, ?_⟩
    · rw [hspan, htext, ← byteLength_append]
      exact slice?_append _ _ _
    · rw [hspan, sourceSpan_inside_line hlines.separated hsplit hpart htrimmed]
      exact hline.slice? htrimmed
  · intro span
    obtain ⟨line, hmem, hwithin⟩ := sourceSpan_within_line hopens span
    exact ⟨line, hmem, hlines.stands line hmem, hwithin⟩

/-- The one line of a block, with white space before it, after a line that ends
in two characters. -/
theorem Statement.sourceSpan_faithful_block :
    let source := ['a', ':', '\r', '\n', ' ', 'é', '.']
    let s : Statement := ⟨1, [.line ⟨['a', ':'], 0, 1⟩, .newline, .indent,
      .line ⟨[' ', 'é', '.'], 4, 2⟩, .newline, .dedent]⟩
    (.ok s, ⟨none, 8, 2, [[' ', 'é', '.'], ['a', ':', '\r', '\n']]⟩) ∈
      Reader.fresh.readUpTo 1 (RawLine.ofText source) ∧
    (∃ characters, characters ≠ [] ∧ slice? 4 6 s.text = some characters ∧
      slice? (s.sourceSpan ⟨4, 6⟩).start (s.sourceSpan ⟨4, 6⟩).stop source =
        some characters) ∧
    ∃ line, .line line ∈ s.pieces ∧ line.StandsIn (rawLines source) ∧
      line.trimmedStart ≤ (s.sourceSpan ⟨1, 7⟩).start := by
  intro source s
  have hs : (.ok s, ⟨none, 8, 2, [[' ', 'é', '.'], ['a', ':', '\r', '\n']]⟩) ∈
      Reader.fresh.readUpTo 1 (RawLine.ofText source) :=
    List.mem_singleton.2 rfl
  have htoken : (lex s.text).tokens[4]? = some ⟨.unreadable, ⟨4, 6⟩⟩ := by
    with_unfolding_all rfl
  obtain ⟨htokens, hspans⟩ := Statement.sourceSpan_faithful hs
  refine ⟨hs, ?_, ?_⟩
  · exact htokens ⟨.unreadable, ⟨4, 6⟩⟩ (List.mem_of_getElem? htoken)
      (by simp) (by simp) (by decide)
  · obtain ⟨line, hline, hstands, hstart, -⟩ := hspans ⟨1, 7⟩
    exact ⟨line, hline, hstands, hstart⟩

end Prose.Layout
