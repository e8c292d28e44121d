import Prose.Proofs.Layout.Alternatives
import Prose.Proofs.Layout.SourceMap

/-!
Tokens line by line. A newline ends every token that a line leaves open, also a
string literal that lacks its closing quotation mark, and the marks of blocks are
tokens by themselves. So a statement is cut into the tokens of its lines, as each
line is cut by itself, with one token for every newline and every mark between
them; and the marks pair off.
-/

namespace Prose

open Text

def Token.shift (t : Token) (n : Nat) : Token := { t with span := t.span.shift n }

def LexError.shift (e : LexError) (n : Nat) : LexError :=
  { e with span := e.span.shift n }

namespace Lexer

def Lexeme.shift (lexeme : Lexeme) (n : Nat) : Lexeme :=
  { lexeme with span := lexeme.span.shift n }

theorem Lexeme.token_shift (lexeme : Lexeme) (n : Nat) :
    (lexeme.shift n).token = lexeme.token.shift n := by
  obtain ⟨flaw | kind, span⟩ := lexeme <;> rfl

theorem Lexeme.error?_shift (lexeme : Lexeme) (n : Nat) :
    (lexeme.shift n).error? = lexeme.error?.map (·.shift n) := by
  obtain ⟨flaw | kind, span⟩ := lexeme <;> rfl

theorem scan_add (start n : Nat) (text : List Char) :
    scan (start + n) text = (scan start text).map (·.shift n) := by
  induction start, text using scan.induct with
  | case1 start => rw [scan_nil, scan_nil, List.map_nil]
  | case2 start c cs hgap ih =>
      rw [scan_gap hgap, scan_gap hgap, ← ih, Nat.add_right_comm]
  | case3 start c cs hgap cut stop ih =>
      rw [Bool.not_eq_true] at hgap
      rw [scan_token hgap, scan_token hgap, List.map_cons, ← ih,
        Nat.add_right_comm]
      rfl

/-- Where a text stands makes no difference to its tokens. -/
theorem scan_eq_map_shift (offset : Nat) (text : List Char) :
    scan offset text = (scan 0 text).map (·.shift offset) := by
  rw [← scan_add, Nat.zero_add]

end Lexer

namespace Layout

open Lexer

/-! ### What the pieces of a statement are like -/

namespace Reader

variable {r : Reader} {rest : List RawLine} {s : Statement}

/-- A newline stands after every line that is folded. -/
theorem separated_fold {f : Folding} {pieces : List Piece}
    (h : (r.fold f rest).result = .ok pieces) : Separated pieces := by
  have hclosing : ∀ n, Separated (closing n) := by
    intro n
    simpa using Separated.marks_append
      (fun _ => isBlockMark_of_mem_closing (n := n)) .nil
  induction rest generalizing r f pieces with
  | nil =>
      obtain ⟨n, rfl⟩ := Folding.finish_ok h
      exact hclosing n
  | cons raw rest ih =>
      cases raw with
      | undecodable => cases h
      | text raw =>
          rw [fold] at h
          dsimp only at h
          split at h
          · cases h
          · next done hstep =>
              cases h
              obtain ⟨n, rfl⟩ := Folding.step_complete hstep
              exact hclosing n
          · next added next hstep =>
              obtain ⟨more, hmore, rfl⟩ := map_eq_ok h
              obtain ⟨marks, hmarks, rfl⟩ := Folding.step_extend hstep
              rw [List.append_assoc]
              exact Separated.marks_append hmarks (.line _ (ih hmore))

theorem separated_statementFrom {line : Line}
    (h : (r.statementFrom line rest).result = .ok (some s)) :
    Separated s.pieces := by
  unfold statementFrom at h
  split at h
  · obtain ⟨pieces, hpieces, heq⟩ := map_eq_ok h
    cases heq
    exact .line line (separated_fold hpieces)
  · cases h
    exact .last line

end Reader

theorem Place.closeOne_eq_after {place : Place} {closed : Nat}
    (h : place.closeOne = .after closed) :
    ∃ n, closed = n + 1 ∧ place = .after n := by
  cases place <;> cases h
  exact ⟨_, rfl, rfl⟩

/-- A line after the statement closes all blocks that are open. -/
theorem Line.closed_of_place_eq_after {line : Line} {blocks : List (List Char)}
    {closed : Nat} (h : line.place blocks = .after closed) :
    closed = blocks.length := by
  induction blocks generalizing closed with
  | nil =>
      cases h
      rfl
  | cons indent blocks ih =>
      rw [place] at h
      split at h
      · cases h
      · split at h
        · cases h
        · obtain ⟨n, rfl, hplace⟩ := Place.closeOne_eq_after h
          rw [ih hplace, List.length_cons]

namespace Tracks

variable {pieces more : List Piece} {f : Folding}

/-- Nothing is open once all open blocks are closed. -/
theorem balanced_closing (h : Tracks pieces f) :
    Balanced (pieces ++ closing f.blocks.length) := by
  have hopen : LeavesOpen pieces (f.blocks ++ []) := by
    rw [List.append_nil]
    exact h.leavesOpen
  cases hopen.closing with
  | none hbalanced => exact hbalanced

/-- The blocks of a statement that has been folded have all been closed. -/
theorem balanced_fold (h : Tracks pieces f) {r : Reader} {rest : List RawLine}
    (hmore : (r.fold f rest).result = .ok more) : Balanced (pieces ++ more) := by
  induction rest generalizing pieces f r more with
  | nil =>
      change f.finish = .ok more at hmore
      unfold Folding.finish at hmore
      split at hmore
      · cases hmore
      · cases hmore
        exact h.balanced_closing
  | cons raw rest ih =>
      cases raw with
      | undecodable => cases hmore
      | text raw =>
          rw [Reader.fold] at hmore
          dsimp only at hmore
          split at hmore
          · cases hmore
          · next done hstep =>
              cases hmore
              unfold Folding.step at hstep
              split at hstep
              · split at hstep <;> cases hstep
              · split at hstep
                · cases hstep
                · cases hstep
                · next closed hplace =>
                    cases hstep
                    rw [Line.closed_of_place_eq_after hplace]
                    exact h.balanced_closing
          · next added next hstep =>
              obtain ⟨later, hlater, rfl⟩ := map_eq_ok hmore
              rw [← List.append_assoc]
              exact ih (h.step hstep) hlater

end Tracks

theorem Reader.balanced_statementFrom {r : Reader} {rest : List RawLine}
    {s : Statement} {line : Line}
    (h : (r.statementFrom line rest).result = .ok (some s)) :
    Balanced s.pieces := by
  unfold statementFrom at h
  split at h
  · next hopens =>
      obtain ⟨pieces, hpieces, heq⟩ := map_eq_ok h
      cases heq
      exact (tracks_ofOpener hopens).balanced_fold hpieces
  · cases h
    exact .line line

/-! ### Lexing piece by piece -/

/-- What a piece is cut into by itself: a line into its tokens, without the end
of the statement, and a newline or a mark into the token it stands for. -/
def Piece.lexed : Piece → Lexed
  | .line l => { lex l.trimmed with tokens := (lex l.trimmed).tokens.dropLast }
  | .newline => ⟨[⟨.newline, ⟨0, 1⟩⟩], []⟩
  | .indent => ⟨[⟨.indent, ⟨0, 1⟩⟩], []⟩
  | .dedent => ⟨[⟨.dedent, ⟨0, 1⟩⟩], []⟩

/-- The segment of a line whose text begins at the given offset. -/
def Piece.segmentAt? (offset : Nat) : Piece → Option Segment
  | .line l => some ⟨offset, l.trimmedStart, byteLength l.trimmed⟩
  | _ => none

/-- Pieces whose text begins at the given offset, each with its own offset. -/
def placedFrom (offset : Nat) : List Piece → List (Nat × Piece)
  | [] => []
  | piece :: rest =>
      (offset, piece) :: placedFrom (offset + byteLength piece.text) rest

/-- The pieces of a statement, each with its offset in the text. -/
def Statement.placed (s : Statement) : List (Nat × Piece) := placedFrom 0 s.pieces

theorem segmentsFrom_eq_filterMap (offset : Nat) (pieces : List Piece) :
    Statement.segmentsFrom offset pieces =
      (placedFrom offset pieces).filterMap fun p => p.2.segmentAt? p.1 := by
  induction pieces generalizing offset with
  | nil => rfl
  | cons piece rest ih =>
      cases piece <;>
        simp [Statement.segmentsFrom, placedFrom, Piece.segmentAt?, ih]

theorem Piece.lexed_eq (piece : Piece) :
    piece.lexed = ⟨(scan 0 piece.text).map (·.token),
      (scan 0 piece.text).filterMap (·.error?)⟩ := by
  cases piece with
  | line l => simp [lexed, lex, Piece.text]
  | newline | indent | dedent =>
      rw [Piece.text, scan_mark (by decide), scan_nil]
      rfl

theorem map_token_scanPieces (offset : Nat) (pieces : List Piece) :
    (scanPieces offset pieces).map (·.token) =
      (placedFrom offset pieces).flatMap fun p =>
        p.2.lexed.tokens.map (·.shift p.1) := by
  induction pieces generalizing offset with
  | nil => rfl
  | cons piece rest ih =>
      rw [scanPieces, List.map_append, ih, placedFrom, List.flatMap_cons,
        scan_eq_map_shift, Piece.lexed_eq]
      simp [Lexeme.token_shift]

theorem filterMap_error?_scanPieces (offset : Nat) (pieces : List Piece) :
    (scanPieces offset pieces).filterMap (·.error?) =
      (placedFrom offset pieces).flatMap fun p =>
        p.2.lexed.errors.map (·.shift p.1) := by
  induction pieces generalizing offset with
  | nil => rfl
  | cons piece rest ih =>
      rw [scanPieces, List.filterMap_append, ih, placedFrom, List.flatMap_cons,
        scan_eq_map_shift, Piece.lexed_eq]
      simp [Lexeme.error?_shift, List.filterMap_map, List.map_filterMap]

/-- Folding disturbs no token. However a reader gets to a statement, the statement
is cut into what its pieces are cut into by themselves, each moved to where the
piece stands, which for a line is where its segment begins, and then comes the end
of the statement; the errors are those of the lines. The marks of its blocks pair
off. -/
theorem Statement.lex_text_eq_pieces {r : Reader} {rest : List RawLine}
    {s : Statement} (hs : (r.next rest).result = .ok (some s)) :
    (lex s.text).tokens =
      (s.placed.flatMap fun p => p.2.lexed.tokens.map (·.shift p.1)) ++
        [⟨.finish, .point (byteLength s.text)⟩] ∧
    (lex s.text).errors =
      (s.placed.flatMap fun p => p.2.lexed.errors.map (·.shift p.1)) ∧
    s.segments = (s.placed.filterMap fun p => p.2.segmentAt? p.1) ∧
    Balanced s.pieces := by
  obtain ⟨r', line, rest', hfrom⟩ := Reader.exists_statementFrom_of_next hs
  have hscan : scan 0 s.text = scanPieces 0 s.pieces :=
    (Reader.separated_statementFrom hfrom).scan_text 0
  refine ⟨?_, ?_, segmentsFrom_eq_filterMap 0 s.pieces,
    Reader.balanced_statementFrom hfrom⟩
  · rw [lex, hscan, map_token_scanPieces]
    rfl
  · rw [lex, hscan, filterMap_error?_scanPieces]
    rfl

/-- A line of a block that holds the mark of the end of a block itself, and a
string literal that lacks its closing quotation mark. -/
theorem Statement.lex_text_eq_pieces_open_literal :
    let source := ['a', ':', '\n', ' ', '~', '"', 'b', '\n']
    let s : Statement := ⟨1, [.line ⟨['a', ':'], 0, 1⟩, .newline, .indent,
      .line ⟨[' ', '~', '"', 'b'], 3, 2⟩, .newline, .dedent]⟩
    (Reader.fresh.next (RawLine.ofText source)).result = .ok (some s) ∧
    (lex s.text).tokens.drop 4 = [⟨.dedent, ⟨4, 5⟩⟩, ⟨.unreadable, ⟨5, 7⟩⟩,
      ⟨.newline, ⟨7, 8⟩⟩, ⟨.dedent, ⟨8, 9⟩⟩, ⟨.finish, ⟨9, 9⟩⟩] ∧
    (lex s.text).errors = [⟨.unterminatedText, ⟨5, 7⟩⟩] ∧
    Balanced s.pieces := by
  intro source s
  have hs : (Reader.fresh.next (RawLine.ofText source)).result = .ok (some s) :=
    rfl
  obtain ⟨htokens, herrors, -, hbalanced⟩ := Statement.lex_text_eq_pieces hs
  refine ⟨hs, ?_, ?_, hbalanced⟩
  · rw [htokens]
    with_unfolding_all rfl
  · rw [herrors]
    with_unfolding_all rfl

end Layout

end Prose
