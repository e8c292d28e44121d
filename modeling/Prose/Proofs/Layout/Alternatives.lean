import Prose.Proofs.Layout.Folds

/-!
Which block an `otherwise` line is attached to. Where a line begins is compared
with the blocks that are open, never with the lines that open them; so the line
is attached to the block that the line above it stands in, and ends this block
and no other. Whether it stands where the opener of that block does makes no
difference.
-/

namespace Prose.Layout

open Text

/-! ### Blocks among the pieces -/

/-- Pieces in which every block that begins also ends. -/
inductive Balanced : List Piece → Prop where
  | nil : Balanced []
  | line (line : Line) : Balanced [.line line]
  | newline : Balanced [.newline]
  | block {inside : List Piece} :
      Balanced inside → Balanced (.indent :: inside ++ [.dedent])
  | append {first second : List Piece} :
      Balanced first → Balanced second → Balanced (first ++ second)

theorem balanced_line (line : Line) : Balanced [.line line, .newline] :=
  .append (.line line) .newline

/-- The innermost block that pieces leave open: the line that opens it, its
first line, whose indentation is that of the block, and what stands in the block
after this line. -/
structure OpenBlock (pieces : List Piece) where
  earlier : List Piece
  opener : Line
  first : Line
  rest : List Piece
  indentation : List Char
  pieces_eq : pieces = earlier ++ [.line opener, .newline, .indent] ++
    .line first :: .newline :: rest
  opens : opener.opensBlock = true
  indented : first.indentation? = some indentation
  balanced : Balanced (.line first :: .newline :: rest)

/-- The pieces of a block so far. -/
def OpenBlock.inside {pieces : List Piece} (block : OpenBlock pieces) :
    List Piece :=
  .line block.first :: .newline :: block.rest

/-- The block after pieces that neither end it nor leave a further one open. -/
def OpenBlock.extend {pieces more : List Piece} (block : OpenBlock pieces)
    (hmore : Balanced more) : OpenBlock (pieces ++ more) where
  earlier := block.earlier
  opener := block.opener
  first := block.first
  rest := block.rest ++ more
  indentation := block.indentation
  pieces_eq := (congrArg (· ++ more) block.pieces_eq).trans (by simp)
  opens := block.opens
  indented := block.indented
  balanced := block.balanced.append hmore

/-- What pieces with an open block end in stands in this block, if it is no
more than a line. -/
theorem OpenBlock.inside_ends {pieces body : List Piece} {last : Line}
    (block : OpenBlock pieces) (hlast : pieces = body ++ [.line last, .newline]) :
    ∃ before, block.inside = before ++ [.line last, .newline] := by
  have hline : [.line last, .newline] <:+ pieces := ⟨body, hlast.symm⟩
  have hblock : block.inside <:+ pieces := ⟨_, block.pieces_eq.symm⟩
  have hlength : [Piece.line last, .newline].length ≤ block.inside.length := by
    simp [OpenBlock.inside]
  obtain ⟨before, hbefore⟩ :=
    List.suffix_of_suffix_length_le hline hblock hlength
  exact ⟨before, hbefore.symm⟩

/-- The blocks that pieces leave open are indented so, innermost first. -/
inductive LeavesOpen : List Piece → List (List Char) → Prop where
  | none {pieces : List Piece} : Balanced pieces → LeavesOpen pieces []
  | block {pieces : List Piece} {outer : List (List Char)}
      (block : OpenBlock pieces) :
      LeavesOpen (block.earlier ++ [.line block.opener, .newline]) outer →
      LeavesOpen pieces (block.indentation :: outer)

namespace LeavesOpen

variable {pieces more : List Piece} {blocks : List (List Char)}

theorem append (h : LeavesOpen pieces blocks) (hmore : Balanced more) :
    LeavesOpen (pieces ++ more) blocks := by
  cases h with
  | none hpieces => exact .none (hpieces.append hmore)
  | block block houter => exact .block (block.extend hmore) houter

/-- A mark ends the innermost block. -/
theorem dedent {indent : List Char} (h : LeavesOpen pieces (indent :: blocks)) :
    LeavesOpen (pieces ++ [.dedent]) blocks := by
  cases h with
  | block block houter =>
      have hclosed := houter.append block.balanced.block
      rw [block.pieces_eq]
      simpa using hclosed

theorem closing {inner : List (List Char)}
    (h : LeavesOpen pieces (inner ++ blocks)) :
    LeavesOpen (pieces ++ closing inner.length) blocks := by
  induction inner generalizing pieces with
  | nil => simpa [Layout.closing] using h
  | cons indent inner ih =>
      have hrest := ih h.dedent
      simpa [Layout.closing, List.replicate_succ] using hrest

end LeavesOpen

/-! ### Where a line is placed -/

section Placing

variable {line : Line} {blocks left : List (List Char)} {closed : Nat}

theorem startsWith_of_indentation? {indent : List Char}
    (hindent : line.indentation? = some indent) :
    startsWith line.text indent = true := by
  obtain ⟨c, rest, -, -, rfl⟩ := Line.eq_of_indentation? hindent
  rw [startsWith, List.isPrefixOf_iff_prefix]
  exact List.takeWhile_prefix _

theorem Place.closeOne_eq_inside {place : Place}
    (h : place.closeOne = .inside closed left) :
    ∃ n, closed = n + 1 ∧ place = .inside n left := by
  cases place <;> cases h
  exact ⟨_, rfl, rfl⟩

theorem Place.closeOne_eq_alternative {place : Place}
    (h : place.closeOne = .alternative closed left) :
    ∃ n, closed = n + 1 ∧ place = .alternative n left := by
  cases place <;> cases h
  exact ⟨_, rfl, rfl⟩

/-- A line that is placed inside a block begins with its indentation; an
`otherwise` line ends no block first. -/
theorem Line.place_eq_inside (h : line.place blocks = .inside closed left) :
    (∃ inner, blocks = inner ++ left ∧ inner.length = closed) ∧
    (∃ indent outer, left = indent :: outer ∧
      startsWith line.text indent = true) ∧
    (line.startsOtherwise = true → closed = 0) := by
  induction blocks generalizing closed with
  | nil => cases h
  | cons indent blocks ih =>
      rw [Line.place] at h
      split at h
      · next hstarts =>
          cases h
          exact ⟨⟨[], rfl, rfl⟩, ⟨indent, blocks, rfl, hstarts⟩, fun _ => rfl⟩
      · split at h
        · cases h
        · next hplain =>
            obtain ⟨n, rfl, hplace⟩ := Place.closeOne_eq_inside h
            obtain ⟨⟨inner, rfl, rfl⟩, hleft, -⟩ := ih hplace
            exact ⟨⟨indent :: inner, rfl, rfl⟩, hleft,
              fun hotherwise => absurd hotherwise hplain⟩

/-- An alternative is an `otherwise` line that ends the innermost block. -/
theorem Line.place_eq_alternative
    (h : line.place blocks = .alternative closed left) :
    closed = 1 ∧ line.startsOtherwise = true ∧ ∃ indent,
      blocks = indent :: left ∧ startsWith line.text indent = false := by
  induction blocks generalizing closed with
  | nil => cases h
  | cons indent blocks ih =>
      rw [Line.place] at h
      split at h
      · cases h
      · next hstarts =>
          split at h
          · next hotherwise =>
              cases h
              exact ⟨rfl, hotherwise, indent, rfl, by simpa using hstarts⟩
          · next hplain =>
              obtain ⟨n, rfl, hplace⟩ := Place.closeOne_eq_alternative h
              exact absurd (ih hplace).2.1 hplain

end Placing

/-! ### Attached clauses -/

/-- The clause ends the block that the line above it stands in: it does not
begin with the indentation of the block, while the line above, which opens no
block, does or is an attached clause itself. -/
def Attaches (before : List Piece) (clause : Line) : Prop :=
  ∃ (block : OpenBlock before) (above : List Piece) (last : Line),
    block.inside = above ++ [.line last, .newline] ∧
    last.opensBlock = false ∧
    (startsWith last.text block.indentation = true ∨
      last.startsOtherwise = true) ∧
    startsWith clause.text block.indentation = false

/-- Every `otherwise` line that comes right after the end of a block is
attached to this block. -/
def AllAttached (pieces : List Piece) : Prop :=
  ∀ before clause, before ++ [.dedent, .line clause] <+: pieces →
    clause.startsOtherwise = true → Attaches before clause

namespace AllAttached

variable {pieces : List Piece}

theorem concat {piece : Piece} (h : AllAttached pieces)
    (hpiece : ∀ line, piece ≠ .line line) : AllAttached (pieces ++ [piece]) := by
  intro before clause hprefix hclause
  rcases List.prefix_concat_iff.1 hprefix with heq | hprefix
  · have hlast := congrArg List.getLast? heq
    simp only [List.getLast?_append, List.getLast?_cons_cons,
      List.getLast?_singleton, Option.some_or, Option.some.injEq] at hlast
    exact absurd hlast.symm (hpiece clause)
  · exact h before clause hprefix hclause

theorem concat_line {line : Line} (h : AllAttached pieces)
    (hline : ∀ before, pieces = before ++ [.dedent] →
      line.startsOtherwise = true → Attaches before line) :
    AllAttached (pieces ++ [.line line]) := by
  intro before clause hprefix hclause
  rcases List.prefix_concat_iff.1 hprefix with heq | hprefix
  · rw [List.append_cons before] at heq
    obtain ⟨hpieces, hlast⟩ := List.append_inj' heq rfl
    cases hlast
    exact hline before hpieces.symm hclause
  · exact h before clause hprefix hclause

theorem closing (h : AllAttached pieces) (n : Nat) :
    AllAttached (pieces ++ closing n) := by
  induction n with
  | zero => simpa [Layout.closing] using h
  | succ n ih =>
      have hnext : AllAttached (pieces ++ Layout.closing n ++ [.dedent]) :=
        ih.concat (by simp)
      simpa [Layout.closing, List.replicate_succ'] using hnext

end AllAttached

/-! ### One line -/

/-- What holds of the pieces of a statement between two of its lines. -/
structure Tracks (pieces : List Piece) (f : Folding) : Prop where
  leavesOpen : LeavesOpen pieces f.blocks
  attached : AllAttached pieces
  ends : ∃ body last, pieces = body ++ [.line last, .newline] ∧
    f.awaiting = (if last.opensBlock then .first last else .further) ∧
    ∀ indent, f.blocks.head? = some indent →
      startsWith last.text indent = true ∨ last.startsOtherwise = true

namespace Tracks

variable {pieces marks added : List Piece} {f next : Folding} {line : Line}

/-- A line that is taken after marks is tracked if it is placed as a line in
the blocks that are left, or attached. -/
theorem extend {blocks : List (List Char)}
    (hopen : LeavesOpen (pieces ++ marks ++ [.line line, .newline]) blocks)
    (hattached : AllAttached (pieces ++ marks))
    (hclause : ∀ before, pieces ++ marks = before ++ [.dedent] →
      line.startsOtherwise = true → Attaches before line)
    (hhead : ∀ indent, blocks.head? = some indent →
      startsWith line.text indent = true ∨ line.startsOtherwise = true) :
    Tracks (pieces ++ (marks ++ [.line line, .newline]))
      ⟨if line.opensBlock then .first line else .further, blocks⟩ where
  leavesOpen := by rwa [← List.append_assoc]
  attached := by
    have hline : AllAttached (pieces ++ marks ++ [.line line] ++ [.newline]) :=
      (hattached.concat_line hclause).concat (by simp)
    simpa using hline
  ends := ⟨pieces ++ marks, line, by simp, rfl, hhead⟩

/-- The pieces end in a newline, so no block ends with them. -/
theorem ne_concat_dedent (h : Tracks pieces f) (before : List Piece) :
    pieces ≠ before ++ [.dedent] := by
  intro heq
  obtain ⟨body, last, hpieces, -, -⟩ := h.ends
  have hlast := congrArg List.getLast? (hpieces.symm.trans heq)
  simp at hlast

/-- The first line of a block opens it. -/
theorem first {opener : Line} {indent : List Char} (h : Tracks pieces f)
    (hawaiting : f.awaiting = .first opener)
    (hindent : line.indentation? = some indent) :
    Tracks (pieces ++ ([.indent] ++ [.line line, .newline]))
      ⟨if line.opensBlock then .first line else .further,
        indent :: f.blocks⟩ := by
  obtain ⟨body, last, rfl, hends, -⟩ := h.ends
  rw [hawaiting] at hends
  split at hends
  · next hopens =>
      cases hends
      let block : OpenBlock (body ++ [.line opener, .newline] ++ [.indent] ++
          [.line line, .newline]) :=
        { earlier := body, opener := opener, first := line, rest := []
          indentation := indent, pieces_eq := by simp, opens := hopens
          indented := hindent, balanced := balanced_line line }
      apply Tracks.extend
      · exact .block block h.leavesOpen
      · exact h.attached.concat (by simp)
      · intro before heq
        have hlast := congrArg List.getLast? heq
        simp at hlast
      · intro other hother
        cases hother
        exact .inl (startsWith_of_indentation? hindent)
  · cases hends

/-- A line inside a block ends the blocks further in. -/
theorem inside {closed : Nat} {left : List (List Char)} (h : Tracks pieces f)
    (hplace : line.place f.blocks = .inside closed left) :
    Tracks (pieces ++ (closing closed ++ [.line line, .newline]))
      ⟨if line.opensBlock then .first line else .further, left⟩ := by
  obtain ⟨⟨inner, hinner, rfl⟩, ⟨indent, outer, rfl, hstarts⟩, hzero⟩ :=
    Line.place_eq_inside hplace
  have hopen := h.leavesOpen
  rw [hinner] at hopen
  apply Tracks.extend
  · exact hopen.closing.append (balanced_line line)
  · exact h.attached.closing _
  · intro before heq hotherwise
    rw [hzero hotherwise, Layout.closing, List.replicate_zero,
      List.append_nil] at heq
    exact absurd heq (h.ne_concat_dedent before)
  · intro other hother
    cases hother
    exact .inl hstarts

/-- An alternative ends the innermost block, in which the line above it
stands. -/
theorem alternative {closed : Nat} {left : List (List Char)}
    (h : Tracks pieces f) (hawaiting : f.awaiting = .further)
    (hplace : line.place f.blocks = .alternative closed left) :
    Tracks (pieces ++ (closing closed ++ [.line line, .newline]))
      ⟨if line.opensBlock then .first line else .further, left⟩ := by
  obtain ⟨rfl, hotherwise, indent, hblocks, hnot⟩ :=
    Line.place_eq_alternative hplace
  have hopen := h.leavesOpen
  rw [hblocks] at hopen
  apply Tracks.extend
  · exact hopen.dedent.append (balanced_line line)
  · exact h.attached.closing 1
  · intro before heq _
    obtain ⟨rfl, -⟩ := List.append_inj' heq rfl
    obtain ⟨body, last, hpieces, hends, hhead⟩ := h.ends
    rw [hblocks] at hhead
    cases hopen with
    | block block _ =>
        obtain ⟨above, habove⟩ := block.inside_ends hpieces
        refine ⟨block, above, last, habove, ?_, hhead _ rfl, hnot⟩
        by_contra hopens
        rw [Bool.not_eq_false] at hopens
        rw [hawaiting, hopens] at hends
        cases hends
  · intro other hother
    exact .inr hotherwise

theorem step (h : Tracks pieces f)
    (hstep : f.step line = .ok (.extend added next)) :
    Tracks (pieces ++ added) next := by
  unfold Folding.step at hstep
  split at hstep
  · next opener hawaiting =>
      split at hstep
      · cases hstep
      · next indent hindent =>
          cases hstep
          exact h.first hawaiting hindent
  · next hawaiting =>
      split at hstep
      · next closed left hplace =>
          cases hstep
          exact h.inside hplace
      · next closed left hplace =>
          cases hstep
          exact h.alternative hawaiting hplace
      · cases hstep

end Tracks

/-! ### Whole statements -/

theorem allAttached_line (line : Line) : AllAttached [.line line] := by
  intro before clause hprefix _
  have hlength := hprefix.length_le
  simp at hlength

/-- A line that opens a block, at the beginning of a statement. -/
theorem tracks_ofOpener {line : Line} (hopens : line.opensBlock = true) :
    Tracks [.line line, .newline] (.ofOpener line) where
  leavesOpen := .none (balanced_line line)
  attached := (allAttached_line line).concat (by simp)
  ends := ⟨[], line, rfl, by rw [hopens]; rfl, nofun⟩

/-- Folding attaches every clause to the block that ends before it. -/
theorem Tracks.fold {pieces : List Piece} {f : Folding} (h : Tracks pieces f)
    {r : Reader} {rest : List RawLine} {more : List Piece}
    (hmore : (r.fold f rest).result = .ok more) :
    AllAttached (pieces ++ more) := by
  induction rest generalizing pieces f r more with
  | nil =>
      obtain ⟨n, rfl⟩ := Folding.finish_ok hmore
      exact h.attached.closing n
  | cons raw rest ih =>
      cases raw with
      | undecodable => cases hmore
      | text raw =>
          rw [Reader.fold] at hmore
          dsimp only at hmore
          split at hmore
          · cases hmore
          · next done hstep =>
              cases hmore
              obtain ⟨n, rfl⟩ := Folding.step_complete hstep
              exact h.attached.closing n
          · next added next hstep =>
              obtain ⟨later, hlater, rfl⟩ := map_eq_ok hmore
              rw [← List.append_assoc]
              exact ih (h.step hstep) hlater

namespace Reader

variable {r : Reader} {rest : List RawLine} {s : Statement}

theorem allAttached_statementFrom {line : Line}
    (hs : (r.statementFrom line rest).result = .ok (some s)) :
    AllAttached s.pieces := by
  unfold Reader.statementFrom at hs
  split at hs
  · next hopens =>
      obtain ⟨pieces, hpieces, heq⟩ := map_eq_ok hs
      cases heq
      exact (tracks_ofOpener hopens).fold hpieces
  · cases hs
    exact allAttached_line line

/-- However a source is read, an `otherwise` line that comes right after the end
of a block is attached to the block that the line above it stands in, ends no
other block, and does not begin with the indentation of that block. -/
theorem otherwise_ends_block_of_line_above {source : List RawLine} {n : Nat}
    {after : Reader} (hs : (.ok s, after) ∈ fresh.readUpTo n source)
    {before more : List Piece} {clause : Line}
    (hpieces : s.pieces = before ++ .dedent :: .line clause :: more)
    (hclause : clause.startsOtherwise = true) :
    ∃ (block : OpenBlock before) (above : List Piece) (last : Line),
      block.inside = above ++ [.line last, .newline] ∧
      last.opensBlock = false ∧
      (startsWith last.text block.indentation = true ∨
        last.startsOtherwise = true) ∧
      startsWith clause.text block.indentation = false := by
  obtain ⟨r', line, rest', hstatement⟩ :=
    exists_statementFrom_of_mem_readUpTo hs
  apply allAttached_statementFrom hstatement before clause _ hclause
  exact ⟨more, by rw [hpieces]; simp⟩

/-- A program whose `otherwise` is written where the outer `If` is, right after
a line of the inner one. -/
def outerClauseSource : List RawLine :=
  RawLine.ofText (String.toList
    "If a:\n  If b:\n    Print 1.\notherwise:\n  Print 2.\n")

def beforeOuterClause : List Piece :=
  [.line ⟨"If a:".toList, 0, 1⟩, .newline, .indent,
    .line ⟨"  If b:".toList, 6, 2⟩, .newline, .indent,
    .line ⟨"    Print 1.".toList, 14, 3⟩, .newline]

def outerClause : Line := ⟨"otherwise:".toList, 27, 4⟩

def outerClauseStatement : Statement :=
  ⟨1, beforeOuterClause ++ .dedent :: .line outerClause ::
    [.newline, .indent, .line ⟨"  Print 2.".toList, 38, 5⟩, .newline, .dedent,
      .dedent]⟩

def innerBlock : OpenBlock beforeOuterClause where
  earlier := [.line ⟨"If a:".toList, 0, 1⟩, .newline, .indent]
  opener := ⟨"  If b:".toList, 6, 2⟩
  first := ⟨"    Print 1.".toList, 14, 3⟩
  rest := []
  indentation := "    ".toList
  pieces_eq := rfl
  opens := by decide
  indented := by decide
  balanced := balanced_line _

theorem outerClauseStatement_mem_readAll :
    ∃ after, (.ok outerClauseStatement, after) ∈ readAll outerClauseSource :=
  ⟨_, List.mem_singleton.2 rfl⟩

/-- The clause is attached to the inner block although its leading white space
is that of the line that opens the outer one. -/
theorem otherwise_attached_across_indentation :
    (∃ after, (.ok outerClauseStatement, after) ∈ readAll outerClauseSource) ∧
    (∃ more, outerClauseStatement.pieces =
      beforeOuterClause ++ .dedent :: .line outerClause :: more) ∧
    outerClause.startsOtherwise = true ∧
    outerClause.text.takeWhile isBlank = [] ∧
    innerBlock.opener.text.takeWhile isBlank = "  ".toList :=
  ⟨outerClauseStatement_mem_readAll, ⟨_, rfl⟩, by decide, by decide, by decide⟩

theorem otherwise_ends_block_of_line_above_outer :
    ∃ (block : OpenBlock beforeOuterClause) (above : List Piece) (last : Line),
      block.inside = above ++ [.line last, .newline] ∧
      last.opensBlock = false ∧
      (startsWith last.text block.indentation = true ∨
        last.startsOtherwise = true) ∧
      startsWith outerClause.text block.indentation = false := by
  obtain ⟨after, hmem⟩ := outerClauseStatement_mem_readAll
  exact otherwise_ends_block_of_line_above hmem rfl (by decide)

end Reader

end Prose.Layout
