import Mathlib.Data.List.TakeWhile
import Prose.Proofs.Layout.Folds
import Prose.Proofs.Text.RawLines
import Prose.Proofs.Token.Scanning

/-!
Programs inside a block. If every line of a program is indented by the same
blanks, and a line that opens a block is put before them, then all of it is read
as one statement: where the program went on with another statement, the block
goes on with another line. The text of the statement is that of the program's
own statements, one after the other.
-/

namespace Prose.Layout

open Text Lexer

/-! ### Lines -/

/-- A line with more blanks before it. -/
def nested (c : Char) (k : Nat) (line : List Char) : List Char :=
  List.replicate k c ++ line

/-- A line that is not blank and is indented with copies of one character. -/
structure IndentedBy (c : Char) (line : List Char) : Prop where
  filled : isBlankText line = false
  leading : ∀ d ∈ line.takeWhile isBlank, d = c

section Lines

variable {c : Char} (hc : c = ' ' ∨ c = '\t') (k : Nat)
include hc

theorem trimStart_nested (line : List Char) :
    trimStart (nested c k line) = trimStart line := by
  induction k with
  | zero => rfl
  | succ k ih =>
      rw [nested, List.replicate_succ, List.cons_append, trimStart,
        List.dropWhile_cons_of_pos (isBlank_of_space hc)]
      exact ih

omit hc in
theorem trimEnd_nested {line : List Char} (hline : isBlankText line = false) :
    trimEnd (nested c k line) = nested c k (trimEnd line) := by
  have hstop : line.reverse.dropWhile isBlank ≠ [] := by
    rw [Ne, List.dropWhile_eq_nil_iff]
    intro hall
    rw [isBlankText, List.all_eq_false] at hline
    obtain ⟨d, hd, hblank⟩ := hline
    exact hblank (hall d (List.mem_reverse.2 hd))
  rw [trimEnd, dropEndWhile, nested, List.reverse_append,
    dropWhile_append_of_stopped hstop, List.reverse_append,
    List.reverse_reverse]
  rfl

theorem trim_nested (line : List Char) :
    trim (nested c k line) = trim line := by
  rw [trim, trimStart_nested hc, trim]

omit hc in
theorem trimEnd_ne_nil {line : List Char} (hline : isBlankText line = false) :
    trimEnd line ≠ [] := by
  intro hnil
  rw [trimEnd, dropEndWhile, List.reverse_eq_nil_iff,
    List.dropWhile_eq_nil_iff] at hnil
  rw [isBlankText, List.all_eq_false] at hline
  obtain ⟨d, hd, hblank⟩ := hline
  exact hblank (hnil d (List.mem_reverse.2 hd))

omit hc in
theorem opensBlock_nested {line line' : Line}
    (hline : isBlankText line.text = false)
    (hline' : line'.text = nested c k line.text) :
    line'.opensBlock = line.opensBlock := by
  rw [Line.opensBlock, Line.opensBlock, hline', trimEnd_nested k hline, nested,
    List.getLast?_append_of_ne_nil _ (trimEnd_ne_nil hline)]

theorem startsOtherwise_nested {line line' : Line}
    (hline' : line'.text = nested c k line.text) :
    line'.startsOtherwise = line.startsOtherwise := by
  rw [Line.startsOtherwise, Line.startsOtherwise, hline', trimStart_nested hc]

omit hc in
theorem startsWith_nested (line indent : List Char) :
    startsWith (nested c k line) (nested c k indent) =
      startsWith line indent := by
  induction k with
  | zero => rfl
  | succ k ih =>
      rw [startsWith, nested, nested, List.replicate_succ, List.cons_append,
        List.cons_append, List.isPrefixOf, beq_self_eq_true, Bool.true_and]
      exact ih

omit hc in
theorem startsWith_replicate (line : List Char) :
    startsWith (nested c k line) (List.replicate k c) = true := by
  rw [startsWith, List.isPrefixOf_iff_prefix]
  exact List.prefix_append _ _

omit hc in
theorem takeWhile_nested (line : List Char) :
    (nested c k line).takeWhile (· == c) =
      nested c k (line.takeWhile (· == c)) := by
  rw [nested, List.takeWhile_append_of_pos (by simp)]
  rfl

theorem indentation?_nested {line' : Line} {line : List Char}
    (hline' : line'.text = nested c k line) (hk : 0 < k) :
    line'.indentation? = some (nested c k (line.takeWhile (· == c))) := by
  obtain ⟨n, rfl⟩ : ∃ n, k = n + 1 := ⟨k - 1, by omega⟩
  have hcons : line'.text = c :: (List.replicate n c ++ line) := by
    rw [hline', nested, List.replicate_succ, List.cons_append]
  rw [Line.indentation?, hcons]
  simp only [hc, if_true]
  rw [← hcons, hline', takeWhile_nested]

omit hc in
/-- Where a line is indented with one character, its indentation is all the
blanks before it. -/
theorem IndentedBy.indentation? {line : Line} (h : IndentedBy c line.text)
    {indent : List Char} (hindent : line.indentation? = some indent) :
    indent = line.text.takeWhile (· == c) := by
  obtain ⟨first, rest, htext, hfirst, hrun⟩ := Line.eq_of_indentation? hindent
  have hleading := h.leading first
  rw [htext, List.takeWhile_cons_of_pos (isBlank_of_space hfirst)] at hleading
  rw [hrun, hleading List.mem_cons_self]

end Lines

/-! ### Folding in a block -/

/-- Where the line belongs if all blocks are in one more. -/
def Place.nest (c : Char) (k : Nat) : Place → Place
  | inside closed blocks =>
    inside closed (blocks.map (nested c k) ++ [List.replicate k c])
  | alternative closed blocks =>
    alternative closed (blocks.map (nested c k) ++ [List.replicate k c])
  | after closed => inside closed [List.replicate k c]

theorem Place.nest_closeOne (c : Char) (k : Nat) (place : Place) :
    place.closeOne.nest c k = (place.nest c k).closeOne := by
  cases place <;> rfl

/-- The same state with all blocks in one more. -/
structure Folding.Nests (c : Char) (k : Nat) (f f' : Folding) : Prop where
  blocks : f'.blocks = f.blocks.map (nested c k) ++ [List.replicate k c]
  awaiting : (f.awaiting = .further ∧ f'.awaiting = .further) ∨
    ∃ opener opener', f.awaiting = .first opener ∧ f'.awaiting = .first opener'

/-- Folding between two statements of a block. -/
def Folding.between (c : Char) (k : Nat) : Folding :=
  ⟨.further, [List.replicate k c]⟩

section Folding

variable {c : Char} (hc : c = ' ' ∨ c = '\t') {k : Nat} {line line' : Line}
  (hline : IndentedBy c line.text) (hline' : line'.text = nested c k line.text)

include hc hline' in
theorem place_nested (blocks : List (List Char)) :
    line'.place (blocks.map (nested c k) ++ [List.replicate k c]) =
      (line.place blocks).nest c k := by
  induction blocks with
  | nil =>
      rw [List.map_nil, List.nil_append, Line.place, Line.place, hline',
        startsWith_replicate]
      rfl
  | cons indent blocks ih =>
      rw [List.map_cons, List.cons_append, Line.place, Line.place, hline',
        startsWith_nested, startsOtherwise_nested hc k hline']
      split
      · rfl
      · split
        · rfl
        · rw [ih, Place.nest_closeOne]

include hc hline' in
theorem text_ofLine_nested (marks : List Piece) :
    (marks ++ [Piece.line line', Piece.newline]).flatMap Piece.text =
      (marks ++ [Piece.line line, Piece.newline]).flatMap Piece.text := by
  simp [Piece.text, Line.trimmed, hline', trim_nested hc]

include hline hline' in
theorem Folding.nests_ofLine {blocks blocks' : List (List Char)}
    (hblocks : blocks' = blocks.map (nested c k) ++ [List.replicate k c]) :
    Nests c k ⟨if line.opensBlock then .first line else .further, blocks⟩
      ⟨if line'.opensBlock then .first line' else .further, blocks'⟩ := by
  refine ⟨hblocks, ?_⟩
  rw [opensBlock_nested k hline.filled hline']
  split
  · exact .inr ⟨line, line', rfl, rfl⟩
  · exact .inl ⟨rfl, rfl⟩

namespace Folding

variable {f f' : Folding}

include hc hline hline' in
/-- A line that goes with the statement does so in a block. -/
theorem Nests.step_extend (h : Nests c k f f') (hk : 0 < k)
    {pieces : List Piece} {next : Folding}
    (hstep : f.step line = .ok (.extend pieces next)) :
    ∃ pieces' next', f'.step line' = .ok (.extend pieces' next') ∧
      pieces'.flatMap Piece.text = pieces.flatMap Piece.text ∧
      Nests c k next next' := by
  rcases h.awaiting with ⟨hf, hf'⟩ | ⟨opener, opener', hf, hf'⟩
  · have hplace := place_nested hc hline' f.blocks
    rw [← h.blocks] at hplace
    simp only [step, hf] at hstep
    simp only [step, hf', hplace]
    split at hstep
    · next closed blocks hinside =>
        cases hstep
        rw [hinside]
        exact ⟨_, _, rfl, text_ofLine_nested hc hline' _,
          nests_ofLine hline hline' rfl⟩
    · next closed blocks halternative =>
        cases hstep
        rw [halternative]
        exact ⟨_, _, rfl, text_ofLine_nested hc hline' _,
          nests_ofLine hline hline' rfl⟩
    · cases hstep
  · simp only [step, hf] at hstep
    simp only [step, hf', indentation?_nested hc k hline' hk]
    split at hstep
    · cases hstep
    · next indent hindent =>
        cases hstep
        rw [← hline.indentation? hindent]
        refine ⟨_, _, rfl, text_ofLine_nested hc hline' _,
          nests_ofLine hline hline' ?_⟩
        rw [h.blocks]
        rfl

include hc hline' in
/-- A line after the statement is one more line of the block. -/
theorem Nests.step_complete (h : Nests c k f f') {pieces : List Piece}
    (hstep : f.step line = .ok (.complete pieces)) :
    f'.step line' = .ok (.ofLine pieces line' [List.replicate k c]) := by
  rcases h.awaiting with ⟨hf, hf'⟩ | ⟨opener, opener', hf, hf'⟩
  · have hplace := place_nested hc hline' f.blocks
    rw [← h.blocks] at hplace
    simp only [step, hf] at hstep
    simp only [step, hf', hplace]
    split at hstep
    · cases hstep
    · cases hstep
    · next closed hafter =>
        cases hstep
        rw [hafter]
        rfl
  · simp only [step, hf] at hstep
    split at hstep <;> cases hstep

theorem step_between {text : List Char}
    (hline' : line'.text = nested c k text) :
    (between c k).step line' =
      .ok (.ofLine [] line' [List.replicate k c]) := by
  simp only [step, between, Line.place, hline', startsWith_replicate, if_true]
  rfl

include hc in
/-- The lines of a statement are folded in a block as they are on their own; the
lines after it then go on with the block. -/
theorem folds_nested (hk : 0 < k) {r : Reader} {rest : List RawLine}
    {lines : List (List Char)} (hpending : r.pending = none)
    (hfaces : r.Faces rest lines) (hlines : ∀ line ∈ lines, IndentedBy c line)
    {pieces : List Piece} (hfold : (r.fold f rest).result = .ok pieces) :
    ∃ upcoming, upcoming <:+ lines ∧
      (r.fold f rest).reader.Faces (r.fold f rest).rest upcoming ∧
      ∀ f' more, Nests c k f f' →
        (between c k).Folds (upcoming.map (nested c k)) none more →
        f'.Folds (lines.map (nested c k)) none
          (pieces.flatMap Piece.text ++ more) := by
  induction lines generalizing r rest f pieces with
  | nil =>
      obtain rfl := hfaces.eq_nil hpending
      have hfinish : f.finish = .ok pieces := hfold
      refine ⟨[], List.suffix_rfl, hfaces, ?_⟩
      rintro f' more h ⟨last, hlast, rfl⟩
      cases hlast
      rcases h.awaiting with ⟨hf, hf'⟩ | ⟨opener, opener', hf, hf'⟩
      · rw [finish, hf] at hfinish
        cases hfinish
        refine ⟨closing f'.blocks.length, by rw [finish, hf'], ?_⟩
        simp only [text_closing, h.blocks, List.length_append, List.length_map,
          List.length_singleton, List.replicate_add]
        rfl
      · rw [finish, hf] at hfinish
        cases hfinish
  | cons first lines ih =>
      obtain ⟨raw, after, rfl, rfl, htaken, hafter⟩ := hfaces.take hpending
      have hfirst := hlines _ List.mem_cons_self
      have hothers : ∀ line ∈ lines, IndentedBy c line := fun line hline =>
        hlines line (List.mem_cons_of_mem _ hline)
      simp only [Reader.fold] at hfold ⊢
      cases hstep : f.step (r.take raw).1 with
      | error e =>
          rw [hstep] at hfold
          cases hfold
      | ok step =>
          cases step with
          | complete done =>
              rw [hstep] at hfold
              cases hfold
              refine ⟨_, List.suffix_rfl, hafter.keep htaken _, ?_⟩
              intro f' more h hmore line' hline'
              obtain ⟨_, next, others, hbetween, hothers, rfl⟩ :=
                hmore line' hline'
              rw [step_between hline'] at hbetween
              cases hbetween
              refine ⟨_, _, _, h.step_complete hc hline' hstep, hothers, ?_⟩
              simp
          | extend added next =>
              rw [hstep] at hfold
              obtain ⟨pieces, hpieces, rfl⟩ := map_eq_ok hfold
              obtain ⟨upcoming, hsuffix, hupcoming, hfolds⟩ :=
                ih htaken hafter hothers hpieces
              refine ⟨upcoming, hsuffix.trans (List.suffix_cons _ _), hupcoming,
                ?_⟩
              intro f' more h hmore line' hline'
              obtain ⟨pieces', next', hstep', htext, hnext⟩ :=
                h.step_extend hc hfirst hline' hk hstep
              refine ⟨pieces', next', _, hstep', hfolds next' more hnext hmore,
                ?_⟩
              rw [htext, List.flatMap_append, List.append_assoc]

end Folding

end Folding

/-! ### Statements in a block -/

/-- The text of a statement in a block, where a line ends in a newline. -/
def Statement.textInBlock (s : Statement) : List Char :=
  match s.pieces with
  | [_] => s.text ++ ['\n']
  | _ => s.text

namespace Reader

variable {c : Char} (hc : c = ' ' ∨ c = '\t') {k : Nat} (hk : 0 < k)
  {r : Reader} {rest : List RawLine} {lines : List (List Char)}

include hc in
theorem folds_between (line : Line) (hline : IndentedBy c line.text)
    {more : List Char}
    (hmore : ∀ line' : Line, line'.text = nested c k line.text →
      (⟨if line.opensBlock then .first line' else .further,
        [List.replicate k c]⟩ : Folding).Folds (lines.map (nested c k)) none
          more) :
    (Folding.between c k).Folds ((line.text :: lines).map (nested c k)) none
      (line.trimmed ++ '\n' :: more) := by
  rw [List.map_cons, Line.trimmed, ← trim_nested hc k,
    ← List.nil_append (trim _)]
  apply Folding.folds_cons
  · intro line' hline'
    exact ⟨[], Folding.step_between hline', rfl⟩
  · intro line' hline'
    rw [opensBlock_nested k hline.filled hline']
    exact hmore line' hline'

include hc hk in
/-- The statements of a program are the statements of a block. -/
theorem folds_statements {n : Nat} (hn : lines.length < n)
    (hfaces : r.Faces rest lines) (hlines : ∀ line ∈ lines, IndentedBy c line)
    {sts : List Statement}
    (hread : (r.readUpTo n rest).map (·.1) = sts.map .ok) :
    (Folding.between c k).Folds (lines.map (nested c k)) none
      (sts.flatMap Statement.textInBlock ++ [dedentMark]) := by
  induction n generalizing r rest lines sts with
  | zero => omega
  | succ n ih =>
      cases lines with
      | nil =>
          have hend := hfaces.next_nil
          simp only [readUpTo, hend, List.map_nil] at hread
          rw [List.map_eq_nil_iff.1 hread.symm]
          exact Folding.folds_finish _
      | cons first lines =>
          have hfirst := hlines _ List.mem_cons_self
          have hothers : ∀ line ∈ lines, IndentedBy c line := fun line hline =>
            hlines line (List.mem_cons_of_mem _ hline)
          rw [List.length_cons] at hn
          obtain ⟨line, r', rest', rfl, hpending, hrest, hnext⟩ :=
            hfaces.next hfirst.filled
          rw [readUpTo, hnext, statementFrom] at hread
          cases hopens : line.opensBlock with
          | false =>
              rw [hopens] at hread
              cases sts with
              | nil => cases hread
              | cons s sts =>
                  obtain ⟨hs, hsts⟩ := List.cons.inj hread
                  cases hs
                  have hmore := ih (by omega) hrest hothers hsts
                  have hline := folds_between hc line hfirst
                    fun line' hline' => by
                      rw [hopens]
                      exact hmore
                  simpa [Statement.textInBlock, Statement.text, Piece.text]
                    using hline
          | true =>
              rw [hopens] at hread
              simp only [if_true] at hread
              cases hfold : (fold (.ofOpener line) r' rest').result with
              | error e =>
                  rw [hfold] at hread
                  cases sts <;> cases hread
              | ok pieces =>
                  rw [hfold] at hread
                  cases sts with
                  | nil => cases hread
                  | cons s sts =>
                      obtain ⟨hs, hsts⟩ := List.cons.inj hread
                      cases hs
                      obtain ⟨upcoming, hsuffix, hupcoming, hfolds⟩ :=
                        Folding.folds_nested hc hk hpending hrest hothers hfold
                      have hlength := hsuffix.length_le
                      have hmore := ih (by omega) hupcoming
                        (fun other hother => hothers other
                          (hsuffix.subset hother)) hsts
                      have hline := folds_between hc line hfirst
                        fun line' hline' => by
                          rw [hopens]
                          exact hfolds _ _ ⟨rfl, .inr ⟨_, _, rfl, rfl⟩⟩ hmore
                      simpa [Statement.textInBlock, Statement.text, Piece.text]
                        using hline

end Reader

/-! ### How a statement in a block ends -/

/-- A text that ends in a newline and perhaps ends of blocks. -/
def EndsLine (text : List Char) : Prop :=
  ∃ front n, text = front ++ '\n' :: List.replicate n dedentMark

theorem EndsLine.append {text : List Char} (h : EndsLine text)
    (front : List Char) : EndsLine (front ++ text) := by
  obtain ⟨inner, n, rfl⟩ := h
  exact ⟨front ++ inner, n, by rw [List.append_assoc]⟩

theorem endsLine_fold {f : Folding} {r : Reader} {rest : List RawLine}
    {pieces : List Piece} (hfold : (r.fold f rest).result = .ok pieces) :
    EndsLine ('\n' :: pieces.flatMap Piece.text) := by
  have hclosing : ∀ n, EndsLine ('\n' :: (closing n).flatMap Piece.text) :=
    fun n => ⟨[], n, by rw [Folding.text_closing]; rfl⟩
  induction rest generalizing f r pieces with
  | nil =>
      obtain ⟨n, rfl⟩ := Folding.finish_ok hfold
      exact hclosing n
  | cons raw rest ih =>
      cases raw with
      | undecodable => cases hfold
      | text raw =>
          rw [Reader.fold] at hfold
          dsimp only at hfold
          split at hfold
          · cases hfold
          · next done hstep =>
              cases hfold
              obtain ⟨n, rfl⟩ := Folding.step_complete hstep
              exact hclosing n
          · next added next hstep =>
              obtain ⟨later, hlater, rfl⟩ := map_eq_ok hfold
              obtain ⟨marks, -, rfl⟩ := Folding.step_extend hstep
              have hends := (ih hlater).append
                ('\n' :: (marks ++ [Piece.line (r.take raw).1]).flatMap Piece.text)
              simpa [Piece.text] using hends

theorem Reader.endsLine_textInBlock {r : Reader} {rest : List RawLine}
    {n : Nat} {s : Statement} {after : Reader}
    (hs : (.ok s, after) ∈ r.readUpTo n rest) : EndsLine s.textInBlock := by
  obtain ⟨r', line, rest', hs⟩ := exists_statementFrom_of_mem_readUpTo hs
  unfold statementFrom at hs
  split at hs
  · obtain ⟨pieces, hpieces, heq⟩ := map_eq_ok hs
    cases heq
    have hends := (endsLine_fold hpieces).append line.trimmed
    simpa [Statement.textInBlock, Statement.text, Piece.text] using hends
  · cases hs
    refine ⟨line.trimmed, 0, ?_⟩
    simp [Statement.textInBlock, Statement.text, Piece.text]

/-! ### Sources -/

def truthOpener : List Char := "If true:".toList

/-- A program as the block of a branch that is always taken. -/
def nestedProgram (c : Char) (k : Nat) (source : List Char) : List Char :=
  truthOpener ++ '\n' :: (rawLines source).flatMap (nested c k)

section Sources

variable {c : Char} (hc : c = ' ' ∨ c = '\t') {k : Nat}
include hc

theorem not_mem_nested {line : List Char} (hline : '\n' ∉ line) :
    '\n' ∉ nested c k line := by
  rw [nested, List.mem_append, not_or]
  refine ⟨?_, hline⟩
  intro hmem
  have hfeed : '\n' = c := List.eq_of_mem_replicate hmem
  rcases hc with rfl | rfl <;> cases hfeed

theorem areRaw_nested {raws : List (List Char)} (h : AreRaw raws) :
    AreRaw (raws.map (nested c k)) := by
  induction h with
  | nil => exact .nil
  | last hne hline =>
      exact .last (List.append_ne_nil_of_right_ne_nil _ hne)
        (not_mem_nested hc hline)
  | cons hline hrest ih =>
      rw [List.map_cons, nested, ← List.append_assoc]
      exact .cons (not_mem_nested hc hline) ih

theorem rawLines_nestedProgram (source : List Char) :
    rawLines (nestedProgram c k source) =
      (truthOpener ++ ['\n']) :: (rawLines source).map (nested c k) := by
  have hopener : '\n' ∉ truthOpener := by decide
  have hraw : AreRaw ((rawLines source).map (nested c k)) :=
    areRaw_nested hc (areRaw_rawLines source)
  rw [nestedProgram, rawLines_append_lineFeed hopener, List.flatMap_def,
    hraw.rawLines_flatten]

theorem stripEnding_nested {raw : List Char}
    (hraw : '\n' ∉ raw ∨ ∃ line, raw = line ++ ['\n']) :
    stripEnding (nested c k raw) = nested c k (stripEnding raw) := by
  rcases hraw with hraw | ⟨line, rfl⟩
  · rw [stripEnding_of_not_mem hraw,
      stripEnding_of_not_mem (not_mem_nested hc hraw)]
  · rw [nested, ← List.append_assoc]
    by_cases hlast : line.getLast? = some '\r'
    · obtain ⟨front, rfl⟩ := List.getLast?_eq_some_iff.1 hlast
      rw [← List.append_assoc, List.append_assoc _ ['\r'],
        List.append_assoc _ ['\r'], List.singleton_append,
        stripEnding_append_carriageReturn, stripEnding_append_carriageReturn]
      rfl
    · have hnested : (List.replicate k c ++ line).getLast? ≠ some '\r' := by
        intro heq
        rw [List.getLast?_append] at heq
        cases hline : line.getLast? with
        | some last =>
            rw [hline] at heq hlast
            exact hlast heq
        | none =>
            rw [hline, Option.none_or] at heq
            have hmem := List.mem_of_getLast? heq
            have hreturn : '\r' = c := List.eq_of_mem_replicate hmem
            rcases hc with rfl | rfl <;> cases hreturn
      rw [stripEnding_append_lineFeed hnested, stripEnding_append_lineFeed hlast]
      rfl

/-- The lines of a program in a block are its own lines, indented further. -/
theorem lines_nestedProgram (source : List Char) :
    (rawLines (nestedProgram c k source)).map stripEnding =
      truthOpener :: ((rawLines source).map stripEnding).map (nested c k) := by
  have hopener : stripEnding (truthOpener ++ ['\n']) = truthOpener :=
    stripEnding_append_lineFeed (by decide)
  rw [rawLines_nestedProgram hc, List.map_cons, hopener, List.map_map,
    List.map_map]
  refine congrArg _ (List.map_congr_left ?_)
  intro raw hraw
  exact stripEnding_nested hc ((areRaw_rawLines source).ending hraw)

/-- A line that is not indented gives the block its indentation. -/
theorem folds_block (hk : 0 < k) {first : List Char}
    (hfirst : first.takeWhile (· == c) = []) {lines : List (List Char)}
    {text : List Char}
    (h : (Folding.between c k).Folds ((first :: lines).map (nested c k)) none
      text) (opener : Line) :
    (Folding.ofOpener opener).Folds ((first :: lines).map (nested c k)) none
      (indentMark :: text) := by
  intro line hline
  obtain ⟨pieces, next, more, hstep, hmore, rfl⟩ := h line hline
  have hindent := indentation?_nested hc k hline hk
  rw [hfirst, nested, List.append_nil] at hindent
  rw [Folding.step_between hline] at hstep
  cases hstep
  refine ⟨[.indent, .line line, .newline], _, more, ?_, hmore, rfl⟩
  simp only [Folding.step, Folding.ofOpener, hindent]
  rfl

omit hc in
theorem head?_of_lines {source first : List Char} {lines : List (List Char)}
    (hlines : (rawLines source).map stripEnding = first :: lines)
    (hfirst : first ≠ []) : source.head? = first.head? := by
  cases hraws : rawLines source with
  | nil =>
      rw [hraws] at hlines
      cases hlines
  | cons raw raws =>
      rw [hraws] at hlines
      obtain ⟨rfl, -⟩ := List.cons.inj hlines
      obtain ⟨ending, hraw⟩ := stripEnding_prefix raw
      obtain ⟨d, rest, hcons⟩ := List.exists_cons_of_ne_nil hfirst
      rw [hcons] at hraw
      have hsource : source = d :: (rest ++ ending ++ raws.flatten) := by
        calc source = raw ++ raws.flatten := by
              rw [← flatten_rawLines source, hraws, List.flatten_cons]
          _ = _ := by rw [hraw, List.cons_append, List.cons_append]
      rw [hsource, hcons]
      rfl

/-- A program whose first line is not indented is read as one statement if it
stands in a block, and the text is that of its own statements. -/
theorem readAll_nestedProgram (hk : 0 < k) {source : List Char}
    (hlines : ∀ line ∈ (rawLines source).map stripEnding, IndentedBy c line)
    (hfirst : ∀ d, source.head? = some d → isBlank d = false)
    {sts : List Statement}
    (hread : (Reader.readAll (RawLine.ofText source)).map (·.1) = sts.map .ok)
    (hsts : sts ≠ []) :
    ∃ s after,
      Reader.readAll (RawLine.ofText (nestedProgram c k source)) =
        [(.ok s, after)] ∧
      s.text = truthOpener ++ '\n' :: indentMark ::
        (sts.flatMap Statement.textInBlock ++ [dedentMark]) := by
  have hfaces := Reader.faces_fresh source
  have hnested := Reader.faces_fresh (nestedProgram c k source)
  have hlength : ((rawLines source).map stripEnding).length <
      (RawLine.ofText source).length + 1 := by
    rw [RawLine.ofText, List.length_map, List.length_map]
    exact Nat.lt_succ_self _
  have hbetween := Reader.folds_statements hc hk hlength hfaces hlines hread
  rw [lines_nestedProgram hc] at hnested
  cases hsource : (rawLines source).map stripEnding with
  | nil =>
      rw [hsource] at hfaces
      rw [Reader.readAll, Reader.readUpTo, hfaces.next_nil] at hread
      exact absurd (List.map_eq_nil_iff.1 hread.symm) hsts
  | cons first lines =>
      rw [hsource] at hbetween hnested hlines
      have hfilled := (hlines first List.mem_cons_self).filled
      obtain ⟨d, rest, rfl⟩ : ∃ d rest, first = d :: rest := by
        cases first with
        | nil => cases hfilled
        | cons d rest => exact ⟨d, rest, rfl⟩
      have hd : isBlank d = false :=
        hfirst d (head?_of_lines hsource (List.cons_ne_nil d rest))
      have hunindented : (d :: rest).takeWhile (· == c) = [] := by
        rw [List.takeWhile_cons_of_neg]
        intro heq
        rw [eq_of_beq heq, isBlank_of_space hc] at hd
        cases hd
      rw [← List.append_nil (List.map _ _)] at hnested
      obtain ⟨s, after, rest, hnext, htext, hrest⟩ :=
        hnested.next_block (by decide) (by decide)
          fun opener _ => folds_block hc hk hunindented hbetween opener
      refine ⟨s, after, ?_, htext⟩
      have hdone : ∀ n, after.readUpTo n rest = [] := by
        intro n
        cases n with
        | zero => rfl
        | succ n => simp only [Reader.readUpTo, hrest.next_nil]
      rw [Reader.readAll, Reader.readUpTo, hnext]
      simp only [hdone]

end Sources

end Prose.Layout
