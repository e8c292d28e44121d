import Prose.Proofs.Layout.SourceLines

/-!
Folding, said in the texts of lines. What a folded line does depends on its
text alone, not on where it stands in the source; so a statement can be followed
line by line, with the text it comes to, whatever reader hands out the lines.
-/

namespace Prose.Layout

open Text

/-! ### Lines to come -/

/-- The lines that a reader hands out next are texts, without their endings. -/
def Reader.Faces (r : Reader) (rest : List RawLine) (lines : List (List Char)) :
    Prop :=
  ∃ raws : List (List Char), rest = raws.map .text ∧
    lines = (r.pending.map (·.text)).toList ++ raws.map stripEnding

namespace Reader

variable {r : Reader} {rest : List RawLine} {lines : List (List Char)}

theorem faces_fresh (source : List Char) :
    fresh.Faces (RawLine.ofText source) ((rawLines source).map stripEnding) :=
  ⟨rawLines source, rfl, rfl⟩

/-- Taking a line moves on to the lines after it. -/
theorem Faces.take {first : List Char} (hpending : r.pending = none)
    (h : r.Faces rest (first :: lines)) :
    ∃ raw after, rest = .text raw :: after ∧ (r.take raw).1.text = first ∧
      (r.take raw).2.pending = none ∧ (r.take raw).2.Faces after lines := by
  obtain ⟨raws, rfl, hlines⟩ := h
  rw [hpending] at hlines
  cases raws with
  | nil => cases hlines
  | cons raw raws =>
      obtain ⟨rfl, rfl⟩ := List.cons.inj hlines
      refine ⟨raw, raws.map .text, rfl, rfl, hpending, raws, rfl, ?_⟩
      change _ = (r.pending.map (·.text)).toList ++ _
      rw [hpending]
      rfl

theorem Faces.eq_nil (hpending : r.pending = none) (h : r.Faces rest []) :
    rest = [] := by
  obtain ⟨raws, rfl, hlines⟩ := h
  rw [hpending] at hlines
  rw [List.map_eq_nil_iff.1 hlines.symm, List.map_nil]

/-- A line that is kept back is handed out again. -/
theorem Faces.keep (hpending : r.pending = none) (h : r.Faces rest lines)
    (line : Line) :
    { r with pending := some line }.Faces rest (line.text :: lines) := by
  obtain ⟨raws, rfl, rfl⟩ := h
  refine ⟨raws, rfl, ?_⟩
  rw [hpending]
  rfl

end Reader

/-! ### Texts of statements -/

/-- Folding the lines makes a statement out of them, and the statement ends
there: at the end of the input, or before the line that comes next. The text is
what is added to the statement. -/
def Folding.Folds :
    Folding → List (List Char) → Option (List Char) → List Char → Prop
  | f, [], none, text =>
      ∃ pieces, f.finish = .ok pieces ∧ pieces.flatMap Piece.text = text
  | f, [], some next, text =>
      ∀ line : Line, line.text = next →
        ∃ pieces, f.step line = .ok (.complete pieces) ∧
          pieces.flatMap Piece.text = text
  | f, first :: rest, next, text =>
      ∀ line : Line, line.text = first →
        ∃ pieces after more, f.step line = .ok (.extend pieces after) ∧
          after.Folds rest next more ∧
          text = pieces.flatMap Piece.text ++ more

namespace Folding

theorem text_closing (n : Nat) :
    (closing n).flatMap Piece.text = List.replicate n Lexer.dedentMark := by
  induction n with
  | zero => rfl
  | succ n ih =>
      rw [closing, List.replicate_succ, List.flatMap_cons, List.replicate_succ]
      exact congrArg (Lexer.dedentMark :: ·) ih

/-- A reader that hands out the lines folds them so, and goes on with the lines
after the statement. -/
theorem Folds.fold {f : Folding} {lines upcoming : List (List Char)}
    {text : List Char} (h : f.Folds lines upcoming.head? text) {r : Reader}
    {rest : List RawLine} (hpending : r.pending = none)
    (hfaces : r.Faces rest (lines ++ upcoming)) :
    ∃ pieces r' rest', r.fold f rest = ⟨.ok pieces, r', rest'⟩ ∧
      pieces.flatMap Piece.text = text ∧ r'.Faces rest' upcoming := by
  induction lines generalizing f r rest text with
  | nil =>
      cases upcoming with
      | nil =>
          obtain ⟨pieces, hfinish, htext⟩ := h
          obtain rfl := hfaces.eq_nil hpending
          refine ⟨pieces, r, [], ?_, htext, hfaces⟩
          rw [Reader.fold, hfinish]
      | cons next upcoming =>
          obtain ⟨raw, after, rfl, rfl, hnone, hafter⟩ := hfaces.take hpending
          obtain ⟨pieces, hstep, htext⟩ := h _ rfl
          refine ⟨pieces, { (r.take raw).2 with pending := some (r.take raw).1 },
            _, ?_, htext, hafter.keep hnone _⟩
          simp only [Reader.fold, hstep]
  | cons first lines ih =>
      obtain ⟨raw, after, rfl, hfirst, htaken, hafter⟩ := hfaces.take hpending
      obtain ⟨pieces, next, more, hstep, hmore, rfl⟩ := h _ hfirst
      obtain ⟨others, r', rest', hfold, rfl, hrest⟩ := ih hmore htaken hafter
      refine ⟨pieces ++ others, r', rest', ?_, by simp, hrest⟩
      simp only [Reader.fold, hstep, hfold, Except.map]

/-- At the end of the input all open blocks are closed. -/
theorem folds_finish (blocks : List (List Char)) :
    (⟨.further, blocks⟩ : Folding).Folds [] none
      (List.replicate blocks.length Lexer.dedentMark) :=
  ⟨closing blocks.length, rfl, text_closing _⟩

/-- A line that is taken into the statement adds the marks before it, its own
text and a newline. -/
theorem folds_cons {f : Folding} {first : List Char} {rest : List (List Char)}
    {next : Option (List Char)} {marks more : List Char}
    {blocks : List (List Char)}
    (hstep : ∀ line : Line, line.text = first → ∃ pieces,
      f.step line = .ok (.ofLine pieces line blocks) ∧
        pieces.flatMap Piece.text = marks)
    (hrest : ∀ line : Line, line.text = first →
      (⟨if line.opensBlock then .first line else .further, blocks⟩ :
        Folding).Folds rest next more) :
    f.Folds (first :: rest) next (marks ++ trim first ++ '\n' :: more) := by
  intro line hline
  obtain ⟨pieces, htaken, rfl⟩ := hstep line hline
  refine ⟨pieces ++ [Piece.line line, Piece.newline],
    ⟨if line.opensBlock then .first line else .further, blocks⟩, more, htaken,
    hrest line hline, ?_⟩
  simp [Piece.text, Line.trimmed, hline]

end Folding

/-! ### Reading statements -/

namespace Reader

variable {r : Reader} {rest : List RawLine} {lines : List (List Char)}

/-- The next statement begins with the next line that is not blank. -/
theorem Faces.next {first : List Char} (h : r.Faces rest (first :: lines))
    (hfirst : isBlankText first = false) :
    ∃ (line : Line) (r' : Reader) (rest' : List RawLine),
      line.text = first ∧ r'.pending = none ∧ r'.Faces rest' lines ∧
        r.next rest = r'.statementFrom line rest' := by
  cases hpending : r.pending with
  | none =>
      obtain ⟨raw, after, rfl, hline, hnone, hafter⟩ := h.take hpending
      refine ⟨(r.take raw).1, (r.take raw).2, after, hline, hnone, hafter, ?_⟩
      have hblank : (r.take raw).1.isBlank = false := by
        rw [Line.isBlank, hline, hfirst]
      simp only [Reader.next, hpending, search, hblank]
      rfl
  | some line =>
      obtain ⟨raws, rfl, hlines⟩ := h
      rw [hpending] at hlines
      obtain ⟨rfl, rfl⟩ := List.cons.inj hlines
      refine ⟨line, { r with pending := none }, _, rfl, rfl, ⟨raws, rfl, rfl⟩,
        ?_⟩
      simp only [Reader.next, hpending, Line.isBlank, hfirst]
      rfl

theorem Faces.next_nil (h : r.Faces rest []) :
    (r.next rest).result = .ok none := by
  cases hpending : r.pending with
  | none =>
      obtain rfl := h.eq_nil hpending
      simp only [Reader.next, hpending, search]
  | some line =>
      obtain ⟨raws, -, hlines⟩ := h
      rw [hpending] at hlines
      cases hlines

/-- A line that opens no block is a statement of its own. -/
theorem Faces.next_line {first : List Char} (h : r.Faces rest (first :: lines))
    (hfirst : isBlankText first = false)
    (hopens : (trimEnd first).getLast? ≠ some Line.blockMark) :
    ∃ s r' rest', r.next rest = ⟨.ok (some s), r', rest'⟩ ∧
      s.text = trim first ∧ r'.Faces rest' lines := by
  obtain ⟨line, r', rest', rfl, -, hfaces, hnext⟩ := h.next hfirst
  refine ⟨⟨line.number, [.line line]⟩, r', rest', ?_, ?_, hfaces⟩
  · have hcloses : line.opensBlock = false := by
      rw [Line.opensBlock]
      exact beq_false_of_ne hopens
    rw [hnext, statementFrom, hcloses]
    rfl
  · simp [Statement.text, Piece.text, Line.trimmed]

/-- A line that opens a block is folded together with the lines that go with
it. -/
theorem Faces.next_block {first text : List Char}
    {upcoming : List (List Char)}
    (h : r.Faces rest (first :: (lines ++ upcoming)))
    (hfirst : isBlankText first = false)
    (hopens : (trimEnd first).getLast? = some Line.blockMark)
    (hfolds : ∀ opener : Line, opener.text = first →
      (Folding.ofOpener opener).Folds lines upcoming.head? text) :
    ∃ s r' rest', r.next rest = ⟨.ok (some s), r', rest'⟩ ∧
      s.text = trim first ++ '\n' :: text ∧ r'.Faces rest' upcoming := by
  obtain ⟨line, r', rest', rfl, hpending, hfaces, hnext⟩ := h.next hfirst
  obtain ⟨pieces, r'', rest'', hfold, rfl, hafter⟩ :=
    (hfolds line rfl).fold hpending hfaces
  refine ⟨⟨line.number, .line line :: .newline :: pieces⟩, r'', rest'', ?_, ?_,
    hafter⟩
  · have hblock : line.opensBlock = true := by
      rw [Line.opensBlock, hopens]
      rfl
    rw [hnext, statementFrom, hblock, if_pos rfl, hfold]
    rfl
  · simp [Statement.text, Piece.text, Line.trimmed]

variable {s : Statement}

/-- Every statement is read from a line that it begins with. -/
theorem exists_statementFrom_of_search
    (hs : (r.search rest).result = .ok (some s)) :
    ∃ r' line rest', (statementFrom r' line rest').result = .ok (some s) := by
  induction rest generalizing r with
  | nil => cases hs
  | cons raw rest ih =>
      cases raw with
      | undecodable => cases hs
      | text raw =>
          rw [Reader.search] at hs
          dsimp only at hs
          split at hs
          · exact ih hs
          · exact ⟨_, _, _, hs⟩

theorem exists_statementFrom_of_next
    (hs : (r.next rest).result = .ok (some s)) :
    ∃ r' line rest', (statementFrom r' line rest').result = .ok (some s) := by
  unfold Reader.next at hs
  split at hs
  · exact exists_statementFrom_of_search hs
  · dsimp only at hs
    split at hs
    · exact exists_statementFrom_of_search hs
    · exact ⟨_, _, _, hs⟩

theorem exists_statementFrom_of_mem_readUpTo {n : Nat} {after : Reader}
    (hs : (.ok s, after) ∈ r.readUpTo n rest) :
    ∃ r' line rest', (statementFrom r' line rest').result = .ok (some s) := by
  induction n generalizing r rest with
  | zero => cases hs
  | succ n ih =>
      unfold Reader.readUpTo at hs
      dsimp only at hs
      split at hs
      · cases hs
      · next first hfirst =>
          rcases List.mem_cons.1 hs with heq | hs
          · cases heq
            exact exists_statementFrom_of_next hfirst
          · exact ih hs
      · next e he =>
          rcases List.mem_cons.1 hs with heq | hs
          · cases heq
          · exact ih hs

end Reader

end Prose.Layout
