import Prose.Proofs.Layout.Folds
import Prose.Proofs.Text.RawLines

/-!
Properly indented programs. A program is a list of entries: lines, and groups of
a line that opens a block, the entries of the block, and perhaps a clause that
begins with `otherwise`. Every block is indented further than the line that
opens it, by as many blanks as it likes. Reading the program gives one statement
for each entry, and the statement is the entry with marks around its blocks.
-/

namespace Prose.Layout

open Text Lexer

/-! ### Programs as entries -/

/-- Whether a text is not empty and neither begins nor ends with white
space. -/
def isTrimmed (text : List Char) : Bool :=
  (text.head?.any fun c => !isBlank c) && text.getLast?.any fun c => !isBlank c

/-- What stands on a line after its indentation. -/
structure Content where
  text : List Char
  trimmed : isTrimmed text = true
  oneLine : '\n' ∉ text

namespace Content

def opens (content : Content) : Bool :=
  content.text.getLast? == some Line.blockMark

def isOtherwise (content : Content) : Bool :=
  lower (content.text.take Line.otherwiseWord.length) ==
    Line.otherwiseWord.toList

end Content

mutual

/-- A line, or a line with a block. -/
inductive Entry where
  | line (content : Content)
  | group (group : Group)

/-- A line that opens a block, by how much the block is indented further, the
entries of the block, and what follows it. -/
inductive Group where
  | mk (opener : Content) (width : Nat) (entries : List Entry) (clause : Clause)

/-- What belongs to a block and follows it. -/
inductive Clause where
  | none
  | line (content : Content)
  | group (group : Group)

end

/-- The line that opens the block of a group. -/
def Group.opener : Group → Content
  | mk opener _ _ _ => opener

/-- Whether an entry is a line without a block. -/
def Entry.isLine : Entry → Bool
  | line _ => true
  | group _ => false

/-- Whether nothing follows the block. -/
def Clause.isNone : Clause → Bool
  | none => true
  | _ => false

mutual

/-- Whether only the lines that open blocks end in a colon, only clauses begin
with `otherwise`, every block has an entry and is indented, and a block with a
clause after it ends in a line. -/
def Entry.isProper : Entry → Bool
  | .line content => !content.opens && !content.isOtherwise
  | .group g => !g.opener.isOtherwise && g.isProper

def Entry.areProper : List Entry → Bool
  | [] => true
  | entry :: entries => entry.isProper && Entry.areProper entries

def Group.isProper : Group → Bool
  | .mk opener width entries clause =>
    opener.opens && decide (0 < width) && !entries.isEmpty &&
    Entry.areProper entries &&
    (clause.isNone || entries.getLast?.any Entry.isLine) && clause.isProper

def Clause.isProper : Clause → Bool
  | .none => true
  | .line content => !content.opens && content.isOtherwise
  | .group g => g.opener.isOtherwise && g.isProper

end

/-! ### Programs as lines -/

/-- A line with its indentation. -/
def indented (c : Char) (depth : Nat) (content : Content) : List Char :=
  List.replicate depth c ++ content.text

mutual

/-- The lines of an entry, indented with copies of a character. -/
def Entry.lines (c : Char) (depth : Nat) : Entry → List (List Char)
  | .line content => [indented c depth content]
  | .group g => indented c depth g.opener :: g.linesAfter c depth

def Entry.linesOf (c : Char) (depth : Nat) : List Entry → List (List Char)
  | [] => []
  | entry :: entries => entry.lines c depth ++ Entry.linesOf c depth entries

def Group.linesAfter (c : Char) (depth : Nat) : Group → List (List Char)
  | .mk _ width entries clause =>
    Entry.linesOf c (depth + width) entries ++ clause.lines c depth

/-- The lines of a clause, which is indented as the first line of its group
is. -/
def Clause.lines (c : Char) (depth : Nat) : Clause → List (List Char)
  | .none => []
  | .line content => [indented c depth content]
  | .group g => indented c depth g.opener :: g.linesAfter c depth

end

/-- A program as a text in which every line ends in a line feed. -/
def Entry.source (c : Char) (entries : List Entry) : List Char :=
  (Entry.linesOf c 0 entries).flatMap (· ++ ['\n'])

mutual

/-- An entry of a block as it stands in a statement: each line ends in a line
feed, and each block stands between marks. -/
def Entry.flattened : Entry → List Char
  | .line content => content.text ++ ['\n']
  | .group g => g.opener.text ++ '\n' :: g.flattenedAfter

def Entry.flattenedAll : List Entry → List Char
  | [] => []
  | entry :: entries => entry.flattened ++ Entry.flattenedAll entries

def Group.flattenedAfter : Group → List Char
  | .mk _ _ entries clause =>
    indentMark :: (Entry.flattenedAll entries ++ dedentMark :: clause.flattened)

def Clause.flattened : Clause → List Char
  | .none => []
  | .line content => content.text ++ ['\n']
  | .group g => g.opener.text ++ '\n' :: g.flattenedAfter

end

/-- The statement that an entry of a program is: a line alone has no line feed
after it. -/
def Entry.statementText : Entry → List Char
  | .line content => content.text
  | .group g => (Entry.group g).flattened

/-! ### Indented lines -/

section Indentation

variable {c : Char} (hc : c = ' ' ∨ c = '\t')

theorem Content.text_eq_cons (content : Content) :
    ∃ first rest, content.text = first :: rest ∧ isBlank first = false := by
  have htrimmed := content.trimmed
  cases htext : content.text with
  | nil => simp [isTrimmed, htext] at htrimmed
  | cons first rest =>
      refine ⟨first, rest, rfl, ?_⟩
      simp only [isTrimmed, htext, List.head?_cons, Option.any_some,
        Bool.and_eq_true, Bool.not_eq_true'] at htrimmed
      exact htrimmed.1

theorem Content.reverse_text_eq_cons (content : Content) :
    ∃ last rest, content.text.reverse = last :: rest ∧
      isBlank last = false := by
  have htrimmed := content.trimmed
  rw [isTrimmed, ← List.head?_reverse] at htrimmed
  cases htext : content.text.reverse with
  | nil => simp [htext] at htrimmed
  | cons last rest =>
      refine ⟨last, rest, rfl, ?_⟩
      simp only [htext, List.head?_cons, Option.any_some, Bool.and_eq_true,
        Bool.not_eq_true'] at htrimmed
      exact htrimmed.2

include hc in
theorem trimStart_indented (depth : Nat) (content : Content) :
    trimStart (indented c depth content) = content.text := by
  obtain ⟨first, rest, htext, hfirst⟩ := content.text_eq_cons
  induction depth with
  | zero => simp [indented, trimStart, htext, hfirst]
  | succ depth ih =>
      rw [indented, List.replicate_succ, List.cons_append, trimStart,
        List.dropWhile_cons_of_pos (isBlank_of_space hc)]
      exact ih

theorem trimEnd_indented (depth : Nat) (content : Content) :
    trimEnd (indented c depth content) = indented c depth content := by
  obtain ⟨last, rest, htext, hlast⟩ := content.reverse_text_eq_cons
  have hdrop : (indented c depth content).reverse.dropWhile isBlank =
      (indented c depth content).reverse := by
    rw [indented, List.reverse_append, htext, List.cons_append,
      List.dropWhile_cons_of_neg (by simp [hlast])]
  rw [trimEnd, dropEndWhile, hdrop, List.reverse_reverse]

include hc in
theorem trim_indented (depth : Nat) (content : Content) :
    trim (indented c depth content) = content.text := by
  rw [trim, trimStart_indented hc]
  exact trimEnd_indented (c := c) 0 content

theorem isBlankText_indented (depth : Nat) (content : Content) :
    isBlankText (indented c depth content) = false := by
  obtain ⟨first, rest, htext, hfirst⟩ := content.text_eq_cons
  simp [isBlankText, indented, htext, hfirst]

theorem getLast?_indented (depth : Nat) (content : Content) :
    (indented c depth content).getLast? = content.text.getLast? := by
  obtain ⟨first, rest, htext, -⟩ := content.text_eq_cons
  rw [indented, List.getLast?_append, htext, List.getLast?_cons]
  rfl

theorem opensBlock_indented {line : Line} {depth : Nat} {content : Content}
    (hline : line.text = indented c depth content) :
    line.opensBlock = content.opens := by
  rw [Line.opensBlock, hline, trimEnd_indented, getLast?_indented]
  rfl

include hc in
theorem startsOtherwise_indented {line : Line} {depth : Nat}
    {content : Content} (hline : line.text = indented c depth content) :
    line.startsOtherwise = content.isOtherwise := by
  rw [Line.startsOtherwise, hline, trimStart_indented hc]
  rfl

include hc in
theorem head?_ne_of_content (content : Content) :
    content.text.head? ≠ some c := by
  obtain ⟨first, rest, htext, hfirst⟩ := content.text_eq_cons
  rw [htext, List.head?_cons, Ne, Option.some.injEq]
  rintro rfl
  rw [isBlank_of_space hc] at hfirst
  contradiction

include hc in
theorem indentation?_indented {line : Line} {depth : Nat} {content : Content}
    (hline : line.text = indented c depth content) (hdepth : 0 < depth) :
    line.indentation? = some (List.replicate depth c) := by
  obtain ⟨first, rest, htext, -⟩ := content.text_eq_cons
  have hne := head?_ne_of_content hc content
  have htake : (indented c depth content).takeWhile (· == c) =
      List.replicate depth c := by
    have hfirst : (first == c) = false := by
      simpa [htext] using hne
    rw [indented, List.takeWhile_append_of_pos (by simp), htext,
      List.takeWhile_cons_of_neg (by simp [hfirst]), List.append_nil]
  obtain ⟨n, rfl⟩ : ∃ n, depth = n + 1 := ⟨depth - 1, by omega⟩
  have hcons : line.text = c :: (List.replicate n c ++ content.text) := by
    rw [hline, indented, List.replicate_succ, List.cons_append]
  rw [Line.indentation?, hcons]
  simp only [hc, if_true]
  rw [← hcons, hline, htake]

include hc in
/-- A line continues the blocks that are indented no further than it is. -/
theorem startsWith_indented (depth width : Nat) (content : Content) :
    startsWith (indented c depth content) (List.replicate width c) =
      decide (width ≤ depth) := by
  have hne := head?_ne_of_content hc content
  obtain ⟨first, rest, htext, -⟩ := content.text_eq_cons
  induction width generalizing depth with
  | zero => simp [startsWith]
  | succ width ih =>
      cases depth with
      | zero =>
          have hfirst : (c == first) = false := by
            rw [htext, List.head?_cons] at hne
            exact beq_false_of_ne fun heq => hne (congrArg some heq.symm)
          simp only [startsWith, indented, htext, List.replicate_zero,
            List.nil_append, List.replicate_succ, List.isPrefixOf, hfirst,
            Bool.false_and]
          simp
      | succ depth =>
          have hstep := ih depth
          rw [startsWith, indented] at hstep
          simp [startsWith, indented, List.replicate_succ, hstep]

end Indentation

/-! ### Where a line belongs -/

/-- Blocks that are indented further than a line. -/
def Deeper (c : Char) (depth : Nat) (blocks : List (List Char)) : Prop :=
  ∀ indent ∈ blocks, ∃ width, depth < width ∧ indent = List.replicate width c

/-- A line of a given depth is taken into the given blocks, after marks with
the given text. -/
def Folding.Admits (f : Folding) (c : Char) (depth : Nat) (marks : List Char)
    (blocks : List (List Char)) : Prop :=
  ∀ (line : Line) (content : Content), line.text = indented c depth content →
    content.isOtherwise = false →
    ∃ pieces, f.step line = .ok (.ofLine pieces line blocks) ∧
      pieces.flatMap Piece.text = marks

section Places

variable {c : Char} (hc : c = ' ' ∨ c = '\t')
include hc

/-- A line closes a block that is indented further than it is. -/
theorem place_cons_deeper {line : Line} {depth width : Nat} {content : Content}
    (hline : line.text = indented c depth content)
    (hcontent : content.isOtherwise = false) (hwidth : depth < width)
    (blocks : List (List Char)) :
    line.place (List.replicate width c :: blocks) =
      (line.place blocks).closeOne := by
  have hnot : startsWith line.text (List.replicate width c) = false := by
    rw [hline, startsWith_indented hc]
    simpa using hwidth
  have hplain : line.startsOtherwise = false := by
    rw [startsOtherwise_indented hc hline, hcontent]
  rw [Line.place, hnot, hplain]
  rfl

theorem place_inside {line : Line} {depth : Nat} {content : Content}
    (hline : line.text = indented c depth content)
    (hcontent : content.isOtherwise = false) {inner : List (List Char)}
    (hinner : Deeper c depth inner) (blocks : List (List Char)) :
    line.place (inner ++ List.replicate depth c :: blocks) =
      .inside inner.length (List.replicate depth c :: blocks) := by
  induction inner with
  | nil =>
      have hstarts : startsWith line.text (List.replicate depth c) = true := by
        rw [hline, startsWith_indented hc]
        simp
      rw [List.nil_append, Line.place, hstarts]
      rfl
  | cons indent inner ih =>
      obtain ⟨width, hwidth, rfl⟩ := hinner indent List.mem_cons_self
      rw [List.cons_append, place_cons_deeper hc hline hcontent hwidth,
        ih fun other hother => hinner other (List.mem_cons_of_mem _ hother)]
      rfl

theorem place_after {line : Line} {depth : Nat} {content : Content}
    (hline : line.text = indented c depth content)
    (hcontent : content.isOtherwise = false) {inner : List (List Char)}
    (hinner : Deeper c depth inner) :
    line.place inner = .after inner.length := by
  induction inner with
  | nil => rfl
  | cons indent inner ih =>
      obtain ⟨width, hwidth, rfl⟩ := hinner indent List.mem_cons_self
      rw [place_cons_deeper hc hline hcontent hwidth,
        ih fun other hother => hinner other (List.mem_cons_of_mem _ hother)]
      rfl

theorem admits_first (opener : Line) {depth : Nat} (hdepth : 0 < depth)
    (blocks : List (List Char)) :
    (⟨.first opener, blocks⟩ : Folding).Admits c depth [indentMark]
      (List.replicate depth c :: blocks) := by
  intro line content hline _
  refine ⟨[.indent], ?_, rfl⟩
  simp only [Folding.step, indentation?_indented hc hline hdepth]

theorem admits_further {depth : Nat} {inner : List (List Char)}
    (hinner : Deeper c depth inner) (blocks : List (List Char)) :
    (⟨.further, inner ++ List.replicate depth c :: blocks⟩ : Folding).Admits c
      depth (List.replicate inner.length dedentMark)
      (List.replicate depth c :: blocks) := by
  intro line content hline hcontent
  refine ⟨closing inner.length, ?_, Folding.text_closing _⟩
  simp only [Folding.step, place_inside hc hline hcontent hinner]

/-- A clause that is not indented as its block is closes the block. -/
theorem step_clause {line : Line} {depth width : Nat} {content : Content}
    (hline : line.text = indented c depth content)
    (hcontent : content.isOtherwise = true) (hwidth : depth < width)
    (blocks : List (List Char)) :
    (⟨.further, List.replicate width c :: blocks⟩ : Folding).step line =
      .ok (.ofLine [.dedent] line blocks) := by
  have hnot : startsWith line.text (List.replicate width c) = false := by
    rw [hline, startsWith_indented hc]
    simpa using hwidth
  have hclause : line.startsOtherwise = true := by
    rw [startsOtherwise_indented hc hline, hcontent]
  have hplace : line.place (List.replicate width c :: blocks) =
      .alternative 1 blocks := by
    rw [Line.place, hnot, hclause]
    rfl
  simp only [Folding.step, hplace]
  rfl

end Places

/-! ### Entries are folded as they are flattened -/

theorem Deeper.nil (c : Char) (depth : Nat) : Deeper c depth [] := by
  intro indent hindent
  cases hindent

theorem Group.opens_of_isProper (g : Group) (hproper : g.isProper = true) :
    g.opener.opens = true := by
  obtain ⟨opener, width, entries, clause⟩ := g
  simp only [Group.isProper, Bool.and_eq_true] at hproper
  exact hproper.1.1.1.1.1

/-- Blocks deeper than the entries of a block, and the block itself, are deeper
than the line that opens it. -/
theorem Deeper.concat {c : Char} {depth width : Nat} (hwidth : 0 < width)
    {inner : List (List Char)} (hinner : Deeper c (depth + width) inner) :
    Deeper c depth (inner ++ [List.replicate (depth + width) c]) := by
  intro indent hindent
  rcases List.mem_append.1 hindent with hindent | hindent
  · obtain ⟨deep, hdeep, rfl⟩ := hinner indent hindent
    exact ⟨deep, by omega, rfl⟩
  · rw [List.mem_singleton.1 hindent]
    exact ⟨depth + width, by omega, rfl⟩

/-- What follows entries of a given depth closes the blocks they leave open and
goes on with the given text. If the last entry is a line, it leaves none. -/
def GoesOn (c : Char) (depth : Nat) (blocks : List (List Char))
    (endsInLine : Bool) (rest : List (List Char)) (next : Option (List Char))
    (more : List Char) : Prop :=
  ∀ inner, Deeper c depth inner → (endsInLine = true → inner = []) →
    (⟨.further, inner ++ blocks⟩ : Folding).Folds rest next
      (List.replicate inner.length dedentMark ++ more)

section Folded

variable {c : Char} (hc : c = ' ' ∨ c = '\t') {depth : Nat}
  {blocks rest : List (List Char)} {next : Option (List Char)}
  {marks more : List Char} {f : Folding}
include hc

/-- A line is taken with the marks before it, and what follows goes on. -/
theorem Folding.Admits.folds (hf : f.Admits c depth marks blocks)
    {content : Content} (hcontent : content.isOtherwise = false)
    (hrest : ∀ opener : Line,
      (⟨if content.opens then .first opener else .further, blocks⟩ :
        Folding).Folds rest next more) :
    f.Folds (indented c depth content :: rest) next
      (marks ++ content.text ++ '\n' :: more) := by
  rw [← trim_indented hc depth content]
  apply Folding.folds_cons
  · intro line hline
    exact hf line content hline hcontent
  · intro line hline
    rw [opensBlock_indented hline]
    exact hrest line

/-- A clause is taken after the mark that ends its block. -/
theorem folds_clause {width : Nat} (hwidth : depth < width) {content : Content}
    (hcontent : content.isOtherwise = true)
    (hrest : ∀ opener : Line,
      (⟨if content.opens then .first opener else .further, blocks⟩ :
        Folding).Folds rest next more) :
    (⟨.further, List.replicate width c :: blocks⟩ : Folding).Folds
      (indented c depth content :: rest) next
      ([dedentMark] ++ content.text ++ '\n' :: more) := by
  rw [← trim_indented hc depth content]
  apply Folding.folds_cons
  · intro line hline
    exact ⟨[.dedent], step_clause hc hline hcontent hwidth blocks, rfl⟩
  · intro line hline
    rw [opensBlock_indented hline]
    exact hrest line

mutual

theorem Entry.folds (entry : Entry) (hproper : entry.isProper = true)
    {f : Folding} {depth : Nat} {marks : List Char}
    {blocks : List (List Char)} (hf : f.Admits c depth marks blocks)
    {rest : List (List Char)} {next : Option (List Char)} {more : List Char}
    (hrest : GoesOn c depth blocks entry.isLine rest next more) :
    f.Folds (entry.lines c depth ++ rest) next
      (marks ++ (entry.flattened ++ more)) := by
  match entry with
  | .line content =>
      simp only [Entry.isProper, Bool.and_eq_true, Bool.not_eq_true'] at hproper
      have hline : f.Folds (indented c depth content :: rest) next
          (marks ++ content.text ++ '\n' :: more) := by
        apply hf.folds hc hproper.2
        intro opener
        rw [hproper.1]
        exact hrest [] (Deeper.nil c depth) fun _ => rfl
      simpa [Entry.lines, Entry.flattened] using hline
  | .group g =>
      simp only [Entry.isProper, Bool.and_eq_true, Bool.not_eq_true'] at hproper
      have hgroup : f.Folds
          (indented c depth g.opener :: (g.linesAfter c depth ++ rest)) next
          (marks ++ g.opener.text ++ '\n' :: (g.flattenedAfter ++ more)) := by
        apply hf.folds hc hproper.1
        intro opener
        rw [g.opens_of_isProper hproper.2]
        exact Group.folds g hproper.2 opener fun inner hinner =>
          hrest inner hinner nofun
      simpa [Entry.lines, Entry.flattened] using hgroup

theorem Entry.folds_all (entries : List Entry)
    (hproper : Entry.areProper entries = true) (hne : entries ≠ [])
    {f : Folding} {depth : Nat} {marks : List Char} {blocks : List (List Char)}
    (hf : f.Admits c depth marks (List.replicate depth c :: blocks))
    {rest : List (List Char)} {next : Option (List Char)} {more : List Char}
    (hrest : GoesOn c depth (List.replicate depth c :: blocks)
      (entries.getLast?.any Entry.isLine) rest next more) :
    f.Folds (Entry.linesOf c depth entries ++ rest) next
      (marks ++ (Entry.flattenedAll entries ++ more)) := by
  match entries with
  | [] => exact absurd rfl hne
  | [entry] =>
      simp only [Entry.areProper, Bool.and_true] at hproper
      have hentry := Entry.folds entry hproper hf hrest
      simpa [Entry.linesOf, Entry.flattenedAll] using hentry
  | entry :: second :: entries =>
      rw [Entry.areProper, Bool.and_eq_true] at hproper
      rw [List.getLast?_cons_cons] at hrest
      -- The line after the first entry closes the blocks that this leaves open.
      have hsecond : GoesOn c depth (List.replicate depth c :: blocks)
          entry.isLine (Entry.linesOf c depth (second :: entries) ++ rest) next
          (Entry.flattenedAll (second :: entries) ++ more) := by
        intro inner hinner _
        exact Entry.folds_all (second :: entries) hproper.2 (by simp)
          (admits_further hc hinner blocks) hrest
      rw [Entry.linesOf, Entry.flattenedAll, List.append_assoc,
        List.append_assoc]
      exact Entry.folds entry hproper.1 hf hsecond

/-- The block of a group and its clause, after the line that opens it. -/
theorem Group.folds (g : Group) (hproper : g.isProper = true) (opener : Line)
    {depth : Nat} {blocks rest : List (List Char)}
    {next : Option (List Char)} {more : List Char}
    (hrest : ∀ inner, Deeper c depth inner →
      (⟨.further, inner ++ blocks⟩ : Folding).Folds rest next
        (List.replicate inner.length dedentMark ++ more)) :
    (⟨.first opener, blocks⟩ : Folding).Folds (g.linesAfter c depth ++ rest)
      next (g.flattenedAfter ++ more) := by
  match g with
  | .mk first width entries clause =>
      simp only [Group.isProper, Bool.and_eq_true, decide_eq_true_eq,
        Bool.not_eq_true', Bool.or_eq_true] at hproper
      obtain ⟨⟨⟨⟨⟨-, hwidth⟩, hne⟩, hentries⟩, hlast⟩, hclause⟩ := hproper
      have hafter : GoesOn c (depth + width)
          (List.replicate (depth + width) c :: blocks)
          (entries.getLast?.any Entry.isLine) (clause.lines c depth ++ rest)
          next (dedentMark :: (clause.flattened ++ more)) := by
        intro inner hinner hline
        exact Clause.folds clause hclause hwidth hinner
          (fun hsome => hline (hlast.resolve_left (by simp [hsome]))) hrest
      have hblock := Entry.folds_all entries hentries
        (List.isEmpty_eq_false_iff.1 hne)
        (admits_first hc opener (by omega) blocks) hafter
      simpa [Group.linesAfter, Group.flattenedAfter] using hblock

/-- The end of a block and the clause after it. -/
theorem Clause.folds (clause : Clause) (hproper : clause.isProper = true)
    {depth width : Nat} (hwidth : 0 < width) {inner : List (List Char)}
    (hinner : Deeper c (depth + width) inner)
    (hnone : clause.isNone = false → inner = [])
    {blocks rest : List (List Char)} {next : Option (List Char)}
    {more : List Char}
    (hrest : ∀ inner, Deeper c depth inner →
      (⟨.further, inner ++ blocks⟩ : Folding).Folds rest next
        (List.replicate inner.length dedentMark ++ more)) :
    (⟨.further, inner ++ List.replicate (depth + width) c :: blocks⟩ :
      Folding).Folds (clause.lines c depth ++ rest) next
        (List.replicate inner.length dedentMark ++
          dedentMark :: (clause.flattened ++ more)) := by
  match clause with
  | .none =>
      have hblocks := hrest _ (hinner.concat hwidth)
      simpa [Clause.lines, Clause.flattened, List.replicate_succ'] using hblocks
  | .line content =>
      obtain rfl := hnone rfl
      simp only [Clause.isProper, Bool.and_eq_true, Bool.not_eq_true'] at hproper
      have hline : (⟨.further, List.replicate (depth + width) c :: blocks⟩ :
          Folding).Folds (indented c depth content :: rest) next
            ([dedentMark] ++ content.text ++ '\n' :: more) := by
        apply folds_clause hc (by omega) hproper.2
        intro opener
        rw [hproper.1]
        exact hrest [] (Deeper.nil c depth)
      simpa [Clause.lines, Clause.flattened] using hline
  | .group g =>
      obtain rfl := hnone rfl
      simp only [Clause.isProper, Bool.and_eq_true] at hproper
      have hgroup : (⟨.further, List.replicate (depth + width) c :: blocks⟩ :
          Folding).Folds
            (indented c depth g.opener :: (g.linesAfter c depth ++ rest)) next
            ([dedentMark] ++ g.opener.text ++
              '\n' :: (g.flattenedAfter ++ more)) := by
        apply folds_clause hc (by omega) hproper.1
        intro opener
        rw [g.opens_of_isProper hproper.2]
        exact Group.folds g hproper.2 opener hrest
      simpa [Clause.lines, Clause.flattened] using hgroup

end

end Folded

/-! ### Statements of a program -/

section Programs

variable {c : Char} (hc : c = ' ' ∨ c = '\t')

theorem Entry.lines_eq_cons {entry : Entry} (hproper : entry.isProper = true)
    (depth : Nat) :
    ∃ (content : Content) (rest : List (List Char)),
      entry.lines c depth = indented c depth content :: rest ∧
        content.isOtherwise = false := by
  cases entry with
  | line content =>
      simp only [Entry.isProper, Bool.and_eq_true, Bool.not_eq_true'] at hproper
      exact ⟨content, [], by rw [Entry.lines], hproper.2⟩
  | group g =>
      simp only [Entry.isProper, Bool.and_eq_true, Bool.not_eq_true'] at hproper
      exact ⟨g.opener, g.linesAfter c depth, by rw [Entry.lines], hproper.1⟩

theorem Entry.length_le_linesOf (entries : List Entry) (depth : Nat)
    (hproper : Entry.areProper entries = true) :
    entries.length ≤ (Entry.linesOf c depth entries).length := by
  induction entries with
  | nil => exact Nat.zero_le _
  | cons entry entries ih =>
      rw [Entry.areProper, Bool.and_eq_true] at hproper
      obtain ⟨content, rest, hlines, -⟩ :=
        Entry.lines_eq_cons (c := c) hproper.1 depth
      have hrest := ih hproper.2
      rw [Entry.linesOf, hlines, List.length_append, List.length_cons,
        List.length_cons]
      omega

include hc

/-- Before the next entry of a program, and at its end, the blocks that are
still open are closed. -/
theorem folds_next_entry (entries : List Entry)
    (hproper : Entry.areProper entries = true) {inner : List (List Char)}
    (hinner : Deeper c 0 inner) :
    (⟨.further, inner⟩ : Folding).Folds [] (Entry.linesOf c 0 entries).head?
      (List.replicate inner.length dedentMark) := by
  cases entries with
  | nil => exact Folding.folds_finish inner
  | cons entry entries =>
      rw [Entry.areProper, Bool.and_eq_true] at hproper
      obtain ⟨content, rest, hlines, hcontent⟩ :=
        Entry.lines_eq_cons (c := c) hproper.1 0
      rw [Entry.linesOf, hlines, List.cons_append, List.head?_cons]
      intro line hline
      refine ⟨closing inner.length, ?_, Folding.text_closing _⟩
      simp only [Folding.step, place_after hc hline hcontent hinner]

/-- The next statement is the next entry. -/
theorem Entry.next {entry : Entry} (hproper : entry.isProper = true)
    {entries : List Entry} (hentries : Entry.areProper entries = true)
    {r : Reader} {rest : List RawLine}
    (hfaces : r.Faces rest (Entry.linesOf c 0 (entry :: entries))) :
    ∃ s r' rest', r.next rest = ⟨.ok (some s), r', rest'⟩ ∧
      s.text = entry.statementText ∧
      r'.Faces rest' (Entry.linesOf c 0 entries) := by
  cases entry with
  | line content =>
      simp only [Entry.isProper, Bool.and_eq_true, Bool.not_eq_true'] at hproper
      rw [Entry.linesOf, Entry.lines, List.singleton_append] at hfaces
      have hopens : (trimEnd (indented c 0 content)).getLast? ≠
          some Line.blockMark := by
        rw [trimEnd_indented, getLast?_indented]
        exact ne_of_beq_false hproper.1
      obtain ⟨s, r', rest', hnext, htext, hrest⟩ :=
        hfaces.next_line (isBlankText_indented 0 content) hopens
      refine ⟨s, r', rest', hnext, ?_, hrest⟩
      rw [htext, trim_indented hc]
      rfl
  | group g =>
      simp only [Entry.isProper, Bool.and_eq_true, Bool.not_eq_true'] at hproper
      rw [Entry.linesOf, Entry.lines, List.cons_append] at hfaces
      have hopens : (trimEnd (indented c 0 g.opener)).getLast? =
          some Line.blockMark := by
        rw [trimEnd_indented, getLast?_indented]
        exact eq_of_beq (g.opens_of_isProper hproper.2)
      have hblock : ∀ opener : Line,
          (Folding.ofOpener opener).Folds (g.linesAfter c 0)
            (Entry.linesOf c 0 entries).head? g.flattenedAfter := by
        intro opener
        have hend : ∀ inner, Deeper c 0 inner →
            (⟨.further, inner ++ []⟩ : Folding).Folds []
              (Entry.linesOf c 0 entries).head?
              (List.replicate inner.length dedentMark ++ []) := by
          intro inner hinner
          rw [List.append_nil, List.append_nil]
          exact folds_next_entry hc entries hentries hinner
        have hfolds := Group.folds hc g hproper.2 opener hend
        rwa [List.append_nil, List.append_nil] at hfolds
      obtain ⟨s, r', rest', hnext, htext, hrest⟩ :=
        hfaces.next_block (isBlankText_indented 0 g.opener) hopens
          fun opener _ => hblock opener
      refine ⟨s, r', rest', hnext, ?_, hrest⟩
      rw [htext, trim_indented hc, Entry.statementText, Entry.flattened]

/-- Reading gives the entries one by one. -/
theorem Entry.readUpTo (entries : List Entry)
    (hproper : Entry.areProper entries = true) {n : Nat}
    (hn : entries.length < n) {r : Reader} {rest : List RawLine}
    (hfaces : r.Faces rest (Entry.linesOf c 0 entries)) :
    (r.readUpTo n rest).map (fun reading => reading.1.map Statement.text) =
      entries.map fun entry => .ok entry.statementText := by
  induction entries generalizing n r rest with
  | nil =>
      obtain ⟨n, rfl⟩ : ∃ k, n = k + 1 := ⟨n - 1, by omega⟩
      simp only [Reader.readUpTo, hfaces.next_nil, List.map_nil]
  | cons entry entries ih =>
      obtain ⟨n, rfl⟩ : ∃ k, n = k + 1 := ⟨n - 1, by omega⟩
      rw [Entry.areProper, Bool.and_eq_true] at hproper
      obtain ⟨s, r', rest', hnext, htext, hrest⟩ :=
        Entry.next hc hproper.1 hproper.2 hfaces
      have hmore := ih hproper.2 (Nat.lt_of_succ_lt_succ hn) hrest
      simp only [Reader.readUpTo, hnext, List.map_cons, hmore, ← htext]
      rfl

end Programs

/-! ### Sources -/

/-- The line of some content, indented with copies of a character. -/
def IsIndented (c : Char) (line : List Char) : Prop :=
  ∃ depth content, line = indented c depth content

mutual

theorem Entry.mem_lines {c : Char} (entry : Entry) {depth : Nat}
    {line : List Char} (hline : line ∈ entry.lines c depth) :
    IsIndented c line := by
  match entry with
  | .line content =>
      rw [Entry.lines, List.mem_singleton] at hline
      exact ⟨depth, content, hline⟩
  | .group g =>
      rw [Entry.lines, List.mem_cons] at hline
      rcases hline with hline | hline
      · exact ⟨depth, g.opener, hline⟩
      · exact Group.mem_linesAfter g hline

theorem Entry.mem_linesOf {c : Char} (entries : List Entry) {depth : Nat}
    {line : List Char} (hline : line ∈ Entry.linesOf c depth entries) :
    IsIndented c line := by
  match entries with
  | [] => cases hline
  | entry :: entries =>
      rw [Entry.linesOf, List.mem_append] at hline
      rcases hline with hline | hline
      · exact Entry.mem_lines entry hline
      · exact Entry.mem_linesOf entries hline

theorem Group.mem_linesAfter {c : Char} (g : Group) {depth : Nat}
    {line : List Char} (hline : line ∈ g.linesAfter c depth) :
    IsIndented c line := by
  match g with
  | .mk opener width entries clause =>
      rw [Group.linesAfter, List.mem_append] at hline
      rcases hline with hline | hline
      · exact Entry.mem_linesOf entries hline
      · exact Clause.mem_lines clause hline

theorem Clause.mem_lines {c : Char} (clause : Clause) {depth : Nat}
    {line : List Char} (hline : line ∈ clause.lines c depth) :
    IsIndented c line := by
  match clause with
  | .none => cases hline
  | .line content =>
      rw [Clause.lines, List.mem_singleton] at hline
      exact ⟨depth, content, hline⟩
  | .group g =>
      rw [Clause.lines, List.mem_cons] at hline
      rcases hline with hline | hline
      · exact ⟨depth, g.opener, hline⟩
      · exact Group.mem_linesAfter g hline

end

section Sources

variable {c : Char} (hc : c = ' ' ∨ c = '\t') {line : List Char}

theorem IsIndented.ne_nil (hline : IsIndented c line) : line ≠ [] := by
  obtain ⟨depth, content, rfl⟩ := hline
  intro hnil
  have hblank := isBlankText_indented (c := c) depth content
  rw [hnil] at hblank
  contradiction

/-- A line does not end in white space, a carriage return in particular. -/
theorem IsIndented.getLast?_ne (hline : IsIndented c line) :
    line.getLast? ≠ some '\r' := by
  obtain ⟨depth, content, rfl⟩ := hline
  obtain ⟨last, rest, htext, hlast⟩ := content.reverse_text_eq_cons
  rw [getLast?_indented, ← List.head?_reverse, htext, List.head?_cons, Ne,
    Option.some.injEq]
  rintro rfl
  revert hlast
  decide

include hc

theorem IsIndented.oneLine (hline : IsIndented c line) : '\n' ∉ line := by
  obtain ⟨depth, content, rfl⟩ := hline
  rw [indented, List.mem_append, not_or]
  refine ⟨?_, content.oneLine⟩
  intro hmem
  have hfeed : '\n' = c := List.eq_of_mem_replicate hmem
  rcases hc with rfl | rfl <;> cases hfeed

/-- Lines that each end in a line feed are read back as they are. -/
theorem stripped_rawLines {lines : List (List Char)}
    (hlines : ∀ line ∈ lines, IsIndented c line) (after : List Char) :
    (rawLines (lines.flatMap (· ++ ['\n']) ++ after)).map stripEnding =
      lines ++ (rawLines after).map stripEnding := by
  induction lines with
  | nil => rfl
  | cons line lines ih =>
      have hline := hlines line List.mem_cons_self
      have hrest := ih fun other hother =>
        hlines other (List.mem_cons_of_mem _ hother)
      rw [List.flatMap_cons, List.append_assoc, List.append_assoc,
        List.singleton_append, rawLines_append_lineFeed (hline.oneLine hc),
        List.map_cons, stripEnding_append_lineFeed hline.getLast?_ne, hrest,
        List.cons_append]

/-- The last line feed may be left out. -/
theorem stripped_rawLines_of_source {lines : List (List Char)}
    (hlines : ∀ line ∈ lines, IsIndented c line) {source : List Char}
    (hsource : source = lines.flatMap (· ++ ['\n']) ∨
      source ++ ['\n'] = lines.flatMap (· ++ ['\n'])) :
    (rawLines source).map stripEnding = lines := by
  rcases hsource with rfl | hsource
  · simpa [rawLines] using stripped_rawLines hc hlines []
  · obtain rfl | ⟨init, last, rfl⟩ := List.eq_nil_or_concat' lines
    · simp at hsource
    · have hinit : ∀ line ∈ init, IsIndented c line := fun line hline =>
        hlines line (List.mem_append_left _ hline)
      have hlast := hlines last (by simp)
      have hcut : source = init.flatMap (· ++ ['\n']) ++ last := by
        rw [List.flatMap_append, List.flatMap_singleton, ← List.append_assoc]
          at hsource
        exact List.append_cancel_right hsource
      rw [hcut, stripped_rawLines hc hinit,
        rawLines_of_not_mem hlast.ne_nil (hlast.oneLine hc), List.map_singleton,
        stripEnding_of_not_mem (hlast.oneLine hc)]

/-- A properly indented program is read without an error, as one statement for
each of its entries, whose text is the entry with its blocks between marks. The
last line may lack its line feed. -/
theorem Entry.readAll_source {entries : List Entry}
    (hproper : Entry.areProper entries = true) {source : List Char}
    (hsource : source = Entry.source c entries ∨
      source ++ ['\n'] = Entry.source c entries) :
    (Reader.readAll (RawLine.ofText source)).map
        (fun reading => reading.1.map Statement.text) =
      entries.map fun entry => .ok entry.statementText := by
  have hlines : (rawLines source).map stripEnding = Entry.linesOf c 0 entries :=
    stripped_rawLines_of_source hc (fun _ => Entry.mem_linesOf entries) hsource
  have hfaces := Reader.faces_fresh source
  rw [hlines] at hfaces
  have hcount := Entry.length_le_linesOf (c := c) entries 0 hproper
  rw [← hlines, List.length_map] at hcount
  apply Entry.readUpTo hc entries hproper _ hfaces
  rw [RawLine.ofText, List.length_map]
  omega

end Sources

/-- A program with a block in a block, a chain of clauses after the inner one,
and a line at the end. -/
def Entry.chained : List Entry :=
  [.group (.mk ⟨"If a:".toList, by decide, by decide⟩ 2
    [.group (.mk ⟨"If b:".toList, by decide, by decide⟩ 3
      [.line ⟨"x.".toList, by decide, by decide⟩]
      (.group (.mk ⟨"Otherwise if c:".toList, by decide, by decide⟩ 1
        [.line ⟨"y.".toList, by decide, by decide⟩]
        (.line ⟨"otherwise z.".toList, by decide, by decide⟩))))]
    .none),
   .line ⟨"w.".toList, by decide, by decide⟩]

theorem Entry.readAll_source_chained :
    (Reader.readAll (RawLine.ofText (String.toList
      "If a:\n  If b:\n     x.\n  Otherwise if c:\n   y.\n  otherwise z.\nw."))).map
        (fun reading => reading.1.map Statement.text) =
      [.ok "If a:\n`If b:\n`x.\n~Otherwise if c:\n`y.\n~otherwise z.\n~".toList,
        .ok "w.".toList] := by
  have hsource : String.toList
      "If a:\n  If b:\n     x.\n  Otherwise if c:\n   y.\n  otherwise z.\nw." ++
        ['\n'] = Entry.source ' ' Entry.chained := by decide
  exact Entry.readAll_source (.inl rfl) (by decide) (.inr hsource)

end Prose.Layout
