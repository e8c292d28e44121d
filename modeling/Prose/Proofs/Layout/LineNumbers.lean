import Prose.Proofs.Diagnostic.Positions
import Prose.Proofs.Layout.Folds
import Prose.Proofs.Layout.LineRuns
import Prose.Proofs.Text.RawLines

/-!
The line numbers of a reader whose stream others read from too. What a reading
does depends on the lines that it takes only, so the lines handed to the reader,
one reading after the other, are a source of their own, and the reader is always
between two lines of that source. The transcript is this source, and since it is
cut into the same lines again, the line that its line table gives for an offset is
the one that the reader has counted.
-/

namespace Prose.Layout

open Text

/-! ### Lines and their numbers -/

variable {raws : List (List Char)} {line : Line}

theorem Line.StandsIn.append (h : line.StandsIn raws) (more : List (List Char)) :
    line.StandsIn (raws ++ more) := by
  obtain ⟨before, raw, after, rfl, hline⟩ := h
  exact ⟨before, raw, after ++ more, by rw [List.append_assoc]; rfl, hline⟩

/-- A line between what comes before it and its ending with what comes after. -/
theorem Line.StandsIn.split {text : List Char} (h : line.StandsIn (rawLines text)) :
    ∃ front rest, text = front ++ line.text ++ rest ∧ '\n' ∉ line.text ∧
      line.start = byteLength front ∧ line.number = 1 + front.count '\n' := by
  obtain ⟨before, raw, after, hraws, rfl⟩ := h
  have hraw := areRaw_rawLines text
  rw [hraws] at hraw
  obtain ⟨ending, hending⟩ := stripEnding_prefix raw
  refine ⟨before.flatten, ending ++ after.flatten, ?_, ?_, rfl, ?_⟩
  · calc text = before.flatten ++ (raw ++ after.flatten) := by
          rw [← flatten_rawLines text, hraws, List.flatten_append, List.flatten_cons]
      _ = before.flatten ++ (stripEnding raw ++ ending ++ after.flatten) := by
          rw [← hending]
      _ = _ := by simp only [List.append_assoc]
  · exact hraw.not_mem_stripEnding (by simp)
  · rw [hraw.count_before, Nat.add_comm]

/-- The line table of a text counts its lines as the reader does. -/
theorem Line.StandsIn.lineAt {text : List Char} (h : line.StandsIn (rawLines text))
    {offset : Nat} (hfrom : line.span.start ≤ offset)
    (hto : offset ≤ line.span.stop) :
    (LineTable.ofText text).lineAt offset = line.number := by
  obtain ⟨front, rest, htext, hfeed, hstart, hnumber⟩ := h.split
  rw [hnumber, htext]
  refine LineTable.lineAt_ofText hfeed ?_ ?_ rest
  · exact hstart ▸ hfrom
  · exact hstart ▸ hto

theorem Line.StandsIn.slice?_span {text : List Char} (h : line.StandsIn (rawLines text)) :
    Text.slice? line.span.start line.span.stop text = some line.text := by
  obtain ⟨front, rest, htext, -, hstart, -⟩ := h.split
  rw [Line.span, hstart, htext]
  exact slice?_append front line.text rest

theorem Line.trimmedStart_le (line : Line) : line.trimmedStart ≤ line.span.stop := by
  have hsplit := congrArg byteLength
    (@List.takeWhile_append_dropWhile _ Text.isBlank line.text)
  rw [byteLength_append] at hsplit
  rw [Line.trimmedStart, Line.span]
  dsimp only
  omega

/-! ### What errors are about -/

/-- The error tells the number and the place of the line. -/
def LayoutError.IsAbout (e : LayoutError) (line : Line) : Prop :=
  e.line? = some line.number ∧ e.span? = some line.span

theorem Folding.isAbout_of_step {f : Folding} {e : LayoutError}
    (h : f.step line = .error e) : e.IsAbout line := by
  unfold Folding.step at h
  split at h
  · split at h
    · cases h
      exact ⟨rfl, rfl⟩
    · cases h
  · split at h <;> cases h

theorem Folding.isAbout_of_finish {f : Folding} {e : LayoutError}
    (h : f.finish = .error e) :
    ∃ opener, f.awaiting = .first opener ∧ e.IsAbout opener := by
  unfold Folding.finish at h
  split at h
  · next opener hawaiting =>
      cases h
      exact ⟨opener, hawaiting, rfl, rfl⟩
  · cases h

/-- Where a line opens a block, it is the line itself that opens it. -/
theorem Folding.opener_of_step {f next : Folding} {pieces : List Piece}
    {opener : Line} (h : f.step line = .ok (.extend pieces next))
    (hopener : next.awaiting = .first opener) : opener = line := by
  have hofLine : ∀ {marks blocks},
      Step.ofLine marks line blocks = .extend pieces next → opener = line := by
    intro marks blocks hline
    cases hline
    dsimp only at hopener
    split at hopener
    · exact (Awaiting.first.inj hopener).symm
    · cases hopener
  unfold Folding.step at h
  split at h
  · split at h
    · cases h
    · exact hofLine (Except.ok.inj h)
  · split at h
    · exact hofLine (Except.ok.inj h)
    · exact hofLine (Except.ok.inj h)
    · cases h

namespace Reader

variable {r : Reader} {rest : List RawLine} {e : LayoutError}

/-- An error met in folding is about a line of the source. -/
theorem At.isAbout_of_fold (hat : At raws r rest) {f : Folding}
    (hopener : ∀ opener, f.awaiting = .first opener → opener.StandsIn raws)
    (h : (r.fold f rest).result = .error e) :
    ∃ line : Line, line.StandsIn raws ∧ e.IsAbout line := by
  induction rest generalizing r f with
  | nil =>
      obtain ⟨opener, hawaiting, habout⟩ := Folding.isAbout_of_finish h
      exact ⟨opener, hopener opener hawaiting, habout⟩
  | cons raw rest ih =>
      cases raw with
      | undecodable => exact hat.decodable.elim
      | text raw =>
          obtain ⟨hline, htaken⟩ := hat.take
          cases hstep : f.step (r.take raw).1 with
          | error first =>
              simp only [Reader.fold, hstep] at h
              cases h
              exact ⟨_, hline, Folding.isAbout_of_step hstep⟩
          | ok step =>
              cases step with
              | complete done =>
                  simp only [Reader.fold, hstep] at h
                  cases h
              | extend added next =>
                  simp only [Reader.fold, hstep] at h
                  refine ih htaken (fun opener hnext => ?_) (map_eq_error h)
                  exact Folding.opener_of_step hstep hnext ▸ hline

theorem At.isAbout_of_statementFrom (hat : At raws r rest)
    (hline : line.StandsIn raws)
    (h : (r.statementFrom line rest).result = .error e) :
    ∃ line : Line, line.StandsIn raws ∧ e.IsAbout line := by
  unfold Reader.statementFrom at h
  split at h
  · refine hat.isAbout_of_fold (fun opener hopener => ?_) (map_eq_error h)
    cases hopener
    exact hline
  · cases h

theorem At.isAbout_of_search (hat : At raws r rest)
    (h : (r.search rest).result = .error e) :
    ∃ line : Line, line.StandsIn raws ∧ e.IsAbout line := by
  induction rest generalizing r with
  | nil => cases h
  | cons raw rest ih =>
      cases raw with
      | undecodable => exact hat.decodable.elim
      | text raw =>
          obtain ⟨hline, htaken⟩ := hat.take
          rw [Reader.search] at h
          dsimp only at h
          split at h
          · exact ih htaken h
          · exact htaken.isAbout_of_statementFrom hline h

/-- An error that a reading meets is about a line of the source. -/
theorem At.isAbout_of_next (hat : At raws r rest)
    (h : (r.next rest).result = .error e) :
    ∃ line : Line, line.StandsIn raws ∧ e.IsAbout line := by
  unfold Reader.next at h
  split at h
  · exact hat.isAbout_of_search h
  · next line hpending =>
      dsimp only at h
      split at h
      · exact hat.drop.isAbout_of_search h
      · exact hat.drop.isAbout_of_statementFrom (hat.pending line hpending) h

/-- A statement that is read goes by the number of a line of the source, and its
first segment begins in that line. -/
theorem At.first_of_next (hat : At raws r rest) {s : Statement}
    (h : (r.next rest).result = .ok (some s)) :
    ∃ line : Line, line.StandsIn raws ∧ s.line = line.number ∧
      s.segments.head?.map (·.sourceStart) = some line.trimmedStart := by
  obtain ⟨-, hstatement⟩ := hat.next
  obtain ⟨hlines, -⟩ := hstatement s h
  obtain ⟨r', first, rest', hfrom⟩ := exists_statementFrom_of_next h
  have hfirst : s.line = first.number ∧ ∃ more, s.pieces = .line first :: more := by
    unfold Reader.statementFrom at hfrom
    split at hfrom
    · obtain ⟨pieces, -, heq⟩ := map_eq_ok hfrom
      cases heq
      exact ⟨rfl, _, rfl⟩
    · cases hfrom
      exact ⟨rfl, _, rfl⟩
  obtain ⟨hnumber, more, hpieces⟩ := hfirst
  refine ⟨first, hlines.stands first (by simp [hpieces]), hnumber, ?_⟩
  rw [Statement.segments, hpieces]
  rfl

/-! ### What a reading takes -/

/-- A reading takes these lines and no others: where no others follow it is the
same, and they are what it adds to the transcript. -/
structure TakesOnly {α : Type} (r : Reader) (read : List RawLine → Reading α)
    (lines after : List (List Char)) : Prop where
  rest : (read ((lines ++ after).map .text)).rest = after.map .text
  alone : read (lines.map .text) =
    { read ((lines ++ after).map .text) with rest := [] }
  taken : (read ((lines ++ after).map .text)).reader.taken =
    lines.reverse ++ r.taken

section TakesOnly

variable {α β : Type} {read : List RawLine → Reading α}
  {read' : List RawLine → Reading β} {lines after : List (List Char)}

/-- A reading that takes nothing. -/
theorem takesOnly_nil (result : Except LayoutError α) {r' : Reader}
    (hread : ∀ rest, read rest = ⟨result, r', rest⟩) (htaken : r'.taken = r.taken)
    (after : List (List Char)) : r.TakesOnly read [] after where
  rest := by rw [hread]; rfl
  alone := by rw [hread, hread]; rfl
  taken := by rw [hread]; exact htaken

/-- A reading that takes one line. -/
theorem takesOnly_singleton {raw : List Char} (result : Except LayoutError α)
    (r' : Reader) (hread : ∀ rest, read (.text raw :: rest) = ⟨result, r', rest⟩)
    (htaken : r'.taken = raw :: r.taken) (after : List (List Char)) :
    r.TakesOnly read [raw] after where
  rest := congrArg Reading.rest (hread _)
  alone := by
    refine (hread _).trans ?_
    exact congrArg (fun reading : Reading α => { reading with rest := [] })
      (hread _).symm
  taken := (congrArg (·.reader.taken) (hread _)).trans htaken

/-- A reading that goes on as another one, with something done to the result. -/
theorem TakesOnly.map {r' : Reader} (h : r'.TakesOnly read' lines after)
    (htaken : r'.taken = r.taken) (k : Except LayoutError β → Except LayoutError α)
    (hread : ∀ rest, read rest = ⟨k (read' rest).result, (read' rest).reader,
      (read' rest).rest⟩) : r.TakesOnly read lines after where
  rest := by rw [hread]; exact h.rest
  alone := by rw [hread, hread, h.alone]
  taken := by rw [hread, ← htaken]; exact h.taken

/-- A reading that takes a line and goes on as another one. -/
theorem TakesOnly.cons {raw : List Char}
    (h : (r.take raw).2.TakesOnly read' lines after)
    (k : Except LayoutError β → Except LayoutError α)
    (hread : ∀ rest, read (.text raw :: rest) = ⟨k (read' rest).result,
      (read' rest).reader, (read' rest).rest⟩) :
    r.TakesOnly read (raw :: lines) after where
  rest := (congrArg Reading.rest (hread _)).trans h.rest
  alone := by
    refine (hread _).trans ?_
    rw [h.alone]
    exact congrArg (fun reading : Reading α => { reading with rest := [] })
      (hread _).symm
  taken := by
    refine (congrArg (·.reader.taken) (hread _)).trans (h.taken.trans ?_)
    rw [List.reverse_cons, List.append_assoc]
    rfl

end TakesOnly

theorem takesOnly_fold (r : Reader) (f : Folding) (raws : List (List Char)) :
    ∃ lines after, raws = lines ++ after ∧ r.TakesOnly (r.fold f) lines after := by
  induction raws generalizing r f with
  | nil => exact ⟨[], [], rfl, rfl, rfl, rfl⟩
  | cons raw raws ih =>
      cases hstep : f.step (r.take raw).1 with
      | error e =>
          refine ⟨[raw], raws, rfl, takesOnly_singleton (.error e) (r.take raw).2
            (fun rest => ?_) rfl raws⟩
          simp only [fold, hstep]
      | ok step =>
          cases step with
          | complete done =>
              -- The line after the statement has been taken, too.
              refine ⟨[raw], raws, rfl, takesOnly_singleton (.ok done)
                { (r.take raw).2 with pending := some (r.take raw).1 }
                (fun rest => ?_) rfl raws⟩
              simp only [fold, hstep]
          | extend added next =>
              obtain ⟨lines, after, rfl, h⟩ := ih (r.take raw).2 next
              refine ⟨raw :: lines, after, rfl, h.cons (·.map (added ++ ·))
                fun rest => ?_⟩
              simp only [fold, hstep]

theorem takesOnly_statementFrom (r : Reader) (line : Line)
    (raws : List (List Char)) :
    ∃ lines after, raws = lines ++ after ∧
      r.TakesOnly (r.statementFrom line) lines after := by
  by_cases hopens : line.opensBlock = true
  · obtain ⟨lines, after, rfl, h⟩ := r.takesOnly_fold (.ofOpener line) raws
    refine ⟨lines, after, rfl, h.map rfl (·.map fun pieces =>
      some ⟨line.number, .line line :: .newline :: pieces⟩) fun rest => ?_⟩
    rw [statementFrom, if_pos hopens]
  · refine ⟨[], raws, rfl, takesOnly_nil (.ok (some ⟨line.number, [.line line]⟩))
      (fun rest => ?_) rfl raws⟩
    rw [statementFrom, if_neg hopens]

theorem takesOnly_search (r : Reader) (raws : List (List Char)) :
    ∃ lines after, raws = lines ++ after ∧ r.TakesOnly r.search lines after := by
  induction raws generalizing r with
  | nil => exact ⟨[], [], rfl, rfl, rfl, rfl⟩
  | cons raw raws ih =>
      by_cases hblank : (r.take raw).1.isBlank = true
      · obtain ⟨lines, after, rfl, h⟩ := ih (r.take raw).2
        refine ⟨raw :: lines, after, rfl, h.cons id fun rest => ?_⟩
        rw [search]
        exact if_pos hblank
      · obtain ⟨lines, after, rfl, h⟩ :=
          (r.take raw).2.takesOnly_statementFrom (r.take raw).1 raws
        refine ⟨raw :: lines, after, rfl, h.cons id fun rest => ?_⟩
        rw [search]
        exact if_neg hblank

/-- A reading takes the lines at the beginning of the stream, as many as it takes,
and does not depend on the others. -/
theorem takesOnly_next (r : Reader) (raws : List (List Char)) :
    ∃ lines after, raws = lines ++ after ∧ r.TakesOnly r.next lines after := by
  cases hpending : r.pending with
  | none =>
      obtain ⟨lines, after, rfl, h⟩ := r.takesOnly_search raws
      refine ⟨lines, after, rfl, h.map rfl id fun rest => ?_⟩
      simp only [next, hpending, id]
  | some line =>
      by_cases hblank : line.isBlank = true
      · obtain ⟨lines, after, rfl, h⟩ :=
          takesOnly_search { r with pending := none } raws
        refine ⟨lines, after, rfl, h.map rfl id fun rest => ?_⟩
        simp only [next, hpending, hblank, if_true, id]
      · obtain ⟨lines, after, rfl, h⟩ :=
          takesOnly_statementFrom { r with pending := none } line raws
        refine ⟨lines, after, rfl, h.map rfl id fun rest => ?_⟩
        simp only [next, hpending, if_neg hblank, id]

/-! ### A source of the lines handed over -/

variable {handed : List (List Char)}

/-- A reader at the end of a source may be given more lines. -/
theorem At.extend (hat : At handed r []) (lines : List (List Char)) :
    At (handed ++ lines) r (lines.map .text) where
  between := by
    obtain ⟨before, after, rfl, hrest, hoffset, hnumber⟩ := hat.between
    obtain rfl := List.map_eq_nil_iff.1 hrest.symm
    exact ⟨before, lines, by rw [List.append_nil], rfl, hoffset, hnumber⟩
  pending := fun line hline => (hat.pending line hline).append lines

/-- What was found is on the line that goes by its number, and the place of an
error is all of the line but for its ending. -/
def Located (text : List Char) : Except LayoutError Statement → Prop
  | .ok s => s.segments.head?.map
      (fun seg => (LineTable.ofText text).lineAt seg.sourceStart) = some s.line
  | .error e => ∃ before raw after span,
      rawLines text = before ++ raw :: after ∧
      e.line? = some (before.length + 1) ∧ e.span? = some span ∧
      (LineTable.ofText text).lineAt span.start = before.length + 1 ∧
      (LineTable.ofText text).lineAt span.stop = before.length + 1 ∧
      slice? span.start span.stop text = some (stripEnding raw)

theorem Located.of_line {s : Statement} {text : List Char}
    (hline : line.StandsIn (rawLines text)) (hnumber : s.line = line.number)
    (hfirst : s.segments.head?.map (·.sourceStart) = some line.trimmedStart) :
    Located text (.ok s) := by
  obtain ⟨seg, hseg, hstart⟩ := Option.map_eq_some_iff.1 hfirst
  have hat : (LineTable.ofText text).lineAt line.trimmedStart = line.number :=
    hline.lineAt (Nat.le_add_right _ _) line.trimmedStart_le
  rw [Located, hseg, Option.map_some, hstart, hnumber, hat]

theorem Located.of_isAbout {text : List Char} (hline : line.StandsIn (rawLines text))
    (habout : e.IsAbout line) : Located text (.error e) := by
  have hfrom := hline.lineAt le_rfl (Nat.le_add_right _ _)
  have hto := hline.lineAt (Nat.le_add_right _ _) le_rfl
  have hslice := hline.slice?_span
  obtain ⟨before, raw, after, hraws, rfl⟩ := hline
  exact ⟨before, raw, after, _, hraws, habout.1, habout.2, hfrom, hto, hslice⟩

/-- A reader and others read lines from one stream. The reader has been handed some
of the lines of the source, and others are left. Between two readings, and also
between two lines of one reading, others may take any of the lines that are left;
the reader finds those that they do not take. -/
inductive Shares (source : List Char) :
    List (List Char) → Reader → List RawLine → Prop where
  | start : Shares source [] .fresh (RawLine.ofText source)
  | others {handed : List (List Char)} {r : Reader} {rest left : List RawLine} :
      Shares source handed r rest → left.Sublist rest → Shares source handed r left
  | read {handed lines : List (List Char)} {r : Reader} {rest : List RawLine} :
      Shares source handed r rest →
      rest = lines.map .text ++ (r.next rest).rest →
      Shares source (handed ++ lines) (r.next rest).reader (r.next rest).rest

/-- The reader has reached the end of a source that is made of the lines handed to
it, all of them in the transcript; they and the lines that are left are lines of
the stream. -/
structure Keeps (source : List Char) (handed : List (List Char)) (r : Reader)
    (rest : List RawLine) : Prop where
  left : ∃ after, rest = after.map .text ∧ (handed ++ after).Sublist (rawLines source)
  atEnd : At handed r []
  taken : r.taken = handed.reverse

theorem Keeps.fresh (source : List Char) :
    Keeps source [] .fresh (RawLine.ofText source) where
  left := ⟨rawLines source, rfl, List.Sublist.refl _⟩
  atEnd := ⟨⟨[], [], rfl, rfl, rfl, rfl⟩, nofun⟩
  taken := rfl

variable {source : List Char}

theorem Keeps.others (h : Keeps source handed r rest) {left : List RawLine}
    (hleft : left.Sublist rest) : Keeps source handed r left where
  left := by
    obtain ⟨after, rfl, hsource⟩ := h.left
    obtain ⟨kept, hkept, rfl⟩ := List.sublist_map_iff.1 hleft
    exact ⟨kept, rfl, (hkept.append_left handed).trans hsource⟩
  atEnd := h.atEnd
  taken := h.taken

/-- What a reading hands over is a run of lines at the beginning of the stream; what
it finds is found in the same way in the source of all lines handed over. -/
theorem Keeps.next (h : Keeps source handed r rest) :
    ∃ lines, rest = lines.map .text ++ (r.next rest).rest ∧
      (r.next (lines.map .text)).result = (r.next rest).result ∧
      Keeps source (handed ++ lines) (r.next rest).reader (r.next rest).rest := by
  obtain ⟨raws, rfl, hsource⟩ := h.left
  obtain ⟨lines, after, rfl, htakes⟩ := r.takesOnly_next raws
  -- In the source of the lines handed over, nothing is left to be read after them.
  obtain ⟨hat, -⟩ := (h.atEnd.extend lines).next
  rw [htakes.alone] at hat
  refine ⟨lines, ?_, by rw [htakes.alone], ⟨after, htakes.rest, ?_⟩, hat, ?_⟩
  · rw [htakes.rest, List.map_append]
  · rw [List.append_assoc]
    exact hsource
  · rw [htakes.taken, h.taken, List.reverse_append]

theorem Shares.keeps (h : Shares source handed r rest) :
    Keeps source handed r rest := by
  induction h with
  | start => exact .fresh source
  | others _ hleft ih => exact ih.others hleft
  | read _ hrest ih =>
      obtain ⟨lines, hlines, -, hkeeps⟩ := ih.next
      have hsame := List.append_cancel_right (hrest.symm.trans hlines)
      rw [List.map_inj_right fun _ _ => RawLine.text.inj] at hsame
      exact hsame ▸ hkeeps

theorem Keeps.transcript (h : Keeps source handed r rest) :
    r.transcript = handed.flatten ∧ rawLines r.transcript = handed ∧
      byteLength r.transcript = r.offset := by
  obtain ⟨after, rfl, hsource⟩ := h.left
  obtain ⟨before, none, hhanded, hnone, hoffset, -⟩ := h.atEnd.between
  obtain rfl := List.map_eq_nil_iff.1 hnone.symm
  rw [List.append_nil] at hhanded
  have htext : r.transcript = handed.flatten := by
    rw [Reader.transcript, h.taken, List.reverse_reverse]
  have hraw : AreRaw handed :=
    (areRaw_rawLines source).sublist ((List.sublist_append_left _ _).trans hsource)
  refine ⟨htext, ?_, ?_⟩
  · rw [htext, hraw.rawLines_flatten]
  · rw [htext, hoffset, hhanded]

/-- What a reading finds is on its line in every text that begins with the lines
handed over. -/
theorem Keeps.located (h : Keeps source handed r rest) {lines : List (List Char)}
    (hresult : (r.next (lines.map .text)).result = (r.next rest).result)
    {text : List Char} (htext : handed ++ lines <+: rawLines text)
    {found : Except LayoutError Statement} {after : Reader}
    (hfound : (r.next rest).found? = some (found, after)) : Located text found := by
  have hat := h.atEnd.extend lines
  obtain ⟨more, hmore⟩ := htext
  unfold Reading.found? at hfound
  split at hfound
  · cases hfound
  · next s hs =>
      cases hfound
      obtain ⟨line, hline, hnumber, hfirst⟩ := hat.first_of_next (hresult.trans hs)
      exact .of_line (hmore ▸ hline.append more) hnumber hfirst
  · next e he =>
      cases hfound
      obtain ⟨line, hline, habout⟩ := hat.isAbout_of_next (hresult.trans he)
      exact .of_isAbout (hmore ▸ hline.append more) habout

/-- Where nobody else reads, all that is found is on its line in the source. -/
theorem Keeps.located_of_mem_readUpTo {n : Nat} {after : List (List Char)}
    (h : Keeps source handed r (after.map .text))
    (hsource : rawLines source = handed ++ after)
    {found : Except LayoutError Statement} {r' : Reader}
    (hfound : (found, r') ∈ r.readUpTo n (after.map .text)) :
    Located source found := by
  induction n generalizing r handed after with
  | zero => cases hfound
  | succ n ih =>
      obtain ⟨lines, hrest, hresult, hkeeps⟩ := h.next
      obtain ⟨left, hleft, -⟩ := hkeeps.left
      have hafter : after = lines ++ left := by
        rw [hleft, ← List.map_append,
          List.map_inj_right fun _ _ => RawLine.text.inj] at hrest
        exact hrest
      have hlines : rawLines source = handed ++ lines ++ left := by
        rw [hsource, hafter, List.append_assoc]
      have hhere : ∀ {here r₁},
          (r.next (after.map .text)).found? = some (here, r₁) →
            Located source here :=
        h.located hresult ⟨left, hlines.symm⟩
      rw [hleft] at hkeeps
      unfold readUpTo at hfound
      dsimp only at hfound
      rw [hleft] at hfound
      split at hfound
      · cases hfound
      · next s hs =>
          rcases List.mem_cons.1 hfound with heq | hlater
          · cases heq
            exact hhere (by rw [Reading.found?, hs])
          · exact ih hkeeps hlines hlater
      · next e he =>
          rcases List.mem_cons.1 hfound with heq | hlater
          · cases heq
            exact hhere (by rw [Reading.found?, he])
          · exact ih hkeeps hlines hlater

/-- The line numbers of the reader are those of the line table. Whatever others take
from the stream, the transcript is the lines handed to the reader, its length is
the offset of the reader, and every statement or error that is found is on its
line in the transcript, as it is in every text that begins with the same lines.
Where nobody else reads, everything that is found in a source is on its line in
the source. -/
theorem line_numbers_agree_with_table (source : List Char) :
    (∀ handed r rest, Shares source handed r rest →
      let reading := r.next rest
      let transcript := reading.reader.transcript
      ∃ lines, rest = lines.map .text ++ reading.rest ∧
        transcript = (handed ++ lines).flatten ∧
        rawLines transcript = handed ++ lines ∧
        byteLength transcript = reading.reader.offset ∧
        ∀ text found, handed ++ lines <+: rawLines text →
          reading.found? = some (found, reading.reader) → Located text found) ∧
    ∀ found r, (found, r) ∈ readAll (RawLine.ofText source) →
      Located source found := by
  constructor
  · intro handed r rest hshares reading transcript
    obtain ⟨lines, hrest, hresult, hkeeps⟩ := hshares.keeps.next
    obtain ⟨htext, hraws, hlength⟩ := hkeeps.transcript
    exact ⟨lines, hrest, htext, hraws, hlength, fun text found hbegins hfound =>
      hshares.keeps.located hresult hbegins hfound⟩
  · intro found r hfound
    exact (Keeps.fresh source).located_of_mem_readUpTo rfl hfound

/-- Another reader takes the second line, so the block that is not indented is on the
third line of the transcript. -/
theorem line_numbers_agree_with_table_after_input :
    let source := "a\r\ninput\nIf é:\r\nb\n".toList
    let first := fresh.next (RawLine.ofText source)
    let left := first.rest.drop 1
    Shares source ["a\r\n".toList] first.reader left ∧
      let reading := first.reader.next left
      reading.reader.transcript = "a\r\nIf é:\r\nb\n".toList ∧
      ∃ e, reading.result = .error e ∧ e.line? = some 3 ∧
        Located reading.reader.transcript (.error e) := by
  intro source first left
  have hfirst : Shares source ["a\r\n".toList] first.reader first.rest :=
    @Shares.read source [] _ fresh (RawLine.ofText source) .start (by decide +kernel)
  have hshares := hfirst.others (List.drop_sublist 1 first.rest)
  obtain ⟨lines, -, -, hraws, -, hlocated⟩ :=
    (line_numbers_agree_with_table source).1 _ _ _ hshares
  have hresult : (first.reader.next left).result =
      .error (.missingIndentation ['b'] 3 ⟨11, 12⟩) := by decide +kernel
  refine ⟨hshares, by decide +kernel, _, hresult, rfl, ?_⟩
  refine hlocated _ _ ⟨[], ?_⟩ (by rw [Reading.found?, hresult])
  rw [List.append_nil, hraws]

end Reader

end Prose.Layout
