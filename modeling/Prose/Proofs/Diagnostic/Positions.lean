import Mathlib.Data.List.DropRight
import Mathlib.Data.Prod.Lex
import Prose.Diagnostic.LineTable
import Prose.Proofs.Token.Places

/-!
Lines and columns. A line begins where a text is empty or ends in a line feed,
and the line of an offset is told by the line feeds before it. So every boundary
between characters has a position of its own, positions are in the order of the
offsets, and an offset is found again from its position.
-/

namespace Prose.Text

/-- The text is empty or ends in a line feed, so that a line begins after it. -/
def EndsLines (front : List Char) : Prop :=
  front = [] ∨ ∃ lines, front = lines ++ ['\n']

end Prose.Text

namespace Prose.LineTable

open Text

/-! ### Where lines start -/

variable {text front line rest : List Char} {offset : Nat}

theorem startsAfter_append (offset : Nat) (xs ys : List Char) :
    startsAfter offset (xs ++ ys) =
      startsAfter offset xs ++ startsAfter (offset + byteLength xs) ys := by
  induction xs generalizing offset with
  | nil => rfl
  | cons c xs ih =>
      rw [List.cons_append, startsAfter, startsAfter, ih, byteLength_cons,
        Nat.add_assoc]
      split <;> rfl

theorem startsAfter_of_not_mem {cs : List Char} (h : '\n' ∉ cs) (offset : Nat) :
    startsAfter offset cs = [] := by
  induction cs generalizing offset with
  | nil => rfl
  | cons c cs ih =>
      rw [List.mem_cons, not_or] at h
      rw [startsAfter, if_neg (Ne.symm h.1)]
      exact ih h.2 _

theorem length_startsAfter (offset : Nat) (cs : List Char) :
    (startsAfter offset cs).length = cs.count '\n' := by
  induction cs generalizing offset with
  | nil => rfl
  | cons c cs ih =>
      rw [startsAfter, List.count_cons]
      split
      · next hc => simp [ih, hc]
      · next hc => simp [ih, hc]

theorem of_mem_startsAfter {s : Nat} {cs : List Char}
    (h : s ∈ startsAfter offset cs) :
    offset < s ∧ s ≤ offset + byteLength cs := by
  induction cs generalizing offset with
  | nil => cases h
  | cons c cs ih =>
      have hpos := c.utf8Size_pos
      have hlater : s ∈ startsAfter (offset + c.utf8Size) cs →
          offset < s ∧ s ≤ offset + byteLength (c :: cs) := by
        intro hmem
        have hbounds := ih hmem
        rw [byteLength_cons]
        omega
      rw [startsAfter] at h
      split at h
      · rcases List.mem_cons.1 h with rfl | hmem
        · rw [byteLength_cons]
          omega
        · exact hlater hmem
      · exact hlater h

/-- The last line of a text that ends lines starts at its end. -/
theorem getLast?_starts (hfront : EndsLines front) :
    (0 :: startsAfter 0 front).getLast? = some (byteLength front) := by
  rcases hfront with rfl | ⟨lines, rfl⟩
  · rfl
  · have hlast : startsAfter 0 (lines ++ ['\n']) =
        startsAfter 0 lines ++ [byteLength (lines ++ ['\n'])] := by
      rw [startsAfter_append, byteLength_append, Nat.zero_add]
      rfl
    rw [hlast, ← List.cons_append, List.getLast?_concat]

/-- The line that begins after some text starts at its end. -/
theorem lineStart?_ofText (hfront : EndsLines front) (rest : List Char) :
    (ofText (front ++ rest)).lineStart? (1 + front.count '\n') =
      some (byteLength front) := by
  have hlength : (0 :: startsAfter 0 front).length = front.count '\n' + 1 := by
    rw [List.length_cons, length_startsAfter]
  rw [Nat.add_comm, lineStart?, ofText, startsAfter_append, ← List.cons_append,
    List.getElem?_append_left (by omega), ← getLast?_starts hfront,
    List.getLast?_eq_getElem?, hlength, Nat.add_sub_cancel]

theorem lineStart?_ofText_eq_none {n : Nat} (h : text.count '\n' + 1 < n) :
    (ofText text).lineStart? n = none := by
  cases n with
  | zero => rfl
  | succ n =>
      rw [lineStart?, ofText, List.getElem?_eq_none]
      rw [List.length_cons, length_startsAfter]
      omega

/-- The line of an offset is told by the line feeds before it. -/
theorem lineAt_ofText (hline : '\n' ∉ line)
    (hfrom : byteLength front ≤ offset)
    (hto : offset ≤ byteLength front + byteLength line) (rest : List Char) :
    (ofText (front ++ line ++ rest)).lineAt offset = 1 + front.count '\n' := by
  have hearly : ∀ s ∈ 0 :: startsAfter 0 front, decide (s ≤ offset) = true := by
    intro s hs
    rw [decide_eq_true_iff]
    rcases List.mem_cons.1 hs with rfl | hmem
    · exact Nat.zero_le _
    · have hbounds := of_mem_startsAfter hmem
      omega
  have hlate : ∀ s ∈ startsAfter (byteLength (front ++ line)) rest,
      ¬ decide (s ≤ offset) = true := by
    intro s hs
    have hbounds := of_mem_startsAfter hs
    rw [byteLength_append] at hbounds
    rw [decide_eq_true_iff]
    omega
  have hstarts : (ofText (front ++ line ++ rest)).starts =
      (0 :: startsAfter 0 front) ++
        startsAfter (byteLength (front ++ line)) rest := by
    rw [ofText, startsAfter_append, startsAfter_append,
      startsAfter_of_not_mem hline, List.append_nil, Nat.zero_add,
      List.cons_append]
  rw [lineAt, hstarts, List.countP_append, List.countP_eq_length.2 hearly,
    List.countP_eq_zero.2 hlate, List.length_cons, length_startsAfter]
  omega

/-- A line, with its line feed if it has one, between what comes before and after it. -/
structure IsLine (front line rest : List Char) : Prop where
  front : EndsLines front
  line : '\n' ∉ line
  rest : rest = [] ∨ ∃ more, rest = '\n' :: more

/-- The characters that the text of a line does not end in. -/
def isEnding (c : Char) : Bool := c == '\n' || c == '\r'

theorem dropEndWhile_append_of_pos {p : Char → Bool} {c : Char} (hc : p c = true)
    (cs : List Char) : dropEndWhile p (cs ++ [c]) = dropEndWhile p cs := by
  rw [dropEndWhile, List.reverse_append, List.reverse_singleton,
    List.singleton_append, List.dropWhile_cons_of_pos hc]
  rfl

/-- The bytes of a line, up to where the next one starts. -/
theorem IsLine.slice? (h : IsLine front line rest) :
    Text.slice? (byteLength front)
      (((ofText (front ++ line ++ rest)).lineStart?
        (1 + front.count '\n' + 1)).getD (byteLength (front ++ line ++ rest)))
      (front ++ line ++ rest) = some (line ++ rest.take 1) := by
  rcases h.rest with rfl | ⟨more, rfl⟩
  · have hnext : (ofText (front ++ line ++ [])).lineStart?
        (1 + front.count '\n' + 1) = none := by
      apply lineStart?_ofText_eq_none
      rw [List.append_nil, List.count_append, List.count_eq_zero.2 h.line]
      omega
    rw [hnext, Option.getD_none, byteLength_append, byteLength_append,
      byteLength_nil, Nat.add_zero, List.take_nil, List.append_nil line]
    exact slice?_append front line []
  · have htext : front ++ line ++ '\n' :: more =
        front ++ (line ++ ['\n']) ++ more := by simp
    have hcount : (front ++ (line ++ ['\n'])).count '\n' =
        front.count '\n' + 1 := by
      simp [List.count_eq_zero.2 h.line]
    have hends : EndsLines (front ++ (line ++ ['\n'])) :=
      .inr ⟨front ++ line, by rw [List.append_assoc]⟩
    have hnext := lineStart?_ofText hends more
    rw [hcount, ← Nat.add_assoc] at hnext
    rw [htext, hnext, Option.getD_some, byteLength_append]
    exact slice?_append front _ more

theorem IsLine.dropEndWhile_isEnding (h : IsLine front line rest) :
    dropEndWhile isEnding (line ++ rest.take 1) = dropEndWhile isEnding line := by
  rcases h.rest with rfl | ⟨more, rfl⟩
  · rw [List.take_nil, List.append_nil]
  · exact dropEndWhile_append_of_pos rfl line

/-- The text of a line is the line without its endings. -/
theorem IsLine.lineText? (h : IsLine front line rest) :
    (ofText (front ++ line ++ rest)).lineText? (front ++ line ++ rest)
      (1 + front.count '\n') = some (dropEndWhile isEnding line) := by
  have hstart := lineStart?_ofText h.front (line ++ rest)
  rw [← List.append_assoc] at hstart
  rw [LineTable.lineText?, hstart, Option.bind_some]
  dsimp only
  rw [h.slice?, Option.map_some, ← h.dropEndWhile_isEnding]
  rfl

end Prose.LineTable
