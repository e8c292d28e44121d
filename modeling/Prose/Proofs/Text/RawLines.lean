import Mathlib.Data.List.Basic
import Prose.Text.Lines

/-!
Lines with their endings. A list of lines is what a text is cut into exactly if
a line feed stands at the end of each of them and nowhere else, and the last one
may lack it.
-/

namespace Prose.Text

/-- Lines as a text is cut into them. -/
inductive AreRaw : List (List Char) → Prop where
  | nil : AreRaw []
  | last {line : List Char} : line ≠ [] → '\n' ∉ line → AreRaw [line]
  | cons {line : List Char} {rest : List (List Char)} :
      '\n' ∉ line → AreRaw rest → AreRaw ((line ++ ['\n']) :: rest)

theorem areRaw_rawLines (text : List Char) : AreRaw (rawLines text) := by
  induction text with
  | nil => exact .nil
  | cons c text ih =>
      rw [rawLines]
      split
      · exact .cons (List.not_mem_nil (a := '\n')) ih
      · next hc =>
          generalize rawLines text = raws at ih
          cases ih with
          | nil => exact .last (by simp) (by simpa using Ne.symm hc)
          | last _ hline =>
              exact .last (by simp)
                (by simpa using ⟨Ne.symm hc, hline⟩)
          | @cons line rest hline hrest =>
              have hcons : '\n' ∉ c :: line := by
                simpa using ⟨Ne.symm hc, hline⟩
              exact .cons hcons hrest

theorem AreRaw.ending {raws : List (List Char)} (h : AreRaw raws)
    {raw : List Char} (hraw : raw ∈ raws) :
    '\n' ∉ raw ∨ ∃ line, raw = line ++ ['\n'] := by
  induction h with
  | nil => cases hraw
  | last _ hline =>
      rw [List.mem_singleton] at hraw
      exact .inl (hraw ▸ hline)
  | cons hline hrest ih =>
      rcases List.mem_cons.1 hraw with rfl | hraw
      · exact .inr ⟨_, rfl⟩
      · exact ih hraw

theorem rawLines_append_lineFeed {line : List Char} (hline : '\n' ∉ line)
    (rest : List Char) :
    rawLines (line ++ '\n' :: rest) = (line ++ ['\n']) :: rawLines rest := by
  induction line with
  | nil => simp [rawLines]
  | cons c line ih =>
      rw [List.mem_cons, not_or] at hline
      rw [List.cons_append, rawLines, if_neg (Ne.symm hline.1), ih hline.2]
      rfl

theorem rawLines_of_not_mem {line : List Char} (hne : line ≠ [])
    (hline : '\n' ∉ line) : rawLines line = [line] := by
  induction line with
  | nil => exact absurd rfl hne
  | cons c line ih =>
      rw [List.mem_cons, not_or] at hline
      rw [rawLines, if_neg (Ne.symm hline.1)]
      cases line with
      | nil => rfl
      | cons d line => rw [ih (by simp) hline.2]

/-- Lines that are joined are cut again where they were. -/
theorem AreRaw.rawLines_flatten {raws : List (List Char)} (h : AreRaw raws) :
    rawLines raws.flatten = raws := by
  induction h with
  | nil => rfl
  | last hne hline => simpa using rawLines_of_not_mem hne hline
  | cons hline hrest ih =>
      rw [List.flatten_cons, List.append_assoc, List.singleton_append,
        rawLines_append_lineFeed hline, ih]

/-- A text that ends with a line is cut into lines by itself. -/
theorem rawLines_append {a : List Char} (ha : a = [] ∨ a.getLast? = some '\n')
    (b : List Char) : rawLines (a ++ b) = rawLines a ++ rawLines b := by
  have hraw := areRaw_rawLines a
  have hlast : (rawLines a).flatten = [] ∨
      (rawLines a).flatten.getLast? = some '\n' := by
    rwa [flatten_rawLines]
  rw [← flatten_rawLines a, hraw.rawLines_flatten]
  generalize rawLines a = raws at hraw hlast
  induction hraw with
  | nil => rfl
  | @last line hne hline =>
      -- A last line without its ending is no end of a text that ends with a line.
      rw [List.flatten_singleton] at hlast
      rcases hlast with rfl | hlast
      · exact absurd rfl hne
      · exact absurd (List.mem_of_getLast? hlast) hline
  | @cons line rest hline hrest ih =>
      have hrest : rest.flatten = [] ∨ rest.flatten.getLast? = some '\n' := by
        by_cases hnil : rest.flatten = []
        · exact .inl hnil
        · rw [List.flatten_cons, List.getLast?_append_of_ne_nil _ hnil] at hlast
          exact .inr (hlast.resolve_left (by simp))
      rw [List.flatten_cons, List.append_assoc, List.append_assoc,
        List.singleton_append, rawLines_append_lineFeed hline, ih hrest]
      rfl

theorem stripEnding_of_not_mem {line : List Char} (hline : '\n' ∉ line) :
    stripEnding line = line := by
  rw [stripEnding]
  split
  · next rest hreverse =>
      exact absurd (List.mem_reverse.1 (hreverse ▸ List.mem_cons_self)) hline
  · next rest _ hreverse =>
      exact absurd (List.mem_reverse.1 (hreverse ▸ List.mem_cons_self)) hline
  · rfl

theorem stripEnding_append_lineFeed {line : List Char}
    (hline : line.getLast? ≠ some '\r') :
    stripEnding (line ++ ['\n']) = line := by
  rw [← List.head?_reverse] at hline
  rw [stripEnding, List.reverse_append]
  cases hreverse : line.reverse with
  | nil => simpa using hreverse.symm
  | cons last rest =>
      have hlast : last ≠ '\r' := by
        intro heq
        exact hline (by rw [hreverse, heq]; rfl)
      have hback : (last :: rest).reverse = line := by
        rw [← hreverse, List.reverse_reverse]
      split
      · next h => simp_all
      · next h => simp_all
      · next h => simp_all

theorem stripEnding_append_carriageReturn (line : List Char) :
    stripEnding (line ++ ['\r', '\n']) = line := by
  simp [stripEnding]

variable {raws : List (List Char)}

/-- Lines of which some are left out. -/
theorem AreRaw.sublist (h : AreRaw raws) {left : List (List Char)}
    (hleft : left.Sublist raws) : AreRaw left := by
  induction h generalizing left with
  | nil =>
      rw [List.sublist_nil] at hleft
      exact hleft ▸ .nil
  | last hne hline =>
      rcases List.sublist_singleton.1 hleft with rfl | rfl
      · exact .nil
      · exact .last hne hline
  | cons hline hrest ih =>
      rcases List.sublist_cons_iff.1 hleft with hleft | ⟨rest, rfl, hrest⟩
      · exact ih hleft
      · exact .cons hline (ih hrest)

theorem AreRaw.not_mem_stripEnding (h : AreRaw raws) {raw : List Char}
    (hraw : raw ∈ raws) : '\n' ∉ stripEnding raw := by
  induction h with
  | nil => cases hraw
  | last _ hline =>
      rw [List.mem_singleton] at hraw
      rw [hraw, stripEnding_of_not_mem hline]
      exact hline
  | @cons line rest hline hrest ih =>
      rcases List.mem_cons.1 hraw with rfl | hraw
      · by_cases hreturn : line.getLast? = some '\r'
        · obtain ⟨front, rfl⟩ := List.getLast?_eq_some_iff.1 hreturn
          rw [List.append_assoc, List.singleton_append,
            stripEnding_append_carriageReturn]
          exact fun hmem => hline (List.mem_append_left _ hmem)
        · rw [stripEnding_append_lineFeed hreturn]
          exact hline
      · exact ih hraw

/-- Every line before another one ends in a line feed. -/
theorem AreRaw.count_before {before after : List (List Char)} {raw : List Char}
    (h : AreRaw (before ++ raw :: after)) :
    before.flatten.count '\n' = before.length := by
  induction before with
  | nil => rfl
  | cons first before ih =>
      generalize hrest : before ++ raw :: after = rest at h ih
      rw [List.cons_append, hrest] at h
      cases h with
      | last _ _ => simp at hrest
      | cons hline hmore =>
          rw [List.flatten_cons, List.count_append, List.count_append,
            List.count_eq_zero.2 hline, ih hmore, List.length_cons]
          simp [Nat.add_comm]

end Prose.Text
