import Mathlib.Data.List.TakeWhile
import Prose.Text.Blank

/-!
The first word of a line: it stands after white space only, holds none, and goes on
until white space or the end of the line. A line without a first word is blank.
-/

namespace Prose.Text

/-- The word is the first one of the line. -/
def IsFirstWord (line word : List Char) : Prop :=
  ∃ before after, line = before ++ word ++ after ∧ isBlankText before = true ∧
    word ≠ [] ∧ (∀ c ∈ word, isBlank c = false) ∧
    ∀ c, after.head? = some c → isBlank c = true

theorem isFirstWord_of_firstWord? {line word : List Char}
    (h : firstWord? line = some word) : IsFirstWord line word := by
  unfold firstWord? at h
  split at h
  · cases h
  · next c rest htrim =>
      cases h
      rw [trimStart] at htrim
      have hc : isBlank c = false := by
        have hhead := List.head?_dropWhile_not isBlank line
        rwa [htrim] at hhead
      refine ⟨line.takeWhile isBlank,
        (c :: rest).dropWhile fun d => !isBlank d, ?_, ?_, ?_, ?_, ?_⟩
      · rw [List.append_assoc, List.takeWhile_append_dropWhile, ← htrim,
          List.takeWhile_append_dropWhile]
      · exact List.all_takeWhile
      · rw [List.takeWhile_cons_of_pos (by rw [hc]; rfl)]
        exact List.cons_ne_nil _ _
      · intro d hd
        simpa using List.mem_takeWhile_imp hd
      · intro d hd
        have hhead := List.head?_dropWhile_not (fun d => !isBlank d) (c :: rest)
        rw [hd] at hhead
        simpa using hhead

theorem firstWord?_eq_none_iff {line : List Char} :
    firstWord? line = none ↔ isBlankText line = true := by
  have htrim : trimStart line = [] ↔ isBlankText line = true := by
    rw [trimStart, List.dropWhile_eq_nil_iff, isBlankText, List.all_eq_true]
  unfold firstWord?
  split
  · next hnil => simpa using htrim.1 hnil
  · next c rest hcons => simpa [hcons] using htrim

/-- Lines are all blank, or there is a first one that is not. -/
theorem all_blank_or_exists_word (ls : List (List Char)) :
    (∀ line ∈ ls, isBlankText line = true) ∨
      ∃ blanks line rest word, ls = blanks ++ line :: rest ∧
        (∀ blank ∈ blanks, isBlankText blank = true) ∧
        firstWord? line = some word := by
  induction ls with
  | nil => exact .inl nofun
  | cons first ls ih =>
      cases hword : firstWord? first with
      | some word => exact .inr ⟨[], first, ls, word, rfl, nofun, hword⟩
      | none =>
          have hblank := firstWord?_eq_none_iff.1 hword
          rcases ih with hall | ⟨blanks, line, rest, word, rfl, hblanks, hline⟩
          · exact .inl (List.forall_mem_cons.2 ⟨hblank, hall⟩)
          · exact .inr ⟨first :: blanks, line, rest, word, rfl,
              List.forall_mem_cons.2 ⟨hblank, hblanks⟩, hline⟩

end Prose.Text
