import Prose.Layout.Line

/-!
Cutting texts at byte offsets. A cut at the length of a first part gives the
second part, so the bytes of a part are found again wherever it stands.
-/

namespace Prose.Text

theorem byteLength_pos {cs : List Char} (h : cs ≠ []) : 0 < byteLength cs := by
  cases cs with
  | nil => exact absurd rfl h
  | cons c cs => exact Nat.add_pos_left c.utf8Size_pos _

theorem dropBytes?_append (xs ys : List Char) :
    dropBytes? (byteLength xs) (xs ++ ys) = some ys := by
  induction xs with
  | nil => rw [byteLength_nil, dropBytes?, List.nil_append]
  | cons c cs ih =>
      have hpos := c.utf8Size_pos
      obtain ⟨n, hn⟩ : ∃ n, c.utf8Size + byteLength cs = n + 1 :=
        ⟨c.utf8Size + byteLength cs - 1, by omega⟩
      have hle : c.utf8Size ≤ n + 1 := by omega
      have hrest : n + 1 - c.utf8Size = byteLength cs := by omega
      simp only [byteLength_cons, List.cons_append, hn, dropBytes?, hle,
        if_true, hrest, ih]

theorem takeBytes?_append (xs ys : List Char) :
    takeBytes? (byteLength xs) (xs ++ ys) = some xs := by
  induction xs with
  | nil => rw [byteLength_nil, takeBytes?]
  | cons c cs ih =>
      have hpos := c.utf8Size_pos
      obtain ⟨n, hn⟩ : ∃ n, c.utf8Size + byteLength cs = n + 1 :=
        ⟨c.utf8Size + byteLength cs - 1, by omega⟩
      have hle : c.utf8Size ≤ n + 1 := by omega
      have hrest : n + 1 - c.utf8Size = byteLength cs := by omega
      simp only [byteLength_cons, List.cons_append, hn, takeBytes?, hle,
        if_true, hrest, ih, Option.map_some]

/-- A part of a text is what lies between its ends. -/
theorem slice?_append (before part after : List Char) :
    slice? (byteLength before) (byteLength before + byteLength part)
      (before ++ part ++ after) = some part := by
  have hle : byteLength before ≤ byteLength before + byteLength part :=
    Nat.le_add_right _ _
  rw [slice?, if_pos hle, List.append_assoc, dropBytes?_append,
    Option.bind_some, Nat.add_sub_cancel_left, takeBytes?_append]

/-- Trimming takes white space away from both ends. -/
theorem trim_split (cs : List Char) :
    ∃ after, cs = cs.takeWhile isBlank ++ trim cs ++ after := by
  have hsplit : cs = cs.takeWhile isBlank ++ cs.dropWhile isBlank :=
    List.takeWhile_append_dropWhile.symm
  let rest := (trimStart cs).reverse
  have hrest : trimStart cs =
      (rest.dropWhile isBlank).reverse ++ (rest.takeWhile isBlank).reverse := by
    rw [← List.reverse_append, List.takeWhile_append_dropWhile]
    simp [rest]
  refine ⟨(rest.takeWhile isBlank).reverse, ?_⟩
  calc cs = cs.takeWhile isBlank ++ trimStart cs := hsplit
    _ = _ := by
        rw [List.append_assoc]
        exact congrArg _ hrest

/-- A line begins with what is left of it without its ending. -/
theorem stripEnding_prefix (line : List Char) :
    ∃ ending, line = stripEnding line ++ ending := by
  unfold stripEnding
  split
  · next rest hrev =>
      refine ⟨['\r', '\n'], ?_⟩
      have := congrArg List.reverse hrev
      simpa using this
  · next rest _ hrev =>
      refine ⟨['\n'], ?_⟩
      have := congrArg List.reverse hrev
      simpa using this
  · exact ⟨[], by simp⟩

end Prose.Text
