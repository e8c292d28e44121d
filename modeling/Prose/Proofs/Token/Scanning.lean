import Mathlib.Data.List.Basic
import Prose.Proofs.Text.Bytes
import Prose.Token.Lexer

/-!
Where tokens end. A separator ends every token that is open before it, a string
literal only if the separator ends the line; so a text is cut into tokens part
by part, and every token stands where its characters do.
-/

namespace Prose.Lexer

open Text

/-- The characters that go on with no token but a string literal. -/
def isSeparator (sep : Char) : Bool :=
  !isWordPart sep && sep != '.' && sep != '='

section Separators

variable {p : Char → Bool} {sep : Char}

theorem takeWhile_append_cons (hsep : p sep = false) (cs rest : List Char) :
    (cs ++ sep :: rest).takeWhile p = cs.takeWhile p := by
  induction cs with
  | nil => simp [hsep]
  | cons c cs ih => cases hc : p c <;> simp [hc, ih]

theorem dropWhile_append_cons (hsep : p sep = false) (cs rest : List Char) :
    (cs ++ sep :: rest).dropWhile p = cs.dropWhile p ++ sep :: rest := by
  induction cs with
  | nil => simp [hsep]
  | cons c cs ih => cases hc : p c <;> simp [hc, ih]

theorem takeWhile_append_of_stopped {cs : List Char}
    (hstop : cs.dropWhile p ≠ []) (more : List Char) :
    (cs ++ more).takeWhile p = cs.takeWhile p := by
  induction cs with
  | nil => exact absurd rfl hstop
  | cons c cs ih =>
      cases hc : p c with
      | false => simp [hc]
      | true =>
          rw [List.dropWhile_cons_of_pos hc] at hstop
          rw [List.cons_append, List.takeWhile_cons_of_pos hc,
            List.takeWhile_cons_of_pos hc, ih hstop]

theorem dropWhile_append_of_stopped {cs : List Char}
    (hstop : cs.dropWhile p ≠ []) (more : List Char) :
    (cs ++ more).dropWhile p = cs.dropWhile p ++ more := by
  induction cs with
  | nil => exact absurd rfl hstop
  | cons c cs ih =>
      cases hc : p c with
      | false => simp [hc]
      | true =>
          rw [List.dropWhile_cons_of_pos hc] at hstop ⊢
          rw [List.cons_append, List.dropWhile_cons_of_pos hc, ih hstop]

theorem isDigit_of_isSeparator (h : isSeparator sep = true) :
    Decimal.isDigit sep = false := by
  simp only [isSeparator, isWordPart, Bool.and_eq_true, Bool.not_eq_true',
    Bool.or_eq_false_iff] at h
  exact h.1.1.2

theorem isWordPart_of_isSeparator (h : isSeparator sep = true) :
    isWordPart sep = false := by
  simp only [isSeparator, Bool.and_eq_true, Bool.not_eq_true'] at h
  exact h.1.1

end Separators

/-- The same token, with more left after it. -/
def Cut.extend (cut : Cut) (more : List Char) : Cut :=
  { cut with rest := cut.rest ++ more }

section Extending

variable {sep : Char} (hsep : isSeparator sep = true) (rest : List Char)
include hsep

theorem fraction?_append_cons (cs : List Char) :
    fraction? (cs ++ sep :: rest) =
      (fraction? cs).map fun f => (f.1, f.2 ++ sep :: rest) := by
  have hdigit := isDigit_of_isSeparator hsep
  have hdot : sep ≠ '.' := by
    simp only [isSeparator, Bool.and_eq_true, bne_iff_ne] at hsep
    exact hsep.1.2
  match cs with
  | [] => simp [fraction?, hdot]
  | [c] => by_cases hc : c = '.' <;> simp [fraction?, hc, hdigit]
  | c :: d :: cs =>
      by_cases hc : c = '.'
      · subst hc
        cases hd : Decimal.isDigit d with
        | false => simp [fraction?, hd]
        | true =>
            simp [fraction?, hd, takeWhile_append_cons hdigit,
              dropWhile_append_cons hdigit]
      · simp [fraction?, hc]

theorem numberFrom_append_cons (c : Char) (cs : List Char) :
    numberFrom c (cs ++ sep :: rest) =
      (numberFrom c cs).extend (sep :: rest) := by
  have hdigit := isDigit_of_isSeparator hsep
  unfold numberFrom
  rw [takeWhile_append_cons hdigit, dropWhile_append_cons hdigit,
    fraction?_append_cons hsep]
  cases fraction? (cs.dropWhile Decimal.isDigit) <;> rfl

theorem wordFrom_append_cons (c : Char) (cs : List Char) :
    wordFrom c (cs ++ sep :: rest) = (wordFrom c cs).extend (sep :: rest) := by
  have hpart := isWordPart_of_isSeparator hsep
  unfold wordFrom
  rw [takeWhile_append_cons hpart, dropWhile_append_cons hpart]
  rfl

theorem symbolFrom_append_cons (c : Char) (cs : List Char) :
    symbolFrom c (cs ++ sep :: rest) =
      (symbolFrom c cs).extend (sep :: rest) := by
  cases cs with
  | nil =>
      have hequal : sep ≠ '=' := by
        simp only [isSeparator, Bool.and_eq_true, bne_iff_ne] at hsep
        exact hsep.2
      have htwo : twoCharacters? c sep = none := by
        unfold twoCharacters?
        split <;> simp_all
      simp [symbolFrom, htwo, Cut.extend]
  | cons d cs =>
      simp only [List.cons_append, symbolFrom]
      cases twoCharacters? c d <;> rfl

omit hsep in
/-- A string literal goes on until a quotation mark or the end of the line. -/
theorem textFrom_append_cons (cs : List Char)
    (hstop : sep = '\n' ∨ cs.dropWhile isTextPart ≠ []) :
    textFrom (cs ++ sep :: rest) = (textFrom cs).extend (sep :: rest) := by
  have htake : (cs ++ sep :: rest).takeWhile isTextPart =
      cs.takeWhile isTextPart := by
    rcases hstop with rfl | hstop
    · exact takeWhile_append_cons rfl cs rest
    · exact takeWhile_append_of_stopped hstop _
  have hdrop : (cs ++ sep :: rest).dropWhile isTextPart =
      cs.dropWhile isTextPart ++ sep :: rest := by
    rcases hstop with rfl | hstop
    · exact dropWhile_append_cons rfl cs rest
    · exact dropWhile_append_of_stopped hstop _
  unfold textFrom
  rw [htake, hdrop]
  cases hleft : cs.dropWhile isTextPart with
  | nil =>
      have hnewline : sep = '\n' := hstop.resolve_right (by simp [hleft])
      simp [hnewline, Cut.extend]
  | cons c left =>
      by_cases hquote : c = '"'
      · simp [hquote, Cut.extend]
      · simp [hquote, Cut.extend]

/-- A separator ends the token before it. -/
theorem readToken_append_cons (c : Char) (cs : List Char)
    (hstop : c = '"' → sep = '\n' ∨ cs.dropWhile isTextPart ≠ []) :
    readToken c (cs ++ sep :: rest) =
      (readToken c cs).extend (sep :: rest) := by
  unfold readToken
  split
  · exact numberFrom_append_cons hsep rest c cs
  · split
    · next hquote => exact textFrom_append_cons rest cs (hstop hquote)
    · split
      · exact wordFrom_append_cons hsep rest c cs
      · exact symbolFrom_append_cons hsep rest c cs

end Extending

/-! ### Scanning part by part -/

theorem scan_nil (offset : Nat) : scan offset [] = [] := by
  rw [scan]

theorem scan_gap {c : Char} (hc : isGap c = true) (offset : Nat)
    (cs : List Char) :
    scan offset (c :: cs) = scan (offset + c.utf8Size) cs := by
  rw [scan, if_pos hc]

theorem scan_token {c : Char} (hc : isGap c = false) (offset : Nat)
    (cs : List Char) :
    scan offset (c :: cs) =
      ⟨(readToken c cs).reading,
        ⟨offset, offset + byteLength (readToken c cs).taken⟩⟩ ::
      scan (offset + byteLength (readToken c cs).taken)
        (readToken c cs).rest := by
  rw [scan, if_neg (by simp [hc])]

/-- The end of a line ends every token, so what follows is scanned afresh. -/
theorem scan_append_newline (offset : Nat) (cs rest : List Char) :
    scan offset (cs ++ '\n' :: rest) =
      scan offset cs ++ scan (offset + byteLength cs) ('\n' :: rest) := by
  induction offset, cs using scan.induct with
  | case1 offset => simp [scan_nil]
  | case2 offset c cs hgap ih =>
      rw [List.cons_append, scan_gap hgap, scan_gap hgap, ih, byteLength_cons,
        Nat.add_assoc]
  | case3 offset c cs hgap cut stop ih =>
      have hextend := readToken_append_cons (show isSeparator '\n' by decide)
        rest c cs (fun _ => .inl rfl)
      have hbytes := congrArg byteLength (taken_append_rest_readToken c cs)
      rw [byteLength_append] at hbytes
      rw [Bool.not_eq_true] at hgap
      rw [List.cons_append, scan_token hgap, scan_token hgap, hextend]
      simp only [Cut.extend, List.cons_append]
      rw [ih, Nat.add_assoc, hbytes]

/-- A character that is a token of its own. -/
theorem scan_mark {c : Char} (hc : c ∈ ['\n', indentMark, dedentMark])
    (offset : Nat) (cs : List Char) :
    scan offset (c :: cs) =
      ⟨readCharacter c, ⟨offset, offset + 1⟩⟩ :: scan (offset + 1) cs := by
  have hcut : readToken c cs = ⟨readCharacter c, [c], cs⟩ := by
    simp only [List.mem_cons, List.not_mem_nil, or_false] at hc
    rcases hc with rfl | rfl | rfl <;> cases cs <;> rfl
  have hgap : isGap c = false := by
    simp only [List.mem_cons, List.not_mem_nil, or_false] at hc
    rcases hc with rfl | rfl | rfl <;> rfl
  have hsize : c.utf8Size = 1 := by
    simp only [List.mem_cons, List.not_mem_nil, or_false] at hc
    rcases hc with rfl | rfl | rfl <;> rfl
  rw [scan_token hgap, hcut]
  simp [hsize]

/-- Every token stands where its characters do. -/
theorem mem_scan {offset : Nat} {cs : List Char} {lexeme : Lexeme}
    (hmem : lexeme ∈ scan offset cs) :
    ∃ before taken after, cs = before ++ taken ++ after ∧ taken ≠ [] ∧
      lexeme.span = ⟨offset + byteLength before,
        offset + byteLength before + byteLength taken⟩ := by
  induction offset, cs using scan.induct with
  | case1 offset => simp [scan_nil] at hmem
  | case2 offset c cs hgap ih =>
      rw [scan_gap hgap] at hmem
      obtain ⟨before, taken, after, hcs, hne, hspan⟩ := ih hmem
      refine ⟨c :: before, taken, after, by simp [hcs], hne, ?_⟩
      rw [hspan, byteLength_cons, Nat.add_assoc]
  | case3 offset c cs hgap cut stop ih =>
      have hpart := taken_append_rest_readToken c cs
      rw [scan_token (by simpa using hgap), List.mem_cons] at hmem
      rcases hmem with rfl | hmem
      · refine ⟨[], (readToken c cs).taken, (readToken c cs).rest, ?_,
          taken_readToken_ne_nil c cs, by simp⟩
        simp [hpart]
      · obtain ⟨before, taken, after, hcs, hne, hspan⟩ := ih hmem
        refine ⟨(readToken c cs).taken ++ before, taken, after, ?_, hne, ?_⟩
        · rw [← hpart, hcs]
          simp
        · rw [hspan, byteLength_append, Nat.add_assoc]

end Prose.Lexer
