import Mathlib.Data.List.TakeWhile
import Mathlib.Tactic.IntervalCases
import Prose.Proofs.Text.RawLines
import Prose.Text.Blank
import Prose.Token.Lexer

/-!
Texts up to the case of their letters. Two texts differ only in the case of
letters outside string literals exactly if they become equal once these letters
are put in lower case. A quotation mark opens a literal if another one follows
on the same line, so a literal never spans lines, and cutting a text into lines
or trimming a line keeps its literals whole.
-/

namespace Prose.Text

/-! ### Characters -/

/-- The letters whose case can be lowered. -/
def capitals : List Char := "ABCDEFGHIJKLMNOPQRSTUVWXYZ".toList

theorem toLower_eq_or_mem_capitals (c : Char) :
    c.toLower = c ∨ c ∈ capitals := by
  by_cases hc : 'A' ≤ c ∧ c ≤ 'Z'
  · right
    obtain ⟨hlow, hhigh⟩ := hc
    have hlow' : 65 ≤ c.toNat := hlow
    have hhigh' : c.toNat ≤ 90 := hhigh
    rw [← Char.ofNat_toNat c]
    interval_cases c.toNat <;> decide
  · left
    exact dif_neg hc

/-- What does not tell a capital from its small letter does not see the case of
a character at all. -/
theorem apply_toLower {α : Type} {p : Char → α}
    (h : ∀ c ∈ capitals, p c.toLower = p c) (c : Char) : p c.toLower = p c := by
  rcases toLower_eq_or_mem_capitals c with hc | hc
  · rw [hc]
  · exact h c hc

/-- The same, checked letter by letter. -/
theorem apply_toLower_of_all {α : Type} [DecidableEq α] {p : Char → α}
    (h : capitals.all (fun c => p c.toLower = p c) = true) (c : Char) :
    p c.toLower = p c := by
  apply apply_toLower
  simpa using h

@[simp] theorem toLower_toLower (c : Char) : c.toLower.toLower = c.toLower :=
  apply_toLower_of_all (by decide) c

@[simp] theorem utf8Size_toLower (c : Char) : c.toLower.utf8Size = c.utf8Size :=
  apply_toLower_of_all (by decide) c

@[simp] theorem isBlank_toLower (c : Char) : isBlank c.toLower = isBlank c :=
  apply_toLower_of_all (by decide) c

@[simp] theorem isGap_toLower (c : Char) :
    Lexer.isGap c.toLower = Lexer.isGap c :=
  apply_toLower_of_all (by decide) c

@[simp] theorem isDigit_toLower (c : Char) :
    Decimal.isDigit c.toLower = Decimal.isDigit c :=
  apply_toLower_of_all (by decide) c

@[simp] theorem isWordStart_toLower (c : Char) :
    Lexer.isWordStart c.toLower = Lexer.isWordStart c :=
  apply_toLower_of_all (by decide) c

@[simp] theorem isWordPart_toLower (c : Char) :
    Lexer.isWordPart c.toLower = Lexer.isWordPart c :=
  apply_toLower_of_all (by decide) c

@[simp] theorem isTextPart_toLower (c : Char) :
    Lexer.isTextPart c.toLower = Lexer.isTextPart c :=
  apply_toLower_of_all (by decide) c

/-- The characters that no other character becomes in lower case. -/
def IsPlain (d : Char) : Prop :=
  capitals.all (fun c => c ≠ d ∧ c.toLower ≠ d) = true

instance (d : Char) : Decidable (IsPlain d) :=
  inferInstanceAs (Decidable (_ = true))

theorem IsPlain.ne {d : Char} (h : IsPlain d) {c : Char} (hc : c ∈ capitals) :
    c ≠ d ∧ c.toLower ≠ d := by
  simpa using List.all_eq_true.1 h c hc

theorem IsPlain.toLower_eq_iff {d : Char} (h : IsPlain d) (c : Char) :
    c.toLower = d ↔ c = d := by
  rcases toLower_eq_or_mem_capitals c with hc | hc
  · rw [hc]
  · exact iff_of_false (h.ne hc).2 (h.ne hc).1

theorem toLower_eq_of_not_isWordStart {c : Char}
    (h : Lexer.isWordStart c = false) : c.toLower = c := by
  rcases toLower_eq_or_mem_capitals c with hc | hc
  · exact hc
  · have hall : capitals.all Lexer.isWordStart = true := by decide
    rw [List.all_eq_true.1 hall c hc] at h
    cases h

/-! ### Texts without regard to literals -/

@[simp] theorem lower_cons (c : Char) (cs : List Char) :
    lower (c :: cs) = c.toLower :: lower cs := rfl

@[simp] theorem lower_append (xs ys : List Char) :
    lower (xs ++ ys) = lower xs ++ lower ys :=
  List.map_append

@[simp] theorem lower_lower (cs : List Char) : lower (lower cs) = lower cs := by
  simp [lower, Function.comp_def]

theorem lower_take (n : Nat) (cs : List Char) :
    lower (cs.take n) = (lower cs).take n :=
  List.map_take

/-- Runs of characters of a class are found whatever the case of letters. -/
theorem lower_dropWhile {p : Char → Bool} (hp : ∀ c, p c.toLower = p c)
    (cs : List Char) : lower (cs.dropWhile p) = (lower cs).dropWhile p := by
  induction cs with
  | nil => rfl
  | cons c cs ih =>
      rw [lower_cons, List.dropWhile_cons, List.dropWhile_cons, hp]
      split
      · exact ih
      · rfl

/-- The end of a text is the same character whatever the case of letters. -/
theorem getLast?_eq_iff_of_lower_eq {cs ds : List Char}
    (h : lower cs = lower ds) {d : Char} (hd : IsPlain d) :
    cs.getLast? = some d ↔ ds.getLast? = some d := by
  have hlast (es : List Char) :
      es.getLast? = some d ↔ (lower es).getLast? = some d := by
    simp [lower, List.getLast?_map, hd.toLower_eq_iff]
  rw [hlast cs, h, ← hlast ds]

@[simp] theorem lowerString_lowerString (s : String) :
    lowerString (lowerString s) = lowerString s := by
  simp [lowerString]

theorem lowerString_append (s t : String) :
    lowerString (s ++ t) = lowerString s ++ lowerString t := by
  simp [lowerString]

theorem lowerString_append_congr {s s' t t' : String}
    (hs : lowerString s = lowerString s')
    (ht : lowerString t = lowerString t') :
    lowerString (s ++ t) = lowerString (s' ++ t') := by
  rw [lowerString_append, hs, ht, lowerString_append]

/-! ### Letters outside literals -/

/-- Whether a literal that has just been opened is closed on its line. -/
def closes (cs : List Char) : Bool :=
  (cs.dropWhile Lexer.isTextPart).head? == some '"'

/-- A text with its letters outside string literals in lower case, from a place
inside a literal or outside. -/
def caselessFrom : Bool → List Char → List Char
  | _, [] => []
  | inside, c :: cs =>
    if c = '"' then '"' :: caselessFrom (!inside && closes cs) cs
    else (if inside then c else c.toLower) :: caselessFrom inside cs

/-- A text with its letters outside string literals in lower case. -/
def caseless (cs : List Char) : List Char := caselessFrom false cs

@[simp] theorem caseless_nil : caseless [] = [] := rfl

@[simp] theorem closes_nil : closes [] = false := rfl

@[simp] theorem closes_lineFeed (cs : List Char) :
    closes ('\n' :: cs) = false := rfl

theorem closes_cons {c : Char} (hc : Lexer.isTextPart c = true)
    (cs : List Char) : closes (c :: cs) = closes cs := by
  rw [closes, List.dropWhile_cons, if_pos hc, closes]

theorem closes_of_not_mem {cs : List Char} (h : '"' ∉ cs) :
    closes cs = false := by
  rw [closes, beq_eq_false_iff_ne]
  intro hhead
  exact h ((List.dropWhile_sublist _).mem (List.mem_of_head? hhead))

/-- What comes after a text closes none of its literals unless it begins inside
a line that closes one. -/
theorem closes_append {ys : List Char} (hys : closes ys = false)
    (xs : List Char) : closes (xs ++ ys) = closes xs := by
  induction xs with
  | nil => exact hys
  | cons c xs ih =>
      cases hc : Lexer.isTextPart c with
      | true => rw [List.cons_append, closes_cons hc, closes_cons hc, ih]
      | false => simp [closes, hc]

theorem caseless_quote (cs : List Char) :
    caseless ('"' :: cs) = '"' :: caselessFrom (closes cs) cs := by
  rw [caseless, caselessFrom, if_pos rfl]
  rfl

theorem caseless_cons {c : Char} (hc : c ≠ '"') (cs : List Char) :
    caseless (c :: cs) = c.toLower :: caseless cs := by
  rw [caseless, caselessFrom, if_neg hc]
  rfl

/-- Outside quotation marks every letter is lowered. -/
theorem caseless_append {xs : List Char} (hxs : '"' ∉ xs) (ys : List Char) :
    caseless (xs ++ ys) = lower xs ++ caseless ys := by
  induction xs with
  | nil => rfl
  | cons c xs ih =>
      rw [List.mem_cons, not_or] at hxs
      rw [List.cons_append, caseless_cons (Ne.symm hxs.1), ih hxs.2]
      rfl

theorem caseless_of_not_mem {cs : List Char} (h : '"' ∉ cs) :
    caseless cs = lower cs := by
  simpa using caseless_append h []

/-- A literal is kept as it is. -/
theorem caselessFrom_literal {xs : List Char} (hxs : '"' ∉ xs)
    (ys : List Char) :
    caselessFrom true (xs ++ '"' :: ys) = xs ++ '"' :: caseless ys := by
  induction xs with
  | nil => rfl
  | cons c xs ih =>
      rw [List.mem_cons, not_or] at hxs
      rw [List.cons_append, caselessFrom, if_neg (Ne.symm hxs.1), ih hxs.2]
      rfl

example : caseless "SET It TO \"Big\" + \"Cut".toList =
    "set it to \"Big\" + \"cut".toList := by decide

/-- A text and what comes after it are lowered separately, unless the latter
closes a literal of the former. -/
theorem caselessFrom_append {ys : List Char} (hys : closes ys = false)
    {inside : Bool} {xs : List Char} (hxs : inside = true → closes xs = true) :
    caselessFrom inside (xs ++ ys) = caselessFrom inside xs ++ caseless ys := by
  induction xs generalizing inside with
  | nil =>
      cases inside with
      | false => rfl
      | true => exact absurd (hxs rfl) (by simp)
  | cons c xs ih =>
      rw [List.cons_append, caselessFrom, caselessFrom]
      split
      · rw [closes_append hys, ih (by simp), List.cons_append]
      · next hc =>
          rw [ih, List.cons_append]
          rintro rfl
          have hclosed := hxs rfl
          cases htext : Lexer.isTextPart c with
          | true => rwa [closes_cons htext] at hclosed
          | false => simp [closes, htext, hc] at hclosed

theorem caseless_append_of_closes {ys : List Char} (hys : closes ys = false)
    (xs : List Char) : caseless (xs ++ ys) = caseless xs ++ caseless ys :=
  caselessFrom_append hys nofun

@[simp] theorem lower_caselessFrom (inside : Bool) (cs : List Char) :
    lower (caselessFrom inside cs) = lower cs := by
  induction cs generalizing inside with
  | nil => rfl
  | cons c cs ih =>
      rw [caselessFrom]
      split
      · next hc => rw [lower_cons, ih, lower_cons, hc]
      · rw [lower_cons, ih, lower_cons]
        split
        · rfl
        · rw [toLower_toLower]

@[simp] theorem lower_caseless (cs : List Char) :
    lower (caseless cs) = lower cs :=
  lower_caselessFrom false cs

@[simp] theorem byteLength_lower (cs : List Char) :
    byteLength (lower cs) = byteLength cs := by
  induction cs with
  | nil => rfl
  | cons c cs ih => rw [lower_cons, byteLength_cons, ih, utf8Size_toLower]; rfl

@[simp] theorem byteLength_caseless (cs : List Char) :
    byteLength (caseless cs) = byteLength cs := by
  rw [← byteLength_lower, lower_caseless, byteLength_lower]

/-! ### Runs of characters -/

section Runs

variable {p : Char → Bool} (hp : ∀ c, p c.toLower = p c)
  (hquote : p '"' = false)
include hp hquote

/-- A class of characters without the quotation mark stays in front of the
first literal. -/
theorem takeWhile_caseless (cs : List Char) :
    (caseless cs).takeWhile p = lower (cs.takeWhile p) := by
  induction cs with
  | nil => rfl
  | cons c cs ih =>
      by_cases hc : c = '"'
      · rw [hc, caseless_quote, List.takeWhile_cons, List.takeWhile_cons,
          hquote]
        rfl
      · rw [caseless_cons hc, List.takeWhile_cons, List.takeWhile_cons, hp, ih]
        split <;> rfl

theorem dropWhile_caseless (cs : List Char) :
    (caseless cs).dropWhile p = caseless (cs.dropWhile p) := by
  induction cs with
  | nil => rfl
  | cons c cs ih =>
      by_cases hc : c = '"'
      · rw [hc, caseless_quote, List.dropWhile_cons, List.dropWhile_cons,
          hquote, if_neg (by simp), if_neg (by simp), caseless_quote]
      · rw [caseless_cons hc, List.dropWhile_cons, List.dropWhile_cons, hp, ih]
        split
        · rfl
        · rw [caseless_cons hc]

end Runs

@[simp] theorem trimStart_caseless (cs : List Char) :
    trimStart (caseless cs) = caseless (trimStart cs) :=
  dropWhile_caseless isBlank_toLower (by decide) cs

/-- A text is what is left after trimming its end, and white space. -/
theorem exists_trimEnd_append (cs : List Char) :
    ∃ ws, (∀ c ∈ ws, isBlank c = true) ∧ cs = trimEnd cs ++ ws := by
  refine ⟨(cs.reverse.takeWhile isBlank).reverse, ?_, ?_⟩
  · intro c hc
    exact List.mem_takeWhile_imp (List.mem_reverse.1 hc)
  · rw [trimEnd, dropEndWhile, ← List.reverse_append,
      List.takeWhile_append_dropWhile, List.reverse_reverse]

theorem trimEnd_append {ws : List Char} (hws : ∀ c ∈ ws, isBlank c = true)
    (cs : List Char) : trimEnd (cs ++ ws) = trimEnd cs := by
  rw [trimEnd, dropEndWhile, List.reverse_append, List.dropWhile_append_of_pos]
  · rfl
  · intro c hc
    exact hws c (List.mem_reverse.1 hc)

theorem trimEnd_lower (cs : List Char) :
    trimEnd (lower cs) = lower (trimEnd cs) := by
  have hreverse : (lower cs).reverse = lower cs.reverse := List.map_reverse.symm
  rw [trimEnd, dropEndWhile, hreverse, ← lower_dropWhile isBlank_toLower]
  exact List.map_reverse.symm

theorem trimEnd_trimEnd (cs : List Char) :
    trimEnd (trimEnd cs) = trimEnd cs := by
  obtain ⟨ws, hws, hcs⟩ := exists_trimEnd_append cs
  rw [← trimEnd_append hws, ← hcs]

/-- What is trimmed at the end is white space, which belongs to no literal. -/
@[simp] theorem trimEnd_caseless (cs : List Char) :
    trimEnd (caseless cs) = caseless (trimEnd cs) := by
  obtain ⟨ws, hws, hcs⟩ := exists_trimEnd_append cs
  have hquote : '"' ∉ ws := by
    intro hmem
    exact absurd (hws _ hmem) (by decide)
  have hsplit : caseless cs = caseless (trimEnd cs) ++ lower ws := by
    rw [← caseless_of_not_mem hquote,
      ← caseless_append_of_closes (closes_of_not_mem hquote), ← hcs]
  have hblank : ∀ c ∈ lower ws, isBlank c = true := by
    intro c hc
    obtain ⟨d, hd, rfl⟩ := List.mem_map.1 hc
    rw [isBlank_toLower]
    exact hws d hd
  rw [hsplit, trimEnd_append hblank]
  -- Nothing more is trimmed, for the length left is that of the trimmed text.
  obtain ⟨more, _, hmore⟩ := exists_trimEnd_append (caseless (trimEnd cs))
  have hlength : (trimEnd (caseless (trimEnd cs))).length =
      (caseless (trimEnd cs)).length := by
    have hlower (ds : List Char) : (lower ds).length = ds.length :=
      List.length_map ..
    rw [← hlower, ← trimEnd_lower, lower_caseless, trimEnd_lower,
      trimEnd_trimEnd, ← lower_caseless, hlower]
  have hnil : more = [] := by
    have htotal := congrArg List.length hmore
    rw [List.length_append, hlength] at htotal
    exact List.eq_nil_of_length_eq_zero (by omega)
  rw [hnil, List.append_nil] at hmore
  exact hmore.symm

@[simp] theorem trim_caseless (cs : List Char) :
    trim (caseless cs) = caseless (trim cs) := by
  rw [trim, trimStart_caseless, trimEnd_caseless, trim]

theorem isBlankText_lower (cs : List Char) :
    isBlankText (lower cs) = isBlankText cs := by
  simp [isBlankText, lower, Function.comp_def]

@[simp] theorem isBlankText_caseless (cs : List Char) :
    isBlankText (caseless cs) = isBlankText cs := by
  rw [← isBlankText_lower, lower_caseless, isBlankText_lower]

/-! ### Lines -/

theorem mem_caseless_iff {d : Char} (hd : IsPlain d) {cs : List Char} :
    d ∈ caseless cs ↔ d ∈ cs := by
  have hmem (es : List Char) : d ∈ lower es ↔ d ∈ es := by
    simp [lower, List.mem_map, hd.toLower_eq_iff]
  rw [← hmem, lower_caseless, hmem]

theorem caseless_append_lineFeed (line rest : List Char) :
    caseless (line ++ '\n' :: rest) =
      caseless line ++ '\n' :: caseless rest := by
  rw [caseless_append_of_closes (closes_lineFeed rest),
    caseless_cons (by decide)]
  rfl

theorem AreRaw.caseless {raws : List (List Char)} (h : AreRaw raws) :
    AreRaw (raws.map Text.caseless) ∧
      (raws.map Text.caseless).flatten = Text.caseless raws.flatten := by
  have hfeed : IsPlain '\n' := by decide
  induction h with
  | nil => exact ⟨.nil, rfl⟩
  | @last line hne hline =>
      refine ⟨.last ?_ (by rwa [mem_caseless_iff hfeed]), by simp⟩
      intro hnil
      have hlower := lower_caseless line
      rw [hnil] at hlower
      exact hne (List.map_eq_nil_iff.1 hlower.symm)
  | @cons line rest hline hrest ih =>
      have hfirst : Text.caseless (line ++ ['\n']) =
          Text.caseless line ++ ['\n'] := caseless_append_lineFeed line []
      rw [List.map_cons, hfirst]
      refine ⟨.cons (by rwa [mem_caseless_iff hfeed]) ih.1, ?_⟩
      rw [List.flatten_cons, ih.2, List.flatten_cons, List.append_assoc,
        List.append_assoc, List.singleton_append, List.singleton_append,
        caseless_append_lineFeed]

/-- A text is cut into the same lines whatever the case of its letters. -/
theorem rawLines_caseless (text : List Char) :
    rawLines (caseless text) = (rawLines text).map caseless := by
  have h := (areRaw_rawLines text).caseless
  rw [flatten_rawLines] at h
  rw [← h.2, h.1.rawLines_flatten]

/-- How a line ends. -/
theorem ending_cases (line : List Char) :
    (∃ cs, line = cs ++ ['\r', '\n']) ∨
      (∃ cs, line = cs ++ ['\n'] ∧ cs.getLast? ≠ some '\r') ∨
      line.getLast? ≠ some '\n' := by
  by_cases hfeed : line.getLast? = some '\n'
  · obtain ⟨cs, rfl⟩ := List.getLast?_eq_some_iff.1 hfeed
    by_cases hreturn : cs.getLast? = some '\r'
    · obtain ⟨ds, rfl⟩ := List.getLast?_eq_some_iff.1 hreturn
      exact .inl ⟨ds, by simp⟩
    · exact .inr (.inl ⟨cs, rfl, hreturn⟩)
  · exact .inr (.inr hfeed)

theorem stripEnding_of_getLast? {line : List Char}
    (h : line.getLast? ≠ some '\n') : stripEnding line = line := by
  rw [← List.head?_reverse] at h
  rw [stripEnding]
  split
  · next hreverse => exact absurd (by rw [hreverse]; rfl) h
  · next hreverse => exact absurd (by rw [hreverse]; rfl) h
  · rfl

@[simp] theorem stripEnding_caseless (line : List Char) :
    stripEnding (caseless line) = caseless (stripEnding line) := by
  have hlast {d : Char} (hd : IsPlain d) (cs : List Char) :
      (caseless cs).getLast? = some d ↔ cs.getLast? = some d :=
    getLast?_eq_iff_of_lower_eq (lower_caseless cs) hd
  rcases ending_cases line with ⟨cs, rfl⟩ | ⟨cs, rfl, hreturn⟩ | hfeed
  · have hsplit : caseless (cs ++ ['\r', '\n']) =
        caseless cs ++ ['\r', '\n'] :=
      caseless_append_of_closes (by decide) cs
    rw [hsplit, stripEnding_append_carriageReturn,
      stripEnding_append_carriageReturn]
  · rw [caseless_append_lineFeed cs [], caseless_nil,
      stripEnding_append_lineFeed hreturn, stripEnding_append_lineFeed]
    rwa [Ne, hlast (by decide)]
  · rw [stripEnding_of_getLast? hfeed, stripEnding_of_getLast?]
    rwa [Ne, hlast (by decide)]

end Prose.Text
