import Mathlib.Data.Nat.Digits.Defs
import Prose.Proofs.Caseless.Text
import Prose.Proofs.Token.Places

/-!
The patterns of tokens. Where a token can begin, it is the longest text that
matches a pattern, and the pattern says what the text means; only one pattern
matches it. A character at which no pattern matches is left over by itself. So
the tokens of a text, and the blanks between them, account for all of its bytes.
-/

namespace Prose.Lexer

open Text

/-- Tokens that are always spelled in the same way. -/
inductive Sign where
  | newline
  | indent
  | dedent
  | symbol (symbol : Symbol)

namespace Sign

def kind : Sign → Token.Kind
  | newline => .newline
  | indent => .indent
  | dedent => .dedent
  | symbol s => .symbol s

def spelling : Sign → List Char
  | newline => ['\n']
  | indent => [indentMark]
  | dedent => [dedentMark]
  | symbol s => s.spelling.toList

end Sign

def AreDigits (cs : List Char) : Prop :=
  cs ≠ [] ∧ ∀ c ∈ cs, Decimal.isDigit c = true

/-- What a token can look like. -/
inductive Pattern where
  | sign (sign : Sign)
  | integer
  | real
  /-- A string literal. -/
  | text
  /-- A string literal that does not end. -/
  | openText
  | word

namespace Pattern

/-- The texts that a pattern matches. -/
def Matches : Pattern → List Char → Prop
  | sign s, cs => cs = s.spelling
  | integer, cs => AreDigits cs
  | real, cs => ∃ whole fraction, cs = whole ++ '.' :: fraction ∧
      AreDigits whole ∧ AreDigits fraction
  | text, cs => ∃ inside, cs = '"' :: (inside ++ ['"']) ∧
      ∀ c ∈ inside, isTextPart c = true
  | openText, cs => ∃ inside, cs = '"' :: inside ∧
      ∀ c ∈ inside, isTextPart c = true
  | word, cs => isWordText cs = true

/-- What a text that a pattern matches means. -/
def Means : Pattern → List Char → Reading → Prop
  | sign s, _, reading => reading = .ok s.kind
  | integer, cs, reading =>
      let value : Nat := Nat.ofDigits 10 (cs.reverse.map Decimal.digitValue)
      (∃ n : Int64, n.toInt = value ∧ reading = .ok (.integer n)) ∨
        (¬ FitsInt64 value ∧ reading = .error .integerTooLarge)
  | real, cs, reading =>
      ∃ r, Decimal.readReal? cs = some r ∧ reading = .ok (.real r)
  | text, cs, reading => ∃ inside, cs = '"' :: (inside ++ ['"']) ∧
      reading = .ok (.text (String.ofList inside))
  | openText, _, reading => reading = .error .unterminatedText
  | word, cs, reading =>
      (∃ k : Keyword, k.word.toList = lower cs ∧ reading = .ok (.keyword k)) ∨
        ((∀ k : Keyword, k.word.toList ≠ lower cs) ∧
          reading = .ok (.word (.ofString (String.ofList cs))))

/-- The pattern is the only one that matches the characters that are taken, and
none matches more of what stands there. -/
structure Longest (p : Pattern) (taken rest : List Char) : Prop where
  matched : p.Matches taken
  longest : ∀ q more, Matches q more → more <+: taken ++ rest →
    more.length ≤ taken.length
  only : ∀ q, Matches q taken → q = p

end Pattern

/-- What is read of a text: the longest match of a pattern, with its meaning, or a
character, no blank, at which no pattern matches. -/
def IsToken (taken rest : List Char) (reading : Reading) : Prop :=
  (∃ p : Pattern, p.Longest taken rest ∧ p.Means taken reading) ∨
    ((∃ c, taken = [c] ∧ isGap c = false) ∧ reading = .error .unrecognised ∧
      ∀ q : Pattern, ∀ more, more <+: taken ++ rest → ¬ q.Matches more)

/-! ### How tokens begin -/

/-- What the first character of a token says of it. -/
inductive Start where
  | digit
  | quote
  | letter
  | other
deriving DecidableEq

/-- What a character says of the token that begins with it. -/
def startOf (c : Char) : Start :=
  if Decimal.isDigit c then .digit
  else if c = '"' then .quote
  else if isWordStart c then .letter
  else .other

theorem readToken_eq (c : Char) (cs : List Char) :
    readToken c cs = match startOf c with
      | .digit => numberFrom c cs
      | .quote => textFrom cs
      | .letter => wordFrom c cs
      | .other => symbolFrom c cs := by
  unfold readToken startOf
  split
  · rfl
  · split
    · rfl
    · split <;> rfl

theorem startOf_eq_digit_iff {c : Char} :
    startOf c = .digit ↔ Decimal.isDigit c = true := by
  unfold startOf
  split
  · simp_all
  · split
    · simp_all
    · split <;> simp_all

theorem startOf_of_isWordStart {c : Char} (h : isWordStart c = true) :
    startOf c = .letter := by
  have hquote : c ≠ '"' := by
    rintro rfl
    exact absurd h (by decide)
  rw [startOf, if_neg (by simp [isDigit_of_isWordStart h]), if_neg hquote,
    if_pos h]

theorem isWordStart_of_startOf {c : Char} (h : startOf c = .letter) :
    isWordStart c = true := by
  unfold startOf at h
  split at h
  · cases h
  · split at h
    · cases h
    · split at h
      · assumption
      · cases h

/-! ### Signs -/

namespace Sign

/-- A sign is one or two characters, and these are read as the sign. -/
theorem spelling_cases (s : Sign) :
    (∃ c, s.spelling = [c] ∧ oneCharacter? c = some s.kind) ∨
    ∃ c d symbol, s = .symbol symbol ∧ s.spelling = [c, d] ∧
      twoCharacters? c d = some symbol := by
  cases s with
  | newline => exact .inl ⟨_, rfl, rfl⟩
  | indent => exact .inl ⟨_, rfl, rfl⟩
  | dedent => exact .inl ⟨_, rfl, rfl⟩
  | symbol s =>
      cases s with
      | notEqual | lessEqual | greaterEqual =>
          exact .inr ⟨_, _, _, rfl, rfl, rfl⟩
      | _ => exact .inl ⟨_, rfl, rfl⟩

theorem exists_of_oneCharacter? {c : Char} {kind : Token.Kind}
    (h : oneCharacter? c = some kind) :
    ∃ s : Sign, s.kind = kind ∧ s.spelling = [c] := by
  unfold oneCharacter? at h
  split at h
  · cases h
    exact ⟨.newline, rfl, by simp_all [spelling]⟩
  · split at h
    · cases h
      exact ⟨.indent, rfl, by simp_all [spelling]⟩
    · split at h
      · cases h
        exact ⟨.dedent, rfl, by simp_all [spelling]⟩
      · split at h <;> cases h <;> exact ⟨.symbol _, rfl, rfl⟩

theorem spelling_of_twoCharacters? {c d : Char} {symbol : Symbol}
    (h : twoCharacters? c d = some symbol) :
    (Sign.symbol symbol).spelling = [c, d] := by
  unfold twoCharacters? at h
  split at h <;> cases h <;> rfl

theorem kind_injective {s t : Sign} (h : s.kind = t.kind) : s = t := by
  cases s <;> cases t <;> simp_all [kind]

theorem spelling_injective {s t : Sign} (h : s.spelling = t.spelling) :
    s = t := by
  rcases s.spelling_cases with ⟨c, hs, hc⟩ | ⟨c, d, symbol, rfl, hs, hcd⟩
  · rcases t.spelling_cases with ⟨c', ht, hc'⟩ | ⟨c', d', symbol', rfl, ht, -⟩
    · rw [hs, ht, List.singleton_inj] at h
      subst h
      exact kind_injective (Option.some.inj (hc.symm.trans hc'))
    · rw [hs, ht] at h
      cases h
  · rcases t.spelling_cases with ⟨c', ht, -⟩ | ⟨c', d', symbol', rfl, ht, hcd'⟩
    · rw [hs, ht] at h
      cases h
    · rw [hs, ht] at h
      cases h
      rw [Option.some.inj (hcd.symm.trans hcd')]

theorem start (s : Sign) :
    ∃ c cs, s.spelling = c :: cs ∧ startOf c = .other := by
  cases s with
  | newline => exact ⟨_, _, rfl, by decide⟩
  | indent => exact ⟨_, _, rfl, by decide⟩
  | dedent => exact ⟨_, _, rfl, by decide⟩
  | symbol s => cases s <;> exact ⟨_, _, rfl, by decide⟩

end Sign

/-! ### What patterns match -/

namespace Pattern

def start : Pattern → Start
  | sign _ => .other
  | integer | real => .digit
  | text | openText => .quote
  | word => .letter

variable {p q : Pattern} {cs : List Char}

theorem Matches.start (h : p.Matches cs) :
    ∃ c rest, cs = c :: rest ∧ startOf c = p.start := by
  cases p with
  | sign s =>
      obtain ⟨c, rest, hspelling, hstart⟩ := s.start
      exact ⟨c, rest, h.trans hspelling, hstart⟩
  | integer =>
      obtain ⟨hne, hall⟩ := h
      obtain ⟨c, rest, rfl⟩ := List.exists_cons_of_ne_nil hne
      exact ⟨c, rest, rfl, startOf_eq_digit_iff.2 (hall c List.mem_cons_self)⟩
  | real =>
      obtain ⟨whole, fraction, rfl, ⟨hne, hall⟩, -⟩ := h
      obtain ⟨c, rest, rfl⟩ := List.exists_cons_of_ne_nil hne
      exact ⟨c, _, rfl, startOf_eq_digit_iff.2 (hall c List.mem_cons_self)⟩
  | text =>
      obtain ⟨inside, rfl, -⟩ := h
      exact ⟨'"', _, rfl, rfl⟩
  | openText =>
      obtain ⟨inside, rfl, -⟩ := h
      exact ⟨'"', _, rfl, rfl⟩
  | word =>
      cases cs with
      | nil => cases h
      | cons c rest =>
          rw [Matches, isWordText, Bool.and_eq_true] at h
          exact ⟨c, rest, rfl, startOf_of_isWordStart h.1⟩

/-- A point is no digit. -/
theorem not_matches_integer_real (hinteger : integer.Matches cs)
    (hreal : real.Matches cs) : False := by
  obtain ⟨whole, fraction, rfl, -, -⟩ := hreal
  have hpoint := hinteger.2 '.' (by simp)
  cases hpoint

/-- A quotation mark ends a string literal. -/
theorem not_matches_text_openText (htext : text.Matches cs)
    (hopen : openText.Matches cs) : False := by
  obtain ⟨inside, rfl, -⟩ := htext
  obtain ⟨more, heq, hall⟩ := hopen
  obtain rfl := (List.cons.inj heq).2
  have hquote := hall '"' (by simp)
  cases hquote

/-- A text is matched by one pattern at most. -/
theorem Matches.unique (hp : p.Matches cs) (hq : q.Matches cs) : q = p := by
  have hstart : p.start = q.start := by
    obtain ⟨c, rest, rfl, hc⟩ := hp.start
    obtain ⟨c', rest', heq, hc'⟩ := hq.start
    cases heq
    exact hc.symm.trans hc'
  cases p with
  | sign s =>
      cases q with
      | sign t => rw [Sign.spelling_injective (hq.symm.trans hp)]
      | _ => cases hstart
  | integer =>
      cases q with
      | integer => rfl
      | real => exact (not_matches_integer_real hp hq).elim
      | _ => cases hstart
  | real =>
      cases q with
      | integer => exact (not_matches_integer_real hq hp).elim
      | real => rfl
      | _ => cases hstart
  | text =>
      cases q with
      | text => rfl
      | openText => exact (not_matches_text_openText hp hq).elim
      | _ => cases hstart
  | openText =>
      cases q with
      | text => exact (not_matches_text_openText hq hp).elim
      | openText => rfl
      | _ => cases hstart
  | word =>
      cases q with
      | word => rfl
      | _ => cases hstart

/-- A match of what begins with `c` is of a pattern whose texts begin so. -/
theorem Matches.prefix_cons {c : Char} {rest more : List Char}
    (h : q.Matches more) (hmore : more <+: c :: rest) :
    q.start = startOf c ∧ ∃ tail, more = c :: tail ∧ tail <+: rest := by
  obtain ⟨d, tail, rfl, hstart⟩ := h.start
  obtain ⟨rfl, htail⟩ := List.cons_prefix_cons.1 hmore
  exact ⟨hstart.symm, tail, rfl, htail⟩

end Pattern

/-! ### The longest match -/

variable {c : Char} {cs : List Char}

theorem prefix_takeWhile {p : Char → Bool} {more : List Char}
    (h : more <+: cs) (hall : ∀ d ∈ more, p d = true) :
    more <+: cs.takeWhile p := by
  obtain ⟨rest, rfl⟩ := h
  rw [List.takeWhile_append_of_pos hall]
  exact List.prefix_append _ _

/-- The characters of a class go up to the first one that is none of them. -/
theorem split_of_prefix {p : Char → Bool} {sep : Char} (hsep : p sep = false)
    {front more : List Char} (hall : ∀ d ∈ front, p d = true)
    (h : front ++ sep :: more <+: cs) :
    cs.takeWhile p = front ∧ sep :: more <+: cs.dropWhile p := by
  obtain ⟨rest, rfl⟩ := h
  rw [List.append_assoc, List.cons_append, takeWhile_append_cons hsep,
    dropWhile_append_cons hsep, List.takeWhile_eq_self_iff.2 hall,
    List.dropWhile_eq_nil_iff.2 hall]
  exact ⟨rfl, List.prefix_append (sep :: more) rest⟩

/-- A token is found if a pattern matches it and no pattern matches more. -/
theorem IsToken.of_matches {p : Pattern} {taken rest : List Char}
    {reading : Reading} (hmatches : p.Matches taken)
    (hmeans : p.Means taken reading)
    (hlongest : ∀ q more, Pattern.Matches q more → more <+: taken ++ rest →
      more.length ≤ taken.length) : IsToken taken rest reading :=
  .inl ⟨p, ⟨hmatches, hlongest, fun _ hq => hmatches.unique hq⟩, hmeans⟩

/-- A fraction is as long as there are digits. -/
theorem fraction?_eq_some {fraction rest : List Char}
    (h : fraction? cs = some (fraction, rest)) :
    ∃ digits, fraction = '.' :: digits ∧ AreDigits digits ∧
      ∀ more, AreDigits more → '.' :: more <+: cs → more <+: digits := by
  unfold fraction? at h
  split at h
  · next d ds =>
      split at h
      · next hd =>
          obtain ⟨rfl, -⟩ := Prod.mk.inj (Option.some.inj h)
          refine ⟨d :: ds.takeWhile Decimal.isDigit, rfl,
            ⟨List.cons_ne_nil _ _, ?_⟩, ?_⟩
          · exact List.forall_mem_cons.2 ⟨hd, fun _ => List.mem_takeWhile_imp⟩
          · intro more hmore hprefix
            have htail := (List.cons_prefix_cons.1 hprefix).2
            have hwhole := prefix_takeWhile htail hmore.2
            rwa [List.takeWhile_cons_of_pos hd] at hwhole
      · cases h
  · cases h

theorem fraction?_eq_none (h : fraction? cs = none) {more : List Char}
    (hmore : AreDigits more) : ¬ '.' :: more <+: cs := by
  rintro ⟨rest, rfl⟩
  obtain ⟨hne, hall⟩ := hmore
  obtain ⟨d, ds, rfl⟩ := List.exists_cons_of_ne_nil hne
  simp [fraction?, hall d List.mem_cons_self] at h

theorem means_integer (h : AreDigits cs) :
    Pattern.integer.Means cs (readInteger cs) := by
  have hvalue : Nat.ofDigits 10 (cs.reverse.map Decimal.digitValue) =
      Decimal.naturalValue cs := by
    rw [Nat.ofDigits_eq_foldr, List.foldr_map, List.foldr_reverse,
      Decimal.naturalValue]
    congr
    funext n d
    simp [Nat.add_comm]
  obtain ⟨hne, hall⟩ := h
  obtain ⟨d, ds, rfl⟩ := List.exists_cons_of_ne_nil hne
  have hread : Decimal.readInteger? (d :: ds) =
      Decimal.toInt64? (Decimal.naturalValue (d :: ds)) := by
    have hdigits : (d :: ds).all Decimal.isDigit = true :=
      List.all_eq_true.2 hall
    simp only [Decimal.readInteger?,
      takeSign_of_isDigit (hall d List.mem_cons_self), hdigits,
      List.isEmpty_cons, Bool.not_true, Bool.or_self, Bool.false_eq_true,
      if_false]
  rw [Pattern.Means, hvalue, readInteger, hread]
  split
  · next n hn => exact .inl ⟨n, Decimal.toInt64?_eq_some_iff.1 hn, rfl⟩
  · next hnone => exact .inr ⟨Decimal.toInt64?_eq_none_iff.1 hnone, rfl⟩

/-- Digits around a point are always a number. -/
theorem means_real (h : Pattern.real.Matches cs) :
    Pattern.real.Means cs (readReal cs) := by
  obtain ⟨whole, fraction, rfl, ⟨hne, hwhole⟩, -, hfraction⟩ := h
  obtain ⟨d, ds, rfl⟩ := List.exists_cons_of_ne_nil hne
  have hd := hwhole d List.mem_cons_self
  have hword : ∀ word : String, (word.toList.head?.all (!Decimal.isDigit ·)) →
      word ≠ "" → String.ofList ((d :: (ds ++ '.' :: fraction)).map
        Char.toLower) ≠ word := by
    rintro word hhead - rfl
    simp [isDigit_toLower, hd] at hhead
  have hinf := hword "inf" rfl (by decide)
  have hinfinity := hword "infinity" rfl (by decide)
  have hnan := hword "nan" rfl (by decide)
  have htake : (d :: (ds ++ '.' :: fraction)).takeWhile Decimal.isDigit =
      d :: ds := by
    rw [← List.cons_append, takeWhile_append_cons rfl,
      List.takeWhile_eq_self_iff.2 hwhole]
  have hdrop : (d :: (ds ++ '.' :: fraction)).dropWhile Decimal.isDigit =
      '.' :: fraction := by
    rw [← List.cons_append, dropWhile_append_cons rfl,
      List.dropWhile_eq_nil_iff.2 hwhole, List.nil_append]
  have hrest : fraction.dropWhile Decimal.isDigit = [] :=
    List.dropWhile_eq_nil_iff.2 hfraction
  have hmagnitude : ∃ r, Decimal.readMagnitude? (d :: (ds ++ '.' :: fraction)) =
      some r := by
    simp [Decimal.readMagnitude?, htake, hdrop, hrest, Decimal.readExponent?]
  obtain ⟨r, hr⟩ := hmagnitude
  have hread : Decimal.readReal? (d :: ds ++ '.' :: fraction) = some r := by
    simp only [Decimal.readReal?, List.cons_append, takeSign_of_isDigit hd, hinf,
      hinfinity, hnan, hr, or_self, if_false, Option.map_some,
      Bool.false_eq_true]
  exact ⟨r, hread, by rw [readReal, hread]⟩

theorem isToken_numberFrom (hc : Decimal.isDigit c = true) :
    IsToken (numberFrom c cs).taken (numberFrom c cs).rest
      (numberFrom c cs).reading := by
  have hdigits : AreDigits (c :: cs.takeWhile Decimal.isDigit) :=
    ⟨List.cons_ne_nil _ _,
      List.forall_mem_cons.2 ⟨hc, fun _ => List.mem_takeWhile_imp⟩⟩
  -- Only numbers begin with a digit, and their digits before the point are these.
  have hmatch : ∀ q more, Pattern.Matches q more →
      more <+: (numberFrom c cs).taken ++ (numberFrom c cs).rest →
      more.length ≤ 1 + (cs.takeWhile Decimal.isDigit).length ∨
      ∃ fraction, AreDigits fraction ∧
        '.' :: fraction <+: cs.dropWhile Decimal.isDigit ∧
        more = c :: cs.takeWhile Decimal.isDigit ++ '.' :: fraction := by
    intro q more hq hmore
    rw [taken_append_rest_numberFrom] at hmore
    obtain ⟨hstart, tail, rfl, htail⟩ := hq.prefix_cons hmore
    rw [startOf_eq_digit_iff.2 hc] at hstart
    cases q with
    | integer =>
        have hall := (List.forall_mem_cons.1 hq.2).2
        have hlength := (prefix_takeWhile htail hall).length_le
        rw [List.length_cons]
        omega
    | real =>
        obtain ⟨whole, fraction, heq, ⟨hne, hwhole⟩, hfraction⟩ := hq
        obtain ⟨d, ds, rfl⟩ := List.exists_cons_of_ne_nil hne
        obtain ⟨rfl, rfl⟩ := List.cons.inj heq
        obtain ⟨hds, hpoint⟩ := split_of_prefix (p := Decimal.isDigit) rfl
          (List.forall_mem_cons.1 hwhole).2 htail
        exact .inr ⟨fraction, hfraction, hpoint, by rw [hds]; rfl⟩
    | _ => cases hstart
  cases hfraction : fraction? (cs.dropWhile Decimal.isDigit) with
  | none =>
      have htaken : (numberFrom c cs).taken =
          c :: cs.takeWhile Decimal.isDigit := by simp [numberFrom, hfraction]
      have hreading : (numberFrom c cs).reading =
          readInteger (c :: cs.takeWhile Decimal.isDigit) := by
        simp [numberFrom, hfraction]
      refine .of_matches (p := .integer) ?_ ?_ ?_
      · rw [htaken]
        exact hdigits
      · rw [htaken, hreading]
        exact means_integer hdigits
      · intro q more hq hmore
        rcases hmatch q more hq hmore with hlength | ⟨fraction, hdigit, hpoint, -⟩
        · rw [htaken, List.length_cons]
          omega
        · exact absurd hpoint (fraction?_eq_none hfraction hdigit)
  | some found =>
      obtain ⟨fraction, rest⟩ := found
      obtain ⟨digits, rfl, hdigit, hlongest⟩ := fraction?_eq_some hfraction
      have htaken : (numberFrom c cs).taken =
          c :: cs.takeWhile Decimal.isDigit ++ '.' :: digits := by
        simp [numberFrom, hfraction]
      have hreading : (numberFrom c cs).reading =
          readReal (c :: cs.takeWhile Decimal.isDigit ++ '.' :: digits) := by
        simp [numberFrom, hfraction]
      have hreal : Pattern.real.Matches
          (c :: cs.takeWhile Decimal.isDigit ++ '.' :: digits) :=
        ⟨_, digits, rfl, hdigits, hdigit⟩
      refine .of_matches (p := .real) ?_ ?_ ?_
      · rw [htaken]
        exact hreal
      · rw [htaken, hreading]
        exact means_real hreal
      · intro q more hq hmore
        rcases hmatch q more hq hmore with hlength |
          ⟨fraction, hfractionDigits, hpoint, rfl⟩
        · rw [htaken, List.length_append, List.length_cons]
          omega
        · have hlength := (hlongest _ hfractionDigits hpoint).length_le
          simp only [htaken, List.length_append, List.length_cons]
          omega

theorem isToken_textFrom :
    IsToken (textFrom cs).taken (textFrom cs).rest (textFrom cs).reading := by
  have hinside : ∀ d ∈ cs.takeWhile isTextPart, isTextPart d = true :=
    fun _ => List.mem_takeWhile_imp
  -- Only literals begin with a quotation mark, and they go on up to the same place.
  have hmatch : ∀ q more, Pattern.Matches q more →
      more <+: (textFrom cs).taken ++ (textFrom cs).rest →
      more.length ≤ 1 + (cs.takeWhile isTextPart).length ∨
      (more.length = 2 + (cs.takeWhile isTextPart).length ∧
        ∃ rest, cs.dropWhile isTextPart = '"' :: rest) := by
    intro q more hq hmore
    rw [taken_append_rest_textFrom] at hmore
    obtain ⟨hstart, tail, rfl, htail⟩ := hq.prefix_cons hmore
    cases q with
    | text =>
        obtain ⟨inside, heq, hall⟩ := hq
        obtain ⟨-, rfl⟩ := List.cons.inj heq
        obtain ⟨hsame, rest, hrest⟩ :=
          split_of_prefix (p := isTextPart) rfl hall htail
        refine .inr ⟨?_, rest, hrest.symm⟩
        rw [hsame, List.length_cons, List.length_append, List.length_singleton]
        omega
    | openText =>
        obtain ⟨inside, heq, hall⟩ := hq
        obtain ⟨-, rfl⟩ := List.cons.inj heq
        have hlength := (prefix_takeWhile htail hall).length_le
        rw [List.length_cons]
        omega
    | _ => cases hstart
  unfold textFrom at hmatch ⊢
  split
  · next rest hclosed =>
      simp only [hclosed] at hmatch
      refine .of_matches (p := .text) ⟨_, rfl, hinside⟩ ⟨_, rfl, rfl⟩ ?_
      intro q more hq hmore
      have hlength := hmatch q more hq hmore
      simp only [List.length_cons, List.length_append, List.length_nil]
      omega
  · next hopen =>
      refine .of_matches (p := .openText) ⟨_, rfl, hinside⟩ rfl ?_
      intro q more hq hmore
      split at hmatch
      · next rest hclosed => exact absurd hclosed (hopen rest)
      · rcases hmatch q more hq hmore with hlength | ⟨-, rest, hclosed⟩
        · rw [List.length_cons]
          omega
        · exact absurd hclosed (hopen rest)

theorem ofWord?_eq_some {word : String} {k : Keyword}
    (h : Keyword.ofWord? word = some k) : k.word = lowerString word := by
  rw [Keyword.ofWord?] at h
  simpa using List.find?_some h

theorem ne_of_ofWord?_eq_none {word : String} (h : Keyword.ofWord? word = none)
    (k : Keyword) : k.word ≠ lowerString word := by
  have hall : k ∈ Keyword.all := by cases k <;> decide
  rw [Keyword.ofWord?, List.find?_eq_none] at h
  simpa using h k hall

theorem means_word (word : List Char) :
    Pattern.word.Means word (.ok (readWord (String.ofList word))) := by
  have hlower : lower word = (lowerString (String.ofList word)).toList := by
    simp [lowerString]
  rw [Pattern.Means, hlower, readWord]
  split
  · next k hk => exact .inl ⟨k, congrArg _ (ofWord?_eq_some hk), rfl⟩
  · next hnone =>
      refine .inr ⟨fun k hk => ?_, rfl⟩
      exact ne_of_ofWord?_eq_none hnone k (String.toList_injective hk)

theorem isToken_wordFrom (hc : isWordStart c = true) :
    IsToken (wordFrom c cs).taken (wordFrom c cs).rest
      (wordFrom c cs).reading := by
  refine .of_matches (p := .word) ?_ (means_word _) ?_
  · simp [Pattern.Matches, wordFrom, isWordText, hc]
  · intro q more hq hmore
    simp only [wordFrom, List.cons_append, List.takeWhile_append_dropWhile]
      at hmore
    obtain ⟨hstart, tail, rfl, htail⟩ := hq.prefix_cons hmore
    rw [startOf_of_isWordStart hc] at hstart
    cases q with
    | word =>
        simp only [Pattern.Matches, isWordText, Bool.and_eq_true,
          List.all_eq_true] at hq
        have hlength := (prefix_takeWhile htail hq.2).length_le
        simp only [wordFrom, List.length_cons]
        omega
    | _ => cases hstart

/-- Where a sign can begin, the only matches are signs of one character, read by
itself, or of two, read together. -/
theorem matches_of_other (hc : startOf c = .other) {q : Pattern}
    {more : List Char} (hq : q.Matches more) (hmore : more <+: c :: cs) :
    (more = [c] ∧ ∃ kind, oneCharacter? c = some kind) ∨
    ∃ d rest symbol, cs = d :: rest ∧ more = [c, d] ∧
      twoCharacters? c d = some symbol := by
  obtain ⟨hstart, tail, rfl, htail⟩ := hq.prefix_cons hmore
  rw [hc] at hstart
  cases q with
  | sign s =>
      rcases s.spelling_cases with ⟨c', hs, hone⟩ | ⟨c', d, symbol, -, hs, htwo⟩
      · obtain ⟨rfl, rfl⟩ := List.cons.inj (Eq.trans hq hs)
        exact .inl ⟨rfl, _, hone⟩
      · obtain ⟨rfl, rfl⟩ := List.cons.inj (Eq.trans hq hs)
        obtain ⟨rest, rfl⟩ := htail
        exact .inr ⟨d, rest, symbol, rfl, rfl, htwo⟩
  | integer | real | text | openText | word => cases hstart

/-- A character that is read by itself, where no two are read together. -/
theorem isToken_readCharacter (hgap : isGap c = false) (hc : startOf c = .other)
    (htwo : ∀ d rest, cs = d :: rest → twoCharacters? c d = none) :
    IsToken [c] cs (readCharacter c) := by
  have hmatch : ∀ q more, Pattern.Matches q more → more <+: [c] ++ cs →
      more = [c] ∧ ∃ kind, oneCharacter? c = some kind := by
    intro q more hq hmore
    rcases matches_of_other hc hq hmore with hone | ⟨d, rest, symbol, hcs, -, h⟩
    · exact hone
    · rw [htwo d rest hcs] at h
      cases h
  unfold readCharacter
  split
  · next kind hkind =>
      obtain ⟨s, rfl, hspelling⟩ := Sign.exists_of_oneCharacter? hkind
      refine .of_matches (p := .sign s) hspelling.symm rfl ?_
      intro q more hq hmore
      rw [(hmatch q more hq hmore).1]
  · next hnone =>
      refine .inr ⟨⟨c, rfl, hgap⟩, rfl, fun q more hmore hq => ?_⟩
      obtain ⟨-, kind, hkind⟩ := hmatch q more hq hmore
      rw [hnone] at hkind
      cases hkind

theorem isToken_symbolFrom (hgap : isGap c = false) (hc : startOf c = .other) :
    IsToken (symbolFrom c cs).taken (symbolFrom c cs).rest
      (symbolFrom c cs).reading := by
  unfold symbolFrom
  split
  · refine isToken_readCharacter hgap hc ?_
    rintro d rest ⟨⟩
  · next d rest =>
      split
      · next symbol hsymbol =>
          refine .of_matches (p := .sign (.symbol symbol))
            (Sign.spelling_of_twoCharacters? hsymbol).symm rfl ?_
          intro q more hq hmore
          rcases matches_of_other hc hq hmore with ⟨rfl, -⟩ |
            ⟨d', rest', symbol', -, rfl, -⟩
          · simp
          · simp
      · next hnone =>
          refine isToken_readCharacter hgap hc ?_
          rintro d' rest' ⟨⟩
          exact hnone

/-- What is taken for a token is the longest match of a pattern there. -/
theorem isToken_readToken (hgap : isGap c = false) (cs : List Char) :
    IsToken (readToken c cs).taken (readToken c cs).rest
      (readToken c cs).reading := by
  rw [readToken_eq]
  cases hstart : startOf c with
  | digit => exact isToken_numberFrom (startOf_eq_digit_iff.1 hstart)
  | quote => exact isToken_textFrom
  | letter => exact isToken_wordFrom (isWordStart_of_startOf hstart)
  | other => exact isToken_symbolFrom hgap hstart

/-! ### All tokens -/

/-- What is read of the text under a span. -/
def StandsAt (text : List Char) (span : Span) (reading : Reading) : Prop :=
  ∃ before taken rest, text = before ++ taken ++ rest ∧
    span = ⟨byteLength before, byteLength before + byteLength taken⟩ ∧
    IsToken taken rest reading

/-- Between two spans of a text there are only blanks. -/
def BlankBetween (text : List Char) (s t : Span) : Prop :=
  ∃ gaps, slice? s.stop t.start text = some gaps ∧ gaps.all isGap = true

variable {text : List Char} {lexeme : Lexeme}

theorem standsAt_of_mem_scan (h : lexeme ∈ scan 0 text) :
    StandsAt text lexeme.span lexeme.reading := by
  obtain ⟨front, back, hscan⟩ := List.append_of_mem h
  obtain ⟨before, cs, rfl, hcs⟩ := scan_eq_append hscan
  obtain ⟨gaps, c, rest, rfl, -, hgap, hreading, hspan, -⟩ :=
    scan_eq_cons hcs.symm
  refine ⟨before ++ gaps, (readToken c rest).taken, (readToken c rest).rest,
    ?_, ?_, ?_⟩
  · rw [List.append_assoc _ (readToken c rest).taken,
      taken_append_rest_readToken, List.append_assoc]
  · rw [hspan, byteLength_append, Nat.zero_add]
  · rw [hreading]
    exact isToken_readToken hgap rest

theorem all_isGap_of_scan_eq_nil {offset : Nat} (h : scan offset cs = []) :
    cs.all isGap = true := by
  induction offset, cs using scan.induct with
  | case1 offset => rfl
  | case2 offset c cs hgap ih =>
      rw [scan_gap hgap] at h
      rw [List.all_cons, hgap, ih h]
      rfl
  | case3 offset c cs hgap cut stop ih =>
      rw [Bool.not_eq_true] at hgap
      rw [scan_token hgap] at h
      cases h

/-- From one token to the next, and from the last one to the end of the text,
there are only blanks. -/
theorem isChain_blankBetween (before cs : List Char) (last : Span)
    (htext : text = before ++ cs) (hlast : last.stop = byteLength before) :
    (last :: ((scan (byteLength before) cs).map (·.span) ++
      [.point (byteLength text)])).IsChain (BlankBetween text) := by
  generalize hscan : scan (byteLength before) cs = lexemes
  induction lexemes generalizing before cs last with
  | nil =>
      refine .cons_cons ⟨cs, ?_, all_isGap_of_scan_eq_nil hscan⟩ (.singleton _)
      have hslice := slice?_append before cs []
      rw [List.append_nil, ← htext, ← byteLength_append, ← htext] at hslice
      rw [hlast]
      exact hslice
  | cons lexeme lexemes ih =>
      obtain ⟨gaps, c, rest, rfl, hgaps, -, -, hspan, hback⟩ :=
        scan_eq_cons hscan
      have hrest := taken_append_rest_readToken c rest
      refine .cons_cons ⟨gaps, ?_, hgaps⟩ ?_
      · rw [hlast, show ((·.span) lexeme : Span) = _ from hspan, htext,
          ← List.append_assoc]
        exact slice?_append before gaps (c :: rest)
      · have hstop : lexeme.span.stop =
            byteLength (before ++ gaps ++ (readToken c rest).taken) := by
          rw [hspan, byteLength_append, byteLength_append]
        refine ih (before ++ gaps ++ (readToken c rest).taken)
          (readToken c rest).rest lexeme.span ?_ hstop ?_
        · rw [htext, List.append_assoc _ _ (readToken c rest).rest, hrest,
            List.append_assoc]
        · rw [hback, hstop]

/-- Only a flaw leaves an unreadable token. -/
theorem IsToken.ne_unreadable {taken rest : List Char}
    (h : IsToken taken rest (.ok .unreadable)) : False := by
  rcases h with ⟨p, -, hmeans⟩ | ⟨-, hreading, -⟩
  · cases p with
    | sign s => cases s <;> cases hmeans
    | integer =>
        rcases hmeans with ⟨n, -, hreading⟩ | ⟨-, hreading⟩ <;> cases hreading
    | real =>
        obtain ⟨r, -, hreading⟩ := hmeans
        cases hreading
    | text =>
        obtain ⟨inside, -, hreading⟩ := hmeans
        cases hreading
    | openText => cases hmeans
    | word =>
        rcases hmeans with ⟨k, -, hreading⟩ | ⟨-, hreading⟩ <;> cases hreading
  · cases hreading

/-- Errors stand where the tokens are unreadable. -/
theorem map_span_filterMap_error? {lexemes : List Lexeme}
    (h : ∀ lexeme ∈ lexemes, lexeme.reading ≠ .ok .unreadable) :
    (lexemes.filterMap (·.error?)).map (·.span) =
      ((lexemes.map (·.token)).filter (·.kind.sameClass .unreadable)).map
        (·.span) := by
  induction lexemes with
  | nil => rfl
  | cons lexeme lexemes ih =>
      rw [List.forall_mem_cons] at h
      obtain ⟨reading, span⟩ := lexeme
      cases reading with
      | ok kind =>
          cases kind with
          | unreadable => exact absurd rfl h.1
          | _ => exact ih h.2
      | error flaw => exact congrArg (span :: ·) (ih h.2)

end Prose.Lexer

namespace Prose

open Lexer Text

/-- The tokens of a text account for all of its bytes. They stand one after the
other, from one boundary of characters to another, with nothing but blanks before,
between and after them. Each is the longest match of a pattern where it stands, or
a character that no pattern matches, and means what the pattern says. The errors
are those of the unreadable tokens, in order. No span is cut off in a text that is
not longer than a span can reach. -/
theorem lex_accounts_for_text (text : List Char) :
    ∃ tokens, (lex text).tokens =
        tokens ++ [⟨.finish, .point (byteLength text)⟩] ∧
      (lex text).tokens.Pairwise (fun t u => t.span.stop ≤ u.span.start) ∧
      (.point 0 :: (lex text).tokens.map (·.span)).IsChain
        (BlankBetween text) ∧
      (∀ t ∈ tokens, t.span.start < t.span.stop ∧
        Boundary text t.span.start ∧ Boundary text t.span.stop ∧
        ∃ reading, StandsAt text t.span reading ∧ t.kind = kindOf reading) ∧
      (lex text).errors.map (·.span) =
        (tokens.filter (·.kind.sameClass .unreadable)).map (·.span) ∧
      (byteLength text ≤ Span.limit → ∀ t ∈ (lex text).tokens,
        Span.ofRange t.span.start t.span.stop = t.span) ∧
      ∀ e ∈ (lex text).errors, StandsAt text e.span (.error e.flaw) := by
  have horder := inOrder_lex text
  refine ⟨(scan 0 text).map (·.token), rfl, horder.pairwise, ?_, ?_, ?_,
    fun hsize _ ht => ofRange_of_mem_lex hsize ht, ?_⟩
  · have hchain := isChain_blankBetween [] text (.point 0)
      (rfl : text = [] ++ text) rfl
    simpa only [lex, List.map_append, List.map_map, List.map_singleton,
      Function.comp_def, span_token, byteLength_nil] using hchain
  · intro t ht
    have hmem : t ∈ (lex text).tokens := List.mem_append_left _ ht
    obtain ⟨hstart, hstop⟩ := boundary_of_mem_lex hmem
    obtain ⟨lexeme, hlexeme, rfl⟩ := List.mem_map.1 ht
    have hstands := standsAt_of_mem_scan hlexeme
    refine ⟨?_, hstart, hstop, lexeme.reading, ?_, kind_token lexeme⟩
    · apply horder.nonempty _ hmem
      rw [kind_token]
      exact kindOf_ne_finish (List.mem_map_of_mem hlexeme)
    · rw [span_token]
      exact hstands
  · apply map_span_filterMap_error?
    intro lexeme hlexeme hreading
    obtain ⟨before, taken, rest, -, -, htoken⟩ := standsAt_of_mem_scan hlexeme
    rw [hreading] at htoken
    exact htoken.ne_unreadable
  · intro e he
    obtain ⟨lexeme, hlexeme, herror⟩ := List.mem_filterMap.1 he
    have hstands := standsAt_of_mem_scan hlexeme
    unfold Lexeme.error? at herror
    split at herror
    · cases herror
    · next flaw hflaw =>
        cases herror
        rwa [hflaw] at hstands

/-- An integer before a point that ends the sentence, an integer that does not fit,
a character that begins no token, and a literal that does not end. -/
example :
    (lex "7. 99999999999999999999#\"a".toList).tokens.map (·.span) =
      [⟨0, 1⟩, ⟨1, 2⟩, ⟨3, 23⟩, ⟨23, 24⟩, ⟨24, 26⟩, ⟨26, 26⟩] ∧
    (lex "7. 99999999999999999999#\"a".toList).errors.map (·.flaw) =
      [.integerTooLarge, .unrecognised, .unterminatedText] := by
  cbv

end Prose
