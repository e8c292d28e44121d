import Prose.Proofs.Caseless.Text
import Prose.Proofs.Token.Scanning
import Prose.Proofs.Tree.Relabel

/-!
Tokens whatever the case of letters. Every token but a literal is recognised by
classes of characters that do not see case, and a word is looked up among the
reserved ones in lower case. So a text in lower case has the tokens of the text,
at the same places, with its words in lower case.
-/

namespace Prose

/-! ### Names -/

def Name.caseless (name : Name) : Name := .ofString name.key

@[simp] theorem Name.key_caseless (name : Name) :
    name.caseless.key = name.key := by
  obtain ⟨text, key, rfl⟩ := name
  exact Text.lowerString_lowerString text

theorem Name.caseless_eq_iff {m n : Name} :
    m.caseless = n.caseless ↔ m.key = n.key := by
  constructor
  · intro h
    rw [← m.key_caseless, h, n.key_caseless]
  · intro h
    rw [caseless, h, caseless]

theorem Name.lowerString_text (name : Name) :
    Text.lowerString name.text = name.key :=
  name.key_eq.symm

/-- The relabelling that forgets the case of names and words. -/
def Relabelling.caseless : Relabelling where
  name := Name.caseless
  words := Text.lowerString
  span := id
  key_eq h := Name.caseless_eq_iff.1 h
  words_text h := by
    rw [Name.lowerString_text, Name.lowerString_text]
    exact Name.caseless_eq_iff.1 h
  words_append hs hm := by
    simp only [Text.lowerString_append, Name.lowerString_text, hs,
      Name.caseless_eq_iff.1 hm]
  span_merge hs ht := by
    obtain rfl : _ = _ := hs
    obtain rfl : _ = _ := ht
    rfl

namespace Relabelling

@[simp] theorem caseless_name : caseless.name = Name.caseless := rfl

@[simp] theorem caseless_span (s : Span) : caseless.span s = s := rfl

theorem caseless_idempotent : caseless.Idempotent where
  name n := Name.caseless_eq_iff.2 n.key_caseless
  words := Text.lowerString_lowerString
  span _ := rfl

end Relabelling

/-! ### Images -/

def Token.Kind.caseless : Token.Kind → Token.Kind
  | .word name => .word name.caseless
  | kind => kind

/-- A token with its word in lower case, where it stands. -/
def Token.caseless (token : Token) : Token := ⟨token.kind.caseless, token.span⟩

namespace Lexer

open Text

/-- The second cut is the first one in lower case. -/
structure Cut.Lowers (cut image : Cut) : Prop where
  reading : image.reading = cut.reading.map Token.Kind.caseless
  length : byteLength image.taken = byteLength cut.taken
  rest : image.rest = Text.caseless cut.rest

def Lexeme.caseless (lexeme : Lexeme) : Lexeme :=
  ⟨lexeme.reading.map Token.Kind.caseless, lexeme.span⟩

/-! ### One token -/

theorem toLower_of_isDigit {c : Char} (h : Decimal.isDigit c = true) :
    c.toLower = c := by
  rcases toLower_eq_or_mem_capitals c with hc | hc
  · exact hc
  · have hall : capitals.all (fun c => !Decimal.isDigit c) = true := by decide
    have hc' := List.all_eq_true.1 hall c hc
    rw [h] at hc'
    cases hc'

theorem takeWhile_isDigit_caseless (cs : List Char) :
    (Text.caseless cs).takeWhile Decimal.isDigit =
      cs.takeWhile Decimal.isDigit := by
  rw [takeWhile_caseless isDigit_toLower (by decide), lower,
    List.map_congr_left, List.map_id]
  intro c hc
  exact toLower_of_isDigit (List.mem_takeWhile_imp hc)

theorem dropWhile_isDigit_caseless (cs : List Char) :
    (Text.caseless cs).dropWhile Decimal.isDigit =
      Text.caseless (cs.dropWhile Decimal.isDigit) :=
  dropWhile_caseless isDigit_toLower (by decide) cs

theorem fraction?_of_ne {c : Char} (hc : c ≠ '.') (cs : List Char) :
    fraction? (c :: cs) = none := by
  unfold fraction?
  split
  · next heq =>
      cases heq
      exact absurd rfl hc
  · rfl

theorem fraction?_caseless (cs : List Char) :
    fraction? (Text.caseless cs) =
      (fraction? cs).map fun f => (f.1, Text.caseless f.2) := by
  have hdot : IsPlain '.' := by decide
  cases cs with
  | nil => rfl
  | cons c cs =>
      by_cases hquote : c = '"'
      · subst hquote
        rw [caseless_quote]
        rfl
      rw [caseless_cons hquote]
      by_cases hc : c = '.'
      · subst hc
        cases cs with
        | nil => rfl
        | cons d cs =>
            by_cases hd : d = '"'
            · subst hd
              rw [caseless_quote]
              rfl
            · rw [caseless_cons hd, (hdot.toLower_eq_iff '.').2 rfl]
              simp only [fraction?, isDigit_toLower,
                takeWhile_isDigit_caseless, dropWhile_isDigit_caseless]
              split
              · next hdigit => rw [toLower_of_isDigit hdigit]; rfl
              · rfl
      · rw [fraction?_of_ne hc, fraction?_of_ne]
        · rfl
        · rwa [Ne, hdot.toLower_eq_iff]

theorem numberFrom_caseless (c : Char) (cs : List Char) :
    (numberFrom c cs).Lowers (numberFrom c (Text.caseless cs)) := by
  have hreal (literal : List Char) :
      readReal literal = (readReal literal).map Token.Kind.caseless := by
    unfold readReal
    split <;> rfl
  have hinteger (digits : List Char) :
      readInteger digits = (readInteger digits).map Token.Kind.caseless := by
    unfold readInteger
    split <;> rfl
  unfold numberFrom
  rw [takeWhile_isDigit_caseless, dropWhile_isDigit_caseless,
    fraction?_caseless]
  cases fraction? (cs.dropWhile Decimal.isDigit) with
  | none => exact ⟨hinteger _, rfl, rfl⟩
  | some fraction => exact ⟨hreal _, rfl, rfl⟩

theorem textFrom_of_closed {inside : List Char}
    (hinside : ∀ c ∈ inside, isTextPart c = true) (rest : List Char) :
    textFrom (inside ++ '"' :: rest) =
      ⟨.ok (.text (String.ofList inside)), '"' :: (inside ++ ['"']), rest⟩ := by
  have htake : (inside ++ '"' :: rest).takeWhile isTextPart = inside := by
    rw [takeWhile_append_cons (by decide), List.takeWhile_eq_self_iff]
    exact hinside
  have hdrop : (inside ++ '"' :: rest).dropWhile isTextPart = '"' :: rest := by
    rw [dropWhile_append_cons (by decide), List.dropWhile_eq_nil_iff.2 hinside]
    rfl
  simp only [textFrom, htake, hdrop]

theorem textFrom_of_open {cs : List Char} (h : closes cs = false) :
    textFrom cs = ⟨.error .unterminatedText, '"' :: cs.takeWhile isTextPart,
      cs.dropWhile isTextPart⟩ := by
  unfold textFrom
  split
  · next hrest =>
      rw [closes, hrest] at h
      cases h
  · rfl

theorem closes_caseless (cs : List Char) :
    closes (Text.caseless cs) = closes cs := by
  rw [closes, dropWhile_caseless isTextPart_toLower (by decide), closes]
  cases cs.dropWhile isTextPart with
  | nil => rfl
  | cons c rest =>
      have hquote : IsPlain '"' := by decide
      by_cases hc : c = '"'
      · rw [hc, caseless_quote]
        rfl
      · rw [caseless_cons hc, Bool.eq_iff_iff]
        simp [hquote.toLower_eq_iff]

/-- A literal is kept; one that is not closed is in lower case. -/
theorem textFrom_caseless (cs : List Char) :
    (textFrom cs).Lowers (textFrom (caselessFrom (closes cs) cs)) := by
  cases hclosed : closes cs with
  | true =>
      obtain ⟨rest, hrest⟩ : ∃ rest, cs.dropWhile isTextPart = '"' :: rest := by
        rw [closes, beq_iff_eq] at hclosed
        exact List.head?_eq_some_iff.1 hclosed
      have hinside : ∀ c ∈ cs.takeWhile isTextPart, isTextPart c = true :=
        fun c hc => List.mem_takeWhile_imp hc
      have hquote : '"' ∉ cs.takeWhile isTextPart := by
        intro hmem
        exact absurd (hinside _ hmem) (by decide)
      have hparts : cs = cs.takeWhile isTextPart ++ '"' :: rest := by
        rw [← hrest, List.takeWhile_append_dropWhile]
      generalize cs.takeWhile isTextPart = inside at hinside hquote hparts
      subst hparts
      rw [caselessFrom_literal hquote, textFrom_of_closed hinside,
        textFrom_of_closed hinside]
      exact ⟨rfl, rfl, rfl⟩
  | false =>
      change Cut.Lowers _ (textFrom (Text.caseless cs))
      rw [textFrom_of_open hclosed,
        textFrom_of_open (by rw [closes_caseless, hclosed]),
        takeWhile_caseless isTextPart_toLower (by decide),
        dropWhile_caseless isTextPart_toLower (by decide)]
      exact ⟨rfl, by simp only [byteLength_cons, byteLength_lower], rfl⟩

theorem readWord_lower (word : List Char) :
    readWord (String.ofList (lower word)) =
      (readWord (String.ofList word)).caseless := by
  have hlower : String.ofList (lower word) =
      lowerString (String.ofList word) := by
    rw [lowerString, String.toList_ofList]
  rw [hlower, readWord, readWord, Keyword.ofWord?, lowerString_lowerString,
    ← Keyword.ofWord?]
  cases Keyword.ofWord? (String.ofList word) <;> rfl

theorem wordFrom_caseless (c : Char) (cs : List Char) :
    (wordFrom c cs).Lowers (wordFrom c.toLower (Text.caseless cs)) := by
  unfold wordFrom
  rw [takeWhile_caseless isWordPart_toLower (by decide),
    dropWhile_caseless isWordPart_toLower (by decide), ← lower_cons]
  exact ⟨congrArg Except.ok (readWord_lower _), byteLength_lower _, rfl⟩

theorem readCharacter_caseless (c : Char) :
    readCharacter c = (readCharacter c).map Token.Kind.caseless := by
  unfold readCharacter
  cases hkind : oneCharacter? c with
  | none => rfl
  | some kind =>
      cases kind with
      | word name =>
          unfold oneCharacter? at hkind
          repeat' split at hkind
          all_goals cases hkind
      | _ => rfl

theorem twoCharacters?_eq_some {c d : Char} {symbol : Symbol}
    (h : twoCharacters? c d = some symbol) : d = '=' := by
  unfold twoCharacters? at h
  split at h <;> first | rfl | cases h

theorem twoCharacters?_toLower (c d : Char) :
    twoCharacters? c d.toLower = twoCharacters? c d := by
  apply apply_toLower
  intro d hd
  have hne {e : Char} (he : e ≠ '=') : twoCharacters? c e = none := by
    rw [Option.eq_none_iff_forall_ne_some]
    intro symbol hsymbol
    exact he (twoCharacters?_eq_some hsymbol)
  have hequal : IsPlain '=' := by decide
  rw [hne (hequal.ne hd).1, hne (hequal.ne hd).2]

theorem symbolFrom_caseless (c : Char) (cs : List Char) :
    (symbolFrom c cs).Lowers (symbolFrom c (Text.caseless cs)) := by
  cases cs with
  | nil => exact ⟨readCharacter_caseless c, rfl, rfl⟩
  | cons d cs =>
      by_cases hd : d = '"'
      · subst hd
        have hnone : twoCharacters? c '"' = none := by
          rw [Option.eq_none_iff_forall_ne_some]
          intro symbol hsymbol
          exact absurd (twoCharacters?_eq_some hsymbol) (by decide)
        have hcut (rest : List Char) :
            symbolFrom c ('"' :: rest) =
              ⟨readCharacter c, [c], '"' :: rest⟩ := by
          rw [symbolFrom, hnone]
        rw [caseless_quote, hcut, hcut]
        exact ⟨readCharacter_caseless c, rfl, (caseless_quote cs).symm⟩
      · rw [caseless_cons hd, symbolFrom, symbolFrom, twoCharacters?_toLower]
        cases twoCharacters? c d with
        | some symbol =>
            exact ⟨rfl, by simp only [byteLength_cons, utf8Size_toLower], rfl⟩
        | none =>
            exact ⟨readCharacter_caseless c, rfl, (caseless_cons hd cs).symm⟩

/-- One token is cut off whatever the case of letters. -/
theorem readToken_caseless {c : Char} (hc : c ≠ '"') (cs : List Char) :
    (readToken c cs).Lowers (readToken c.toLower (Text.caseless cs)) := by
  have hquote : IsPlain '"' := by decide
  unfold readToken
  simp only [isDigit_toLower, hquote.toLower_eq_iff, isWordStart_toLower,
    if_neg hc]
  split
  · next hdigit =>
      rw [toLower_of_isDigit hdigit]
      exact numberFrom_caseless c cs
  · split
    · exact wordFrom_caseless c cs
    · next hstart =>
        rw [toLower_eq_of_not_isWordStart (by simpa using hstart)]
        exact symbolFrom_caseless c cs

/-! ### All tokens -/

theorem scan_caseless (offset : Nat) (cs : List Char) :
    scan offset (Text.caseless cs) =
      (scan offset cs).map Lexeme.caseless := by
  induction offset, cs using scan.induct with
  | case1 offset => simp [scan_nil]
  | case2 offset c cs hgap ih =>
      have hc : c ≠ '"' := by
        rintro rfl
        exact absurd hgap (by decide)
      rw [caseless_cons hc, scan_gap (by rwa [isGap_toLower]), scan_gap hgap,
        utf8Size_toLower, ih]
  | case3 offset c cs hgap cut stop ih =>
      -- A quotation mark and any other character differ in what follows them in
      -- lower case; once the cut is known both are scanned on alike.
      have hgap' : isGap c = false := by simpa using hgap
      have htoken {c' : Char} {cs' : List Char} (hc' : isGap c' = false)
          (hcut : cut.Lowers (readToken c' cs')) :
          scan offset (c' :: cs') =
            (scan offset (c :: cs)).map Lexeme.caseless := by
        rw [scan_token hc', scan_token hgap', hcut.reading, hcut.length,
          hcut.rest, List.map_cons]
        exact congrArg _ ih
      by_cases hc : c = '"'
      · subst hc
        rw [caseless_quote]
        exact htoken hgap' (textFrom_caseless cs)
      · rw [caseless_cons hc]
        exact htoken (by rwa [isGap_toLower]) (readToken_caseless hc cs)

theorem Lexeme.token_caseless (lexeme : Lexeme) :
    lexeme.caseless.token = lexeme.token.caseless := by
  obtain ⟨reading, span⟩ := lexeme
  cases reading <;> rfl

theorem Lexeme.error?_caseless (lexeme : Lexeme) :
    lexeme.caseless.error? = lexeme.error? := by
  obtain ⟨reading, span⟩ := lexeme
  cases reading <;> rfl

end Lexer

open Lexer

theorem lex_tokens_caseless (text : List Char) :
    (lex (Text.caseless text)).tokens =
      (lex text).tokens.map Token.caseless := by
  simp only [lex, scan_caseless, Text.byteLength_caseless, List.map_append,
    List.map_map, List.map_cons, List.map_nil]
  congr 1
  apply List.map_congr_left
  intro lexeme _
  exact lexeme.token_caseless

theorem lex_errors_caseless (text : List Char) :
    (lex (Text.caseless text)).errors = (lex text).errors := by
  simp only [lex, scan_caseless, List.filterMap_map]
  apply List.filterMap_congr
  intro lexeme _
  exact lexeme.error?_caseless

end Prose
