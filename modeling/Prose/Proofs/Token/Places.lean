import Prose.Proofs.Token.Readings
import Prose.Proofs.Token.Spelling

/-!
Where tokens stand. The characters of a token are read as that token also where
nothing follows them, so the text under its span is exactly the token. Tokens
stand one after the other, and between two of them there are only blanks.
-/

namespace Prose.Lexer

open Text

/-! ### Tokens on their own -/

/-- A token that begins with `c` is read in the same way if nothing follows. -/
def Cut.Alone (c : Char) (read : List Char → Cut) (cut : Cut) : Prop :=
  ∃ cs, cut.taken = c :: cs ∧ read cs = ⟨cut.reading, c :: cs, []⟩

section Alone

variable {p : Char → Bool} (c : Char) (cs : List Char)

theorem dropWhile_takeWhile : (cs.takeWhile p).dropWhile p = [] :=
  List.dropWhile_eq_nil_iff.2 fun _ hc => List.mem_takeWhile_imp hc

/-- A fraction begins with a point, and on its own it is the same fraction. -/
theorem fraction?_self {fraction rest : List Char}
    (h : fraction? cs = some (fraction, rest)) :
    fraction? fraction = some (fraction, []) ∧
      ∃ digits, fraction = '.' :: digits := by
  unfold fraction? at h
  split at h
  · next d ds =>
      split at h
      · next hd =>
          obtain ⟨rfl, rfl⟩ := Prod.mk.inj (Option.some.inj h)
          refine ⟨?_, _, rfl⟩
          simp [fraction?, hd, dropWhile_takeWhile, List.takeWhile_idem]
      · cases h
  · cases h

theorem alone_numberFrom : (numberFrom c cs).Alone c (numberFrom c) := by
  cases hfraction : fraction? (cs.dropWhile Decimal.isDigit) with
  | some found =>
      obtain ⟨fraction, rest⟩ := found
      obtain ⟨hself, digits, hpoint⟩ := fraction?_self _ hfraction
      have htake : (cs.takeWhile Decimal.isDigit ++ fraction).takeWhile
          Decimal.isDigit = cs.takeWhile Decimal.isDigit := by
        rw [hpoint, takeWhile_append_cons rfl, List.takeWhile_idem]
      have hdrop : (cs.takeWhile Decimal.isDigit ++ fraction).dropWhile
          Decimal.isDigit = fraction := by
        rw [hpoint, dropWhile_append_cons rfl, dropWhile_takeWhile,
          List.nil_append]
      refine ⟨cs.takeWhile Decimal.isDigit ++ fraction, ?_, ?_⟩
      · simp [numberFrom, hfraction]
      · simp [numberFrom, hfraction, htake, hdrop, hself]
  | none =>
      refine ⟨cs.takeWhile Decimal.isDigit, ?_, ?_⟩
      · simp [numberFrom, hfraction]
      · have hnone : fraction? [] = none := rfl
        simp [numberFrom, hfraction, dropWhile_takeWhile, List.takeWhile_idem,
          hnone]

theorem alone_textFrom : (textFrom cs).Alone '"' textFrom := by
  have htake : (cs.takeWhile isTextPart ++ ['"']).takeWhile isTextPart =
      cs.takeWhile isTextPart := by
    rw [takeWhile_append_cons rfl, List.takeWhile_idem]
  have hdrop : (cs.takeWhile isTextPart ++ ['"']).dropWhile isTextPart =
      ['"'] := by
    rw [dropWhile_append_cons rfl, dropWhile_takeWhile, List.nil_append]
  rw [textFrom]
  split
  · refine ⟨cs.takeWhile isTextPart ++ ['"'], rfl, ?_⟩
    rw [textFrom, htake, hdrop]
    rfl
  · refine ⟨cs.takeWhile isTextPart, rfl, ?_⟩
    rw [textFrom, dropWhile_takeWhile, List.takeWhile_idem]

theorem alone_wordFrom : (wordFrom c cs).Alone c (wordFrom c) := by
  refine ⟨_, rfl, ?_⟩
  simp only [wordFrom, dropWhile_takeWhile, List.takeWhile_idem]

theorem alone_symbolFrom : (symbolFrom c cs).Alone c (symbolFrom c) := by
  unfold symbolFrom
  split
  · exact ⟨_, rfl, rfl⟩
  · next d rest =>
      split
      · next symbol hsymbol =>
          refine ⟨[d], rfl, ?_⟩
          simp only [hsymbol]
      · exact ⟨[], rfl, rfl⟩

theorem alone_readToken : (readToken c cs).Alone c (readToken c) := by
  unfold readToken
  split
  · exact alone_numberFrom c cs
  · split
    · next hquote =>
        rw [hquote]
        exact alone_textFrom cs
    · split
      · exact alone_wordFrom c cs
      · exact alone_symbolFrom c cs

/-- The characters of a token are that token and nothing else. -/
theorem spells_taken {kind : Token.Kind} (hgap : isGap c = false)
    (hkind : (readToken c cs).reading = .ok kind) :
    Spells (readToken c cs).taken kind := by
  obtain ⟨own, htaken, hread⟩ := alone_readToken c cs
  rw [hkind] at hread
  rw [htaken]
  refine ⟨c, own, rfl, hgap, hread, ?_⟩
  -- A string literal that does not end is no token.
  rintro rfl hopen
  have htext : readToken '"' own = textFrom own := rfl
  rw [htext, textFrom, hopen] at hread
  cases hread

end Alone

/-! ### One token after the other -/

variable {offset : Nat} {cs : List Char} {lexeme : Lexeme}
  {front back : List Lexeme}

/-- Before the first token there are blanks, and after its characters the text
is scanned for the other tokens. -/
theorem scan_eq_cons (h : scan offset cs = lexeme :: back) :
    ∃ gaps c rest, cs = gaps ++ c :: rest ∧ gaps.all isGap = true ∧
      isGap c = false ∧ lexeme.reading = (readToken c rest).reading ∧
      lexeme.span = ⟨offset + byteLength gaps,
        offset + byteLength gaps + byteLength (readToken c rest).taken⟩ ∧
      back = scan lexeme.span.stop (readToken c rest).rest := by
  induction offset, cs using scan.induct with
  | case1 offset =>
      rw [scan_nil] at h
      cases h
  | case2 offset c cs hgap ih =>
      rw [scan_gap hgap] at h
      obtain ⟨gaps, d, rest, rfl, hgaps, hd, hreading, hspan, hback⟩ := ih h
      refine ⟨c :: gaps, d, rest, rfl, ?_, hd, hreading, ?_, hback⟩
      · rw [List.all_cons, hgap, hgaps]
        rfl
      · rw [hspan, byteLength_cons, Nat.add_assoc]
  | case3 offset c cs hgap cut stop ih =>
      rw [Bool.not_eq_true] at hgap
      rw [scan_token hgap] at h
      cases h
      exact ⟨[], c, cs, rfl, rfl, hgap, rfl, rfl, rfl⟩

/-- Scanning can begin again before any token. -/
theorem scan_eq_append (h : scan offset cs = front ++ back) :
    ∃ before rest, cs = before ++ rest ∧
      back = scan (offset + byteLength before) rest := by
  induction front generalizing offset cs with
  | nil => exact ⟨[], cs, rfl, h.symm⟩
  | cons lexeme front ih =>
      obtain ⟨gaps, c, rest, rfl, -, -, -, hspan, hrest⟩ := scan_eq_cons h
      obtain ⟨before, after, hsplit, hback⟩ := ih hrest.symm
      refine ⟨gaps ++ (readToken c rest).taken ++ before, after, ?_, ?_⟩
      · rw [List.append_assoc, List.append_assoc, ← hsplit,
          taken_append_rest_readToken]
      · rw [hback, hspan]
        simp only [byteLength_append, Nat.add_assoc]

/-- The first token, if it is readable, is spelled by the characters after the
blanks. -/
theorem spells_of_scan (h : scan offset cs = lexeme :: back)
    (hkind : lexeme.token.kind ≠ .unreadable) :
    ∃ gaps chars rest, cs = gaps ++ (chars ++ rest) ∧ gaps.all isGap = true ∧
      Spells chars lexeme.token.kind ∧
      lexeme.span = ⟨offset + byteLength gaps,
        offset + byteLength gaps + byteLength chars⟩ ∧
      back = scan lexeme.span.stop rest := by
  obtain ⟨gaps, c, rest, hsplit, hgaps, hc, hreading, hspan, hback⟩ :=
    scan_eq_cons h
  rw [kind_token] at hkind ⊢
  refine ⟨gaps, (readToken c rest).taken, (readToken c rest).rest, ?_, hgaps, ?_,
    hspan, hback⟩
  · rw [taken_append_rest_readToken, hsplit]
  · cases hread : lexeme.reading with
    | error flaw =>
        rw [hread] at hkind
        exact absurd rfl hkind
    | ok kind => exact spells_taken c rest hc (hreading.symm.trans hread)

theorem pairwise_scan (offset : Nat) (cs : List Char) :
    (scan offset cs).Pairwise fun a b => a.span.stop ≤ b.span.start := by
  induction offset, cs using scan.induct with
  | case1 offset =>
      rw [scan_nil]
      exact .nil
  | case2 offset c cs hgap ih =>
      rw [scan_gap hgap]
      exact ih
  | case3 offset c cs hgap cut stop ih =>
      rw [Bool.not_eq_true] at hgap
      rw [scan_token hgap, List.pairwise_cons]
      refine ⟨fun later hlater => ?_, ih⟩
      obtain ⟨before, taken, after, -, -, hspan⟩ := mem_scan hlater
      rw [hspan]
      exact Nat.le_add_right _ _

end Prose.Lexer

namespace Prose

open Lexer Text

/-! ### The tokens of a text -/

/-- Tokens one after the other, each of which has characters, but for the end. -/
structure InOrder (tokens : List Token) : Prop where
  pairwise : tokens.Pairwise fun a b => a.span.stop ≤ b.span.start
  forward : ∀ t ∈ tokens, t.span.start ≤ t.span.stop
  nonempty : ∀ t ∈ tokens, t.kind ≠ .finish → t.span.start < t.span.stop

theorem span_token (lexeme : Lexeme) : lexeme.token.span = lexeme.span := by
  unfold Lexeme.token
  split <;> rfl

theorem inOrder_lex (text : List Char) : InOrder (lex text).tokens := by
  have hplace : ∀ lexeme ∈ scan 0 text,
      lexeme.span.start < lexeme.span.stop ∧
        lexeme.span.stop ≤ byteLength text := by
    intro lexeme hmem
    obtain ⟨before, taken, after, htext, hne, hspan⟩ := mem_scan hmem
    have hpos := byteLength_pos hne
    rw [hspan, htext]
    simp only [byteLength_append]
    omega
  have htoken : ∀ t ∈ (lex text).tokens, t.span.start < t.span.stop ∨
      t = ⟨.finish, .point (byteLength text)⟩ := by
    intro t ht
    rcases List.mem_append.1 ht with ht | ht
    · obtain ⟨lexeme, hmem, rfl⟩ := List.mem_map.1 ht
      rw [span_token]
      exact .inl (hplace lexeme hmem).1
    · exact .inr (List.mem_singleton.1 ht)
  constructor
  · rw [lex, List.pairwise_append, List.pairwise_map]
    refine ⟨?_, List.pairwise_singleton _ _, ?_⟩
    · simp only [span_token]
      exact pairwise_scan 0 text
    · intro t ht last hlast
      obtain ⟨lexeme, hmem, rfl⟩ := List.mem_map.1 ht
      rw [List.mem_singleton.1 hlast, span_token]
      exact (hplace lexeme hmem).2
  · intro t ht
    rcases htoken t ht with hlt | rfl
    · exact hlt.le
    · exact le_rfl
  · intro t ht hkind
    rcases htoken t ht with hlt | rfl
    · exact hlt
    · exact absurd rfl hkind

variable {text : List Char} {t u : Token}

/-- The end of the statement follows the tokens of its lexemes. -/
theorem lexemes_of_infix_lex {ts : List Token} (h : ts <:+: (lex text).tokens)
    (hkinds : ∀ t ∈ ts, t.kind ≠ .finish) :
    ∃ front lexemes back, scan 0 text = front ++ (lexemes ++ back) ∧
      lexemes.map Lexeme.token = ts := by
  obtain ⟨before, after, htokens⟩ := h
  rw [lex] at htokens
  rcases List.eq_nil_or_concat after with rfl | ⟨after, last, rfl⟩
  · rcases List.eq_nil_or_concat ts with rfl | ⟨ts, last, rfl⟩
    · exact ⟨[], [], scan 0 text, rfl, rfl⟩
    · rw [List.append_nil, List.concat_eq_append, ← List.append_assoc] at htokens
      have hlast := (List.append_inj' htokens rfl).2
      have hfinish := hkinds last (by simp)
      rw [(List.cons.inj hlast).1] at hfinish
      exact absurd rfl hfinish
  · rw [List.concat_eq_append, ← List.append_assoc, List.append_assoc before]
      at htokens
    have hmap := (List.append_inj' htokens rfl).1.symm
    obtain ⟨front, rest, hscan, -, hrest⟩ := List.map_eq_append_iff.1 hmap
    obtain ⟨lexemes, back, rfl, hlexemes, -⟩ := List.map_eq_append_iff.1 hrest
    exact ⟨front, lexemes, back, hscan, hlexemes⟩

/-- The text under a token is exactly the token. -/
theorem spells_of_mem_lex (ht : t ∈ (lex text).tokens)
    (hfinish : t.kind ≠ .finish) (hreadable : t.kind ≠ .unreadable) :
    ∃ before chars after, text = before ++ chars ++ after ∧
      Spells chars t.kind ∧
      t.span = ⟨byteLength before, byteLength before + byteLength chars⟩ := by
  obtain ⟨earlier, later, htokens⟩ := List.append_of_mem ht
  have hinfix : [t] <:+: (lex text).tokens := ⟨earlier, later, by simp [htokens]⟩
  obtain ⟨front, lexemes, back, hscan, hlexemes⟩ :=
    lexemes_of_infix_lex hinfix (by simpa using hfinish)
  obtain ⟨lexeme, rfl, rfl⟩ := List.map_eq_singleton_iff.1 hlexemes
  obtain ⟨before, rest, rfl, hrest⟩ := scan_eq_append hscan
  obtain ⟨gaps, chars, after, rfl, -, hspells, hspan, -⟩ :=
    spells_of_scan hrest.symm hreadable
  refine ⟨before ++ gaps, chars, after, by simp, hspells, ?_⟩
  rw [span_token, hspan, byteLength_append, Nat.zero_add]

/-- Between two tokens that follow each other there are only blanks. -/
theorem spells_of_pair_lex (h : [t, u] <:+: (lex text).tokens)
    (hfinish : t.kind ≠ .finish ∧ u.kind ≠ .finish)
    (hreadable : t.kind ≠ .unreadable ∧ u.kind ≠ .unreadable) :
    ∃ before chars gaps more after,
      text = before ++ (chars ++ gaps ++ more) ++ after ∧
      gaps.all isGap = true ∧ Spells chars t.kind ∧ Spells more u.kind ∧
      t.span.start = byteLength before ∧
      u.span.stop = byteLength before + byteLength (chars ++ gaps ++ more) := by
  obtain ⟨front, lexemes, back, hscan, hlexemes⟩ :=
    lexemes_of_infix_lex h (by simpa using hfinish)
  obtain ⟨first, rest, rfl, rfl, hrest⟩ := List.map_eq_cons_iff.1 hlexemes
  obtain ⟨second, rfl, rfl⟩ := List.map_eq_singleton_iff.1 hrest
  obtain ⟨before, rest, rfl, hfirst⟩ := scan_eq_append hscan
  obtain ⟨lead, chars, rest, rfl, -, hchars, hspan, hsecond⟩ :=
    spells_of_scan hfirst.symm hreadable.1
  obtain ⟨gaps, more, after, rfl, hgaps, hmore, hspan', -⟩ :=
    spells_of_scan hsecond.symm hreadable.2
  refine ⟨before ++ lead, chars, gaps, more, after, by simp, hgaps, hchars, hmore,
    ?_, ?_⟩
  · rw [span_token, hspan, byteLength_append, Nat.zero_add]
  · rw [span_token, hspan', hspan]
    simp only [byteLength_append]
    omega

theorem eq_of_oneCharacter?_minus {c : Char}
    (h : oneCharacter? c = some (.symbol .minus)) : c = '-' := by
  unfold oneCharacter? at h
  split at h
  · cases h
  · split at h
    · cases h
    · split at h
      · cases h
      · split at h <;> cases h
        rfl

/-- The only spelling of a minus sign. -/
theorem eq_of_spells_minus {chars : List Char}
    (h : Spells chars (.symbol .minus)) : chars = ['-'] := by
  obtain ⟨c, cs, rfl, -, hread, -⟩ := h
  have hreading := congrArg Cut.reading hread
  have hrest := congrArg Cut.rest hread
  have hone : readCharacter c = .ok (.symbol .minus) → c = '-' := by
    intro h
    unfold readCharacter at h
    split at h
    · next kind hkind =>
        cases h
        exact eq_of_oneCharacter?_minus hkind
    · cases h
  unfold readToken at hreading hrest
  split at hreading
  · unfold numberFrom readReal readInteger at hreading
    split at hreading <;> dsimp only at hreading <;> split at hreading <;>
      cases hreading
  · split at hreading
    · unfold textFrom at hreading
      split at hreading <;> cases hreading
    · split at hreading
      · simp only [wordFrom, readWord, Except.ok.injEq] at hreading
        split at hreading <;> cases hreading
      · next hdigit hquote hword =>
          rw [if_neg hdigit, if_neg hquote, if_neg hword] at hrest
          unfold symbolFrom at hreading hrest
          split at hreading
          · rw [hone hreading]
          · next d rest =>
              split at hreading
              · next symbol hsymbol =>
                  cases hreading
                  unfold twoCharacters? at hsymbol
                  split at hsymbol <;> cases hsymbol
              · next hnone =>
                  simp only [hnone] at hrest
                  cases hrest

/-- An offset between two characters of a text, or at one of its ends. -/
def Text.Boundary (text : List Char) (offset : Nat) : Prop :=
  ∃ before after, text = before ++ after ∧ byteLength before = offset

theorem boundary_of_mem_lex (ht : t ∈ (lex text).tokens) :
    Text.Boundary text t.span.start ∧ Text.Boundary text t.span.stop := by
  rcases List.mem_append.1 ht with ht | ht
  · obtain ⟨lexeme, hmem, rfl⟩ := List.mem_map.1 ht
    obtain ⟨before, taken, after, rfl, -, hspan⟩ := mem_scan hmem
    rw [span_token, hspan]
    refine ⟨⟨before, taken ++ after, by simp, by simp⟩,
      ⟨before ++ taken, after, rfl, by simp⟩⟩
  · rw [List.mem_singleton.1 ht]
    exact ⟨⟨text, [], by simp, rfl⟩, ⟨text, [], by simp, rfl⟩⟩

theorem Text.Boundary.le {offset : Nat} (h : Boundary text offset) :
    offset ≤ byteLength text := by
  obtain ⟨before, after, rfl, rfl⟩ := h
  rw [byteLength_append]
  exact Nat.le_add_right _ _

/-- No span is cut off in a text that is no longer than a span can reach. -/
theorem ofRange_of_mem_lex (hsize : byteLength text ≤ Span.limit)
    (ht : t ∈ (lex text).tokens) :
    Span.ofRange t.span.start t.span.stop = t.span := by
  obtain ⟨hstart, hstop⟩ := boundary_of_mem_lex ht
  rw [Span.ofRange, Nat.min_eq_left (hstart.le.trans hsize),
    Nat.min_eq_left (hstop.le.trans hsize)]

/-- Of two beginnings of a text, the one with fewer bytes begins the other. -/
theorem Text.prefix_of_byteLength_le {before front : List Char}
    (hbefore : before <+: text) (hfront : front <+: text)
    (h : byteLength before ≤ byteLength front) : before <+: front := by
  rcases List.prefix_or_prefix_of_prefix hbefore hfront with hprefix | ⟨more, rfl⟩
  · exact hprefix
  · have hnil : more = [] := by
      by_contra hne
      have hpos := byteLength_pos hne
      rw [byteLength_append] at h
      omega
    exact ⟨[], by rw [hnil, List.append_nil, List.append_nil]⟩

/-- Between two boundaries there are characters. -/
theorem Text.Boundary.slice? {start stop : Nat} (hstart : Boundary text start)
    (hstop : Boundary text stop) (h : start ≤ stop) :
    ∃ chars, slice? start stop text = some chars := by
  obtain ⟨before, rest, htext, rfl⟩ := hstart
  obtain ⟨front, after, htext', rfl⟩ := hstop
  obtain ⟨chars, rfl⟩ := prefix_of_byteLength_le
    (htext ▸ List.prefix_append before rest)
    (htext' ▸ List.prefix_append front after) h
  refine ⟨chars, ?_⟩
  rw [htext', byteLength_append, slice?_append]

end Prose
