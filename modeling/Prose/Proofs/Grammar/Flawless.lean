import Prose.Proofs.Grammar.Progress

/-!
Flawed tokens are never passed over. A parser that succeeds has gone from the
first token to the end of the statement, and between two places of a cursor
there are only tokens that a statement can be made of. So looking for flaws
before the parser runs rejects nothing that it would accept.
-/

namespace Prose

open Cursor Prose.Parser

def Flawless (tokens : List Token) : Prop :=
  ∀ t ∈ tokens, t.kind ≠ .unreadable

theorem Token.Kind.ne_unreadable_of_isPart {kind : Token.Kind}
    (h : kind.isPart = true) : kind ≠ .unreadable := by
  rintro rfl
  cases h

/-- A flaw leaves an unreadable token. -/
theorem errors_lex_of_flawless {text : List Char}
    (h : Flawless (lex text).tokens) : (lex text).errors = [] := by
  rw [errors_lex_eq_nil_iff]
  intro reading hmem
  have hkind : Lexer.kindOf reading ∈ (lex text).tokens.map (·.kind) := by
    rw [kinds_lex]
    exact List.mem_append_left _ (List.mem_map_of_mem hmem)
  obtain ⟨t, ht, hsame⟩ := List.mem_map.1 hkind
  cases reading with
  | ok kind => exact ⟨kind, rfl⟩
  | error flaw => exact absurd hsame (h t ht)

namespace Cursor

variable {c c' : Cursor} {on : Bool}

/-- There is one end, so nothing is ahead of it. -/
theorem ahead_eq_nil_of_finish (h : EndsOnce c.tokens)
    (hfinish : c.kind = .finish) : c.ahead = [] := by
  obtain ⟨front, last, htokens, -, hfront⟩ := h
  by_contra hahead
  have hfinal : c.ahead = c.ahead.dropLast ++ [c.ahead.getLast hahead] :=
    (List.dropLast_append_getLast hahead).symm
  have hsplit : (c.passed.reverse ++ c.current :: c.ahead.dropLast) ++
      [c.ahead.getLast hahead] = front ++ [last] := by
    rw [← htokens, tokens, List.append_assoc, List.cons_append, ← hfinal]
  have hmem : c.current ∈ front := by
    rw [← (List.append_inj' hsplit rfl).1]
    simp
  exact hfront _ hmem hfinish

/-- On the way from the first token to the end there is every token. -/
theorem Leads.flawless (h : c.Leads on c') (hfirst : c.passed = [])
    (honce : EndsOnce c.tokens) (hfinish : c'.kind = .finish) :
    Flawless c.tokens := by
  have hlast : c'.ahead = [] :=
    ahead_eq_nil_of_finish (h.tokens_eq ▸ honce) hfinish
  obtain ⟨read, hway, -⟩ := h
  intro t ht
  rw [tokens, hfirst, hway.ahead, hlast] at ht
  rcases List.mem_append.1 ht with ht | ht
  · cases ht
  rcases List.mem_append.1 ht with ht | ht
  · exact Token.Kind.ne_unreadable_of_isPart (hway.parts t ht)
  · rw [List.mem_singleton.1 ht, show c'.current.kind = .finish from hfinish]
    rintro ⟨⟩

end Cursor

namespace Parser

variable {α : Type} {tokens : List Token}

/-- A parser that succeeds on tokens has run from the first of them. -/
theorem runOn_eq_ok {parser : Nat → Parser α} {a : α}
    (h : runOn parser tokens = .ok a) :
    ∃ c c' : Cursor, c.passed = [] ∧ c.tokens = tokens ∧
      8 * c.ahead.length + 8 ≤ depthBound tokens.length ∧
      parser (depthBound tokens.length) c = .ok (a, c') := by
  cases tokens with
  | nil => cases h
  | cons t ts =>
      have hrun : (parser (depthBound (t :: ts).length) ⟨[], t, ts⟩).map (·.1) =
        .ok a := h
      cases hresult : parser (depthBound (t :: ts).length) ⟨[], t, ts⟩ with
      | error e =>
          rw [hresult] at hrun
          cases hrun
      | ok result =>
          rw [hresult] at hrun
          cases hrun
          refine ⟨⟨[], t, ts⟩, result.2, rfl, rfl, ?_, hresult⟩
          change 8 * ts.length + 8 ≤ 8 * (ts.length + 1) + 8
          omega

/-- A parser that goes to the end of the statement has read every token. -/
theorem flawless_of_runOn {parser : Nat → Parser α} (h : EndsOnce tokens)
    (hparser : ∀ {c : Cursor} {depth : Nat}, Ends c.kinds →
      8 * c.ahead.length + 8 ≤ depth → Ensures False (parser depth) c
        fun _ c' => c.Leads true c' ∧ c'.kind = .finish)
    {a : α} (hrun : runOn parser tokens = .ok a) : Flawless tokens := by
  obtain ⟨c, c', hfirst, rfl, hdepth, hresult⟩ := runOn_eq_ok hrun
  obtain ⟨hleads, hfinish⟩ := (hparser (ends_of_endsOnce h) hdepth).of_ok hresult
  exact hleads.flawless hfirst h hfinish

end Parser

/-- A text is read as a statement exactly if its tokens are, flaws or not, and
then as the same one. Tokens that are read as a statement or as an expression
are all readable; so if a text has a flaw, its tokens are no expression. -/
theorem parsers_pass_no_flaw :
    (∀ text s, parseText text = .ok s ↔
      parseStatement (lex text).tokens = .ok s) ∧
    (∀ text, (lex text).errors ≠ [] →
      ∃ e, parseExpression (lex text).tokens = .error e) ∧
    ∀ tokens, EndsOnce tokens →
      (∀ s, parseStatement tokens = .ok s → Flawless tokens) ∧
      ∀ e, parseExpression tokens = .ok e → Flawless tokens := by
  have hreads : ∀ tokens, EndsOnce tokens →
      (∀ s, parseStatement tokens = .ok s → Flawless tokens) ∧
      ∀ e, parseExpression tokens = .ok e → Flawless tokens := by
    intro tokens h
    constructor
    · exact fun s => flawless_of_runOn h ensures_completeStatement
    · exact fun e => flawless_of_runOn h ensures_completeExpression
  refine ⟨?_, ?_, hreads⟩
  · intro text s
    rw [parseText]
    cases herrors : (lex text).errors with
    | nil => exact Iff.rfl
    | cons e rest =>
        constructor
        · nofun
        · intro hparse
          have hflawless := (hreads _ (endsOnce_lex text)).1 s hparse
          rw [errors_lex_of_flawless hflawless] at herrors
          cases herrors
  · intro text herrors
    cases hparse : parseExpression (lex text).tokens with
    | error e => exact ⟨e, rfl⟩
    | ok e =>
        have hflawless := (hreads _ (endsOnce_lex text)).2 e hparse
        exact absurd (errors_lex_of_flawless hflawless) herrors

/-- A string literal that does not end, where the sign that may end a statement
could stand; and a text without flaws. -/
theorem parsers_pass_no_flaw_open_quote :
    (lex "x + 1 \"".toList).errors ≠ [] ∧
    (∃ e, parseExpression (lex "x + 1 \"".toList).tokens = .error e) ∧
    ∃ s, parseText "Print x + 1.".toList = .ok s ∧
      parseStatement (lex "Print x + 1.".toList).tokens = .ok s ∧
      Flawless (lex "Print x + 1.".toList).tokens := by
  obtain ⟨htexts, hexpressions, htokens⟩ := parsers_pass_no_flaw
  have herrors : (lex "x + 1 \"".toList).errors ≠ [] := by
    decide +kernel
  have hread : (parseText "Print x + 1.".toList).toBool = true := by
    decide +kernel
  cases hparse : parseText "Print x + 1.".toList with
  | error e =>
      rw [hparse] at hread
      cases hread
  | ok s =>
      have hstatement := (htexts _ s).1 hparse
      exact ⟨herrors, hexpressions _ herrors, s, rfl, hstatement,
        (htokens _ (endsOnce_lex _)).1 s hstatement⟩

end Prose
