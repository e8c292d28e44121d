import Prose.Proofs.Decimal.Integers
import Prose.Proofs.Grammar.Progress
import Prose.Proofs.Grammar.RoundTrip
import Prose.Proofs.Token.Places
import Prose.Value.Show

/-!
Integers as literals. An integer is shown as digits, after a minus sign if it is
negative, and that is read as the same integer. Digits by themselves are read as an
integer that is not negative, so the integer after a minus sign can always be
negated; and the one integer whose digits do not fit has no literal.
-/

namespace Prose

open Lexer

/-! ### Digits as a token -/

theorem readInteger_toDigits (n : Nat) :
    readInteger (Nat.toDigits 10 n) =
      match Decimal.toInt64? n with
      | some value => .ok (.integer value)
      | none => .error .integerTooLarge := by
  cases hvalue : Decimal.toInt64? n with
  | none => rw [readInteger, readInteger?_toDigits, hvalue]
  | some value => rw [readInteger, readInteger?_toDigits, hvalue]

/-- Digits are one token. -/
theorem scan_toDigits (offset n : Nat) :
    scan offset (Nat.toDigits 10 n) = [⟨readInteger (Nat.toDigits 10 n),
      ⟨offset, offset + Text.byteLength (Nat.toDigits 10 n)⟩⟩] := by
  obtain ⟨c, cs, hdigits, hc, hcs⟩ := toDigits_eq_cons n
  rw [hdigits, scan_token (isGap_of_isDigit hc), readToken_digits hc hcs, scan_nil]

/-- A minus sign is a token, whatever digits follow it. -/
theorem scan_minus (offset : Nat) (cs : List Char) :
    scan offset ('-' :: cs) =
      ⟨.ok (.symbol .minus), ⟨offset, offset + 1⟩⟩ :: scan (offset + 1) cs := by
  have hread : readToken '-' cs = ⟨.ok (.symbol .minus), ['-'], cs⟩ := by
    cases cs <;> rfl
  rw [scan_token rfl, hread]
  rfl

theorem lex_toDigits {n : Nat} {value : Int64}
    (hvalue : Decimal.toInt64? n = some value) :
    lex (Nat.toDigits 10 n) =
      let stop := Text.byteLength (Nat.toDigits 10 n)
      ⟨[⟨.integer value, ⟨0, stop⟩⟩, ⟨.finish, .point stop⟩], []⟩ := by
  rw [lex, scan_toDigits, readInteger_toDigits, hvalue, Nat.zero_add]
  rfl

theorem lex_minus_toDigits (n : Nat) :
    lex ('-' :: Nat.toDigits 10 n) =
      let stop := 1 + Text.byteLength (Nat.toDigits 10 n)
      match Decimal.toInt64? n with
      | some value =>
        ⟨[⟨.symbol .minus, ⟨0, 1⟩⟩, ⟨.integer value, ⟨1, stop⟩⟩,
          ⟨.finish, .point stop⟩], []⟩
      | none =>
        ⟨[⟨.symbol .minus, ⟨0, 1⟩⟩, ⟨.unreadable, ⟨1, stop⟩⟩,
          ⟨.finish, .point stop⟩], [⟨.integerTooLarge, ⟨1, stop⟩⟩]⟩ := by
  rw [lex, scan_minus, scan_toDigits, readInteger_toDigits, Text.byteLength_cons]
  cases Decimal.toInt64? n <;> rfl

/-! ### Signs -/

theorem zero_le_of_readInteger {c : Char} (hc : Decimal.isDigit c = true)
    {cs : List Char} {n : Int64} (h : readInteger (c :: cs) = .ok (.integer n)) :
    0 ≤ n.toInt := by
  unfold readInteger at h
  split at h
  · next value hread =>
      cases h
      simp only [Decimal.readInteger?, takeSign_of_isDigit hc, Bool.false_eq_true,
        if_false] at hread
      split at hread
      · cases hread
      · rw [Decimal.toInt64?_eq_some_iff.mp hread]
        exact Int.natCast_nonneg _
  · cases h

/-- What is read as an integer is digits without a sign. -/
theorem zero_le_of_readToken {c : Char} {cs : List Char} {n : Int64}
    (h : (readToken c cs).reading = .ok (.integer n)) : 0 ≤ n.toInt := by
  rcases reading_readToken c cs with ⟨hc, ds, hread⟩ | ⟨flaw, hread⟩ |
    ⟨kind, hread, hother⟩
  · exact zero_le_of_readInteger hc (hread.symm.trans h)
  · cases hread.symm.trans h
  · cases hread.symm.trans h
    cases hother

theorem zero_le_of_mem_lex {text : List Char} {t : Token} {n : Int64}
    (ht : t ∈ (lex text).tokens) (hkind : t.kind = .integer n) : 0 ≤ n.toInt := by
  obtain ⟨_, chars, _, -, ⟨c, cs, -, -, hread, -⟩, -⟩ :=
    spells_of_mem_lex ht (by simp [hkind]) (by simp [hkind])
  rw [hkind] at hread
  exact zero_le_of_readToken (by rw [hread])

namespace Parser

/-- A minus sign negates the number literal after it. -/
theorem negativeLiteral_eq (c : Cursor) :
    negativeLiteral c =
      match c.advance.kind with
      | .integer n =>
        .ok (.integer (-n) (c.span.merge c.advance.span), c.advance.advance)
      | .real r =>
        .ok (.real (-r) (c.span.merge c.advance.span), c.advance.advance)
      | found => .error ⟨.notNegatable found, c.advance.span⟩ := by
  obtain ⟨passed, ⟨kind, span⟩, ahead⟩ := c
  cases ahead with
  | nil => cases kind <;> rfl
  | cons next ahead =>
      obtain ⟨kind, span⟩ := next
      cases kind <;> rfl

theorem negativeLiteral_eq_integer {c c' : Cursor} {m : Int64} {span : Span}
    (h : negativeLiteral c = .ok (.integer m span, c')) :
    ∃ n, c.advance.kind = .integer n ∧ m = -n := by
  rw [negativeLiteral_eq] at h
  split at h
  · next n hkind =>
      cases h
      exact ⟨n, hkind, rfl⟩
  · cases h
  · cases h

end Parser

/-! ### Reading integers back -/

theorem parseExpression_integer (n : Int64) (span finish : Span) :
    parseExpression [⟨.integer n, span⟩, ⟨.finish, finish⟩] =
      .ok (.integer n span) := rfl

theorem parseExpression_minus_integer (n : Int64) (minus span finish : Span) :
    parseExpression
        [⟨.symbol .minus, minus⟩, ⟨.integer n, span⟩, ⟨.finish, finish⟩] =
      .ok (.integer (-n) (minus.merge span)) := rfl

theorem parseExpression_minus_unreadable (minus span finish : Span) :
    parseExpression
        [⟨.symbol .minus, minus⟩, ⟨.unreadable, span⟩, ⟨.finish, finish⟩] =
      .error ⟨.notNegatable .unreadable, span⟩ := rfl

theorem Cursor.current_mem_tokens (c : Cursor) : c.current ∈ c.tokens := by
  simp [tokens]

theorem parseExpression_lex_toString {n : Int64} (hn : n ≠ .minValue) :
    (lex (toString n.toInt).toList).errors = [] ∧
    parseExpression (lex (toString n.toInt).toList).tokens =
      .ok (.integer n ⟨0, Text.byteLength (toString n.toInt).toList⟩) := by
  by_cases hneg : n.toInt < 0
  · have hvalue : Decimal.toInt64? (-n.toInt).toNat = some (-n) := by
      rw [Decimal.toInt64?_eq_some_iff, toInt_neg_of_ne hn]
      omega
    rw [Decimal.toList_toString_of_neg hneg, lex_minus_toDigits, hvalue]
    refine ⟨rfl, ?_⟩
    have hsize : '-'.utf8Size = 1 := rfl
    rw [parseExpression_minus_integer, Int64.neg_neg, Text.byteLength_cons, hsize]
    simp [Span.merge]
  · have hvalue : Decimal.toInt64? n.toInt.toNat = some n := by
      rw [Decimal.toInt64?_eq_some_iff]
      omega
    rw [Decimal.toList_toString_of_nonneg (by omega), lex_toDigits hvalue]
    exact ⟨rfl, parseExpression_integer _ _ _⟩

/-- Every integer but the smallest is read back from its text, as a literal that
covers all of it. Wherever in a text a minus sign is read with the integer after
it, that gives the exact opposite of the integer. -/
theorem integers_read_back :
    (∀ (heap : Heap) (n : Int64), n ≠ .minValue →
      let text := ((Value.integer n).toText heap).toList
      (lex text).errors = [] ∧
      parseExpression (lex text).tokens =
        .ok (.integer n ⟨0, Text.byteLength text⟩)) ∧
    (∀ (text : List Char) (c c' : Cursor) (m : Int64) (span : Span),
      c.tokens = (lex text).tokens →
      Parser.negativeLiteral c = .ok (.integer m span, c') →
      ∃ n, c.advance.kind = .integer n ∧ m.toInt = -n.toInt) := by
  constructor
  · intro heap n hn
    exact parseExpression_lex_toString hn
  · intro text c c' m span htokens hread
    obtain ⟨n, hkind, rfl⟩ := Parser.negativeLiteral_eq_integer hread
    have hmem : c.advance.current ∈ (lex text).tokens := by
      rw [← htokens, ← Cursor.tokens_advance]
      exact Cursor.current_mem_tokens _
    have hpos : 0 ≤ n.toInt := zero_le_of_mem_lex hmem hkind
    refine ⟨n, hkind, toInt_neg_of_ne ?_⟩
    rintro rfl
    exact absurd hpos (by decide)

/-- The integer next to the smallest one is read back, and the five after a minus
sign is negated. -/
theorem integers_read_back_lowest :
    let c : Cursor := ⟨[], ⟨.symbol .minus, ⟨0, 1⟩⟩,
      [⟨.integer 5, ⟨1, 2⟩⟩, ⟨.finish, ⟨2, 2⟩⟩]⟩
    (-9223372036854775807 : Int64) ≠ .minValue ∧
    parseExpression (lex "-9223372036854775807".toList).tokens =
      .ok (.integer (-9223372036854775807) ⟨0, 20⟩) ∧
    c.tokens = (lex ['-', '5']).tokens ∧
    Parser.negativeLiteral c = .ok (.integer (-5) ⟨0, 2⟩, c.advance.advance) ∧
    ∃ n, c.advance.kind = .integer n ∧ (-5 : Int64).toInt = -n.toInt := by
  intro c
  obtain ⟨hback, hnegated⟩ := integers_read_back
  have hne : (-9223372036854775807 : Int64) ≠ .minValue := by decide
  have htokens : c.tokens = (lex ['-', '5']).tokens := by
    have hlex := lex_minus_toDigits 5
    rw [show Decimal.toInt64? (5 : Nat) = some 5 by decide] at hlex
    exact (congrArg Lexed.tokens hlex).symm
  have hread : Parser.negativeLiteral c =
      .ok (.integer (-5) ⟨0, 2⟩, c.advance.advance) := rfl
  exact ⟨hne, (hback .empty _ hne).2, htokens, hread,
    hnegated _ c _ _ _ htokens hread⟩

/-- The text of the smallest integer is not the text of a literal: its digits by
themselves are too large. -/
theorem smallest_integer_is_not_read_back :
    let text := ((Value.integer .minValue).toText .empty).toList
    (lex text).errors = [⟨.integerTooLarge, ⟨1, 20⟩⟩] ∧
    parseExpression (lex text).tokens =
      .error ⟨.notNegatable .unreadable, ⟨1, 20⟩⟩ := by
  intro text
  have htext : text = '-' :: Nat.toDigits 10 9223372036854775808 :=
    Decimal.toList_toString_of_neg (by decide)
  have hlarge : Decimal.toInt64? (9223372036854775808 : Nat) = none := by decide
  have hlength : Text.byteLength (Nat.toDigits 10 9223372036854775808) = 19 := by
    decide
  rw [htext, lex_minus_toDigits, hlarge, hlength]
  exact ⟨rfl, parseExpression_minus_unreadable _ _ _⟩

end Prose
