import Prose.Proofs.Token.Scanning

/-!
What the tokens of a text mean, wherever the text stands. The meanings of the
tokens before and after a newline, or a mark of a block, are those of the two
parts of the text.
-/

namespace Prose.Lexer

open Text

/-- What the tokens of a text mean. -/
def readings (text : List Char) : List Reading :=
  (scan 0 text).map (·.reading)

/-- The kind of the token that is left, whatever was read. -/
def kindOf : Reading → Token.Kind
  | .ok kind => kind
  | .error _ => .unreadable

theorem map_reading_scan (start other : Nat) (text : List Char) :
    (scan start text).map (·.reading) = (scan other text).map (·.reading) := by
  induction start, text using scan.induct generalizing other with
  | case1 start => rw [scan_nil, scan_nil]
  | case2 start c cs hgap ih =>
      rw [scan_gap hgap, scan_gap hgap]
      exact ih _
  | case3 start c cs hgap cut stop ih =>
      rw [Bool.not_eq_true] at hgap
      rw [scan_token hgap, scan_token hgap, List.map_cons, List.map_cons]
      exact congrArg _ (ih _)

theorem readings_nil : readings [] = [] := by
  rw [readings, scan_nil, List.map_nil]

theorem readings_mark {c : Char} (hc : c ∈ ['\n', indentMark, dedentMark])
    (rest : List Char) :
    readings (c :: rest) = readCharacter c :: readings rest := by
  rw [readings, scan_mark hc, List.map_cons]
  exact congrArg _ (map_reading_scan _ _ _)

theorem readings_append_newline (front rest : List Char) :
    readings (front ++ '\n' :: rest) =
      readings front ++ .ok .newline :: readings rest := by
  have hnewline : readings ('\n' :: rest) = .ok .newline :: readings rest :=
    readings_mark (by decide) rest
  rw [readings, scan_append_newline, List.map_append,
    map_reading_scan _ 0 ('\n' :: rest), ← hnewline]
  rfl

theorem readings_dedents (n : Nat) (rest : List Char) :
    readings (List.replicate n dedentMark ++ rest) =
      List.replicate n (.ok .dedent) ++ readings rest := by
  induction n with
  | zero => rfl
  | succ n ih =>
      rw [List.replicate_succ, List.cons_append, readings_mark (by decide), ih,
        List.replicate_succ]
      rfl

def isOther : Token.Kind → Bool
  | .integer _ | .finish => false
  | _ => true

theorem isOther_of_oneCharacter? {c : Char} {kind : Token.Kind}
    (h : oneCharacter? c = some kind) : isOther kind = true := by
  unfold oneCharacter? at h
  split at h
  · cases h; rfl
  · split at h
    · cases h; rfl
    · split at h
      · cases h; rfl
      · split at h <;> cases h <;> rfl

/-- A token is an integer read from digits, or has a flaw, or is something else that
is not the end of the text. -/
theorem reading_readToken (c : Char) (cs : List Char) :
    (Decimal.isDigit c = true ∧
      ∃ ds, (readToken c cs).reading = readInteger (c :: ds)) ∨
    (∃ flaw, (readToken c cs).reading = .error flaw) ∨
    ∃ kind, (readToken c cs).reading = .ok kind ∧ isOther kind = true := by
  have hcharacter : (∃ flaw, readCharacter c = .error flaw) ∨
      ∃ kind, readCharacter c = .ok kind ∧ isOther kind = true := by
    unfold readCharacter
    split
    · next kind hkind => exact .inr ⟨kind, rfl, isOther_of_oneCharacter? hkind⟩
    · exact .inl ⟨_, rfl⟩
  unfold readToken
  split
  · next hdigit =>
      unfold numberFrom
      split
      · right
        dsimp only [readReal]
        split
        · exact .inr ⟨_, rfl, rfl⟩
        · exact .inl ⟨_, rfl⟩
      · exact .inl ⟨hdigit, _, rfl⟩
  · right
    split
    · unfold textFrom
      split
      · exact .inr ⟨_, rfl, rfl⟩
      · exact .inl ⟨_, rfl⟩
    · split
      · right
        simp only [wordFrom, readWord]
        split <;> exact ⟨_, rfl, rfl⟩
      · unfold symbolFrom
        split
        · exact hcharacter
        · split
          · exact .inr ⟨_, rfl, rfl⟩
          · exact hcharacter

/-- No token of a text is its end. -/
theorem readToken_ne_finish (c : Char) (cs : List Char) :
    (readToken c cs).reading ≠ .ok .finish := by
  intro h
  rcases reading_readToken c cs with ⟨-, ds, hread⟩ | ⟨flaw, hread⟩ |
    ⟨kind, hread, hother⟩
  · rw [h, readInteger] at hread
    split at hread <;> cases hread
  · cases hread.symm.trans h
  · cases hread.symm.trans h
    cases hother

theorem kindOf_ne_finish {text : List Char} {reading : Reading}
    (h : reading ∈ readings text) : kindOf reading ≠ .finish := by
  rw [readings, List.mem_map] at h
  obtain ⟨lexeme, hmem, rfl⟩ := h
  generalize (0 : Nat) = start at hmem
  induction start, text using scan.induct with
  | case1 start => rw [scan_nil] at hmem; cases hmem
  | case2 start c cs hgap ih =>
      rw [scan_gap hgap] at hmem
      exact ih hmem
  | case3 start c cs hgap cut stop ih =>
      rw [Bool.not_eq_true] at hgap
      rw [scan_token hgap] at hmem
      rcases List.mem_cons.1 hmem with rfl | hmem
      · have hne := readToken_ne_finish c cs
        cases hreading : (readToken c cs).reading with
        | error flaw =>
            intro heq
            cases heq
        | ok kind =>
            rw [hreading] at hne
            exact fun heq => hne (congrArg _ heq)
      · exact ih hmem

theorem kind_token (lexeme : Lexeme) :
    lexeme.token.kind = kindOf lexeme.reading := by
  unfold Lexeme.token
  split <;> simp_all [kindOf]

end Prose.Lexer

namespace Prose

open Lexer

theorem kinds_lex (text : List Char) :
    (lex text).tokens.map (·.kind) =
      (readings text).map kindOf ++ [.finish] := by
  simp [lex, readings, kind_token]

/-- There is no error exactly if every token means something. -/
theorem errors_lex_eq_nil_iff (text : List Char) :
    (lex text).errors = [] ↔
      ∀ reading ∈ readings text, ∃ kind, reading = .ok kind := by
  have herror : ∀ lexeme : Lexeme,
      lexeme.error? = none ↔ ∃ kind, lexeme.reading = .ok kind := by
    intro lexeme
    unfold Lexeme.error?
    split <;> simp_all
  simp [lex, readings, List.filterMap_eq_nil_iff, herror]

end Prose
