import Mathlib.Data.List.Basic
import Prose.Grammar.Parser

/-!
What parsers do, said in the kinds of the tokens alone. `Yields` says that a
parser succeeds at a cursor, what it returns, and which tokens it leaves; the
rules for single tokens and for sequences are enough to follow every
production.
-/

namespace Prose

/-- The kinds of the tokens from the current one on. -/
def Cursor.kinds (c : Cursor) : List Token.Kind :=
  c.current.kind :: c.ahead.map (·.kind)

/-- The tokens end in the end of the statement. -/
def Ends (kinds : List Token.Kind) : Prop :=
  kinds.getLast? = some .finish

theorem Ends.ne_nil {kinds : List Token.Kind} (h : Ends kinds) :
    kinds ≠ [] := by
  rintro rfl
  cases h

theorem Ends.append {rest : List Token.Kind} (h : Ends rest)
    (kinds : List Token.Kind) : Ends (kinds ++ rest) := by
  rw [Ends, List.getLast?_append, h]
  rfl

theorem Ends.cons {rest : List Token.Kind} (h : Ends rest)
    (kind : Token.Kind) : Ends (kind :: rest) :=
  h.append [kind]

/-! ### Cursors -/

namespace Cursor

variable {c : Cursor} {kind : Token.Kind} {rest : List Token.Kind}

theorem kind_of_kinds (hc : c.kinds = kind :: rest) : c.kind = kind :=
  (List.cons.inj hc).1

theorem kinds_advance (hc : c.kinds = kind :: rest) (hrest : rest ≠ []) :
    c.advance.kinds = rest := by
  obtain ⟨-, hahead⟩ := List.cons.inj hc
  unfold advance
  cases hcases : c.ahead with
  | nil =>
      rw [hcases] at hahead
      exact absurd hahead.symm hrest
  | cons token tokens =>
      rw [hcases] at hahead
      exact hahead

theorem kinds_advanceBy {kinds : List Token.Kind} (hrest : rest ≠ [])
    (hc : c.kinds = kinds ++ rest) : (c.advanceBy kinds.length).kinds = rest := by
  induction kinds generalizing c with
  | nil => exact hc
  | cons kind kinds ih =>
      apply ih
      apply kinds_advance hc
      simp [hrest]

theorem length_kinds : c.kinds.length = c.ahead.length + 1 := by
  simp [kinds]

/-- Whether tokens begin with the given words. -/
def beginsWith : List String → List Token.Kind → Bool
  | [], _ => true
  | _ :: _, [] => false
  | word :: words, kind :: kinds => kind.isWord word && beginsWith words kinds

theorem kindAhead_eq (h : Ends c.kinds) (n : Nat) :
    c.kindAhead n = c.kinds[n]?.getD .finish := by
  have hget : c.kinds[n]? = ((c.current :: c.ahead)[n]?).map (·.kind) := by
    rw [← List.getElem?_map]
    rfl
  have hlast : c.last.kind = .finish := by
    unfold last
    unfold Ends kinds at h
    cases hahead : c.ahead.getLast? with
    | none =>
        rw [List.getLast?_eq_none_iff] at hahead
        simpa [hahead] using h
    | some token =>
        have hne : c.ahead ≠ [] := by
          intro hnil
          simp [hnil] at hahead
        simpa [List.getLast?_cons, hahead] using h
  unfold kindAhead
  rw [hget]
  cases (c.current :: c.ahead)[n]? with
  | none => exact hlast
  | some token => rfl

theorem wordsAhead_eq (h : Ends c.kinds) (words : List String) (n : Nat) :
    c.wordsAhead n words = beginsWith words (c.kinds.drop n) := by
  induction words generalizing n with
  | nil => simp [wordsAhead, beginsWith]
  | cons word words ih =>
      rw [wordsAhead, ih, kindAhead_eq h]
      cases hdrop : c.kinds.drop n with
      | nil =>
          rw [List.drop_eq_nil_iff] at hdrop
          simp [beginsWith, hdrop, Token.Kind.isWord]
      | cons kind kinds =>
          have hget : c.kinds[n]? = some kind := by
            rw [← List.head?_drop, hdrop]
            rfl
          have hnext : c.kinds.drop (n + 1) = kinds := by
            rw [← List.tail_drop, hdrop]
            rfl
          simp [beginsWith, hget, hnext]

theorem isAtWords_eq (h : Ends c.kinds) (words : List String) :
    c.isAtWords words = beginsWith words c.kinds := by
  rw [isAtWords, wordsAhead_eq h, List.drop_zero]

theorem isAtWord_eq (hc : c.kinds = kind :: rest) (word : String) :
    c.isAtWord word = kind.isWord word := by
  rw [← kind_of_kinds hc]
  rfl

end Cursor

/-! ### Parsers -/

namespace Parser

variable {α β : Type} {c : Cursor} {kind : Token.Kind}
  {rest mid : List Token.Kind}

/-- The parser succeeds at the cursor, returns what the condition says, and
leaves the given tokens. -/
def Yields (parser : Parser α) (c : Cursor) (result : α → Prop)
    (rest : List Token.Kind) : Prop :=
  ∃ a c', parser c = .ok (a, c') ∧ result a ∧ c'.kinds = rest

theorem Yields.bind {parser : Parser α} {next : α → Parser β}
    {first : α → Prop} {result : β → Prop} (h : Yields parser c first mid)
    (hnext : ∀ a c', first a → c'.kinds = mid →
      Yields (next a) c' result rest) :
    Yields (parser >>= next) c result rest := by
  obtain ⟨a, c₁, hrun, hfirst, hmid⟩ := h
  obtain ⟨b, c₂, hrun', hresult, hrest⟩ := hnext a c₁ hfirst hmid
  refine ⟨b, c₂, ?_, hresult, hrest⟩
  change (parser c).bind _ = _
  rw [hrun]
  exact hrun'

theorem Yields.mono {parser : Parser α} {first result : α → Prop}
    (h : Yields parser c first rest) (himp : ∀ a, first a → result a) :
    Yields parser c result rest := by
  obtain ⟨a, c', hrun, hfirst, hrest⟩ := h
  exact ⟨a, c', hrun, himp a hfirst, hrest⟩

theorem yields_pure {a : α} {result : α → Prop} (ha : result a)
    (hc : c.kinds = rest) : Yields (pure a) c result rest :=
  ⟨a, c, rfl, ha, hc⟩

theorem yields_get {next : Cursor → Parser β} {result : β → Prop}
    (h : Yields (next c) c result rest) :
    Yields (get >>= next) c result rest := by
  obtain ⟨b, c', hrun, hb⟩ := h
  exact ⟨b, c', hrun, hb⟩

theorem yields_modify {f : Cursor → Cursor} {next : Unit → Parser β}
    {result : β → Prop} (h : Yields (next ()) (f c) result rest) :
    Yields (modify f >>= next) c result rest := by
  obtain ⟨b, c', hrun, hb⟩ := h
  exact ⟨b, c', hrun, hb⟩

theorem yields_set {saved : Cursor} {next : Unit → Parser β}
    {result : β → Prop} (h : Yields (next ()) saved result rest) :
    Yields (set saved >>= next) c result rest := by
  obtain ⟨b, c', hrun, hb⟩ := h
  exact ⟨b, c', hrun, hb⟩

theorem yields_advance (hc : c.kinds = kind :: rest) (hrest : rest ≠ []) :
    Yields advance c (fun token => token.kind = kind) rest :=
  ⟨c.current, c.advance, rfl, Cursor.kind_of_kinds hc,
    Cursor.kinds_advance hc hrest⟩

theorem yields_eat {expected : Token.Kind} (hc : c.kinds = kind :: rest)
    (hkind : kind.sameClass expected = true) (hrest : rest ≠ []) :
    Yields (eat expected) c (· = true) rest := by
  refine ⟨true, c.advance, ?_, rfl, Cursor.kinds_advance hc hrest⟩
  rw [eat, Cursor.isAt, Cursor.kind_of_kinds hc, if_pos hkind]

theorem yields_not_eat {expected : Token.Kind} (hc : c.kinds = kind :: rest)
    (hkind : kind.sameClass expected = false) :
    Yields (eat expected) c (· = false) (kind :: rest) := by
  refine ⟨false, c, ?_, rfl, hc⟩
  rw [eat, Cursor.isAt, Cursor.kind_of_kinds hc, if_neg (by simp [hkind])]

theorem yields_eatWord {word : String} (hc : c.kinds = kind :: rest)
    (hkind : kind.isWord word = true) (hrest : rest ≠ []) :
    Yields (eatWord word) c (· = true) rest := by
  refine ⟨true, c.advance, ?_, rfl, Cursor.kinds_advance hc hrest⟩
  rw [eatWord, Cursor.isAtWord_eq hc, if_pos hkind]

theorem yields_not_eatWord {word : String} (hc : c.kinds = kind :: rest)
    (hkind : kind.isWord word = false) :
    Yields (eatWord word) c (· = false) (kind :: rest) := by
  refine ⟨false, c, ?_, rfl, hc⟩
  rw [eatWord, Cursor.isAtWord_eq hc, if_neg (by simp [hkind])]

theorem yields_eatWords {words : List String} {kinds : List Token.Kind}
    (hc : c.kinds = kinds ++ rest) (hends : Ends rest)
    (hwords : Cursor.beginsWith words (kinds ++ rest) = true)
    (hlength : words.length = kinds.length) :
    Yields (eatWords words) c (· = true) rest := by
  refine ⟨true, c.advanceBy kinds.length, ?_, rfl,
    Cursor.kinds_advanceBy hends.ne_nil hc⟩
  have hat : c.isAtWords words = true := by
    rw [Cursor.isAtWords_eq (hc ▸ hends.append kinds), hc, hwords]
  rw [eatWords, if_pos hat, hlength]

theorem yields_not_eatWords {words : List String}
    (hc : c.kinds = rest) (hends : Ends rest)
    (hwords : Cursor.beginsWith words rest = false) :
    Yields (eatWords words) c (· = false) rest := by
  refine ⟨false, c, ?_, rfl, hc⟩
  have hat : c.isAtWords words = false := by
    rw [Cursor.isAtWords_eq (hc ▸ hends), hc, hwords]
  rw [eatWords, hat]
  rfl

theorem yields_expect {expected : Token.Kind} (hc : c.kinds = kind :: rest)
    (hkind : kind.sameClass expected = true) (hrest : rest ≠ []) :
    Yields (expect expected) c (fun _ => True) rest := by
  refine ⟨c.span, c.advance, ?_, trivial, Cursor.kinds_advance hc hrest⟩
  rw [expect, Cursor.isAt, Cursor.kind_of_kinds hc, if_pos hkind]

theorem yields_expectWord {word : String} (hc : c.kinds = kind :: rest)
    (hkind : kind.isWord word = true) (hrest : rest ≠ []) :
    Yields (expectWord word) c (fun _ => True) rest := by
  refine ⟨c.span, c.advance, ?_, trivial, Cursor.kinds_advance hc hrest⟩
  rw [expectWord, Cursor.isAtWord_eq hc, if_pos hkind]

theorem yields_expectName {name : Name} (hc : c.kinds = .word name :: rest)
    (hrest : rest ≠ []) :
    Yields expectName c (fun found => found.1 = name) rest := by
  refine ⟨(name, c.span), c.advance, ?_, rfl, Cursor.kinds_advance hc hrest⟩
  rw [expectName, Cursor.kind_of_kinds hc]

theorem yields_eatTerminator (hc : c.kinds = .symbol .dot :: rest)
    (hrest : rest ≠ []) : Yields eatTerminator c (· = true) rest := by
  refine ⟨true, c.advance, ?_, rfl, Cursor.kinds_advance hc hrest⟩
  rw [eatTerminator, Cursor.kind_of_kinds hc]
  rfl

theorem skipNewlinesFrom_of_not_newline {token : Token}
    (htoken : token.kind.sameClass .newline = false)
    (passed ahead : List Token) :
    Cursor.skipNewlinesFrom passed token ahead = ⟨passed, token, ahead⟩ := by
  cases ahead with
  | nil => rfl
  | cons next ahead => simp [Cursor.skipNewlinesFrom, htoken]

theorem yields_skipNewlines (hc : c.kinds = kind :: rest)
    (hkind : kind.sameClass .newline = false) :
    Yields skipNewlines c (fun _ => True) (kind :: rest) := by
  refine ⟨(), c, ?_, trivial, hc⟩
  rw [← Cursor.kind_of_kinds hc] at hkind
  rw [skipNewlines, Cursor.skipNewlines,
    skipNewlinesFrom_of_not_newline hkind]

/-- Blocks have one newline between their lines. -/
theorem yields_skipNewline (hc : c.kinds = .newline :: kind :: rest)
    (hkind : kind.sameClass .newline = false) :
    Yields skipNewlines c (fun _ => True) (kind :: rest) := by
  obtain ⟨hcurrent, hahead⟩ := List.cons.inj hc
  refine ⟨(), c.advance, ?_, trivial, Cursor.kinds_advance hc (by simp)⟩
  cases hcases : c.ahead with
  | nil =>
      rw [hcases] at hahead
      cases hahead
  | cons token ahead =>
      rw [hcases] at hahead
      have hfirst : token.kind = kind := (List.cons.inj hahead).1
      have htoken : token.kind.sameClass .newline = false := by
        rw [hfirst, hkind]
      have hnewline : c.current.kind.sameClass .newline = true := by
        rw [hcurrent]
        rfl
      rw [skipNewlines, Cursor.skipNewlines, hcases, Cursor.skipNewlinesFrom,
        if_pos hnewline, skipNewlinesFrom_of_not_newline htoken,
        Cursor.advance, hcases]

end Parser

end Prose
