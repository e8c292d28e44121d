import Prose.Proofs.Grammar.Alike

/-!
How far a parser gets. A cursor moves over tokens that a statement can be made
of, never over the end of the statement; `Leads` says so of two cursors, and
whether they are at different places. `Ensures` says what holds where a parser
succeeds, and when its productions may be too deep. There is one rule for each
parser of single tokens, so a production is followed step by step.
-/

namespace Prose

open Prose.Parser

/-- Whether a token can be part of a statement: it is not its end, and its
characters make a token. -/
def Token.Kind.isPart : Token.Kind → Bool
  | .finish | .unreadable => false
  | _ => true

namespace Token.Kind

variable {kind other : Token.Kind}

theorem ne_finish_of_isPart (h : kind.isPart = true) : kind ≠ .finish := by
  rintro rfl
  cases h

theorem sameClass_finish : kind.sameClass .finish = true ↔ kind = .finish := by
  cases kind <;> simp [sameClass]

theorem isPart_of_sameClass (h : kind.sameClass other = true)
    (hother : other.isPart = true) : kind.isPart = true := by
  cases kind with
  | finish | unreadable =>
      cases other with
      | finish | unreadable => cases hother
      | _ => cases h
  | _ => rfl

theorem isPart_of_isWord {word : String} (h : kind.isWord word = true) :
    kind.isPart = true := by
  cases kind with
  | finish | unreadable => cases h
  | _ => rfl

theorem isPart_of_isTerminator (h : kind.isTerminator = true) :
    kind.isPart = true := by
  cases kind with
  | finish | unreadable => cases h
  | _ => rfl

end Token.Kind

/-! ### Cursors -/

namespace Cursor

variable {start c d : Cursor} {read more : List Token} {on : Bool}

/-- The tokens between two cursors on the same tokens. -/
structure Way (start : Cursor) (read : List Token) (c : Cursor) : Prop where
  passed : c.passed = read.reverse ++ start.passed
  ahead : start.current :: start.ahead = read ++ c.current :: c.ahead
  parts : ∀ t ∈ read, t.kind.isPart = true
  ends : Ends c.kinds

namespace Way

theorem nil (h : Ends c.kinds) : c.Way [] c :=
  ⟨rfl, rfl, nofun, h⟩

theorem trans (h : start.Way read c) (h' : c.Way more d) :
    start.Way (read ++ more) d := by
  constructor
  · rw [h'.passed, h.passed, List.reverse_append, List.append_assoc]
  · rw [h.ahead, h'.ahead, List.append_assoc]
  · intro t ht
    rcases List.mem_append.1 ht with ht | ht
    · exact h.parts t ht
    · exact h'.parts t ht
  · exact h'.ends

theorem advance (h : Ends c.kinds) (hkind : c.kind.isPart = true) :
    c.Way [c.current] c.advance := by
  have hahead := ahead_ne_nil h (Token.Kind.ne_finish_of_isPart hkind)
  constructor
  · exact passed_advance hahead
  · rw [List.singleton_append, current_advance hahead]
  · intro t ht
    rw [List.mem_singleton.1 ht]
    exact hkind
  · exact ends_advance h

/-- The tokens are the same. -/
theorem tokens_eq (h : start.Way read c) : c.tokens = start.tokens := by
  rw [tokens, tokens, h.passed, h.ahead, List.reverse_append,
    List.reverse_reverse, List.append_assoc]

theorem position_eq (h : start.Way read c) :
    c.position = start.position + read.length := by
  rw [position, position, h.passed, List.length_append, List.length_reverse,
    Nat.add_comm]

theorem length_ahead (h : start.Way read c) :
    start.ahead.length = read.length + c.ahead.length := by
  have hlength := congrArg List.length h.ahead
  rw [List.length_append, List.length_cons, List.length_cons] at hlength
  omega

end Way

/-- A cursor gets to another one over parts of a statement, and past at least
one of them if it moves on. -/
def Leads (start : Cursor) (on : Bool) (c : Cursor) : Prop :=
  ∃ read, start.Way read c ∧ (on = true → read ≠ [])

namespace Leads

theorem refl (h : Ends c.kinds) : c.Leads false c :=
  ⟨[], .nil h, nofun⟩

theorem ends (h : start.Leads on c) : Ends c.kinds := by
  obtain ⟨read, hway, -⟩ := h
  exact hway.ends

theorem weaken (h : start.Leads on c) : start.Leads false c := by
  obtain ⟨read, hway, -⟩ := h
  exact ⟨read, hway, nofun⟩

theorem trans {on' : Bool} (h : start.Leads on c) (h' : c.Leads on' d) :
    start.Leads (on || on') d := by
  obtain ⟨read, hway, hread⟩ := h
  obtain ⟨more, hway', hmore⟩ := h'
  refine ⟨read ++ more, hway.trans hway', ?_⟩
  intro hon hnil
  obtain ⟨rfl, rfl⟩ := List.append_eq_nil_iff.1 hnil
  rcases Bool.or_eq_true_iff.1 hon with hon | hon
  · exact hread hon rfl
  · exact hmore hon rfl

theorem advance (h : start.Leads on c) (hkind : c.kind.isPart = true) :
    start.Leads true c.advance := by
  obtain ⟨read, hway, -⟩ := h
  exact ⟨_, hway.trans (.advance hway.ends hkind), by simp⟩

theorem length_ahead (h : start.Leads on c) :
    c.ahead.length ≤ start.ahead.length := by
  obtain ⟨read, hway, -⟩ := h
  have hlength := hway.length_ahead
  omega

theorem length_ahead_lt (h : start.Leads true c) :
    c.ahead.length < start.ahead.length := by
  obtain ⟨read, hway, hread⟩ := h
  have hlength := hway.length_ahead
  have hpos := List.length_pos_of_ne_nil (hread rfl)
  omega

theorem skipNewlines (h : start.Leads on c) :
    start.Leads on c.skipNewlines := by
  induction hlength : c.ahead.length generalizing c on with
  | zero =>
      rw [Cursor.skipNewlines, List.length_eq_zero_iff.1 hlength,
        skipNewlinesFrom, ← List.length_eq_zero_iff.1 hlength]
      exact h
  | succ n ih =>
      by_cases hkind : c.kind = .newline
      · have hpart : c.kind.isPart = true := by
          rw [hkind]
          rfl
        have hahead : c.ahead ≠ [] := by
          intro hnil
          rw [hnil] at hlength
          cases hlength
        have hnext : start.Leads on c.advance := by
          cases on with
          | false => exact (h.advance hpart).weaken
          | true => exact h.advance hpart
        rw [skipNewlines_of_newline hkind hahead]
        apply ih hnext
        have hless := congrArg List.length (current_advance hahead)
        rw [List.length_cons] at hless
        omega
      · rw [skipNewlines_of_ne hkind]
        exact h

theorem advanceBy_words (h : start.Leads on c) {words : List String}
    (hne : words ≠ []) (hwords : c.isAtWords words = true) :
    start.Leads true (c.advanceBy words.length) := by
  induction words generalizing c on with
  | nil => exact absurd rfl hne
  | cons word words ih =>
      rw [isAtWords_eq h.ends, kinds, beginsWith, Bool.and_eq_true] at hwords
      have hpart := Token.Kind.isPart_of_isWord hwords.1
      have hahead :=
        ahead_ne_nil h.ends (Token.Kind.ne_finish_of_isPart hpart)
      have hnext := h.advance hpart
      by_cases hnil : words = []
      · subst hnil
        exact hnext
      · apply ih hnext hnil
        rw [isAtWords_eq hnext.ends, kinds_advance rfl (by simpa using hahead)]
        exact hwords.2

theorem advanceBy_operator (h : start.Leads on c) {op : Operator}
    {length : Nat} (hop : c.operator? = some (op, length)) :
    start.Leads true (c.advanceBy length) := by
  rcases Comparison.operator?_eq_some hop with
    ⟨rfl, symbol, hkind⟩ | ⟨words, hne, rfl, hat⟩
  · apply h.advance
    rw [hkind]
    rfl
  · exact h.advanceBy_words hne hat

end Leads

end Cursor

/-! ### Parsers -/

namespace Parser

variable {α β : Type} {deep : Prop} {p : Parser α} {f : α → Parser β}
  {c : Cursor} {post mid : α → Cursor → Prop} {last : β → Cursor → Prop}

/-- What holds of a parser at a cursor: the condition where it succeeds, and the
proposition where its productions are too deep. -/
def Ensures (deep : Prop) (p : Parser α) (c : Cursor)
    (post : α → Cursor → Prop) : Prop :=
  match p c with
  | .ok (a, c') => post a c'
  | .error e => e.cause = .tooDeep → deep

namespace Ensures

theorem pure {a : α} (h : post a c) :
    Ensures deep (Pure.pure a) c post := h

theorem bind_of_ok {a : α} {c' : Cursor} (hp : p c = .ok (a, c'))
    (h : Ensures deep (f a) c' last) : Ensures deep (p >>= f) c last := by
  have hbind : (p >>= f) c = f a c' := by
    change (p c).bind _ = _
    rw [hp]
    rfl
  rw [Ensures, hbind]
  exact h

theorem bind (h : Ensures deep p c mid)
    (hnext : ∀ a c', mid a c' → Ensures deep (f a) c' last) :
    Ensures deep (p >>= f) c last := by
  unfold Ensures at h
  cases hp : p c with
  | error e =>
      have hbind : (p >>= f) c = .error e := by
        change (p c).bind _ = _
        rw [hp]
        rfl
      rw [hp] at h
      rw [Ensures, hbind]
      exact h
  | ok result =>
      obtain ⟨a, c'⟩ := result
      rw [hp] at h
      exact bind_of_ok hp (hnext a c' h)

theorem mono {deep' : Prop} (h : Ensures deep p c mid)
    (hpost : ∀ a c', mid a c' → post a c') (hdeep : deep → deep') :
    Ensures deep' p c post := by
  unfold Ensures at h ⊢
  cases hp : p c with
  | error e =>
      rw [hp] at h
      exact fun he => hdeep (h he)
  | ok result =>
      obtain ⟨a, c'⟩ := result
      rw [hp] at h
      exact hpost a c' h

theorem of_ok (h : Ensures deep p c post) {a : α} {c' : Cursor}
    (hp : p c = .ok (a, c')) : post a c' := by
  rw [Ensures, hp] at h
  exact h

theorem of_error (h : Ensures deep p c post) {e : SyntaxError}
    (hp : p c = .error e) : e.cause = .tooDeep → deep := by
  rw [Ensures, hp] at h
  exact h

/-- Any error but that of productions that are too deep may come. -/
theorem error {e : SyntaxError} (hp : p c = .error e)
    (h : e.cause ≠ .tooDeep) : Ensures deep p c post := by
  rw [Ensures, hp]
  exact fun he => absurd he h

theorem unexpected {expected : String} :
    Ensures deep (Parser.unexpected expected : Parser α) c post :=
  error rfl nofun

theorem get_bind {f : Cursor → Parser β} (h : Ensures deep (f c) c last) :
    Ensures deep (get >>= f) c last := h

theorem modify_bind {move : Cursor → Cursor} {f : Unit → Parser β}
    (h : Ensures deep (f ()) (move c) last) :
    Ensures deep (modify move >>= f) c last := h

theorem set_bind {saved : Cursor} {f : Unit → Parser β}
    (h : Ensures deep (f ()) saved last) :
    Ensures deep (set saved >>= f) c last := h

end Ensures

end Parser

namespace Cursor.Leads

variable {β : Type} {deep : Prop} {start c : Cursor} {on : Bool}
  {last : β → Cursor → Prop}

/-! ### Single tokens -/

theorem eat_bind {kind : Token.Kind} {f : Bool → Parser β}
    (h : start.Leads on c) (hkind : kind.isPart = true)
    (htrue : start.Leads true c.advance →
      Ensures deep (f true) c.advance last)
    (hfalse : Ensures deep (f false) c last) :
    Ensures deep (eat kind >>= f) c last := by
  cases hat : c.isAt kind with
  | false =>
      apply Ensures.bind_of_ok _ hfalse
      rw [eat, hat]
      rfl
  | true =>
      apply Ensures.bind_of_ok _
        (htrue (h.advance (Token.Kind.isPart_of_sameClass hat hkind)))
      rw [eat, hat]
      rfl

theorem eatWord_bind {word : String} {f : Bool → Parser β}
    (h : start.Leads on c)
    (htrue : start.Leads true c.advance →
      Ensures deep (f true) c.advance last)
    (hfalse : Ensures deep (f false) c last) :
    Ensures deep (eatWord word >>= f) c last := by
  cases hat : c.isAtWord word with
  | false =>
      apply Ensures.bind_of_ok _ hfalse
      rw [eatWord, hat]
      rfl
  | true =>
      apply Ensures.bind_of_ok _
        (htrue (h.advance (Token.Kind.isPart_of_isWord hat)))
      rw [eatWord, hat]
      rfl

theorem eatWords_bind {words : List String} {f : Bool → Parser β}
    (h : start.Leads on c) (hne : words ≠ [])
    (htrue : ∀ c', start.Leads true c' → Ensures deep (f true) c' last)
    (hfalse : Ensures deep (f false) c last) :
    Ensures deep (eatWords words >>= f) c last := by
  cases hat : c.isAtWords words with
  | false =>
      apply Ensures.bind_of_ok _ hfalse
      rw [eatWords, hat]
      rfl
  | true =>
      apply Ensures.bind_of_ok _ (htrue _ (h.advanceBy_words hne hat))
      rw [eatWords, hat]
      rfl

theorem eatSeparator_bind {f : Bool → Parser β} (h : start.Leads on c)
    (htrue : start.Leads true c.advance →
      Ensures deep (f true) c.advance last)
    (hfalse : Ensures deep (f false) c last) :
    Ensures deep (eatSeparator >>= f) c last := by
  rw [eatSeparator, bind_assoc]
  apply h.eat_bind rfl
  · exact htrue
  · exact h.eatWord_bind htrue hfalse

theorem eatTerminator (h : start.Leads on c) :
    Ensures deep Parser.eatTerminator c fun _ => start.Leads on := by
  rw [Ensures, Parser.eatTerminator]
  cases hat : c.kind.isTerminator with
  | false => exact h
  | true =>
      have hnext := h.advance (Token.Kind.isPart_of_isTerminator hat)
      cases on with
      | false => exact hnext.weaken
      | true => exact hnext

theorem expect {kind : Token.Kind} (h : start.Leads on c)
    (hkind : kind.isPart = true) :
    Ensures deep (Parser.expect kind) c fun _ => start.Leads true := by
  rw [Ensures, Parser.expect]
  cases hat : c.isAt kind with
  | false =>
      intro hdeep
      cases hdeep
  | true => exact h.advance (Token.Kind.isPart_of_sameClass hat hkind)

theorem expectWord {word : String} (h : start.Leads on c) :
    Ensures deep (Parser.expectWord word) c fun _ => start.Leads true := by
  rw [Ensures, Parser.expectWord]
  cases hat : c.isAtWord word with
  | false =>
      intro hdeep
      cases hdeep
  | true => exact h.advance (Token.Kind.isPart_of_isWord hat)

theorem expectName (h : start.Leads on c) :
    Ensures deep Parser.expectName c fun _ => start.Leads true := by
  rw [Ensures, Parser.expectName]
  cases hkind : c.kind with
  | word name =>
      apply h.advance
      rw [hkind]
      rfl
  | _ =>
      intro hdeep
      cases hdeep

theorem advance_bind {f : Token → Parser β} (h : start.Leads on c)
    (hkind : c.kind.isPart = true)
    (hnext : start.Leads true c.advance →
      Ensures deep (f c.current) c.advance last) :
    Ensures deep (Parser.advance >>= f) c last :=
  hnext (h.advance hkind)

theorem skipNewlines_bind {f : Unit → Parser β} (h : start.Leads on c)
    (hnext : start.Leads on c.skipNewlines →
      Ensures deep (f ()) c.skipNewlines last) :
    Ensures deep (Parser.skipNewlines >>= f) c last :=
  hnext h.skipNewlines

end Cursor.Leads

end Prose
