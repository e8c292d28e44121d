import Prose.Proofs.Grammar.Alike

/-!
What two runs of a parser have to do with each other. If the first one succeeds,
the second does too, with a related result, and both cursors have the next tokens
in common again. If the first one fails, nothing is said of the second, unless
the cursors have all their tokens in common: then it fails for the same reason.
-/

namespace Prose

open Cursor Prose.Parser

namespace Comparison

variable {α β : Type} {κ : Comparison} {c d : Cursor}
  {V : α → α → Prop} {W : β → β → Prop} {inside after : Bool}

/-- The runs of two parsers agree. -/
def Outcome (κ : Comparison) (V : α → α → Prop) (inside : Bool)
    (x y : Except SyntaxError (α × Cursor)) : Prop :=
  match x with
  | .ok (a, c) => ∃ b d, y = .ok (b, d) ∧ V a b ∧ κ.Near inside c d
  | .error e => κ.here = [] → ∃ e', y = .error e' ∧ e.Alike κ.ρ e'

namespace Outcome

theorem pure {a b : α} (hab : V a b) (h : κ.Near inside c d) :
    κ.Outcome V inside ((Pure.pure a : Parser α) c)
      ((Pure.pure b : Parser α) d) :=
  ⟨b, d, rfl, hab, h⟩

theorem error {e e' : SyntaxError} (h : e.Alike κ.ρ e') :
    κ.Outcome V inside (.error e) (.error e') :=
  fun _ => ⟨e', rfl, h⟩

/-- Behind the tokens in common a failure need not be matched. -/
theorem lost {e : SyntaxError} {y : Except SyntaxError (α × Cursor)}
    (h : κ.here ≠ []) : κ.Outcome V inside (.error e) y :=
  fun hnil => absurd hnil h

theorem bind {p q : Parser α} {f g : α → Parser β}
    (h : κ.Outcome V inside (p c) (q d))
    (hnext : ∀ a b c' d', V a b → κ.Near inside c' d' →
      κ.Outcome W after (f a c') (g b d')) :
    κ.Outcome W after ((p >>= f) c) ((q >>= g) d) := by
  change κ.Outcome W after ((p c).bind _) ((q d).bind _)
  cases hp : p c with
  | error e =>
      rw [hp] at h
      intro hnil
      obtain ⟨e', hq, he⟩ := h hnil
      rw [hq]
      exact ⟨e', rfl, he⟩
  | ok result =>
      obtain ⟨a, c'⟩ := result
      rw [hp] at h
      obtain ⟨b, d', hq, hab, hnear⟩ := h
      rw [hq]
      exact hnext a b c' d' hab hnear

theorem map {p q : Parser α} {f g : α → β}
    (h : κ.Outcome V inside (p c) (q d)) (hfg : ∀ a b, V a b → W (f a) (g b)) :
    κ.Outcome W inside ((f <$> p) c) ((g <$> q) d) := by
  rw [map_eq_pure_bind, map_eq_pure_bind]
  apply h.bind
  intro a b c' d' hab hnear
  exact .pure (hfg a b hab) hnear

end Outcome

theorem get_bind {f g : Cursor → Parser β}
    (h : κ.Outcome W after (f c c) (g d d)) :
    κ.Outcome W after ((get >>= f) c) ((get >>= g) d) := h

theorem get_bind_apply {f : Cursor → Parser β} (c : Cursor) :
    (get >>= f) c = f c c := rfl

theorem skipNewlines_bind_apply {f : Unit → Parser β} (c : Cursor) :
    (Parser.skipNewlines >>= f) c = f () c.skipNewlines := rfl

theorem modify_bind {f g : Unit → Parser β} {move move' : Cursor → Cursor}
    (h : κ.Outcome W after (f () (move c)) (g () (move' d))) :
    κ.Outcome W after ((modify move >>= f) c) ((modify move' >>= g) d) := h

theorem set_bind {f g : Unit → Parser β} {saved saved' : Cursor}
    (h : κ.Outcome W after (f () saved) (g () saved')) :
    κ.Outcome W after ((set saved >>= f) c) ((set saved' >>= g) d) := h

/-! ### Failures -/

/-- A token in common is the same at both cursors, or a word. -/
theorem Within.kind_cases (h : κ.Within inside c d) :
    (∃ k, c.kind = k ∧ d.kind = k ∧ ∀ n, k ≠ .word n) ∨
      ∃ m n, c.kind = .word m ∧ d.kind = .word n ∧ κ.ρ.name m = κ.ρ.name n := by
  have hkind := h.kind
  generalize hc : c.kind = k at hkind
  generalize hd : d.kind = l at hkind
  cases hkind with
  | word hname => exact .inr ⟨_, _, rfl, rfl, hname⟩
  | same =>
      cases k with
      | word n => exact .inr ⟨n, n, rfl, rfl, rfl⟩
      | _ => exact .inl ⟨_, rfl, rfl, nofun⟩

theorem Near.alike_or_lost (h : κ.Near inside c d) :
    (c.kind.Alike κ.ρ d.kind ∧ κ.ρ.span c.span = κ.ρ.span d.span) ∨
      κ.here ≠ [] := by
  rcases h.cases with hwithin | hbeyond
  · exact .inl ⟨hwithin.kind, hwithin.span⟩
  · exact .inr hbeyond.here_ne_nil

theorem Near.unexpected (h : κ.Near inside c d) (expected : String) :
    κ.Outcome V after (Parser.unexpected expected c)
      (Parser.unexpected expected d) := by
  rcases h.alike_or_lost with ⟨hkind, hspan⟩ | hlost
  · exact .error ⟨.unexpected expected hkind, hspan⟩
  · exact .lost hlost

theorem Near.unexpected_bind {f g : α → Parser β} (h : κ.Near inside c d)
    (expected : String) :
    κ.Outcome W after ((Parser.unexpected expected >>= f) c)
      ((Parser.unexpected expected >>= g) d) := by
  have hfails : κ.Outcome (fun _ _ : α => False) false
      (Parser.unexpected expected c) (Parser.unexpected expected d) :=
    h.unexpected expected
  exact hfails.bind fun _ _ _ _ hfalse => hfalse.elim

theorem Near.noExpression (h : κ.Near inside c d) :
    κ.Outcome V after (Parser.noExpression c) (Parser.noExpression d) := by
  rcases h.alike_or_lost with ⟨hkind, hspan⟩ | hlost
  · exact .error ⟨.noExpression hkind, hspan⟩
  · exact .lost hlost

theorem Near.tooDeep (h : κ.Near inside c d) :
    κ.Outcome V after (Parser.tooDeep c) (Parser.tooDeep d) := by
  rcases h.alike_or_lost with ⟨-, hspan⟩ | hlost
  · exact .error ⟨.same _, hspan⟩
  · exact .lost hlost

/-! ### Single tokens -/

/-- The kinds of tokens that neither end a statement nor follow one. -/
def Settled (kind : Token.Kind) : Prop :=
  ∀ k : Token.Kind, (k = .newline ∨ k = .finish ∨ k.Follows) →
    k.sameClass kind = false

theorem settled_symbol (symbol : Symbol) : Settled (.symbol symbol) := by
  rintro k (rfl | rfl | hk)
  · rfl
  · rfl
  · cases hk <;> rfl

theorem settled_otherwise : Settled (.keyword .otherwise) := by
  rintro k (rfl | rfl | hk)
  · rfl
  · rfl
  · cases hk with
    | keyword h => simpa [Token.Kind.sameClass] using h
    | _ => rfl

theorem settled_indent : Settled .indent := by
  rintro k (rfl | rfl | hk)
  · rfl
  · rfl
  · cases hk <;> rfl

theorem Settled.ne {kind k other : Token.Kind} (h : Settled kind)
    (hk : k.sameClass kind = true)
    (hother : other = .newline ∨ other = .finish ∨ other.Follows) :
    k ≠ other := by
  rintro rfl
  rw [h _ hother] at hk
  cases hk

theorem Near.isAt (h : κ.Near inside c d) {kind : Token.Kind}
    (hkind : Settled kind) : c.isAt kind = d.isAt kind := by
  rcases h.cases with hwithin | hbeyond
  · exact hwithin.kind.sameClass kind
  · have hc : c.isAt kind = false := by
      apply hkind
      rcases hbeyond.kind_left with hleft | hleft
      · exact .inl hleft
      · exact .inr (.inl hleft)
    have hd : d.isAt kind = false := by
      apply hkind
      rcases hbeyond.kind_right with hright | hright
      · exact .inl hright
      · exact .inr (.inr hright)
    rw [hc, hd]

theorem Near.within_of_isAt (h : κ.Near inside c d) {kind : Token.Kind}
    (hkind : Settled kind) (hat : c.isAt kind = true) :
    κ.Within inside c d := by
  rcases h.cases with hwithin | hbeyond
  · exact hwithin
  · rcases hbeyond.kind_left with hleft | hleft
    · exact absurd hleft (hkind.ne hat (.inl rfl))
    · exact absurd hleft (hkind.ne hat (.inr (.inl rfl)))

theorem Near.advance_of_isAt (h : κ.Near inside c d) {kind : Token.Kind}
    (hkind : Settled kind) (hat : c.isAt kind = true) :
    κ.Near true c.advance d.advance :=
  (h.within_of_isAt hkind hat).advance (hkind.ne hat (.inr (.inl rfl)))
    fun _ => hkind.ne hat (.inr (.inr .dedent))

theorem Near.eat_bind {f g : Bool → Parser β} (h : κ.Near inside c d)
    {kind : Token.Kind} (hkind : Settled kind)
    (htrue : κ.Within inside c d → κ.Near true c.advance d.advance →
      κ.Outcome W after (f true c.advance) (g true d.advance))
    (hfalse : κ.Outcome W after (f false c) (g false d)) :
    κ.Outcome W after ((eat kind >>= f) c) ((eat kind >>= g) d) := by
  have hd := h.isAt hkind
  change κ.Outcome W after ((eat kind c).bind _) ((eat kind d).bind _)
  cases hat : c.isAt kind with
  | false =>
      rw [eat, eat, ← hd, hat]
      exact hfalse
  | true =>
      rw [eat, eat, ← hd, hat]
      exact htrue (h.within_of_isAt hkind hat) (h.advance_of_isAt hkind hat)

theorem Near.expect (h : κ.Near inside c d) {kind : Token.Kind}
    (hnewline : Token.Kind.newline.sameClass kind = false)
    (hfinish : Token.Kind.finish.sameClass kind = false) :
    κ.Outcome (fun s t => κ.ρ.span s = κ.ρ.span t) false
      (Parser.expect kind c) (Parser.expect kind d) := by
  rcases h.cases with hwithin | hbeyond
  · rw [Parser.expect, Parser.expect, Cursor.isAt, Cursor.isAt,
      ← hwithin.kind.sameClass kind]
    cases hat : c.kind.sameClass kind with
    | false => exact h.unexpected kind.describe
    | true =>
        have hne : c.kind ≠ .finish := by
          intro heq
          rw [heq, hfinish] at hat
          cases hat
        refine ⟨d.span, d.advance, rfl, hwithin.span, hwithin.advance hne ?_⟩
        intro htrue
        cases htrue
  · have hat : c.isAt kind = false := by
      rw [Cursor.isAt]
      rcases hbeyond.kind_left with hleft | hleft <;> rw [hleft]
      · exact hnewline
      · exact hfinish
    rw [Parser.expect, hat]
    exact .lost hbeyond.here_ne_nil

theorem Near.eatTerminator (h : κ.Near inside c d) :
    κ.Outcome (fun _ _ => True) false (Parser.eatTerminator c)
      (Parser.eatTerminator d) := by
  rcases h.cases with hwithin | hbeyond
  · rw [Parser.eatTerminator, Parser.eatTerminator,
      ← hwithin.kind.isTerminator]
    cases hat : c.kind.isTerminator with
    | false => exact ⟨false, d, rfl, trivial, h.weaken⟩
    | true =>
        have hne : c.kind ≠ .finish := by
          intro heq
          rw [heq] at hat
          cases hat
        refine ⟨true, d.advance, rfl, trivial, hwithin.advance hne ?_⟩
        intro htrue
        cases htrue
  · have hc : c.kind.isTerminator = false := by
      rcases hbeyond.kind_left with hleft | hleft <;> rw [hleft] <;> rfl
    have hd : d.kind.isTerminator = false := by
      rcases hbeyond.kind_right with hright | hright
      · rw [hright]
        rfl
      · generalize d.kind = kind at hright
        cases hright <;> rfl
    rw [Parser.eatTerminator, Parser.eatTerminator, hc, hd]
    exact ⟨false, d, rfl, trivial, h.weaken⟩

/-! ### Words -/

theorem Near.isAtWord (h : κ.Near inside c d) {word : String}
    (hword : inside = true ∨ [word] ∈ continuations) :
    c.isAtWord word = d.isAtWord word := by
  rcases h.cases with hwithin | hbeyond
  · exact hwithin.kind.isWord word
  · rw [hbeyond.isAtWord_left]
    rcases hword with rfl | hword
    · rw [hbeyond.isAtWord_right]
    · have hnot := hbeyond.not_isAtWords hword
      rw [isAtWords, wordsAhead, wordsAhead, Bool.and_true] at hnot
      exact hnot.symm

theorem Near.advance_of_isAtWord (h : κ.Near inside c d) {word : String}
    (hat : c.isAtWord word = true) : κ.Near true c.advance d.advance := by
  have hword : c.kind.isWord word = true := hat
  exact (Within.of_isWord h hword).advance (isWord_ne hword rfl)
    fun _ => isWord_ne hword rfl

theorem Near.eatWord_bind {f g : Bool → Parser β} (h : κ.Near inside c d)
    {word : String} (hword : inside = true ∨ [word] ∈ continuations)
    (htrue : κ.Near true c.advance d.advance →
      κ.Outcome W after (f true c.advance) (g true d.advance))
    (hfalse : κ.Outcome W after (f false c) (g false d)) :
    κ.Outcome W after ((eatWord word >>= f) c) ((eatWord word >>= g) d) := by
  have hd := h.isAtWord hword
  change κ.Outcome W after ((eatWord word c).bind _) ((eatWord word d).bind _)
  cases hat : c.isAtWord word with
  | false =>
      rw [eatWord, eatWord, ← hd, hat]
      exact hfalse
  | true =>
      rw [eatWord, eatWord, ← hd, hat]
      exact htrue (h.advance_of_isAtWord hat)

theorem Within.eatWords_bind {f g : Bool → Parser β}
    (h : κ.Within inside c d) {words : List String} (hne : words ≠ [])
    (htrue : ∀ c' d', κ.Near true c' d' →
      κ.Outcome W after (f true c') (g true d'))
    (hfalse : κ.Outcome W after (f false c) (g false d)) :
    κ.Outcome W after ((eatWords words >>= f) c)
      ((eatWords words >>= g) d) := by
  have hd := h.isAtWords words
  change κ.Outcome W after ((eatWords words c).bind _)
    ((eatWords words d).bind _)
  cases hat : c.isAtWords words with
  | false =>
      rw [eatWords, eatWords, ← hd, hat]
      exact hfalse
  | true =>
      rw [eatWords, eatWords, ← hd, hat]
      exact htrue _ _ (h.near.advanceBy hne hat)

theorem Near.eatSeparator_bind {f g : Bool → Parser β}
    (h : κ.Near inside c d)
    (htrue : c.kind ≠ .finish → d.kind ≠ .finish →
      κ.Near true c.advance d.advance →
      κ.Outcome W after (f true c.advance) (g true d.advance))
    (hfalse : κ.Outcome W after (f false c) (g false d)) :
    κ.Outcome W after ((eatSeparator >>= f) c) ((eatSeparator >>= g) d) := by
  have hcomma := h.isAt (settled_symbol .comma)
  have hand : c.isAtWord "and" = d.isAtWord "and" :=
    h.isAtWord (.inr (by decide))
  rw [eatSeparator, bind_assoc, bind_assoc]
  change κ.Outcome W after ((eat _ c).bind _) ((eat _ d).bind _)
  rw [eat, eat, ← hcomma]
  cases hat : c.isAt (.symbol .comma) with
  | true =>
      have hfinish := (settled_symbol .comma).ne hat (.inr (.inl rfl))
      rw [hcomma] at hat
      have hfinish' := (settled_symbol .comma).ne hat (.inr (.inl rfl))
      rw [← hcomma] at hat
      exact htrue hfinish hfinish' (h.advance_of_isAt (settled_symbol _) hat)
  | false =>
      change κ.Outcome W after ((eatWord _ c).bind _) ((eatWord _ d).bind _)
      rw [eatWord, eatWord, ← hand]
      cases hword : c.isAtWord "and" with
      | true =>
          have hword' : d.isAtWord "and" = true := by rw [← hand, hword]
          exact htrue (isWord_ne hword rfl) (isWord_ne hword' rfl)
            (h.advance_of_isAtWord hword)
      | false => exact hfalse

theorem Near.expectWord (h : κ.Near inside c d) (word : String) :
    κ.Outcome (fun _ _ => True) true (Parser.expectWord word c)
      (Parser.expectWord word d) := by
  rcases h.cases with hwithin | hbeyond
  · have hd : c.isAtWord word = d.isAtWord word := hwithin.kind.isWord word
    rw [Parser.expectWord, Parser.expectWord, ← hd]
    cases hat : c.isAtWord word with
    | false => exact h.unexpected _
    | true =>
        exact ⟨d.span, d.advance, rfl, trivial, h.advance_of_isAtWord hat⟩
  · rw [Parser.expectWord, hbeyond.isAtWord_left]
    exact .lost hbeyond.here_ne_nil

def AlikeNames (κ : Comparison) (m n : Name × Span) : Prop :=
  κ.ρ.name m.1 = κ.ρ.name n.1 ∧ κ.ρ.span m.2 = κ.ρ.span n.2

theorem Near.expectName_bind {f g : Name × Span → Parser β}
    (h : κ.Near inside c d)
    (hnext : ∀ name name', κ.AlikeNames (name, c.span) (name', d.span) →
      κ.Near true c.advance d.advance →
      κ.Outcome W after (f (name, c.span) c.advance)
        (g (name', d.span) d.advance)) :
    κ.Outcome W after ((Parser.expectName >>= f) c)
      ((Parser.expectName >>= g) d) := by
  change κ.Outcome W after ((Parser.expectName c).bind _)
    ((Parser.expectName d).bind _)
  rcases h.cases with hwithin | hbeyond
  · rcases hwithin.kind_cases with
      ⟨k, hc, hd, hk⟩ | ⟨name, name', hc, hd, hname⟩
    · have hfails : κ.Outcome W after
          ((Parser.unexpected "identifier" >>= f) c)
          ((Parser.unexpected "identifier" >>= g) d) :=
        h.unexpected_bind "identifier"
      rw [Parser.expectName, Parser.expectName, hc, hd]
      cases k with
      | word n => exact absurd rfl (hk n)
      | _ => exact hfails
    · rw [Parser.expectName, Parser.expectName, hc, hd]
      apply hnext name name' ⟨hname, hwithin.span⟩
      apply hwithin.advance
      · rw [hc]
        intro heq
        cases heq
      · intro _
        rw [hc]
        intro heq
        cases heq
  · rw [Parser.expectName]
    rcases hbeyond.kind_left with hkind | hkind <;> rw [hkind] <;>
      exact .lost hbeyond.here_ne_nil

theorem Near.expectName (h : κ.Near inside c d) :
    κ.Outcome κ.AlikeNames true (Parser.expectName c)
      (Parser.expectName d) := by
  have hpure : κ.Outcome κ.AlikeNames true ((Parser.expectName >>= pure) c)
      ((Parser.expectName >>= pure) d) := by
    apply h.expectName_bind
    intro name name' halike hnear
    exact .pure halike hnear
  rwa [bind_pure] at hpure

/-! ### Moving on -/

theorem Within.advance_bind {f g : Token → Parser β} (h : κ.Within inside c d)
    (hfinish : c.kind ≠ .finish) (hdedent : c.kind ≠ .dedent)
    (hnext : κ.Near true c.advance d.advance →
      κ.Outcome W after (f c.current c.advance) (g d.current d.advance)) :
    κ.Outcome W after ((Parser.advance >>= f) c)
      ((Parser.advance >>= g) d) :=
  hnext (h.advance hfinish fun _ => hdedent)

/-- Newlines are passed at both cursors alike, or the first one gets to the end
of its statement, where what comes next must fail. -/
theorem Near.skipNewlines_bind {f g : Unit → Parser β}
    (h : κ.Near inside c d)
    (hnext : ∀ c' d', κ.Within false c' d' →
      κ.Outcome W after (f () c') (g () d'))
    (hfail : ∀ c' : Cursor, c'.kind = .finish → ∃ e, f () c' = .error e) :
    κ.Outcome W after ((Parser.skipNewlines >>= f) c)
      ((Parser.skipNewlines >>= g) d) := by
  change κ.Outcome W after (f () c.skipNewlines) (g () d.skipNewlines)
  rcases h.cases with hwithin | hbeyond
  · exact hnext _ _ hwithin.skipNewlines
  · obtain ⟨e, herror⟩ := hfail _ hbeyond.kind_skipNewlines_left
    rw [herror]
    exact .lost hbeyond.here_ne_nil

end Comparison

end Prose
