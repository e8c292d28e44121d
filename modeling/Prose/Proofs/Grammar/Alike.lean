import Mathlib.Data.List.Forall2
import Prose.Proofs.Grammar.Reading
import Prose.Proofs.Tree.Relabel

/-!
Parsers on tokens that are alike. Two cursors have the next tokens in common, up
to a relabelling, and behind these either nothing is left, or the first one is at
the end of its statement while the second goes on with the statement after it.
As long as a parser keeps to the tokens in common it does the same at both; past
them it must not be led on by what the second cursor sees there. That needs care
only after a block: elsewhere a newline stands between two statements.
-/

namespace Prose

open Cursor

/-! ### Tokens -/

/-- The same token, up to the spelling of a word. -/
inductive Token.Kind.Alike (ρ : Relabelling) :
    Token.Kind → Token.Kind → Prop where
  | same (kind : Token.Kind) : Alike ρ kind kind
  | word {m n : Name} (h : ρ.name m = ρ.name n) : Alike ρ (.word m) (.word n)

/-- The same token at the same place, up to a relabelling. -/
structure Token.Alike (ρ : Relabelling) (s t : Token) : Prop where
  kind : s.kind.Alike ρ t.kind
  span : ρ.span s.span = ρ.span t.span

namespace Token.Kind.Alike

variable {ρ : Relabelling} {k l : Token.Kind}

theorem sameClass (h : k.Alike ρ l) (expected : Token.Kind) :
    k.sameClass expected = l.sameClass expected := by
  cases h with
  | same => rfl
  | word h => cases expected <;> rfl

theorem isWord (h : k.Alike ρ l) (word : String) :
    k.isWord word = l.isWord word := by
  cases h with
  | same => rfl
  | word h => simp only [Token.Kind.isWord, Name.isWord, ρ.key_eq h]

theorem isTerminator (h : k.Alike ρ l) : k.isTerminator = l.isTerminator := by
  cases h <;> rfl

theorem describe (h : k.Alike ρ l) : k.describe = l.describe := by
  cases h <;> rfl

theorem ne_iff (h : k.Alike ρ l) {kind : Token.Kind}
    (hkind : ∀ n, kind ≠ .word n) : k = kind ↔ l = kind := by
  cases h with
  | same => rfl
  | word h =>
      constructor <;> intro heq
      · exact absurd heq.symm (hkind _)
      · exact absurd heq.symm (hkind _)

end Token.Kind.Alike

/-! ### Errors -/

/-- The same cause, up to the spelling of the word that was found. -/
inductive SyntaxError.Cause.Alike (ρ : Relabelling) :
    SyntaxError.Cause → SyntaxError.Cause → Prop where
  | same (cause : SyntaxError.Cause) : Alike ρ cause cause
  | unexpected (expected : String) {k l : Token.Kind} (h : k.Alike ρ l) :
      Alike ρ (.unexpected expected k) (.unexpected expected l)
  | noExpression {k l : Token.Kind} (h : k.Alike ρ l) :
      Alike ρ (.noExpression k) (.noExpression l)
  | notNegatable {k l : Token.Kind} (h : k.Alike ρ l) :
      Alike ρ (.notNegatable k) (.notNegatable l)
  | noBlock {k l : Token.Kind} (h : k.Alike ρ l) :
      Alike ρ (.noBlock k) (.noBlock l)

/-- The same error at the same place, up to a relabelling. -/
structure SyntaxError.Alike (ρ : Relabelling) (e e' : SyntaxError) : Prop where
  cause : e.cause.Alike ρ e'.cause
  span : ρ.span e.span = ρ.span e'.span

/-! ### What follows the tokens in common -/

/-- The words that go on with an expression, a call or a list. -/
def continuations : List (List String) :=
  Operator.spellings.map (·.1) ++ [["with"], ["and"]]

/-- The tokens that can come after a statement of a block and its newlines: the
end of the block, or the beginning of another statement. -/
inductive Token.Kind.Follows : Token.Kind → Prop where
  | dedent : Follows .dedent
  | keyword {k : Keyword} (h : k ≠ .otherwise) : Follows (.keyword k)
  | word (name : Name) : Follows (.word name)

/-- Whether tokens begin with a plain word. -/
def beginsWithName (tokens : List Token) : Prop :=
  ∃ name rest, tokens.map (·.kind) = .word name :: rest

/-- The first tokens end the statement; the others begin with newlines, if with
any, and with what follows a statement but does not go on with it. -/
structure Apart (here there : List Token) : Prop where
  ended : ∃ n, here.map (·.kind) = List.replicate n .newline ++ [.finish]
  follows : ∃ n next rest, next.Follows ∧
    there.map (·.kind) = List.replicate n .newline ++ next :: rest
  stops : ∀ words ∈ continuations,
    beginsWith words (there.map (·.kind)) = false

/-- A relabelling, and what follows the tokens in common. -/
structure Comparison where
  ρ : Relabelling
  here : List Token
  there : List Token
  tails : (here = [] ∧ there = []) ∨ Apart here there

/-! ### Single cursors -/

namespace Cursor

variable {c : Cursor}

theorem ahead_ne_nil (hends : Ends c.kinds) (hkind : c.kind ≠ .finish) :
    c.ahead ≠ [] := by
  intro hnil
  rw [Ends, kinds, hnil] at hends
  exact hkind (Option.some.inj hends)

theorem passed_advance (h : c.ahead ≠ []) :
    c.advance.passed = c.current :: c.passed := by
  unfold advance
  cases hahead : c.ahead with
  | nil => exact absurd hahead h
  | cons token tokens => rfl

theorem current_advance (h : c.ahead ≠ []) :
    c.advance.current :: c.advance.ahead = c.ahead := by
  unfold advance
  cases hahead : c.ahead with
  | nil => exact absurd hahead h
  | cons token tokens => rfl

theorem ends_advance (h : Ends c.kinds) : Ends c.advance.kinds := by
  unfold advance
  cases hahead : c.ahead with
  | nil => exact h
  | cons token tokens =>
      rw [Ends, kinds, hahead, List.map_cons, List.getLast?_cons_cons] at h
      exact h

theorem sameClass_newline {kind : Token.Kind} :
    kind.sameClass .newline = true ↔ kind = .newline := by
  cases kind <;> simp [Token.Kind.sameClass]

theorem skipNewlines_of_ne (h : c.kind ≠ .newline) : c.skipNewlines = c := by
  apply Parser.skipNewlinesFrom_of_not_newline
  rw [← Bool.not_eq_true, sameClass_newline]
  exact h

theorem skipNewlines_of_newline (hkind : c.kind = .newline)
    (h : c.ahead ≠ []) : c.skipNewlines = c.advance.skipNewlines := by
  cases hahead : c.ahead with
  | nil => exact absurd hahead h
  | cons token tokens =>
      have hnewline : c.current.kind.sameClass .newline = true :=
        sameClass_newline.2 hkind
      rw [skipNewlines, hahead, skipNewlinesFrom, if_pos hnewline, advance,
        hahead]
      rfl

/-- Newlines are passed up to the first other token. -/
theorem kinds_skipNewlines {n : Nat} {next : Token.Kind}
    {rest : List Token.Kind} (hnext : next ≠ .newline)
    (hc : c.kinds = List.replicate n .newline ++ next :: rest) :
    c.skipNewlines.kinds = next :: rest := by
  induction n generalizing c with
  | zero =>
      rw [skipNewlines_of_ne (by rwa [kind_of_kinds hc])]
      exact hc
  | succ n ih =>
      rw [List.replicate_succ, List.cons_append] at hc
      have hadvance := kinds_advance hc (by simp)
      have hahead : c.ahead ≠ [] := by
        intro hnil
        have hlength := congrArg List.length hc
        simp [kinds, hnil] at hlength
      rw [skipNewlines_of_newline (kind_of_kinds hc) hahead]
      exact ih hadvance

end Cursor

namespace Comparison

variable {κ : Comparison} {c d : Cursor}

/-- The tokens ahead of the cursors that they have in common. Where the other
statement begins with a plain word, the token before it ends a block. -/
structure Aligned (κ : Comparison) (S T : List Token) (c d : Cursor) : Prop where
  left : c.current :: c.ahead = S ++ κ.here
  right : d.current :: d.ahead = T ++ κ.there
  alike : List.Forall₂ (Token.Alike κ.ρ) S T
  endsLeft : Ends c.kinds
  endsRight : Ends d.kinds
  previous : κ.ρ.span c.previousSpan = κ.ρ.span d.previousSpan
  solid : ∀ t, S.getLast? = some t → t.kind ≠ .newline
  guarded : beginsWithName κ.there →
    ∃ t, S.getLast?.or c.passed.head? = some t ∧ t.kind = .dedent
  unfinished : κ.here ≠ [] → ∀ t ∈ S, t.kind ≠ .finish

/-- The token passed last does not end a block. -/
def InSentence (c : Cursor) : Prop :=
  ∀ t, c.passed.head? = some t → t.kind ≠ .dedent

/-- The cursors have the next tokens in common. If the first one is inside a
sentence, no word behind these tokens can be mistaken for one of them. -/
structure Near (κ : Comparison) (inside : Bool) (c d : Cursor) : Prop where
  aligned : ∃ S T, κ.Aligned S T c d
  inside : inside = true → InSentence c

/-- The cursors have the current token in common. -/
structure Within (κ : Comparison) (inside : Bool) (c d : Cursor) : Prop where
  aligned : ∃ s S t T, κ.Aligned (s :: S) (t :: T) c d
  inside : inside = true → InSentence c

/-- The cursors are behind the tokens in common. -/
structure Beyond (κ : Comparison) (inside : Bool) (c d : Cursor) : Prop where
  aligned : κ.Aligned [] [] c d
  inside : inside = true → InSentence c

theorem Near.cases {inside : Bool} (h : κ.Near inside c d) :
    κ.Within inside c d ∨ κ.Beyond inside c d := by
  obtain ⟨S, T, haligned⟩ := h.aligned
  cases haligned.alike with
  | nil => exact .inr ⟨haligned, h.inside⟩
  | cons _ _ => exact .inl ⟨⟨_, _, _, _, haligned⟩, h.inside⟩

theorem Within.near {inside : Bool} (h : κ.Within inside c d) :
    κ.Near inside c d := by
  obtain ⟨s, S, t, T, haligned⟩ := h.aligned
  exact ⟨⟨_, _, haligned⟩, h.inside⟩

theorem Near.weaken {inside : Bool} (h : κ.Near inside c d) :
    κ.Near false c d :=
  ⟨h.aligned, nofun⟩

/-! ### At a token in common -/

namespace Aligned

variable {s t : Token} {S T : List Token}

theorem current (h : κ.Aligned (s :: S) (t :: T) c d) :
    c.current = s ∧ d.current = t :=
  ⟨(List.cons.inj h.left).1, (List.cons.inj h.right).1⟩

theorem alike_current (h : κ.Aligned (s :: S) (t :: T) c d) :
    c.current.Alike κ.ρ d.current := by
  obtain ⟨hs, ht⟩ := h.current
  cases h.alike with
  | cons hfirst _ => rwa [hs, ht]

theorem advance (h : κ.Aligned (s :: S) (t :: T) c d)
    (hkind : c.kind ≠ .finish) : κ.Aligned S T c.advance d.advance := by
  obtain ⟨hs, ht⟩ := h.current
  have hfinish : d.kind ≠ .finish := fun heq =>
    hkind ((h.alike_current.kind.ne_iff (by simp)).2 heq)
  have hc := ahead_ne_nil h.endsLeft hkind
  have hd := ahead_ne_nil h.endsRight hfinish
  constructor
  · rw [current_advance hc]
    exact (List.cons.inj h.left).2
  · rw [current_advance hd]
    exact (List.cons.inj h.right).2
  · cases h.alike with
    | cons _ hrest => exact hrest
  · exact ends_advance h.endsLeft
  · exact ends_advance h.endsRight
  · rw [previousSpan, passed_advance hc, previousSpan, passed_advance hd]
    exact h.alike_current.span
  · intro last hlast
    apply h.solid last
    rw [List.getLast?_cons, hlast]
    rfl
  · intro hname
    obtain ⟨last, hlast, hdedent⟩ := h.guarded hname
    refine ⟨last, ?_, hdedent⟩
    rw [passed_advance hc, hs, List.head?_cons, ← hlast, List.getLast?_cons]
    cases S.getLast? <;> rfl
  · intro hhere other hother
    exact h.unfinished hhere other (List.mem_cons_of_mem _ hother)

theorem skipNewlines (h : κ.Aligned (s :: S) (t :: T) c d) :
    ∃ s S t T, κ.Aligned (s :: S) (t :: T) c.skipNewlines d.skipNewlines := by
  induction S generalizing s t T c d with
  | nil =>
      have hne : c.kind ≠ .newline := by
        rw [Cursor.kind, h.current.1]
        exact h.solid s rfl
      have hne' : d.kind ≠ .newline := fun heq =>
        hne ((h.alike_current.kind.ne_iff (by simp)).2 heq)
      rw [skipNewlines_of_ne hne, skipNewlines_of_ne hne']
      exact ⟨_, _, _, _, h⟩
  | cons next S ih =>
      by_cases hkind : c.kind = .newline
      · have hkind' : d.kind = .newline :=
          (h.alike_current.kind.ne_iff (by simp)).1 hkind
        have hc := ahead_ne_nil h.endsLeft (by rw [hkind]; nofun)
        have hd := ahead_ne_nil h.endsRight (by rw [hkind']; nofun)
        have hadvance := h.advance (by rw [hkind]; nofun)
        rw [skipNewlines_of_newline hkind hc, skipNewlines_of_newline hkind' hd]
        cases hadvance.alike with
        | cons _ _ => exact ih hadvance
      · have hkind' : d.kind ≠ .newline := fun heq =>
          hkind ((h.alike_current.kind.ne_iff (by simp)).2 heq)
        rw [skipNewlines_of_ne hkind, skipNewlines_of_ne hkind']
        exact ⟨_, _, _, _, h⟩

end Aligned

namespace Within

variable {inside : Bool}

theorem token (h : κ.Within inside c d) : c.current.Alike κ.ρ d.current := by
  obtain ⟨s, S, t, T, haligned⟩ := h.aligned
  exact haligned.alike_current

theorem kind (h : κ.Within inside c d) : c.kind.Alike κ.ρ d.kind :=
  h.token.kind

theorem span (h : κ.Within inside c d) : κ.ρ.span c.span = κ.ρ.span d.span :=
  h.token.span

theorem advance (h : κ.Within inside c d) (hfinish : c.kind ≠ .finish)
    {after : Bool} (hdedent : after = true → c.kind ≠ .dedent) :
    κ.Near after c.advance d.advance := by
  obtain ⟨s, S, t, T, haligned⟩ := h.aligned
  refine ⟨⟨_, _, haligned.advance hfinish⟩, ?_⟩
  intro hafter last hlast
  rw [passed_advance (ahead_ne_nil haligned.endsLeft hfinish)] at hlast
  cases hlast
  exact hdedent hafter

theorem skipNewlines (h : κ.Within inside c d) :
    κ.Within false c.skipNewlines d.skipNewlines := by
  obtain ⟨s, S, t, T, haligned⟩ := h.aligned
  exact ⟨haligned.skipNewlines, nofun⟩

end Within

/-! ### Behind the tokens in common -/

namespace Beyond

variable {inside : Bool}

theorem apart (h : κ.Beyond inside c d) : Apart κ.here κ.there := by
  rcases κ.tails with ⟨hhere, -⟩ | hapart
  · have hleft := h.aligned.left
    rw [hhere] at hleft
    cases hleft
  · exact hapart

theorem here_ne_nil (h : κ.Beyond inside c d) : κ.here ≠ [] := by
  intro hnil
  have hleft := h.aligned.left
  rw [hnil] at hleft
  cases hleft

theorem kinds_left (h : κ.Beyond inside c d) :
    c.kinds = κ.here.map (·.kind) :=
  congrArg (List.map Token.kind) h.aligned.left

theorem kinds_right (h : κ.Beyond inside c d) :
    d.kinds = κ.there.map (·.kind) :=
  congrArg (List.map Token.kind) h.aligned.right

theorem kind_left (h : κ.Beyond inside c d) :
    c.kind = .newline ∨ c.kind = .finish := by
  obtain ⟨n, hended⟩ := h.apart.ended
  rw [← h.kinds_left] at hended
  cases n with
  | zero => exact .inr (kind_of_kinds hended)
  | succ n => exact .inl (kind_of_kinds hended)

theorem kind_right (h : κ.Beyond inside c d) :
    d.kind = .newline ∨ d.kind.Follows := by
  obtain ⟨n, next, rest, hnext, hfollows⟩ := h.apart.follows
  rw [← h.kinds_right] at hfollows
  cases n with
  | zero =>
      rw [List.replicate_zero, List.nil_append] at hfollows
      rw [kind_of_kinds hfollows]
      exact .inr hnext
  | succ n => exact .inl (kind_of_kinds hfollows)

theorem kind_skipNewlines_left (h : κ.Beyond inside c d) :
    c.skipNewlines.kind = .finish := by
  obtain ⟨n, hended⟩ := h.apart.ended
  rw [← h.kinds_left] at hended
  exact kind_of_kinds (kinds_skipNewlines (by simp) hended)

theorem kind_skipNewlines_right (h : κ.Beyond inside c d) :
    d.skipNewlines.kind.Follows := by
  obtain ⟨n, next, rest, hnext, hfollows⟩ := h.apart.follows
  rw [← h.kinds_right] at hfollows
  have hne : next ≠ .newline := by
    rintro rfl
    cases hnext
  rwa [kind_of_kinds (kinds_skipNewlines hne hfollows)]

/-- Inside a sentence, no plain word follows. -/
theorem kind_right_ne_word (h : κ.Beyond true c d) (name : Name) :
    d.kind ≠ .word name := by
  intro hkind
  have hname : beginsWithName κ.there :=
    ⟨name, _, by rw [← h.kinds_right, kinds, ← hkind]; rfl⟩
  obtain ⟨last, hlast, hdedent⟩ := h.aligned.guarded hname
  exact h.inside rfl last hlast hdedent

theorem isAtWord_right (h : κ.Beyond true c d) (word : String) :
    d.isAtWord word = false := by
  change d.kind.isWord word = false
  cases hkind : d.kind with
  | word name => exact absurd hkind (h.kind_right_ne_word name)
  | _ => rfl

theorem isAtWord_left (h : κ.Beyond inside c d) (word : String) :
    c.isAtWord word = false := by
  change c.kind.isWord word = false
  rcases h.kind_left with hkind | hkind <;> rw [hkind] <;> rfl

end Beyond

/-! ### Words and operators -/

/-- Words are looked for in the tokens in common, or nowhere. -/
theorem beginsWith_append {ρ : Relabelling} {S T here there : List Token.Kind}
    (halike : List.Forall₂ (Token.Kind.Alike ρ) S T)
    (hhere : ∀ word words, beginsWith (word :: words) here = false)
    (hthere : (∀ word words, beginsWith (word :: words) there = false) ∨
      S.getLast? = some .dedent) (words : List String) :
    beginsWith words (S ++ here) = beginsWith words (T ++ there) := by
  induction halike generalizing words with
  | nil =>
      rcases hthere with hthere | hlast
      · cases words with
        | nil => rw [beginsWith, beginsWith]
        | cons word words =>
            rw [List.nil_append, List.nil_append, hhere, hthere]
      · cases hlast
  | @cons s t S T hfirst hrest ih =>
      cases words with
      | nil => rw [beginsWith, beginsWith]
      | cons word words =>
          rw [List.cons_append, List.cons_append, beginsWith, beginsWith,
            hfirst.isWord]
          cases hword : t.isWord word with
          | false => rfl
          | true =>
              rw [Bool.true_and, Bool.true_and]
              apply ih
              rcases hthere with hthere | hlast
              · exact .inl hthere
              · rw [List.getLast?_cons] at hlast
                cases hS : S.getLast? with
                | some last =>
                    rw [hS] at hlast
                    exact .inr hlast
                | none =>
                    rw [hS] at hlast
                    have hs : s = .dedent := Option.some.inj hlast
                    rw [← hfirst.isWord, hs] at hword
                    cases hword

theorem not_beginsWith_here (κ : Comparison) (word : String)
    (words : List String) :
    beginsWith (word :: words) (κ.here.map (·.kind)) = false := by
  rcases κ.tails with ⟨hhere, -⟩ | hapart
  · rw [hhere]
    rfl
  · obtain ⟨n, hended⟩ := hapart.ended
    rw [hended]
    cases n <;> rfl

theorem not_beginsWith_there {tokens : List Token}
    (h : ¬ beginsWithName tokens) (word : String) (words : List String) :
    beginsWith (word :: words) (tokens.map (·.kind)) = false := by
  cases hkinds : tokens.map (·.kind) with
  | nil => rfl
  | cons kind kinds =>
      rw [beginsWith]
      cases kind with
      | word name => exact absurd ⟨name, kinds, hkinds⟩ h
      | _ => rfl

theorem Within.isAtWords {inside : Bool} (h : κ.Within inside c d)
    (words : List String) : c.isAtWords words = d.isAtWords words := by
  obtain ⟨s, S, t, T, haligned⟩ := h.aligned
  have hc : c.kinds = (s :: S).map (·.kind) ++ κ.here.map (·.kind) := by
    rw [← List.map_append]
    exact congrArg (List.map Token.kind) haligned.left
  have hd : d.kinds = (t :: T).map (·.kind) ++ κ.there.map (·.kind) := by
    rw [← List.map_append]
    exact congrArg (List.map Token.kind) haligned.right
  rw [isAtWords_eq haligned.endsLeft, isAtWords_eq haligned.endsRight, hc, hd]
  have hkinds : List.Forall₂ (Token.Kind.Alike κ.ρ) ((s :: S).map (·.kind))
      ((t :: T).map (·.kind)) := by
    rw [List.forall₂_map_left_iff, List.forall₂_map_right_iff]
    exact haligned.alike.imp fun _ _ htoken => htoken.kind
  apply beginsWith_append hkinds
  · exact not_beginsWith_here κ
  · by_cases hname : beginsWithName κ.there
    · obtain ⟨last, hlast, hdedent⟩ := haligned.guarded hname
      rw [List.getLast?_cons, Option.some_or] at hlast
      refine .inr ?_
      rw [List.getLast?_map, List.getLast?_cons, hlast, Option.map_some,
        hdedent]
    · exact .inl (not_beginsWith_there hname)

/-- Behind the tokens in common no operator, `with` or `and` follows. -/
theorem Beyond.not_isAtWords {inside : Bool} (h : κ.Beyond inside c d)
    {words : List String} (hwords : words ∈ continuations) :
    d.isAtWords words = false := by
  rw [isAtWords_eq h.aligned.endsRight, h.kinds_right]
  exact h.apart.stops words hwords

theorem operator?_eq_find? {name : Name} (hkind : c.kind = .word name) :
    c.operator? = (Operator.spellings.find? fun s => c.isAtWords s.1).map
      fun s => (s.2, s.1.length) := by
  rw [Cursor.operator?, hkind]

theorem Within.operator? {inside : Bool} (h : κ.Within inside c d) :
    c.operator? = d.operator? := by
  have hkind := h.kind
  generalize hc : c.kind = k at hkind
  generalize hd : d.kind = l at hkind
  cases hkind with
  | word _ =>
      rw [operator?_eq_find? hc, operator?_eq_find? hd]
      simp only [h.isAtWords]
  | same =>
      simp only [Cursor.operator?, hc, hd, h.isAtWords]

theorem Beyond.operator? {inside : Bool} (h : κ.Beyond inside c d) :
    c.operator? = none ∧ d.operator? = none := by
  constructor
  · rcases h.kind_left with hkind | hkind <;> rw [Cursor.operator?, hkind]
  · rcases h.kind_right with hkind | hfollows
    · rw [Cursor.operator?, hkind]
    · generalize hkind : d.kind = kind at hfollows
      cases hfollows with
      | dedent | keyword _ => rw [Cursor.operator?, hkind]
      | word name =>
          have hnone : ∀ s ∈ Operator.spellings, ¬ d.isAtWords s.1 = true := by
            intro s hs
            rw [h.not_isAtWords]
            · exact Bool.false_ne_true
            · exact List.mem_append_left _ (List.mem_map_of_mem hs)
          rw [operator?_eq_find? hkind, List.find?_eq_none.2 hnone]
          rfl

theorem Near.operator? {inside : Bool} (h : κ.Near inside c d) :
    c.operator? = d.operator? := by
  rcases h.cases with hwithin | hbeyond
  · exact hwithin.operator?
  · rw [hbeyond.operator?.1, hbeyond.operator?.2]

theorem Within.of_isWord {inside : Bool} (h : κ.Near inside c d)
    {word : String} (hword : c.kind.isWord word = true) :
    κ.Within inside c d := by
  rcases h.cases with hwithin | hbeyond
  · exact hwithin
  · rcases hbeyond.kind_left with hkind | hkind <;> rw [hkind] at hword <;>
      cases hword

theorem isWord_ne {kind other : Token.Kind} {word : String}
    (hword : kind.isWord word = true) (hother : other.isWord word = false) :
    kind ≠ other := by
  rintro rfl
  rw [hword] at hother
  cases hother

/-- Words that are next at the first cursor are passed at both. -/
theorem Near.advanceBy {inside : Bool} (h : κ.Near inside c d)
    {words : List String} (hne : words ≠ [])
    (hwords : c.isAtWords words = true) :
    κ.Near true (c.advanceBy words.length) (d.advanceBy words.length) := by
  induction words generalizing c d inside with
  | nil => exact absurd rfl hne
  | cons word words ih =>
      obtain ⟨S, T, haligned⟩ := h.aligned
      rw [isAtWords_eq haligned.endsLeft, Cursor.kinds, beginsWith,
        Bool.and_eq_true] at hwords
      have hwithin := Within.of_isWord h hwords.1
      have hfinish : c.kind ≠ .finish := isWord_ne hwords.1 rfl
      have hadvance : κ.Near true c.advance d.advance :=
        hwithin.advance hfinish fun _ => isWord_ne hwords.1 rfl
      by_cases hnil : words = []
      · subst hnil
        exact hadvance
      · apply ih hadvance hnil
        rw [isAtWords_eq (ends_advance haligned.endsLeft)]
        have hahead := ahead_ne_nil haligned.endsLeft hfinish
        rw [kinds_advance rfl (by simpa using hahead)]
        exact hwords.2

theorem operator?_eq_some {op : Operator} {length : Nat}
    (h : c.operator? = some (op, length)) :
    (length = 1 ∧ ∃ symbol, c.kind = .symbol symbol) ∨
      ∃ words, words ≠ [] ∧ words.length = length ∧
        c.isAtWords words = true := by
  cases hkind : c.kind with
  | symbol symbol =>
      rw [Cursor.operator?, hkind] at h
      refine .inl ⟨?_, symbol, rfl⟩
      cases symbol <;> cases h <;> rfl
  | word name =>
      rw [operator?_eq_find? hkind, Option.map_eq_some_iff] at h
      obtain ⟨spelling, hfind, heq⟩ := h
      cases heq
      have hmem := List.mem_of_find?_eq_some hfind
      have hne : ∀ s ∈ Operator.spellings, s.1 ≠ [] := by decide
      have hat := List.find?_some hfind
      exact .inr ⟨spelling.1, hne _ hmem, rfl, hat⟩
  | _ =>
      rw [Cursor.operator?, hkind] at h
      cases h

theorem Near.advanceBy_operator {inside : Bool} (h : κ.Near inside c d)
    {op : Operator} {length : Nat} (hop : c.operator? = some (op, length)) :
    κ.Near true (c.advanceBy length) (d.advanceBy length) := by
  rcases operator?_eq_some hop with ⟨rfl, symbol, hkind⟩ | ⟨words, hne, rfl, hat⟩
  · rcases h.cases with hwithin | hbeyond
    · apply hwithin.advance
      · rw [hkind]
        nofun
      · intro _
        rw [hkind]
        nofun
    · rcases hbeyond.kind_left with hleft | hleft <;> rw [hleft] at hkind <;>
        cases hkind
  · exact h.advanceBy hne hat

end Comparison

end Prose
