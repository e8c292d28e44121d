import Prose.Proofs.Grammar.Turns
import Prose.Proofs.Token.Readings

/-!
Productions move on. Every expression and every statement that was read has at
least one token, and so has every turn of a loop that is not its last. The calls
that may come before the first token have smaller and smaller ranks; hence the
bound on the depth of calls is never met, and a parser ends with a tree or with
an error about the tokens.
-/

namespace Prose

open Cursor Prose.Parser

namespace Parser

/-! ### Productions with recursion -/

/-- The productions that call each other, the loops among them. -/
inductive Production : Type → Type 1 where
  | binary (least : Nat) : Production Expr
  | primary : Production Expr
  | resultCall : Production Call
  | callFrom (callee : Expr) : Production Call
  | argument : Production Argument
  | statement : Production Stmt
  | sentence : Production (Span → Stmt)
  | body : Production Body
  | alternative : Production Body
  | block : Production Block
  | loop {σ : Type} (loop : Loop σ) (state : σ) : Production σ

namespace Production

variable {α : Type}

/-- The parser of a production that may call others to the given depth. -/
def parser (n : Nat) : Production α → Parser α
  | binary least => Parser.binary n least
  | primary => Parser.primary n
  | resultCall => Parser.resultCall n
  | callFrom callee => Parser.callFrom n callee
  | argument => Parser.argument n
  | statement => Parser.statement n
  | sentence => Parser.sentence n
  | body => Parser.body n
  | alternative => Parser.alternative n
  | block => Parser.block n
  | loop l state => l.run n state

/-- Whether the production reads a token wherever it succeeds. -/
def moves : Production α → Bool
  | callFrom _ | loop _ _ => false
  | _ => true

/-- A production calls only those of lower rank before it has read a token. -/
def rank : Production α → Nat
  | binary _ => 2
  | resultCall | sentence => 3
  | statement => 4
  | alternative | loop _ _ => 5
  | _ => 1

theorem rank_pos (p : Production α) : 0 < p.rank := by
  cases p <;> simp [rank]

theorem rank_le (p : Production α) : p.rank ≤ 5 := by
  cases p <;> simp [rank]

end Production

/-- At a depth, every production gets to where it should, and is too deep only
where too few calls are left for the tokens ahead and its rank. -/
def Moves (n : Nat) : Prop :=
  ∀ {α : Type} (p : Production α) {c : Cursor}, Ends c.kinds →
    Ensures (n < 8 * c.ahead.length + p.rank) (p.parser n) c
      fun _ => c.Leads p.moves

theorem moves_zero : Moves 0 := by
  intro α p c hends
  have hdeep : 0 < 8 * c.ahead.length + p.rank := by
    have hrank := p.rank_pos
    omega
  have htooDeep : ∀ {post : α → Cursor → Prop},
      Ensures (0 < 8 * c.ahead.length + p.rank) (tooDeep : Parser α) c post :=
    fun _ => hdeep
  cases p with
  | loop l state =>
      cases l with
      | names | words => exact .pure (.refl hends)
      | _ => exact htooDeep
  | _ => exact htooDeep

namespace Moves

variable {α : Type} {n rank : Nat} {start c : Cursor} (ih : Moves n)
include ih

/-- A call after the first token may be of any rank. -/
theorem after (p : Production α) (h : start.Leads true c) :
    Ensures (n + 1 < 8 * start.ahead.length + rank) (p.parser n) c
      fun _ => start.Leads true := by
  apply (ih p h.ends).mono
  · exact fun _ _ h₁ => h.trans h₁
  · intro hdeep
    have hrank := p.rank_le
    have hlength := h.length_ahead_lt
    omega

/-- A call that may come before the first token is of lower rank. -/
theorem first (p : Production α) (h : start.Leads false c)
    (hrank : p.rank < rank) :
    Ensures (n + 1 < 8 * start.ahead.length + rank) (p.parser n) c
      fun _ => start.Leads p.moves := by
  apply (ih p h.ends).mono
  · exact fun _ _ h₁ => h.trans h₁
  · intro hdeep
    have hlength := h.length_ahead
    omega

theorem ensures_turn {σ : Type} (loop : Loop σ) (state : σ)
    (hends : Ends c.kinds) :
    Ensures (n + 1 < 8 * c.ahead.length + 5) (loop.turn n state) c
      fun next => c.Leads next.isSome := by
  have h := Leads.refl hends
  cases loop with
  | operators least =>
      rw [Loop.turn]
      apply Ensures.get_bind
      cases hop : c.operator? with
      | none => exact .pure h
      | some found =>
          obtain ⟨op, length⟩ := found
          dsimp only
          split
          · exact .pure h
          · apply Ensures.modify_bind
            apply (ih.after (.binary op.rightPrecedence) (h.advanceBy_operator hop)).bind
            intro right c₁ h₁
            exact .pure h₁
  | items =>
      rw [Loop.turn]
      apply h.eat_bind rfl
      · intro h₁
        apply (ih.after (.binary 1) h₁).bind
        intro item c₂ h₂
        exact .pure h₂
      · exact .pure h
  | arguments =>
      rw [Loop.turn]
      apply h.eatSeparator_bind
      · intro h₁
        apply (ih.after .argument h₁).bind
        intro arg c₂ h₂
        exact .pure h₂
      · exact .pure h
  | lines =>
      rw [Loop.turn]
      apply h.skipNewlines_bind
      intro h₁
      apply Ensures.get_bind
      split
      · exact .pure h₁
      · split
        · exact .unexpected
        · apply (ih.first .statement h₁ (by decide)).bind
          intro stmt c₂ h₂
          exact .pure h₂
  | names => exact Loop.ensures_turn_names hends
  | words => exact Loop.ensures_turn_words hends

theorem loop_succ {σ : Type} (loop : Loop σ) (state : σ)
    (hends : Ends c.kinds) :
    Ensures (n + 1 < 8 * c.ahead.length + 5) (loop.run (n + 1) state) c
      fun _ => c.Leads false := by
  apply Loop.ensures_succ (ih.ensures_turn loop state hends)
  intro next c₁ h₁
  exact ih.after (.loop loop next) h₁

/-- A block after the words that announce it. -/
theorem block_after (h : start.Leads true c) {β : Type} {f : Block → β} :
    Ensures (n + 1 < 8 * start.ahead.length + rank)
      (do
        skipNewlines
        return f (← Parser.block n) : Parser β) c
      fun _ => start.Leads true := by
  apply h.skipNewlines_bind
  intro h₁
  apply (ih.after .block h₁).bind
  intro block c₂ h₂
  exact .pure h₂

theorem primary_succ (hends : Ends c.kinds) :
    Ensures (n + 1 < 8 * c.ahead.length + 1) (Parser.primary (n + 1)) c
      fun _ => c.Leads true := by
  have h := Leads.refl hends
  rw [Parser.primary]
  apply Ensures.get_bind
  dsimp only
  cases hkind : c.kind with
  | integer | real | text =>
      apply h.advance_bind (by rw [hkind]; rfl)
      intro h₁
      exact .pure h₁
  | keyword k =>
      cases k with
      | yes | no =>
          apply h.advance_bind (by rw [hkind]; rfl)
          intro h₁
          exact .pure h₁
      | _ => exact .error rfl nofun
  | symbol s =>
      cases s with
      | minus => exact ensures_negativeLiteral h hkind
      | openBracket =>
          apply h.advance_bind (by rw [hkind]; rfl)
          intro h₁
          apply Ensures.get_bind
          split
          · apply (h₁.expect rfl).bind
            intro stop c₂ h₂
            exact .pure h₂
          · apply (ih.after (.binary 1) h₁).bind
            intro first c₂ h₂
            apply (ih.after (.loop .items [first]) h₂).bind
            intro items c₃ h₃
            apply (h₃.expect rfl).bind
            intro stop c₄ h₄
            exact .pure h₄
      | openParen =>
          apply h.advance_bind (by rw [hkind]; rfl)
          intro h₁
          apply (ih.after (.binary 1) h₁).bind
          intro inner c₂ h₂
          apply (h₂.expect rfl).bind
          intro stop c₃ h₃
          exact .pure h₃
      | _ => exact .error rfl nofun
  | word name =>
      have hcall : ∀ {c₁}, c.Leads true c₁ →
          Ensures (n + 1 < 8 * c.ahead.length + 1)
            (do
              let call ← Parser.resultCall n
              return .result call (c.span.merge call.span) : Parser Expr) c₁
            fun _ => c.Leads true := by
        intro c₁ h₁
        apply (ih.after .resultCall h₁).bind
        intro call c₂ h₂
        exact .pure h₂
      apply h.eatWords_bind (by simp)
      · intro c₁ h₁
        apply (ensures_parameters h₁).bind
        intro params c₂ h₂
        apply (h₂.expect rfl).bind
        intro _ c₃ h₃
        exact ih.block_after h₃
      · apply h.eatWords_bind (by simp)
        · exact fun c₁ h₁ => hcall h₁
        · apply h.eatWords_bind (by simp)
          · exact fun c₁ h₁ => hcall h₁
          · apply h.advance_bind (by rw [hkind]; rfl)
            intro h₁
            exact .pure h₁
  | _ => exact .error rfl nofun

theorem assignment {word : String} (h : start.Leads false c)
    (hrank : 2 < rank) :
    Ensures (n + 1 < 8 * start.ahead.length + rank)
      (do
        let target ← targetOf (← Parser.binary n Operator.atPosition.precedence)
        let _ ← Parser.expectWord word
        return .assign target (← Parser.binary n 1) : Parser (Span → Stmt)) c
      fun _ => start.Leads true := by
  apply (ih.first (.binary Operator.atPosition.precedence) h hrank).bind
  intro left c₁ h₁
  apply (ensures_targetOf h₁ left).bind
  intro target c₂ h₂
  apply h₂.expectWord.bind
  intro _ c₃ h₃
  apply (ih.after (.binary 1) h₃).bind
  intro value c₄ h₄
  exact .pure h₄

/-- A statement that is one expression after a word. -/
theorem unary {make : Expr → Span → Stmt} (h : start.Leads true c) :
    Ensures (n + 1 < 8 * start.ahead.length + rank)
      (do return make (← Parser.binary n 1) : Parser (Span → Stmt)) c
      fun _ => start.Leads true := by
  apply (ih.after (.binary 1) h).bind
  intro value c₁ h₁
  exact .pure h₁

/-- What may follow the body of a branch: where no `otherwise` stands, the
cursor goes back to the end of the body. -/
theorem otherwise {condition : Expr} {first : Body}
    (h : start.Leads true c) :
    Ensures (n + 1 < 8 * start.ahead.length + rank)
      (do
        let saved ← get
        skipNewlines
        let _ ← eat (.symbol .comma)
        if ← eat (.keyword .otherwise) then
          return .branch condition first (some (← Parser.alternative n))
        else
          set saved
          return .branch condition first none : Parser (Span → Stmt)) c
      fun _ => start.Leads true := by
  apply Ensures.get_bind
  apply h.skipNewlines_bind
  intro h₁
  have hclause : ∀ {c₂}, start.Leads true c₂ →
      Ensures (n + 1 < 8 * start.ahead.length + rank)
        (do
          if ← eat (.keyword .otherwise) then
            return .branch condition first (some (← Parser.alternative n))
          else
            set c
            return .branch condition first none : Parser (Span → Stmt)) c₂
        fun _ => start.Leads true := by
    intro c₂ h₂
    apply h₂.eat_bind rfl
    · intro h₃
      apply (ih.after .alternative h₃).bind
      intro body c₄ h₄
      exact .pure h₄
    · exact .set_bind (.pure h)
  apply h₁.eat_bind rfl
  · exact fun h₂ => hclause h₂
  · exact hclause h₁

theorem sentence_succ (hends : Ends c.kinds) :
    Ensures (n + 1 < 8 * c.ahead.length + 3) (Parser.sentence (n + 1)) c
      fun _ => c.Leads true := by
  have h := Leads.refl hends
  rw [Parser.sentence]
  apply Ensures.get_bind
  cases hkind : c.kind with
  | keyword k =>
      have hpart : c.kind.isPart = true := by
        rw [hkind]
        rfl
      cases k with
      | set =>
          apply h.advance_bind hpart
          intro h₁
          exact ih.assignment h₁.weaken (by decide)
      | print =>
          apply h.advance_bind hpart
          intro h₁
          exact ih.unary h₁
      | read =>
          apply h.advance_bind hpart
          intro h₁
          exact ensures_readStatement h₁
      | add =>
          apply h.advance_bind hpart
          intro h₁
          apply (ih.after (.binary 1) h₁).bind
          intro value c₂ h₂
          apply h₂.expectWord.bind
          intro _ c₃ h₃
          exact ih.unary h₃
      | remove =>
          apply h.advance_bind hpart
          intro h₁
          apply (ih.after (.binary Operator.atPosition.precedence) h₁).bind
          intro e c₂ h₂
          split
          · exact .pure h₂
          · exact .unexpected
      | loop =>
          apply h.advance_bind hpart
          intro h₁
          apply (ih.after (.binary 1) h₁).bind
          intro condition c₂ h₂
          apply (ih.after .body h₂).bind
          intro body c₃ h₃
          exact .pure h₃
      | branch =>
          apply h.advance_bind hpart
          intro h₁
          apply (ih.after (.binary 1) h₁).bind
          intro condition c₂ h₂
          apply (ih.after .body h₂).bind
          intro first c₃ h₃
          exact ih.otherwise h₃
      | each =>
          apply h.advance_bind hpart
          intro h₁
          apply h₁.expectWord.bind
          intro _ c₂ h₂
          apply h₂.expectName.bind
          intro item c₃ h₃
          apply h₃.expectWord.bind
          intro _ c₄ h₄
          apply (ih.after (.binary 1) h₄).bind
          intro list c₅ h₅
          apply (ih.after .body h₅).bind
          intro body c₆ h₆
          exact .pure h₆
      | increment | decrement =>
          apply h.advance_bind hpart
          intro h₁
          apply h₁.expectName.bind
          intro name c₂ h₂
          exact .pure h₂
      | exit =>
          apply h.advance_bind hpart
          intro h₁
          exact .pure h₁
      | run =>
          apply h.advance_bind hpart
          intro h₁
          apply (ih.after (.binary 1) h₁).bind
          intro callee c₂ h₂
          apply (ih.after (.callFrom callee) h₂).bind
          intro call c₃ h₃
          exact .pure h₃
      | otherwise | yes | no => exact .unexpected
  | word name =>
      apply h.eatWords_bind (by simp)
      · exact fun c₁ h₁ => ih.unary h₁
      · apply h.eatWords_bind (by simp)
        · exact fun c₁ h₁ => ih.unary h₁
        · exact ih.assignment h (by decide)
  | _ => exact .unexpected

theorem callFrom_succ (callee : Expr) (hends : Ends c.kinds) :
    Ensures (n + 1 < 8 * c.ahead.length + rank)
      (Parser.callFrom (n + 1) callee) c fun _ => c.Leads false := by
  have h := Leads.refl hends
  rw [Parser.callFrom]
  apply h.eatWord_bind
  · intro h₁
    apply (ih.after .argument h₁).bind
    intro first c₂ h₂
    apply (ih.after (.loop .arguments [first]) h₂).bind
    intro args c₃ h₃
    exact .pure h₃.weaken
  · exact .pure h

theorem argument_succ (hends : Ends c.kinds) :
    Ensures (n + 1 < 8 * c.ahead.length + rank) (Parser.argument (n + 1)) c
      fun _ => c.Leads true := by
  rw [Parser.argument]
  apply (Leads.refl hends).expectName.bind
  intro name c₁ h₁
  apply h₁.expectWord.bind
  intro _ c₂ h₂
  apply (ih.after (.binary 1) h₂).bind
  intro value c₃ h₃
  exact .pure h₃

theorem body_succ (hends : Ends c.kinds) :
    Ensures (n + 1 < 8 * c.ahead.length + rank) (Parser.body (n + 1)) c
      fun _ => c.Leads true := by
  have h := Leads.refl hends
  rw [Parser.body]
  apply h.eat_bind rfl
  · exact fun h₁ => ih.block_after h₁
  · apply h.eat_bind rfl
    · intro h₁
      apply (ih.after .statement h₁).bind
      intro stmt c₂ h₂
      exact .pure h₂
    · exact .unexpected

theorem alternative_succ (hends : Ends c.kinds) :
    Ensures (n + 1 < 8 * c.ahead.length + 5) (Parser.alternative (n + 1)) c
      fun _ => c.Leads true := by
  have h := Leads.refl hends
  have hsentence : ∀ {c₁}, c.Leads false c₁ →
      Ensures (n + 1 < 8 * c.ahead.length + 5)
        (do return .sentence (← Parser.statement n) : Parser Body) c₁
        fun _ => c.Leads true := by
    intro c₁ h₁
    apply (ih.first .statement h₁ (by decide)).bind
    intro stmt c₂ h₂
    exact .pure h₂
  rw [Parser.alternative]
  apply Ensures.get_bind
  split
  · exact ih.first .body h (by decide)
  · apply h.eat_bind rfl
    · exact fun h₁ => hsentence h₁.weaken
    · exact hsentence h

theorem block_succ (hends : Ends c.kinds) :
    Ensures (n + 1 < 8 * c.ahead.length + rank) (Parser.block (n + 1)) c
      fun _ => c.Leads true := by
  have h := Leads.refl hends
  rw [Parser.block]
  apply Ensures.get_bind
  apply h.eat_bind rfl
  · intro h₁
    apply (ih.after (.loop .lines []) h₁).bind
    intro stmts c₂ h₂
    apply (h₂.expect rfl).bind
    intro stop c₃ h₃
    exact .pure h₃
  · exact .error rfl nofun

theorem statement_succ (hends : Ends c.kinds) :
    Ensures (n + 1 < 8 * c.ahead.length + 4) (Parser.statement (n + 1)) c
      fun _ => c.Leads true := by
  rw [Parser.statement]
  apply Ensures.get_bind
  apply (ih.first .sentence (.refl hends) (by decide)).bind
  intro make c₁ h₁
  apply Ensures.get_bind
  apply h₁.eatTerminator.bind
  intro _ c₂ h₂
  exact .pure h₂

theorem resultCall_succ (hends : Ends c.kinds) :
    Ensures (n + 1 < 8 * c.ahead.length + 3) (Parser.resultCall (n + 1)) c
      fun _ => c.Leads true := by
  rw [Parser.resultCall]
  apply (ih.first (.binary Operator.atPosition.precedence) (.refl hends)
    (Nat.lt_succ_self 2)).bind
  intro callee c₁ h₁
  exact ih.after (.callFrom callee) h₁

theorem binary_succ (least : Nat) (hends : Ends c.kinds) :
    Ensures (n + 1 < 8 * c.ahead.length + 2) (Parser.binary (n + 1) least) c
      fun _ => c.Leads true := by
  rw [Parser.binary]
  apply (ih.first .primary (.refl hends) (by decide)).bind
  intro left c₁ h₁
  exact ih.after (.loop (.operators least) left) h₁

end Moves

/-- Every production moves on, whatever the depth. -/
theorem moves (n : Nat) : Moves n := by
  induction n with
  | zero => exact moves_zero
  | succ n ih =>
      intro α p c hends
      cases p with
      | binary least => exact ih.binary_succ least hends
      | primary => exact ih.primary_succ hends
      | resultCall => exact ih.resultCall_succ hends
      | callFrom callee => exact ih.callFrom_succ callee hends
      | argument => exact ih.argument_succ hends
      | statement => exact ih.statement_succ hends
      | sentence => exact ih.sentence_succ hends
      | body => exact ih.body_succ hends
      | alternative => exact ih.alternative_succ hends
      | block => exact ih.block_succ hends
      | loop loop state => exact ih.loop_succ loop state hends

/-! ### Whole statements -/

section Complete

variable {c : Cursor} {depth : Nat}

theorem ensures_finish {start : Cursor} {on : Bool} (h : start.Leads on c) :
    Ensures False finish c
      fun _ c' => start.Leads on c' ∧ c'.kind = .finish := by
  rw [finish]
  apply h.skipNewlines_bind
  intro h₁
  apply Ensures.get_bind
  split
  · next hend => exact .pure ⟨h₁, Token.Kind.sameClass_finish.1 hend⟩
  · exact .unexpected

/-- A production of low rank is not too deep if there are calls enough. -/
theorem ensures_production {α : Type} (p : Production α) (hends : Ends c.kinds)
    (hrank : p.rank ≤ 8) (hdepth : 8 * c.ahead.length + 8 ≤ depth) :
    Ensures False (p.parser depth) c fun _ => c.Leads p.moves := by
  apply (moves depth p hends).mono (fun _ _ h => h)
  omega

theorem ensures_completeStatement (hends : Ends c.kinds)
    (hdepth : 8 * c.ahead.length + 8 ≤ depth) :
    Ensures False (completeStatement depth) c
      fun _ c' => c.Leads true c' ∧ c'.kind = .finish := by
  rw [completeStatement]
  apply (Leads.refl hends).skipNewlines_bind
  intro h₁
  have hlength := h₁.length_ahead
  apply (ensures_production .statement h₁.ends (by decide) (by omega)).bind
  intro stmt c₂ h₂
  apply (ensures_finish (h₁.trans h₂)).bind
  intro _ c₃ h₃
  exact .pure h₃

theorem ensures_completeExpression (hends : Ends c.kinds)
    (hdepth : 8 * c.ahead.length + 8 ≤ depth) :
    Ensures False (completeExpression depth) c
      fun _ c' => c.Leads true c' ∧ c'.kind = .finish := by
  rw [completeExpression]
  apply (Leads.refl hends).skipNewlines_bind
  intro h₁
  have hlength := h₁.length_ahead
  apply (ensures_production (.binary 1) h₁.ends (by decide) (by omega)).bind
  intro e c₂ h₂
  apply (h₁.trans h₂).eatTerminator.bind
  intro _ c₃ h₃
  apply (ensures_finish h₃).bind
  intro _ c₄ h₄
  exact .pure h₄

end Complete

end Parser

/-! ### Tokens that end once -/

/-- The tokens end in the end of the statement, which stands nowhere else. -/
def EndsOnce (tokens : List Token) : Prop :=
  ∃ front last, tokens = front ++ [last] ∧ last.kind = .finish ∧
    ∀ t ∈ front, t.kind ≠ .finish

theorem endsOnce_lex (text : List Char) : EndsOnce (lex text).tokens := by
  refine ⟨_, _, rfl, rfl, ?_⟩
  intro t ht hkind
  obtain ⟨lexeme, hmem, rfl⟩ := List.mem_map.1 ht
  have hread : lexeme.reading ∈ Lexer.readings text :=
    List.mem_map_of_mem hmem
  apply Lexer.kindOf_ne_finish hread
  rw [← Lexer.kind_token, hkind]

namespace Cursor

variable {c c' : Cursor} {on : Bool}

theorem ends_of_endsOnce (h : EndsOnce c.tokens) : Ends c.kinds := by
  obtain ⟨front, last, htokens, hlast, -⟩ := h
  have hget := congrArg List.getLast? htokens
  rw [tokens, List.getLast?_append_cons, List.getLast?_concat] at hget
  change ((c.current :: c.ahead).map (·.kind)).getLast? = _
  rw [List.getLast?_map, hget, Option.map_some, hlast]

theorem position_lt (c : Cursor) : c.position < c.tokens.length := by
  rw [position, tokens, List.length_append, List.length_reverse,
    List.length_cons]
  omega

theorem tokens_advance (c : Cursor) : c.advance.tokens = c.tokens := by
  unfold advance
  split
  · rfl
  · next t ts hahead => simp [tokens, hahead]

theorem tokens_advanceBy (c : Cursor) (n : Nat) :
    (c.advanceBy n).tokens = c.tokens := by
  induction n generalizing c with
  | zero => rfl
  | succ n ih => rw [advanceBy, ih, tokens_advance]

theorem Leads.tokens_eq (h : c.Leads on c') : c'.tokens = c.tokens := by
  obtain ⟨read, hway, -⟩ := h
  exact hway.tokens_eq

theorem Leads.position_le (h : c.Leads on c') : c.position ≤ c'.position := by
  obtain ⟨read, hway, -⟩ := h
  rw [hway.position_eq]
  exact Nat.le_add_right _ _

/-- At least one token was read between two places in the tokens, and none that
is the end of the statement. -/
def Consumes (c c' : Cursor) : Prop :=
  c'.tokens = c.tokens ∧ c.position < c'.position ∧
    ∀ t ∈ (c.tokens.take c'.position).drop c.position, t.kind ≠ .finish

theorem Leads.consumes (h : c.Leads true c') : c.Consumes c' := by
  obtain ⟨read, hway, hread⟩ := h
  have hposition := hway.position_eq
  have hpos := List.length_pos_of_ne_nil (hread rfl)
  refine ⟨hway.tokens_eq, by omega, ?_⟩
  have hslice : (c.tokens.take c'.position).drop c.position = read := by
    rw [hposition, tokens, hway.ahead, position, ← List.length_reverse,
      List.take_length_add_append, List.take_left, List.drop_left]
  rw [hslice]
  exact fun t ht => Token.Kind.ne_finish_of_isPart (hway.parts t ht)

end Cursor

namespace Parser

theorem runOn_ok_or_error {α : Type} {parser : Nat → Parser α}
    {tokens : List Token} {post : Cursor → α → Cursor → Prop}
    (h : EndsOnce tokens)
    (hparser : ∀ {c : Cursor} {depth : Nat}, Ends c.kinds →
      8 * c.ahead.length + 8 ≤ depth → Ensures False (parser depth) c (post c)) :
    (∃ a, runOn parser tokens = .ok a) ∨
      ∃ e, runOn parser tokens = .error e ∧ e.cause ≠ .tooDeep := by
  cases tokens with
  | nil =>
      obtain ⟨front, last, hnil, -⟩ := h
      simp at hnil
  | cons t ts =>
      have hends : Ends (Cursor.mk [] t ts).kinds := ends_of_endsOnce h
      have hresult : Ensures False (parser (depthBound (t :: ts).length))
          ⟨[], t, ts⟩ (post ⟨[], t, ts⟩) := by
        apply hparser hends
        change 8 * ts.length + 8 ≤ 8 * (ts.length + 1) + 8
        omega
      have hrun : runOn parser (t :: ts) =
          (parser (depthBound (t :: ts).length) ⟨[], t, ts⟩).map (·.1) := rfl
      rw [hrun]
      cases hp : parser (depthBound (t :: ts).length) ⟨[], t, ts⟩ with
      | ok result => exact .inl ⟨_, rfl⟩
      | error e => exact .inr ⟨e, rfl, hresult.of_error hp⟩

/-- What holds of parsers on the given tokens. -/
structure ReadsOn (tokens : List Token) : Prop where
  /-- A statement is read, or there is an error about the tokens. -/
  statement_ends : (∃ s, parseStatement tokens = .ok s) ∨
    ∃ e, parseStatement tokens = .error e ∧ e.cause ≠ .tooDeep
  /-- So it is for an expression. -/
  expression_ends : (∃ e, parseExpression tokens = .ok e) ∨
    ∃ e, parseExpression tokens = .error e ∧ e.cause ≠ .tooDeep
  /-- A cursor is always on one of the tokens, and stays on these tokens. -/
  place : ∀ c : Cursor, c.tokens = tokens → c.position < tokens.length ∧
    c.advance.tokens = tokens ∧ c.skipNewlines.tokens = tokens ∧
    ∀ n, (c.advanceBy n).tokens = tokens
  /-- A production leaves the cursor on the tokens, and no further back. -/
  production : ∀ {α : Type} (p : Production α) (n : Nat) {c c' : Cursor} {a : α},
    c.tokens = tokens → p.parser n c = .ok (a, c') →
      c'.tokens = tokens ∧ c.position ≤ c'.position
  /-- An expression has at least one token. -/
  expression : ∀ (n least : Nat) {c c' : Cursor} {e : Expr},
    c.tokens = tokens → binary n least c = .ok (e, c') → c.Consumes c'
  /-- A statement has at least one token. -/
  statement : ∀ (n : Nat) {c c' : Cursor} {s : Stmt},
    c.tokens = tokens → Parser.statement n c = .ok (s, c') → c.Consumes c'
  /-- A loop is its turns, one after the other. -/
  loop : ∀ {σ : Type} (loop : Loop σ) (n : Nat) (state : σ),
    loop.run (n + 1) state = (do
      match ← loop.turn n state with
      | none => return state
      | some next => loop.run n next)
  /-- Every turn that is not the last has at least one token. -/
  turn : ∀ {σ : Type} (loop : Loop σ) (n : Nat) {state next : σ}
    {c c' : Cursor}, c.tokens = tokens →
      loop.turn n state c = .ok (some next, c') → c.Consumes c'
  /-- The number of turns that the simple loops may take is no bound. -/
  enough : ∀ {σ : Type} (loop : Loop σ) (n : Nat) {state : σ} {c : Cursor},
    loop.isSimple = true → c.tokens = tokens → c.ahead.length ≤ n →
      loop.run n state c = loop.run (n + 1) state c

theorem readsOn_of_endsOnce {tokens : List Token} (h : EndsOnce tokens) :
    ReadsOn tokens := by
  have hends : ∀ {c : Cursor}, c.tokens = tokens → Ends c.kinds := by
    rintro c rfl
    exact ends_of_endsOnce h
  constructor
  · exact runOn_ok_or_error h ensures_completeStatement
  · exact runOn_ok_or_error h ensures_completeExpression
  · rintro c rfl
    have hskip := (Leads.refl (ends_of_endsOnce h)).skipNewlines
    exact ⟨c.position_lt, c.tokens_advance, hskip.tokens_eq, c.tokens_advanceBy⟩
  · rintro α p n c c' a hc hp
    have hleads := (moves n p (hends hc)).of_ok hp
    exact ⟨hleads.tokens_eq.trans hc, hleads.position_le⟩
  · rintro n least c c' e hc hp
    exact ((moves n (.binary least) (hends hc)).of_ok hp).consumes
  · rintro n c c' s hc hp
    exact ((moves n .statement (hends hc)).of_ok hp).consumes
  · exact Loop.run_succ
  · rintro σ loop n state next c c' hc hturn
    have hturns := Moves.ensures_turn (moves n) loop state (hends hc)
    exact (hturns.of_ok hturn).consumes
  · rintro σ loop n state c hsimple hc hn
    exact Loop.run_eq_run_succ hsimple (hends hc) hn

/-- The tokens of a text end in their only end. On such tokens every parser
ends, stays on the tokens, and reads at least one of them for each expression,
for each statement and in each turn of a loop. -/
theorem readsOn :
    (∀ text : List Char, EndsOnce (lex text).tokens) ∧
      ∀ {tokens : List Token}, EndsOnce tokens → ReadsOn tokens :=
  ⟨endsOnce_lex, readsOn_of_endsOnce⟩

theorem readsOn_open_list :
    EndsOnce (lex "For each x in [1, 2,: Print x".toList).tokens ∧
      ReadsOn (lex "For each x in [1, 2,: Print x".toList).tokens :=
  ⟨endsOnce_lex _, readsOn.2 (endsOnce_lex _)⟩

end Parser

end Prose
