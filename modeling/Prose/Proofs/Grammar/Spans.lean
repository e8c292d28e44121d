import Prose.Proofs.Grammar.Flawless
import Prose.Proofs.Grammar.Gathering

/-!
The spans of a tree that was read from a text. Every production gathers the
regions of what it reads: the operands of an expression, the items of a list, a
callee and its arguments, a condition and its bodies, and the lines of a block.
A loop has gathered the regions of its state, and goes on from there. So the
regions of a statement are well nested, and where there is nothing inside them
they are the tokens of the text.
-/

namespace Prose

open Cursor Prose.Parser

namespace Parser

/-! ### Loops -/

namespace Loop

variable {σ : Type}

/-- The regions of what a loop has gathered. Parameters have none. -/
def regions : Loop σ → σ → List Region
  | operators _, left => [.expr left]
  | items, exprs => exprs.map .expr
  | arguments, args => args.flatMap Argument.regions
  | lines, stmts => stmts.map .stmt
  | names, _ => []
  | words, type => [.readType type]

variable {loop : Loop σ} {state : σ} {start c : Cursor} {on : Bool} {n : Nat}

/-- A loop gathers what its turns do. -/
theorem gathers_succ
    (hturn : Ensures True (loop.turn n state) c fun next =>
      start.Gathers on (loop.regions (next.getD state)))
    (hrun : ∀ next d, start.Gathers on (loop.regions next) d →
      Ensures True (loop.run n next) d fun last =>
        start.Gathers on (loop.regions last)) :
    Ensures True (loop.run (n + 1) state) c fun last =>
      start.Gathers on (loop.regions last) := by
  rw [run_succ]
  apply hturn.bind
  intro next d h
  cases next with
  | none => exact .pure h
  | some next => exact hrun next d h

theorem gathers_turn_words {type : ReadType}
    (h : start.Gathers on [.readType type] c) :
    Ensures True (words.turn n type) c fun next =>
      start.Gathers on (words.regions (next.getD type)) := by
  rw [turn]
  apply Ensures.get_bind
  split
  · exact .pure h
  · cases hkind : c.kind with
    | word name =>
        obtain ⟨hpart, hboth⟩ := gathers_typeWord h hkind
        apply h.step.advance_bind hpart
        intro _
        exact .pure (hboth.replace fun hrow => hrow.readType _).weaken
    | _ => exact .pure h

theorem gathers_words (m : Nat) {type : ReadType}
    (h : start.Gathers on [.readType type] c) :
    Ensures True (typeWords m type) c fun last =>
      start.Gathers on [.readType last] := by
  induction m generalizing c type with
  | zero => exact .pure h
  | succ m ih => exact gathers_succ (gathers_turn_words h) fun _ _ h => ih h

end Loop

/-! ### The words of a `Read` statement -/

section Read

variable {start c : Cursor} {on : Bool}

theorem gathers_readType (h : start.Gathers on [] c) :
    Ensures True readType c fun type => start.Gathers true [.readType type] := by
  rw [readType]
  apply Ensures.get_bind
  dsimp only
  split
  · exact gathers_error rfl
  · cases hkind : c.kind with
    | word name =>
        obtain ⟨hpart, hfirst⟩ := gathers_typeWord h hkind
        apply h.step.advance_bind hpart
        intro _
        exact Loop.gathers_words _ hfirst
    | _ => exact gathers_error rfl

/-- A sentence can be given any span, and its parts are gathered. -/
def Spoken (start : Cursor) (rs : List Region) (make : Span → Stmt)
    (c : Cursor) : Prop :=
  ∀ span, (make span).span = span ∧ start.Gathers true (rs ++ (make span).parts) c

/-- The type of a `Read` statement, if it has one. -/
theorem gathers_optionalType {β : Type} {f : Option ReadType → Parser β}
    {last : β → Cursor → Prop} (h : start.Gathers true [] c)
    (hf : ∀ type d, start.Gathers true (type.toList.map .readType) d →
      Ensures True (f type) d last) :
    Ensures True
      (do
        let typed ← do
          if ← eatWord "a" then pure true else eatWord "an"
        let type ← if typed then some <$> readType else pure none
        f type : Parser β) c last := by
  have htyped : ∀ {d}, start.Gathers true [] d →
      Ensures True (some <$> readType >>= f) d last := by
    intro d hd
    rw [map_eq_pure_bind, bind_assoc]
    apply (gathers_readType hd).bind
    intro type d₁ hd₁
    rw [pure_bind]
    exact hf (some type) d₁ hd₁
  apply h.step.eatWord_bind
  · intro h₁
    simp only [if_true, pure_bind]
    exact htyped (h.past h₁)
  · simp only [Bool.false_eq_true, if_false]
    apply h.step.eatWord_bind
    · exact fun h₁ => htyped (h.past h₁)
    · exact hf none c h

theorem gathers_readStatement (h : start.Gathers true [] c) :
    Ensures True readStatement c (Spoken start []) := by
  rw [readStatement]
  apply gathers_optionalType h
  intro type d hd
  apply (gathers_expectWord hd).bind
  intro _ d₁ hd₁
  apply hd₁.step.expectName.bind
  intro _ d₂ hd₂
  exact .pure fun span => ⟨rfl, hd₁.past hd₂⟩

end Read

/-! ### Productions with recursion -/

namespace Production

/-- The regions that a production has to begin with. -/
def before {α : Type} : Production α → List Region
  | callFrom callee => [.expr callee]
  | loop l state => l.regions state
  | _ => []

/-- What a production gives is gathered after the given regions. A sentence has
no span yet, so it is its parts that are. -/
def Gathered (start : Cursor) (on : Bool) (rs : List Region) :
    {α : Type} → Production α → α → Cursor → Prop
  | _, binary _, e => start.Gathers true (rs ++ [.expr e])
  | _, primary, e => start.Gathers true (rs ++ [.expr e])
  | _, resultCall, call => start.Gathers true (rs ++ [.call call])
  | _, callFrom _, call => start.Gathers on (rs ++ [.call call])
  | _, argument, arg => start.Gathers true (rs ++ arg.regions)
  | _, statement, s => start.Gathers true (rs ++ [.stmt s])
  | _, sentence, make => Spoken start rs make
  | _, body, b => start.Gathers true (rs ++ [b.region])
  | _, alternative, b => start.Gathers true (rs ++ [b.region])
  | _, block, b => start.Gathers true (rs ++ [.block b])
  | _, loop l _, state => start.Gathers on (rs ++ l.regions state)

variable {α : Type} {start c d : Cursor} {on : Bool} {rs : List Region}

/-- What is gathered from a place on comes after what was gathered before. -/
theorem gathered_append {p : Production α} {a : α} (hp : p.moves = true)
    (h : start.Gathers on rs c) (ha : p.Gathered c false [] a d) :
    p.Gathered start on rs a d := by
  cases p with
  | callFrom | loop => cases hp
  | sentence => exact fun span => ⟨(ha span).1, h.append (ha span).2⟩
  | _ => exact h.append ha

end Production

/-- At a depth, every production gathers the regions of what it reads. -/
def Gathering (n : Nat) : Prop :=
  ∀ {α : Type} (p : Production α) {start c : Cursor} {on : Bool},
    start.Gathers on p.before c →
      Ensures True (p.parser n) c (p.Gathered start on [])

theorem gathering_zero : Gathering 0 := by
  intro α p start c on h
  cases p with
  | loop l state =>
      cases l with
      | names | words => exact .pure h
      | _ => exact gathers_error rfl
  | _ => exact gathers_error rfl

namespace Gathering

variable {α : Type} {n : Nat} {start c : Cursor} {on : Bool}
  {rs : List Region} (ih : Gathering n)
include ih

/-- What a production reads comes after what was gathered before it. -/
theorem next (p : Production α) (hp : p.moves = true)
    (h : start.Gathers on rs c) :
    Ensures True (p.parser n) c (p.Gathered start on rs) := by
  have hbefore : p.before = [] := by
    cases p with
    | callFrom | loop => cases hp
    | _ => rfl
  have hfirst : c.Gathers false p.before c := by
    rw [hbefore]
    exact h.here
  apply (ih p hfirst).mono _ id
  exact fun _ _ ha => Production.gathered_append hp h ha

theorem gathers_turn {σ : Type} (loop : Loop σ) (state : σ)
    (h : start.Gathers on (loop.regions state) c) :
    Ensures True (loop.turn n state) c fun next =>
      start.Gathers on (loop.regions (next.getD state)) := by
  cases loop with
  | operators least =>
      rw [Loop.turn]
      apply Ensures.get_bind
      cases hop : c.operator? with
      | none => exact .pure h
      | some found =>
          obtain ⟨op, length⟩ := found
          dsimp only
          split
          · exact .pure h
          · apply Ensures.modify_bind
            have h₁ := h.past (h.step.advanceBy_operator hop)
            apply (ih.next (.binary op.rightPrecedence) rfl h₁).bind
            intro right c₂ h₂
            have hboth : start.Gathers true [.expr state, .expr right] c₂ := h₂
            exact .pure (hboth.replace fun hrow => hrow.binary op).weaken
  | items =>
      rw [Loop.turn]
      apply h.step.eat_bind rfl
      · intro h₁
        apply (ih.next (.binary 1) rfl (h.past h₁)).bind
        intro item c₂ h₂
        refine .pure ?_
        rw [Option.getD_some, Loop.regions, List.map_append]
        exact h₂.weaken
      · exact .pure h
  | arguments =>
      rw [Loop.turn]
      apply h.step.eatSeparator_bind
      · intro h₁
        apply (ih.next .argument rfl (h.past h₁)).bind
        intro arg c₂ h₂
        refine .pure ?_
        rw [Option.getD_some, Loop.regions, List.flatMap_append,
          List.flatMap_singleton]
        exact h₂.weaken
      · exact .pure h
  | lines =>
      rw [Loop.turn]
      apply h.step.skipNewlines_bind
      intro h₁
      apply Ensures.get_bind
      split
      · exact .pure (h.along h₁)
      · split
        · exact gathers_error rfl
        · apply (ih.next .statement rfl (h.along h₁)).bind
          intro stmt c₂ h₂
          refine .pure ?_
          rw [Option.getD_some, Loop.regions, List.map_append]
          exact h₂.weaken
  | names =>
      apply (Loop.ensures_turn_names h.leads.ends).mono _ id
      exact fun _ _ hc => h.along hc.weaken
  | words => exact Loop.gathers_turn_words h

theorem loop_succ {σ : Type} (loop : Loop σ) (state : σ)
    (h : start.Gathers on (loop.regions state) c) :
    Ensures True (loop.run (n + 1) state) c fun last =>
      start.Gathers on (loop.regions last) := by
  apply Loop.gathers_succ (ih.gathers_turn loop state h)
  intro next d hnext
  exact ih (.loop loop next) hnext

/-- A block after the words that announce it. -/
theorem block_after (h : start.Gathers on rs c) :
    Ensures True
      (do
        skipNewlines
        Parser.block n : Parser Block) c
      fun b => start.Gathers true (rs ++ [.block b]) := by
  apply h.step.skipNewlines_bind
  intro h₁
  exact ih.next .block rfl (h.along h₁)

theorem primary_succ (h : c.Gathers false [] c) :
    Ensures True (Parser.primary (n + 1)) c fun e => c.Gathers true [.expr e] := by
  rw [Parser.primary]
  apply Ensures.get_bind
  dsimp only
  cases hkind : c.kind with
  | integer | real | text => exact gathers_literal h hkind rfl rfl rfl rfl
  | keyword k =>
      cases k with
      | yes | no => exact gathers_literal h hkind rfl rfl rfl rfl
      | _ => exact gathers_error rfl
  | symbol s =>
      cases s with
      | minus => exact gathers_negativeLiteral h hkind
      | openBracket =>
          apply h.step.advance_bind (by rw [hkind]; rfl)
          intro h₁
          apply Ensures.get_bind
          split
          · apply (gathers_expect (h.past h₁) rfl).bind
            rintro _ c₂ ⟨h₂, rfl⟩
            exact .pure (h₂.close rfl rfl rfl)
          · -- The loop over the items starts after the bracket.
            have hopen := (h.past h₁).here
            apply (ih.next (.binary 1) rfl hopen).bind
            intro first c₂ h₂
            apply (ih (.loop .items [first]) h₂).bind
            intro items c₃ h₃
            apply (gathers_expect ((h.past h₁).append h₃) rfl).bind
            rintro _ c₄ ⟨h₄, rfl⟩
            exact .pure (h₄.close rfl rfl rfl)
      | openParen =>
          apply h.step.advance_bind (by rw [hkind]; rfl)
          intro h₁
          apply (ih.next (.binary 1) rfl (h.past h₁)).bind
          intro inner c₂ h₂
          apply (gathers_expect h₂ rfl).bind
          rintro _ c₃ ⟨h₃, rfl⟩
          exact .pure (h₃.close rfl rfl rfl)
      | _ => exact gathers_error rfl
  | word name =>
      have hcall : ∀ {c₁}, c.Leads true c₁ →
          Ensures True
            (do
              let call ← Parser.resultCall n
              return .result call (c.span.merge call.span) : Parser Expr) c₁
            fun e => c.Gathers true [.expr e] := by
        intro c₁ h₁
        apply (ih.next .resultCall rfl (h.past h₁)).bind
        intro call c₂ h₂
        have hgathered : c.Gathers true [.call call] c₂ := h₂
        exact .pure (hgathered.wrap rfl rfl rfl)
      apply h.step.eatWords_bind (by simp)
      · intro c₁ h₁
        apply (ensures_parameters h₁).bind
        intro params c₂ h₂
        apply (gathers_expect (h.past h₂) rfl).bind
        rintro _ c₃ ⟨h₃, -⟩
        rw [← bind_assoc]
        apply (ih.block_after h₃).bind
        intro body c₄ h₄
        have hgathered : c.Gathers true [.block body] c₄ := h₄
        exact .pure (hgathered.wrap rfl rfl rfl)
      · apply h.step.eatWords_bind (by simp)
        · exact fun c₁ h₁ => hcall h₁
        · apply h.step.eatWords_bind (by simp)
          · exact fun c₁ h₁ => hcall h₁
          · exact gathers_literal h hkind rfl rfl rfl rfl
  | _ => exact gathers_error rfl

theorem assignment {word : String} (h : start.Gathers on [] c) :
    Ensures True
      (do
        let target ← targetOf (← Parser.binary n Operator.atPosition.precedence)
        let _ ← Parser.expectWord word
        return .assign target (← Parser.binary n 1) : Parser (Span → Stmt)) c
      (Spoken start []) := by
  apply (ih.next (.binary Operator.atPosition.precedence) rfl h).bind
  intro left c₁ h₁
  apply (gathers_targetOf h₁).bind
  intro target c₂ h₂
  apply (gathers_expectWord h₂).bind
  intro _ c₃ h₃
  apply (ih.next (.binary 1) rfl h₃).bind
  intro value c₄ h₄
  exact .pure fun span => ⟨rfl, h₄⟩

/-- A statement that ends in an expression. -/
theorem unary {make : Expr → Span → Stmt} (h : start.Gathers on rs c)
    (hspan : ∀ e span, (make e span).span = span)
    (hparts : ∀ e span, (make e span).parts = rs ++ [.expr e]) :
    Ensures True
      (do return make (← Parser.binary n 1) : Parser (Span → Stmt)) c
      (Spoken start []) := by
  apply (ih.next (.binary 1) rfl h).bind
  intro value c₁ h₁
  refine .pure fun span => ⟨hspan value span, ?_⟩
  rw [hparts]
  exact h₁

/-- What may follow the body of a branch: where no `otherwise` stands, the
cursor goes back to the end of the body. -/
theorem otherwise {condition : Expr} {first : Body}
    (h : start.Gathers true [.expr condition, first.region] c) :
    Ensures True
      (do
        let saved ← get
        skipNewlines
        let _ ← eat (.symbol .comma)
        if ← eat (.keyword .otherwise) then
          return .branch condition first (some (← Parser.alternative n))
        else
          set saved
          return .branch condition first none : Parser (Span → Stmt)) c
      (Spoken start []) := by
  have hclause : ∀ {c₁},
      start.Gathers true [.expr condition, first.region] c₁ →
      Ensures True
        (do
          if ← eat (.keyword .otherwise) then
            return .branch condition first (some (← Parser.alternative n))
          else
            set c
            return .branch condition first none : Parser (Span → Stmt)) c₁
        (Spoken start []) := by
    intro c₁ h₁
    apply h₁.step.eat_bind rfl
    · intro h₂
      apply (ih.next .alternative rfl (h₁.past h₂)).bind
      intro body c₃ h₃
      exact .pure fun span => ⟨rfl, h₃⟩
    · exact .set_bind (.pure fun span => ⟨rfl, h⟩)
  apply Ensures.get_bind
  apply h.step.skipNewlines_bind
  intro h₁
  have hskipped := h.along h₁
  apply hskipped.step.eat_bind rfl
  · exact fun h₂ => hclause (hskipped.past h₂)
  · exact hclause hskipped

theorem sentence_succ (h : c.Gathers false [] c) :
    Ensures True (Parser.sentence (n + 1)) c (Spoken c []) := by
  rw [Parser.sentence]
  apply Ensures.get_bind
  cases hkind : c.kind with
  | keyword k =>
      have hpart : c.kind.isPart = true := by
        rw [hkind]
        rfl
      have hword : c.Gathers true [] c.advance := h.past (h.step.advance hpart)
      cases k with
      | set =>
          apply h.step.advance_bind hpart
          exact fun _ => ih.assignment hword
      | print =>
          apply h.step.advance_bind hpart
          exact fun _ => ih.unary hword (fun _ _ => rfl) fun _ _ => rfl
      | read =>
          apply h.step.advance_bind hpart
          exact fun _ => gathers_readStatement hword
      | add =>
          apply h.step.advance_bind hpart
          intro _
          apply (ih.next (.binary 1) rfl hword).bind
          intro value c₂ h₂
          apply (gathers_expectWord h₂).bind
          intro _ c₃ h₃
          exact ih.unary h₃ (fun _ _ => rfl) fun _ _ => rfl
      | remove =>
          apply h.step.advance_bind hpart
          intro _
          apply (ih.next (.binary Operator.atPosition.precedence) rfl hword).bind
          intro e c₂ h₂
          split
          · -- The list and the index are the parts of the expression that was read.
            next list index span =>
              have hparts : c.Gathers true [.expr list, .expr index] c₂ :=
                h₂.replace fun hrow => hrow.parts
              exact .pure fun span => ⟨rfl, hparts⟩
          · exact gathers_error rfl
      | loop =>
          apply h.step.advance_bind hpart
          intro _
          apply (ih.next (.binary 1) rfl hword).bind
          intro condition c₂ h₂
          apply (ih.next .body rfl h₂).bind
          intro body c₃ h₃
          exact .pure fun span => ⟨rfl, h₃⟩
      | branch =>
          apply h.step.advance_bind hpart
          intro _
          apply (ih.next (.binary 1) rfl hword).bind
          intro condition c₂ h₂
          apply (ih.next .body rfl h₂).bind
          intro first c₃ h₃
          exact ih.otherwise h₃
      | each =>
          apply h.step.advance_bind hpart
          intro _
          apply (gathers_expectWord hword).bind
          intro _ c₂ h₂
          apply h₂.step.expectName.bind
          intro item c₃ h₃
          apply (gathers_expectWord (h₂.past h₃)).bind
          intro _ c₄ h₄
          apply (ih.next (.binary 1) rfl h₄).bind
          intro list c₅ h₅
          apply (ih.next .body rfl h₅).bind
          intro body c₆ h₆
          exact .pure fun span => ⟨rfl, h₆⟩
      | increment | decrement =>
          apply h.step.advance_bind hpart
          intro _
          apply hword.step.expectName.bind
          intro name c₂ h₂
          exact .pure fun span => ⟨rfl, hword.past h₂⟩
      | exit =>
          apply h.step.advance_bind hpart
          exact fun _ => .pure fun span => ⟨rfl, hword⟩
      | run =>
          apply h.step.advance_bind hpart
          intro h₁
          apply (ih.next (.binary 1) rfl hword.here).bind
          intro callee c₂ h₂
          apply (ih (.callFrom callee) h₂).bind
          intro call c₃ h₃
          exact .pure fun span => ⟨rfl, hword.append h₃⟩
      | otherwise | yes | no => exact gathers_error rfl
  | word name =>
      apply h.step.eatWords_bind (by simp)
      · exact fun c₁ h₁ => ih.unary (h.past h₁) (fun _ _ => rfl) fun _ _ => rfl
      · apply h.step.eatWords_bind (by simp)
        · exact fun c₁ h₁ => ih.unary (h.past h₁) (fun _ _ => rfl) fun _ _ => rfl
        · exact ih.assignment h
  | _ => exact gathers_error rfl

theorem callFrom_succ {callee : Expr} (h : start.Gathers on [.expr callee] c) :
    Ensures True (Parser.callFrom (n + 1) callee) c fun call =>
      start.Gathers on [.call call] := by
  rw [Parser.callFrom]
  apply h.step.eatWord_bind
  · intro h₁
    have hwith := h.past h₁
    apply (ih.next .argument rfl hwith.here).bind
    intro first c₂ h₂
    have hfirst : c.advance.Gathers true
        ((Production.loop .arguments [first]).before) c₂ := by
      rw [Production.before, Loop.regions, List.flatMap_singleton]
      exact h₂
    apply (ih (.loop .arguments [first]) hfirst).bind
    intro args c₃ h₃
    have hall : start.Gathers true
        (.expr callee :: args.flatMap Argument.regions) c₃ := hwith.append h₃
    exact .pure (hall.replace fun hrow => hrow.call).weaken
  · exact .pure (h.replace fun hrow => hrow.call)

theorem argument_succ (h : c.Gathers false [] c) :
    Ensures True (Parser.argument (n + 1)) c fun arg =>
      c.Gathers true arg.regions := by
  rw [Parser.argument]
  apply (gathers_argumentName h).bind
  intro name c₁ h₁
  apply (gathers_expectWord h₁).bind
  intro _ c₂ h₂
  apply (ih.next (.binary 1) rfl h₂).bind
  intro value c₃ h₃
  exact .pure h₃

theorem body_succ (h : c.Gathers false [] c) :
    Ensures True (Parser.body (n + 1)) c fun b => c.Gathers true [b.region] := by
  rw [Parser.body]
  apply h.step.eat_bind rfl
  · intro h₁
    rw [if_pos rfl, ← bind_assoc]
    apply (ih.block_after (h.past h₁)).bind
    intro block c₂ h₂
    exact .pure h₂
  · apply h.step.eat_bind rfl
    · intro h₁
      apply (ih.next .statement rfl (h.past h₁)).bind
      intro stmt c₂ h₂
      exact .pure h₂
    · exact gathers_error rfl

theorem alternative_succ (h : c.Gathers false [] c) :
    Ensures True (Parser.alternative (n + 1)) c fun b =>
      c.Gathers true [b.region] := by
  have hsentence : ∀ {on c₁}, c.Gathers on [] c₁ →
      Ensures True (do return .sentence (← Parser.statement n) : Parser Body) c₁
        fun b => c.Gathers true [b.region] := by
    intro on c₁ h₁
    apply (ih.next .statement rfl h₁).bind
    intro stmt c₂ h₂
    exact .pure h₂
  rw [Parser.alternative]
  apply Ensures.get_bind
  split
  · exact ih.next .body rfl h
  · apply h.step.eat_bind rfl
    · exact fun h₁ => hsentence (h.past h₁)
    · exact hsentence h

theorem block_succ (h : c.Gathers false [] c) :
    Ensures True (Parser.block (n + 1)) c fun b => c.Gathers true [.block b] := by
  rw [Parser.block]
  apply Ensures.get_bind
  apply h.step.eat_bind rfl
  · intro h₁
    have hindent := h.past h₁
    -- There may be no lines, and then the loop does not move on.
    apply (ih (.loop .lines []) hindent.here).bind
    intro stmts c₂ h₂
    apply (gathers_expect h₂ rfl).bind
    rintro _ c₃ ⟨h₃, rfl⟩
    exact .pure ((hindent.append h₃).close rfl rfl rfl)
  · exact gathers_error rfl

theorem statement_succ (h : c.Gathers false [] c) :
    Ensures True (Parser.statement (n + 1)) c fun s => c.Gathers true [.stmt s] := by
  rw [Parser.statement]
  apply Ensures.get_bind
  apply (ih.next .sentence rfl h).bind
  intro make c₁ h₁
  apply Ensures.get_bind
  -- The span ends with the last token of the sentence, before its terminator.
  obtain ⟨hspan, hparts⟩ := h₁ (c.span.merge c₁.previousSpan)
  have hclosed : c.Gathers true [.stmt (make (c.span.merge c₁.previousSpan))] c₁ :=
    hparts.close rfl rfl hspan
  apply hclosed.step.eatTerminator.bind
  intro _ c₂ h₂
  exact .pure (hclosed.along h₂)

theorem resultCall_succ (h : c.Gathers false [] c) :
    Ensures True (Parser.resultCall (n + 1)) c fun call =>
      c.Gathers true [.call call] := by
  rw [Parser.resultCall]
  apply (ih.next (.binary Operator.atPosition.precedence) rfl h).bind
  intro callee c₁ h₁
  exact ih (.callFrom callee) h₁

theorem binary_succ (least : Nat) (h : c.Gathers false [] c) :
    Ensures True (Parser.binary (n + 1) least) c fun e =>
      c.Gathers true [.expr e] := by
  rw [Parser.binary]
  apply (ih.next .primary rfl h).bind
  intro left c₁ h₁
  exact ih (.loop (.operators least) left) h₁

end Gathering

/-- Every production gathers the regions of what it reads, whatever the depth. -/
theorem gathering (n : Nat) : Gathering n := by
  induction n with
  | zero => exact gathering_zero
  | succ n ih =>
      intro α p start c on h
      -- A production that begins without regions is followed from its own place.
      have hfrom : p.moves = true → start.Gathers on [] c →
          Ensures True (p.parser (n + 1)) c (p.Gathered c false []) →
          Ensures True (p.parser (n + 1)) c (p.Gathered start on []) :=
        fun hp hc hgathers => hgathers.mono
          (fun _ _ ha => Production.gathered_append hp hc ha) id
      cases p with
      | binary least => exact hfrom rfl h (ih.binary_succ least h.here)
      | primary => exact hfrom rfl h (ih.primary_succ h.here)
      | resultCall => exact hfrom rfl h (ih.resultCall_succ h.here)
      | callFrom callee => exact ih.callFrom_succ h
      | argument => exact hfrom rfl h (ih.argument_succ h.here)
      | statement => exact hfrom rfl h (ih.statement_succ h.here)
      | sentence => exact hfrom rfl h (ih.sentence_succ h.here)
      | body => exact hfrom rfl h (ih.body_succ h.here)
      | alternative => exact hfrom rfl h (ih.alternative_succ h.here)
      | block => exact hfrom rfl h (ih.block_succ h.here)
      | loop loop state => exact ih.loop_succ loop state h

theorem nested_completeStatement {c : Cursor} (h : c.Gathers false [] c)
    (depth : Nat) :
    Ensures True (completeStatement depth) c fun s _ =>
      (Region.stmt s).Nested c.tokens := by
  rw [completeStatement]
  apply h.step.skipNewlines_bind
  intro h₁
  apply (Gathering.next (gathering depth) .statement rfl (h.along h₁)).bind
  intro s c₂ h₂
  have hstatement : c.Gathers true [.stmt s] c₂ := h₂
  apply ((ensures_finish hstatement.leads).mono (fun _ _ h => h)
    fun _ => trivial).bind
  intro _ c₃ _
  have hrow := hstatement.row
  rw [hstatement.leads.tokens_eq] at hrow
  exact .pure hrow.of_singleton.2.1

theorem nested_of_parseStatement {tokens : List Token} {s : Stmt}
    (ho : InOrder tokens) (honce : EndsOnce tokens)
    (h : parseStatement tokens = .ok s) : (Region.stmt s).Nested tokens := by
  obtain ⟨c, c', -, rfl, -, hresult⟩ := runOn_eq_ok h
  have hfirst : c.Gathers false [] c := .refl ho (ends_of_endsOnce honce)
  exact (nested_completeStatement hfirst _).of_ok hresult

end Parser

/-! ### The tree of a text -/

/-- The text of a literal is one token, or a minus sign and a number. -/
def Writes (chars : List Char) (kind : Token.Kind) : Prop :=
  Spells chars kind ∨ ∃ gaps digits number,
    chars = '-' :: (gaps ++ digits) ∧ gaps.all Lexer.isGap = true ∧
      Spells digits number ∧ number.negated? = some kind

/-- Where a region of a text lies, and what lies inside it. -/
structure Region.SitsIn (text : List Char) (r : Region) : Prop where
  nonempty : r.span.start < r.span.stop
  bounded : r.span.stop ≤ Text.byteLength text
  /-- Both ends stand between two characters. -/
  characters : ∃ chars, Text.slice? r.span.start r.span.stop text = some chars
  children : ∀ child ∈ r.children,
    r.span.start ≤ child.span.start ∧ child.span.stop ≤ r.span.stop
  /-- The regions inside are disjoint and in the order of the text. -/
  siblings : r.children.Pairwise fun a b => a.span.stop ≤ b.span.start
  /-- A name or a literal has the span of the tokens it was read from. -/
  reads : r.Reads (lex text).tokens
  /-- The text under a name or a literal is just these tokens. -/
  literal : ∀ kind, r.literal? = some kind →
    ∃ chars, Text.slice? r.span.start r.span.stop text = some chars ∧
      Writes chars kind

theorem Region.isPart_of_literal? {r : Region} {kind : Token.Kind}
    (h : r.literal? = some kind) : kind.isPart = true := by
  unfold literal? at h
  split at h <;> cases h <;> rfl

theorem Token.Kind.isPart_of_negated? {kind number : Token.Kind}
    (h : number.negated? = some kind) : number.isPart = true := by
  unfold negated? at h
  split at h <;> first | rfl | cases h

theorem Region.Reads.writes {text : List Char} {r : Region}
    (h : r.Reads (lex text).tokens) {kind : Token.Kind}
    (hkind : r.literal? = some kind) :
    ∃ chars, Text.slice? r.span.start r.span.stop text = some chars ∧
      Writes chars kind := by
  rcases h kind hkind with hmem | ⟨minus, number, hpair, hminus, hnumber, hspan⟩
  · have hpart := isPart_of_literal? hkind
    obtain ⟨before, chars, after, htext, hspells, hspan⟩ :=
      spells_of_mem_lex hmem (Token.Kind.ne_finish_of_isPart hpart)
        (Token.Kind.ne_unreadable_of_isPart hpart)
    refine ⟨chars, ?_, Or.inl hspells⟩
    rw [show r.span = _ from hspan, htext, Text.slice?_append]
  · have hpart : minus.kind.isPart = true ∧ number.kind.isPart = true := by
      rw [hminus]
      exact ⟨rfl, Token.Kind.isPart_of_negated? hnumber⟩
    obtain ⟨before, sign, gaps, digits, after, htext, hgaps, hsign, hdigits, hstart,
        hstop⟩ :=
      spells_of_pair_lex hpair
        (hpart.imp Token.Kind.ne_finish_of_isPart Token.Kind.ne_finish_of_isPart)
        (hpart.imp Token.Kind.ne_unreadable_of_isPart
          Token.Kind.ne_unreadable_of_isPart)
    rw [hminus] at hsign
    obtain rfl := eq_of_spells_minus hsign
    refine ⟨_, ?_, Or.inr ⟨gaps, digits, number.kind, rfl, hgaps, hdigits, hnumber⟩⟩
    rw [hspan, hstart, hstop, htext, Text.slice?_append]
    simp

/-- A region that is nested on the tokens of a text sits in the text. -/
theorem Region.Nested.sitsIn {text : List Char} {r : Region}
    (h : r.Nested (lex text).tokens) : r.SitsIn text := by
  have hnonempty := h.covers.nonempty
  obtain ⟨first, hfirst, hstart⟩ := h.covers.first
  obtain ⟨last, hlast, hstop⟩ := h.covers.last
  have hbegin : Text.Boundary text r.span.start :=
    hstart ▸ (boundary_of_mem_lex hfirst).1
  have hend : Text.Boundary text r.span.stop :=
    hstop ▸ (boundary_of_mem_lex hlast).2
  exact
    { nonempty := hnonempty
      bounded := hend.le
      characters := hbegin.slice? hend hnonempty.le
      children := fun child hchild =>
        have hinside := h.row.of_mem hchild
        ⟨hinside.1, hinside.2.2⟩
      siblings := h.row.pairwise
      reads := h.reads
      literal := fun kind hkind => h.reads.writes hkind }

/-- The spans of a tree that was read from a text are well nested: each has
characters of the text, those inside it do not leave it, and they follow each
other in the order of the text. A name or a literal has exactly its token. The
text must be short enough for its tokens to have spans that are not cut off. -/
theorem parseText_wellNested {text : List Char}
    (hsize : Text.byteLength text ≤ Span.limit) {s : Stmt}
    (h : parseText text = .ok s) :
    (∀ t ∈ (lex text).tokens, Span.ofRange t.span.start t.span.stop = t.span) ∧
    ∀ r, (Region.stmt s).Holds r → r.SitsIn text := by
  have hparse : parseStatement (lex text).tokens = .ok s := by
    rw [parseText] at h
    split at h
    · cases h
    · exact h
  have hnested := nested_of_parseStatement (inOrder_lex text) (endsOnce_lex text)
    hparse
  refine ⟨fun t ht => ofRange_of_mem_lex hsize ht, fun r hr => ?_⟩
  exact (hnested.of_holds hr).sitsIn

/-- A negative number in a list, which is an argument of a call in the block of
a branch. -/
theorem parseText_wellNested_branch :
    let text := ("If x equals \"ä\":\n" ++
      "`Run f with a as [1, - 2] and b as true.\n~").toList
    Text.byteLength text ≤ Span.limit ∧
    ∃ s number, parseText text = .ok s ∧ (Region.stmt s).Holds number ∧
      number.span = ⟨39, 42⟩ ∧ number.literal?.isSome = true ∧
      Text.slice? 39 42 text = some "- 2".toList ∧ number.SitsIn text := by
  intro text
  let find (s : Stmt) : Option Region :=
    [1, 0, 0, 2, 1].foldlM (fun r i => r.children[i]?) (Region.stmt s)
  have hfound : ((parseText text).toOption.bind find).map
      (fun r => (r.span, r.literal?.isSome)) = some (⟨39, 42⟩, true) := by
    decide +kernel
  have hslice : Text.slice? 39 42 text = some "- 2".toList := by
    decide +kernel
  have hsize : Text.byteLength text ≤ Span.limit := by
    decide +kernel
  obtain ⟨number, hnumber, hplace⟩ := Option.map_eq_some_iff.1 hfound
  obtain ⟨hspan, hliteral⟩ := Prod.mk.inj hplace
  obtain ⟨s, hs, hpath⟩ := Option.bind_eq_some_iff.1 hnumber
  have hholds : (Region.stmt s).Holds number := Region.holds_of_path hpath
  cases hparse : parseText text with
  | error e =>
      rw [hparse] at hs
      cases hs
  | ok found =>
      rw [hparse] at hs
      cases hs
      exact ⟨hsize, _, number, rfl, hholds, hspan, hliteral, hslice,
        (parseText_wellNested hsize hparse).2 number hholds⟩

end Prose
