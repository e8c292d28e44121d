import Prose.Proofs.Grammar.Steps

/-!
The loops of the grammar, cut into turns. A loop takes one turn after the other,
and a turn that is followed by another has read a token. The loops over names and
over the words of a type call nothing else, so as many turns as there are tokens
ahead are enough for them.
-/

namespace Prose

open Cursor Prose.Parser

namespace Parser

/-- The loops of the grammar, with what they gather. -/
inductive Loop : Type → Type where
  /-- Operators, binding at least as tightly as given, and operands. -/
  | operators (least : Nat) : Loop Expr
  /-- The items of a list. -/
  | items : Loop (List Expr)
  /-- The arguments of a call. -/
  | arguments : Loop (List Argument)
  /-- The lines of a block. -/
  | lines : Loop (List Stmt)
  /-- The parameters of a function. -/
  | names : Loop (List Name)
  /-- The words of a type. -/
  | words : Loop ReadType

namespace Loop

variable {σ : Type}

/-- The loop, with what is gathered so far. -/
def run (n : Nat) : Loop σ → σ → Parser σ
  | operators least, left => Parser.operators n least left
  | items, exprs => moreItems n exprs
  | arguments, args => moreArguments n args
  | lines, stmts => blockLines n stmts
  | names, params => moreNames n params
  | words, type => typeWords n type

/-- One turn of the loop: what is gathered then, unless the loop is over. -/
def turn (n : Nat) : Loop σ → σ → Parser (Option σ)
  | operators least, left => do
    match (← get).operator? with
    | none => return none
    | some (op, length) =>
      if op.precedence < least then return none
      else
        modify (·.advanceBy length)
        let right ← binary n op.rightPrecedence
        return some (.binary op left right (left.span.merge right.span))
  | items, exprs => do
    if ← eat (.symbol .comma) then
      let item ← binary n 1
      return some (exprs ++ [item])
    else return none
  | arguments, args => do
    if ← eatSeparator then
      let arg ← argument n
      return some (args ++ [arg])
    else return none
  | lines, stmts => do
    skipNewlines
    let c ← get
    if c.isAt .dedent then return none
    else if c.atEnd then unexpected "end of block"
    else
      let stmt ← statement n
      return some (stmts ++ [stmt])
  | names, params => do
    if ← eatSeparator then
      let (name, _) ← expectName
      return some (params ++ [name])
    else return none
  | words, type => do
    let c ← get
    if c.isAtWord "into" then return none
    match c.kind with
    | .word name =>
      let token ← advance
      return some ⟨type.text ++ " " ++ name.text, type.span.merge token.span⟩
    | _ => return none

/-- Whether a turn of the loop calls no production that calls others. -/
def isSimple : Loop σ → Bool
  | names | words => true
  | _ => false

/-- A loop takes one turn after the other. -/
theorem run_succ (loop : Loop σ) (n : Nat) (state : σ) :
    loop.run (n + 1) state = (do
      match ← loop.turn n state with
      | none => return state
      | some next => loop.run n next) := by
  cases loop with
  | operators least =>
      rw [run, Parser.operators, turn, bind_assoc]
      congr 1
      funext c
      cases c.operator? with
      | none => rfl
      | some found =>
          obtain ⟨op, length⟩ := found
          dsimp only
          split
          · rfl
          · simp only [bind_assoc, pure_bind, run]
  | items =>
      rw [run, moreItems, turn, bind_assoc]
      congr 1
      funext eaten
      cases eaten <;> simp [run]
  | arguments =>
      rw [run, moreArguments, turn, bind_assoc]
      congr 1
      funext eaten
      cases eaten <;> simp [run]
  | lines =>
      rw [run, blockLines, turn, bind_assoc]
      congr 1
      funext _
      rw [bind_assoc]
      congr 1
      funext c
      split
      · rfl
      · split
        · rfl
        · simp only [bind_assoc, pure_bind, run]
  | names =>
      rw [run, moreNames, turn, bind_assoc]
      congr 1
      funext eaten
      cases eaten <;> simp [run]
  | words =>
      rw [run, typeWords, turn, bind_assoc]
      congr 1
      funext c
      split
      · rfl
      · cases c.kind <;> simp [run]

variable {deep : Prop} {c : Cursor} {n : Nat} {loop : Loop σ} {state : σ}

/-- A loop gets no further than its turns do. -/
theorem ensures_succ
    (hturn : Ensures deep (loop.turn n state) c fun next => c.Leads next.isSome)
    (hrun : ∀ next c', c.Leads true c' →
      Ensures deep (loop.run n next) c' fun _ => c.Leads true) :
    Ensures deep (loop.run (n + 1) state) c fun _ => c.Leads false := by
  rw [run_succ]
  apply hturn.bind
  intro next c₁ h₁
  cases next with
  | none => exact .pure h₁
  | some next =>
      apply (hrun next c₁ h₁).mono _ id
      exact fun _ _ h₂ => h₂.weaken

theorem ensures_turn_names {params : List Name} (hends : Ends c.kinds) :
    Ensures deep (names.turn n params) c fun next => c.Leads next.isSome := by
  rw [turn]
  have h := Leads.refl hends
  apply h.eatSeparator_bind
  · intro h₁
    apply h₁.expectName.bind
    intro name c₂ h₂
    exact .pure h₂
  · exact .pure h

theorem ensures_turn_words {type : ReadType} (hends : Ends c.kinds) :
    Ensures deep (words.turn n type) c fun next => c.Leads next.isSome := by
  rw [turn]
  have h := Leads.refl hends
  apply Ensures.get_bind
  split
  · exact .pure h
  · cases hkind : c.kind with
    | word name =>
        apply h.advance_bind (by rw [hkind]; rfl)
        intro h₁
        exact .pure h₁
    | _ => exact .pure h

theorem ensures_names (m : Nat) {params : List Name} (hends : Ends c.kinds) :
    Ensures deep (moreNames m params) c fun _ => c.Leads false := by
  induction m generalizing c params with
  | zero => exact .pure (.refl hends)
  | succ m ih =>
      apply ensures_succ (ensures_turn_names hends)
      intro next c₁ h₁
      apply (ih h₁.ends).mono _ id
      exact fun _ _ h₂ => h₁.trans h₂

theorem ensures_words (m : Nat) {type : ReadType} (hends : Ends c.kinds) :
    Ensures deep (typeWords m type) c fun _ => c.Leads false := by
  induction m generalizing c type with
  | zero => exact .pure (.refl hends)
  | succ m ih =>
      apply ensures_succ (ensures_turn_words hends)
      intro next c₁ h₁
      apply (ih h₁.ends).mono _ id
      exact fun _ _ h₂ => h₁.trans h₂

theorem turn_of_finish (hsimple : loop.isSimple = true)
    (hkind : c.kind = .finish) : loop.turn n state c = .ok (none, c) := by
  cases loop with
  | names =>
      have hcomma : c.isAt (.symbol .comma) = false := by
        rw [isAt, hkind]
        rfl
      have hand : c.isAtWord "and" = false := by
        change c.kind.isWord "and" = false
        rw [hkind]
        rfl
      rw [turn]
      change (eatSeparator c).bind _ = _
      rw [eatSeparator]
      change ((eat _ c).bind _).bind _ = _
      rw [eat, hcomma]
      change (eatWord _ c).bind _ = _
      rw [eatWord, hand]
      rfl
  | words =>
      have hinto : c.isAtWord "into" = false := by
        change c.kind.isWord "into" = false
        rw [hkind]
        rfl
      rw [turn]
      change (if c.isAtWord "into" = true then _ else _ : Parser _) c = _
      rw [hinto, hkind]
      rfl
  | _ => cases hsimple

/-- With as many turns as there are tokens ahead, a simple loop ends by itself:
one more makes no difference. -/
theorem run_eq_run_succ (hsimple : loop.isSimple = true) (hends : Ends c.kinds)
    (hn : c.ahead.length ≤ n) : loop.run n state c = loop.run (n + 1) state c := by
  induction n generalizing c state with
  | zero =>
      have hkind : c.kind = .finish := by
        rw [Ends, kinds, List.length_eq_zero_iff.1 (Nat.le_zero.1 hn)] at hends
        exact Option.some.inj hends
      rw [run_succ]
      change _ = (loop.turn 0 state c).bind _
      rw [turn_of_finish hsimple hkind]
      cases loop with
      | names | words => rfl
      | _ => cases hsimple
  | succ n ih =>
      have hsame : loop.turn (n + 1) state = loop.turn n state := by
        cases loop with
        | names | words => rfl
        | _ => cases hsimple
      have hturn : Ensures False (loop.turn n state) c
          fun next => c.Leads next.isSome := by
        cases loop with
        | names => exact ensures_turn_names hends
        | words => exact ensures_turn_words hends
        | _ => cases hsimple
      rw [run_succ, run_succ loop (n + 1), hsame]
      change (loop.turn n state c).bind _ = (loop.turn n state c).bind _
      cases hresult : loop.turn n state c with
      | error e => rfl
      | ok result =>
          obtain ⟨next, c₁⟩ := result
          have h₁ := hturn.of_ok hresult
          cases next with
          | none => rfl
          | some next =>
              have hlength := h₁.length_ahead_lt
              exact ih h₁.ends (by omega)

end Loop

/-! ### Productions without recursion -/

section Simple

variable {deep : Prop} {start c : Cursor} {on : Bool}

theorem ensures_targetOf (h : start.Leads on c) (e : Expr) :
    Ensures deep (targetOf e) c fun _ => start.Leads on := by
  cases e with
  | name => exact .pure h
  | binary op =>
      cases op with
      | atPosition => exact .pure h
      | _ => exact .error rfl nofun
  | _ => exact .error rfl nofun

theorem ensures_negativeLiteral (h : start.Leads on c)
    (hkind : c.kind = .symbol .minus) :
    Ensures deep negativeLiteral c fun _ => start.Leads true := by
  rw [negativeLiteral]
  apply h.advance_bind (by rw [hkind]; rfl)
  intro h₁
  apply Ensures.get_bind
  cases hnumber : c.advance.kind with
  | integer | real =>
      apply h₁.advance_bind (by rw [hnumber]; rfl)
      intro h₂
      exact .pure h₂
  | _ => exact .error rfl nofun

theorem ensures_parameters (h : start.Leads true c) :
    Ensures deep parameters c fun _ => start.Leads true := by
  rw [parameters]
  apply h.eatWord_bind
  · intro h₁
    apply h₁.expectName.bind
    intro name c₂ h₂
    apply Ensures.get_bind
    apply (Loop.ensures_names _ h₂.ends).mono _ id
    exact fun _ _ h₃ => h₂.trans h₃
  · exact .pure h

theorem ensures_readType (h : start.Leads true c) :
    Ensures deep readType c fun _ => start.Leads true := by
  rw [readType]
  apply Ensures.get_bind
  dsimp only
  split
  · exact .error rfl nofun
  · cases hkind : c.kind with
    | word name =>
        apply h.advance_bind (by rw [hkind]; rfl)
        intro h₁
        apply (Loop.ensures_words _ h₁.ends).mono _ id
        exact fun _ _ h₂ => h₁.trans h₂
    | _ => exact .unexpected

theorem ensures_readStatement (h : start.Leads true c) :
    Ensures deep readStatement c fun _ => start.Leads true := by
  have htarget : ∀ {c₁} (type : Option ReadType), start.Leads true c₁ →
      Ensures deep (do
        let _ ← Parser.expectWord "into"
        let (target, _) ← Parser.expectName
        return .read type target : Parser (Span → Stmt)) c₁
        fun _ => start.Leads true := by
    intro c₁ type h₁
    apply h₁.expectWord.bind
    intro _ c₂ h₂
    apply h₂.expectName.bind
    intro _ c₃ h₃
    exact .pure h₃
  have htyped : ∀ {c₁}, start.Leads true c₁ →
      Ensures deep (some <$> readType) c₁ fun _ => start.Leads true := by
    intro c₁ h₁
    rw [map_eq_pure_bind]
    apply (ensures_readType h₁).bind
    intro type c₂ h₂
    exact .pure h₂
  rw [readStatement]
  apply h.eatWord_bind
  · intro h₁
    simp only [if_true, pure_bind]
    apply (htyped h₁).bind
    intro type c₂ h₂
    exact htarget type h₂
  · simp only [Bool.false_eq_true, if_false]
    apply h.eatWord_bind
    · intro h₁
      simp only [if_true]
      apply (htyped h₁).bind
      intro type c₂ h₂
      exact htarget type h₂
    · exact htarget none h

end Simple

end Parser

end Prose
