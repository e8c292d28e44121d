import Prose.Proofs.Grammar.Outcomes

/-!
The productions on tokens that are alike. Every production that succeeds on the
first tokens succeeds on the others, with a tree that is alike; and on tokens
that are alike to the end it also fails alike. The second parser may go deeper
than the first.
-/

namespace Prose

open Cursor Prose.Parser

/-- Both have the same image. -/
def Same {α β : Type} (f : α → β) (a b : α) : Prop := f a = f b

/-! ### What an expression can be assigned to -/

/-- The target that an expression stands for, if it stands for one. -/
def Expr.target? : Expr → Option Target
  | .name n _ => some (.name n)
  | .binary .atPosition l i _ => some (.position l i)
  | _ => none

theorem Expr.target?_relabel (ρ : Relabelling) (e : Expr) :
    (e.relabel ρ).target? = e.target?.map (·.relabel ρ) := by
  cases e with
  | binary op left right span => cases op <;> simp [Expr.target?]
  | _ => simp [Expr.target?]

theorem Expr.target?_alike {ρ : Relabelling} {e e' : Expr}
    (h : e.relabel ρ = e'.relabel ρ) :
    (e.target? = none ∧ e'.target? = none) ∨
      ∃ t t', e.target? = some t ∧ e'.target? = some t' ∧
        t.relabel ρ = t'.relabel ρ := by
  have hmap := congrArg Expr.target? h
  rw [Expr.target?_relabel, Expr.target?_relabel] at hmap
  cases ht : e.target? with
  | none =>
      cases ht' : e'.target? with
      | none => exact .inl ⟨rfl, rfl⟩
      | some t' =>
          rw [ht, ht'] at hmap
          cases hmap
  | some t =>
      cases ht' : e'.target? with
      | none =>
          rw [ht, ht'] at hmap
          cases hmap
      | some t' =>
          rw [ht, ht'] at hmap
          exact .inr ⟨t, t', rfl, rfl, Option.some.inj hmap⟩

theorem Expr.eq_of_target?_eq_position {e l i : Expr}
    (h : e.target? = some (.position l i)) :
    ∃ span, e = .binary .atPosition l i span := by
  cases e with
  | binary op left right span =>
      cases op <;> cases h
      exact ⟨span, rfl⟩
  | _ => cases h

/-- Expressions that are alike are both positions of lists, or neither is. -/
theorem Expr.position_cases {ρ : Relabelling} {e e' : Expr}
    (h : e.relabel ρ = e'.relabel ρ) :
    (∃ l i s l' i' s', e = .binary .atPosition l i s ∧
        e' = .binary .atPosition l' i' s' ∧
        l.relabel ρ = l'.relabel ρ ∧ i.relabel ρ = i'.relabel ρ) ∨
      (∀ l i s, e ≠ .binary .atPosition l i s) ∧
        ∀ l i s, e' ≠ .binary .atPosition l i s := by
  rcases Expr.target?_alike h with ⟨hnone, hnone'⟩ | ⟨t, t', hsome, hsome', ht⟩
  · refine .inr ⟨?_, ?_⟩
    · rintro l i s rfl
      cases hnone
    · rintro l i s rfl
      cases hnone'
  · cases t with
    | name n =>
        cases t' with
        | name n' =>
            refine .inr ⟨?_, ?_⟩
            · rintro l i s rfl
              cases hsome
            · rintro l i s rfl
              cases hsome'
        | position l' i' =>
            rw [Target.relabel, Target.relabel] at ht
            cases ht
    | position l i =>
        cases t' with
        | name n' =>
            rw [Target.relabel, Target.relabel] at ht
            cases ht
        | position l' i' =>
            rw [Target.relabel, Target.relabel, Target.position.injEq] at ht
            obtain ⟨s, rfl⟩ := Expr.eq_of_target?_eq_position hsome
            obtain ⟨s', rfl⟩ := Expr.eq_of_target?_eq_position hsome'
            exact .inl ⟨l, i, s, l', i', s', rfl, rfl, ht⟩

theorem Parser.targetOf_eq (e : Expr) :
    targetOf e = match e.target? with
      | some target => pure target
      | none => throw ⟨.notAssignable, e.span⟩ := by
  cases e with
  | binary op left right span => cases op <;> rfl
  | _ => rfl

namespace Comparison

variable {α β : Type} {κ : Comparison} {c d : Cursor}
  {V : α → α → Prop} {W : β → β → Prop} {inside after : Bool}

theorem Near.targetOf (h : κ.Near inside c d) {e e' : Expr}
    (he : Same (Expr.relabel κ.ρ) e e') :
    κ.Outcome (Same (Target.relabel κ.ρ)) inside (Parser.targetOf e c)
      (Parser.targetOf e' d) := by
  rw [Parser.targetOf_eq, Parser.targetOf_eq]
  rcases Expr.target?_alike he with ⟨hnone, hnone'⟩ | ⟨t, t', hsome, hsome', ht⟩
  · rw [hnone, hnone']
    exact .error ⟨.same _, Expr.span_of_alike he⟩
  · rw [hsome, hsome']
    exact .pure ht h

/-! ### Productions without recursion -/

theorem Within.negativeLiteral (h : κ.Within inside c d)
    (hkind : c.kind = .symbol .minus) :
    κ.Outcome (Same (Expr.relabel κ.ρ)) false (Parser.negativeLiteral c)
      (Parser.negativeLiteral d) := by
  have hminus := h.span
  rw [Parser.negativeLiteral]
  apply h.advance_bind (by rw [hkind]; nofun) (by rw [hkind]; nofun)
  intro hnext
  apply get_bind
  rcases hnext.cases with hwithin | hbeyond
  · have hspan := κ.ρ.span_merge hminus hwithin.span
    rcases hwithin.kind_cases with ⟨k, hc, hd, hk⟩ | ⟨m, n, hc, hd, hname⟩
    · cases k with
      | integer value =>
          rw [hc, hd]
          apply hwithin.advance_bind (by rw [hc]; nofun) (by rw [hc]; nofun)
          intro hafter
          refine .pure ?_ hafter.weaken
          rw [Same, Expr.relabel, Expr.relabel]
          exact congrArg _ hspan
      | real value =>
          rw [hc, hd]
          apply hwithin.advance_bind (by rw [hc]; nofun) (by rw [hc]; nofun)
          intro hafter
          refine .pure ?_ hafter.weaken
          rw [Same, Expr.relabel, Expr.relabel]
          exact congrArg _ hspan
      | word n => exact absurd rfl (hk n)
      | _ =>
          rw [hc, hd]
          exact .error ⟨.same _, hwithin.span⟩
    · rw [hc, hd]
      exact .error ⟨.notNegatable (.word hname), hwithin.span⟩
  · rcases hbeyond.kind_left with hleft | hleft
    · rw [hleft]
      exact .lost hbeyond.here_ne_nil
    · rw [hleft]
      exact .lost hbeyond.here_ne_nil

theorem length_advance (hends : Ends c.kinds) (hkind : c.kind ≠ .finish) :
    c.advance.ahead.length + 1 = c.ahead.length := by
  have hahead := current_advance (ahead_ne_nil hends hkind)
  rw [← hahead, List.length_cons]

/-- There are enough steps for all the words ahead. -/
theorem Near.typeWords {type type' : ReadType}
    (h : κ.Near true c d) (htype : Same (ReadType.relabel κ.ρ) type type')
    {n m : Nat} (hn : c.ahead.length < n) (hm : d.ahead.length < m) :
    κ.Outcome (Same (ReadType.relabel κ.ρ)) true (Parser.typeWords n type c)
      (Parser.typeWords m type' d) := by
  induction n generalizing c d m type type' with
  | zero => omega
  | succ n ih =>
      obtain ⟨m, rfl⟩ : ∃ k, m = k + 1 := ⟨m - 1, by omega⟩
      rw [Parser.typeWords, Parser.typeWords]
      apply get_bind
      rw [← h.isAtWord (.inl rfl)]
      split
      · exact .pure htype h
      · rcases h.cases with hwithin | hbeyond
        · rcases hwithin.kind_cases with
            ⟨k, hc, hd, hk⟩ | ⟨name, name', hc, hd, hname⟩
          · cases k with
            | word n => exact absurd rfl (hk n)
            | _ =>
                rw [hc, hd]
                exact .pure htype h
          · obtain ⟨s, S, t, T, haligned⟩ := hwithin.aligned
            have hlength := length_advance haligned.endsLeft
              (by rw [hc]; nofun)
            have hlength' := length_advance haligned.endsRight
              (by rw [hd]; nofun)
            rw [hc, hd]
            apply hwithin.advance_bind (by rw [hc]; nofun) (by rw [hc]; nofun)
            intro hnext
            apply ih hnext _ (by omega) (by omega)
            obtain ⟨hwords, hspan⟩ := ReadType.mk.inj htype
            simp only [Same, ReadType.relabel, ReadType.mk.injEq]
            exact ⟨κ.ρ.words_append hwords hname,
              κ.ρ.span_merge hspan hwithin.span⟩
        · have hright : ∀ name, d.kind ≠ .word name :=
            hbeyond.kind_right_ne_word
          have hreturn := Outcome.pure htype h
          cases hd : d.kind with
          | word name => exact absurd hd (hright name)
          | _ => rcases hbeyond.kind_left with hc | hc <;> rw [hc] <;> exact hreturn

theorem Near.readType (h : κ.Near true c d) :
    κ.Outcome (Same (ReadType.relabel κ.ρ)) true (Parser.readType c)
      (Parser.readType d) := by
  rw [Parser.readType]
  apply get_bind
  dsimp only
  rw [← h.isAtWord (.inl rfl)]
  split
  · exact h.unexpected_bind _
  · rcases h.cases with hwithin | hbeyond
    · rcases hwithin.kind_cases with
        ⟨k, hc, hd, hk⟩ | ⟨name, name', hc, hd, hname⟩
      · cases k with
        | word n => exact absurd rfl (hk n)
        | _ =>
            rw [hc, hd]
            exact h.unexpected _
      · obtain ⟨s, S, t, T, haligned⟩ := hwithin.aligned
        have hlength := length_advance haligned.endsLeft (by rw [hc]; nofun)
        have hlength' := length_advance haligned.endsRight (by rw [hd]; nofun)
        rw [hc, hd]
        apply hwithin.advance_bind (by rw [hc]; nofun) (by rw [hc]; nofun)
        intro hnext
        apply hnext.typeWords _ (by omega) (by omega)
        simp only [Same, ReadType.relabel, ReadType.mk.injEq]
        exact ⟨κ.ρ.words_text hname, hwithin.span⟩
    · rcases hbeyond.kind_left with hleft | hleft
      · rw [hleft]
        exact .lost hbeyond.here_ne_nil
      · rw [hleft]
        exact .lost hbeyond.here_ne_nil

/-- Statements that still lack their spans are alike. -/
def AlikeMakers (κ : Comparison) (make make' : Span → Stmt) : Prop :=
  ∀ s s', κ.ρ.span s = κ.ρ.span s' →
    (make s).relabel κ.ρ = (make' s').relabel κ.ρ

/-- What follows the type of a `Read` statement. -/
theorem Near.readTarget (h : κ.Near inside c d) {type type' : Option ReadType}
    (htype : Same (Option.map (ReadType.relabel κ.ρ)) type type') :
    κ.Outcome κ.AlikeMakers false
      ((do
        let _ ← Parser.expectWord "into"
        let (target, _) ← Parser.expectName
        return .read type target : Parser (Span → Stmt)) c)
      ((do
        let _ ← Parser.expectWord "into"
        let (target, _) ← Parser.expectName
        return .read type' target : Parser (Span → Stmt)) d) := by
  apply (h.expectWord "into").bind
  intro _ _ c₁ d₁ _ h₁
  apply h₁.expectName.bind
  intro target target' c₂ d₂ htarget h₂
  refine .pure ?_ h₂.weaken
  intro s s' hs
  rw [Stmt.relabel, Stmt.relabel, htarget.1, hs, show _ = _ from htype]

theorem Near.readStatement (h : κ.Near true c d) :
    κ.Outcome κ.AlikeMakers false (Parser.readStatement c)
      (Parser.readStatement d) := by
  have htyped : ∀ {c d}, κ.Near true c d →
      κ.Outcome (Same (Option.map (ReadType.relabel κ.ρ))) true
        ((some <$> Parser.readType) c) ((some <$> Parser.readType) d) := by
    intro c d h
    apply h.readType.map
    intro type type' htype
    exact congrArg some htype
  rw [Parser.readStatement]
  apply h.eatWord_bind (.inl rfl)
  · intro h₁
    simp only [if_true, pure_bind]
    apply (htyped h₁).bind
    intro type type' c₂ d₂ htype h₂
    exact h₂.readTarget htype
  · simp only [Bool.false_eq_true, if_false]
    apply h.eatWord_bind (.inl rfl)
    · intro h₁
      simp only [if_true]
      apply (htyped h₁).bind
      intro type type' c₂ d₂ htype h₂
      exact h₂.readTarget htype
    · exact h.readTarget rfl

theorem eatSeparator_of_finish (h : c.kind = .finish) :
    eatSeparator c = .ok (false, c) := by
  have hcomma : c.isAt (.symbol .comma) = false := by
    rw [Cursor.isAt, h]
    rfl
  have hand : c.isAtWord "and" = false := by
    change c.kind.isWord "and" = false
    rw [h]
    rfl
  rw [eatSeparator]
  change (eat _ c).bind _ = _
  rw [eat, hcomma]
  change eatWord _ c = _
  rw [eatWord, hand]
  rfl

/-- At the end of the tokens one step more makes no difference. -/
theorem moreNames_zero (h : c.kind = .finish) (names : List Name) :
    Parser.moreNames 0 names c = Parser.moreNames 1 names c := by
  rw [Parser.moreNames, Parser.moreNames]
  change _ = (eatSeparator c).bind _
  rw [eatSeparator_of_finish h]
  rfl

theorem kind_of_length (hends : Ends c.kinds) (h : c.ahead.length ≤ 0) :
    c.kind = .finish := by
  rw [Ends, Cursor.kinds, List.length_eq_zero_iff.1 (Nat.le_zero.1 h)] at hends
  exact Option.some.inj hends

theorem Near.moreNames_succ {names names' : List Name} (h : κ.Near inside c d)
    (hnames : Same (List.map κ.ρ.name) names names') {n m : Nat}
    (hmore : ∀ more more', Same (List.map κ.ρ.name) more more' →
      c.kind ≠ .finish → d.kind ≠ .finish →
      κ.Near true c.advance.advance d.advance.advance →
      κ.Outcome (Same (List.map κ.ρ.name)) false
        (Parser.moreNames n more c.advance.advance)
        (Parser.moreNames m more' d.advance.advance)) :
    κ.Outcome (Same (List.map κ.ρ.name)) false
      (Parser.moreNames (n + 1) names c) (Parser.moreNames (m + 1) names' d) := by
  rw [Parser.moreNames, Parser.moreNames]
  apply h.eatSeparator_bind
  · intro hc hd h₁
    apply h₁.expectName_bind
    intro name name' hname h₂
    refine hmore _ _ ?_ hc hd h₂
    rw [Same, List.map_append, List.map_append, show _ = _ from hnames,
      List.map_singleton, List.map_singleton, hname.1]
  · exact .pure hnames h.weaken

theorem length_advance_le (c : Cursor) :
    c.advance.ahead.length ≤ c.ahead.length := by
  unfold Cursor.advance
  split
  · exact Nat.le_refl _
  · next hahead =>
      rw [hahead]
      exact Nat.le_succ _

/-- There are enough steps for all the names ahead. -/
theorem Near.moreNames {names names' : List Name} (h : κ.Near inside c d)
    (hnames : Same (List.map κ.ρ.name) names names') {n m : Nat}
    (hn : c.ahead.length ≤ n) (hm : d.ahead.length ≤ m) :
    κ.Outcome (Same (List.map κ.ρ.name)) false (Parser.moreNames n names c)
      (Parser.moreNames m names' d) := by
  obtain ⟨S, T, haligned⟩ := h.aligned
  have hc := haligned.endsLeft
  have hd := haligned.endsRight
  induction n generalizing c d m names names' inside S T with
  | zero =>
      have hfinish := kind_of_length hc hn
      rw [moreNames_zero hfinish]
      cases m with
      | zero =>
          rw [moreNames_zero (kind_of_length hd hm)]
          apply h.moreNames_succ hnames
          exact fun _ _ _ hne => absurd hfinish hne
      | succ m =>
          apply h.moreNames_succ hnames
          exact fun _ _ _ hne => absurd hfinish hne
  | succ n ih =>
      cases m with
      | zero =>
          have hfinish := kind_of_length hd hm
          rw [moreNames_zero hfinish]
          apply h.moreNames_succ hnames
          exact fun _ _ _ _ hne => absurd hfinish hne
      | succ m =>
          apply h.moreNames_succ hnames
          intro more more' hmore hne hne' hnext
          obtain ⟨S', T', haligned'⟩ := hnext.aligned
          have hlength := length_advance hc hne
          have hlength' := length_advance hd hne'
          have hle := length_advance_le c.advance
          have hle' := length_advance_le d.advance
          exact ih hnext hmore (by omega) (by omega) _ _ haligned'
            haligned'.endsLeft haligned'.endsRight

theorem Near.parameters (h : κ.Near true c d) :
    κ.Outcome (Same (List.map κ.ρ.name)) false (Parser.parameters c)
      (Parser.parameters d) := by
  rw [Parser.parameters]
  apply h.eatWord_bind (.inl rfl)
  · intro h₁
    apply h₁.expectName.bind
    intro name name' c₂ d₂ hname h₂
    apply get_bind
    apply h₂.moreNames _ (Nat.le_refl _) (Nat.le_refl _)
    rw [Same, List.map_singleton, List.map_singleton, hname.1]
  · exact .pure rfl h.weaken

/-! ### Productions with recursion -/

/-- The parsers agree wherever the next tokens are in common. -/
def Agree (κ : Comparison) (V : α → α → Prop) (p q : Parser α) : Prop :=
  ∀ {c d : Cursor}, κ.Near false c d → κ.Outcome V false (p c) (q d)

/-- All productions agree at two depths. -/
structure Agrees (κ : Comparison) (n m : Nat) : Prop where
  binary : ∀ least, κ.Agree (Same (Expr.relabel κ.ρ))
    (Parser.binary n least) (Parser.binary m least)
  operators : ∀ least {left left'}, Same (Expr.relabel κ.ρ) left left' →
    κ.Agree (Same (Expr.relabel κ.ρ)) (Parser.operators n least left)
      (Parser.operators m least left')
  primary : κ.Agree (Same (Expr.relabel κ.ρ)) (Parser.primary n)
    (Parser.primary m)
  moreItems : ∀ {items items'},
    Same (List.map (Expr.relabel κ.ρ)) items items' →
    κ.Agree (Same (List.map (Expr.relabel κ.ρ))) (Parser.moreItems n items)
      (Parser.moreItems m items')
  resultCall : κ.Agree (Same (Call.relabel κ.ρ)) (Parser.resultCall n)
    (Parser.resultCall m)
  callFrom : ∀ {callee callee'}, Same (Expr.relabel κ.ρ) callee callee' →
    κ.Agree (Same (Call.relabel κ.ρ)) (Parser.callFrom n callee)
      (Parser.callFrom m callee')
  argument : κ.Agree (Same (Argument.relabel κ.ρ)) (Parser.argument n)
    (Parser.argument m)
  moreArguments : ∀ {args args'},
    Same (List.map (Argument.relabel κ.ρ)) args args' →
    κ.Agree (Same (List.map (Argument.relabel κ.ρ)))
      (Parser.moreArguments n args) (Parser.moreArguments m args')
  statement : κ.Agree (Same (Stmt.relabel κ.ρ)) (Parser.statement n)
    (Parser.statement m)
  sentence : κ.Agree κ.AlikeMakers (Parser.sentence n) (Parser.sentence m)
  body : κ.Agree (Same (Body.relabel κ.ρ)) (Parser.body n) (Parser.body m)
  alternative : κ.Agree (Same (Body.relabel κ.ρ)) (Parser.alternative n)
    (Parser.alternative m)
  block : κ.Agree (Same (Block.relabel κ.ρ)) (Parser.block n) (Parser.block m)
  blockLines : ∀ {stmts stmts'},
    Same (List.map (Stmt.relabel κ.ρ)) stmts stmts' →
    κ.Agree (Same (List.map (Stmt.relabel κ.ρ))) (Parser.blockLines n stmts)
      (Parser.blockLines m stmts')

/-- The second parser may go at least as deep as the first, and no deeper if
the tokens are alike to the end. -/
def Deep (κ : Comparison) (n m : Nat) : Prop :=
  n ≤ m ∧ (κ.here = [] → n = m)

theorem alike_binary {op : Operator} {left left' right right' : Expr}
    (hleft : Same (Expr.relabel κ.ρ) left left')
    (hright : Same (Expr.relabel κ.ρ) right right') :
    Same (Expr.relabel κ.ρ)
      (.binary op left right (left.span.merge right.span))
      (.binary op left' right' (left'.span.merge right'.span)) := by
  rw [Same, Expr.relabel, Expr.relabel, show _ = _ from hleft,
    show _ = _ from hright,
    κ.ρ.span_merge (Expr.span_of_alike hleft) (Expr.span_of_alike hright)]

/-- One more item at the end of lists that are alike. -/
theorem same_concat {f : α → β} {items items' : List α} {item item' : α}
    (hitems : Same (List.map f) items items') (hitem : Same f item item') :
    Same (List.map f) (items ++ [item]) (items' ++ [item']) := by
  rw [Same, List.map_append, List.map_append, show _ = _ from hitems,
    List.map_singleton, List.map_singleton, show _ = _ from hitem]

/-- The span of a call covers its callee and its arguments. -/
theorem alike_callSpan {args args' : List Argument}
    (hargs : Same (List.map (Argument.relabel κ.ρ)) args args')
    {span span' : Span} (hspan : κ.ρ.span span = κ.ρ.span span') :
    κ.ρ.span (args.foldl (fun s a => s.merge a.value.span) span) =
      κ.ρ.span (args'.foldl (fun s a => s.merge a.value.span) span') := by
  induction args generalizing args' span span' with
  | nil =>
      cases args' with
      | nil => exact hspan
      | cons arg' args' => cases hargs
  | cons arg args ih =>
      cases args' with
      | nil => cases hargs
      | cons arg' args' =>
          obtain ⟨harg, hrest⟩ := List.cons.inj hargs
          have hvalue := congrArg Argument.value harg
          rw [Argument.value_relabel, Argument.value_relabel] at hvalue
          apply ih hrest
          exact κ.ρ.span_merge hspan (Expr.span_of_alike hvalue)

/-- No statement begins where one ends. -/
theorem sentence_fails (n : Nat) (h : c.kind = .newline ∨ c.kind = .finish) :
    ∃ e, Parser.sentence n c = .error e := by
  cases n with
  | zero => exact ⟨_, by rw [Parser.sentence]; rfl⟩
  | succ n =>
      refine ⟨c.unexpected "statement", ?_⟩
      rw [Parser.sentence, get_bind_apply]
      rcases h with h | h <;> rw [h] <;> rfl

theorem block_fails (n : Nat) (h : c.kind = .finish) :
    ∃ e, Parser.block n c = .error e := by
  cases n with
  | zero => exact ⟨_, by rw [Parser.block]; rfl⟩
  | succ n =>
      refine ⟨⟨.noBlock c.kind, c.span⟩, ?_⟩
      rw [Parser.block]
      change (eat .indent c).bind _ = _
      rw [eat, Cursor.isAt, h]
      rfl

theorem eat_of_not {kind : Token.Kind} (h : c.isAt kind = false) :
    eat kind c = .ok (false, c) := by
  rw [eat, h]
  rfl

/-- Where no `otherwise` stands, the branch ends. -/
theorem no_otherwise {x y : Parser β}
    (hcomma : c.isAt (.symbol .comma) = false)
    (hotherwise : c.isAt (.keyword .otherwise) = false) :
    (do
      let _ ← eat (.symbol .comma)
      if ← eat (.keyword .otherwise) then x else y : Parser β) c = y c := by
  change (eat _ c).bind _ = _
  rw [eat_of_not hcomma]
  change (eat _ c).bind _ = _
  rw [eat_of_not hotherwise]
  rfl

/-- Behind the tokens in common there is no `otherwise` either, even after
newlines. -/
theorem Beyond.no_otherwise {x y x' y' : Parser β} (h : κ.Beyond inside c d)
    (hnext : ∀ c' d', κ.Outcome W after (y c') (y' d')) :
    κ.Outcome W after
      ((do
        Parser.skipNewlines
        let _ ← eat (.symbol .comma)
        if ← eat (.keyword .otherwise) then x else y : Parser β) c)
      ((do
        Parser.skipNewlines
        let _ ← eat (.symbol .comma)
        if ← eat (.keyword .otherwise) then x' else y' : Parser β) d) := by
  have hc : ∀ kind, Settled kind → c.skipNewlines.isAt kind = false := by
    intro kind hkind
    exact hkind _ (.inr (.inl h.kind_skipNewlines_left))
  have hd : ∀ kind, Settled kind → d.skipNewlines.isAt kind = false := by
    intro kind hkind
    exact hkind _ (.inr (.inr h.kind_skipNewlines_right))
  have hleft := Comparison.no_otherwise (x := x) (y := y)
    (hc _ (settled_symbol .comma)) (hc _ settled_otherwise)
  have hright := Comparison.no_otherwise (x := x') (y := y')
    (hd _ (settled_symbol .comma)) (hd _ settled_otherwise)
  have houtcome := hnext c.skipNewlines d.skipNewlines
  rw [← hleft, ← hright] at houtcome
  exact houtcome

/-- A statement that is a name after a word. -/
theorem Near.nameStatement (make : Name → Span → Stmt)
    (hmake : ∀ {m n}, κ.ρ.name m = κ.ρ.name n →
      κ.AlikeMakers (make m) (make n)) (h : κ.Near inside c d) :
    κ.Outcome κ.AlikeMakers false
      ((do return make (← Parser.expectName).1 : Parser (Span → Stmt)) c)
      ((do return make (← Parser.expectName).1 : Parser (Span → Stmt)) d) := by
  apply h.expectName.bind
  intro name name' c₁ d₁ hname h₁
  exact .pure (hmake hname.1) h₁.weaken

theorem Within.leaf {make make' : Span → Expr} (h : κ.Within inside c d)
    (hfinish : c.kind ≠ .finish) (hdedent : c.kind ≠ .dedent)
    (hmake : Same (Expr.relabel κ.ρ) (make c.span) (make' d.span)) :
    κ.Outcome (Same (Expr.relabel κ.ρ)) false
      ((do
        let _ ← Parser.advance
        return make c.span : Parser Expr) c)
      ((do
        let _ ← Parser.advance
        return make' d.span : Parser Expr) d) := by
  apply h.advance_bind hfinish hdedent
  intro h₁
  exact .pure hmake h₁.weaken

section Productions

variable {n m : Nat} (ih : κ.Agrees n m)
include ih

theorem Agrees.binary_succ (least : Nat) :
    κ.Agree (Same (Expr.relabel κ.ρ)) (Parser.binary (n + 1) least)
      (Parser.binary (m + 1) least) := by
  intro c d h
  rw [Parser.binary, Parser.binary]
  apply (ih.primary h).bind
  intro left left' c₁ d₁ hleft h₁
  exact ih.operators least hleft h₁

theorem Agrees.operators_succ (least : Nat) {left left' : Expr}
    (hleft : Same (Expr.relabel κ.ρ) left left') :
    κ.Agree (Same (Expr.relabel κ.ρ)) (Parser.operators (n + 1) least left)
      (Parser.operators (m + 1) least left') := by
  intro c d h
  rw [Parser.operators, Parser.operators]
  apply get_bind
  rw [← h.operator?]
  cases hop : c.operator? with
  | none => exact .pure hleft h
  | some found =>
      obtain ⟨op, length⟩ := found
      dsimp only
      split
      · exact .pure hleft h
      · apply modify_bind
        apply (ih.binary _ (h.advanceBy_operator hop).weaken).bind
        intro right right' c₁ d₁ hright h₁
        exact ih.operators least (alike_binary hleft hright) h₁

theorem Agrees.moreItems_succ {items items' : List Expr}
    (hitems : Same (List.map (Expr.relabel κ.ρ)) items items') :
    κ.Agree (Same (List.map (Expr.relabel κ.ρ)))
      (Parser.moreItems (n + 1) items) (Parser.moreItems (m + 1) items') := by
  intro c d h
  rw [Parser.moreItems, Parser.moreItems]
  apply h.eat_bind (settled_symbol .comma)
  · intro _ h₁
    apply (ih.binary 1 h₁.weaken).bind
    intro item item' c₂ d₂ hitem h₂
    exact ih.moreItems (same_concat hitems hitem) h₂
  · exact .pure hitems h

theorem Agrees.resultCall_succ :
    κ.Agree (Same (Call.relabel κ.ρ)) (Parser.resultCall (n + 1))
      (Parser.resultCall (m + 1)) := by
  intro c d h
  rw [Parser.resultCall, Parser.resultCall]
  apply (ih.binary _ h).bind
  intro callee callee' c₁ d₁ hcallee h₁
  exact ih.callFrom hcallee h₁

theorem Agrees.callFrom_succ {callee callee' : Expr}
    (hcallee : Same (Expr.relabel κ.ρ) callee callee') :
    κ.Agree (Same (Call.relabel κ.ρ)) (Parser.callFrom (n + 1) callee)
      (Parser.callFrom (m + 1) callee') := by
  intro c d h
  have hspan := Expr.span_of_alike hcallee
  rw [Parser.callFrom, Parser.callFrom]
  apply h.eatWord_bind (.inr (by decide))
  · intro h₁
    apply (ih.argument h₁.weaken).bind
    intro first first' c₂ d₂ hfirst h₂
    have hfirsts : Same (List.map (Argument.relabel κ.ρ)) [first] [first'] :=
      congrArg ([·]) hfirst
    apply (ih.moreArguments hfirsts h₂).bind
    intro args args' c₃ d₃ hargs h₃
    refine .pure ?_ h₃
    rw [Same, Call.relabel, Call.relabel, show _ = _ from hcallee,
      relabelArguments_eq_map, relabelArguments_eq_map, show _ = _ from hargs,
      alike_callSpan hargs hspan]
  · refine .pure ?_ h
    rw [Same, Call.relabel, Call.relabel, show _ = _ from hcallee, hspan]

theorem Agrees.argument_succ :
    κ.Agree (Same (Argument.relabel κ.ρ)) (Parser.argument (n + 1))
      (Parser.argument (m + 1)) := by
  intro c d h
  rw [Parser.argument, Parser.argument]
  apply h.expectName.bind
  intro name name' c₁ d₁ hname h₁
  apply (h₁.expectWord "as").bind
  intro _ _ c₂ d₂ _ h₂
  apply (ih.binary 1 h₂.weaken).bind
  intro value value' c₃ d₃ hvalue h₃
  refine .pure ?_ h₃
  rw [Same, Argument.relabel, Argument.relabel, hname.1, hname.2,
    show _ = _ from hvalue]

theorem Agrees.moreArguments_succ {args args' : List Argument}
    (hargs : Same (List.map (Argument.relabel κ.ρ)) args args') :
    κ.Agree (Same (List.map (Argument.relabel κ.ρ)))
      (Parser.moreArguments (n + 1) args)
      (Parser.moreArguments (m + 1) args') := by
  intro c d h
  rw [Parser.moreArguments, Parser.moreArguments]
  apply h.eatSeparator_bind
  · intro _ _ h₁
    apply (ih.argument h₁.weaken).bind
    intro arg arg' c₂ d₂ harg h₂
    exact ih.moreArguments (same_concat hargs harg) h₂
  · exact .pure hargs h

theorem Agrees.statement_succ :
    κ.Agree (Same (Stmt.relabel κ.ρ)) (Parser.statement (n + 1))
      (Parser.statement (m + 1)) := by
  intro c d h
  rw [Parser.statement, Parser.statement]
  apply get_bind
  rcases h.cases with hwithin | hbeyond
  · apply (ih.sentence h).bind
    intro make make' c₁ d₁ hmake h₁
    apply get_bind
    obtain ⟨S, T, haligned⟩ := h₁.aligned
    apply h₁.eatTerminator.bind
    intro _ _ c₂ d₂ _ h₂
    refine .pure ?_ h₂
    exact hmake _ _ (κ.ρ.span_merge hwithin.span haligned.previous)
  · obtain ⟨e, he⟩ := sentence_fails n hbeyond.kind_left
    change κ.Outcome _ _ ((Parser.sentence n c).bind _) _
    rw [he]
    exact .lost hbeyond.here_ne_nil

theorem Agrees.body_succ :
    κ.Agree (Same (Body.relabel κ.ρ)) (Parser.body (n + 1))
      (Parser.body (m + 1)) := by
  intro c d h
  rw [Parser.body, Parser.body]
  apply h.eat_bind (settled_symbol .colon)
  · intro _ h₁
    apply h₁.skipNewlines_bind
    · intro c₂ d₂ h₂
      apply (ih.block h₂.near).bind
      intro block block' c₃ d₃ hblock h₃
      refine .pure ?_ h₃
      rw [Same, Body.relabel, Body.relabel, show _ = _ from hblock]
    · intro c₂ hfinish
      obtain ⟨e, he⟩ := block_fails n hfinish
      refine ⟨e, ?_⟩
      change (Parser.block n c₂).bind _ = _
      rw [he]
      rfl
  · apply h.eat_bind (settled_symbol .comma)
    · intro _ h₁
      apply (ih.statement h₁.weaken).bind
      intro stmt stmt' c₂ d₂ hstmt h₂
      refine .pure ?_ h₂
      rw [Same, Body.relabel, Body.relabel, show _ = _ from hstmt]
    · exact h.unexpected _

theorem Agrees.alternative_succ :
    κ.Agree (Same (Body.relabel κ.ρ)) (Parser.alternative (n + 1))
      (Parser.alternative (m + 1)) := by
  intro c d h
  have hsentence : ∀ {c d}, κ.Near false c d →
      κ.Outcome (Same (Body.relabel κ.ρ)) false
        ((do return .sentence (← Parser.statement n) : Parser Body) c)
        ((do return .sentence (← Parser.statement m) : Parser Body) d) := by
    intro c d h
    apply (ih.statement h).bind
    intro stmt stmt' c₁ d₁ hstmt h₁
    refine .pure ?_ h₁
    rw [Same, Body.relabel, Body.relabel, show _ = _ from hstmt]
  rw [Parser.alternative, Parser.alternative]
  apply get_bind
  rw [← h.isAt (settled_symbol .colon)]
  split
  · exact ih.body h
  · apply h.eat_bind (settled_symbol .comma)
    · intro _ h₁
      exact hsentence h₁.weaken
    · exact hsentence h

theorem Agrees.block_succ :
    κ.Agree (Same (Block.relabel κ.ρ)) (Parser.block (n + 1))
      (Parser.block (m + 1)) := by
  intro c d h
  rw [Parser.block, Parser.block]
  apply get_bind
  apply h.eat_bind settled_indent
  · intro hwithin h₁
    apply (ih.blockLines rfl h₁.weaken).bind
    intro stmts stmts' c₂ d₂ hstmts h₂
    apply (h₂.expect rfl rfl).bind
    intro stop stop' c₃ d₃ hstop h₃
    refine .pure ?_ h₃
    rw [Same, Block.relabel, Block.relabel, relabelLines_eq_map,
      relabelLines_eq_map, show _ = _ from hstmts,
      κ.ρ.span_merge hwithin.span hstop]
  · rcases h.alike_or_lost with ⟨hkind, hspan⟩ | hlost
    · exact .error ⟨.noBlock hkind, hspan⟩
    · exact .lost hlost

theorem Agrees.blockLines_succ {stmts stmts' : List Stmt}
    (hstmts : Same (List.map (Stmt.relabel κ.ρ)) stmts stmts') :
    κ.Agree (Same (List.map (Stmt.relabel κ.ρ)))
      (Parser.blockLines (n + 1) stmts) (Parser.blockLines (m + 1) stmts') := by
  intro c d h
  rw [Parser.blockLines, Parser.blockLines]
  apply h.skipNewlines_bind
  · intro c₁ d₁ h₁
    apply get_bind
    have hdedent : c₁.isAt .dedent = d₁.isAt .dedent := h₁.kind.sameClass _
    have hend : c₁.atEnd = d₁.atEnd := h₁.kind.sameClass _
    rw [← hdedent, ← hend]
    split
    · exact .pure hstmts h₁.near
    · split
      · exact h₁.near.unexpected _
      · apply (ih.statement h₁.near).bind
        intro stmt stmt' c₂ d₂ hstmt h₂
        exact ih.blockLines (same_concat hstmts hstmt) h₂
  · intro c₁ hfinish
    refine ⟨c₁.unexpected "end of block", ?_⟩
    change (if c₁.isAt .dedent = true then _ else if c₁.atEnd = true then _
      else _ : Parser (List Stmt)) c₁ = _
    rw [Cursor.isAt, Cursor.atEnd, hfinish]
    rfl

/-- What may follow the body of a branch. -/
theorem Agrees.otherwise {condition condition' : Expr} {first first' : Body}
    (hcondition : Same (Expr.relabel κ.ρ) condition condition')
    (hfirst : Same (Body.relabel κ.ρ) first first') (h : κ.Near false c d) :
    κ.Outcome κ.AlikeMakers false
      ((do
        let saved ← get
        Parser.skipNewlines
        let _ ← eat (.symbol .comma)
        if ← eat (.keyword .otherwise) then
          return .branch condition first (some (← Parser.alternative n))
        else
          set saved
          return .branch condition first none : Parser (Span → Stmt)) c)
      ((do
        let saved ← get
        Parser.skipNewlines
        let _ ← eat (.symbol .comma)
        if ← eat (.keyword .otherwise) then
          return .branch condition' first' (some (← Parser.alternative m))
        else
          set saved
          return .branch condition' first' none : Parser (Span → Stmt)) d) := by
  have hnone : κ.AlikeMakers (Stmt.branch condition first none)
      (Stmt.branch condition' first' none) := by
    intro s s' hs
    rw [Stmt.relabel, Stmt.relabel, show _ = _ from hcondition,
      show _ = _ from hfirst, hs, relabelAlternative]
  apply get_bind
  rcases h.cases with hwithin | hbeyond
  · have hclause : ∀ {c₁ d₁}, κ.Near false c₁ d₁ →
        κ.Outcome κ.AlikeMakers false
          ((do
            if ← eat (.keyword .otherwise) then
              return .branch condition first (some (← Parser.alternative n))
            else
              set c
              return .branch condition first none : Parser (Span → Stmt)) c₁)
          ((do
            if ← eat (.keyword .otherwise) then
              return .branch condition' first' (some (← Parser.alternative m))
            else
              set d
              return .branch condition' first' none :
                Parser (Span → Stmt)) d₁) := by
      intro c₁ d₁ h₁
      apply h₁.eat_bind settled_otherwise
      · intro _ h₂
        apply (ih.alternative h₂.weaken).bind
        intro body body' c₃ d₃ hbody h₃
        refine .pure ?_ h₃
        intro s s' hs
        rw [Stmt.relabel, Stmt.relabel, show _ = _ from hcondition,
          show _ = _ from hfirst, hs, relabelAlternative, relabelAlternative,
          show _ = _ from hbody]
      · apply set_bind
        exact .pure hnone h
    have h₁ := hwithin.skipNewlines.near
    rw [skipNewlines_bind_apply, skipNewlines_bind_apply]
    apply h₁.eat_bind (settled_symbol .comma)
    · intro _ h₂
      exact hclause h₂.weaken
    · exact hclause h₁
  · apply hbeyond.no_otherwise
    intro c' d'
    apply set_bind
    exact .pure hnone h

/-- An assignment: a target, a word and a value. -/
theorem Agrees.assignment (word : String) (h : κ.Near false c d) :
    κ.Outcome κ.AlikeMakers false
      ((do
        let target ← targetOf (← Parser.binary n Operator.atPosition.precedence)
        let _ ← Parser.expectWord word
        return .assign target (← Parser.binary n 1) : Parser (Span → Stmt)) c)
      ((do
        let target ← targetOf (← Parser.binary m Operator.atPosition.precedence)
        let _ ← Parser.expectWord word
        return .assign target (← Parser.binary m 1) :
          Parser (Span → Stmt)) d) := by
  apply (ih.binary _ h).bind
  intro left left' c₁ d₁ hleft h₁
  apply (h₁.targetOf hleft).bind
  intro target target' c₂ d₂ htarget h₂
  apply (h₂.expectWord word).bind
  intro _ _ c₃ d₃ _ h₃
  apply (ih.binary 1 h₃.weaken).bind
  intro value value' c₄ d₄ hvalue h₄
  refine .pure ?_ h₄
  intro s s' hs
  rw [Stmt.relabel, Stmt.relabel, show _ = _ from htarget,
    show _ = _ from hvalue, hs]

/-- A statement that is one expression after a word. -/
theorem Agrees.unary (make : Expr → Span → Stmt)
    (hmake : ∀ {e e'}, Same (Expr.relabel κ.ρ) e e' →
      κ.AlikeMakers (make e) (make e')) (h : κ.Near false c d) :
    κ.Outcome κ.AlikeMakers false
      ((do return make (← Parser.binary n 1) : Parser (Span → Stmt)) c)
      ((do return make (← Parser.binary m 1) : Parser (Span → Stmt)) d) := by
  apply (ih.binary 1 h).bind
  intro value value' c₁ d₁ hvalue h₁
  exact .pure (hmake hvalue) h₁

theorem Agrees.keyword_sentence {k : Keyword} (hwithin : κ.Within false c d)
    (hc : c.kind = .keyword k) (hd : d.kind = .keyword k) :
    κ.Outcome κ.AlikeMakers false (Parser.sentence (n + 1) c)
      (Parser.sentence (m + 1) d) := by
  have hfinish : c.kind ≠ .finish := by
    rw [hc]
    nofun
  have hdedent : c.kind ≠ .dedent := by
    rw [hc]
    nofun
  rw [Parser.sentence, Parser.sentence, get_bind_apply, get_bind_apply, hc, hd]
  cases k with
  | set =>
      apply hwithin.advance_bind hfinish hdedent
      intro h₁
      exact ih.assignment "to" h₁.weaken
  | print =>
      apply hwithin.advance_bind hfinish hdedent
      intro h₁
      apply ih.unary .print _ h₁.weaken
      intro e e' he s s' hs
      rw [Stmt.relabel, Stmt.relabel, show _ = _ from he, hs]
  | read =>
      apply hwithin.advance_bind hfinish hdedent
      exact Near.readStatement
  | add =>
      apply hwithin.advance_bind hfinish hdedent
      intro h₁
      apply (ih.binary 1 h₁.weaken).bind
      intro value value' c₂ d₂ hvalue h₂
      apply (h₂.expectWord "to").bind
      intro _ _ c₃ d₃ _ h₃
      apply (ih.binary 1 h₃.weaken).bind
      intro list list' c₄ d₄ hlist h₄
      refine .pure ?_ h₄
      intro s s' hs
      rw [Stmt.relabel, Stmt.relabel, show _ = _ from hvalue,
        show _ = _ from hlist, hs]
  | remove =>
      apply hwithin.advance_bind hfinish hdedent
      intro h₁
      apply (ih.binary _ h₁.weaken).bind
      intro e e' c₂ d₂ he h₂
      rcases Expr.position_cases he with
        ⟨l, i, s, l', i', s', rfl, rfl, hl, hi⟩ | ⟨hnot, hnot'⟩
      · refine .pure ?_ h₂
        intro s s' hs
        rw [Stmt.relabel, Stmt.relabel, hl, hi, hs]
      · split
        · exact absurd rfl (hnot _ _ _)
        · exact h₂.unexpected _
  | loop =>
      apply hwithin.advance_bind hfinish hdedent
      intro h₁
      apply (ih.binary 1 h₁.weaken).bind
      intro condition condition' c₂ d₂ hcondition h₂
      apply (ih.body h₂).bind
      intro body body' c₃ d₃ hbody h₃
      refine .pure ?_ h₃
      intro s s' hs
      rw [Stmt.relabel, Stmt.relabel, show _ = _ from hcondition,
        show _ = _ from hbody, hs]
  | branch =>
      apply hwithin.advance_bind hfinish hdedent
      intro h₁
      apply (ih.binary 1 h₁.weaken).bind
      intro condition condition' c₂ d₂ hcondition h₂
      apply (ih.body h₂).bind
      intro first first' c₃ d₃ hfirst h₃
      exact ih.otherwise hcondition hfirst h₃
  | each =>
      apply hwithin.advance_bind hfinish hdedent
      intro h₁
      apply (h₁.expectWord "each").bind
      intro _ _ c₂ d₂ _ h₂
      apply h₂.expectName.bind
      intro item item' c₃ d₃ hitem h₃
      apply (h₃.expectWord "in").bind
      intro _ _ c₄ d₄ _ h₄
      apply (ih.binary 1 h₄.weaken).bind
      intro list list' c₅ d₅ hlist h₅
      apply (ih.body h₅).bind
      intro body body' c₆ d₆ hbody h₆
      refine .pure ?_ h₆
      intro s s' hs
      rw [Stmt.relabel, Stmt.relabel, hitem.1, show _ = _ from hlist,
        show _ = _ from hbody, hs]
  | increment =>
      apply hwithin.advance_bind hfinish hdedent
      intro h₁
      apply h₁.nameStatement .increment
      intro m n hname s s' hs
      rw [Stmt.relabel, Stmt.relabel, hname, hs]
  | decrement =>
      apply hwithin.advance_bind hfinish hdedent
      intro h₁
      apply h₁.nameStatement .decrement
      intro m n hname s s' hs
      rw [Stmt.relabel, Stmt.relabel, hname, hs]
  | exit =>
      apply hwithin.advance_bind hfinish hdedent
      intro h₁
      refine .pure ?_ h₁.weaken
      intro s s' hs
      rw [Stmt.relabel, Stmt.relabel, hs]
  | run =>
      apply hwithin.advance_bind hfinish hdedent
      intro h₁
      apply (ih.binary 1 h₁.weaken).bind
      intro callee callee' c₂ d₂ hcallee h₂
      apply (ih.callFrom hcallee h₂).bind
      intro call call' c₃ d₃ hcall h₃
      refine .pure ?_ h₃
      intro s s' hs
      rw [Stmt.relabel, Stmt.relabel, show _ = _ from hcall, hs]
  | otherwise | yes | no => exact hwithin.near.unexpected _

theorem Agrees.sentence_succ :
    κ.Agree κ.AlikeMakers (Parser.sentence (n + 1))
      (Parser.sentence (m + 1)) := by
  intro c d h
  rcases h.cases with hwithin | hbeyond
  · rcases hwithin.kind_cases with ⟨k, hc, hd, hk⟩ | ⟨name, name', hc, hd, hname⟩
    · cases k with
      | keyword k => exact ih.keyword_sentence hwithin hc hd
      | word name => exact absurd rfl (hk name)
      | _ =>
          rw [Parser.sentence, Parser.sentence, get_bind_apply, get_bind_apply,
            hc, hd]
          exact h.unexpected _
    · rw [Parser.sentence, Parser.sentence, get_bind_apply, get_bind_apply, hc,
        hd]
      apply hwithin.eatWords_bind (by simp)
      · intro c₁ d₁ h₁
        apply ih.unary .inspect _ h₁.weaken
        intro e e' he s s' hs
        rw [Stmt.relabel, Stmt.relabel, show _ = _ from he, hs]
      · apply hwithin.eatWords_bind (by simp)
        · intro c₁ d₁ h₁
          apply ih.unary .result _ h₁.weaken
          intro e e' he s s' hs
          rw [Stmt.relabel, Stmt.relabel, show _ = _ from he, hs]
        · exact ih.assignment "is" h
  · obtain ⟨e, he⟩ := sentence_fails (n + 1) hbeyond.kind_left
    rw [he]
    exact .lost hbeyond.here_ne_nil

/-- A list after its opening bracket. -/
theorem Agrees.items {start start' : Span}
    (hstart : κ.ρ.span start = κ.ρ.span start') (h : κ.Near false c d) :
    κ.Outcome (Same (Expr.relabel κ.ρ)) false
      ((do
        if (← get).isAt (.symbol .closeBracket) then
          let stop ← Parser.expect (.symbol .closeBracket)
          return .list [] (start.merge stop)
        else
          let first ← Parser.binary n 1
          let items ← Parser.moreItems n [first]
          let stop ← Parser.expect (.symbol .closeBracket)
          return .list items (start.merge stop) : Parser Expr) c)
      ((do
        if (← get).isAt (.symbol .closeBracket) then
          let stop ← Parser.expect (.symbol .closeBracket)
          return .list [] (start'.merge stop)
        else
          let first ← Parser.binary m 1
          let items ← Parser.moreItems m [first]
          let stop ← Parser.expect (.symbol .closeBracket)
          return .list items (start'.merge stop) : Parser Expr) d) := by
  apply get_bind
  rw [← h.isAt (settled_symbol .closeBracket)]
  split
  · apply (h.expect rfl rfl).bind
    intro stop stop' c₁ d₁ hstop h₁
    refine .pure ?_ h₁
    rw [Same, Expr.relabel, Expr.relabel, κ.ρ.span_merge hstart hstop,
      relabelItems]
  · apply (ih.binary 1 h).bind
    intro first first' c₁ d₁ hfirst h₁
    have hfirsts : Same (List.map (Expr.relabel κ.ρ)) [first] [first'] :=
      congrArg ([·]) hfirst
    apply (ih.moreItems hfirsts h₁).bind
    intro items items' c₂ d₂ hitems h₂
    apply (h₂.expect rfl rfl).bind
    intro stop stop' c₃ d₃ hstop h₃
    refine .pure ?_ h₃
    rw [Same, Expr.relabel, Expr.relabel, κ.ρ.span_merge hstart hstop,
      relabelItems_eq_map, relabelItems_eq_map, show _ = _ from hitems]

/-- A call after `the result of`. -/
theorem Agrees.resultOf {start start' : Span}
    (hstart : κ.ρ.span start = κ.ρ.span start') (h : κ.Near false c d) :
    κ.Outcome (Same (Expr.relabel κ.ρ)) false
      ((do
        let call ← Parser.resultCall n
        return .result call (start.merge call.span) : Parser Expr) c)
      ((do
        let call ← Parser.resultCall m
        return .result call (start'.merge call.span) : Parser Expr) d) := by
  apply (ih.resultCall h).bind
  intro call call' c₁ d₁ hcall h₁
  refine .pure ?_ h₁
  rw [Same, Expr.relabel, Expr.relabel, show _ = _ from hcall,
    κ.ρ.span_merge hstart (Call.span_of_alike hcall)]

/-- A function after `a function`. -/
theorem Agrees.function {start start' : Span}
    (hstart : κ.ρ.span start = κ.ρ.span start') (h : κ.Near true c d) :
    κ.Outcome (Same (Expr.relabel κ.ρ)) false
      ((do
        let params ← Parser.parameters
        let _ ← Parser.expect (.symbol .colon)
        Parser.skipNewlines
        let body ← Parser.block n
        return .function params body (start.merge body.span) : Parser Expr) c)
      ((do
        let params ← Parser.parameters
        let _ ← Parser.expect (.symbol .colon)
        Parser.skipNewlines
        let body ← Parser.block m
        return .function params body (start'.merge body.span) :
          Parser Expr) d) := by
  apply h.parameters.bind
  intro params params' c₁ d₁ hparams h₁
  apply (h₁.expect rfl rfl).bind
  intro _ _ c₂ d₂ _ h₂
  apply h₂.skipNewlines_bind
  · intro c₃ d₃ h₃
    apply (ih.block h₃.near).bind
    intro body body' c₄ d₄ hbody h₄
    refine .pure ?_ h₄
    rw [Same, Expr.relabel, Expr.relabel, show _ = _ from hparams,
      show _ = _ from hbody, κ.ρ.span_merge hstart (Block.span_of_alike hbody)]
  · intro c₃ hfinish
    obtain ⟨e, he⟩ := block_fails n hfinish
    refine ⟨e, ?_⟩
    change (Parser.block n c₃).bind _ = _
    rw [he]
    rfl

theorem Agrees.word_primary {name name' : Name} (hwithin : κ.Within false c d)
    (hc : c.kind = .word name) (hd : d.kind = .word name')
    (hname : κ.ρ.name name = κ.ρ.name name') :
    κ.Outcome (Same (Expr.relabel κ.ρ)) false (Parser.primary (n + 1) c)
      (Parser.primary (m + 1) d) := by
  have hspan := hwithin.span
  rw [Parser.primary, Parser.primary, get_bind_apply, get_bind_apply, hc, hd]
  apply hwithin.eatWords_bind (by simp)
  · intro c₁ d₁ h₁
    exact ih.function hspan h₁
  · apply hwithin.eatWords_bind (by simp)
    · intro c₁ d₁ h₁
      exact ih.resultOf hspan h₁.weaken
    · apply hwithin.eatWords_bind (by simp)
      · intro c₁ d₁ h₁
        exact ih.resultOf hspan h₁.weaken
      · apply hwithin.leaf (by rw [hc]; nofun) (by rw [hc]; nofun)
        rw [Same, Expr.relabel, Expr.relabel, hname, hspan]

theorem Agrees.primary_succ :
    κ.Agree (Same (Expr.relabel κ.ρ)) (Parser.primary (n + 1))
      (Parser.primary (m + 1)) := by
  intro c d h
  rcases h.cases with hwithin | hbeyond
  · have hspan := hwithin.span
    rcases hwithin.kind_cases with ⟨k, hc, hd, hk⟩ | ⟨name, name', hc, hd, hname⟩
    · have hfinish : k ≠ .finish → c.kind ≠ .finish := fun hne => by rwa [hc]
      have hdedent : k ≠ .dedent → c.kind ≠ .dedent := fun hne => by rwa [hc]
      rw [Parser.primary, Parser.primary, get_bind_apply, get_bind_apply, hc,
        hd]
      cases k with
      | integer value | real value | text value =>
          apply hwithin.leaf (hfinish nofun) (hdedent nofun)
          rw [Same, Expr.relabel, Expr.relabel, hspan]
      | word name => exact absurd rfl (hk name)
      | keyword k =>
          cases k with
          | yes | no =>
              apply hwithin.leaf (hfinish nofun) (hdedent nofun)
              rw [Same, Expr.relabel, Expr.relabel, hspan]
          | _ => exact h.noExpression
      | symbol symbol =>
          cases symbol with
          | minus => exact hwithin.negativeLiteral hc
          | openBracket =>
              apply hwithin.advance_bind (hfinish nofun) (hdedent nofun)
              intro h₁
              exact ih.items hspan h₁.weaken
          | openParen =>
              apply hwithin.advance_bind (hfinish nofun) (hdedent nofun)
              intro h₁
              apply (ih.binary 1 h₁.weaken).bind
              intro inner inner' c₂ d₂ hinner h₂
              apply (h₂.expect rfl rfl).bind
              intro stop stop' c₃ d₃ hstop h₃
              refine .pure ?_ h₃
              rw [Same, Expr.relabel, Expr.relabel, show _ = _ from hinner,
                κ.ρ.span_merge hspan hstop]
          | _ => exact h.noExpression
      | _ => exact h.noExpression
    · exact ih.word_primary hwithin hc hd hname
  · rw [Parser.primary, get_bind_apply]
    rcases hbeyond.kind_left with hleft | hleft
    · rw [hleft]
      exact .lost hbeyond.here_ne_nil
    · rw [hleft]
      exact .lost hbeyond.here_ne_nil

end Productions

/-- A parser that may go no deeper fails. The other one fails too, if it has to
agree. -/
theorem Deep.agree_zero {m : Nat} (h : κ.Deep 0 m) {fails p q : Parser α}
    (hfails : ∀ {c d}, κ.Near false c d →
      κ.Outcome V false (fails c) (fails d))
    (herror : ∀ c, ∃ e, fails c = .error e) (hp : p = fails)
    (hq : m = 0 → q = fails) : κ.Agree V p q := by
  intro c d hnear
  by_cases hhere : κ.here = []
  · rw [hp, hq (h.2 hhere).symm]
    exact hfails hnear
  · obtain ⟨e, he⟩ := herror c
    rw [hp, he]
    exact .lost hhere

theorem Deep.agree_tooDeep {m : Nat} (h : κ.Deep 0 m) {p q : Parser α}
    (hp : p = Parser.tooDeep) (hq : m = 0 → q = Parser.tooDeep) :
    κ.Agree V p q :=
  h.agree_zero Near.tooDeep (fun _ => ⟨_, rfl⟩) hp hq

theorem agrees_zero {m : Nat} (h : κ.Deep 0 m) : κ.Agrees 0 m where
  binary _ := h.agree_tooDeep (by rw [Parser.binary])
    (by rintro rfl; rw [Parser.binary])
  operators _ _ _ _ := h.agree_tooDeep (by rw [Parser.operators])
    (by rintro rfl; rw [Parser.operators])
  primary := h.agree_tooDeep (by rw [Parser.primary])
    (by rintro rfl; rw [Parser.primary])
  moreItems _ := h.agree_tooDeep (by rw [Parser.moreItems])
    (by rintro rfl; rw [Parser.moreItems])
  resultCall := h.agree_tooDeep (by rw [Parser.resultCall])
    (by rintro rfl; rw [Parser.resultCall])
  callFrom _ := h.agree_tooDeep (by rw [Parser.callFrom])
    (by rintro rfl; rw [Parser.callFrom])
  argument := h.agree_tooDeep (by rw [Parser.argument])
    (by rintro rfl; rw [Parser.argument])
  moreArguments _ := h.agree_tooDeep (by rw [Parser.moreArguments])
    (by rintro rfl; rw [Parser.moreArguments])
  statement := h.agree_tooDeep (by rw [Parser.statement])
    (by rintro rfl; rw [Parser.statement])
  sentence := h.agree_tooDeep (by rw [Parser.sentence])
    (by rintro rfl; rw [Parser.sentence])
  body := h.agree_tooDeep (by rw [Parser.body])
    (by rintro rfl; rw [Parser.body])
  alternative := h.agree_tooDeep (by rw [Parser.alternative])
    (by rintro rfl; rw [Parser.alternative])
  block := h.agree_tooDeep (by rw [Parser.block])
    (by rintro rfl; rw [Parser.block])
  blockLines _ := h.agree_tooDeep (by rw [Parser.blockLines])
    (by rintro rfl; rw [Parser.blockLines])

theorem agrees {n m : Nat} (h : κ.Deep n m) : κ.Agrees n m := by
  induction n generalizing m with
  | zero => exact agrees_zero h
  | succ n ih =>
      obtain ⟨m, rfl⟩ : ∃ k, m = k + 1 := ⟨m - 1, by have := h.1; omega⟩
      have hdeep : κ.Deep n m :=
        ⟨by have := h.1; omega, fun hhere => by have := h.2 hhere; omega⟩
      have hih := ih hdeep
      exact
        { binary := hih.binary_succ
          operators := hih.operators_succ
          primary := hih.primary_succ
          moreItems := hih.moreItems_succ
          resultCall := hih.resultCall_succ
          callFrom := hih.callFrom_succ
          argument := hih.argument_succ
          moreArguments := hih.moreArguments_succ
          statement := hih.statement_succ
          sentence := hih.sentence_succ
          body := hih.body_succ
          alternative := hih.alternative_succ
          block := hih.block_succ
          blockLines := hih.blockLines_succ }

end Comparison

end Prose
