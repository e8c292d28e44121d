import Prose.Proofs.Grammar.Expressions

/-!
Reading back statements, one lemma for each kind. Together with expressions
this closes the induction on the depth of calls: every written statement is
read back.
-/

namespace Prose

/-! ### What can be assigned to -/

/-- The expression that is read for the left side of an assignment. -/
def Target.expr : Target → Expr
  | .name named => .name named .nowhere
  | .position list index => .binary .atPosition list index .nowhere

theorem Operator.write_atPosition (choice : Nat) :
    atPosition.write choice = atPosition.write 0 := by
  rw [write, write, show atPosition.wordings.length = 1 from rfl, Nat.mod_one,
    Nat.mod_one]

theorem Target.write_expr (w : Wording) (target : Target) :
    target.expr.write w = target.write w := by
  cases target with
  | name name => rw [expr, Expr.write, Target.write]
  | position list index =>
      rw [expr, Expr.write, Target.write, Operator.write_atPosition]

theorem Target.isWritable_expr {target : Target} (h : target.isWritable) :
    target.expr.isWritable false := by
  cases target with
  | name name => exact h
  | position list index => exact h

theorem Target.level_expr (target : Target) :
    Operator.atPosition.precedence ≤ target.expr.level := by
  cases target with
  | name name => exact Nat.le_of_lt (Operator.precedence_lt_operand .atPosition)
  | position list index => exact Nat.le_refl _

theorem Expr.eq_name_of_bare {e : Expr} {name : Name}
    (h : e.bare = .name name .nowhere) : ∃ span, e = .name name span := by
  cases e <;> simp only [Expr.bare, reduceCtorEq, Expr.name.injEq] at h
  exact ⟨_, by rw [h.1]⟩

theorem Expr.eq_binary_of_bare {e left right : Expr} {op : Operator}
    (h : e.bare = .binary op left.bare right.bare .nowhere) :
    ∃ left' right' span, e = .binary op left' right' span ∧
      left'.bare = left.bare ∧ right'.bare = right.bare := by
  cases e <;> simp only [Expr.bare, reduceCtorEq, Expr.binary.injEq] at h
  obtain ⟨rfl, hleft, hright, -⟩ := h
  exact ⟨_, _, _, rfl, hleft, hright⟩

namespace Parser

variable {c : Cursor} {rest : List Token.Kind} {w : Wording} {n : Nat}

theorem yields_targetOf {target : Target} {e : Expr}
    (he : e.bare = target.expr.bare) (hc : c.kinds = rest) :
    Yields (targetOf e) c (·.bare = target.bare) rest := by
  cases target with
  | name name =>
      obtain ⟨span, rfl⟩ := Expr.eq_name_of_bare he
      exact yields_pure rfl hc
  | position list index =>
      rw [Target.expr, Expr.bare] at he
      obtain ⟨list', index', span, rfl, hlist, hindex⟩ :=
        Expr.eq_binary_of_bare he
      refine yields_pure ?_ hc
      rw [Target.bare, Target.bare, hlist, hindex]

/-! ### Kinds of statements -/

/-- The sentence of a statement is read back by calls `n` deep, whatever span
it is given. -/
def ReadsSentence (w : Wording) (n : Nat) (s : Stmt) : Prop :=
  ∀ (c : Cursor) (rest : List Token.Kind), s.isWritable →
    8 * (s.write w).length ≤ n → Ends rest →
    c.kinds = s.write w ++ .symbol .dot :: rest →
    Yields (sentence (n + 1)) c
      (fun make => ∀ span, (make span).bare = s.bare) (.symbol .dot :: rest)

section Statements

variable (ih : ∀ k < n + 1, ReadsBack w k)
include ih

/-- An expression before a full stop. -/
theorem yields_last {e : Expr} (he : e.isWritable false)
    (hfuel : 8 * (e.write w).length ≤ n) (hends : Ends rest)
    (hc : c.kinds = e.write w ++ .symbol .dot :: rest) :
    Yields (binary n 1) c (·.bare = e.bare) (.symbol .dot :: rest) :=
  (ih n (Nat.lt_succ_self n)).expr he (one_le_level e) hfuel (hends.cons _)
    (stopsBefore_symbol (by decide) 1 rest) hc

theorem yields_assignment {target : Target} {value : Expr} {word : String}
    (hword : word = "to" ∨ word = "is") (htarget : target.isWritable)
    (hvalue : value.isWritable false)
    (hfuel : 8 * ((target.write w).length + (value.write w).length) ≤ n)
    (hends : Ends rest)
    (hc : c.kinds = target.write w ++
      .ofWord word :: (value.write w ++ .symbol .dot :: rest)) :
    Yields (do
      let target ← targetOf (← binary n Operator.atPosition.precedence)
      let _ ← expectWord word
      return Stmt.assign target (← binary n 1)) c
      (fun make => ∀ span, (make span).bare =
        .assign target.bare value.bare .nowhere)
      (.symbol .dot :: rest) := by
  have hends' : Ends (value.write w ++ .symbol .dot :: rest) :=
    (hends.cons _).append _
  have hstops : StopsBefore Operator.atPosition.precedence
      (.ofWord word :: (value.write w ++ .symbol .dot :: rest)) := by
    obtain ⟨kind, kinds, hwrite, hopens⟩ := value.write_opens w hvalue
    rw [hwrite, List.cons_append] at hends' ⊢
    exact stopsBefore_opens hword hopens _ ((hends.cons _).append _)
  rw [← target.write_expr] at hc hfuel
  apply ((ih n (by omega)).expr (Target.isWritable_expr htarget)
    target.level_expr (by omega) (hends'.cons _) hstops hc).bind
  intro found c₁ hfound hc₁
  apply (yields_targetOf hfound hc₁).bind
  intro left c₂ hleft hc₂
  have hsame : (Token.Kind.ofWord word).isWord word = true := by
    rcases hword with rfl | rfl <;> rfl
  apply (yields_expectWord hc₂ hsame hends'.ne_nil).bind
  intro _ c₃ _ hc₃
  apply (yields_last ih hvalue (by omega) hends hc₃).bind
  intro right c₄ hright hc₄
  refine yields_pure ?_ hc₄
  intro span
  rw [Stmt.bare, hleft, hright]

theorem sentence_assign (target : Target) (value : Expr) (span : Span) :
    ReadsSentence w n (.assign target value span) := by
  intro c rest hs hfuel hends hc
  simp only [Stmt.isWritable, Bool.and_eq_true] at hs
  rw [Stmt.write] at hc hfuel
  apply yields_get
  split at hc
  · next his =>
      rw [if_pos his] at hfuel
      simp only [List.cons_append, List.append_assoc, List.nil_append,
        List.length_cons, List.length_append] at hc hfuel
      obtain ⟨name, kinds, hleft⟩ := eq_word_of_beginsWithWord his.2
      have hopens : (Token.Kind.word name).Opens := by
        obtain ⟨kind, kinds', hwrite, hopens⟩ :=
          target.expr.write_opens w (Target.isWritable_expr hs.1)
        rw [target.write_expr, hleft] at hwrite
        cases hwrite
        exact hopens
      have hkinds := hc
      rw [hleft, List.cons_append] at hkinds
      have hends' : Ends (.word name :: (kinds ++
          .ofWord "is" :: (value.write w ++ .symbol .dot :: rest))) :=
        ((((hends.cons _).append _).cons _).append _).cons _
      simp only [Cursor.kind_of_kinds hkinds]
      apply (yields_not_eatWords hkinds hends'
        (hopens.not_beginsWith (by decide) (by decide) _ _)).bind
      rintro _ c₁ rfl hc₁
      apply (yields_not_eatWords hc₁ hends'
        (hopens.not_beginsWith (by decide) (by decide) _ _)).bind
      rintro _ c₂ rfl hc₂
      rw [← List.cons_append, ← hleft] at hc₂
      apply (yields_assignment ih (.inr rfl) hs.1 hs.2 (by omega) hends
        hc₂).mono
      intro make hmake span'
      rw [hmake, Stmt.bare]
  · next his =>
      rw [if_neg his] at hfuel
      simp only [List.cons_append, List.append_assoc, List.nil_append,
        List.length_cons, List.length_append] at hc hfuel
      simp only [Cursor.kind_of_kinds hc]
      have hends' : Ends (target.write w ++
        .ofWord "to" :: (value.write w ++ .symbol .dot :: rest)) :=
        (((hends.cons _).append _).cons _).append _
      apply (yields_advance hc hends'.ne_nil).bind
      intro _ c₁ _ hc₁
      apply (yields_assignment ih (.inl rfl) hs.1 hs.2 (by omega) hends
        hc₁).mono
      intro make hmake span'
      rw [hmake, Stmt.bare]

theorem sentence_print (value : Expr) (span : Span) :
    ReadsSentence w n (.print value span) := by
  intro c rest hs hfuel hends hc
  simp only [Stmt.write, List.cons_append, List.length_cons] at hc hfuel
  apply yields_get
  simp only [Cursor.kind_of_kinds hc]
  apply (yields_advance hc ((hends.cons _).append _).ne_nil).bind
  intro _ c₁ _ hc₁
  apply (yields_last ih hs (by omega) hends hc₁).bind
  intro found c₂ hfound hc₂
  refine yields_pure ?_ hc₂
  intro span'
  rw [Stmt.bare, Stmt.bare, hfound]

theorem sentence_inspect (value : Expr) (span : Span) :
    ReadsSentence w n (.inspect value span) := by
  intro c rest hs hfuel hends hc
  simp only [Stmt.write, List.cons_append, List.length_cons] at hc hfuel
  have hkinds : c.kinds = [.ofWord "what", .ofWord "is"] ++
      (value.write w ++ .symbol .dot :: rest) := hc
  apply yields_get
  simp only [Cursor.kind_of_kinds hc, Token.Kind.ofWord]
  apply (yields_eatWords hkinds ((hends.cons _).append _) rfl rfl).bind
  rintro _ c₁ rfl hc₁
  apply (yields_last ih hs (by omega) hends hc₁).bind
  intro found c₂ hfound hc₂
  refine yields_pure ?_ hc₂
  intro span'
  rw [Stmt.bare, Stmt.bare, hfound]

theorem sentence_result (value : Expr) (span : Span) :
    ReadsSentence w n (.result value span) := by
  intro c rest hs hfuel hends hc
  simp only [Stmt.write, List.cons_append, List.length_cons] at hc hfuel
  have hends' : Ends (value.write w ++ .symbol .dot :: rest) :=
    (hends.cons _).append _
  apply yields_get
  simp only [Cursor.kind_of_kinds hc, Token.Kind.ofWord]
  apply (yields_not_eatWords hc (((hends'.cons _).cons _).cons _) rfl).bind
  rintro _ c₁ rfl hc₁
  have hkinds : c₁.kinds = [.ofWord "the", .ofWord "result", .ofWord "is"] ++
      (value.write w ++ .symbol .dot :: rest) := hc₁
  apply (yields_eatWords hkinds hends' rfl rfl).bind
  rintro _ c₂ rfl hc₂
  apply (yields_last ih hs (by omega) hends hc₂).bind
  intro found c₃ hfound hc₃
  refine yields_pure ?_ hc₃
  intro span'
  rw [Stmt.bare, Stmt.bare, hfound]

theorem sentence_add (value list : Expr) (span : Span) :
    ReadsSentence w n (.add value list span) := by
  intro c rest hs hfuel hends hc
  simp only [Stmt.isWritable, Bool.and_eq_true] at hs
  simp only [Stmt.write, List.cons_append, List.append_assoc,
    List.length_cons, List.length_append] at hc hfuel
  have hends' : Ends (list.write w ++ .symbol .dot :: rest) :=
    (hends.cons _).append _
  have hstops : StopsBefore 1
      (.ofWord "to" :: (list.write w ++ .symbol .dot :: rest)) := by
    obtain ⟨kind, kinds, hwrite, hopens⟩ := list.write_opens w hs.2
    rw [hwrite, List.cons_append]
    exact stopsBefore_opens (.inl rfl) hopens 1 ((hends.cons _).append _)
  apply yields_get
  simp only [Cursor.kind_of_kinds hc]
  apply (yields_advance hc ((hends'.cons _).append _).ne_nil).bind
  intro _ c₁ _ hc₁
  apply ((ih n (by omega)).expr hs.1 (one_le_level value) (by omega)
    (hends'.cons _) hstops hc₁).bind
  intro found c₂ hfound hc₂
  apply (yields_expectWord hc₂ rfl hends'.ne_nil).bind
  intro _ c₃ _ hc₃
  apply (yields_last ih hs.2 (by omega) hends hc₃).bind
  intro found' c₄ hfound' hc₄
  refine yields_pure ?_ hc₄
  intro span'
  rw [Stmt.bare, Stmt.bare, hfound, hfound']

theorem sentence_remove (list index : Expr) (span : Span) :
    ReadsSentence w n (.remove list index span) := by
  intro c rest hs hfuel hends hc
  have hexpr : (Target.position list index).expr.isWritable false := hs
  have hwrite := (Target.position list index).write_expr w
  rw [Target.write] at hwrite
  rw [Stmt.write, ← hwrite, List.cons_append] at hc
  rw [Stmt.write, ← hwrite, List.length_cons] at hfuel
  apply yields_get
  simp only [Cursor.kind_of_kinds hc]
  apply (yields_advance hc ((hends.cons _).append _).ne_nil).bind
  intro _ c₁ _ hc₁
  apply ((ih n (by omega)).expr hexpr (Target.level_expr _) (by omega)
    (hends.cons _) (stopsBefore_symbol (by decide) _ rest) hc₁).bind
  intro found c₂ hfound hc₂
  rw [Target.expr, Expr.bare] at hfound
  obtain ⟨list', index', span', rfl, hlist, hindex⟩ :=
    Expr.eq_binary_of_bare hfound
  refine yields_pure ?_ hc₂
  intro span'
  rw [Stmt.bare, Stmt.bare, hlist, hindex]

omit ih in
theorem stopsBefore_body (body : Body) (rest : List Token.Kind) :
    StopsBefore 1 (body.write w ++ rest) := by
  cases body with
  | block block =>
      rw [Body.write]
      exact stopsBefore_symbol (by decide) 1 _
  | sentence stmt =>
      rw [Body.write]
      exact stopsBefore_symbol (by decide) 1 _

/-- A condition or a list before a body. -/
theorem yields_head {e : Expr} {body : Body} (he : e.isWritable false)
    (hfuel : 8 * (e.write w).length ≤ n) (hends : Ends rest)
    (hc : c.kinds = e.write w ++ (body.write w ++ rest)) :
    Yields (binary n 1) c (·.bare = e.bare) (body.write w ++ rest) :=
  (ih n (Nat.lt_succ_self n)).expr he (one_le_level e) hfuel (hends.append _)
    (stopsBefore_body body rest) hc

theorem sentence_loop (condition : Expr) (body : Body) (span : Span) :
    ReadsSentence w n (.loop condition body span) := by
  intro c rest hs hfuel hends hc
  simp only [Stmt.isWritable, Bool.and_eq_true] at hs
  simp only [Stmt.write, List.cons_append, List.append_assoc,
    List.length_cons, List.length_append] at hc hfuel
  apply yields_get
  simp only [Cursor.kind_of_kinds hc]
  apply (yields_advance hc
    (((hends.cons _).append _).append _).ne_nil).bind
  intro _ c₁ _ hc₁
  apply (yields_head ih hs.1 (by omega) (hends.cons _) hc₁).bind
  intro found c₂ hfound hc₂
  apply (yields_body ih (by omega) hs.2 (by omega) (hends.cons _) hc₂).bind
  intro found' c₃ hfound' hc₃
  refine yields_pure ?_ hc₃
  intro span'
  rw [Stmt.bare, Stmt.bare, hfound, hfound']

theorem sentence_forEach (item : Name) (list : Expr) (body : Body)
    (span : Span) :
    ReadsSentence w n (.forEach item list body span) := by
  intro c rest hs hfuel hends hc
  simp only [Stmt.isWritable, Bool.and_eq_true] at hs
  simp only [Stmt.write, List.cons_append, List.append_assoc,
    List.length_cons, List.length_append] at hc hfuel
  have hends' : Ends (list.write w ++ (body.write w ++
      .symbol .dot :: rest)) := ((hends.cons _).append _).append _
  apply yields_get
  simp only [Cursor.kind_of_kinds hc]
  apply (yields_advance hc (((hends'.cons _).cons _).cons _).ne_nil).bind
  intro _ c₁ _ hc₁
  apply (yields_expectWord hc₁ rfl ((hends'.cons _).cons _).ne_nil).bind
  intro _ c₂ _ hc₂
  apply (yields_expectName hc₂ (hends'.cons _).ne_nil).bind
  rintro ⟨found, _⟩ c₃ hname hc₃
  apply (yields_expectWord hc₃ rfl hends'.ne_nil).bind
  intro _ c₄ _ hc₄
  apply (yields_head ih hs.1.2 (by omega) (hends.cons _) hc₄).bind
  intro found' c₅ hfound' hc₅
  apply (yields_body ih (by omega) hs.2 (by omega) (hends.cons _) hc₅).bind
  intro body' c₆ hbody' hc₆
  refine yields_pure ?_ hc₆
  intro span'
  rw [Stmt.bare, Stmt.bare, hfound', hbody', show found = item from hname]

/-- A branch with or without an alternative: a full stop tells them apart. -/
theorem sentence_branch (condition : Expr) (body : Body)
    (alternative : Option Body) (span : Span) :
    ReadsSentence w n (.branch condition body alternative span) := by
  intro c rest hs hfuel hends hc
  simp only [Stmt.isWritable, Bool.and_eq_true] at hs
  simp only [Stmt.write, List.cons_append, List.append_assoc,
    List.length_cons, List.length_append] at hc hfuel
  have hends' : Ends (writeAlternative w alternative ++
      .symbol .dot :: rest) := (hends.cons _).append _
  apply yields_get
  simp only [Cursor.kind_of_kinds hc]
  apply (yields_advance hc ((hends'.append _).append _).ne_nil).bind
  intro _ c₁ _ hc₁
  apply (yields_head ih hs.1.1 (by omega) hends' hc₁).bind
  intro found c₂ hfound hc₂
  apply (yields_body ih (by omega) hs.1.2 (by omega) hends' hc₂).bind
  intro body' c₃ hbody' hc₃
  apply yields_get
  cases alternative with
  | none =>
      rw [writeAlternative, List.nil_append] at hc₃
      apply (yields_skipNewlines hc₃ rfl).bind
      intro _ c₄ _ hc₄
      apply (yields_not_eat hc₄ rfl).bind
      rintro _ c₅ rfl hc₅
      apply (yields_not_eat hc₅ rfl).bind
      rintro _ c₆ rfl hc₆
      apply yields_set
      refine yields_pure ?_ hc₃
      intro span'
      rw [Stmt.bare, Stmt.bare, hfound, hbody', bareAlternative]
  | some other =>
      rw [isWritableAlternative] at hs
      rw [writeAlternative, List.cons_append] at hc₃
      rw [writeAlternative, List.length_cons] at hfuel
      apply (yields_skipNewlines hc₃ rfl).bind
      intro _ c₄ _ hc₄
      apply (yields_not_eat hc₄ rfl).bind
      rintro _ c₅ rfl hc₅
      apply (yields_eat hc₅ rfl ((hends.cons _).append _).ne_nil).bind
      rintro _ c₆ rfl hc₆
      apply (yields_alternative ih (by omega) hs.2 (by omega)
        (hends.cons _) hc₆).bind
      intro other' c₇ hother' hc₇
      refine yields_pure ?_ hc₇
      intro span'
      rw [Stmt.bare, Stmt.bare, hfound, hbody', bareAlternative,
        bareAlternative, hother']

theorem sentence_run (call : Call) (span : Span) :
    ReadsSentence w n (.run call span) := by
  intro c rest hs hfuel hends hc
  simp only [Stmt.write, List.cons_append, List.length_cons] at hc hfuel
  apply yields_get
  simp only [Cursor.kind_of_kinds hc]
  apply (yields_advance hc ((hends.cons _).append _).ne_nil).bind
  intro _ c₁ _ hc₁
  rw [← bind_assoc]
  apply (yields_call ih (.inl rfl) (by omega) hs (one_le_level _) (by omega)
    hends hc₁).bind
  intro found c₂ hfound hc₂
  refine yields_pure ?_ hc₂
  intro span'
  rw [Stmt.bare, Stmt.bare, hfound]

omit ih in
/-- The end of a `Read` statement, after its type. -/
theorem yields_into {found type : Option ReadType} {target : Name}
    {span : Span} (htype : found.map (·.text) = type.map (·.text))
    (hends : Ends rest)
    (hc : c.kinds = .ofWord "into" :: .word target :: .symbol .dot :: rest) :
    Yields (do
      let _ ← expectWord "into"
      let (target, _) ← expectName
      return Stmt.read found target) c
      (fun make => ∀ span', (make span').bare =
        (Stmt.read type target span).bare)
      (.symbol .dot :: rest) := by
  apply (yields_expectWord hc rfl ((hends.cons _).cons _).ne_nil).bind
  intro _ c₁ _ hc₁
  apply (yields_expectName hc₁ (hends.cons _).ne_nil).bind
  rintro ⟨name, _⟩ c₂ hname hc₂
  refine yields_pure ?_ hc₂
  intro span'
  have hbare := congrArg
    (Option.map fun text => (⟨text, .nowhere⟩ : ReadType)) htype
  simp only [Option.map_map, Function.comp_def] at hbare
  rw [Stmt.bare, Stmt.bare, hbare, show name = target from hname]

omit ih in
theorem sentence_read (type : Option ReadType) (target : Name) (span : Span) :
    ReadsSentence w n (.read type target span) := by
  intro c rest hs hfuel hends hc
  simp only [Stmt.isWritable, Bool.and_eq_true] at hs
  simp only [Stmt.write, List.cons_append, List.append_assoc,
    List.nil_append] at hc
  have hends' : Ends (.ofWord "into" :: .word target ::
      .symbol .dot :: rest) := ((hends.cons _).cons _).cons _
  apply yields_get
  simp only [Cursor.kind_of_kinds hc]
  apply (yields_advance hc (hends'.append _).ne_nil).bind
  intro _ c₁ _ hc₁
  cases type with
  | none =>
      rw [writeType, List.nil_append] at hc₁
      apply (yields_not_eatWord hc₁ rfl).bind
      rintro _ c₂ rfl hc₂
      apply (yields_not_eatWord hc₂ rfl).bind
      rintro _ c₃ rfl hc₃
      simp only [Bool.false_eq_true, if_false, pure_bind]
      exact yields_into rfl hends hc₃
  | some type =>
      rw [writeType, List.cons_append] at hc₁
      apply (yields_eatWord hc₁ rfl (hends'.append _).ne_nil).bind
      rintro _ c₂ rfl hc₂
      simp only [if_true, pure_bind, map_eq_pure_bind, bind_assoc]
      apply (yields_readType hs.1 ((hends.cons _).cons _) hc₂).bind
      intro found c₃ hfound hc₃
      exact yields_into (congrArg some hfound) hends hc₃

omit ih in
/-- A reserved word and a name, whatever statement they make. -/
theorem yields_named {k : Keyword} {name : Name} {make : Name → Span → Stmt}
    (hends : Ends rest)
    (hc : c.kinds = .keyword k :: .word name :: .symbol .dot :: rest) :
    Yields (do
      let _ ← advance
      return make (← expectName).1) c (· = make name)
      (.symbol .dot :: rest) := by
  apply (yields_advance hc ((hends.cons _).cons _).ne_nil).bind
  intro _ c₁ _ hc₁
  apply (yields_expectName hc₁ (hends.cons _).ne_nil).bind
  rintro ⟨found, _⟩ c₂ hfound hc₂
  exact yields_pure (congrArg make hfound) hc₂

omit ih in
theorem sentence_increment (name : Name) (span : Span) :
    ReadsSentence w n (.increment name span) := by
  intro c rest hs hfuel hends hc
  simp only [Stmt.write, List.cons_append, List.nil_append] at hc
  apply yields_get
  simp only [Cursor.kind_of_kinds hc]
  apply (yields_named hends hc).mono
  rintro _ rfl span'
  rw [Stmt.bare, Stmt.bare]

omit ih in
theorem sentence_decrement (name : Name) (span : Span) :
    ReadsSentence w n (.decrement name span) := by
  intro c rest hs hfuel hends hc
  simp only [Stmt.write, List.cons_append, List.nil_append] at hc
  apply yields_get
  simp only [Cursor.kind_of_kinds hc]
  apply (yields_named hends hc).mono
  rintro _ rfl span'
  rw [Stmt.bare, Stmt.bare]

omit ih in
theorem sentence_exit (span : Span) : ReadsSentence w n (.exit span) := by
  intro c rest hs hfuel hends hc
  simp only [Stmt.write, List.cons_append, List.nil_append] at hc
  apply yields_get
  simp only [Cursor.kind_of_kinds hc]
  apply (yields_advance hc (hends.cons _).ne_nil).bind
  intro _ c₁ _ hc₁
  refine yields_pure ?_ hc₁
  intro span'
  rw [Stmt.bare, Stmt.bare]

theorem yields_sentence (s : Stmt) : ReadsSentence w n s := by
  cases s with
  | assign target value span => exact sentence_assign ih target value span
  | print value span => exact sentence_print ih value span
  | inspect value span => exact sentence_inspect ih value span
  | read type target span => exact sentence_read type target span
  | add value list span => exact sentence_add ih value list span
  | remove list index span => exact sentence_remove ih list index span
  | loop condition body span => exact sentence_loop ih condition body span
  | branch condition body alternative span =>
      exact sentence_branch ih condition body alternative span
  | forEach item list body span =>
      exact sentence_forEach ih item list body span
  | increment name span => exact sentence_increment name span
  | decrement name span => exact sentence_decrement name span
  | exit span => exact sentence_exit span
  | run call span => exact sentence_run ih call span
  | result value span => exact sentence_result ih value span

end Statements

theorem yields_statement (ih : ∀ k < n, ReadsBack w k) {s : Stmt}
    (hs : s.isWritable) (hfuel : 8 * ((s.write w).length + 1) ≤ n)
    (hends : Ends rest) (hc : c.kinds = s.write w ++ .symbol .dot :: rest) :
    Yields (statement n) c (·.bare = s.bare) rest := by
  obtain ⟨m, rfl⟩ : ∃ m, n = m + 2 := ⟨n - 2, by omega⟩
  apply yields_get
  apply (yields_sentence (fun k hk => ih k (by omega)) s c rest hs (by omega)
    hends hc).bind
  intro make c₁ hmake hc₁
  apply yields_get
  apply (yields_eatTerminator hc₁ hends.ne_nil).bind
  intro _ c₂ _ hc₂
  exact yields_pure (hmake _) hc₂

/-- Whatever the depth of calls, what is short enough for it is read back. -/
theorem readsBack (w : Wording) (n : Nat) : ReadsBack w n := by
  induction n using Nat.strongRecOn with
  | ind n ih => exact ⟨yields_binary ih, yields_statement ih⟩

end Parser

end Prose
