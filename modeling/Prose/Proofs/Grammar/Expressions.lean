import Prose.Proofs.Grammar.Clauses

/-!
Reading back expressions. An operand is read back whatever follows it. An
expression with operators is read from its leftmost operand on, one operator
and one right operand after the other; the precedences of the operands see to
it that each operand ends where it was written to end.
-/

namespace Prose

theorem Expr.isWritable_of_grouped {e : Expr} (he : e.isWritable true)
    (hresult : ∀ call span, e ≠ .result call span) : e.isWritable false := by
  cases e with
  | result call span => exact absurd rfl (hresult call span)
  | integer value span => exact he
  | real value span => exact he
  | name name span => exact he
  | text value span => exact he
  | truth value span => exact he
  | list items span => exact he
  | function params body span => exact he
  | group inner span => exact he
  | binary op left right span => exact he

/-- Number of operators on the left edge of an expression. -/
def Expr.spine : Expr → Nat
  | .binary _ left _ _ => left.spine + 1
  | _ => 0

/-- The least precedence an operator after an expression must not have, for the
expression to end there. -/
def Expr.edge : Expr → Nat
  | .binary op _ _ _ => op.rightPrecedence
  | _ => Operator.atPosition.rightPrecedence

theorem Operator.precedence_le_rightPrecedence (op : Operator) :
    op.precedence ≤ op.rightPrecedence := by
  cases op <;> decide

theorem Operator.precedence_le_leftPrecedence (op : Operator) :
    op.precedence ≤ op.leftPrecedence := by
  cases op <;> decide

theorem Operator.precedence_lt_operand (op : Operator) :
    op.precedence < atPosition.rightPrecedence := by
  cases op <;> decide

/-- An operator that may follow another's right operand ends it. -/
theorem Operator.precedence_lt_rightPrecedence {op inner : Operator}
    (h : op.leftPrecedence ≤ inner.precedence) :
    op.precedence < inner.rightPrecedence := by
  revert h
  cases op <;> cases inner <;> decide

theorem Expr.level_le_edge (e : Expr) : e.level ≤ e.edge := by
  cases e with
  | binary op left right span => exact op.precedence_le_rightPrecedence
  | _ => exact Nat.le_refl _

theorem Expr.precedence_lt_edge {op : Operator} {left : Expr}
    (hlevel : op.leftPrecedence ≤ left.level) :
    op.precedence < left.edge := by
  cases left with
  | binary inner left right span =>
      exact Operator.precedence_lt_rightPrecedence hlevel
  | _ => exact op.precedence_lt_operand

theorem Operator.length_write_pos (op : Operator) (choice : Nat) :
    0 < (op.write choice).length := by
  have hpos : ∀ kinds ∈ op.wordings, 0 < kinds.length := by
    cases op <;> decide
  exact hpos _ (op.write_mem choice)

theorem Expr.spine_lt_length (w : Wording) :
    ∀ e : Expr, e.isWritable false → e.spine < (e.write w).length
  | .binary op left right span, he => by
      simp only [Expr.isWritable, Bool.and_eq_true] at he
      have hleft := left.spine_lt_length w he.1.1.1
      have hop := op.length_write_pos (w span)
      simp only [Expr.spine, Expr.write, List.length_append]
      omega
  | .integer _ _, he | .real _ _, he | .name _ _, he | .text _ _, he
  | .truth _ _, he | .list _ _, he | .function _ _ _, he | .group _ _, he
  | .result _ _, he => by
      obtain ⟨kind, kinds, hwrite, -⟩ := Expr.write_opens w _ he
      rw [hwrite]
      exact Nat.succ_pos _

namespace Parser

variable {c : Cursor} {rest : List Token.Kind} {w : Wording} {n : Nat}

/-! ### Operands -/

/-- An operand is read back by calls `n` deep, whatever follows it. -/
def ReadsOperand (w : Wording) (n : Nat) (e : Expr) : Prop :=
  ∀ (c : Cursor) (rest : List Token.Kind), e.isWritable false →
    8 * (e.write w).length ≤ n + 2 → Ends rest →
    c.kinds = e.write w ++ rest →
    Yields (primary (n + 1)) c (·.bare = e.bare) rest

section Operands

/-- A token that is an operand by itself. -/
theorem yields_token {kind : Token.Kind} {e : Expr} {result : Expr → Prop}
    (hc : c.kinds = kind :: rest) (hends : Ends rest) (he : result e) :
    Yields (do
      let _ ← advance
      return e) c result rest := by
  apply (yields_advance hc hends.ne_nil).bind
  intro token c₁ _ hc₁
  exact yields_pure he hc₁

theorem operand_integer (value : Int64) (span : Span) :
    ReadsOperand w n (.integer value span) := by
  intro c rest he hfuel hends hc
  apply yields_get
  by_cases hvalue : value < 0
  · rw [Expr.write, if_pos hvalue, List.cons_append, List.cons_append,
      List.nil_append] at hc
    simp only [Cursor.kind_of_kinds hc]
    apply (yields_advance hc (hends.cons _).ne_nil).bind
    intro minus c₁ _ hc₁
    apply yields_get
    simp only [Cursor.kind_of_kinds hc₁]
    apply (yields_advance hc₁ hends.ne_nil).bind
    intro token c₂ _ hc₂
    refine yields_pure ?_ hc₂
    rw [Expr.bare, Expr.bare, Int64.neg_neg]
  · rw [Expr.write, if_neg hvalue, List.cons_append, List.nil_append] at hc
    simp only [Cursor.kind_of_kinds hc]
    apply yields_token hc hends
    rw [Expr.bare, Expr.bare]

theorem operand_text (value : String) (span : Span) :
    ReadsOperand w n (.text value span) := by
  intro c rest he hfuel hends hc
  rw [Expr.write, List.cons_append, List.nil_append] at hc
  apply yields_get
  simp only [Cursor.kind_of_kinds hc]
  apply yields_token hc hends
  rw [Expr.bare, Expr.bare]

theorem operand_truth (value : Bool) (span : Span) :
    ReadsOperand w n (.truth value span) := by
  intro c rest he hfuel hends hc
  rw [Expr.write, List.cons_append, List.nil_append] at hc
  apply yields_get
  cases value with
  | true =>
      simp only [Cursor.kind_of_kinds hc, if_true]
      apply yields_token hc hends
      rw [Expr.bare, Expr.bare]
  | false =>
      simp only [Cursor.kind_of_kinds hc, Bool.false_eq_true, if_false]
      apply yields_token hc hends
      rw [Expr.bare, Expr.bare]

theorem not_beginsWith_plain {name : Name} (hname : name.isPlain)
    {word : String} (hword : word ∈ grammarWords) (words : List String) :
    Cursor.beginsWith (word :: words) (.word name :: rest) = false := by
  have hfirst : (Token.Kind.word name).isWord word = false :=
    Name.isWord_of_isPlain hname hword
  rw [Cursor.beginsWith, hfirst, Bool.false_and]

theorem operand_name (name : Name) (span : Span) :
    ReadsOperand w n (.name name span) := by
  intro c rest he hfuel hends hc
  rw [Expr.isWritable] at he
  rw [Expr.write, List.cons_append, List.nil_append] at hc
  apply yields_get
  simp only [Cursor.kind_of_kinds hc]
  apply (yields_not_eatWords hc (hends.cons _)
    (not_beginsWith_plain he (by decide) _)).bind
  rintro _ c₁ rfl hc₁
  apply (yields_not_eatWords hc₁ (hends.cons _)
    (not_beginsWith_plain he (by decide) _)).bind
  rintro _ c₂ rfl hc₂
  apply (yields_not_eatWords hc₂ (hends.cons _)
    (not_beginsWith_plain he (by decide) _)).bind
  rintro _ c₃ rfl hc₃
  apply yields_token hc₃ hends
  rw [Expr.bare, Expr.bare]

/-- Where no operator follows, an expression is complete. -/
theorem yields_operators {least : Nat} (left : Expr)
    (hstops : StopsBefore least rest) (hc : c.kinds = rest) :
    Yields (operators (n + 1) least left) c (· = left) rest := by
  apply yields_get
  cases hop : c.operator? with
  | none => exact yields_pure rfl hc
  | some found =>
      obtain ⟨op, length⟩ := found
      have hlt := hstops c hc op length hop
      simp only [hlt, if_true]
      exact yields_pure rfl hc

variable (ih : ∀ k < n + 1, ReadsBack w k)
include ih

theorem operand_list (items : List Expr) (span : Span) :
    ReadsOperand w n (.list items span) := by
  intro c rest he hfuel hends hc
  rw [Expr.isWritable] at he
  simp only [Expr.write, List.cons_append, List.append_assoc, List.nil_append,
    List.length_cons, List.length_append, List.length_nil] at hc hfuel
  apply yields_get
  simp only [Cursor.kind_of_kinds hc]
  apply (yields_advance hc ((hends.cons _).append _).ne_nil).bind
  intro token c₁ _ hc₁
  apply yields_get
  cases items with
  | nil =>
      rw [writeItems, List.nil_append] at hc₁
      have hat : c₁.isAt (.symbol .closeBracket) = true := by
        rw [Cursor.isAt, Cursor.kind_of_kinds hc₁]
        rfl
      rw [if_pos hat]
      apply (yields_expect hc₁ rfl hends.ne_nil).bind
      intro stop c₂ _ hc₂
      exact yields_pure (by rw [Expr.bare, Expr.bare]) hc₂
  | cons first items =>
      simp only [areWritableItems, Bool.and_eq_true] at he
      simp only [writeItems, List.nil_append, List.append_assoc,
        List.length_append] at hc₁ hfuel
      obtain ⟨kind, kinds, hwrite, hopens⟩ := first.write_opens w he.1
      have hat : c₁.isAt (.symbol .closeBracket) = false := by
        rw [hwrite, List.cons_append] at hc₁
        rw [Cursor.isAt, Cursor.kind_of_kinds hc₁, hopens.bracket]
      have hends' : Ends (writeItems w [.symbol .comma] items ++
          .symbol .closeBracket :: rest) := (hends.cons _).append _
      simp only [hat, Bool.false_eq_true, if_false]
      apply ((ih n (by omega)).expr he.1 (one_le_level first) (by omega)
        hends' (stopsBefore_items items rest) hc₁).bind
      intro found c₂ hfound hc₂
      apply (yields_moreItems ih items (by omega) he.2 (by omega) hends
        hc₂).bind
      intro all c₃ hall hc₃
      apply (yields_expect hc₃ rfl hends.ne_nil).bind
      intro stop c₄ _ hc₄
      refine yields_pure ?_ hc₄
      rw [Expr.bare, Expr.bare, bareItems_eq_map, bareItems_eq_map, hall]
      simp [hfound]

theorem operand_function (params : List Name) (body : Block) (span : Span) :
    ReadsOperand w n (.function params body span) := by
  intro c rest he hfuel hends hc
  simp only [Expr.isWritable, Bool.and_eq_true] at he
  simp only [Expr.write, List.cons_append, List.append_assoc,
    List.length_cons, List.length_append] at hc hfuel
  have hends' : Ends (writeNames [.ofWord "given"] params ++
      .symbol .colon :: .newline :: (body.write w ++ rest)) :=
    (((hends.append _).cons _).cons _).append _
  have hkinds : c.kinds = [.ofWord "a", .ofWord "function"] ++
      (writeNames [.ofWord "given"] params ++
        .symbol .colon :: .newline :: (body.write w ++ rest)) := hc
  apply yields_get
  simp only [Cursor.kind_of_kinds hc, Token.Kind.ofWord]
  apply (yields_eatWords hkinds hends' rfl rfl).bind
  rintro _ c₁ rfl hc₁
  apply (yields_parameters params ((hends.append _).cons _) hc₁).bind
  rintro _ c₂ rfl hc₂
  apply (yields_expect hc₂ rfl ((hends.append _).cons _).ne_nil).bind
  intro _ c₃ _ hc₃
  apply (yields_toBlock hc₃).bind
  intro _ c₄ _ hc₄
  apply (yields_block ih (by omega) he.2 (by omega) hends hc₄).bind
  intro found c₅ hfound hc₅
  refine yields_pure ?_ hc₅
  rw [Expr.bare, Expr.bare, hfound]

theorem yields_result {call : Call} {span : Span}
    (hcall : call.isWritable)
    (hlevel : Operator.atPosition.precedence ≤ call.callee.level)
    (hfuel : 8 * (call.write w).length < n) (hends : Ends rest)
    (hc : c.kinds =
      (Expr.result call span).write w ++ .symbol .closeParen :: rest) :
    Yields (primary (n + 1)) c (·.bare = (Expr.result call span).bare)
      (.symbol .closeParen :: rest) := by
  obtain ⟨m, rfl⟩ := Nat.exists_eq_add_one_of_ne_zero (by omega : n ≠ 0)
  simp only [Expr.write, List.cons_append] at hc
  have hends' : Ends (call.write w ++ .symbol .closeParen :: rest) :=
    (hends.cons _).append _
  apply yields_get
  simp only [Cursor.kind_of_kinds hc, Token.Kind.ofWord]
  apply (yields_not_eatWords hc (((hends'.cons _).cons _).cons _) rfl).bind
  rintro _ c₁ rfl hc₁
  have hkinds : c₁.kinds =
      [.ofWord "the", .ofWord "result", .ofWord "of"] ++
        (call.write w ++ .symbol .closeParen :: rest) := hc₁
  apply (yields_eatWords hkinds hends' rfl rfl).bind
  rintro _ c₂ rfl hc₂
  apply (yields_call ih (.inr rfl) (by omega) hcall hlevel (by omega) hends
    hc₂).bind
  intro found c₃ hfound hc₃
  refine yields_pure ?_ hc₃
  rw [Expr.bare, Expr.bare, hfound]

theorem yields_grouped {inner : Expr} (hinner : inner.isWritable true)
    (hfuel : 8 * ((inner.write w).length + 1) ≤ n) (hends : Ends rest)
    (hc : c.kinds = inner.write w ++ .symbol .closeParen :: rest) :
    Yields (binary n 1) c (·.bare = inner.bare)
      (.symbol .closeParen :: rest) := by
  have hstops : StopsBefore 1 (.symbol .closeParen :: rest) :=
    stopsBefore_symbol (by decide) 1 rest
  by_cases hresult : ∃ call span, inner = .result call span
  · obtain ⟨call, span, rfl⟩ := hresult
    simp only [Expr.isWritable, Bool.true_and, Bool.and_eq_true,
      decide_eq_true_eq] at hinner
    have hlength : ((Expr.result call span).write w).length =
        (call.write w).length + 3 := by
      rw [Expr.write]
      rfl
    obtain ⟨m, rfl⟩ : ∃ m, n = m + 2 := ⟨n - 2, by omega⟩
    apply (yields_result (fun k hk => ih k (by omega)) hinner.1
      hinner.2 (by omega) hends hc).bind
    intro found c₁ hfound hc₁
    apply (yields_operators found hstops hc₁).mono
    rintro _ rfl
    exact hfound
  · have hplain := Expr.isWritable_of_grouped hinner fun call span heq =>
      hresult ⟨call, span, heq⟩
    exact (ih n (by omega)).expr hplain (one_le_level inner) (by omega)
      (hends.cons _) hstops hc

theorem operand_group (inner : Expr) (span : Span) :
    ReadsOperand w n (.group inner span) := by
  intro c rest he hfuel hends hc
  rw [Expr.isWritable] at he
  simp only [Expr.write, List.cons_append, List.append_assoc, List.nil_append,
    List.length_cons, List.length_append, List.length_nil] at hc hfuel
  apply yields_get
  simp only [Cursor.kind_of_kinds hc]
  apply (yields_advance hc ((hends.cons _).append _).ne_nil).bind
  intro token c₁ _ hc₁
  apply (yields_grouped ih he (by omega) hends hc₁).bind
  intro found c₂ hfound hc₂
  apply (yields_expect hc₂ rfl hends.ne_nil).bind
  intro stop c₃ _ hc₃
  refine yields_pure ?_ hc₃
  rw [Expr.bare, Expr.bare, hfound]

end Operands

/-! ### Operators -/

/-- An operand is read back whatever follows it. -/
theorem yields_primary {m : Nat} (ih : ∀ k < m, ReadsBack w k) {e : Expr}
    (he : e.isWritable false) (hspine : e.spine = 0)
    (hfuel : 8 * (e.write w).length ≤ m + 1) (hends : Ends rest)
    (hc : c.kinds = e.write w ++ rest) :
    Yields (primary m) c (·.bare = e.bare) rest := by
  obtain ⟨kind, kinds, hwrite, -⟩ := e.write_opens w he
  have hpos : 0 < (e.write w).length := by simp [hwrite]
  obtain ⟨n, rfl⟩ := Nat.exists_eq_add_one_of_ne_zero (by omega : m ≠ 0)
  cases e with
  | integer value span =>
      exact operand_integer value span c rest he hfuel hends hc
  | real value span => cases he
  | name name span => exact operand_name name span c rest he hfuel hends hc
  | text value span => exact operand_text value span c rest he hfuel hends hc
  | truth value span => exact operand_truth value span c rest he hfuel hends hc
  | list items span => exact operand_list ih items span c rest he hfuel hends hc
  | function params body span =>
      exact operand_function ih params body span c rest he hfuel hends hc
  | group inner span =>
      exact operand_group ih inner span c rest he hfuel hends hc
  | result call span => cases he
  | binary op left right span => cases hspine

theorem yields_operator (ih : ∀ k < n, ReadsBack w k) {m least choice : Nat}
    (hm : m < n) {op : Operator} {left right : Expr}
    (hop : least ≤ op.precedence) (hright : right.isWritable false)
    (hlevel : op.rightPrecedence ≤ right.level)
    (hfuel : 8 * (right.write w).length ≤ m) (hends : Ends rest)
    (hstops : StopsBefore op.rightPrecedence rest)
    (hc : c.kinds = op.write choice ++ (right.write w ++ rest))
    {result : Expr → Prop} {after : List Token.Kind}
    (hnext : ∀ found span c', found.bare = right.bare → c'.kinds = rest →
      Yields (operators m least (.binary op left found span)) c' result
        after) :
    Yields (operators (m + 1) least left) c result after := by
  have hends' := hends.append (right.write w)
  have hfound := operator?_write op choice hc hends'
  apply yields_get
  simp only [hfound, if_neg (Nat.not_lt.2 hop)]
  apply yields_modify
  apply ((ih m hm).expr hright hlevel hfuel hends hstops
    (Cursor.kinds_advanceBy hends'.ne_nil hc)).bind
  intro found c₁ hbare hc₁
  exact hnext found _ c₁ hbare hc₁

/-- Reading an expression comes to looking for operators after it. -/
theorem yields_climb (ih : ∀ k < n, ReadsBack w k) {d : Nat} {e : Expr}
    (hspine : e.spine = d) (he : e.isWritable false) {least m : Nat}
    (hn : m + 1 + d = n) (hfuel : 8 * (e.write w).length ≤ n)
    (hlevel : least ≤ e.level) (hends : Ends rest)
    (hstops : StopsBefore e.edge rest) (hc : c.kinds = e.write w ++ rest)
    {result : Expr → Prop} {after : List Token.Kind}
    (hnext : ∀ found c', found.bare = e.bare → c'.kinds = rest →
      Yields (operators m least found) c' result after) :
    Yields (binary n least) c result after := by
  -- On the operators of the left edge: each is found where the expression to
  -- its left ends.
  induction d generalizing e m rest with
  | zero =>
      subst hn
      apply (yields_primary (fun k hk => ih k (by omega)) he hspine hfuel
        hends hc).bind
      intro found c₁ hfound hc₁
      exact hnext found c₁ hfound hc₁
  | succ d ihSpine =>
      cases e with
      | binary op left right span =>
          have hlength := left.spine_lt_length w
          have hchoice := op.length_write_pos (w span)
          simp only [Expr.isWritable, Bool.and_eq_true, decide_eq_true_eq]
            at he
          obtain ⟨⟨⟨hleft, hright⟩, hleftLevel⟩, hrightLevel⟩ := he
          simp only [Expr.spine, Nat.add_right_cancel_iff] at hspine
          simp only [Expr.write, List.append_assoc, List.length_append]
            at hc hfuel
          have hle := op.precedence_le_leftPrecedence
          have hends' : Ends (op.write (w span) ++
              (right.write w ++ rest)) := (hends.append _).append _
          refine ihSpine hspine hleft (m := m + 1) (by omega) (by omega) ?_
            hends' ?_ hc ?_
          · exact Nat.le_trans hlevel (Nat.le_trans hle hleftLevel)
          · exact stopsBefore_write (Expr.precedence_lt_edge hleftLevel) _
              (hends.append _)
          · intro found c₁ hfound hc₁
            have hshort := hlength hleft
            refine yields_operator ih (by omega) hlevel hright hrightLevel
              (by omega) hends hstops hc₁ ?_
            intro found' span' c₂ hfound' hc₂
            apply hnext _ c₂ _ hc₂
            rw [Expr.bare, Expr.bare, hfound, hfound']
      | _ => cases hspine

/-- Written expressions are read back, given calls one level less deep. -/
theorem yields_binary (ih : ∀ k < n, ReadsBack w k) {e : Expr} {least : Nat}
    (he : e.isWritable false) (hlevel : least ≤ e.level)
    (hfuel : 8 * (e.write w).length ≤ n) (hends : Ends rest)
    (hstops : StopsBefore least rest) (hc : c.kinds = e.write w ++ rest) :
    Yields (binary n least) c (·.bare = e.bare) rest := by
  have hlength := e.spine_lt_length w he
  obtain ⟨m, hm⟩ : ∃ m, m + 1 + 1 + e.spine = n :=
    ⟨n - e.spine - 2, by omega⟩
  refine yields_climb ih rfl he hm hfuel hlevel hends
    (hstops.mono (Nat.le_trans hlevel e.level_le_edge)) hc ?_
  intro found c₁ hfound hc₁
  apply (yields_operators found hstops hc₁).mono
  rintro _ rfl
  exact hfound

end Parser

end Prose
