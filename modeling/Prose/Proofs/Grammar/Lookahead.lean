import Prose.Proofs.Grammar.Reading
import Prose.Proofs.Tree.Writing

/-!
Where expressions begin and end. An operator is known by its symbol or its
words whatever follows it; what follows a written expression is no operator,
although `to` and `is` begin some, because no expression begins with the word
that would have to come next.
-/

namespace Prose

open Cursor

/-! ### Where expressions and statements begin -/

theorem Name.isWord_of_isPlain {name : Name} (hname : name.isPlain)
    {word : String} (hword : word ∈ grammarWords) :
    name.isWord word = false := by
  simp only [isPlain, Bool.and_eq_true, List.all_eq_true] at hname
  simpa using hname.2 word hword

/-- A token that an expression can begin with. -/
structure Token.Kind.Opens (kind : Token.Kind) : Prop where
  isWord : ∀ word ∈ grammarWords, word ≠ "a" → kind.isWord word = false
  bracket : kind.sameClass (.symbol .closeBracket) = false

theorem Token.Kind.Opens.not_beginsWith {kind : Token.Kind}
    (hkind : kind.Opens) {word : String} (hword : word ∈ grammarWords)
    (hne : word ≠ "a") (words : List String) (rest : List Token.Kind) :
    beginsWith (word :: words) (kind :: rest) = false := by
  rw [beginsWith, hkind.isWord word hword hne, Bool.false_and]

theorem opens_of_isPlain {name : Name} (hname : name.isPlain) :
    (Token.Kind.word name).Opens where
  isWord := fun _ hword _ => Name.isWord_of_isPlain hname hword
  bracket := rfl

theorem Expr.write_opens (w : Wording) :
    ∀ e : Expr, e.isWritable false → ∃ kind kinds,
      e.write w = kind :: kinds ∧ kind.Opens
  | .integer value _, _ => by
      by_cases hvalue : value < 0
      · refine ⟨_, _, by rw [Expr.write, if_pos hvalue], ?_⟩
        exact ⟨fun _ _ _ => rfl, rfl⟩
      · refine ⟨_, _, by rw [Expr.write, if_neg hvalue], ?_⟩
        exact ⟨fun _ _ _ => rfl, rfl⟩
  | .real _ _, h => by cases h
  | .name _ _, h => ⟨_, _, by rw [Expr.write], opens_of_isPlain h⟩
  | .text _ _, _ => ⟨_, _, by rw [Expr.write], ⟨fun _ _ _ => rfl, rfl⟩⟩
  | .truth _ _, _ => ⟨_, _, by rw [Expr.write], ⟨fun _ _ _ => rfl, rfl⟩⟩
  | .list _ _, _ => ⟨_, _, by rw [Expr.write], ⟨fun _ _ _ => rfl, rfl⟩⟩
  | .function _ _ _, _ => by
      refine ⟨_, _, by rw [Expr.write], ⟨?_, rfl⟩⟩
      decide
  | .group _ _, _ => ⟨_, _, by rw [Expr.write], ⟨fun _ _ _ => rfl, rfl⟩⟩
  | .result _ _, h => by cases h
  | .binary op left right span, h => by
      simp only [Expr.isWritable, Bool.and_eq_true] at h
      obtain ⟨kind, kinds, hleft, hopens⟩ := left.write_opens w h.1.1.1
      refine ⟨kind, _, by rw [Expr.write, hleft, List.cons_append], hopens⟩

theorem eq_word_of_beginsWithWord {kinds : List Token.Kind}
    (h : beginsWithWord kinds = true) :
    ∃ name rest, kinds = .word name :: rest := by
  unfold beginsWithWord at h
  split at h
  · exact ⟨_, _, rfl⟩
  · cases h

/-- A statement begins with a word. -/
theorem Stmt.write_opens (w : Wording) (s : Stmt) :
    ∃ kind kinds, s.write w = kind :: kinds ∧
      ((∃ k, kind = .keyword k) ∨ ∃ name, kind = .word name) := by
  cases s with
  | assign target value span =>
      rw [Stmt.write]
      split
      · next h =>
          obtain ⟨name, kinds, hleft⟩ := eq_word_of_beginsWithWord h.2
          rw [hleft]
          exact ⟨_, _, rfl, .inr ⟨_, rfl⟩⟩
      · exact ⟨_, _, rfl, .inl ⟨_, rfl⟩⟩
  | inspect value span =>
      rw [Stmt.write]
      exact ⟨_, _, rfl, .inr ⟨_, rfl⟩⟩
  | result value span =>
      rw [Stmt.write]
      exact ⟨_, _, rfl, .inr ⟨_, rfl⟩⟩
  | _ =>
      rw [Stmt.write]
      exact ⟨_, _, rfl, .inl ⟨_, rfl⟩⟩

/-! ### Operators -/

theorem operator?_word {c : Cursor} {name : Name} {rest : List Token.Kind}
    (hc : c.kinds = .word name :: rest) (hends : Ends rest) :
    c.operator? =
      (Operator.spellings.find? fun s =>
        beginsWith s.1 (.word name :: rest)).map
          fun s => (s.2, s.1.length) := by
  have hat := isAtWords_eq (hc ▸ hends.cons (.word name))
  simp only [operator?, kind_of_kinds hc, hat, hc]

theorem Operator.write_mem (op : Operator) (choice : Nat) :
    op.write choice ∈ op.wordings := by
  have hpos : 0 < op.wordings.length := by
    cases op <;> decide
  have hlt := Nat.mod_lt choice hpos
  rw [write, List.getD_eq_getElem?_getD, List.getElem?_eq_getElem hlt]
  exact List.getElem_mem hlt

theorem operator?_symbol {op : Operator} {symbol : Symbol}
    (hsymbol : op.symbol? = some symbol) {c : Cursor}
    (hc : c.kind = .symbol symbol) : c.operator? = some (op, 1) := by
  cases op <;> cases hsymbol <;> rw [operator?, hc]

theorem operator?_spelling {spelling : List String × Operator}
    (hspelling : spelling ∈ Operator.spellings) {c : Cursor}
    {rest : List Token.Kind}
    (hc : c.kinds = spelling.1.map .ofWord ++ rest) (hends : Ends rest) :
    c.operator? = some (spelling.2, spelling.1.length) := by
  simp only [Operator.spellings, List.mem_cons, List.not_mem_nil, or_false]
    at hspelling
  rcases hspelling with rfl | rfl | rfl | rfl | rfl | rfl | rfl | rfl | rfl |
    rfl | rfl | rfl | rfl
  all_goals exact (operator?_word hc (hends.append _)).trans rfl

/-- An operator is known by what it is written with, whatever follows. -/
theorem operator?_write (op : Operator) (choice : Nat) {c : Cursor}
    {rest : List Token.Kind} (hc : c.kinds = op.write choice ++ rest)
    (hends : Ends rest) :
    c.operator? = some (op, (op.write choice).length) := by
  have hmem := op.write_mem choice
  generalize op.write choice = kinds at hmem hc ⊢
  simp only [Operator.wordings, List.mem_append, List.mem_map,
    Option.mem_toList, List.mem_filter, beq_iff_eq] at hmem
  rcases hmem with ⟨symbol, hsymbol, rfl⟩ | ⟨spelling, ⟨hmem, rfl⟩, rfl⟩
  · exact operator?_symbol hsymbol (kind_of_kinds hc)
  · rw [operator?_spelling hmem hc hends, List.length_map]

/-! ### The end of an expression -/

/-- No operator that binds as tightly as `least` stands before the tokens. -/
def StopsBefore (least : Nat) (rest : List Token.Kind) : Prop :=
  ∀ c : Cursor, c.kinds = rest → ∀ op length,
    c.operator? = some (op, length) → op.precedence < least

theorem StopsBefore.mono {least most : Nat} {rest : List Token.Kind}
    (h : StopsBefore least rest) (hle : least ≤ most) :
    StopsBefore most rest := by
  intro c hc op length hop
  exact Nat.lt_of_lt_of_le (h c hc op length hop) hle

theorem stopsBefore_of_none {rest : List Token.Kind}
    (h : ∀ c : Cursor, c.kinds = rest → c.operator? = none) (least : Nat) :
    StopsBefore least rest := by
  intro c hc op length hop
  rw [h c hc] at hop
  cases hop

/-- An operator ends an operand that binds more tightly. -/
theorem stopsBefore_write {op : Operator} {least : Nat}
    (hop : op.precedence < least) (choice : Nat) {rest : List Token.Kind}
    (hends : Ends rest) : StopsBefore least (op.write choice ++ rest) := by
  intro c hc found length hfound
  rw [operator?_write op choice hc hends] at hfound
  cases hfound
  exact hop

/-- Punctuation ends every expression. -/
theorem stopsBefore_symbol {symbol : Symbol}
    (hsymbol : symbol ∈ [.comma, .colon, .dot, .closeParen, .closeBracket])
    (least : Nat) (rest : List Token.Kind) :
    StopsBefore least (.symbol symbol :: rest) := by
  apply stopsBefore_of_none
  intro c hc
  rw [operator?, kind_of_kinds hc]
  simp only [List.mem_cons, List.not_mem_nil, or_false] at hsymbol
  rcases hsymbol with rfl | rfl | rfl | rfl | rfl <;> rfl

theorem stopsBefore_with (least : Nat) {rest : List Token.Kind}
    (hends : Ends rest) : StopsBefore least (.ofWord "with" :: rest) := by
  apply stopsBefore_of_none
  intro c hc
  exact (operator?_word hc hends).trans rfl

theorem not_beginsWith_second {first second : String} {words : List String}
    {kind next : Token.Kind} (hnext : next.isWord second = false)
    (rest : List Token.Kind) :
    beginsWith (first :: second :: words) (kind :: next :: rest) = false := by
  simp [beginsWith, hnext]

/-- The words `to` and `is` end an expression if another one follows. -/
theorem stopsBefore_opens {word : String} (hword : word = "to" ∨ word = "is")
    {kind : Token.Kind} (hkind : kind.Opens) (least : Nat)
    {rest : List Token.Kind} (hends : Ends rest) :
    StopsBefore least (.ofWord word :: kind :: rest) := by
  have hnone : ∀ s ∈ Operator.spellings,
      beginsWith s.1 (.ofWord word :: kind :: rest) = false := by
    have hsecond := fun word hmem hne => hkind.isWord word hmem hne
    intro s hs
    simp only [Operator.spellings, List.mem_cons, List.not_mem_nil, or_false]
      at hs
    -- A spelling either begins with another word or goes on with a word that
    -- no expression begins with.
    rcases hword with rfl | rfl
    all_goals
      rcases hs with rfl | rfl | rfl | rfl | rfl | rfl | rfl | rfl | rfl |
        rfl | rfl | rfl | rfl
      all_goals first
        | rfl
        | exact not_beginsWith_second (hsecond _ (by decide) (by decide)) rest
  apply stopsBefore_of_none
  intro c hc
  rw [Token.Kind.ofWord] at hnone hc
  rw [operator?_word hc (hends.cons kind), List.find?_eq_none.2 ?_]
  · rfl
  · intro s hs
    rw [hnone s hs]
    exact Bool.false_ne_true

end Prose
