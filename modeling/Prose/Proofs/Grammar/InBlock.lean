import Mathlib.Data.List.Chain
import Prose.Proofs.Grammar.Agreement
import Prose.Proofs.Grammar.RoundTrip
import Prose.Proofs.Layout.Nesting
import Prose.Proofs.Token.Readings

/-!
Statements in a block. What is read as a statement on its own is read as the
same statement in a block, where other statements stand before and after it. The
one thing to fear is that a statement is led on into the next one. A newline
prevents that; but there is none after the end of a block, and a name that is
spelled like an operator, `with` or `and` is then taken for that word.
-/

namespace Prose

open Layout Lexer Cursor Prose.Parser

/-! ### The tokens of a statement in a block -/

namespace Layout.Statement

/-- The kinds of the tokens of a statement in a block. -/
def kindsInBlock (s : Statement) : List Token.Kind :=
  (readings s.textInBlock).map kindOf

/-- Whether a statement in a block ends where a block inside it does. -/
def endsBlock (s : Statement) : Bool :=
  s.textInBlock.getLast? == some dedentMark

/-- Whether a statement begins with words that can go on with an expression, a
call or a list. -/
def goesOn (s : Statement) : Bool :=
  continuations.any fun words =>
    beginsWith words ((lex s.text).tokens.map (·.kind))

theorem readings_textInBlock (s : Statement) :
    readings s.textInBlock = readings s.text ∨
      readings s.textInBlock = readings s.text ++ [.ok .newline] := by
  rw [textInBlock]
  split
  · exact .inr (by rw [readings_append_newline, readings_nil])
  · exact .inl rfl

theorem kindsInBlock_eq (s : Statement) :
    s.kindsInBlock = (readings s.text).map kindOf ∨
      s.kindsInBlock = (readings s.text).map kindOf ++ [.newline] := by
  rcases s.readings_textInBlock with heq | heq
  · exact .inl (by rw [kindsInBlock, heq])
  · refine .inr ?_
    rw [kindsInBlock, heq, List.map_append]
    rfl

theorem length_readings_le (s : Statement) :
    (readings s.text).length ≤ s.kindsInBlock.length := by
  rcases s.kindsInBlock_eq with heq | heq <;> rw [heq]
  · rw [List.length_map]
  · rw [List.length_append, List.length_map]
    exact Nat.le_add_right _ _

/-- In a block a statement ends in a newline or with a block. -/
theorem kindsInBlock_ends {s : Statement} (h : EndsLine s.textInBlock) :
    (∃ front, s.kindsInBlock = front ++ [.newline]) ∨
      s.endsBlock = true ∧ s.kindsInBlock.getLast? = some .dedent := by
  obtain ⟨front, n, htext⟩ := h
  have hdedents := readings_dedents n []
  rw [List.append_nil, readings_nil, List.append_nil] at hdedents
  have hkinds : s.kindsInBlock = (readings front).map kindOf ++
      .newline :: List.replicate n .dedent := by
    rw [kindsInBlock, htext, readings_append_newline, hdedents,
      List.map_append, List.map_cons, List.map_replicate]
    rfl
  cases n with
  | zero => exact .inl ⟨_, hkinds⟩
  | succ n =>
      refine .inr ⟨?_, ?_⟩
      · rw [endsBlock, htext, List.replicate_succ', ← List.cons_append,
          ← List.append_assoc, List.getLast?_concat]
        rfl
      · rw [hkinds, List.replicate_succ', ← List.cons_append,
          ← List.append_assoc, List.getLast?_concat]

end Layout.Statement

/-- Words are not looked for behind a token that is no word. -/
theorem beginsWith_of_no_word {k l : Token.Kind} (hk : ∀ name, k ≠ .word name)
    (hl : ∀ name, l ≠ .word name) (words : List String)
    (kinds rest rest' : List Token.Kind) :
    beginsWith words (kinds ++ k :: rest) =
      beginsWith words (kinds ++ l :: rest') := by
  have hword : ∀ {kind : Token.Kind}, (∀ name, kind ≠ .word name) →
      ∀ word, kind.isWord word = false := by
    intro kind hkind word
    cases kind with
    | word name => exact absurd rfl (hkind name)
    | _ => rfl
  induction kinds generalizing words with
  | nil =>
      cases words with
      | nil => rw [beginsWith, beginsWith]
      | cons word words =>
          rw [List.nil_append, List.nil_append, beginsWith, beginsWith,
            hword hk, hword hl]
          rfl
  | cons kind kinds ih =>
      cases words with
      | nil => rw [beginsWith, beginsWith]
      | cons word words =>
          rw [List.cons_append, List.cons_append, beginsWith, beginsWith, ih]

/-- Tokens are some that do not end in a newline, and newlines. -/
theorem exists_solid (kinds : List Token.Kind) :
    ∃ solid n, kinds = solid ++ List.replicate n .newline ∧
      solid.getLast? ≠ some .newline := by
  induction kinds using List.reverseRecOn with
  | nil => exact ⟨[], 0, rfl, nofun⟩
  | append_singleton kinds kind ih =>
      by_cases hkind : kind = .newline
      · obtain ⟨solid, n, rfl, hsolid⟩ := ih
        refine ⟨solid, n + 1, ?_, hsolid⟩
        rw [hkind, List.append_assoc, List.replicate_succ']
      · refine ⟨kinds ++ [kind], 0, (List.append_nil _).symm, ?_⟩
        rw [List.getLast?_concat]
        exact fun heq => hkind (Option.some.inj heq)

/-- Tokens are newlines, and perhaps some that do not begin with one. -/
theorem exists_leading (kinds : List Token.Kind) :
    (∃ n, kinds = List.replicate n .newline) ∨
      ∃ n kind rest, kinds = List.replicate n .newline ++ kind :: rest ∧
        kind ≠ .newline := by
  induction kinds with
  | nil => exact .inl ⟨0, rfl⟩
  | cons kind kinds ih =>
      by_cases hkind : kind = .newline
      · subst hkind
        rcases ih with ⟨n, rfl⟩ | ⟨n, next, rest, rfl, hnext⟩
        · exact .inl ⟨n + 1, rfl⟩
        · exact .inr ⟨n + 1, next, rest, rfl, hnext⟩
      · exact .inr ⟨0, kind, kinds, rfl, hkind⟩

/-! ### A statement on its own -/

theorem Parser.bind_eq_ok {α β : Type} {p : Parser α} {f : α → Parser β}
    {c : Cursor} {result : β × Cursor} (h : (p >>= f) c = .ok result) :
    ∃ a c', p c = .ok (a, c') ∧ f a c' = .ok result := by
  change (p c).bind _ = _ at h
  cases hp : p c with
  | error e =>
      rw [hp] at h
      cases h
  | ok first =>
      rw [hp] at h
      exact ⟨first.1, first.2, rfl, h⟩

/-- A statement begins with a keyword or a plain word. -/
theorem Parser.follows_of_statement {n : Nat} {c : Cursor}
    {result : Stmt × Cursor} (h : statement n c = .ok result) :
    c.kind.Follows ∧ c.kind ≠ .dedent := by
  cases n with
  | zero =>
      rw [statement] at h
      cases h
  | succ n =>
      rw [statement, Comparison.get_bind_apply] at h
      obtain ⟨make, c', hsentence, -⟩ := bind_eq_ok h
      cases n with
      | zero =>
          rw [sentence] at hsentence
          cases hsentence
      | succ n =>
          rw [sentence, Comparison.get_bind_apply] at hsentence
          cases hkind : c.kind with
          | word name =>
              refine ⟨.word name, ?_⟩
              intro heq
              cases heq
          | keyword k =>
              cases k with
              | otherwise =>
                  rw [hkind] at hsentence
                  cases hsentence
              | _ =>
                  refine ⟨.keyword ?_, ?_⟩ <;>
                  · intro heq
                    cases heq
          | _ =>
              rw [hkind] at hsentence
              cases hsentence

/-- The run of the parser that reads a statement from its text. -/
theorem parseText_ok {text : List Char} {stmt : Stmt}
    (h : parseText text = .ok stmt) :
    (lex text).errors = [] ∧ ∃ c c' : Cursor,
      c.kinds = (readings text).map kindOf ++ [.finish] ∧
      statement (depthBound ((readings text).length + 1)) c.skipNewlines =
        .ok (stmt, c') ∧
      c'.skipNewlines.kind = .finish := by
  have hkinds := kinds_lex text
  rw [parseText] at h
  cases herrors : (lex text).errors with
  | cons e errors =>
      rw [herrors] at h
      cases h
  | nil =>
      rw [herrors] at h
      refine ⟨rfl, ?_⟩
      generalize (lex text).tokens = tokens at h hkinds
      cases tokens with
      | nil => cases h
      | cons first rest =>
          have hlength := congrArg List.length hkinds
          rw [List.length_map, List.length_append, List.length_map,
            List.length_singleton] at hlength
          rw [parseStatement, runOn, hlength] at h
          change (completeStatement _ _).map _ = _ at h
          obtain ⟨⟨found, last⟩, hrun, rfl⟩ := map_eq_ok h
          rw [completeStatement, Comparison.skipNewlines_bind_apply] at hrun
          obtain ⟨found, c', hstatement, hrest⟩ := bind_eq_ok hrun
          obtain ⟨_, c'', hfinish, hpure⟩ := bind_eq_ok hrest
          cases hpure
          refine ⟨⟨[], first, rest⟩, c', hkinds, hstatement, ?_⟩
          rw [finish, Comparison.skipNewlines_bind_apply,
            Comparison.get_bind_apply] at hfinish
          cases hend : c'.skipNewlines.atEnd with
          | false =>
              rw [hend] at hfinish
              cases hfinish
          | true =>
              rw [atEnd] at hend
              generalize c'.skipNewlines.kind = kind at hend
              cases kind with
              | finish => rfl
              | _ => cases hend

/-- A statement on its own has newlines, if any, before its first token. -/
theorem follows_of_parseText {text : List Char} {stmt : Stmt}
    (h : parseText text = .ok stmt) :
    ∃ n kind rest, kind.Follows ∧
      (readings text).map kindOf = List.replicate n .newline ++ kind :: rest := by
  obtain ⟨-, c, c', hc, hstatement, -⟩ := parseText_ok h
  obtain ⟨hfollows, -⟩ := follows_of_statement hstatement
  rcases exists_leading ((readings text).map kindOf) with
    ⟨n, hall⟩ | ⟨n, kind, rest, hsplit, hkind⟩
  · rw [hall] at hc
    rw [kind_of_kinds (kinds_skipNewlines (by simp) hc)] at hfollows
    cases hfollows
  · rw [hsplit, List.append_assoc, List.cons_append] at hc
    rw [kind_of_kinds (kinds_skipNewlines hkind hc)] at hfollows
    exact ⟨n, kind, rest, hfollows, hsplit⟩

/-! ### The same statement in a block -/

/-- What can come after a statement in a block. -/
structure MayFollow (s : Statement) (next : List Token.Kind) : Prop where
  follows : ∃ n kind rest, kind.Follows ∧
    next = List.replicate n .newline ++ kind :: rest
  stops : s.endsBlock = true →
    ∀ words ∈ continuations, beginsWith words next = false

theorem forall₂_alike_of_kinds {S T : List Token}
    (h : S.map (·.kind) = T.map (·.kind)) :
    List.Forall₂ (Token.Alike .spanless) S T := by
  rw [← List.forall₂_eq_eq_eq, List.forall₂_map_left_iff,
    List.forall₂_map_right_iff] at h
  refine h.imp ?_
  intro s t hkind
  exact ⟨hkind ▸ .same _, rfl⟩

theorem ne_nil_of_mem_continuations {words : List String}
    (h : words ∈ continuations) : words ≠ [] := by
  revert words
  decide

/-- On its own and in a block, the cursors at a statement have its tokens in
common. -/
theorem near_in_block {s : Statement} (hends : EndsLine s.textInBlock)
    {c d : Cursor} {next : List Token.Kind}
    (hc : c.kinds = (readings s.text).map kindOf ++ [.finish])
    (hd : d.kinds = s.kindsInBlock ++ next) (hfinish : Ends next)
    (hnext : MayFollow s next) :
    ∃ κ : Comparison, κ.ρ = .spanless ∧ κ.here ≠ [] ∧ κ.Near false c d ∧
      ∃ n, κ.there.map (·.kind) = List.replicate n .newline ++ next := by
  obtain ⟨solid, n, hkinds, hsolid⟩ := exists_solid ((readings s.text).map kindOf)
  -- In a block there is perhaps one newline more.
  obtain ⟨m, hblock⟩ : ∃ m,
      s.kindsInBlock = solid ++ List.replicate m .newline := by
    rcases s.kindsInBlock_eq with heq | heq
    · exact ⟨n, by rw [heq, hkinds]⟩
    · refine ⟨n + 1, ?_⟩
      rw [heq, hkinds, List.append_assoc, List.replicate_succ']
  have hendsLeft : Ends c.kinds := by
    rw [hc]
    exact List.getLast?_concat
  have hendsRight : Ends d.kinds := by
    rw [hd]
    exact hfinish.append _
  have hlast : m = 0 → s.endsBlock = true ∧ solid.getLast? = some .dedent := by
    rintro rfl
    rw [List.replicate_zero, List.append_nil] at hblock
    rcases s.kindsInBlock_ends hends with ⟨front, hfront⟩ | hdedent
    · rw [← hblock, hfront, List.getLast?_concat] at hsolid
      exact absurd rfl hsolid
    · rwa [hblock] at hdedent
  obtain ⟨S, here, hleft, hS, hhere⟩ : ∃ S here,
      c.current :: c.ahead = S ++ here ∧ S.map (·.kind) = solid ∧
        here.map (·.kind) = List.replicate n .newline ++ [.finish] := by
    rw [hkinds, List.append_assoc] at hc
    exact List.map_eq_append_iff.1 hc
  obtain ⟨T, there, hright, hT, hthere⟩ : ∃ T there,
      d.current :: d.ahead = T ++ there ∧ T.map (·.kind) = solid ∧
        there.map (·.kind) = List.replicate m .newline ++ next := by
    rw [hblock, List.append_assoc] at hd
    exact List.map_eq_append_iff.1 hd
  have hapart : Apart here there := by
    refine ⟨⟨n, hhere⟩, ?_, ?_⟩
    · obtain ⟨i, kind, rest, hkind, rfl⟩ := hnext.follows
      refine ⟨m + i, kind, rest, hkind, ?_⟩
      rw [hthere, List.replicate_add, List.append_assoc]
    · intro words hwords
      rw [hthere]
      cases m with
      | zero => exact hnext.stops (hlast rfl).1 words hwords
      | succ m =>
          cases words with
          | nil => exact absurd rfl (ne_nil_of_mem_continuations hwords)
          | cons word words => rfl
  refine ⟨⟨.spanless, here, there, .inr hapart⟩, rfl, ?_,
    ⟨⟨S, T, ?_⟩, nofun⟩, m, hthere⟩
  · rintro rfl
    simp at hhere
  · have hgetLast : solid.getLast? = S.getLast?.map (·.kind) := by
      rw [← hS, List.getLast?_map]
    constructor
    · exact hleft
    · exact hright
    · exact forall₂_alike_of_kinds (hS.trans hT.symm)
    · exact hendsLeft
    · exact hendsRight
    · rfl
    · intro t ht heq
      rw [hgetLast, ht, Option.map_some, heq] at hsolid
      exact hsolid rfl
    · rintro ⟨name, rest, hname⟩
      -- A name comes next only if no newline does, so a block ends here.
      cases m with
      | zero =>
          obtain ⟨-, hdedent⟩ := hlast rfl
          rw [hgetLast, Option.map_eq_some_iff] at hdedent
          obtain ⟨t, ht, hkind⟩ := hdedent
          exact ⟨t, by rw [ht, Option.some_or], hkind⟩
      | succ m =>
          rw [hthere] at hname
          cases hname
    · intro _ t ht hfinish
      have hmem : t.kind ∈ (readings s.text).map kindOf := by
        rw [hkinds, ← hS]
        exact List.mem_append_left _ (List.mem_map_of_mem ht)
      obtain ⟨reading, hreading, hkind⟩ := List.mem_map.1 hmem
      exact kindOf_ne_finish hreading (hkind.trans hfinish)

/-- What is read as a statement on its own is read as the same statement in a
block. -/
theorem yields_statement_in_block {s : Statement} {stmt : Stmt}
    (hends : EndsLine s.textInBlock) (hparse : parseText s.text = .ok stmt)
    {d : Cursor} {next : List Token.Kind}
    (hd : d.kinds = s.kindsInBlock ++ next) (hfinish : Ends next)
    (hnext : MayFollow s next) {m : Nat}
    (hm : depthBound ((readings s.text).length + 1) ≤ m) :
    (d.skipNewlines.kind.Follows ∧ d.skipNewlines.kind ≠ .dedent) ∧
      ∃ n, Yields (statement m) d.skipNewlines (·.bare = stmt.bare)
        (List.replicate n .newline ++ next) := by
  obtain ⟨-, c, c', hc, hstatement, hdone⟩ := parseText_ok hparse
  obtain ⟨κ, hρ, hhere, hnear, n, hthere⟩ :=
    near_in_block hends hc hd hfinish hnext
  have hdeep : κ.Deep (depthBound ((readings s.text).length + 1)) m :=
    ⟨hm, fun hnil => absurd hnil hhere⟩
  have hwithin : κ.Within false c.skipNewlines d.skipNewlines := by
    rcases hnear.cases with hwithin | hbeyond
    · exact hwithin.skipNewlines
    · obtain ⟨hfollows, -⟩ := follows_of_statement hstatement
      rw [hbeyond.kind_skipNewlines_left] at hfollows
      cases hfollows
  have hagree := (Comparison.agrees hdeep).statement hwithin.near
  rw [hstatement] at hagree
  obtain ⟨found, d', hrun, hsame, hnear'⟩ := hagree
  have hbeyond : κ.Beyond false c' d' := by
    rcases hnear'.cases with hwithin' | hbeyond
    · obtain ⟨t, S, t', T, haligned⟩ := hwithin'.skipNewlines.aligned
      have hunfinished := haligned.unfinished hhere t List.mem_cons_self
      rw [← haligned.current.1] at hunfinished
      exact absurd hdone hunfinished
    · exact hbeyond
  refine ⟨follows_of_statement hrun, n, found, d', hrun, ?_, ?_⟩
  · rw [hρ] at hsame
    rw [← Stmt.relabel_spanless, ← Stmt.relabel_spanless]
    exact hsame.symm
  · rw [hbeyond.kinds_right, hthere]

/-! ### The statements of a block -/

theorem mayFollow_end (s : Statement) : MayFollow s [.dedent, .finish] where
  follows := ⟨0, .dedent, [.finish], .dedent, rfl⟩
  stops := by
    intro _ words hwords
    cases words with
    | nil => exact absurd rfl (ne_nil_of_mem_continuations hwords)
    | cons word words => rfl

/-- Another statement may follow, unless it begins like a continuation and
nothing but the end of a block is before it. -/
theorem mayFollow_statement {s t : Statement} {stmt : Stmt}
    (hends : EndsLine t.textInBlock) (hparse : parseText t.text = .ok stmt)
    (hjoin : ¬ (s.endsBlock = true ∧ t.goesOn = true))
    (rest : List Token.Kind) : MayFollow s (t.kindsInBlock ++ rest) where
  follows := by
    obtain ⟨n, kind, more, hkind, hkinds⟩ := follows_of_parseText hparse
    rcases t.kindsInBlock_eq with heq | heq
    · refine ⟨n, kind, more ++ rest, hkind, ?_⟩
      rw [heq, hkinds, List.append_assoc, List.cons_append]
    · refine ⟨n, kind, more ++ [.newline] ++ rest, hkind, ?_⟩
      rw [heq, hkinds, List.append_assoc, List.append_assoc, List.cons_append,
        List.append_assoc]
  stops := by
    intro hblock words hwords
    have halone : beginsWith words
        ((readings t.text).map kindOf ++ [.finish]) = false := by
      rw [← kinds_lex, ← Bool.not_eq_true]
      intro hbegins
      exact hjoin ⟨hblock, List.any_eq_true.2 ⟨words, hwords, hbegins⟩⟩
    rw [← halone]
    rcases t.kindsInBlock_eq with heq | heq
    · obtain ⟨front, last, hfront, hlast⟩ : ∃ front last,
          t.kindsInBlock = front ++ [last] ∧ ∀ name, last ≠ .word name := by
        rcases t.kindsInBlock_ends hends with ⟨front, hfront⟩ | ⟨-, hdedent⟩
        · exact ⟨front, .newline, hfront, nofun⟩
        · obtain ⟨front, hfront⟩ := List.getLast?_eq_some_iff.1 hdedent
          exact ⟨front, .dedent, hfront, nofun⟩
      rw [← heq, hfront, List.append_assoc, List.append_assoc]
      exact beginsWith_of_no_word hlast hlast words front rest [.finish]
    · rw [heq, List.append_assoc]
      exact beginsWith_of_no_word (k := .newline) (l := .finish) nofun nofun
        words _ rest []

theorem exists_skipNewlines_eq {d : Cursor} {n : Nat} {rest : List Token.Kind}
    (hd : d.kinds = List.replicate n .newline ++ rest) (hrest : rest ≠ []) :
    ∃ d' : Cursor, d'.kinds = rest ∧ d'.skipNewlines = d.skipNewlines := by
  induction n generalizing d with
  | zero => exact ⟨d, hd, rfl⟩
  | succ n ih =>
      rw [List.replicate_succ, List.cons_append] at hd
      have hne : List.replicate n Token.Kind.newline ++ rest ≠ [] :=
        List.append_ne_nil_of_right_ne_nil _ hrest
      obtain ⟨d', hkinds, hskip⟩ := ih (kinds_advance hd hne)
      have hahead : d.ahead ≠ [] := by
        intro hnil
        rw [kinds, hnil] at hd
        exact hne (List.cons.inj hd).2.symm
      exact ⟨d', hkinds, hskip.trans
        (skipNewlines_of_newline (kind_of_kinds hd) hahead).symm⟩

/-- No statement that could be taken for the rest of an expression comes right
after the end of a block. -/
def WellApart (sts : List Statement) : Prop :=
  sts.IsChain fun s t => ¬ (s.endsBlock = true ∧ t.goesOn = true)

theorem ends_block : Ends [.dedent, .finish] := rfl

/-- What are statements on their own are the same statements in a block. -/
theorem yields_blockLines_in_block {sts : List Statement} {stmts : List Stmt}
    (hparse : List.Forall₂ (fun s stmt => parseText s.text = .ok stmt) sts
      stmts)
    (hends : ∀ s ∈ sts, EndsLine s.textInBlock) (hapart : WellApart sts)
    {d : Cursor} {n : Nat}
    (hd : d.kinds = List.replicate n .newline ++
      (sts.flatMap Statement.kindsInBlock ++ [.dedent, .finish]))
    {m : Nat} (hm : 8 * (sts.flatMap Statement.kindsInBlock).length + 17 ≤ m)
    (before : List Stmt) :
    Yields (blockLines m before) d
      (·.map Stmt.bare = (before ++ stmts).map Stmt.bare)
      [.dedent, .finish] := by
  obtain ⟨m, rfl⟩ : ∃ k, m = k + 1 := ⟨m - 1, by omega⟩
  induction hparse generalizing d n m before with
  | nil =>
      rw [blockLines, Yields, Comparison.skipNewlines_bind_apply,
        Comparison.get_bind_apply]
      have hkinds := kinds_skipNewlines (by simp) hd
      have hdedent : d.skipNewlines.isAt .dedent = true := by
        rw [isAt, kind_of_kinds hkinds]
        rfl
      rw [if_pos hdedent]
      refine yields_pure ?_ hkinds
      rw [List.append_nil]
  | @cons s stmt sts stmts hs hsts ih =>
      have hs' := hends s List.mem_cons_self
      have hsts' : ∀ t ∈ sts, EndsLine t.textInBlock := fun t ht =>
        hends t (List.mem_cons_of_mem _ ht)
      rw [List.flatMap_cons, List.append_assoc] at hd
      rw [List.flatMap_cons, List.length_append] at hm
      have hfinish : Ends (sts.flatMap Statement.kindsInBlock ++
          [.dedent, .finish]) := ends_block.append _
      have hnext : MayFollow s (sts.flatMap Statement.kindsInBlock ++
          [.dedent, .finish]) := by
        cases hsts with
        | nil => exact mayFollow_end s
        | cons ht _ =>
            rw [List.flatMap_cons, List.append_assoc]
            exact mayFollow_statement (hsts' _ List.mem_cons_self) ht
              (List.isChain_cons_cons.1 hapart).1 _
      have hlength := s.length_readings_le
      have hne : s.kindsInBlock ≠ [] := by
        rcases s.kindsInBlock_ends hs' with ⟨front, hfront⟩ | ⟨-, hdedent⟩
        · rw [hfront]
          simp
        · intro hnil
          rw [hnil] at hdedent
          cases hdedent
      have hpos := List.length_pos_iff.2 hne
      obtain ⟨d', hd', hskip⟩ := exists_skipNewlines_eq hd
        (List.append_ne_nil_of_left_ne_nil hne _)
      obtain ⟨⟨hkind, hdedent⟩, n', hyields⟩ :=
        yields_statement_in_block hs' hs hd' hfinish hnext (m := m)
          (by unfold depthBound; omega)
      rw [hskip] at hkind hdedent hyields
      have hat : d.skipNewlines.isAt .dedent = false := by
        rw [isAt]
        generalize d.skipNewlines.kind = kind at hkind hdedent
        cases hkind with
        | dedent => exact absurd rfl hdedent
        | _ => rfl
      have hend : d.skipNewlines.atEnd = false := by
        rw [atEnd]
        generalize d.skipNewlines.kind = kind at hkind
        cases hkind <;> rfl
      obtain ⟨m, rfl⟩ : ∃ k, m = k + 1 := ⟨m - 1, by omega⟩
      rw [blockLines, Yields, Comparison.skipNewlines_bind_apply,
        Comparison.get_bind_apply, hat, hend]
      apply hyields.bind
      intro found d₂ hfound hd₂
      apply (ih hsts' hapart.tail hd₂ (before ++ [found]) m (by omega)).mono
      intro lines hlines
      simp [hlines, hfound]

/-! ### A program in a block -/

theorem Layout.EndsLine.readings_append {text : List Char} (h : EndsLine text)
    (rest : List Char) :
    readings (text ++ rest) = readings text ++ readings rest := by
  obtain ⟨front, n, rfl⟩ := h
  have hdedents := readings_dedents n []
  rw [List.append_nil, readings_nil, List.append_nil] at hdedents
  rw [List.append_assoc, List.cons_append, readings_append_newline,
    readings_append_newline, readings_dedents, hdedents, List.append_assoc,
    List.cons_append]

theorem readings_flatMap_textInBlock {sts : List Statement}
    (hends : ∀ s ∈ sts, EndsLine s.textInBlock) (rest : List Char) :
    readings (sts.flatMap Statement.textInBlock ++ rest) =
      sts.flatMap (fun s => readings s.textInBlock) ++ readings rest := by
  induction sts with
  | nil => rfl
  | cons s sts ih =>
      rw [List.flatMap_cons, List.flatMap_cons, List.append_assoc,
        (hends s List.mem_cons_self).readings_append, List.append_assoc,
        ih fun t ht => hends t (List.mem_cons_of_mem _ ht)]

/-- The statements that can be read have no flawed token. -/
theorem readings_ok {sts : List Statement} {stmts : List Stmt}
    (hparse : List.Forall₂ (fun s stmt => parseText s.text = .ok stmt) sts
      stmts) {s : Statement} (hs : s ∈ sts) :
    ∀ reading ∈ readings s.textInBlock, ∃ kind, reading = .ok kind := by
  induction hparse with
  | nil => cases hs
  | cons hfirst _ ih =>
      rcases List.mem_cons.1 hs with rfl | hs
      · have halone := (errors_lex_eq_nil_iff s.text).1 (parseText_ok hfirst).1
        intro reading hreading
        rcases s.readings_textInBlock with heq | heq <;> rw [heq] at hreading
        · exact halone reading hreading
        · rcases List.mem_append.1 hreading with hreading | hreading
          · exact halone reading hreading
          · exact ⟨.newline, List.mem_singleton.1 hreading⟩
      · exact ih hs

/-- The tokens of the line that opens the block. -/
theorem readings_truthOpener :
    readings truthOpener =
      [.ok (.keyword .branch), .ok (.keyword .yes), .ok (.symbol .colon)] := by
  with_unfolding_all rfl

theorem readings_block {sts : List Statement}
    (hends : ∀ s ∈ sts, EndsLine s.textInBlock) :
    readings (truthOpener ++ '\n' :: indentMark ::
      (sts.flatMap Statement.textInBlock ++ [dedentMark])) =
        [.ok (.keyword .branch), .ok (.keyword .yes), .ok (.symbol .colon),
          .ok .newline, .ok .indent] ++
        (sts.flatMap (fun s => readings s.textInBlock) ++ [.ok .dedent]) := by
  have hdedent : readings [dedentMark] = [.ok .dedent] := by
    rw [readings_mark (by decide), readings_nil]
    rfl
  rw [readings_append_newline, readings_truthOpener, readings_mark (by decide),
    readings_flatMap_textInBlock hends, hdedent]
  rfl

/-- The tokens of a branch that is always taken, around statements. -/
def truthBranchKinds (sts : List Statement) : List Token.Kind :=
  [.keyword .branch, .keyword .yes, .symbol .colon, .newline, .indent] ++
    (sts.flatMap Statement.kindsInBlock ++ [.dedent, .finish])

/-- A branch that is always taken, around statements, without spans. -/
def truthBranch (stmts : List Stmt) : Stmt :=
  .branch (.truth true .nowhere)
    (.block (.mk (stmts.map Stmt.bare) .nowhere)) none .nowhere

theorem yields_no_terminator {c : Cursor} {kind : Token.Kind}
    {rest : List Token.Kind} (hc : c.kinds = kind :: rest)
    (hkind : kind.isTerminator = false) :
    Yields eatTerminator c (· = false) (kind :: rest) := by
  refine ⟨false, c, ?_, rfl, hc⟩
  rw [eatTerminator, kind_of_kinds hc, hkind]
  rfl

section Branch

variable {sts : List Statement} {stmts : List Stmt}
  (hparse : List.Forall₂ (fun s stmt => parseText s.text = .ok stmt) sts stmts)
  (hends : ∀ s ∈ sts, EndsLine s.textInBlock) (hapart : WellApart sts)
  {d : Cursor} {m : Nat}
include hparse hends hapart

theorem yields_block_of_statements
    (hd : d.kinds =
      .indent :: (sts.flatMap Statement.kindsInBlock ++ [.dedent, .finish]))
    (hm : 8 * (sts.flatMap Statement.kindsInBlock).length + 18 ≤ m) :
    Yields (block m) d (·.bare = .mk (stmts.map Stmt.bare) .nowhere)
      [.finish] := by
  obtain ⟨m, rfl⟩ : ∃ k, m = k + 1 := ⟨m - 1, by omega⟩
  apply yields_get
  apply (yields_eat hd rfl (ends_block.append _).ne_nil).bind
  rintro _ d₁ rfl hd₁
  apply (yields_blockLines_in_block hparse hends hapart (n := 0) hd₁
    (by omega) []).bind
  intro found d₂ hfound hd₂
  apply (yields_expect hd₂ rfl (by simp)).bind
  intro stop d₃ _ hd₃
  refine yields_pure ?_ hd₃
  rw [Block.bare, bareLines_eq_map, hfound]
  rfl

theorem yields_truthSentence (hd : d.kinds = truthBranchKinds sts)
    (hm : 8 * (sts.flatMap Statement.kindsInBlock).length + 20 ≤ m) :
    Yields (sentence m) d (fun make => ∀ span,
      (make span).bare = truthBranch stmts) [.finish] := by
  obtain ⟨m, rfl⟩ : ∃ k, m = k + 3 := ⟨m - 3, by omega⟩
  have hrest : Ends (sts.flatMap Statement.kindsInBlock ++
      [.dedent, .finish]) := ends_block.append _
  have htruth : (Expr.truth true .nowhere).isWritable false = true := rfl
  apply yields_get
  simp only [kind_of_kinds hd]
  apply (yields_advance hd (by simp)).bind
  intro _ d₁ _ hd₁
  apply ((readsBack (fun _ => 0) (m + 2)).expr htruth (by decide)
    (by simp [Expr.write]; omega) (((hrest.cons _).cons _).cons _)
    (stopsBefore_symbol (by simp) 1 _) hd₁).bind
  intro condition d₂ hcondition hd₂
  have hbody : Yields (body (m + 2)) d₂
      (·.bare = .block (.mk (stmts.map Stmt.bare) .nowhere)) [.finish] := by
    apply (yields_eat hd₂ rfl (by simp)).bind
    rintro _ d₃ rfl hd₃
    apply (yields_skipNewline hd₃ rfl).bind
    intro _ d₄ _ hd₄
    apply (yields_block_of_statements hparse hends hapart hd₄ (by omega)).bind
    intro found d₅ hfound hd₅
    refine yields_pure ?_ hd₅
    rw [Body.bare, hfound]
  apply hbody.bind
  intro found d₃ hfound hd₃
  apply yields_get
  apply (yields_skipNewlines hd₃ rfl).bind
  intro _ d₄ _ hd₄
  apply (yields_not_eat hd₄ rfl).bind
  rintro _ d₅ rfl hd₅
  apply (yields_not_eat hd₅ rfl).bind
  rintro _ d₆ rfl hd₆
  apply yields_set
  refine yields_pure ?_ hd₃
  intro span
  rw [Stmt.bare, hcondition, hfound]
  rfl

/-- The branch around a block is read as it stands. -/
theorem yields_truthBranch (hd : d.kinds = truthBranchKinds sts)
    (hm : 8 * (sts.flatMap Statement.kindsInBlock).length + 21 ≤ m) :
    Yields (completeStatement m) d (·.bare = truthBranch stmts) [.finish] := by
  obtain ⟨m, rfl⟩ : ∃ k, m = k + 1 := ⟨m - 1, by omega⟩
  have hstatement : ∀ d, d.kinds = truthBranchKinds sts →
      Yields (statement (m + 1)) d (·.bare = truthBranch stmts) [.finish] := by
    intro d hd
    apply yields_get
    apply (yields_truthSentence hparse hends hapart hd (by omega)).bind
    intro make d₁ hmake hd₁
    apply yields_get
    apply (yields_no_terminator hd₁ rfl).bind
    intro _ d₂ _ hd₂
    exact yields_pure (hmake _) hd₂
  apply (yields_skipNewlines hd rfl).bind
  intro _ d₁ _ hd₁
  apply (hstatement d₁ hd₁).bind
  intro found d₂ hfound hd₂
  apply (yields_finish hd₂).bind
  intro _ d₃ _ hd₃
  exact yields_pure hfound hd₃

end Branch

/-- A program whose first line is not indented is one branch if it stands in a
block: its block holds the statements of the program, in order. No statement may
begin like the rest of an expression right after the end of a block. -/
theorem nestedProgram_is_one_branch {c : Char} (hc : c = ' ' ∨ c = '\t')
    {k : Nat} (hk : 0 < k) {source : List Char}
    (hlines : ∀ line ∈ (Text.rawLines source).map Text.stripEnding,
      IndentedBy c line)
    (hfirst : ∀ d, source.head? = some d → Text.isBlank d = false)
    {sts : List Statement}
    (hread : (Reader.readAll (RawLine.ofText source)).map (·.1) = sts.map .ok)
    (hsts : sts ≠ []) {stmts : List Stmt}
    (hparse : List.Forall₂ (fun s stmt => parseText s.text = .ok stmt) sts
      stmts) (hapart : WellApart sts) :
    ∃ s after stmt,
      Reader.readAll (RawLine.ofText (nestedProgram c k source)) =
        [(.ok s, after)] ∧
      parseText s.text = .ok stmt ∧
      stmt.bare = truthBranch stmts := by
  obtain ⟨s, after, hnested, htext⟩ :=
    readAll_nestedProgram hc hk hlines hfirst hread hsts
  have hends : ∀ t ∈ sts, EndsLine t.textInBlock := by
    intro t ht
    have hmem : .ok t ∈ (Reader.readAll (RawLine.ofText source)).map (·.1) := by
      rw [hread]
      exact List.mem_map_of_mem ht
    obtain ⟨⟨_, r⟩, hmem, rfl⟩ := List.mem_map.1 hmem
    exact Reader.endsLine_textInBlock hmem
  have hreadings := readings_block hends
  rw [← htext] at hreadings
  have herrors : (lex s.text).errors = [] := by
    rw [errors_lex_eq_nil_iff, hreadings]
    intro reading hreading
    simp only [List.mem_append, List.mem_flatMap, List.mem_cons,
      List.not_mem_nil, or_false] at hreading
    rcases hreading with hopener | ⟨t, ht, hreading⟩ | rfl
    · rcases hopener with rfl | rfl | rfl | rfl | rfl <;> exact ⟨_, rfl⟩
    · exact readings_ok hparse ht reading hreading
    · exact ⟨_, rfl⟩
  have hkinds : (lex s.text).tokens.map (·.kind) = truthBranchKinds sts := by
    rw [kinds_lex, hreadings, truthBranchKinds]
    simp only [List.map_append, List.map_flatMap, List.append_assoc]
    rfl
  have hlength := congrArg List.length hkinds
  simp only [truthBranchKinds, List.length_append, List.length_map,
    List.length_cons, List.length_nil] at hlength
  cases htokens : (lex s.text).tokens with
  | nil => simp [htokens] at hlength
  | cons token tokens =>
      rw [htokens] at hkinds hlength
      let d : Cursor := ⟨[], token, tokens⟩
      have hd : d.kinds = truthBranchKinds sts := hkinds
      obtain ⟨stmt, d', hrun, hbare, -⟩ :=
        yields_truthBranch hparse hends hapart hd
          (show _ ≤ depthBound (token :: tokens).length by
            unfold depthBound
            omega)
      refine ⟨s, after, stmt, hnested, ?_, hbare⟩
      rw [parseText, herrors, htokens, parseStatement, runOn, ofTokens?]
      change (completeStatement _ d).map _ = _
      rw [hrun]
      rfl

/-! ### Two programs -/

/-- An assignment of a function, on two lines. -/
def functionStatement : Statement :=
  ⟨1, [.line ⟨"f is a function:".toList, 0, 1⟩, .newline, .indent,
    .line ⟨" The result is 1.".toList, 17, 2⟩, .newline, .dedent]⟩

def printingSource : List Char :=
  "f is a function:\n The result is 1.\nPrint f.".toList

/-- A program with an assignment to a name that is spelled like an operator. -/
def operatorSource : List Char :=
  "f is a function:\n The result is 1.\nplus is 3.".toList

theorem indentedBy_lines {source : List Char}
    (h : ((Text.rawLines source).map Text.stripEnding).all (fun line =>
      !Text.isBlankText line &&
        (line.takeWhile Text.isBlank).all (· == ' ')) = true) :
    ∀ line ∈ (Text.rawLines source).map Text.stripEnding,
      IndentedBy ' ' line := by
  intro line hline
  have htest := List.all_eq_true.1 h line hline
  rw [Bool.and_eq_true, Bool.not_eq_true', List.all_eq_true] at htest
  exact ⟨htest.1, fun d hd => eq_of_beq (htest.2 d hd)⟩

theorem forall₂_parseText {s t : Statement}
    (hs : (parseText s.text).toBool = true)
    (ht : (parseText t.text).toBool = true) :
    ∃ stmts, List.Forall₂ (fun s stmt => parseText s.text = .ok stmt) [s, t]
      stmts := by
  cases hfirst : parseText s.text with
  | error e =>
      rw [hfirst] at hs
      cases hs
  | ok stmt =>
      cases hsecond : parseText t.text with
      | error e =>
          rw [hsecond] at ht
          cases ht
      | ok stmt' => exact ⟨[stmt, stmt'], .cons hfirst (.cons hsecond .nil)⟩

theorem nestedProgram_is_one_branch_function :
    ∃ sts stmts,
      (Reader.readAll (RawLine.ofText printingSource)).map (·.1) =
        sts.map .ok ∧
      List.Forall₂ (fun s stmt => parseText s.text = .ok stmt) sts stmts ∧
      ∃ s after stmt,
        Reader.readAll (RawLine.ofText (nestedProgram ' ' 2 printingSource)) =
          [(.ok s, after)] ∧
        parseText s.text = .ok stmt ∧ stmt.bare = truthBranch stmts := by
  let printing : Statement := ⟨3, [.line ⟨"Print f.".toList, 35, 3⟩]⟩
  have hread : (Reader.readAll (RawLine.ofText printingSource)).map (·.1) =
      [functionStatement, printing].map .ok := by decide +kernel
  obtain ⟨stmts, hparse⟩ : ∃ stmts, List.Forall₂
      (fun s stmt => parseText s.text = .ok stmt) [functionStatement, printing]
      stmts :=
    forall₂_parseText (by decide +kernel) (by decide +kernel)
  have hapart : WellApart [functionStatement, printing] := by
    refine List.isChain_pair.2 fun hjoin => ?_
    have hprint : printing.goesOn = false := by decide +kernel
    rw [hprint] at hjoin
    exact Bool.false_ne_true hjoin.2
  have hfirst : ∀ d, printingSource.head? = some d →
      Text.isBlank d = false := by
    intro d hd
    cases hd
    decide
  exact ⟨_, stmts, hread, hparse,
    nestedProgram_is_one_branch (.inl rfl) (by decide)
      (indentedBy_lines (by decide +kernel)) hfirst hread (by simp) hparse
      hapart⟩

/-- In a block, a name that is spelled like an operator is taken for one right
after the end of a block, and the block cannot be read. On their own both
statements can. -/
theorem statement_led_on_after_block :
    (∀ line ∈ (Text.rawLines operatorSource).map Text.stripEnding,
      IndentedBy ' ' line) ∧
    ∃ sts stmts,
      (Reader.readAll (RawLine.ofText operatorSource)).map (·.1) =
        sts.map .ok ∧
      sts ≠ [] ∧
      (∀ s ∈ sts, ∃ line rest, s.pieces = .line line :: rest ∧
        line.indentation? = none) ∧
      List.Forall₂ (fun s stmt => parseText s.text = .ok stmt) sts stmts ∧
      ∀ s after,
        Reader.readAll (RawLine.ofText (nestedProgram ' ' 2 operatorSource)) =
          [(.ok s, after)] →
        ∀ stmt, parseText s.text ≠ .ok stmt := by
  let assignment : Statement := ⟨3, [.line ⟨"plus is 3.".toList, 35, 3⟩]⟩
  have hread : (Reader.readAll (RawLine.ofText operatorSource)).map (·.1) =
      [functionStatement, assignment].map .ok := by decide +kernel
  obtain ⟨stmts, hparse⟩ : ∃ stmts, List.Forall₂
      (fun s stmt => parseText s.text = .ok stmt)
      [functionStatement, assignment] stmts :=
    forall₂_parseText (by decide +kernel) (by decide +kernel)
  have hunindented : ∀ s ∈ [functionStatement, assignment], ∃ line rest,
      s.pieces = .line line :: rest ∧ line.indentation? = none := by
    intro s hs
    simp only [List.mem_cons, List.not_mem_nil, or_false] at hs
    rcases hs with rfl | rfl
    · exact ⟨_, _, rfl, by decide⟩
    · exact ⟨_, _, rfl, by decide⟩
  have hfails : (Reader.readAll (RawLine.ofText
      (nestedProgram ' ' 2 operatorSource))).map
        (fun reading => reading.1.toOption.map fun s =>
          (parseText s.text).toBool) = [some false] := by decide +kernel
  refine ⟨indentedBy_lines (by decide +kernel), _, stmts, hread, by simp,
    hunindented, hparse, ?_⟩
  intro s after hnested stmt hstmt
  rw [hnested] at hfails
  simp [Except.toOption, hstmt, Except.toBool] at hfails

end Prose
