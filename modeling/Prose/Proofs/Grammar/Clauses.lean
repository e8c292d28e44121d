import Prose.Proofs.Grammar.Lookahead

/-!
Reading back the parts of statements: names, types, items, arguments, blocks
and bodies. What is said of them rests on `ReadsBack`, which says that with a
bounded depth of calls, written expressions and statements are read back; the
bound is measured in the tokens that are written.
-/

namespace Prose.Parser

variable {c : Cursor} {rest : List Token.Kind}

/-! ### Names and types -/

theorem yields_separator (hc : c.kinds = .symbol .comma :: rest)
    (hends : Ends rest) : Yields eatSeparator c (· = true) rest := by
  apply (yields_eat hc rfl hends.ne_nil).bind
  rintro _ c₁ rfl hc₁
  exact yields_pure rfl hc₁

theorem yields_no_separator {symbol : Symbol} (hsymbol : symbol ≠ .comma)
    (hc : c.kinds = .symbol symbol :: rest) :
    Yields eatSeparator c (· = false) (.symbol symbol :: rest) := by
  apply (yields_not_eat hc (by simpa [Token.Kind.sameClass])).bind
  rintro _ c₁ rfl hc₁
  exact yields_not_eatWord hc₁ rfl

theorem yields_moreNames (names : List Name) {m : Nat} {acc : List Name}
    (hm : names.length ≤ m) (hends : Ends rest)
    (hc : c.kinds =
      writeNames [.symbol .comma] names ++ .symbol .colon :: rest) :
    Yields (moreNames m acc) c (· = acc ++ names) (.symbol .colon :: rest) := by
  induction names generalizing m acc c with
  | nil =>
      cases m with
      | zero => exact yields_pure (by simp) hc
      | succ m =>
          apply (yields_no_separator (by decide) hc).bind
          rintro _ c₁ rfl hc₁
          exact yields_pure (by simp) hc₁
  | cons name names ih =>
      cases m with
      | zero => simp at hm
      | succ m =>
          have hends' := (hends.cons (.symbol .colon)).append
            (writeNames [.symbol .comma] names)
          simp only [writeNames, List.cons_append, List.nil_append] at hc
          apply (yields_separator hc (hends'.cons _)).bind
          rintro _ c₁ rfl hc₁
          apply (yields_expectName hc₁ hends'.ne_nil).bind
          rintro ⟨_, span⟩ c₂ rfl hc₂
          apply (ih (by simpa using hm) hc₂).mono
          intro found hfound
          simpa using hfound

theorem length_le_writeNames (mark : List Token.Kind) (names : List Name) :
    names.length ≤ (writeNames mark names).length := by
  induction names generalizing mark with
  | nil => simp
  | cons name names ih =>
      have hrest := ih [.symbol .comma]
      simp only [writeNames, List.length_append, List.length_cons]
      omega

theorem yields_parameters (params : List Name) (hends : Ends rest)
    (hc : c.kinds =
      writeNames [.ofWord "given"] params ++ .symbol .colon :: rest) :
    Yields parameters c (· = params) (.symbol .colon :: rest) := by
  cases params with
  | nil =>
      apply (yields_not_eatWord hc rfl).bind
      rintro _ c₁ rfl hc₁
      exact yields_pure rfl hc₁
  | cons name names =>
      have hends' := (hends.cons (.symbol .colon)).append
        (writeNames [.symbol .comma] names)
      simp only [writeNames, List.cons_append, List.nil_append] at hc
      apply (yields_eatWord hc rfl (hends'.cons _).ne_nil).bind
      rintro _ c₁ rfl hc₁
      apply (yields_expectName hc₁ hends'.ne_nil).bind
      rintro ⟨_, span⟩ c₂ rfl hc₂
      apply yields_get
      have hlength := congrArg List.length hc₂
      have hnames := length_le_writeNames [.symbol .comma] names
      rw [Cursor.length_kinds, List.length_append, List.length_cons]
        at hlength
      exact yields_moreNames names (by omega) hends hc₂

/-- Words after a first one, with blanks between them. -/
def joinNames (text : String) (names : List Name) : String :=
  names.foldl (fun text name => text ++ " " ++ name.text) text

theorem yields_typeWords (names : List Name)
    (hnames : ∀ name ∈ names, name.isPlain) {m : Nat} {type : ReadType}
    (hm : names.length ≤ m) (hends : Ends rest)
    (hc : c.kinds = names.map .word ++ .ofWord "into" :: rest) :
    Yields (typeWords m type) c (·.text = joinNames type.text names)
      (.ofWord "into" :: rest) := by
  induction names generalizing m type c with
  | nil =>
      cases m with
      | zero => exact yields_pure rfl hc
      | succ m =>
          have hinto : c.isAtWord "into" = true := Cursor.isAtWord_eq hc _
          apply yields_get
          rw [if_pos hinto]
          exact yields_pure rfl hc
  | cons name names ih =>
      cases m with
      | zero => simp at hm
      | succ m =>
          have hplain := hnames name List.mem_cons_self
          have hinto : c.isAtWord "into" = false := by
            rw [Cursor.isAtWord_eq hc]
            exact Name.isWord_of_isPlain hplain (by decide)
          have hkind := Cursor.kind_of_kinds hc
          have hends' : Ends (names.map .word ++ .ofWord "into" :: rest) :=
            (hends.cons _).append _
          apply yields_get
          simp only [hinto, hkind, Bool.false_eq_true, if_false]
          apply (yields_advance hc hends'.ne_nil).bind
          intro token c₁ _ hc₁
          apply ih (fun other hother =>
            hnames other (List.mem_cons_of_mem name hother)) _ hc₁
          simpa using hm

theorem joinNames_ofList (first : List Char) (parts : List (List Char)) :
    joinNames (String.ofList first)
        (parts.map fun part => .ofString (String.ofList part)) =
      String.ofList ([' '].intercalate (first :: parts)) := by
  induction parts generalizing first with
  | nil => simp [joinNames]
  | cons part parts ih =>
      have hjoin : String.ofList first ++ " " ++ String.ofList part =
          String.ofList (first ++ ' ' :: part) := by
        rw [show " " = String.ofList [' '] from rfl, ← String.ofList_append,
          ← String.ofList_append]
        simp
      have hsplit : [' '].intercalate ((first ++ ' ' :: part) :: parts) =
          [' '].intercalate (first :: part :: parts) := by
        cases parts <;> simp [List.intercalate_cons_cons]
      rw [← hsplit, ← ih, ← hjoin]
      rfl

/-- The words of a type, joined again, are its text. -/
theorem joinNames_words {type : ReadType} {name : Name} {names : List Name}
    (hwords : type.words = name :: names) :
    joinNames name.text names = type.text := by
  have hback : [' '].intercalate (type.text.toList.splitOn ' ') =
      type.text.toList := List.intercalate_splitOn ' '
  unfold ReadType.words at hwords
  cases hparts : type.text.toList.splitOn ' ' with
  | nil => exact absurd hparts (List.splitOn_ne_nil _ _)
  | cons part parts =>
      rw [hparts] at hwords hback
      simp only [List.map_cons, List.cons.injEq] at hwords
      obtain ⟨rfl, rfl⟩ := hwords
      calc joinNames (String.ofList part) _
          = String.ofList ([' '].intercalate (part :: parts)) :=
            joinNames_ofList part parts
        _ = type.text := by rw [hback, String.ofList_toList]

theorem yields_readType {type : ReadType}
    (htype : type.words.all Name.isPlain) (hends : Ends rest)
    (hc : c.kinds = type.words.map .word ++ .ofWord "into" :: rest) :
    Yields readType c (·.text = type.text) (.ofWord "into" :: rest) := by
  cases hwords : type.words with
  | nil => simp [ReadType.words, List.splitOn_ne_nil] at hwords
  | cons name names =>
      rw [hwords] at htype hc
      rw [List.all_eq_true] at htype
      have hplain := htype name List.mem_cons_self
      have hinto : c.isAtWord "into" = false := by
        rw [Cursor.isAtWord_eq hc]
        exact Name.isWord_of_isPlain hplain (by decide)
      have hkind := Cursor.kind_of_kinds hc
      have hends' : Ends (names.map .word ++ .ofWord "into" :: rest) :=
        (hends.cons _).append _
      have hlength := congrArg List.length hc
      rw [Cursor.length_kinds] at hlength
      simp only [List.map_cons, List.cons_append, List.length_cons,
        List.length_append, List.length_map] at hlength
      apply yields_get
      simp only [hinto, hkind, Bool.false_eq_true, if_false]
      apply (yields_advance hc hends'.ne_nil).bind
      intro token c₁ _ hc₁
      apply (yields_typeWords names (fun other hother =>
        htype other (List.mem_cons_of_mem name hother)) (by omega) hends
        hc₁).mono
      intro found hfound
      rw [hfound, joinNames_words hwords]

/-! ### Reading back -/

theorem one_le_precedence (op : Operator) : 1 ≤ op.precedence := by
  cases op <;> decide

theorem one_le_level (e : Expr) : 1 ≤ e.level := by
  cases e with
  | binary op left right span => exact one_le_precedence op
  | _ => exact Nat.le_add_left 1 _

theorem bareItems_eq_map (items : List Expr) :
    bareItems items = items.map Expr.bare := by
  induction items with
  | nil => rw [bareItems, List.map_nil]
  | cons item items ih => rw [bareItems, ih, List.map_cons]

theorem bareArguments_eq_map (args : List Argument) :
    bareArguments args = args.map Argument.bare := by
  induction args with
  | nil => rw [bareArguments, List.map_nil]
  | cons arg args ih => rw [bareArguments, ih, List.map_cons]

theorem bareLines_eq_map (stmts : List Stmt) :
    bareLines stmts = stmts.map Stmt.bare := by
  induction stmts with
  | nil => rw [bareLines, List.map_nil]
  | cons stmt stmts ih => rw [bareLines, ih, List.map_cons]

/-- Calls nested at most `n` deep are enough to read back what is written with
few tokens. -/
structure ReadsBack (w : Wording) (n : Nat) : Prop where
  expr : ∀ {e : Expr} {least : Nat} {c : Cursor} {rest : List Token.Kind},
    e.isWritable false → least ≤ e.level → 8 * (e.write w).length ≤ n →
    Ends rest → StopsBefore least rest → c.kinds = e.write w ++ rest →
    Yields (binary n least) c (·.bare = e.bare) rest
  stmt : ∀ {s : Stmt} {c : Cursor} {rest : List Token.Kind},
    s.isWritable → 8 * ((s.write w).length + 1) ≤ n → Ends rest →
    c.kinds = s.write w ++ .symbol .dot :: rest →
    Yields (statement n) c (·.bare = s.bare) rest

section Parts

variable {w : Wording} {n : Nat} (ih : ∀ k < n, ReadsBack w k)
include ih

omit ih in
theorem stopsBefore_items (items : List Expr) (rest : List Token.Kind) :
    StopsBefore 1 (writeItems w [.symbol .comma] items ++
      .symbol .closeBracket :: rest) := by
  cases items with
  | nil =>
      rw [writeItems, List.nil_append]
      exact stopsBefore_symbol (by decide) 1 rest
  | cons item items =>
      rw [writeItems]
      exact stopsBefore_symbol (by decide) 1 _

theorem yields_moreItems (items : List Expr) {m : Nat} {acc : List Expr}
    (hm : m ≤ n) (hitems : areWritableItems items)
    (hfuel : 8 * (writeItems w [.symbol .comma] items).length < m)
    (hends : Ends rest)
    (hc : c.kinds =
      writeItems w [.symbol .comma] items ++ .symbol .closeBracket :: rest) :
    Yields (moreItems m acc) c
      (·.map Expr.bare = (acc ++ items).map Expr.bare)
      (.symbol .closeBracket :: rest) := by
  induction items generalizing m acc c with
  | nil =>
      obtain ⟨m, rfl⟩ := Nat.exists_eq_add_one_of_ne_zero (by omega : m ≠ 0)
      rw [writeItems, List.nil_append] at hc
      apply (yields_not_eat hc rfl).bind
      rintro _ c₁ rfl hc₁
      exact yields_pure (by simp) hc₁
  | cons item items ihItems =>
      obtain ⟨m, rfl⟩ := Nat.exists_eq_add_one_of_ne_zero (by omega : m ≠ 0)
      simp only [areWritableItems, Bool.and_eq_true] at hitems
      simp only [writeItems, List.cons_append, List.nil_append,
        List.append_assoc, List.length_cons, List.length_append] at hc hfuel
      have hends' : Ends (writeItems w [.symbol .comma] items ++
          .symbol .closeBracket :: rest) := (hends.cons _).append _
      have hstops := stopsBefore_items (w := w) items rest
      apply (yields_eat hc rfl (hends'.append _).ne_nil).bind
      rintro _ c₁ rfl hc₁
      apply ((ih m (by omega)).expr hitems.1 (one_le_level item) (by omega)
        hends' hstops hc₁).bind
      intro found c₂ hfound hc₂
      apply (ihItems (by omega) hitems.2 (by omega) hc₂).mono
      intro all hall
      simp [hall, hfound]

theorem yields_argument {arg : Argument} {m : Nat} (hm : m ≤ n)
    (harg : arg.isWritable) (hfuel : 8 * (arg.write w).length ≤ m)
    (hends : Ends rest) (hstops : StopsBefore 1 rest)
    (hc : c.kinds = arg.write w ++ rest) :
    Yields (argument m) c (·.bare = arg.bare) rest := by
  obtain ⟨name, nameSpan, value⟩ := arg
  simp only [Argument.isWritable, Bool.and_eq_true] at harg
  simp only [Argument.write, List.cons_append, List.length_cons] at hc hfuel
  obtain ⟨m, rfl⟩ := Nat.exists_eq_add_one_of_ne_zero (by omega : m ≠ 0)
  have hends' := hends.append (value.write w)
  apply (yields_expectName hc (hends'.cons _).ne_nil).bind
  rintro ⟨found, span⟩ c₁ hname hc₁
  apply (yields_expectWord hc₁ rfl hends'.ne_nil).bind
  intro _ c₂ _ hc₂
  apply ((ih m (by omega)).expr harg.2 (one_le_level value) (by omega) hends
    hstops hc₂).bind
  intro found' c₃ hvalue hc₃
  refine yields_pure ?_ hc₃
  rw [Argument.bare, Argument.bare, hvalue, show found = name from hname]

variable {symbol : Symbol} (hsymbol : symbol = .dot ∨ symbol = .closeParen)

omit ih in
include hsymbol in
theorem stopsBefore_arguments (args : List Argument)
    (rest : List Token.Kind) :
    StopsBefore 1 (writeArguments w [.symbol .comma] args ++
      .symbol symbol :: rest) := by
  cases args with
  | nil =>
      rw [writeArguments, List.nil_append]
      apply stopsBefore_symbol
      rcases hsymbol with rfl | rfl <;> decide
  | cons arg args =>
      rw [writeArguments]
      exact stopsBefore_symbol (by decide) 1 _

include hsymbol in
theorem yields_moreArguments (args : List Argument) {m : Nat}
    {acc : List Argument} (hm : m ≤ n) (hargs : areWritableArguments args)
    (hfuel : 8 * (writeArguments w [.symbol .comma] args).length < m)
    (hends : Ends rest)
    (hc : c.kinds =
      writeArguments w [.symbol .comma] args ++ .symbol symbol :: rest) :
    Yields (moreArguments m acc) c
      (·.map Argument.bare = (acc ++ args).map Argument.bare)
      (.symbol symbol :: rest) := by
  induction args generalizing m acc c with
  | nil =>
      obtain ⟨m, rfl⟩ := Nat.exists_eq_add_one_of_ne_zero (by omega : m ≠ 0)
      have hcomma : symbol ≠ .comma := by
        rcases hsymbol with rfl | rfl <;> decide
      rw [writeArguments, List.nil_append] at hc
      apply (yields_no_separator hcomma hc).bind
      rintro _ c₁ rfl hc₁
      exact yields_pure (by simp) hc₁
  | cons arg args ihArgs =>
      obtain ⟨m, rfl⟩ := Nat.exists_eq_add_one_of_ne_zero (by omega : m ≠ 0)
      simp only [areWritableArguments, Bool.and_eq_true] at hargs
      simp only [writeArguments, List.cons_append, List.nil_append,
        List.append_assoc, List.length_cons, List.length_append] at hc hfuel
      have hends' : Ends (writeArguments w [.symbol .comma] args ++
          .symbol symbol :: rest) := (hends.cons _).append _
      apply (yields_separator hc (hends'.append _)).bind
      rintro _ c₁ rfl hc₁
      apply (yields_argument ih (by omega) hargs.1 (by omega) hends'
        (stopsBefore_arguments hsymbol args rest) hc₁).bind
      intro found c₂ hfound hc₂
      apply (ihArgs (by omega) hargs.2 (by omega) hc₂).mono
      intro all hall
      simp [hall, hfound]

include hsymbol in
theorem yields_callFrom (args : List Argument) {callee : Expr} {m : Nat}
    (hm : m ≤ n) (hargs : areWritableArguments args)
    (hfuel : 8 * (writeArguments w [.ofWord "with"] args).length < m)
    (hends : Ends rest)
    (hc : c.kinds =
      writeArguments w [.ofWord "with"] args ++ .symbol symbol :: rest) :
    Yields (callFrom m callee) c
      (·.bare = .mk callee.bare (args.map Argument.bare) .nowhere)
      (.symbol symbol :: rest) := by
  obtain ⟨m, rfl⟩ := Nat.exists_eq_add_one_of_ne_zero (by omega : m ≠ 0)
  cases args with
  | nil =>
      rw [writeArguments, List.nil_append] at hc
      apply (yields_not_eatWord hc rfl).bind
      rintro _ c₁ rfl hc₁
      refine yields_pure ?_ hc₁
      rw [Call.bare, bareArguments_eq_map]
  | cons arg args =>
      simp only [areWritableArguments, Bool.and_eq_true] at hargs
      simp only [writeArguments, List.cons_append, List.nil_append,
        List.append_assoc, List.length_cons, List.length_append] at hc hfuel
      have hends' : Ends (writeArguments w [.symbol .comma] args ++
          .symbol symbol :: rest) := (hends.cons _).append _
      apply (yields_eatWord hc rfl (hends'.append _).ne_nil).bind
      rintro _ c₁ rfl hc₁
      apply (yields_argument ih (by omega) hargs.1 (by omega) hends'
        (stopsBefore_arguments hsymbol args rest) hc₁).bind
      intro found c₂ hfound hc₂
      apply (yields_moreArguments ih hsymbol args (by omega) hargs.2
        (by omega) hends hc₂).bind
      intro all c₃ hall hc₃
      refine yields_pure ?_ hc₃
      rw [Call.bare, bareArguments_eq_map, hall]
      simp [hfound]

include hsymbol in
/-- A call, whatever precedence its callee is read with. -/
theorem yields_call {call : Call} {least m : Nat} (hm : m < n)
    (hcall : call.isWritable) (hlevel : least ≤ call.callee.level)
    (hfuel : 8 * (call.write w).length ≤ m) (hends : Ends rest)
    (hc : c.kinds = call.write w ++ .symbol symbol :: rest) :
    Yields (binary m least >>= callFrom m) c (·.bare = call.bare)
      (.symbol symbol :: rest) := by
  obtain ⟨callee, args, span⟩ := call
  simp only [Call.isWritable, Bool.and_eq_true] at hcall
  simp only [Call.write, List.append_assoc, List.length_append] at hc hfuel
  obtain ⟨kind, kinds, hwrite, -⟩ := callee.write_opens w hcall.1
  have hpos : 0 < (callee.write w).length := by simp [hwrite]
  have hends' : Ends (writeArguments w [.ofWord "with"] args ++
      .symbol symbol :: rest) := (hends.cons _).append _
  have hstops : StopsBefore least (writeArguments w [.ofWord "with"] args ++
      .symbol symbol :: rest) := by
    cases args with
    | nil =>
        rw [writeArguments, List.nil_append]
        apply stopsBefore_symbol
        rcases hsymbol with rfl | rfl <;> decide
    | cons arg args =>
        simp only [writeArguments, List.cons_append, List.nil_append,
          List.append_assoc]
        exact stopsBefore_with least
          (((hends.cons _).append _).append _)
  apply ((ih m hm).expr hcall.1 hlevel (by omega) hends' hstops hc).bind
  intro found c₁ hfound hc₁
  apply (yields_callFrom ih hsymbol args (by omega) hcall.2 (by omega) hends
    hc₁).mono
  intro call' hcall'
  rw [hcall', hfound, Call.bare, bareArguments_eq_map]

omit ih in
theorem yields_lead {lead : List Token.Kind} {kind : Token.Kind}
    (hlead : lead = [] ∨ lead = [.newline])
    (hc : c.kinds = lead ++ kind :: rest)
    (hkind : kind.sameClass .newline = false) :
    Yields skipNewlines c (fun _ => True) (kind :: rest) := by
  rcases hlead with rfl | rfl
  · exact yields_skipNewlines hc hkind
  · exact yields_skipNewline hc hkind

theorem yields_blockLines (stmts : List Stmt) {m : Nat} {acc : List Stmt}
    {lead : List Token.Kind} (hm : m ≤ n) (hstmts : areWritableLines stmts)
    (hfuel : 8 * (writeLines w stmts).length < m) (hends : Ends rest)
    (hlead : lead = [] ∨ lead = [.newline])
    (hc : c.kinds = lead ++ (writeLines w stmts ++ .dedent :: rest)) :
    Yields (blockLines m acc) c
      (·.map Stmt.bare = (acc ++ stmts).map Stmt.bare) (.dedent :: rest) := by
  induction stmts generalizing m acc lead c with
  | nil =>
      obtain ⟨m, rfl⟩ := Nat.exists_eq_add_one_of_ne_zero (by omega : m ≠ 0)
      rw [writeLines, List.nil_append] at hc
      apply (yields_lead hlead hc rfl).bind
      intro _ c₁ _ hc₁
      apply yields_get
      have hat : c₁.isAt .dedent = true := by
        rw [Cursor.isAt, Cursor.kind_of_kinds hc₁]
        rfl
      rw [if_pos hat]
      exact yields_pure (by simp) hc₁
  | cons stmt stmts ihStmts =>
      obtain ⟨m, rfl⟩ := Nat.exists_eq_add_one_of_ne_zero (by omega : m ≠ 0)
      simp only [areWritableLines, Bool.and_eq_true] at hstmts
      simp only [writeLines, List.cons_append, List.append_assoc,
        List.length_cons, List.length_append] at hc hfuel
      have hends' : Ends ([.newline] ++ (writeLines w stmts ++
          .dedent :: rest)) := ((hends.cons _).append _).append _
      obtain ⟨kind, kinds, hwrite, hkind⟩ := Stmt.write_opens w stmt
      have hnewline : kind.sameClass .newline = false := by
        rcases hkind with ⟨k, rfl⟩ | ⟨name, rfl⟩ <;> rfl
      have hdedent : kind.sameClass .dedent = false := by
        rcases hkind with ⟨k, rfl⟩ | ⟨name, rfl⟩ <;> rfl
      have hfinish : kind.sameClass .finish = false := by
        rcases hkind with ⟨k, rfl⟩ | ⟨name, rfl⟩ <;> rfl
      rw [hwrite, List.cons_append] at hc
      apply (yields_lead hlead hc hnewline).bind
      intro _ c₁ _ hc₁
      apply yields_get
      have hat : c₁.isAt .dedent = false := by
        rw [Cursor.isAt, Cursor.kind_of_kinds hc₁, hdedent]
      have hend : c₁.atEnd = false := by
        rw [Cursor.atEnd, Cursor.kind_of_kinds hc₁, hfinish]
      simp only [hat, hend, Bool.false_eq_true, if_false]
      rw [← List.cons_append, ← hwrite] at hc₁
      apply ((ih m (by omega)).stmt hstmts.1 (by omega) hends' hc₁).bind
      intro found c₂ hfound hc₂
      apply (ihStmts (by omega) hstmts.2 (by omega) (.inr rfl) hc₂).mono
      intro all hall
      simp [hall, hfound]

theorem yields_block {block : Block} {m : Nat} (hm : m ≤ n)
    (hblock : block.isWritable) (hfuel : 8 * (block.write w).length ≤ m)
    (hends : Ends rest) (hc : c.kinds = block.write w ++ rest) :
    Yields (Parser.block m) c (·.bare = block.bare) rest := by
  obtain ⟨stmts, span⟩ := block
  rw [Block.isWritable] at hblock
  simp only [Block.write, List.cons_append, List.append_assoc,
    List.nil_append, List.length_cons, List.length_append] at hc hfuel
  obtain ⟨m, rfl⟩ := Nat.exists_eq_add_one_of_ne_zero (by omega : m ≠ 0)
  have hends' : Ends (writeLines w stmts ++ .dedent :: rest) :=
    (hends.cons _).append _
  apply yields_get
  apply (yields_eat hc rfl hends'.ne_nil).bind
  rintro _ c₁ rfl hc₁
  apply (yields_blockLines ih stmts (by omega) hblock (by omega) hends
    (.inl rfl) hc₁).bind
  intro found c₂ hfound hc₂
  apply (yields_expect hc₂ rfl hends.ne_nil).bind
  intro stop c₃ _ hc₃
  refine yields_pure ?_ hc₃
  rw [Block.bare, Block.bare, bareLines_eq_map, bareLines_eq_map, hfound]
  rfl

omit ih in
theorem yields_toBlock {block : Block}
    (hc : c.kinds = .newline :: (block.write w ++ rest)) :
    Yields skipNewlines c (fun _ => True) (block.write w ++ rest) := by
  obtain ⟨stmts, span⟩ := block
  rw [Block.write, List.cons_append] at hc ⊢
  exact yields_skipNewline hc rfl

theorem yields_body {body : Body} {m : Nat} (hm : m ≤ n)
    (hbody : body.isWritable) (hfuel : 8 * (body.write w).length ≤ m)
    (hends : Ends rest) (hc : c.kinds = body.write w ++ rest) :
    Yields (Parser.body m) c (·.bare = body.bare) rest := by
  cases body with
  | block block =>
      rw [Body.isWritable] at hbody
      simp only [Body.write, List.cons_append, List.length_cons] at hc hfuel
      obtain ⟨m, rfl⟩ := Nat.exists_eq_add_one_of_ne_zero (by omega : m ≠ 0)
      apply (yields_eat hc rfl ((hends.append _).cons _).ne_nil).bind
      rintro _ c₁ rfl hc₁
      apply (yields_toBlock hc₁).bind
      intro _ c₂ _ hc₂
      apply (yields_block ih (by omega) hbody (by omega) hends hc₂).bind
      intro found c₃ hfound hc₃
      refine yields_pure ?_ hc₃
      rw [Body.bare, Body.bare, hfound]
  | sentence stmt =>
      rw [Body.isWritable] at hbody
      simp only [Body.write, List.cons_append, List.append_assoc,
        List.nil_append, List.length_cons, List.length_append] at hc hfuel
      obtain ⟨m, rfl⟩ := Nat.exists_eq_add_one_of_ne_zero (by omega : m ≠ 0)
      apply (yields_not_eat hc rfl).bind
      rintro _ c₁ rfl hc₁
      apply (yields_eat hc₁ rfl ((hends.cons _).append _).ne_nil).bind
      rintro _ c₂ rfl hc₂
      apply ((ih m (by omega)).stmt hbody (by omega) hends hc₂).bind
      intro found c₃ hfound hc₃
      refine yields_pure ?_ hc₃
      rw [Body.bare, Body.bare, hfound]

theorem yields_alternative {body : Body} {m : Nat} (hm : m ≤ n)
    (hbody : body.isWritable) (hfuel : 8 * (body.write w).length < m)
    (hends : Ends rest) (hc : c.kinds = body.write w ++ rest) :
    Yields (alternative m) c (·.bare = body.bare) rest := by
  obtain ⟨m, rfl⟩ := Nat.exists_eq_add_one_of_ne_zero (by omega : m ≠ 0)
  apply yields_get
  cases body with
  | block block =>
      have hat : c.isAt (.symbol .colon) = true := by
        rw [Body.write, List.cons_append] at hc
        rw [Cursor.isAt, Cursor.kind_of_kinds hc]
        rfl
      rw [if_pos hat]
      exact yields_body ih (by omega) hbody (by omega) hends hc
  | sentence stmt =>
      rw [Body.isWritable] at hbody
      simp only [Body.write, List.cons_append, List.append_assoc,
        List.nil_append, List.length_cons, List.length_append,
        List.length_nil] at hc hfuel
      have hat : c.isAt (.symbol .colon) = false := by
        rw [Cursor.isAt, Cursor.kind_of_kinds hc]
        rfl
      simp only [hat, Bool.false_eq_true, if_false]
      apply (yields_eat hc rfl ((hends.cons _).append _).ne_nil).bind
      rintro _ c₁ rfl hc₁
      apply ((ih m (by omega)).stmt hbody (by omega) hends hc₁).bind
      intro found c₂ hfound hc₂
      refine yields_pure ?_ hc₂
      rw [Body.bare, Body.bare, hfound]

end Parts

end Prose.Parser
