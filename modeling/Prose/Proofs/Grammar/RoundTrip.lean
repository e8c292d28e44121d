import Prose.Proofs.Grammar.Statements
import Prose.Proofs.Token.Spelling

/-!
Writing a statement as text and reading the text. Every token of a written
statement can be spelled, so the text is cut into the written tokens, and these
are read back: the same statement, with spans of its own.
-/

namespace Prose

open Token.Kind

/-! ### Written tokens can be spelled -/

theorem Name.isSpellable_of_isPlain {name : Name} (hname : name.isPlain) :
    (Token.Kind.word name).isSpellable := by
  simp only [isPlain, Bool.and_eq_true] at hname
  rw [isSpellable, Bool.and_eq_true]
  exact hname.1

theorem Operator.all_isSpellable_write (op : Operator) (choice : Nat) :
    (op.write choice).all isSpellable := by
  have hall : ∀ kinds ∈ op.wordings, kinds.all isSpellable := by
    cases op <;> decide
  exact hall _ (op.write_mem choice)

theorem all_isSpellable_writeNames {names : List Name}
    (hnames : names.all Name.isPlain) (mark : List Token.Kind)
    (hmark : mark.all isSpellable) :
    (writeNames mark names).all isSpellable := by
  induction names generalizing mark with
  | nil => rfl
  | cons name names ih =>
      simp only [List.all_cons, Bool.and_eq_true] at hnames
      simp only [writeNames, List.all_append, List.all_cons, Bool.and_eq_true]
      exact ⟨hmark, Name.isSpellable_of_isPlain hnames.1, ih hnames.2 _ rfl⟩

theorem all_isSpellable_writeType {type : Option ReadType}
    (htype : type.all fun type => type.words.all Name.isPlain) :
    (writeType type).all isSpellable := by
  cases type with
  | none => rfl
  | some type =>
      simp only [Option.all_some, List.all_eq_true] at htype
      simp only [writeType, List.all_cons, List.all_map, Bool.and_eq_true,
        List.all_eq_true]
      exact ⟨rfl, fun name hname => Name.isSpellable_of_isPlain (htype name hname)⟩

theorem zero_le_neg {value : Int64} (hvalue : value < 0)
    (hmin : value ≠ Int64.minValue) : 0 ≤ -value := by
  have hneg : value.toInt < 0 := Int64.lt_iff_toInt_lt.1 hvalue
  rw [Int64.le_iff_toInt_le, toInt_neg_of_ne hmin]
  change (0 : Int) ≤ _
  omega

mutual

theorem Expr.all_isSpellable_write (w : Wording) :
    ∀ (e : Expr) (grouped : Bool), e.isWritable grouped →
      (e.write w).all isSpellable
  | .integer value _, _, he => by
      rw [Expr.isWritable, bne_iff_ne] at he
      rw [Expr.write]
      split
      · next hvalue =>
          have hneg := zero_le_neg hvalue he
          simp [isSpellable, hneg]
      · next hvalue =>
          have hpos : 0 ≤ value := Int64.not_lt.1 hvalue
          simp [isSpellable, hpos]
  | .real _ _, _, he => by cases he
  | .name name _, _, he => by
      rw [Expr.write, List.all_cons, Name.isSpellable_of_isPlain he]
      rfl
  | .text value _, _, he => by
      rw [Expr.isWritable] at he
      rw [Expr.write, List.all_cons, isSpellable, he]
      rfl
  | .truth value _, _, _ => by
      rw [Expr.write]
      rfl
  | .list items _, _, he => by
      rw [Expr.isWritable] at he
      rw [Expr.write, List.all_cons, List.all_append,
        all_isSpellable_writeItems w items he [] rfl]
      rfl
  | .function params body _, _, he => by
      rw [Expr.isWritable, Bool.and_eq_true] at he
      simp only [Expr.write, List.all_cons, List.all_append,
        all_isSpellable_writeNames he.1 [.ofWord "given"] rfl,
        body.all_isSpellable_write w he.2]
      rfl
  | .group inner _, _, he => by
      rw [Expr.isWritable] at he
      rw [Expr.write, List.all_cons, List.all_append,
        inner.all_isSpellable_write w true he]
      rfl
  | .result call _, _, he => by
      simp only [Expr.isWritable, Bool.and_eq_true] at he
      simp only [Expr.write, List.all_cons,
        call.all_isSpellable_write w he.1.2]
      rfl
  | .binary op left right span, _, he => by
      simp only [Expr.isWritable, Bool.and_eq_true] at he
      simp only [Expr.write, List.all_append,
        left.all_isSpellable_write w false he.1.1.1,
        right.all_isSpellable_write w false he.1.1.2,
        op.all_isSpellable_write (w span)]
      rfl

theorem all_isSpellable_writeItems (w : Wording) :
    ∀ items : List Expr, areWritableItems items → ∀ mark : List Token.Kind,
      mark.all isSpellable → (writeItems w mark items).all isSpellable
  | [], _, _, _ => rfl
  | item :: items, hitems, mark, hmark => by
      simp only [areWritableItems, Bool.and_eq_true] at hitems
      simp only [writeItems, List.all_append, hmark,
        item.all_isSpellable_write w false hitems.1,
        all_isSpellable_writeItems w items hitems.2 [.symbol .comma] rfl]
      rfl

theorem Call.all_isSpellable_write (w : Wording) :
    ∀ call : Call, call.isWritable → (call.write w).all isSpellable
  | .mk callee args _, hcall => by
      simp only [Call.isWritable, Bool.and_eq_true] at hcall
      simp only [Call.write, List.all_append,
        callee.all_isSpellable_write w false hcall.1,
        all_isSpellable_writeArguments w args hcall.2 [.ofWord "with"] rfl]
      rfl

theorem all_isSpellable_writeArguments (w : Wording) :
    ∀ args : List Argument, areWritableArguments args →
      ∀ mark : List Token.Kind, mark.all isSpellable →
        (writeArguments w mark args).all isSpellable
  | [], _, _, _ => rfl
  | arg :: args, hargs, mark, hmark => by
      simp only [areWritableArguments, Bool.and_eq_true] at hargs
      simp only [writeArguments, List.all_append, hmark,
        arg.all_isSpellable_write w hargs.1,
        all_isSpellable_writeArguments w args hargs.2 [.symbol .comma] rfl]
      rfl

theorem Argument.all_isSpellable_write (w : Wording) :
    ∀ arg : Argument, arg.isWritable → (arg.write w).all isSpellable
  | .mk name _ value, harg => by
      simp only [Argument.isWritable, Bool.and_eq_true] at harg
      simp only [Argument.write, List.all_cons,
        Name.isSpellable_of_isPlain harg.1,
        value.all_isSpellable_write w false harg.2]
      rfl

theorem Target.all_isSpellable_write (w : Wording) :
    ∀ target : Target, target.isWritable → (target.write w).all isSpellable
  | .name name, htarget => by
      rw [Target.write, List.all_cons, Name.isSpellable_of_isPlain htarget]
      rfl
  | .position list index, htarget => by
      simp only [Target.isWritable, Bool.and_eq_true] at htarget
      simp only [Target.write, List.all_append,
        list.all_isSpellable_write w false htarget.1.1.1,
        index.all_isSpellable_write w false htarget.1.1.2,
        Operator.all_isSpellable_write]
      rfl

theorem Stmt.all_isSpellable_write (w : Wording) :
    ∀ s : Stmt, s.isWritable → (s.write w).all isSpellable
  | .assign target value span, hs => by
      simp only [Stmt.isWritable, Bool.and_eq_true] at hs
      have hleft := target.all_isSpellable_write w hs.1
      have hright := value.all_isSpellable_write w false hs.2
      rw [Stmt.write]
      split
      · simp only [List.all_append, List.all_cons, hleft, hright]
        rfl
      · simp only [List.all_append, List.all_cons, hleft, hright]
        rfl
  | .print value _, hs | .inspect value _, hs | .result value _, hs => by
      rw [Stmt.isWritable] at hs
      simp only [Stmt.write, List.all_cons,
        value.all_isSpellable_write w false hs]
      rfl
  | .read type target _, hs => by
      simp only [Stmt.isWritable, Bool.and_eq_true] at hs
      simp only [Stmt.write, List.all_cons, List.all_append,
        all_isSpellable_writeType hs.1, Name.isSpellable_of_isPlain hs.2]
      rfl
  | .add value list _, hs => by
      simp only [Stmt.isWritable, Bool.and_eq_true] at hs
      simp only [Stmt.write, List.all_cons, List.all_append,
        value.all_isSpellable_write w false hs.1,
        list.all_isSpellable_write w false hs.2]
      rfl
  | .remove list index _, hs => by
      simp only [Stmt.isWritable, Bool.and_eq_true] at hs
      simp only [Stmt.write, List.all_cons, List.all_append,
        list.all_isSpellable_write w false hs.1.1.1,
        index.all_isSpellable_write w false hs.1.1.2,
        Operator.all_isSpellable_write]
      rfl
  | .loop condition body _, hs => by
      simp only [Stmt.isWritable, Bool.and_eq_true] at hs
      simp only [Stmt.write, List.all_cons, List.all_append,
        condition.all_isSpellable_write w false hs.1,
        body.all_isSpellable_write w hs.2]
      rfl
  | .branch condition body alternative _, hs => by
      simp only [Stmt.isWritable, Bool.and_eq_true] at hs
      simp only [Stmt.write, List.all_cons, List.all_append,
        condition.all_isSpellable_write w false hs.1.1,
        body.all_isSpellable_write w hs.1.2,
        all_isSpellable_writeAlternative w alternative hs.2]
      rfl
  | .forEach item list body _, hs => by
      simp only [Stmt.isWritable, Bool.and_eq_true] at hs
      simp only [Stmt.write, List.all_cons, List.all_append,
        Name.isSpellable_of_isPlain hs.1.1,
        list.all_isSpellable_write w false hs.1.2,
        body.all_isSpellable_write w hs.2]
      rfl
  | .increment name _, hs | .decrement name _, hs => by
      rw [Stmt.isWritable] at hs
      simp only [Stmt.write, List.all_cons, Name.isSpellable_of_isPlain hs]
      rfl
  | .exit _, _ => by
      rw [Stmt.write]
      rfl
  | .run call _, hs => by
      rw [Stmt.isWritable] at hs
      rw [Stmt.write, List.all_cons, call.all_isSpellable_write w hs]
      rfl

theorem all_isSpellable_writeAlternative (w : Wording) :
    ∀ alternative : Option Body, isWritableAlternative alternative →
      (writeAlternative w alternative).all isSpellable
  | none, _ => rfl
  | some body, hbody => by
      rw [isWritableAlternative] at hbody
      rw [writeAlternative, List.all_cons, body.all_isSpellable_write w hbody]
      rfl

theorem Body.all_isSpellable_write (w : Wording) :
    ∀ body : Body, body.isWritable → (body.write w).all isSpellable
  | .block block, hbody => by
      rw [Body.isWritable] at hbody
      simp only [Body.write, List.all_cons,
        block.all_isSpellable_write w hbody]
      rfl
  | .sentence stmt, hbody => by
      rw [Body.isWritable] at hbody
      simp only [Body.write, List.all_cons, List.all_append,
        stmt.all_isSpellable_write w hbody]
      rfl

theorem Block.all_isSpellable_write (w : Wording) :
    ∀ block : Block, block.isWritable → (block.write w).all isSpellable
  | .mk stmts _, hblock => by
      rw [Block.isWritable] at hblock
      simp only [Block.write, List.all_cons, List.all_append,
        all_isSpellable_writeLines w stmts hblock]
      rfl

theorem all_isSpellable_writeLines (w : Wording) :
    ∀ stmts : List Stmt, areWritableLines stmts →
      (writeLines w stmts).all isSpellable
  | [], _ => rfl
  | stmt :: stmts, hstmts => by
      simp only [areWritableLines, Bool.and_eq_true] at hstmts
      simp only [writeLines, List.all_append, List.all_cons,
        stmt.all_isSpellable_write w hstmts.1,
        all_isSpellable_writeLines w stmts hstmts.2]
      rfl

end

/-! ### Reading back -/

/-- The text of a statement, with the full stop that ends it. -/
def Stmt.text (w : Wording) (s : Stmt) : List Char :=
  spellAll (s.write w ++ [.symbol .dot])

namespace Parser

theorem yields_finish {c : Cursor} (hc : c.kinds = [.finish]) :
    Yields finish c (fun _ => True) [.finish] := by
  apply (yields_skipNewlines hc rfl).bind
  intro _ c₁ _ hc₁
  apply yields_get
  have hend : c₁.atEnd = true := by
    rw [Cursor.atEnd, Cursor.kind_of_kinds hc₁]
    rfl
  rw [if_pos hend]
  exact yields_pure trivial hc₁

theorem yields_completeStatement (w : Wording) {s : Stmt} (hs : s.isWritable)
    {c : Cursor} (depth : Nat) (hdepth : 8 * ((s.write w).length + 1) ≤ depth)
    (hc : c.kinds = s.write w ++ [.symbol .dot, .finish]) :
    Yields (completeStatement depth) c (·.bare = s.bare) [.finish] := by
  obtain ⟨kind, kinds, hwrite, hkind⟩ := Stmt.write_opens w s
  have hnewline : kind.sameClass .newline = false := by
    rcases hkind with ⟨k, rfl⟩ | ⟨name, rfl⟩ <;> rfl
  rw [hwrite, List.cons_append] at hc
  apply (yields_skipNewlines hc hnewline).bind
  intro _ c₁ _ hc₁
  rw [← List.cons_append, ← hwrite] at hc₁
  have hends : Ends [.finish] := rfl
  apply ((readsBack w depth).stmt hs hdepth hends hc₁).bind
  intro found c₂ hfound hc₂
  apply (yields_finish hc₂).bind
  intro _ c₃ _ hc₃
  exact yields_pure hfound hc₃

theorem parseStatement_of_kinds (w : Wording) {s : Stmt} (hs : s.isWritable)
    {tokens : List Token}
    (htokens : tokens.map (·.kind) = s.write w ++ [.symbol .dot, .finish]) :
    ∃ found, parseStatement tokens = .ok found ∧ found.bare = s.bare := by
  have hlength := congrArg List.length htokens
  simp only [List.length_map, List.length_append, List.length_cons,
    List.length_nil] at hlength
  cases tokens with
  | nil => simp at hlength
  | cons token tokens =>
      let c : Cursor := ⟨[], token, tokens⟩
      obtain ⟨found, c', hrun, hbare, -⟩ :=
        yields_completeStatement w hs (depthBound (token :: tokens).length)
          (by unfold depthBound; omega) (show c.kinds = _ from htokens)
      refine ⟨found, ?_, hbare⟩
      rw [parseStatement, runOn, Cursor.ofTokens?]
      change (completeStatement _ c).map _ = _
      rw [hrun]
      rfl

end Parser

/-- A statement is read back from its text, whichever way it is written: the
same statement, with spans of its own. -/
theorem parseText_text (w : Wording) {s : Stmt} (hs : s.isWritable) :
    ∃ found, parseText (s.text w) = .ok found ∧ found.bare = s.bare := by
  have hkinds : ∀ kind ∈ s.write w ++ [.symbol .dot], kind.isSpellable := by
    rw [← List.all_eq_true, List.all_append, s.all_isSpellable_write w hs]
    rfl
  obtain ⟨herrors, htokens⟩ := lex_spellAll hkinds
  rw [List.append_assoc] at htokens
  obtain ⟨found, hparse, hbare⟩ :=
    Parser.parseStatement_of_kinds w hs htokens
  refine ⟨found, ?_, hbare⟩
  rw [parseText, Stmt.text, herrors]
  exact hparse

/-- A branch inside another, which alone has an alternative, with operators in
words and a call in parentheses. -/
theorem parseText_text_branch :
    let x : Expr := .name (.ofString "x") .nowhere
    let minus : Expr := .integer (-3) .nowhere
    let call : Expr := .group (.result
      (.mk x [.mk (.ofString "p") .nowhere minus] .nowhere) .nowhere) .nowhere
    let power : Expr := .binary .power x (.binary .power minus call ⟨1, 1⟩)
      ⟨1, 1⟩
    let s : Stmt := .branch (.binary .notEqual power x ⟨1, 1⟩)
      (.sentence (.branch x (.sentence (.add power x .nowhere)) none .nowhere))
      (some (.block (.mk
        [.assign (.position x minus) power ⟨1, 1⟩, .exit .nowhere]
        .nowhere))) .nowhere
    s.isWritable = true ∧
    ∃ found, parseText (s.text fun span => span.start) = .ok found ∧
      found.bare = s.bare := by
  intro x minus call power s
  have hs : s.isWritable = true := by decide
  exact ⟨hs, parseText_text (fun span => span.start) hs⟩

end Prose
