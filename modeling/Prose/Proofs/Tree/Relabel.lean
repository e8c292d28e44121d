import Prose.Proofs.Tree.Writing

/-!
Trees up to a relabelling. A relabelling changes the names, the words and the
spans that a tree carries, and nothing else of it; two trees are alike if it
makes them equal. The spans can be forgotten that way, and so can the case in
which names are written.
-/

namespace Prose

/-- A change of names, of words and of spans, which keeps apart what differs in
more than case, and which can be told from the parts. -/
structure Relabelling where
  name : Name → Name
  words : String → String
  span : Span → Span
  key_eq : ∀ {m n : Name}, name m = name n → m.key = n.key
  words_text : ∀ {m n : Name}, name m = name n → words m.text = words n.text
  words_append : ∀ {s t : String} {m n : Name}, words s = words t →
    name m = name n → words (s ++ " " ++ m.text) = words (t ++ " " ++ n.text)
  span_merge : ∀ {s t s' t' : Span}, span s = span s' → span t = span t' →
    span (s.merge t) = span (s'.merge t')

/-- The relabelling that forgets the spans. -/
def Relabelling.spanless : Relabelling where
  name := id
  words := id
  span _ := .nowhere
  key_eq h := congrArg Name.key h
  words_text h := congrArg Name.text h
  words_append hs hm := by
    obtain rfl : _ = _ := hs
    obtain rfl : _ = _ := hm
    rfl
  span_merge _ _ := rfl

namespace Relabelling

@[simp] theorem spanless_name : spanless.name = id := rfl

@[simp] theorem spanless_words (s : String) : spanless.words s = s := rfl

@[simp] theorem spanless_span (s : Span) : spanless.span s = .nowhere := rfl

end Relabelling

/-! ### Trees -/

def ReadType.relabel (ρ : Relabelling) (type : ReadType) : ReadType :=
  ⟨ρ.words type.text, ρ.span type.span⟩

mutual

/-- An expression, relabelled. -/
@[simp] def Expr.relabel (ρ : Relabelling) : Expr → Expr
  | .integer value span => .integer value (ρ.span span)
  | .real value span => .real value (ρ.span span)
  | .name name span => .name (ρ.name name) (ρ.span span)
  | .text value span => .text value (ρ.span span)
  | .truth value span => .truth value (ρ.span span)
  | .list items span => .list (relabelItems ρ items) (ρ.span span)
  | .function params body span =>
    .function (params.map ρ.name) (body.relabel ρ) (ρ.span span)
  | .group inner span => .group (inner.relabel ρ) (ρ.span span)
  | .result call span => .result (call.relabel ρ) (ρ.span span)
  | .binary op left right span =>
    .binary op (left.relabel ρ) (right.relabel ρ) (ρ.span span)

@[simp] def relabelItems (ρ : Relabelling) : List Expr → List Expr
  | [] => []
  | item :: items => item.relabel ρ :: relabelItems ρ items

@[simp] def Call.relabel (ρ : Relabelling) : Call → Call
  | .mk callee args span =>
    .mk (callee.relabel ρ) (relabelArguments ρ args) (ρ.span span)

@[simp] def relabelArguments (ρ : Relabelling) : List Argument → List Argument
  | [] => []
  | arg :: args => arg.relabel ρ :: relabelArguments ρ args

@[simp] def Argument.relabel (ρ : Relabelling) : Argument → Argument
  | .mk name nameSpan value =>
    .mk (ρ.name name) (ρ.span nameSpan) (value.relabel ρ)

@[simp] def Target.relabel (ρ : Relabelling) : Target → Target
  | .name name => .name (ρ.name name)
  | .position list index => .position (list.relabel ρ) (index.relabel ρ)

@[simp] def Stmt.relabel (ρ : Relabelling) : Stmt → Stmt
  | .assign target value span =>
    .assign (target.relabel ρ) (value.relabel ρ) (ρ.span span)
  | .print value span => .print (value.relabel ρ) (ρ.span span)
  | .inspect value span => .inspect (value.relabel ρ) (ρ.span span)
  | .read type target span =>
    .read (type.map (·.relabel ρ)) (ρ.name target) (ρ.span span)
  | .add value list span =>
    .add (value.relabel ρ) (list.relabel ρ) (ρ.span span)
  | .remove list index span =>
    .remove (list.relabel ρ) (index.relabel ρ) (ρ.span span)
  | .loop condition body span =>
    .loop (condition.relabel ρ) (body.relabel ρ) (ρ.span span)
  | .branch condition body alternative span =>
    .branch (condition.relabel ρ) (body.relabel ρ)
      (relabelAlternative ρ alternative) (ρ.span span)
  | .forEach item list body span =>
    .forEach (ρ.name item) (list.relabel ρ) (body.relabel ρ) (ρ.span span)
  | .increment name span => .increment (ρ.name name) (ρ.span span)
  | .decrement name span => .decrement (ρ.name name) (ρ.span span)
  | .exit span => .exit (ρ.span span)
  | .run call span => .run (call.relabel ρ) (ρ.span span)
  | .result value span => .result (value.relabel ρ) (ρ.span span)

/-- What follows `otherwise`, relabelled. -/
@[simp] def relabelAlternative (ρ : Relabelling) : Option Body → Option Body
  | none => none
  | some body => some (body.relabel ρ)

@[simp] def Body.relabel (ρ : Relabelling) : Body → Body
  | .block block => .block (block.relabel ρ)
  | .sentence stmt => .sentence (stmt.relabel ρ)

@[simp] def Block.relabel (ρ : Relabelling) : Block → Block
  | .mk stmts span => .mk (relabelLines ρ stmts) (ρ.span span)

@[simp] def relabelLines (ρ : Relabelling) : List Stmt → List Stmt
  | [] => []
  | stmt :: stmts => stmt.relabel ρ :: relabelLines ρ stmts

end

section Lists

variable (ρ : Relabelling)

theorem relabelItems_eq_map (items : List Expr) :
    relabelItems ρ items = items.map (·.relabel ρ) := by
  induction items with
  | nil => rw [relabelItems, List.map_nil]
  | cons item items ih => rw [relabelItems, ih, List.map_cons]

theorem relabelArguments_eq_map (args : List Argument) :
    relabelArguments ρ args = args.map (·.relabel ρ) := by
  induction args with
  | nil => rw [relabelArguments, List.map_nil]
  | cons arg args ih => rw [relabelArguments, ih, List.map_cons]

theorem relabelLines_eq_map (stmts : List Stmt) :
    relabelLines ρ stmts = stmts.map (·.relabel ρ) := by
  induction stmts with
  | nil => rw [relabelLines, List.map_nil]
  | cons stmt stmts ih => rw [relabelLines, ih, List.map_cons]

end Lists

/-! ### Parts -/

section Parts

variable {ρ : Relabelling}

theorem Expr.span_relabel (e : Expr) : (e.relabel ρ).span = ρ.span e.span := by
  cases e <;> simp [Expr.span]

theorem Stmt.span_relabel (s : Stmt) : (s.relabel ρ).span = ρ.span s.span := by
  cases s <;> simp [Stmt.span]

theorem Stmt.isExit_relabel (s : Stmt) : (s.relabel ρ).isExit = s.isExit := by
  cases s <;> simp [Stmt.isExit]

theorem Call.span_relabel (call : Call) :
    (call.relabel ρ).span = ρ.span call.span := by
  obtain ⟨callee, args, span⟩ := call
  simp [Call.span]

theorem Block.span_relabel (block : Block) :
    (block.relabel ρ).span = ρ.span block.span := by
  obtain ⟨stmts, span⟩ := block
  simp [Block.span]

theorem Block.stmts_relabel (block : Block) :
    (block.relabel ρ).stmts = relabelLines ρ block.stmts := by
  obtain ⟨stmts, span⟩ := block
  simp [Block.stmts]

theorem Argument.value_relabel (arg : Argument) :
    (arg.relabel ρ).value = arg.value.relabel ρ := by
  obtain ⟨name, nameSpan, value⟩ := arg
  simp [Argument.value]

theorem Expr.span_of_alike {e e' : Expr} (h : e.relabel ρ = e'.relabel ρ) :
    ρ.span e.span = ρ.span e'.span := by
  rw [← Expr.span_relabel, h, Expr.span_relabel]

theorem Call.span_of_alike {c c' : Call} (h : c.relabel ρ = c'.relabel ρ) :
    ρ.span c.span = ρ.span c'.span := by
  rw [← Call.span_relabel, h, Call.span_relabel]

theorem Block.span_of_alike {b b' : Block} (h : b.relabel ρ = b'.relabel ρ) :
    ρ.span b.span = ρ.span b'.span := by
  rw [← Block.span_relabel, h, Block.span_relabel]

end Parts

/-! ### Relabelling twice -/

/-- A relabelling that does nothing more when it is done again. -/
structure Relabelling.Idempotent (ρ : Relabelling) : Prop where
  name : ∀ n, ρ.name (ρ.name n) = ρ.name n
  words : ∀ s, ρ.words (ρ.words s) = ρ.words s
  span : ∀ s, ρ.span (ρ.span s) = ρ.span s

section Idempotent

variable {ρ : Relabelling}

theorem ReadType.relabel_relabel (hρ : ρ.Idempotent) (type : ReadType) :
    (type.relabel ρ).relabel ρ = type.relabel ρ := by
  simp only [ReadType.relabel, hρ.words, hρ.span]

mutual

theorem Expr.relabel_relabel (hρ : ρ.Idempotent) (e : Expr) :
    (e.relabel ρ).relabel ρ = e.relabel ρ := by
  match e with
  | .integer _ _ | .real _ _ | .name _ _ | .text _ _ | .truth _ _ =>
      simp [hρ.name, hρ.span]
  | .list items _ => simp [relabelItems_relabelItems hρ items, hρ.span]
  | .function params body _ =>
      simp [hρ.name, hρ.span, Block.relabel_relabel hρ body, Function.comp_def]
  | .group inner _ => simp [Expr.relabel_relabel hρ inner, hρ.span]
  | .result call _ => simp [Call.relabel_relabel hρ call, hρ.span]
  | .binary op left right _ =>
      simp [Expr.relabel_relabel hρ left, Expr.relabel_relabel hρ right, hρ.span]

theorem relabelItems_relabelItems (hρ : ρ.Idempotent) (items : List Expr) :
    relabelItems ρ (relabelItems ρ items) = relabelItems ρ items := by
  match items with
  | [] => simp
  | item :: items =>
      simp [Expr.relabel_relabel hρ item, relabelItems_relabelItems hρ items]

theorem Call.relabel_relabel (hρ : ρ.Idempotent) (call : Call) :
    (call.relabel ρ).relabel ρ = call.relabel ρ := by
  match call with
  | .mk callee args _ =>
      simp [Expr.relabel_relabel hρ callee,
        relabelArguments_relabelArguments hρ args, hρ.span]

theorem relabelArguments_relabelArguments (hρ : ρ.Idempotent)
    (args : List Argument) :
    relabelArguments ρ (relabelArguments ρ args) =
      relabelArguments ρ args := by
  match args with
  | [] => simp
  | .mk name nameSpan value :: args =>
      simp [Expr.relabel_relabel hρ value,
        relabelArguments_relabelArguments hρ args, hρ.name, hρ.span]

theorem Target.relabel_relabel (hρ : ρ.Idempotent) (target : Target) :
    (target.relabel ρ).relabel ρ = target.relabel ρ := by
  match target with
  | .name _ => simp [hρ.name]
  | .position list index =>
      simp [Expr.relabel_relabel hρ list, Expr.relabel_relabel hρ index]

theorem Stmt.relabel_relabel (hρ : ρ.Idempotent) (s : Stmt) :
    (s.relabel ρ).relabel ρ = s.relabel ρ := by
  match s with
  | .assign target value _ =>
      simp [Target.relabel_relabel hρ target, Expr.relabel_relabel hρ value,
        hρ.span]
  | .print value _ | .inspect value _ | .result value _ =>
      simp [Expr.relabel_relabel hρ value, hρ.span]
  | .read type target _ =>
      cases type <;> simp [ReadType.relabel_relabel hρ, hρ.name, hρ.span]
  | .add value list _ =>
      simp [Expr.relabel_relabel hρ value, Expr.relabel_relabel hρ list, hρ.span]
  | .remove list index _ =>
      simp [Expr.relabel_relabel hρ list, Expr.relabel_relabel hρ index, hρ.span]
  | .loop condition body _ =>
      simp [Expr.relabel_relabel hρ condition, Body.relabel_relabel hρ body,
        hρ.span]
  | .branch condition body none _ =>
      simp [Expr.relabel_relabel hρ condition, Body.relabel_relabel hρ body,
        hρ.span]
  | .branch condition body (some alternative) _ =>
      simp [Expr.relabel_relabel hρ condition, Body.relabel_relabel hρ body,
        Body.relabel_relabel hρ alternative, hρ.span]
  | .forEach item list body _ =>
      simp [Expr.relabel_relabel hρ list, Body.relabel_relabel hρ body, hρ.name,
        hρ.span]
  | .increment _ _ | .decrement _ _ | .exit _ => simp [hρ.name, hρ.span]
  | .run call _ => simp [Call.relabel_relabel hρ call, hρ.span]

theorem Body.relabel_relabel (hρ : ρ.Idempotent) (body : Body) :
    (body.relabel ρ).relabel ρ = body.relabel ρ := by
  match body with
  | .block block => simp [Block.relabel_relabel hρ block]
  | .sentence stmt => simp [Stmt.relabel_relabel hρ stmt]

theorem Block.relabel_relabel (hρ : ρ.Idempotent) (block : Block) :
    (block.relabel ρ).relabel ρ = block.relabel ρ := by
  match block with
  | .mk stmts _ => simp [relabelLines_relabelLines hρ stmts, hρ.span]

theorem relabelLines_relabelLines (hρ : ρ.Idempotent) (stmts : List Stmt) :
    relabelLines ρ (relabelLines ρ stmts) = relabelLines ρ stmts := by
  match stmts with
  | [] => simp
  | stmt :: stmts =>
      simp [Stmt.relabel_relabel hρ stmt, relabelLines_relabelLines hρ stmts]

end

end Idempotent

/-! ### Trees without their spans -/

mutual

theorem Expr.relabel_spanless (e : Expr) : e.relabel .spanless = e.bare := by
  match e with
  | .integer _ _ | .real _ _ | .name _ _ | .text _ _ | .truth _ _ => simp
  | .list items _ => simp [relabelItems_spanless items]
  | .function params body _ => simp [Block.relabel_spanless body]
  | .group inner _ => simp [Expr.relabel_spanless inner]
  | .result call _ => simp [Call.relabel_spanless call]
  | .binary op left right _ =>
      simp [Expr.relabel_spanless left, Expr.relabel_spanless right]

theorem relabelItems_spanless (items : List Expr) :
    relabelItems .spanless items = bareItems items := by
  match items with
  | [] => simp
  | item :: items =>
      simp [Expr.relabel_spanless item, relabelItems_spanless items]

theorem Call.relabel_spanless (call : Call) :
    call.relabel .spanless = call.bare := by
  match call with
  | .mk callee args _ =>
      simp [Expr.relabel_spanless callee, relabelArguments_spanless args]

theorem relabelArguments_spanless (args : List Argument) :
    relabelArguments .spanless args = bareArguments args := by
  match args with
  | [] => simp
  | .mk name nameSpan value :: args =>
      simp [Expr.relabel_spanless value, relabelArguments_spanless args]

theorem Target.relabel_spanless (target : Target) :
    target.relabel .spanless = target.bare := by
  match target with
  | .name _ => simp
  | .position list index =>
      simp [Expr.relabel_spanless list, Expr.relabel_spanless index]

theorem Stmt.relabel_spanless (s : Stmt) : s.relabel .spanless = s.bare := by
  match s with
  | .assign target value _ =>
      simp [Target.relabel_spanless target, Expr.relabel_spanless value]
  | .print value _ | .inspect value _ | .result value _ =>
      simp [Expr.relabel_spanless value]
  | .read type target _ => cases type <;> simp [ReadType.relabel]
  | .add value list _ =>
      simp [Expr.relabel_spanless value, Expr.relabel_spanless list]
  | .remove list index _ =>
      simp [Expr.relabel_spanless list, Expr.relabel_spanless index]
  | .loop condition body _ =>
      simp [Expr.relabel_spanless condition, Body.relabel_spanless body]
  | .branch condition body none _ =>
      simp [Expr.relabel_spanless condition, Body.relabel_spanless body]
  | .branch condition body (some alternative) _ =>
      simp [Expr.relabel_spanless condition, Body.relabel_spanless body,
        Body.relabel_spanless alternative]
  | .forEach item list body _ =>
      simp [Expr.relabel_spanless list, Body.relabel_spanless body]
  | .increment _ _ | .decrement _ _ | .exit _ => simp
  | .run call _ => simp [Call.relabel_spanless call]

theorem Body.relabel_spanless (body : Body) :
    body.relabel .spanless = body.bare := by
  match body with
  | .block block => simp [Block.relabel_spanless block]
  | .sentence stmt => simp [Stmt.relabel_spanless stmt]

theorem Block.relabel_spanless (block : Block) :
    block.relabel .spanless = block.bare := by
  match block with
  | .mk stmts _ => simp [relabelLines_spanless stmts]

theorem relabelLines_spanless (stmts : List Stmt) :
    relabelLines .spanless stmts = bareLines stmts := by
  match stmts with
  | [] => simp
  | stmt :: stmts =>
      simp [Stmt.relabel_spanless stmt, relabelLines_spanless stmts]

end

end Prose
