import Mathlib.Logic.Relation
import Mathlib.Order.Nat
import Prose.Token
import Prose.Tree

/-!
The regions of a text that a tree lays out: one for every part of the tree that
has a span, function bodies and blocks included. A region holds those of its
parts in a row, one after the other, and a region without parts is a token. So
the regions below a region are well nested if each of them is.
-/

namespace Prose

/-- A part of a tree with the bytes it was read from. -/
inductive Region where
  | stmt (s : Stmt)
  | block (b : Block)
  | expr (e : Expr)
  | call (c : Call)
  /-- The name that an argument is given under. -/
  | argumentName (name : Name) (span : Span)
  /-- The type in a `Read` statement. -/
  | readType (type : ReadType)

def Argument.regions : Argument → List Region
  | .mk name nameSpan value => [.argumentName name nameSpan, .expr value]

def Target.regions : Target → List Region
  | .name _ => []
  | .position list index => [.expr list, .expr index]

def Body.region : Body → Region
  | .block b => .block b
  | .sentence s => .stmt s

/-- The regions of the parts of an expression, in the order they are written. -/
def Expr.parts : Expr → List Region
  | .list items _ => items.map .expr
  | .function _ body _ => [.block body]
  | .group inner _ => [.expr inner]
  | .result call _ => [.call call]
  | .binary _ left right _ => [.expr left, .expr right]
  | .integer _ _ | .real _ _ | .name _ _ | .text _ _ | .truth _ _ => []

def Stmt.parts : Stmt → List Region
  | .assign target value _ => target.regions ++ [.expr value]
  | .print value _ | .inspect value _ | .result value _ => [.expr value]
  | .read type _ _ => type.toList.map .readType
  | .add value list _ => [.expr value, .expr list]
  | .remove list index _ => [.expr list, .expr index]
  | .loop condition body _ => [.expr condition, body.region]
  | .branch condition body alternative _ =>
      .expr condition :: body.region :: alternative.toList.map Body.region
  | .forEach _ list body _ => [.expr list, body.region]
  | .run call _ => [.call call]
  | .increment _ _ | .decrement _ _ | .exit _ => []

namespace Region

def span : Region → Span
  | stmt s => s.span
  | block b => b.span
  | expr e => e.span
  | call c => c.span
  | argumentName _ span => span
  | readType type => type.span

/-- The regions directly inside a region, in the order they are written. -/
def children : Region → List Region
  | stmt s => s.parts
  | block b => b.stmts.map .stmt
  | expr e => e.parts
  | call c => .expr c.callee :: c.args.flatMap Argument.regions
  | argumentName _ _ | readType _ => []

/-- A region is the other one, or inside it however deep. -/
def Holds : Region → Region → Prop :=
  Relation.ReflTransGen fun r child => child ∈ r.children

/-- Regions are found by their numbers among those inside a region. -/
theorem holds_of_path {r inner : Region} {path : List Nat}
    (h : path.foldlM (fun r i => r.children[i]?) r = some inner) :
    r.Holds inner := by
  induction path generalizing r with
  | nil =>
      cases h
      exact .refl
  | cons i path ih =>
      obtain ⟨child, hchild, hinner⟩ := Option.bind_eq_some_iff.1 h
      exact .head (List.mem_of_getElem? hchild) (ih hinner)

/-- The token that a name, a literal or the name of an argument stands for. -/
def literal? : Region → Option Token.Kind
  | expr (.integer value _) => some (.integer value)
  | expr (.real value _) => some (.real value)
  | expr (.name name _) => some (.word name)
  | expr (.text value _) => some (.text value)
  | expr (.truth true _) => some (.keyword .yes)
  | expr (.truth false _) => some (.keyword .no)
  | argumentName name _ => some (.word name)
  | _ => none

end Region

/-- What a number stands for after a minus sign. -/
def Token.Kind.negated? : Token.Kind → Option Token.Kind
  | .integer value => some (.integer (-value))
  | .real value => some (.real (-value))
  | _ => none

/-! ### Regions on tokens -/

/-- The span holds bytes, from the beginning of a token to the end of one. -/
structure Span.Covers (tokens : List Token) (s : Span) : Prop where
  nonempty : s.start < s.stop
  first : ∃ t ∈ tokens, t.span.start = s.start
  last : ∃ t ∈ tokens, t.span.stop = s.stop

theorem Span.merge_eq {s t : Span} (hstart : s.start ≤ t.start)
    (hstop : s.stop ≤ t.stop) : s.merge t = ⟨s.start, t.stop⟩ := by
  rw [merge, Nat.min_eq_left hstart, Nat.max_eq_right hstop]

theorem Span.Covers.merge {tokens : List Token} {s t : Span}
    (hs : s.Covers tokens) (ht : t.Covers tokens) (h : s.stop ≤ t.start) :
    s.merge t = ⟨s.start, t.stop⟩ ∧ (s.merge t).Covers tokens := by
  have hnonempty := hs.nonempty
  have hnonempty' := ht.nonempty
  have hmerge : s.merge t = ⟨s.start, t.stop⟩ :=
    merge_eq (by omega) (by omega)
  rw [hmerge]
  refine ⟨rfl, ?_, hs.first, ht.last⟩
  change s.start < t.stop
  omega

/-- A region that stands for a token has the span of that token, or that of a
minus sign and the number after it. -/
def Region.Reads (tokens : List Token) (r : Region) : Prop :=
  ∀ kind, r.literal? = some kind → ⟨kind, r.span⟩ ∈ tokens ∨
    ∃ minus number, [minus, number] <:+: tokens ∧
      minus.kind = .symbol .minus ∧ number.kind.negated? = some kind ∧
      r.span = ⟨minus.span.start, number.span.stop⟩

mutual

/-- A region lies on tokens, and the regions inside it are in a row there. -/
inductive Region.Nested (tokens : List Token) : Region → Prop
  | intro {r : Region} : r.span.Covers tokens → r.Reads tokens →
      Region.Row tokens r.span.start r.children r.span.stop →
      Region.Nested tokens r

/-- Nested regions one after the other, between two offsets. -/
inductive Region.Row (tokens : List Token) : Nat → List Region → Nat → Prop
  | nil {low high : Nat} : low ≤ high → Region.Row tokens low [] high
  | cons {low high : Nat} {r : Region} {rs : List Region} :
      low ≤ r.span.start → Region.Nested tokens r →
      Region.Row tokens r.span.stop rs high →
      Region.Row tokens low (r :: rs) high

end

namespace Region

variable {tokens : List Token} {r parent : Region} {rs more : List Region}
  {low low' mid high high' : Nat}

namespace Nested

theorem covers (h : r.Nested tokens) : r.span.Covers tokens := by
  cases h with
  | intro hcovers _ _ => exact hcovers

theorem reads (h : r.Nested tokens) : r.Reads tokens := by
  cases h with
  | intro _ hreads _ => exact hreads

theorem row (h : r.Nested tokens) :
    Row tokens r.span.start r.children r.span.stop := by
  cases h with
  | intro _ _ hrow => exact hrow

/-- A region that stands for no token of its own. -/
theorem of_row (hliteral : r.literal? = none) (hcovers : r.span.Covers tokens)
    (hrow : Row tokens r.span.start r.children r.span.stop) :
    r.Nested tokens := by
  refine .intro hcovers ?_ hrow
  intro kind hkind
  rw [hliteral] at hkind
  cases hkind

/-- A region without parts. -/
theorem of_leaf (hchildren : r.children = []) (hcovers : r.span.Covers tokens)
    (hreads : r.Reads tokens) : r.Nested tokens := by
  refine .intro hcovers hreads ?_
  rw [hchildren]
  exact .nil hcovers.nonempty.le

end Nested

namespace Row

theorem le (h : Row tokens low rs high) : low ≤ high := by
  induction rs generalizing low with
  | nil =>
      cases h with
      | nil hle => exact hle
  | cons r rs ih =>
      cases h with
      | cons hlow hr hrs =>
          have hnonempty := hr.covers.nonempty
          have hle := ih hrs
          omega

theorem mono (h : Row tokens low rs high) (hlow : low' ≤ low)
    (hhigh : high ≤ high') : Row tokens low' rs high' := by
  induction rs generalizing low low' with
  | nil =>
      cases h with
      | nil hle => exact .nil (hlow.trans (hle.trans hhigh))
  | cons r rs ih =>
      cases h with
      | cons hstart hr hrs => exact .cons (hlow.trans hstart) hr (ih hrs le_rfl)

theorem append (h : Row tokens low rs mid) (h' : Row tokens mid more high) :
    Row tokens low (rs ++ more) high := by
  induction rs generalizing low with
  | nil => exact h'.mono h.le le_rfl
  | cons r rs ih =>
      cases h with
      | cons hstart hr hrs => exact .cons hstart hr (ih hrs)

theorem singleton (hr : r.Nested tokens) (hlow : low ≤ r.span.start)
    (hhigh : r.span.stop ≤ high) : Row tokens low [r] high :=
  .cons hlow hr (.nil hhigh)

theorem of_singleton (h : Row tokens low [r] high) :
    low ≤ r.span.start ∧ r.Nested tokens ∧ r.span.stop ≤ high := by
  cases h with
  | cons hlow hr hnil =>
      cases hnil with
      | nil hhigh => exact ⟨hlow, hr, hhigh⟩

/-- The parts of a region are in a row where the region is. -/
theorem parts (h : Row tokens low [r] high) : Row tokens low r.children high := by
  obtain ⟨hlow, hr, hhigh⟩ := h.of_singleton
  exact hr.row.mono hlow hhigh

theorem of_mem (h : Row tokens low rs high) (hr : r ∈ rs) :
    low ≤ r.span.start ∧ r.Nested tokens ∧ r.span.stop ≤ high := by
  induction rs generalizing low with
  | nil => cases hr
  | cons first rest ih =>
      cases h with
      | cons hlow hfirst hrest =>
          rcases List.mem_cons.1 hr with rfl | hr
          · exact ⟨hlow, hfirst, hrest.le⟩
          · have hnonempty := hfirst.covers.nonempty
            obtain ⟨hstart, hnested, hstop⟩ := ih hrest hr
            exact ⟨by omega, hnested, hstop⟩

theorem pairwise (h : Row tokens low rs high) :
    rs.Pairwise fun a b => a.span.stop ≤ b.span.start := by
  induction rs generalizing low with
  | nil => exact .nil
  | cons first rest ih =>
      cases h with
      | cons hlow hfirst hrest =>
          exact List.pairwise_cons.2 ⟨fun r hr => (hrest.of_mem hr).1, ih hrest⟩

end Row

/-- Every region inside a nested one is nested. -/
theorem Nested.of_holds (hparent : parent.Nested tokens)
    (h : parent.Holds r) : r.Nested tokens := by
  induction h with
  | refl => exact hparent
  | tail _ hchild ih => exact (ih.row.of_mem hchild).2.1

/-! ### Parts with a span of their own -/

/-- Two regions lie in the span from the one to the other. -/
theorem Row.merge {first last : Region}
    (h : Row tokens low [first, last] high) :
    let s := first.span.merge last.span
    s.Covers tokens ∧ low ≤ s.start ∧ s.stop ≤ high ∧
      Row tokens s.start [first, last] s.stop := by
  cases h with
  | cons hlow hfirst hrest =>
      obtain ⟨hbetween, hlast, hhigh⟩ := hrest.of_singleton
      obtain ⟨hmerge, hcovers⟩ := hfirst.covers.merge hlast.covers hbetween
      refine ⟨hcovers, ?_⟩
      rw [hmerge]
      exact ⟨hlow, hhigh, .cons le_rfl hfirst (.singleton hlast hbetween le_rfl)⟩

/-- Two operands make an expression. -/
theorem Row.binary {left right : Expr} (op : Operator)
    (h : Row tokens low [.expr left, .expr right] high) :
    Row tokens low [.expr (.binary op left right (left.span.merge right.span))]
      high := by
  obtain ⟨hcovers, hlow, hhigh, hrow⟩ := h.merge
  exact .singleton (.of_row rfl hcovers hrow) hlow hhigh

/-- The words of a type make one region. -/
theorem Row.readType {type word : ReadType} (text : String)
    (h : Row tokens low [.readType type, .readType word] high) :
    Row tokens low [.readType ⟨text, type.span.merge word.span⟩] high := by
  obtain ⟨hcovers, hlow, hhigh, -⟩ := h.merge
  exact .singleton (.of_row rfl hcovers (.nil hcovers.nonempty.le)) hlow hhigh

/-- The values of arguments carry a span on to the last of them. -/
theorem Row.arguments {args : List Argument} {s : Span} (hs : s.Covers tokens)
    (h : Row tokens s.stop (args.flatMap Argument.regions) high) :
    let all := args.foldl (fun s a => s.merge a.value.span) s
    all.start = s.start ∧ all.Covers tokens ∧ all.stop ≤ high ∧
      Row tokens s.stop (args.flatMap Argument.regions) all.stop := by
  induction args generalizing s with
  | nil => exact ⟨rfl, hs, h.le, .nil le_rfl⟩
  | cons arg args ih =>
      obtain ⟨name, nameSpan, value⟩ := arg
      cases h with
      | cons hname hnested hrest =>
          cases hrest with
          | cons hvalue hnested' hrest =>
              have hbetween : s.stop ≤ value.span.start := by
                have hnonempty := hnested.covers.nonempty
                exact hname.trans (hnonempty.le.trans hvalue)
              obtain ⟨hmerge, hcovers⟩ :
                  s.merge value.span = ⟨s.start, value.span.stop⟩ ∧
                    (s.merge value.span).Covers tokens :=
                hs.merge hnested'.covers hbetween
              have hstop : (s.merge value.span).stop = value.span.stop := by
                rw [hmerge]
              have hstart : (s.merge value.span).start = s.start := by
                rw [hmerge]
              change Row tokens value.span.stop _ high at hrest
              rw [← hstop] at hrest
              obtain ⟨hfirst, hall, hhigh, hrow⟩ := ih hcovers hrest
              rw [hstop] at hrow
              exact ⟨hfirst.trans hstart, hall, hhigh,
                .cons hname hnested (.cons hvalue hnested' hrow)⟩

/-- A callee and arguments make a call. -/
theorem Row.call {callee : Expr} {args : List Argument}
    (h : Row tokens low (.expr callee :: args.flatMap Argument.regions) high) :
    Row tokens low [.call (.mk callee args
      (args.foldl (fun s a => s.merge a.value.span) callee.span))] high := by
  cases h with
  | cons hlow hcallee hargs =>
      obtain ⟨hstart, hcovers, hhigh, hrow⟩ := Row.arguments hcallee.covers hargs
      refine .singleton (.of_row rfl hcovers ?_) ?_ hhigh
      · exact .cons hstart.le hcallee hrow
      · exact hlow.trans hstart.ge

end Region

end Prose
