import Prose.Proofs.Grammar.Progress
import Prose.Proofs.Token.Places
import Prose.Proofs.Tree.Regions

/-!
What lies between two cursors. On tokens that stand in order, a cursor that
moves on moves to the right; the regions that were gathered on the way are in a
row between the place where it started and the end of the last token passed.
Tokens may be passed without gathering, what was gathered further on is added at
the end, and regions that were gathered become the parts of one that is closed.
-/

namespace Prose

open Cursor Prose.Parser

/-- A span that does not begin before a token does not end before it either. -/
theorem InOrder.stop_le {tokens : List Token} (h : InOrder tokens) {t : Token}
    (ht : t ∈ tokens) {s : Span} (hs : s.Covers tokens)
    (hstart : t.span.start ≤ s.start) : t.span.stop ≤ s.stop := by
  obtain ⟨last, hlast, hstop⟩ := hs.last
  have hnonempty := hs.nonempty
  have hforward := h.forward last hlast
  obtain ⟨i, hi, rfl⟩ := List.mem_iff_getElem.1 ht
  obtain ⟨j, hj, rfl⟩ := List.mem_iff_getElem.1 hlast
  have hpairs := List.pairwise_iff_getElem.1 h.pairwise
  rcases Nat.lt_trichotomy i j with hlt | rfl | hlt
  · have horder := hpairs i j hi hj hlt
    omega
  · omega
  · have horder := hpairs j i hj hi hlt
    omega

namespace Cursor

variable {start c d : Cursor} {on on' : Bool} {rs more : List Region}
  {r child : Region}

theorem Leads.eq_or_on (h : c.Leads on d) :
    on = false ∧ d = c ∨ c.Leads true d := by
  obtain ⟨read, hway, hread⟩ := h
  cases read with
  | nil =>
      left
      constructor
      · rw [Bool.eq_false_iff]
        exact fun hon => hread hon rfl
      · obtain ⟨passed, current, ahead⟩ := d
        obtain ⟨rfl, rfl⟩ := List.cons.inj hway.ahead
        rw [show passed = c.passed from hway.passed]
  | cons t ts => exact Or.inr ⟨t :: ts, hway, fun _ => List.cons_ne_nil _ _⟩

/-- The first token of a way and the last one. -/
theorem Leads.first_last (h : start.Leads true c) (ho : InOrder c.tokens) :
    start.span.start < start.span.stop ∧
      start.span.start ≤ c.previousSpan.start ∧
      start.span.stop ≤ c.previousSpan.stop ∧
      c.previousSpan.stop ≤ c.span.start ∧
      start.current ∈ c.tokens ∧ ∃ t ∈ c.tokens, t.span = c.previousSpan := by
  obtain ⟨read, hway, hread⟩ := h
  have htokens : c.tokens =
      start.passed.reverse ++ (read ++ c.current :: c.ahead) := by
    rw [hway.tokens_eq, tokens, hway.ahead]
  obtain ⟨first, rest, rfl⟩ := List.exists_cons_of_ne_nil (hread rfl)
  obtain rfl : start.current = first := (List.cons.inj hway.ahead).1
  have hfirst : start.current ∈ c.tokens := by
    rw [htokens]
    simp
  have hnonempty := ho.nonempty start.current hfirst
    (Token.Kind.ne_finish_of_isPart (hway.parts _ List.mem_cons_self))
  change start.span.start < start.span.stop at hnonempty
  have hpairs := ho.pairwise
  rw [htokens] at hpairs
  have hpairs := (List.pairwise_append.1 hpairs).2.1
  rcases List.eq_nil_or_concat rest with rfl | ⟨rest, last, rfl⟩
  · have hlast : c.previousSpan = start.span := by
      rw [previousSpan, hway.passed]
      rfl
    rw [hlast]
    refine ⟨hnonempty, le_rfl, le_rfl, ?_, hfirst, start.current, hfirst, rfl⟩
    exact List.rel_of_pairwise_cons hpairs List.mem_cons_self
  · have hlast : c.previousSpan = last.span := by
      rw [previousSpan, hway.passed, List.concat_eq_append]
      simp
    have hmem : last ∈ c.tokens := by
      rw [htokens]
      simp
    have hafter : start.span.stop ≤ last.span.start :=
      List.rel_of_pairwise_cons hpairs (by simp)
    have hbefore : last.span.stop ≤ c.span.start :=
      (List.pairwise_append.1 hpairs).2.2 last (by simp) c.current (by simp)
    have hforward := ho.forward last hmem
    rw [hlast]
    exact ⟨hnonempty, by omega, by omega, hbefore, hfirst, last, hmem, rfl⟩

theorem Leads.covers (h : start.Leads true c) (ho : InOrder c.tokens) :
    start.span.merge c.previousSpan =
        ⟨start.span.start, c.previousSpan.stop⟩ ∧
      (start.span.merge c.previousSpan).Covers c.tokens := by
  obtain ⟨hnonempty, hstart, hstop, -, hfirst, last, hlast, hspan⟩ :=
    h.first_last ho
  have hmerge := Span.merge_eq hstart hstop
  rw [hmerge]
  refine ⟨rfl, ?_, ⟨_, hfirst, rfl⟩, ⟨last, hlast, by rw [hspan]⟩⟩
  exact hnonempty.trans_le hstop

/-- How far a cursor has got: to the end of the token passed last if it has
moved on, else to the token it is at. -/
def reach (c : Cursor) (on : Bool) : Nat :=
  if on then c.previousSpan.stop else c.span.start

/-- A cursor gets from one place to another and gathers regions in between. -/
structure Gathers (start : Cursor) (on : Bool) (rs : List Region) (c : Cursor) :
    Prop where
  leads : start.Leads on c
  ordered : InOrder c.tokens
  row : Region.Row c.tokens start.span.start rs (c.reach on)

namespace Gathers

theorem refl (ho : InOrder c.tokens) (hends : Ends c.kinds) :
    c.Gathers false [] c :=
  ⟨.refl hends, ho, .nil le_rfl⟩

/-- From any place the cursor can start again. -/
theorem here (h : start.Gathers on rs c) : c.Gathers false [] c :=
  .refl h.ordered h.leads.ends

theorem step (h : start.Gathers on rs c) : c.Leads false c :=
  .refl h.leads.ends

theorem reach_le (h : start.Gathers on rs c) : c.reach on ≤ c.span.start := by
  cases on with
  | false => exact le_rfl
  | true => exact (h.leads.first_last h.ordered).2.2.2.1

/-- Tokens are passed. -/
theorem past (h : start.Gathers on rs c) (hc : c.Leads true d) :
    start.Gathers true rs d := by
  have htokens := hc.tokens_eq
  have ho : InOrder d.tokens := htokens ▸ h.ordered
  have hleads : start.Leads true d := by
    have htrans := h.leads.trans hc
    rw [Bool.or_true] at htrans
    exact htrans
  refine ⟨hleads, ho, ?_⟩
  rw [htokens]
  refine h.row.mono le_rfl ?_
  obtain ⟨hnonempty, -, hstop, -⟩ := hc.first_last ho
  exact h.reach_le.trans (hnonempty.le.trans hstop)

theorem weaken (h : start.Gathers true rs c) : start.Gathers on rs c := by
  cases on with
  | true => exact h
  | false => exact ⟨h.leads.weaken, h.ordered, h.row.mono le_rfl h.reach_le⟩

/-- Tokens are passed, if any. -/
theorem along (h : start.Gathers on rs c) (hc : c.Leads false d) :
    start.Gathers on rs d := by
  rcases hc.eq_or_on with ⟨-, rfl⟩ | hc
  · exact h
  · exact (h.past hc).weaken

/-- What is gathered further on comes after what was gathered. -/
theorem append (h : start.Gathers on rs c) (h' : c.Gathers true more d) :
    start.Gathers true (rs ++ more) d := by
  have hnext := h.past h'.leads
  refine ⟨hnext.leads, hnext.ordered, ?_⟩
  have hrow := h.row.mono le_rfl h.reach_le
  rw [← h'.leads.tokens_eq] at hrow
  exact hrow.append h'.row

/-- Regions in the same place are gathered instead. -/
theorem replace (h : start.Gathers on rs c)
    (hrow : ∀ {low high}, Region.Row c.tokens low rs high →
      Region.Row c.tokens low more high) :
    start.Gathers on more c :=
  ⟨h.leads, h.ordered, hrow h.row⟩

/-- What was gathered becomes the parts of a region from the first token to the
last one. -/
theorem close (h : start.Gathers true rs c) (hliteral : r.literal? = none)
    (hchildren : r.children = rs)
    (hspan : r.span = start.span.merge c.previousSpan) :
    start.Gathers true [r] c := by
  obtain ⟨hmerge, hcovers⟩ := h.leads.covers h.ordered
  refine ⟨h.leads, h.ordered, .singleton (.of_row hliteral ?_ ?_) ?_ ?_⟩
  · rw [hspan]
    exact hcovers
  · rw [hspan, hmerge, hchildren]
    exact h.row
  · rw [hspan, hmerge]
  · rw [hspan, hmerge]
    exact le_rfl

/-- What was gathered becomes the only part of a region from the first token to
the end of that part. -/
theorem wrap (h : start.Gathers true [child] c) (hliteral : r.literal? = none)
    (hchildren : r.children = [child])
    (hspan : r.span = start.span.merge child.span) :
    start.Gathers true [r] c := by
  obtain ⟨hlow, hchild, hhigh⟩ := h.row.of_singleton
  obtain ⟨-, -, -, -, hfirst, -⟩ := h.leads.first_last h.ordered
  -- The part ends where a token does, so not inside the first token.
  have hstop : start.span.stop ≤ child.span.stop :=
    h.ordered.stop_le hfirst hchild.covers hlow
  have hmerge := Span.merge_eq hlow hstop
  have hcovers : r.span.Covers c.tokens := by
    rw [hspan, hmerge]
    exact ⟨hlow.trans_lt hchild.covers.nonempty, ⟨_, hfirst, rfl⟩,
      hchild.covers.last⟩
  refine ⟨h.leads, h.ordered, .singleton (.of_row hliteral hcovers ?_) ?_ ?_⟩
  · rw [hspan, hmerge, hchildren]
    exact .singleton hchild hlow le_rfl
  · rw [hspan, hmerge]
  · rw [hspan, hmerge]
    exact hhigh

/-- A token is a region without parts. -/
theorem token (h : c.Gathers false [] c) (hpart : c.kind.isPart = true)
    (hspan : r.span = c.span) (hchildren : r.children = [])
    (hliteral : ∀ kind, r.literal? = some kind → c.kind = kind) :
    c.Gathers true [r] c.advance := by
  have hadvance := h.past (h.step.advance hpart)
  obtain ⟨hnonempty, -, hstop, -, hmem, -⟩ :=
    hadvance.leads.first_last hadvance.ordered
  have hcovers : r.span.Covers c.advance.tokens := by
    rw [hspan]
    exact ⟨hnonempty, ⟨_, hmem, rfl⟩, ⟨_, hmem, rfl⟩⟩
  refine ⟨hadvance.leads, hadvance.ordered,
    .singleton (.of_leaf hchildren hcovers ?_) ?_ ?_⟩
  · intro kind hkind
    left
    rw [← hliteral kind hkind, hspan]
    exact hmem
  · rw [hspan]
  · rw [hspan]
    exact hstop

end Gathers

end Cursor

/-! ### Single tokens and literals -/

namespace Parser

variable {start c : Cursor} {on : Bool} {rs : List Region}

/-- Where a parser fails, nothing is gathered. -/
theorem gathers_error {α : Type} {p : Parser α} {e : SyntaxError}
    {post : α → Cursor → Prop} (hp : p c = .error e) : Ensures True p c post := by
  rw [Ensures, hp]
  exact fun _ => trivial

theorem previousSpan_advance (hends : Ends c.kinds)
    (hpart : c.kind.isPart = true) : c.advance.previousSpan = c.span := by
  rw [previousSpan, passed_advance
    (ahead_ne_nil hends (Token.Kind.ne_finish_of_isPart hpart))]
  rfl

/-- The token that is expected is the one passed last. -/
theorem gathers_expect {kind : Token.Kind} (h : start.Gathers on rs c)
    (hkind : kind.isPart = true) :
    Ensures True (Parser.expect kind) c fun span d =>
      start.Gathers true rs d ∧ span = d.previousSpan := by
  rw [Ensures, Parser.expect]
  cases hat : c.isAt kind with
  | false => exact fun _ => trivial
  | true =>
      have hpart := Token.Kind.isPart_of_sameClass hat hkind
      exact ⟨h.past (h.step.advance hpart),
        (previousSpan_advance h.leads.ends hpart).symm⟩

theorem gathers_expectWord {word : String} (h : start.Gathers on rs c) :
    Ensures True (Parser.expectWord word) c fun _ => start.Gathers true rs :=
  h.step.expectWord.mono (fun _ _ hc => h.past hc) id

/-- The name of an argument is a region of its own. -/
theorem gathers_argumentName (h : c.Gathers false [] c) :
    Ensures True Parser.expectName c fun name =>
      c.Gathers true [.argumentName name.1 name.2] := by
  rw [Ensures, Parser.expectName]
  cases hkind : c.kind with
  | word name =>
      refine h.token (by rw [hkind]; rfl) rfl rfl ?_
      rintro kind ⟨⟩
      exact hkind
  | _ => exact fun _ => trivial

/-- An expression that is a single token. -/
theorem gathers_literal {e : Expr} {kind : Token.Kind}
    (h : c.Gathers false [] c) (hkind : c.kind = kind)
    (hpart : kind.isPart = true) (hspan : e.span = c.span)
    (hparts : e.parts = []) (hliteral : (Region.expr e).literal? = some kind) :
    Ensures True
      (do
        let _ ← Parser.advance
        return e : Parser Expr) c
      fun e => c.Gathers true [.expr e] := by
  subst hkind
  apply h.step.advance_bind hpart
  intro _
  refine .pure (h.token hpart hspan hparts ?_)
  intro kind hread
  rw [hliteral] at hread
  exact Option.some.inj hread

/-- A word of a type is a region of its own at first. -/
theorem gathers_typeWord {name : Name} (h : start.Gathers on rs c)
    (hkind : c.kind = .word name) :
    c.kind.isPart = true ∧
      start.Gathers true (rs ++ [.readType ⟨name.text, c.span⟩]) c.advance := by
  have hpart : c.kind.isPart = true := by
    rw [hkind]
    rfl
  exact ⟨hpart, h.append (h.here.token hpart rfl rfl nofun)⟩

/-- A minus sign and the number after it. -/
theorem gathers_negative {e : Expr} (h : c.Gathers false [] c)
    (hminus : c.kind = .symbol .minus) (hpart : c.advance.kind.isPart = true)
    (hspan : e.span = c.span.merge c.advance.span) (hparts : e.parts = [])
    (hliteral : ∀ kind, (Region.expr e).literal? = some kind →
      c.advance.kind.negated? = some kind) :
    c.Gathers true [.expr e] c.advance.advance := by
  have hminusPart : c.kind.isPart = true := by
    rw [hminus]
    rfl
  have hfirst := h.past (h.step.advance hminusPart)
  have hboth := hfirst.past (hfirst.step.advance hpart)
  have hlast := previousSpan_advance hfirst.leads.ends hpart
  obtain ⟨hmerge, hcovers⟩ := hboth.leads.covers hboth.ordered
  rw [hlast] at hmerge hcovers
  have hpair : [c.current, c.advance.current] <:+: c.advance.advance.tokens := by
    have hahead := current_advance
      (ahead_ne_nil h.leads.ends (Token.Kind.ne_finish_of_isPart hminusPart))
    refine ⟨c.passed.reverse, c.advance.ahead, ?_⟩
    rw [hboth.leads.tokens_eq, tokens, ← hahead]
    simp
  refine ⟨hboth.leads, hboth.ordered, .singleton (.of_leaf hparts ?_ ?_) ?_ ?_⟩
  · change e.span.Covers _
    rw [hspan]
    exact hcovers
  · intro kind hkind
    refine .inr ⟨_, _, hpair, hminus, hliteral kind hkind, ?_⟩
    exact hspan.trans hmerge
  · change c.span.start ≤ e.span.start
    rw [hspan, hmerge]
  · change e.span.stop ≤ c.advance.advance.previousSpan.stop
    rw [hspan, hmerge, hlast]

theorem gathers_negativeLiteral (h : c.Gathers false [] c)
    (hminus : c.kind = .symbol .minus) :
    Ensures True negativeLiteral c fun e => c.Gathers true [.expr e] := by
  rw [negativeLiteral]
  apply h.step.advance_bind (by rw [hminus]; rfl)
  intro h₁
  apply Ensures.get_bind
  cases hnumber : c.advance.kind with
  | integer | real =>
      have hpart : c.advance.kind.isPart = true := by
        rw [hnumber]
        rfl
      apply h₁.advance_bind hpart
      intro h₂
      refine .pure (gathers_negative h hminus hpart rfl rfl ?_)
      rintro kind ⟨⟩
      rw [hnumber]
      rfl
  | _ => exact gathers_error rfl

/-- What an assignment changes are the parts of the expression it was read
as. -/
theorem gathers_targetOf {e : Expr} (h : start.Gathers on [.expr e] c) :
    Ensures True (targetOf e) c fun target => start.Gathers on target.regions := by
  have hparts := h.replace fun hrow => hrow.parts
  cases e with
  | name => exact .pure hparts
  | binary op =>
      cases op with
      | atPosition => exact .pure hparts
      | _ => exact gathers_error rfl
  | _ => exact gathers_error rfl

end Parser

end Prose
