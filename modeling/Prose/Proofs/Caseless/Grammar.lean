import Prose.Proofs.Caseless.Tokens
import Prose.Proofs.Grammar.Agreement

/-!
Parsing whatever the case of letters. The tokens of two texts that differ only
in the case of letters outside literals are alike to the end, so the parser
reads trees that differ only in the case of names and words, or it stops at the
same place for the same reason.
-/

namespace Prose

open Cursor Prose.Parser

/-! ### Tokens that are alike to the end -/

/-- Tokens in common up to a relabelling, with nothing behind them. -/
def Comparison.whole (ρ : Relabelling) : Comparison :=
  ⟨ρ, [], [], .inl ⟨rfl, rfl⟩⟩

namespace Comparison

variable {ρ : Relabelling} {c d : Cursor} {inside : Bool}

theorem Near.within_whole (h : (whole ρ).Near inside c d) :
    (whole ρ).Within inside c d := by
  rcases h.cases with hwithin | hbeyond
  · exact hwithin
  · exact absurd rfl hbeyond.here_ne_nil

theorem near_whole (halike : List.Forall₂ (Token.Alike ρ)
      (c.current :: c.ahead) (d.current :: d.ahead))
    (hends : Ends c.kinds) (hends' : Ends d.kinds)
    (hprevious : ρ.span c.previousSpan = ρ.span d.previousSpan) :
    (whole ρ).Near false c d := by
  refine ⟨⟨c.current :: c.ahead, d.current :: d.ahead, ?_⟩, nofun⟩
  refine ⟨(List.append_nil _).symm, (List.append_nil _).symm, halike, hends,
    hends', hprevious, ?_, ?_, ?_⟩
  · intro last hlast hnewline
    have hkind : ((c.current :: c.ahead).map (·.kind)).getLast? =
        some .newline := by
      rw [List.getLast?_map, hlast, Option.map_some, hnewline]
    rw [Ends, kinds, ← List.map_cons, hkind] at hends
    cases hends
  · rintro ⟨name, rest, hnone⟩
    cases hnone
  · intro hnil
    exact absurd rfl hnil

/-- A whole statement is read alike from tokens that are alike. -/
theorem Near.completeStatement (h : (whole ρ).Near false c d) (n : Nat) :
    (whole ρ).Outcome (Same (Stmt.relabel ρ)) false
      (Parser.completeStatement n c) (Parser.completeStatement n d) := by
  have hagrees : (whole ρ).Agrees n n := agrees ⟨le_rfl, fun _ => rfl⟩
  refine Outcome.bind (V := fun _ _ => True)
    ⟨(), _, rfl, trivial, h.within_whole.skipNewlines.near⟩ ?_
  intro _ _ c₁ d₁ _ h₁
  refine (hagrees.statement h₁).bind ?_
  intro stmt stmt' c₂ d₂ hstmt h₂
  have hskipped := h₂.within_whole.skipNewlines
  have hfinish : (whole ρ).Outcome (fun _ _ => True) false
      (Parser.finish c₂) (Parser.finish d₂) := by
    have hatEnd : c₂.skipNewlines.atEnd = d₂.skipNewlines.atEnd :=
      hskipped.kind.sameClass .finish
    rw [Parser.finish, skipNewlines_bind_apply, skipNewlines_bind_apply,
      get_bind_apply, get_bind_apply, hatEnd]
    split
    · exact .pure trivial hskipped.near
    · exact hskipped.near.unexpected _
  refine hfinish.bind ?_
  intro _ _ c₃ d₃ _ h₃
  exact .pure hstmt h₃

end Comparison

/-- Tokens that are alike to the end are read as trees that are alike, or fail
alike. -/
theorem parseStatement_alike {ρ : Relabelling} {tokens tokens' : List Token}
    (halike : List.Forall₂ (Token.Alike ρ) tokens tokens')
    (hends : Ends (tokens.map (·.kind)))
    (hends' : Ends (tokens'.map (·.kind))) :
    (∃ stmt stmt', parseStatement tokens = .ok stmt ∧
      parseStatement tokens' = .ok stmt' ∧ stmt.relabel ρ = stmt'.relabel ρ) ∨
    ∃ e e', parseStatement tokens = .error e ∧
      parseStatement tokens' = .error e' ∧ e.Alike ρ e' := by
  cases halike with
  | nil => exact absurd rfl hends.ne_nil
  | @cons first first' rest rest' hfirst hrest =>
      have hnear := Comparison.near_whole (ρ := ρ) (c := ⟨[], first, rest⟩)
        (d := ⟨[], first', rest'⟩) (.cons hfirst hrest) hends hends' rfl
      have houtcome := hnear.completeStatement
        (depthBound (first :: rest).length)
      simp only [parseStatement, runOn, ofTokens?, List.length_cons,
        hrest.length_eq] at houtcome ⊢
      cases hrun : completeStatement (depthBound (rest'.length + 1))
          ⟨[], first, rest⟩ with
      | ok result =>
          rw [hrun] at houtcome
          obtain ⟨stmt', c', hrun', hstmt, -⟩ := houtcome
          rw [hrun']
          exact .inl ⟨_, _, rfl, rfl, hstmt⟩
      | error e =>
          rw [hrun] at houtcome
          obtain ⟨e', hrun', he⟩ := houtcome rfl
          rw [hrun']
          exact .inr ⟨_, _, rfl, rfl, he⟩

/-! ### Texts that differ in case -/

theorem Token.Kind.alike_caseless (k : Token.Kind) :
    k.Alike .caseless k.caseless := by
  cases k with
  | word name => exact .word (Name.caseless_eq_iff.2 name.key_caseless.symm)
  | _ => exact .same _

theorem Token.Kind.alike_of_caseless_eq {k l : Token.Kind}
    (h : k.caseless = l.caseless) : k.Alike .caseless l := by
  have hk := k.alike_caseless
  have hl := l.alike_caseless
  rw [h] at hk
  generalize l.caseless = image at hk hl
  cases hk with
  | same =>
      cases hl with
      | same => exact .same _
      | word hl => exact .word hl.symm
  | word hk =>
      cases hl with
      | same => exact .word hk
      | word hl => exact .word (hk.trans hl.symm)

/-- Texts that differ only in the case of letters outside literals are read as
trees that differ only in the case of names and words, or fail alike. -/
theorem parseText_alike {text text' : List Char}
    (h : Text.caseless text = Text.caseless text') :
    (∃ stmt stmt', parseText text = .ok stmt ∧ parseText text' = .ok stmt' ∧
      stmt.relabel .caseless = stmt'.relabel .caseless) ∨
    ∃ e e', parseText text = .error e ∧ parseText text' = .error e' ∧
      e.Alike .caseless e' := by
  have herrors : (lex text).errors = (lex text').errors := by
    rw [← lex_errors_caseless, h, lex_errors_caseless]
  have htokens : (lex text).tokens.map Token.caseless =
      (lex text').tokens.map Token.caseless := by
    rw [← lex_tokens_caseless, h, lex_tokens_caseless]
  have hends (text : List Char) : Ends ((lex text).tokens.map (·.kind)) := by
    simp [Ends, lex]
  have halike : List.Forall₂ (Token.Alike .caseless) (lex text).tokens
      (lex text').tokens := by
    rw [← List.forall₂_eq_eq_eq, List.forall₂_map_left_iff,
      List.forall₂_map_right_iff] at htokens
    refine htokens.imp ?_
    intro s t hst
    rw [Token.caseless, Token.caseless, Token.mk.injEq] at hst
    exact ⟨Token.Kind.alike_of_caseless_eq hst.1, hst.2⟩
  simp only [parseText, herrors]
  cases (lex text').errors with
  | cons e errors => exact .inr ⟨_, _, rfl, rfl, .same _, rfl⟩
  | nil => exact parseStatement_alike halike (hends text) (hends text')

end Prose
