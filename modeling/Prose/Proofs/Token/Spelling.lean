import Mathlib.Data.List.TakeWhile
import Prose.Proofs.Decimal.Integers
import Prose.Proofs.Token.Scanning
import Prose.Proofs.Tree.Writing

/-!
Tokens as text. Every token that stands in a written statement can be spelled,
and a text of spelled tokens with one blank between them is cut into just these
tokens.
-/

namespace Prose

open Lexer

namespace Token.Kind

/-- The characters of a token. -/
def spell : Kind → List Char
  | integer value => Nat.toDigits 10 value.toInt.toNat
  | text value => '"' :: (value.toList ++ ['"'])
  | word name => name.text.toList
  | keyword k => k.word.toList
  | symbol s => s.spelling.toList
  | newline => ['\n']
  | indent => [indentMark]
  | dedent => [dedentMark]
  | real _ | unreadable | finish => []

/-- Whether the characters of a token are read back as the token. -/
def isSpellable : Kind → Bool
  | integer value => decide (0 ≤ value)
  | text value => value.toList.all isTextPart
  | word name => isWordText name.text.toList && (Keyword.ofWord? name.text).isNone
  | real _ | unreadable | finish => false
  | _ => true

end Token.Kind

/-- The text of tokens, with a blank between any two. -/
def spellAll (kinds : List Token.Kind) : List Char :=
  [' '].intercalate (kinds.map Token.Kind.spell)

/-! ### One token -/

/-- The characters are read as the token, alone or before a blank. -/
def Spells (characters : List Char) (kind : Token.Kind) : Prop :=
  ∃ c cs, characters = c :: cs ∧ isGap c = false ∧
    readToken c cs = ⟨.ok kind, characters, []⟩ ∧
    (c = '"' → cs.dropWhile isTextPart ≠ [])

theorem Name.ofString_text (name : Name) : .ofString name.text = name := by
  obtain ⟨text, key, rfl⟩ := name
  rfl

/-- The digits of a number: there is a first one. -/
theorem toDigits_eq_cons (n : Nat) :
    ∃ c cs, Nat.toDigits 10 n = c :: cs ∧ Decimal.isDigit c = true ∧
      ∀ d ∈ cs, Decimal.isDigit d = true := by
  have hall : ∀ c ∈ Nat.toDigits 10 n, Decimal.isDigit c = true := fun c hc =>
    Nat.isDigit_of_mem_toDigits (by decide) (by decide) hc
  cases hdigits : Nat.toDigits 10 n with
  | nil => exact absurd hdigits Nat.toDigits_ne_nil
  | cons c cs =>
      rw [hdigits, List.forall_mem_cons] at hall
      exact ⟨c, cs, rfl, hall⟩

theorem naturalValue_toDigits (n : Nat) :
    Decimal.naturalValue (Nat.toDigits 10 n) = n :=
  Nat.ofDigitChars_ten_toDigits

theorem ne_of_isDigit {c d : Char} (hc : Decimal.isDigit c = true)
    (hd : Decimal.isDigit d = false) : c ≠ d := by
  rintro rfl
  rw [hc] at hd
  cases hd

theorem isGap_of_isDigit {c : Char} (hc : Decimal.isDigit c = true) :
    isGap c = false := by
  have hnot : ∀ d, Decimal.isDigit d = false → c ≠ d := fun d => ne_of_isDigit hc
  simp [isGap, hnot ' ' rfl, hnot '\t' rfl, hnot '\r' rfl]

theorem takeSign_of_isDigit {c : Char} (hc : Decimal.isDigit c)
    (cs : List Char) : Decimal.takeSign (c :: cs) = (false, c :: cs) := by
  unfold Decimal.takeSign
  split
  · next heq =>
      cases heq
      exact absurd hc (by decide)
  · next heq =>
      cases heq
      exact absurd hc (by decide)
  · rfl

theorem readInteger?_toDigits (n : Nat) :
    Decimal.readInteger? (Nat.toDigits 10 n) = Decimal.toInt64? n := by
  have hvalue := naturalValue_toDigits n
  obtain ⟨c, cs, hdigits, hc, hcs⟩ := toDigits_eq_cons n
  rw [hdigits] at hvalue ⊢
  have hall : (c :: cs).all Decimal.isDigit = true :=
    List.all_eq_true.2 (List.forall_mem_cons.2 ⟨hc, hcs⟩)
  simp only [Decimal.readInteger?, takeSign_of_isDigit hc, hall, hvalue,
    List.isEmpty_cons, Bool.not_true, Bool.or_self, Bool.false_eq_true, if_false]

/-- Digits with nothing after them are read as an integer. -/
theorem readToken_digits {c : Char} {cs : List Char}
    (hc : Decimal.isDigit c = true) (hcs : ∀ d ∈ cs, Decimal.isDigit d = true) :
    readToken c cs = ⟨readInteger (c :: cs), c :: cs, []⟩ := by
  rw [readToken, if_pos hc, numberFrom, List.dropWhile_eq_nil_iff.2 hcs,
    List.takeWhile_eq_self_iff.2 hcs]
  rfl

theorem toInt64?_toNat {value : Int64} (hvalue : 0 ≤ value) :
    Decimal.toInt64? value.toInt.toNat = some value := by
  have hpos : 0 ≤ value.toInt := Int64.le_iff_toInt_le.1 hvalue
  rw [Decimal.toInt64?_eq_some_iff, Int.toNat_of_nonneg hpos]

theorem spells_integer {value : Int64} (hvalue : 0 ≤ value) :
    Spells (Nat.toDigits 10 value.toInt.toNat) (.integer value) := by
  have hread := readInteger?_toDigits value.toInt.toNat
  rw [toInt64?_toNat hvalue] at hread
  obtain ⟨c, cs, hdigits, hc, hcs⟩ := toDigits_eq_cons value.toInt.toNat
  rw [hdigits] at hread ⊢
  refine ⟨c, cs, rfl, isGap_of_isDigit hc, ?_, fun hquote => ?_⟩
  · rw [readToken_digits hc hcs, readInteger, hread]
  · exact absurd hquote (ne_of_isDigit hc rfl)

theorem spells_text {value : String} (hvalue : value.toList.all isTextPart) :
    Spells ('"' :: (value.toList ++ ['"'])) (.text value) := by
  rw [List.all_eq_true] at hvalue
  have htake : (value.toList ++ ['"']).takeWhile isTextPart = value.toList := by
    rw [takeWhile_append_cons rfl, List.takeWhile_eq_self_iff.2 hvalue]
  have hdrop : (value.toList ++ ['"']).dropWhile isTextPart = ['"'] := by
    rw [dropWhile_append_cons rfl, List.dropWhile_eq_nil_iff.2 hvalue,
      List.nil_append]
  refine ⟨'"', value.toList ++ ['"'], rfl, rfl, ?_, ?_⟩
  · simp [readToken, show Decimal.isDigit '"' = false from rfl, textFrom, htake,
      hdrop]
  · intro _
    rw [hdrop]
    simp

theorem isDigit_of_isWordStart {c : Char} (hc : isWordStart c) :
    Decimal.isDigit c = false := by
  simp only [isWordStart, Bool.or_eq_true, Bool.and_eq_true, decide_eq_true_eq,
    beq_iff_eq, Char.le_def, UInt32.le_iff_toNat_le] at hc
  rcases hc with (⟨hlow, -⟩ | ⟨hlow, -⟩) | rfl
  · have hlarge : ¬ c ≤ '9' := by
      simp only [Char.le_def, UInt32.le_iff_toNat_le]
      have h9 : '9'.val.toNat = 57 := rfl
      have ha : 'a'.val.toNat = 97 := rfl
      omega
    simp [Decimal.isDigit, hlarge]
  · have hlarge : ¬ c ≤ '9' := by
      simp only [Char.le_def, UInt32.le_iff_toNat_le]
      have h9 : '9'.val.toNat = 57 := rfl
      have ha : 'A'.val.toNat = 65 := rfl
      omega
    simp [Decimal.isDigit, hlarge]
  · rfl

theorem spells_word {name : Name}
    (htext : isWordText name.text.toList = true)
    (hfree : (Keyword.ofWord? name.text).isNone) :
    Spells name.text.toList (.word name) := by
  cases hcs : name.text.toList with
  | nil =>
      rw [hcs] at htext
      cases htext
  | cons c cs =>
      rw [hcs] at htext
      simp only [isWordText, Bool.and_eq_true] at htext
      obtain ⟨hc, hall⟩ := htext
      rw [List.all_eq_true] at hall
      have hnot : ∀ d, isWordStart d = false → c ≠ d := by
        rintro d hd rfl
        rw [hc] at hd
        cases hd
      have hquote := hnot '"' rfl
      have hback : String.ofList (c :: cs) = name.text := by
        rw [← hcs, String.ofList_toList]
      have hword : readWord name.text = .word name := by
        rw [readWord, Option.isNone_iff_eq_none.1 hfree, Name.ofString_text]
      have hdigit : Decimal.isDigit c = false := isDigit_of_isWordStart hc
      refine ⟨c, cs, rfl, ?_, ?_, fun h => absurd h hquote⟩
      · simp [isGap, hnot ' ' rfl, hnot '\t' rfl, hnot '\r' rfl]
      · simp only [readToken, hdigit, hquote, hc, if_true, if_false, wordFrom,
          List.takeWhile_eq_self_iff.2 hall, List.dropWhile_eq_nil_iff.2 hall,
          hback, hword, Bool.false_eq_true]

theorem spells_keyword (k : Keyword) : Spells k.word.toList (.keyword k) := by
  cases k <;> exact ⟨_, _, rfl, rfl, rfl, by decide⟩

theorem spells_symbol (s : Symbol) : Spells s.spelling.toList (.symbol s) := by
  cases s <;> exact ⟨_, _, rfl, rfl, rfl, by decide⟩

theorem Token.Kind.spells {kind : Token.Kind} (hkind : kind.isSpellable) :
    Spells kind.spell kind := by
  cases kind with
  | integer value => exact spells_integer (of_decide_eq_true hkind)
  | text value => exact spells_text hkind
  | word name =>
      simp only [isSpellable, Bool.and_eq_true] at hkind
      exact spells_word hkind.1 hkind.2
  | keyword k => exact spells_keyword k
  | symbol s => exact spells_symbol s
  | newline => exact ⟨_, _, rfl, rfl, rfl, by decide⟩
  | indent => exact ⟨_, _, rfl, rfl, rfl, by decide⟩
  | dedent => exact ⟨_, _, rfl, rfl, rfl, by decide⟩
  | real value => cases hkind
  | unreadable => cases hkind
  | finish => cases hkind

/-! ### All tokens -/

theorem scan_spell {kind : Token.Kind} (hkind : kind.isSpellable)
    (offset : Nat) :
    scan offset kind.spell =
      [⟨.ok kind, ⟨offset, offset + Text.byteLength kind.spell⟩⟩] := by
  obtain ⟨c, cs, hsplit, hgap, hread, -⟩ := kind.spells hkind
  rw [hsplit] at hread ⊢
  rw [scan_token hgap, hread, scan_nil]

theorem scan_spell_blank {kind : Token.Kind} (hkind : kind.isSpellable)
    (offset : Nat) (rest : List Char) :
    scan offset (kind.spell ++ ' ' :: rest) =
      ⟨.ok kind, ⟨offset, offset + Text.byteLength kind.spell⟩⟩ ::
      scan (offset + Text.byteLength kind.spell + 1) rest := by
  obtain ⟨c, cs, hsplit, hgap, hread, hstop⟩ := kind.spells hkind
  rw [hsplit] at hread ⊢
  have hextend := readToken_append_cons (show isSeparator ' ' by decide) rest c
    cs fun hquote => .inr (hstop hquote)
  rw [hread] at hextend
  rw [List.cons_append, scan_token hgap, hextend]
  simp only [Cut.extend, List.nil_append]
  rw [scan_gap rfl]
  rfl

/-- Spelled tokens are read back. -/
theorem scan_spellAll {kinds : List Token.Kind}
    (hkinds : ∀ kind ∈ kinds, kind.isSpellable) (offset : Nat) :
    (scan offset (spellAll kinds)).map (·.reading) = kinds.map .ok := by
  induction kinds generalizing offset with
  | nil => simp [spellAll, scan_nil]
  | cons kind rest ih =>
      have hkind := hkinds kind List.mem_cons_self
      have hrest := fun other hother =>
        hkinds other (List.mem_cons_of_mem kind hother)
      cases rest with
      | nil => simp [spellAll, scan_spell hkind]
      | cons next rest =>
          have htext : spellAll (kind :: next :: rest) =
              kind.spell ++ ' ' :: spellAll (next :: rest) := by
            simp [spellAll, List.intercalate_cons_cons]
          rw [htext, scan_spell_blank hkind, List.map_cons, ih hrest]
          rfl

/-- A text of spelled tokens has no flaw, and holds just these tokens. -/
theorem lex_spellAll {kinds : List Token.Kind}
    (hkinds : ∀ kind ∈ kinds, kind.isSpellable) :
    (lex (spellAll kinds)).errors = [] ∧
    (lex (spellAll kinds)).tokens.map (·.kind) = kinds ++ [.finish] := by
  have hscan := scan_spellAll hkinds 0
  constructor
  · rw [lex, List.filterMap_eq_nil_iff]
    intro lexeme hlexeme
    have hmem := List.mem_map_of_mem (f := (·.reading)) hlexeme
    rw [hscan, List.mem_map] at hmem
    obtain ⟨kind, -, hok⟩ := hmem
    simp [Lexeme.error?, ← hok]
  · let kindOf : Reading → Token.Kind := fun reading =>
      reading.toOption.getD .unreadable
    have hkind : ∀ lexeme : Lexeme,
        lexeme.token.kind = kindOf lexeme.reading := by
      intro lexeme
      unfold Lexeme.token
      cases hreading : lexeme.reading <;> rfl
    have htokens : (scan 0 (spellAll kinds)).map (·.token.kind) = kinds := by
      calc (scan 0 (spellAll kinds)).map (·.token.kind)
          = (scan 0 (spellAll kinds)).map (kindOf ·.reading) :=
            List.map_congr_left fun lexeme _ => hkind lexeme
        _ = ((scan 0 (spellAll kinds)).map (·.reading)).map kindOf := by
            rw [List.map_map]
            rfl
        _ = kinds := by
            rw [hscan, List.map_map]
            exact List.map_id kinds
    rw [lex, List.map_append, List.map_map]
    exact congrArg (· ++ [.finish]) htokens

end Prose
