import Prose.Token
import Prose.Decimal.Reader

/-!
From the text of a statement to its tokens. At each place the longest possible token is taken;
blanks between tokens are dropped; a character that begins no token is reported and passed over.
Every character is accounted for: what `readToken` takes and what it leaves make up its input.
-/

namespace Prose

/-- Why characters make no token. -/
inductive Flaw where
  | unrecognised
  | integerTooLarge
  | badReal
  | unterminatedText
deriving DecidableEq, Inhabited

namespace Flaw

def message : Flaw → String
  | unrecognised => "unrecognised character"
  | integerTooLarge => "integer literal does not fit in 64 bits"
  | badReal => "invalid real number literal"
  | unterminatedText => "unterminated string literal"

end Flaw

/-- A flaw and where it stands in its statement. -/
structure LexError where
  flaw : Flaw
  span : Span
deriving DecidableEq, Inhabited

namespace Lexer

/-- The character that marks the beginning of a block. -/
def indentMark : Char := '\x60'

/-- The character that marks the end of a block. -/
def dedentMark : Char := '~'

/-- Blanks, which separate tokens and are dropped. -/
def isGap (c : Char) : Bool := c == ' ' || c == '\t' || c == '\r'

def isWordStart (c : Char) : Bool :=
  ('a' ≤ c && c ≤ 'z') || ('A' ≤ c && c ≤ 'Z') || c == '_'

def isWordPart (c : Char) : Bool := isWordStart c || Decimal.isDigit c

/-- The characters inside a string literal. -/
def isTextPart (c : Char) : Bool := c != '"' && c != '\n'

/-- What the characters of one token mean. -/
abbrev Reading := Except Flaw Token.Kind

/-- One token: what it means, its characters, and what follows it. -/
structure Cut where
  reading : Reading
  taken : List Char
  rest : List Char

/-- The token of a symbol or mark that is one character long. -/
def oneCharacter? (c : Char) : Option Token.Kind :=
  if c = '\n' then some .newline
  else if c = indentMark then some .indent
  else if c = dedentMark then some .dedent
  else match c with
    | '(' => some (.symbol .openParen)
    | ')' => some (.symbol .closeParen)
    | '[' => some (.symbol .openBracket)
    | ']' => some (.symbol .closeBracket)
    | ',' => some (.symbol .comma)
    | ':' => some (.symbol .colon)
    | '.' => some (.symbol .dot)
    | '?' => some (.symbol .question)
    | '!' => some (.symbol .bang)
    | '+' => some (.symbol .plus)
    | '-' => some (.symbol .minus)
    | '*' => some (.symbol .star)
    | '/' => some (.symbol .slash)
    | '^' => some (.symbol .caret)
    | '=' => some (.symbol .equal)
    | '<' => some (.symbol .less)
    | '>' => some (.symbol .greater)
    | _ => none

/-- The symbol that two characters make. -/
def twoCharacters? (c d : Char) : Option Symbol :=
  match c, d with
  | '!', '=' => some .notEqual
  | '<', '=' => some .lessEqual
  | '>', '=' => some .greaterEqual
  | _, _ => none

/-- The integer that a run of digits stands for. -/
def readInteger (digits : List Char) : Reading :=
  match Decimal.readInteger? digits with
  | some n => .ok (.integer n)
  | none => .error .integerTooLarge

/-- The real that digits around a point stand for. -/
def readReal (literal : List Char) : Reading :=
  match Decimal.readReal? literal with
  | some r => .ok (.real r)
  | none => .error .badReal

/-- A word: a reserved one, or a name. -/
def readWord (word : String) : Token.Kind :=
  match Keyword.ofWord? word with
  | some k => .keyword k
  | none => .word (.ofString word)

/-- A point with at least one digit after it, and what follows. -/
def fraction? : List Char → Option (List Char × List Char)
  | '.' :: d :: cs =>
    if Decimal.isDigit d then
      some ('.' :: d :: cs.takeWhile Decimal.isDigit, cs.dropWhile Decimal.isDigit)
    else none
  | _ => none

/-- A number that begins with the digit `c`. A point belongs to it only if a digit follows. -/
def numberFrom (c : Char) (cs : List Char) : Cut :=
  match fraction? (cs.dropWhile Decimal.isDigit) with
  | some (fraction, rest) =>
    let literal := c :: cs.takeWhile Decimal.isDigit ++ fraction
    ⟨readReal literal, literal, rest⟩
  | none =>
    let digits := c :: cs.takeWhile Decimal.isDigit
    ⟨readInteger digits, digits, cs.dropWhile Decimal.isDigit⟩

/-- A string literal after its opening quote. -/
def textFrom (cs : List Char) : Cut :=
  match cs.dropWhile isTextPart with
  | '"' :: rest =>
    let inside := cs.takeWhile isTextPart
    ⟨.ok (.text (String.ofList inside)), '"' :: (inside ++ ['"']), rest⟩
  | rest => ⟨.error .unterminatedText, '"' :: cs.takeWhile isTextPart, rest⟩

def wordFrom (c : Char) (cs : List Char) : Cut :=
  let word := c :: cs.takeWhile isWordPart
  ⟨.ok (readWord (String.ofList word)), word, cs.dropWhile isWordPart⟩

/-- The meaning of a character that stands alone. -/
def readCharacter (c : Char) : Reading :=
  match oneCharacter? c with
  | some kind => .ok kind
  | none => .error .unrecognised

/-- A symbol, a mark, or a character that begins no token. -/
def symbolFrom (c : Char) : List Char → Cut
  | [] => ⟨readCharacter c, [c], []⟩
  | d :: rest =>
    match twoCharacters? c d with
    | some symbol => ⟨.ok (.symbol symbol), [c, d], rest⟩
    | none => ⟨readCharacter c, [c], d :: rest⟩

/-- The token that begins with `c`, which is no blank. -/
def readToken (c : Char) (cs : List Char) : Cut :=
  if Decimal.isDigit c then numberFrom c cs
  else if c = '"' then textFrom cs
  else if isWordStart c then wordFrom c cs
  else symbolFrom c cs

/-- A fraction and what follows it make up the input. -/
theorem append_of_fraction? {cs fraction rest : List Char} (h : fraction? cs = some (fraction, rest)) :
    fraction ++ rest = cs := by
  unfold fraction? at h
  split at h
  · split at h
    · obtain ⟨rfl, rfl⟩ := Prod.mk.inj (Option.some.inj h)
      simp
    · contradiction
  · contradiction

/-- What a number takes and what it leaves make up the input. -/
theorem taken_append_rest_numberFrom (c : Char) (cs : List Char) :
    (numberFrom c cs).taken ++ (numberFrom c cs).rest = c :: cs := by
  unfold numberFrom
  split
  · next fraction rest h => simp [append_of_fraction? h]
  · simp

/-- What a string literal takes and what it leaves make up the input. -/
theorem taken_append_rest_textFrom (cs : List Char) :
    (textFrom cs).taken ++ (textFrom cs).rest = '"' :: cs := by
  have h := List.takeWhile_append_dropWhile (p := isTextPart) (l := cs)
  unfold textFrom
  split
  · next rest heq =>
    simp only [List.cons_append, List.append_assoc, List.nil_append]
    rw [← heq, h]
  · simp [h]

/-- What a token takes and what it leaves make up the input. -/
theorem taken_append_rest_readToken (c : Char) (cs : List Char) :
    (readToken c cs).taken ++ (readToken c cs).rest = c :: cs := by
  unfold readToken
  split
  · exact taken_append_rest_numberFrom c cs
  · split
    · next h => rw [h]; exact taken_append_rest_textFrom cs
    · split
      · simp [wordFrom]
      · unfold symbolFrom
        split
        · rfl
        · split <;> rfl

/-- A token takes at least one character. -/
theorem taken_readToken_ne_nil (c : Char) (cs : List Char) : (readToken c cs).taken ≠ [] := by
  unfold readToken
  split
  · unfold numberFrom
    split <;> simp
  · split
    · unfold textFrom
      split <;> simp
    · split
      · simp [wordFrom]
      · unfold symbolFrom
        split
        · simp
        · split <;> simp

/-- A token leaves less than it was given. -/
theorem length_rest_readToken (c : Char) (cs : List Char) :
    (readToken c cs).rest.length ≤ cs.length := by
  have h := congrArg List.length (taken_append_rest_readToken c cs)
  have h' := List.length_pos_iff.2 (taken_readToken_ne_nil c cs)
  simp only [List.length_append, List.length_cons] at h
  omega

/-- A token's meaning and where it stands. -/
structure Lexeme where
  reading : Reading
  span : Span

/-- The tokens of a text that begins at the given offset. -/
def scan (offset : Nat) : List Char → List Lexeme
  | [] => []
  | c :: cs =>
    if isGap c then scan (offset + c.utf8Size) cs
    else
      let cut := readToken c cs
      let stop := offset + Text.byteLength cut.taken
      ⟨cut.reading, ⟨offset, stop⟩⟩ :: scan stop cut.rest
termination_by cs => cs.length
decreasing_by
  · simp
  · have := length_rest_readToken c cs
    simp only [List.length_cons]
    omega

/-- The token a lexeme leaves in the list; a flaw leaves an unreadable one. -/
def Lexeme.token (lexeme : Lexeme) : Token :=
  match lexeme.reading with
  | .ok kind => ⟨kind, lexeme.span⟩
  | .error _ => ⟨.unreadable, lexeme.span⟩

/-- The error a lexeme leaves in the list, if it has a flaw. -/
def Lexeme.error? (lexeme : Lexeme) : Option LexError :=
  match lexeme.reading with
  | .ok _ => none
  | .error flaw => some ⟨flaw, lexeme.span⟩

end Lexer

/-- The tokens of one statement, which end in `finish`, and the errors met on the way. -/
structure Lexed where
  tokens : List Token
  errors : List LexError

/-- Cuts the text of a statement into tokens. -/
def lex (text : List Char) : Lexed :=
  let lexemes := Lexer.scan 0 text
  { tokens := lexemes.map (·.token) ++ [⟨.finish, .point (Text.byteLength text)⟩]
    errors := lexemes.filterMap (·.error?) }

end Prose
