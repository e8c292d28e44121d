import Prose.Grammar.Error
import Prose.Operator

/-!
A place in the tokens of a statement. There always is a current token, and the cursor stays on the
last one when it is told to go on.
-/

namespace Prose

/-- The tokens passed, the last of them first, the current token, and those ahead. -/
structure Cursor where
  passed : List Token
  current : Token
  ahead : List Token

namespace Cursor

/-- The cursor on the first token, if there is one. -/
def ofTokens? : List Token → Option Cursor
  | [] => none
  | t :: ts => some ⟨[], t, ts⟩

def tokens (c : Cursor) : List Token := c.passed.reverse ++ c.current :: c.ahead

/-- Number of tokens passed. -/
def position (c : Cursor) : Nat := c.passed.length

/-- Moves to the token with the given number of tokens before it, or to the last token. -/
def seek (c : Cursor) (position : Nat) : Cursor :=
  let position := min position (c.passed.length + c.ahead.length)
  match c.tokens.drop position with
  | [] => c
  | t :: ts => ⟨(c.tokens.take position).reverse, t, ts⟩

def kind (c : Cursor) : Token.Kind := c.current.kind

def span (c : Cursor) : Span := c.current.span

/-- The span of the token passed last. -/
def previousSpan (c : Cursor) : Span :=
  match c.passed with
  | [] => .nowhere
  | t :: _ => t.span

def last (c : Cursor) : Token := c.ahead.getLast?.getD c.current

/-- The kind of the token `n` places ahead, or of the last token. -/
def kindAhead (c : Cursor) (n : Nat) : Token.Kind :=
  match (c.current :: c.ahead)[n]? with
  | some t => t.kind
  | none => c.last.kind

def atEnd (c : Cursor) : Bool := c.kind.sameClass .finish

/-- Whether the current token is of the given kind, whatever it holds. -/
def isAt (c : Cursor) (kind : Token.Kind) : Bool := c.kind.sameClass kind

/-- Whether the current token is a plain word with the given spelling, in any case. -/
def isAtWord (c : Cursor) (word : String) : Bool := (c.kindAhead 0).isWord word

/-- Whether plain words with the given spellings stand `n` places ahead. -/
def wordsAhead (c : Cursor) (n : Nat) : List String → Bool
  | [] => true
  | w :: ws => (c.kindAhead n).isWord w && c.wordsAhead (n + 1) ws

/-- Whether the next tokens are plain words with the given spellings. -/
def isAtWords (c : Cursor) (words : List String) : Bool := c.wordsAhead 0 words

/-- Moves past the current token, unless it is the last. -/
def advance (c : Cursor) : Cursor :=
  match c.ahead with
  | [] => c
  | t :: ts => ⟨c.current :: c.passed, t, ts⟩

def advanceBy (c : Cursor) : Nat → Cursor
  | 0 => c
  | n + 1 => c.advance.advanceBy n

/-- Moves past ends of lines, from a token and those ahead of it. -/
def skipNewlinesFrom (passed : List Token) (current : Token) : List Token → Cursor
  | [] => ⟨passed, current, []⟩
  | t :: ts =>
    if current.kind.sameClass .newline then skipNewlinesFrom (current :: passed) t ts
    else ⟨passed, current, t :: ts⟩

def skipNewlines (c : Cursor) : Cursor := skipNewlinesFrom c.passed c.current c.ahead

/-- The operator at the cursor and the number of tokens that spell it. -/
def operator? (c : Cursor) : Option (Operator × Nat) :=
  match c.kind with
  | .symbol .plus => some (.add, 1)
  | .symbol .minus => some (.subtract, 1)
  | .symbol .star => some (.multiply, 1)
  | .symbol .slash => some (.divide, 1)
  | .symbol .caret => some (.power, 1)
  | .symbol .equal => some (.equal, 1)
  | .symbol .notEqual => some (.notEqual, 1)
  | .symbol .less => some (.less, 1)
  | .symbol .greater => some (.greater, 1)
  | .symbol .lessEqual => some (.lessEqual, 1)
  | .symbol .greaterEqual => some (.greaterEqual, 1)
  | .word _ =>
    (Operator.spellings.find? fun s => c.isAtWords s.1).map fun s => (s.2, s.1.length)
  | _ => none

/-- The error that something else should stand at the cursor. -/
def unexpected (c : Cursor) (expected : String) : SyntaxError :=
  ⟨.unexpected expected c.kind, c.span⟩

end Cursor

end Prose
