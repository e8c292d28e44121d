import Prose.Name
import Prose.Span

/-!
Tokens. Only the words that begin a statement, and the two truth values, are reserved; every other
word of the grammar is a plain word that the parser knows by its place.
-/

namespace Prose

/-- The reserved words. -/
inductive Keyword where
  | set | print | read | add | remove
  | loop | branch | otherwise | each
  | increment | decrement | exit | run
  | yes | no
deriving DecidableEq, Inhabited

namespace Keyword

def all : List Keyword :=
  [set, print, read, add, remove, loop, branch, otherwise, each, increment, decrement, exit, run,
    yes, no]

/-- The spelling of a reserved word in lower case. -/
def word : Keyword → String
  | set => "set"
  | print => "print"
  | read => "read"
  | add => "add"
  | remove => "remove"
  | loop => "while"
  | branch => "if"
  | otherwise => "otherwise"
  | each => "for"
  | increment => "increment"
  | decrement => "decrement"
  | exit => "exit"
  | run => "run"
  | yes => "true"
  | no => "false"

/-- The reserved word with a given spelling, in any case. -/
def ofWord? (word : String) : Option Keyword :=
  let key := Text.lowerString word
  all.find? (·.word == key)

end Keyword

/-- The symbols of the language. -/
inductive Symbol where
  | plus | minus | star | slash | caret
  | equal | notEqual | less | greater | lessEqual | greaterEqual
  | openParen | closeParen | openBracket | closeBracket
  | comma | colon | dot | question | bang
deriving DecidableEq, Inhabited

namespace Symbol

def spelling : Symbol → String
  | plus => "+"
  | minus => "-"
  | star => "*"
  | slash => "/"
  | caret => "^"
  | equal => "="
  | notEqual => "!="
  | less => "<"
  | greater => ">"
  | lessEqual => "<="
  | greaterEqual => ">="
  | openParen => "("
  | closeParen => ")"
  | openBracket => "["
  | closeBracket => "]"
  | comma => ","
  | colon => ":"
  | dot => "."
  | question => "?"
  | bang => "!"

/-- Whether the symbol can end a sentence. -/
def isTerminator : Symbol → Bool
  | dot | question | bang => true
  | _ => false

end Symbol

namespace Token

/-- What a token is, apart from where it stands. -/
inductive Kind where
  /-- An integer literal. -/
  | integer (value : Int64)
  /-- A literal with a fractional part. -/
  | real (value : Float)
  /-- A string literal without its quotes. -/
  | text (value : String)
  /-- A word that is not reserved. -/
  | word (name : Name)
  | keyword (keyword : Keyword)
  | symbol (symbol : Symbol)
  /-- The end of a physical line. -/
  | newline
  /-- The beginning of a block. -/
  | indent
  /-- The end of a block. -/
  | dedent
  /-- Characters that make no token. -/
  | unreadable
  /-- The end of the statement. -/
  | finish
deriving Inhabited

namespace Kind

/-- A text set in back quotes, as the words and symbols of the language are in messages. -/
def quoted (s : String) : String := "`" ++ s ++ "`"

/-- What a token is called in messages. -/
def describe : Kind → String
  | integer _ => "integer"
  | real _ => "real number"
  | text _ => "string"
  | word _ => "identifier"
  | keyword k => quoted k.word
  | symbol s => quoted s.spelling
  | newline => "end of line"
  | indent => "start of block"
  | dedent => "end of block"
  | unreadable => "unrecognised character"
  | finish => "end of statement"

/-- Whether two tokens are of the same kind; literals and plain words are, whatever they hold. -/
def sameClass : Kind → Kind → Bool
  | integer _, integer _ => true
  | real _, real _ => true
  | text _, text _ => true
  | word _, word _ => true
  | keyword k, keyword l => k == l
  | symbol s, symbol t => s == t
  | newline, newline => true
  | indent, indent => true
  | dedent, dedent => true
  | unreadable, unreadable => true
  | finish, finish => true
  | _, _ => false

/-- Whether the token is one of `.`, `?` and `!`. -/
def isTerminator : Kind → Bool
  | symbol s => s.isTerminator
  | _ => false

/-- Whether the token is a plain word with the given spelling, in any case. -/
def isWord (kind : Kind) (spelling : String) : Bool :=
  match kind with
  | word name => name.isWord spelling
  | _ => false

end Kind

end Token

/-- A token and where it stands in its statement. -/
structure Token where
  kind : Token.Kind
  span : Span
deriving Inhabited

end Prose
