import Prose.Decimal.Form
import Prose.Text.Quoted
import Prose.Token.Lexer

/-!
Tokens for the eye: one to a line, with what they hold and where they stand.
-/

namespace Prose

def Token.Kind.toListing : Token.Kind → String
  | .integer n => "Int(" ++ toString n.toInt ++ ")"
  | .real r => "Real(" ++ Decimal.Form.plain.write r ++ ")"
  | .text s => "Str(" ++ Text.quote s ++ ")"
  | .word name => "Ident(" ++ name.text ++ ")"
  | .keyword k => k.word
  | .symbol s => s.spelling
  | kind => kind.describe

def Token.toListing (t : Token) : String := t.kind.toListing ++ " @ " ++ t.span.toText

def LexError.toListing (e : LexError) : String :=
  "error: " ++ e.flaw.message ++ " @ " ++ e.span.toText

/-- The tokens and the errors of a statement, one to a line. -/
def Lexed.toListing (lexed : Lexed) : List String :=
  (lexed.tokens.map (·.toListing) ++ lexed.errors.map (·.toListing)).map ("  " ++ ·)

end Prose
