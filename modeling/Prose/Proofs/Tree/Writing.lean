import Prose.Token.Lexer
import Prose.Tree

/-!
Writing trees as tokens. A statement can be written in more than one way: an
operator has a symbol or several spellings in words, and an assignment two
forms; a `Wording` chooses at every node. The trees that can be written are
those whose names mean nothing to the grammar and whose operands bind tightly
enough to stand where they do.
-/

namespace Prose

/-! ### Words -/

/-- The words that mean something to the grammar. -/
def grammarWords : List String :=
  ["what", "is", "the", "result", "of", "to", "a", "an", "function", "given",
    "and", "with", "as", "into", "each", "in"] ++
  Operator.spellings.flatMap (·.1)

/-- Whether characters make one word. -/
def Lexer.isWordText : List Char → Bool
  | [] => false
  | c :: cs => isWordStart c && cs.all isWordPart

/-- Whether a name is a word that means nothing to the grammar. -/
def Name.isPlain (name : Name) : Bool :=
  Lexer.isWordText name.text.toList &&
  (Keyword.ofWord? name.text).isNone &&
  grammarWords.all fun word => !name.isWord word

def Token.Kind.ofWord (word : String) : Token.Kind := .word (.ofString word)

/-- The words that say what a `Read` statement reads. -/
def ReadType.words (type : ReadType) : List Name :=
  (type.text.toList.splitOn ' ').map fun word => .ofString (String.ofList word)

namespace Operator

/-- The symbol of an operator, if it has one. -/
def symbol? : Operator → Option Symbol
  | add => some .plus
  | subtract => some .minus
  | multiply => some .star
  | divide => some .slash
  | power => some .caret
  | equal => some .equal
  | notEqual => some .notEqual
  | less => some .less
  | lessEqual => some .lessEqual
  | greater => some .greater
  | greaterEqual => some .greaterEqual
  | atPosition => none

/-- All ways to write an operator. -/
def wordings (op : Operator) : List (List Token.Kind) :=
  op.symbol?.toList.map (fun symbol => [.symbol symbol]) ++
  (spellings.filter (·.2 == op)).map (·.1.map .ofWord)

/-- The operator written in one of its ways. -/
def write (op : Operator) (choice : Nat) : List Token.Kind :=
  op.wordings.getD (choice % op.wordings.length) []

/-- The least precedence an operator may have to belong to the left operand. -/
def leftPrecedence (op : Operator) : Nat :=
  if op.isRightAssociative then op.precedence + 1 else op.precedence

end Operator

/-! ### Trees -/

/-- Which way to write a node, by the span it carries. -/
abbrev Wording := Span → Nat

/-- The tokens between names: a first mark, and commas. -/
def writeNames : List Token.Kind → List Name → List Token.Kind
  | _, [] => []
  | mark, name :: names =>
    mark ++ .word name :: writeNames [.symbol .comma] names

/-- The type a `Read` statement names, after an article. -/
def writeType : Option ReadType → List Token.Kind
  | none => []
  | some type => .ofWord "a" :: type.words.map .word

/-- Whether tokens begin with a word. -/
def beginsWithWord : List Token.Kind → Bool
  | .word _ :: _ => true
  | _ => false

mutual

/-- An expression as tokens. -/
@[simp] def Expr.write (w : Wording) : Expr → List Token.Kind
  | .integer value _ =>
    if value < 0 then [.symbol .minus, .integer (-value)] else [.integer value]
  | .real value _ => [.real value]
  | .name name _ => [.word name]
  | .text value _ => [.text value]
  | .truth value _ => [.keyword (if value then .yes else .no)]
  | .list items _ =>
    .symbol .openBracket ::
      (writeItems w [] items ++ [.symbol .closeBracket])
  | .function params body _ =>
    .ofWord "a" :: .ofWord "function" ::
      (writeNames [.ofWord "given"] params ++
        .symbol .colon :: .newline :: body.write w)
  | .group inner _ =>
    .symbol .openParen :: (inner.write w ++ [.symbol .closeParen])
  | .result call _ =>
    .ofWord "the" :: .ofWord "result" :: .ofWord "of" :: call.write w
  | .binary op left right span =>
    left.write w ++ (op.write (w span) ++ right.write w)

/-- The items of a list as tokens, with a mark before the first. -/
@[simp] def writeItems (w : Wording) : List Token.Kind → List Expr → List Token.Kind
  | _, [] => []
  | mark, item :: items =>
    mark ++ (item.write w ++ writeItems w [.symbol .comma] items)

@[simp] def Call.write (w : Wording) : Call → List Token.Kind
  | .mk callee args _ =>
    callee.write w ++ writeArguments w [.ofWord "with"] args

/-- Arguments as tokens, with a mark before the first. -/
@[simp] def writeArguments (w : Wording) :
    List Token.Kind → List Argument → List Token.Kind
  | _, [] => []
  | mark, arg :: args =>
    mark ++ (arg.write w ++ writeArguments w [.symbol .comma] args)

@[simp] def Argument.write (w : Wording) : Argument → List Token.Kind
  | .mk name _ value => .word name :: .ofWord "as" :: value.write w

@[simp] def Target.write (w : Wording) : Target → List Token.Kind
  | .name name => [.word name]
  | .position list index =>
    list.write w ++ (Operator.atPosition.write 0 ++ index.write w)

/-- A statement as tokens, without the sign that ends it. -/
@[simp] def Stmt.write (w : Wording) : Stmt → List Token.Kind
  | .assign target value span =>
    let left := target.write w
    (if 0 < w span ∧ beginsWithWord left then left ++ [.ofWord "is"]
      else .keyword .set :: (left ++ [.ofWord "to"])) ++ value.write w
  | .print value _ => .keyword .print :: value.write w
  | .inspect value _ => .ofWord "what" :: .ofWord "is" :: value.write w
  | .read type target _ =>
    .keyword .read :: (writeType type ++ [.ofWord "into", .word target])
  | .add value list _ =>
    .keyword .add :: (value.write w ++ .ofWord "to" :: list.write w)
  | .remove list index _ =>
    .keyword .remove ::
      (list.write w ++ (Operator.atPosition.write 0 ++ index.write w))
  | .loop condition body _ =>
    .keyword .loop :: (condition.write w ++ body.write w)
  | .branch condition body alternative _ =>
    .keyword .branch :: (condition.write w ++
      (body.write w ++ writeAlternative w alternative))
  | .forEach item list body _ =>
    .keyword .each :: .ofWord "each" :: .word item :: .ofWord "in" ::
      (list.write w ++ body.write w)
  | .increment name _ => [.keyword .increment, .word name]
  | .decrement name _ => [.keyword .decrement, .word name]
  | .exit _ => [.keyword .exit]
  | .run call _ => .keyword .run :: call.write w
  | .result value _ =>
    .ofWord "the" :: .ofWord "result" :: .ofWord "is" :: value.write w

/-- What follows `otherwise` as tokens, with that word. -/
@[simp] def writeAlternative (w : Wording) : Option Body → List Token.Kind
  | none => []
  | some body => .keyword .otherwise :: body.write w

@[simp] def Body.write (w : Wording) : Body → List Token.Kind
  | .block block => .symbol .colon :: .newline :: block.write w
  | .sentence stmt =>
    .symbol .comma :: (stmt.write w ++ [.symbol .dot])

/-- A block as tokens, between its marks. -/
@[simp] def Block.write (w : Wording) : Block → List Token.Kind
  | .mk stmts _ => .indent :: (writeLines w stmts ++ [.dedent])

@[simp] def writeLines (w : Wording) : List Stmt → List Token.Kind
  | [] => []
  | stmt :: stmts =>
    stmt.write w ++ .symbol .dot :: .newline :: writeLines w stmts

end

/-! ### Trees that can be written -/

/-- How tightly the outermost operator of an expression binds; an operand binds
tighter than every operator. -/
def Expr.level : Expr → Nat
  | .binary op _ _ _ => op.precedence
  | _ => Operator.atPosition.rightPrecedence

mutual

/-- Whether an expression can be written. A call must stand in parentheses:
nothing else ends its arguments. -/
@[simp] def Expr.isWritable (grouped : Bool) : Expr → Bool
  | .integer value _ => value != Int64.minValue
  | .real _ _ => false
  | .name name _ => name.isPlain
  | .text value _ => value.toList.all Lexer.isTextPart
  | .truth _ _ => true
  | .list items _ => areWritableItems items
  | .function params body _ => params.all Name.isPlain && body.isWritable
  | .group inner _ => inner.isWritable true
  | .result call _ =>
    grouped && call.isWritable &&
    decide (Operator.atPosition.precedence ≤ call.callee.level)
  | .binary op left right _ =>
    left.isWritable false && right.isWritable false &&
    decide (op.leftPrecedence ≤ left.level) &&
    decide (op.rightPrecedence ≤ right.level)

@[simp] def areWritableItems : List Expr → Bool
  | [] => true
  | item :: items => item.isWritable false && areWritableItems items

@[simp] def Call.isWritable : Call → Bool
  | .mk callee args _ => callee.isWritable false && areWritableArguments args

@[simp] def areWritableArguments : List Argument → Bool
  | [] => true
  | arg :: args => arg.isWritable && areWritableArguments args

@[simp] def Argument.isWritable : Argument → Bool
  | .mk name _ value => name.isPlain && value.isWritable false

@[simp] def Target.isWritable : Target → Bool
  | .name name => name.isPlain
  | .position list index =>
    list.isWritable false && index.isWritable false &&
    decide (Operator.atPosition.leftPrecedence ≤ list.level) &&
    decide (Operator.atPosition.rightPrecedence ≤ index.level)

@[simp] def Stmt.isWritable : Stmt → Bool
  | .assign target value _ => target.isWritable && value.isWritable false
  | .print value _ => value.isWritable false
  | .inspect value _ => value.isWritable false
  | .read type target _ =>
    (type.all fun type => type.words.all Name.isPlain) && target.isPlain
  | .add value list _ => value.isWritable false && list.isWritable false
  | .remove list index _ =>
    list.isWritable false && index.isWritable false &&
    decide (Operator.atPosition.leftPrecedence ≤ list.level) &&
    decide (Operator.atPosition.rightPrecedence ≤ index.level)
  | .loop condition body _ => condition.isWritable false && body.isWritable
  | .branch condition body alternative _ =>
    condition.isWritable false && body.isWritable &&
    isWritableAlternative alternative
  | .forEach item list body _ =>
    item.isPlain && list.isWritable false && body.isWritable
  | .increment name _ => name.isPlain
  | .decrement name _ => name.isPlain
  | .exit _ => true
  | .run call _ => call.isWritable
  | .result value _ => value.isWritable false

/-- Whether what follows `otherwise` can be written. -/
@[simp] def isWritableAlternative : Option Body → Bool
  | none => true
  | some body => body.isWritable

@[simp] def Body.isWritable : Body → Bool
  | .block block => block.isWritable
  | .sentence stmt => stmt.isWritable

@[simp] def Block.isWritable : Block → Bool
  | .mk stmts _ => areWritableLines stmts

@[simp] def areWritableLines : List Stmt → Bool
  | [] => true
  | stmt :: stmts => stmt.isWritable && areWritableLines stmts

end

/-! ### Trees without their spans -/

mutual

/-- The expression without its spans. -/
@[simp] def Expr.bare : Expr → Expr
  | .integer value _ => .integer value .nowhere
  | .real value _ => .real value .nowhere
  | .name name _ => .name name .nowhere
  | .text value _ => .text value .nowhere
  | .truth value _ => .truth value .nowhere
  | .list items _ => .list (bareItems items) .nowhere
  | .function params body _ => .function params body.bare .nowhere
  | .group inner _ => .group inner.bare .nowhere
  | .result call _ => .result call.bare .nowhere
  | .binary op left right _ => .binary op left.bare right.bare .nowhere

@[simp] def bareItems : List Expr → List Expr
  | [] => []
  | item :: items => item.bare :: bareItems items

@[simp] def Call.bare : Call → Call
  | .mk callee args _ => .mk callee.bare (bareArguments args) .nowhere

@[simp] def bareArguments : List Argument → List Argument
  | [] => []
  | arg :: args => arg.bare :: bareArguments args

@[simp] def Argument.bare : Argument → Argument
  | .mk name _ value => .mk name .nowhere value.bare

@[simp] def Target.bare : Target → Target
  | .name name => .name name
  | .position list index => .position list.bare index.bare

@[simp] def Stmt.bare : Stmt → Stmt
  | .assign target value _ => .assign target.bare value.bare .nowhere
  | .print value _ => .print value.bare .nowhere
  | .inspect value _ => .inspect value.bare .nowhere
  | .read type target _ =>
    .read (type.map fun type => ⟨type.text, .nowhere⟩) target .nowhere
  | .add value list _ => .add value.bare list.bare .nowhere
  | .remove list index _ => .remove list.bare index.bare .nowhere
  | .loop condition body _ => .loop condition.bare body.bare .nowhere
  | .branch condition body alternative _ =>
    .branch condition.bare body.bare (bareAlternative alternative) .nowhere
  | .forEach item list body _ => .forEach item list.bare body.bare .nowhere
  | .increment name _ => .increment name .nowhere
  | .decrement name _ => .decrement name .nowhere
  | .exit _ => .exit .nowhere
  | .run call _ => .run call.bare .nowhere
  | .result value _ => .result value.bare .nowhere

/-- What follows `otherwise` without its spans. -/
@[simp] def bareAlternative : Option Body → Option Body
  | none => none
  | some body => some body.bare

@[simp] def Body.bare : Body → Body
  | .block block => .block block.bare
  | .sentence stmt => .sentence stmt.bare

@[simp] def Block.bare : Block → Block
  | .mk stmts _ => .mk (bareLines stmts) .nowhere

@[simp] def bareLines : List Stmt → List Stmt
  | [] => []
  | stmt :: stmts => stmt.bare :: bareLines stmts

end

end Prose
