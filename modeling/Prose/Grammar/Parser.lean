import Prose.Grammar.Cursor
import Prose.Tree

/-!
From tokens to trees: recursive descent, with precedence climbing for operators. Most words of the
grammar are not reserved, so they are known by the place they stand in.

The productions call each other, so they carry a bound on the depth of these calls, and fail with an
error of its own where they would go deeper. Each call that goes deeper without using up a token is
followed by one that does, and `depthBound` allows for more calls than the tokens of a statement can
ask for, so that error is never met.
-/

namespace Prose

/-- Reads from a cursor, moving it, or fails. -/
abbrev Parser := StateT Cursor (Except SyntaxError)

namespace Parser

/-! ### Tokens -/

/-- Passes the current token and returns it. -/
def advance : Parser Token := fun c => .ok (c.current, c.advance)

def eat (kind : Token.Kind) : Parser Bool := fun c =>
  if c.isAt kind then .ok (true, c.advance) else .ok (false, c)

def eatWord (word : String) : Parser Bool := fun c =>
  if c.isAtWord word then .ok (true, c.advance) else .ok (false, c)

/-- Passes the given words if all of them are next, else nothing. -/
def eatWords (words : List String) : Parser Bool := fun c =>
  if c.isAtWords words then .ok (true, c.advanceBy words.length) else .ok (false, c)

def eatTerminator : Parser Bool := fun c =>
  if c.kind.isTerminator then .ok (true, c.advance) else .ok (false, c)

def skipNewlines : Parser Unit := fun c => .ok ((), c.skipNewlines)

/-- Fails: something else should stand at the cursor. -/
def unexpected (expected : String) : Parser α := fun c => .error (c.unexpected expected)

def expect (kind : Token.Kind) : Parser Span := fun c =>
  if c.isAt kind then .ok (c.span, c.advance) else .error (c.unexpected kind.describe)

def expectWord (word : String) : Parser Span := fun c =>
  if c.isAtWord word then .ok (c.span, c.advance)
  else .error (c.unexpected (Token.Kind.quoted word))

/-- Passes a plain word and returns it as a name with its span. -/
def expectName : Parser (Name × Span) := fun c =>
  match c.kind with
  | .word name => .ok ((name, c.span), c.advance)
  | _ => .error (c.unexpected "identifier")

/-- Passes a comma or the word `and` between two items of a list. -/
def eatSeparator : Parser Bool := do
  if ← eat (.symbol .comma) then return true
  eatWord "and"

/-- Fails: an expression should stand at the cursor. -/
def noExpression : Parser α := fun c => .error ⟨.noExpression c.kind, c.span⟩

/-- Fails: the productions may go no deeper. -/
def tooDeep : Parser α := fun c => .error ⟨.tooDeep, c.span⟩

/-! ### Productions without recursion -/

/-- A minus sign before a number literal. -/
def negativeLiteral : Parser Expr := do
  let minus ← advance
  let c ← get
  match c.kind with
  | .integer n =>
    let token ← advance
    return .integer (-n) (minus.span.merge token.span)
  | .real r =>
    let token ← advance
    return .real (-r) (minus.span.merge token.span)
  | found => throw ⟨.notNegatable found, c.span⟩

/-- What an expression stands for as the left side of an assignment. -/
def targetOf (e : Expr) : Parser Target :=
  match e with
  | .name name _ => return .name name
  | .binary .atPosition list index _ => return .position list index
  | e => throw ⟨.notAssignable, e.span⟩

/-- The words up to `into` that follow a first one, joined by blanks, with their span. At most `n`
words are read. -/
def typeWords : Nat → ReadType → Parser ReadType
  | 0, type => return type
  | n + 1, type => do
    let c ← get
    if c.isAtWord "into" then return type
    match c.kind with
    | .word name =>
      let token ← advance
      typeWords n ⟨type.text ++ " " ++ name.text, type.span.merge token.span⟩
    | _ => return type

/-- The words between `Read a` and `into`. -/
def readType : Parser ReadType := do
  let c ← get
  if c.isAtWord "into" then unexpected "a type name"
  match c.kind with
  | .word name =>
    let token ← advance
    typeWords c.ahead.length ⟨name.text, token.span⟩
  | _ => unexpected "a type name"

/-- `Read` with an optional type, `into` and a name, after the word `Read`. -/
def readStatement : Parser (Span → Stmt) := do
  let typed ← do
    if ← eatWord "a" then pure true else eatWord "an"
  let type ← if typed then some <$> readType else pure none
  let _ ← expectWord "into"
  let (target, _) ← expectName
  return .read type target

/-- Names separated by commas or `and`, after a first one. At most `n` names are read. -/
def moreNames : Nat → List Name → Parser (List Name)
  | 0, names => return names
  | n + 1, names => do
    if ← eatSeparator then
      let (name, _) ← expectName
      moreNames n (names ++ [name])
    else return names

/-- The parameters of a function after `a function`. -/
def parameters : Parser (List Name) := do
  if ← eatWord "given" then
    let (name, _) ← expectName
    moreNames (← get).ahead.length [name]
  else return []

/-! ### Productions with recursion -/

mutual

/-- An expression whose operators bind at least as tightly as `least`. -/
def binary : Nat → Nat → Parser Expr
  | 0, _ => tooDeep
  | n + 1, least => do
    let left ← primary n
    operators n least left

/-- The operators, binding at least as tightly as `least`, and the operands after `left`. -/
def operators : Nat → Nat → Expr → Parser Expr
  | 0, _, _ => tooDeep
  | n + 1, least, left => do
    match (← get).operator? with
    | none => return left
    | some (op, length) =>
      if op.precedence < least then return left
      else
        modify (·.advanceBy length)
        let right ← binary n op.rightPrecedence
        operators n least (.binary op left right (left.span.merge right.span))

/-- An operand. -/
def primary : Nat → Parser Expr
  | 0 => tooDeep
  | n + 1 => do
    let c ← get
    let span := c.span
    match c.kind with
    | .integer value =>
      let _ ← advance
      return .integer value span
    | .real value =>
      let _ ← advance
      return .real value span
    | .text value =>
      let _ ← advance
      return .text value span
    | .keyword .yes =>
      let _ ← advance
      return .truth true span
    | .keyword .no =>
      let _ ← advance
      return .truth false span
    | .symbol .minus => negativeLiteral
    | .symbol .openBracket =>
      let _ ← advance
      if (← get).isAt (.symbol .closeBracket) then
        let stop ← expect (.symbol .closeBracket)
        return .list [] (span.merge stop)
      else
        let first ← binary n 1
        let items ← moreItems n [first]
        let stop ← expect (.symbol .closeBracket)
        return .list items (span.merge stop)
    | .symbol .openParen =>
      let _ ← advance
      let inner ← binary n 1
      let stop ← expect (.symbol .closeParen)
      return .group inner (span.merge stop)
    | .word name =>
      if ← eatWords ["a", "function"] then
        let params ← parameters
        let _ ← expect (.symbol .colon)
        skipNewlines
        let body ← block n
        return .function params body (span.merge body.span)
      else if ← eatWords ["the", "result", "of"] then
        let call ← resultCall n
        return .result call (span.merge call.span)
      else if ← eatWords ["result", "of"] then
        let call ← resultCall n
        return .result call (span.merge call.span)
      else
        let _ ← advance
        return .name name span
    | _ => noExpression

def moreItems : Nat → List Expr → Parser (List Expr)
  | 0, _ => tooDeep
  | n + 1, items => do
    if ← eat (.symbol .comma) then
      let item ← binary n 1
      moreItems n (items ++ [item])
    else return items

/-- The call after `the result of`: a callee with no operator but `at position`, and arguments. -/
def resultCall : Nat → Parser Call
  | 0 => tooDeep
  | n + 1 => do
    let callee ← binary n Operator.atPosition.precedence
    callFrom n callee

/-- The call of a function: `with`, and arguments. -/
def callFrom : Nat → Expr → Parser Call
  | 0, _ => tooDeep
  | n + 1, callee => do
    if ← eatWord "with" then
      let first ← argument n
      let args ← moreArguments n [first]
      return .mk callee args (args.foldl (fun s a => s.merge a.value.span) callee.span)
    else return .mk callee [] callee.span

/-- `name as value`. -/
def argument : Nat → Parser Argument
  | 0 => tooDeep
  | n + 1 => do
    let (name, nameSpan) ← expectName
    let _ ← expectWord "as"
    let value ← binary n 1
    return .mk name nameSpan value

def moreArguments : Nat → List Argument → Parser (List Argument)
  | 0, _ => tooDeep
  | n + 1, args => do
    if ← eatSeparator then
      let arg ← argument n
      moreArguments n (args ++ [arg])
    else return args

/-- A statement with the sign that may end it. -/
def statement : Nat → Parser Stmt
  | 0 => tooDeep
  | n + 1 => do
    let start := (← get).span
    let make ← sentence n
    let stmt := make (start.merge (← get).previousSpan)
    let _ ← eatTerminator
    return stmt

/-- A statement that still lacks its span. -/
def sentence : Nat → Parser (Span → Stmt)
  | 0 => tooDeep
  | n + 1 => do
    match (← get).kind with
    | .keyword .set =>
      let _ ← advance
      let target ← targetOf (← binary n Operator.atPosition.precedence)
      let _ ← expectWord "to"
      return .assign target (← binary n 1)
    | .keyword .print =>
      let _ ← advance
      return .print (← binary n 1)
    | .keyword .read =>
      let _ ← advance
      readStatement
    | .keyword .add =>
      let _ ← advance
      let value ← binary n 1
      let _ ← expectWord "to"
      return .add value (← binary n 1)
    | .keyword .remove =>
      let _ ← advance
      match ← binary n Operator.atPosition.precedence with
      | .binary .atPosition list index _ => return .remove list index
      | _ => unexpected "`at position`"
    | .keyword .loop =>
      let _ ← advance
      let condition ← binary n 1
      return .loop condition (← body n)
    | .keyword .branch =>
      let _ ← advance
      let condition ← binary n 1
      let first ← body n
      let saved ← get
      skipNewlines
      let _ ← eat (.symbol .comma)
      if ← eat (.keyword .otherwise) then
        return .branch condition first (some (← alternative n))
      else
        set saved
        return .branch condition first none
    | .keyword .each =>
      let _ ← advance
      let _ ← expectWord "each"
      let (item, _) ← expectName
      let _ ← expectWord "in"
      let list ← binary n 1
      return .forEach item list (← body n)
    | .keyword .increment =>
      let _ ← advance
      return .increment (← expectName).1
    | .keyword .decrement =>
      let _ ← advance
      return .decrement (← expectName).1
    | .keyword .exit =>
      let _ ← advance
      return .exit
    | .keyword .run =>
      let _ ← advance
      let callee ← binary n 1
      return .run (← callFrom n callee)
    | .word _ =>
      if ← eatWords ["what", "is"] then return .inspect (← binary n 1)
      else if ← eatWords ["the", "result", "is"] then return .result (← binary n 1)
      else
        let target ← targetOf (← binary n Operator.atPosition.precedence)
        let _ ← expectWord "is"
        return .assign target (← binary n 1)
    | _ => unexpected "statement"

/-- A colon and a block, or a comma and a statement. -/
def body : Nat → Parser Body
  | 0 => tooDeep
  | n + 1 => do
    if ← eat (.symbol .colon) then
      skipNewlines
      return .block (← block n)
    else if ← eat (.symbol .comma) then
      return .sentence (← statement n)
    else unexpected "`:` or `,`"

/-- What follows `otherwise`: a colon and a block, or a statement with or without a comma. -/
def alternative : Nat → Parser Body
  | 0 => tooDeep
  | n + 1 => do
    if (← get).isAt (.symbol .colon) then body n
    else
      let _ ← eat (.symbol .comma)
      return .sentence (← statement n)

def block : Nat → Parser Block
  | 0 => tooDeep
  | n + 1 => do
    let c ← get
    if ← eat .indent then
      let stmts ← blockLines n []
      let stop ← expect .dedent
      return .mk stmts (c.span.merge stop)
    else throw ⟨.noBlock c.kind, c.span⟩

/-- The statements up to the end of a block, after the first ones. -/
def blockLines : Nat → List Stmt → Parser (List Stmt)
  | 0, _ => tooDeep
  | n + 1, stmts => do
    skipNewlines
    let c ← get
    if c.isAt .dedent then return stmts
    else if c.atEnd then unexpected "end of block"
    else
      let stmt ← statement n
      blockLines n (stmts ++ [stmt])

end

/-- Succeeds only at the end of the tokens. -/
def finish : Parser Unit := do
  skipNewlines
  if (← get).atEnd then return () else unexpected "end of statement"

def completeStatement (depth : Nat) : Parser Stmt := do
  skipNewlines
  let stmt ← statement depth
  finish
  return stmt

/-- An expression, the sign that may end it, and nothing after it. -/
def completeExpression (depth : Nat) : Parser Expr := do
  skipNewlines
  let e ← binary depth 1
  let _ ← eatTerminator
  finish
  return e

/-- A depth of calls that the productions do not reach on the given number of tokens. -/
def depthBound (tokens : Nat) : Nat := 8 * tokens + 8

/-- Runs a parser on the tokens of a statement. -/
def runOn (parser : Nat → Parser α) (tokens : List Token) : Except SyntaxError α :=
  match Cursor.ofTokens? tokens with
  | none => .error ⟨.emptyStatement, .nowhere⟩
  | some c => (parser (depthBound tokens.length) c).map (·.1)

end Parser

def parseStatement (tokens : List Token) : Except SyntaxError Stmt :=
  Parser.runOn Parser.completeStatement tokens

def parseExpression (tokens : List Token) : Except SyntaxError Expr :=
  Parser.runOn Parser.completeExpression tokens

/-- Reads one statement from its text. Any flawed token is an error, the first one first. -/
def parseText (text : List Char) : Except SyntaxError Stmt :=
  let lexed := lex text
  match lexed.errors with
  | e :: _ => .error (.ofLexError e)
  | [] => parseStatement lexed.tokens

end Prose
