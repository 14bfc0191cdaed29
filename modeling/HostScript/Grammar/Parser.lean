import HostScript.Grammar.Lexer

/-!
# Recognizing a script

A recognizer reads tokens one ahead and keeps what the grammar depends on beyond the tokens: the
kind of code around the place, and whether the expression just read could still be an assignment
target or a list of parameters. It gives no syntax tree, only the shape of an expression as far as
later tokens can give it another meaning. A script that does not fit is reported by a line.
-/

namespace HostScript.Grammar

/-- What surrounds a place in a script. -/
structure Context where
  /-- Inside an asynchronous function. -/
  await : Bool := false
  /-- Whether `in` is an operator. -/
  allowIn : Bool := true
  /-- Whether a function may declare itself strict. -/
  allowStrictDirective : Bool := true
  /-- Whether `yield` can be a name. -/
  allowYield : Bool := true
  /-- The line of a shorthand property with a value, which is valid in patterns only. -/
  coverError : Option Nat := none
  isAssignmentTarget : Bool := false
  isBindingElement : Bool := false
  inFunctionBody : Bool := false
  inIteration : Bool := false
  inSwitch : Bool := false
  labels : List Text := []
  strict : Bool := false

/-- A recognizer between two tokens. -/
structure State where
  /-- The place after the token ahead. -/
  lexer : Lexer
  /-- The place where the token ahead starts. -/
  start : Lexer
  ahead : Token
  /-- Whether a line ends between the last token and the one ahead. -/
  newline : Bool
  /-- The line where the last token ends. -/
  lastLine : Nat
  context : Context
  /-- A bound on the number of tokens. -/
  budget : Nat

/-- A recognizing step; it fails where the script does not fit. -/
abbrev Parser := StateT State Outcome

/-- The shape of an expression or pattern. -/
inductive Shape where
  | name (text : Text)
  | member
  /-- A literal; what it stands for if it is a string. -/
  | literal (text : Option Text)
  | array (items : List Shape)
  /-- The values of an object. -/
  | object (values : List Shape)
  /-- A target with a value; whether the value is a `yield`, and whether that has an argument. -/
  | assignment (target : Shape) (yields : Option Bool)
  | spread (argument : Shape)
  | unary
  | sequence (items : List Shape)
  | yield_ (hasArgument : Bool)
  /-- The word that loads a module, before its argument. -/
  | load
  /-- What can only be the parameters of an arrow function. -/
  | parameters (items : List Shape) (async : Bool)
  | other
  deriving Inhabited

/-- Whether a shape is a plain name. -/
def Shape.isName : Shape → Bool
  | .name _ => true
  | _ => false

/-- The text of a shape that can be a key: a name, or what a string stands for. -/
def Shape.keyText? : Shape → Option Text
  | .name t => some t
  | .literal text => text
  | _ => none

mutual

/-- The names that a shape binds as a pattern, in order. -/
def Shape.bound : Shape → List Text
  | .name t => [t]
  | .spread s => s.bound
  | .assignment s _ => s.bound
  | .array items => boundAll items
  | .object values => boundAll values
  | _ => []

/-- The names that shapes bind as patterns, in order. -/
def boundAll : List Shape → List Text
  | [] => []
  | s :: rest => s.bound ++ boundAll rest

end

namespace Parser

/-- Fails at a line. -/
def failAt {α : Type} (line : Nat) : Parser α := throw (.invalidScript line)

/-- Fails at a token. -/
def unexpected {α : Type} (t : Token) : Parser α := failAt t.line

/-- Fails where the last token ends. -/
def failLast {α : Type} : Parser α := do failAt (← get).lastLine

/-- Fails where the token ahead ends. -/
def failHere {α : Type} : Parser α := do failAt (← get).lexer.line

/-- The token ahead. -/
def ahead : Parser Token := return (← get).ahead

/-- What surrounds the place. -/
def context : Parser Context := return (← get).context

/-- Changes what surrounds the place. -/
def setContext (f : Context → Context) : Parser Unit :=
  modify fun s => { s with context := f s.context }

/-- What the lexer gives; its failure is that of the script. -/
def ofLexer {α : Type} : Except Nat α → Parser α
  | .ok a => pure a
  | .error line => failAt line

/-- Reads the token after the next white space, and the place where it starts. -/
def lexFrom (x : Lexer) : Parser (Token × Lexer × Lexer) := do
  let start ← ofLexer x.skip
  let (t, after) ← ofLexer start.token
  pure (t, start, after)

/-- Passes over the token ahead and gives it. -/
def advance : Parser Token := do
  let s ← get
  let (t, start, after) ← lexFrom s.lexer
  let t := if s.context.strict && t.kind == .identifier && isStrictWord t.value then
      { t with kind := .keyword }
    else t
  set { s with
    lexer := after
    start := start
    ahead := t
    newline := s.ahead.line != t.line
    lastLine := s.lexer.line }
  pure s.ahead

/-- Reads the token ahead once more, as a regular expression, and passes over it. -/
def advanceRegex : Parser Unit := do
  let s ← get
  let (t, after) ← ofLexer s.start.regex
  set { s with lexer := after, ahead := t }
  let _ ← advance

/-- The token behind the one ahead, not yet passed over. Braces that it opens or closes count now
already. -/
def second : Parser Token := do
  let s ← get
  let (t, _, after) ← lexFrom s.lexer
  set { s with lexer := { s.lexer with braces := after.braces } }
  pure t

/-- Whether the token ahead is a given punctuator. -/
def sees (p : String) : Parser Bool := return (← ahead).isPunctuator p

/-- Whether the token ahead is a given keyword. -/
def seesKeyword (k : String) : Parser Bool := return (← ahead).isKeyword k

/-- Whether the token ahead is an identifier with a meaning in its place. -/
def seesWord (w : String) : Parser Bool := return (← ahead).isWord w

/-- Passes over a punctuator. -/
def expect (p : String) : Parser Unit := do
  let t ← advance
  if t.isPunctuator p then pure () else unexpected t

/-- Passes over a keyword. -/
def expectKeyword (k : String) : Parser Unit := do
  let t ← advance
  if t.isKeyword k then pure () else unexpected t

/-- Passes over a punctuator if it is ahead; tells whether it was. -/
def accept (p : String) : Parser Bool := do
  if ← sees p then
    let _ ← advance
    pure true
  else pure false

/-- Ends a statement: by a semicolon, by the end of a line, or before a closing brace or the end
of the script. -/
def endStatement : Parser Unit := do
  if ← accept ";" then pure ()
  else if (← get).newline then pure ()
  else
    let t ← ahead
    if t.kind == .eof || t.isPunctuator "\x7d" then
      modify fun s => { s with lastLine := s.start.line }
    else unexpected t

/-- Notes that the expression can be neither assigned to nor bound. -/
def plainValue : Parser Unit :=
  setContext fun c => { c with isAssignmentTarget := false, isBindingElement := false }

/-- Notes that the expression can be assigned to but not bound. -/
def memberTarget : Parser Unit :=
  setContext fun c => { c with isAssignmentTarget := true, isBindingElement := false }

/-- Reads an expression on its own: what it could be is settled at its end. -/
def isolated {α : Type} (p : Parser α) : Parser α := do
  let before ← context
  setContext fun c =>
    { c with isBindingElement := true, isAssignmentTarget := true, coverError := none }
  let a ← p
  match (← context).coverError with
  | some line => failAt line
  | none =>
    setContext fun c => { c with
      isBindingElement := before.isBindingElement
      isAssignmentTarget := before.isAssignmentTarget
      coverError := before.coverError }
    pure a

/-- Reads a part of an expression: what it could be limits what the whole could be. -/
def inherited {α : Type} (p : Parser α) : Parser α := do
  let before ← context
  setContext fun c =>
    { c with isBindingElement := true, isAssignmentTarget := true, coverError := none }
  let a ← p
  setContext fun c => { c with
    isBindingElement := c.isBindingElement && before.isBindingElement
    isAssignmentTarget := c.isAssignmentTarget && before.isAssignmentTarget
    coverError := before.coverError <|> c.coverError }
  pure a

/-- Repeats a step that tells whether to go on, at most `fuel` times. -/
def repeatFor (step : Parser Bool) : (fuel : Nat) → Parser Unit
  | 0 => failHere
  | fuel + 1 => do
    if ← step then repeatFor step fuel else pure ()

/-- Repeats a step as long as it asks to. Every such step passes over a token. -/
def loop (step : Parser Bool) : Parser Unit := do repeatFor step (← get).budget

/-- Repeats a step on a value as long as it gives a new one, at most `fuel` times. -/
def iterateFor {α : Type} (step : α → Parser (Option α)) : (fuel : Nat) → α → Parser α
  | 0, _ => failHere
  | fuel + 1, a => do
    match ← step a with
    | some b => iterateFor step fuel b
    | none => pure a

/-- Repeats a step on a value as long as it gives a new one. Every such step passes over a token. -/
def iterate {α : Type} (step : α → Parser (Option α)) (a : α) : Parser α := do
  iterateFor step (← get).budget a

/-- Whether an asynchronous function starts here: `async` and `function` on one line. -/
def seesAsyncFunction : Parser Bool := do
  if ← seesWord "async" then
    let t ← second
    pure ((← get).lexer.line == t.line && t.isKeyword "function")
  else pure false

/-- Reads a name after a dot, where every word is a name. -/
def memberName : Parser Text := do
  let t ← advance
  if t.isName then pure t.value else unexpected t

/-- Whether code in this context is strict. -/
def isStrict : Parser Bool := return (← context).strict

end Parser

end HostScript.Grammar
