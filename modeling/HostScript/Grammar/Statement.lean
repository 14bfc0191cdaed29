import HostScript.Grammar.Expression

/-!
# Statements

Statements and declarations, with the conditions on labels, loops, switches and strict code.
-/

namespace HostScript.Grammar.Parser

/-- Reads a block. -/
def block (k : Productions) : Parser Unit := do
  expect "\x7b"
  loop do
    if ← sees "\x7d" then pure false
    else
      k.item
      pure true
  expect "\x7d"

/-- Refuses to bind a protected name in strict code. -/
def refuseRestricted (shape : Shape) : Parser Unit := do
  match shape with
  | .name t => if (← isStrict) && isRestricted t then failHere
  | _ => pure ()

/-- A declared pattern, and whether it has a value. -/
abbrev Declarator := Shape × Bool

/-- Reads a variable with its value. -/
def variableDeclarator (k : Productions) (inFor : Bool) : Parser Declarator := do
  let (shape, _) ← k.pattern .var_
  refuseRestricted shape
  if ← accept "=" then
    let _ ← isolated k.assignment
    pure (shape, true)
  else if !shape.isName && !inFor then
    expect "="
    pure (shape, false)
  else pure (shape, false)

/-- Reads a block variable or constant with its value. -/
def lexicalDeclarator (k : Productions) (kind : BindingKind) (inFor : Bool) :
    Parser Declarator := do
  let (shape, _) ← k.pattern kind
  refuseRestricted shape
  if kind == .const_ then
    if (← seesKeyword "in") || (← seesWord "of") then pure (shape, false)
    else if ← accept "=" then
      let _ ← isolated k.assignment
      pure (shape, true)
    else failLast
  else if (!inFor && !shape.isName) || (← sees "=") then
    expect "="
    let _ ← isolated k.assignment
    pure (shape, true)
  else pure (shape, false)

/-- Reads declarators with commas between them. -/
def declarators (one : Parser Declarator) : Parser (List Declarator) := do
  let first ← one
  iterate (fun ds => do
    if ← accept "," then
      let d ← one
      pure (some (ds ++ [d]))
    else pure none) [first]

/-- Reads the declaration of variables. -/
def variableStatement (k : Productions) : Parser Unit := do
  let _ ← advance
  let _ ← declarators (variableDeclarator k false)
  endStatement

/-- Passes over `let` or `const` and gives its kind. -/
def lexicalKind : Parser BindingKind := do
  let t ← advance
  pure (if t.isKeyword "const" then .const_ else .let_)

/-- Reads the declaration of block variables or constants. -/
def lexicalDeclaration (k : Productions) : Parser Unit := do
  let kind ← lexicalKind
  let _ ← declarators (lexicalDeclarator k kind false)
  endStatement

/-- Whether `let` starts a declaration rather than being a name. -/
def seesLexicalDeclaration : Parser Bool := do
  let t ← second
  pure (t.kind == .identifier || t.isPunctuator "[" || t.isPunctuator "\x7b" || t.isKeyword "let"
    || t.isKeyword "yield")

/-- Reads a statement inside a loop. -/
def loopBody (body : Parser Unit) : Parser Unit := do
  let before ← context
  setContext fun c => { c with inIteration := true }
  body
  setContext fun c => { c with inIteration := before.inIteration }

/-- Reads an expression in parentheses. -/
def condition (k : Productions) : Parser Unit := do
  expect "("
  let _ ← expression k
  expect ")"

/-- Reads a branch of a conditional statement. -/
def branch (k : Productions) : Parser Unit := do
  if (← isStrict) && (← seesKeyword "function") then failHere
  k.statement

/-- Reads a conditional statement. -/
def ifStatement (k : Productions) : Parser Unit := do
  let _ ← advance
  condition k
  branch k
  if ← seesKeyword "else" then
    let _ ← advance
    branch k

/-- Reads a loop with its condition at the end. -/
def doStatement (k : Productions) : Parser Unit := do
  let _ ← advance
  loopBody k.statement
  expectKeyword "while"
  condition k
  let _ ← accept ";"

/-- Reads a loop with its condition at the start. -/
def whileStatement (k : Productions) : Parser Unit := do
  let _ ← advance
  condition k
  loopBody k.statement

/-- Reads a part in which `in` is no operator. -/
def withoutIn {α : Type} (p : Parser α) : Parser α := do
  let before ← context
  setContext fun c => { c with allowIn := false }
  let a ← p
  setContext fun c => { c with allowIn := before.allowIn }
  pure a

/-- Passes over a word and reads the collection of a loop over its members; the head of the loop
is complete. -/
def loopOver (collection : Parser Shape) : Parser Bool := do
  let _ ← advance
  let _ ← collection
  pure true

/-- Reads the head of a loop that declares a variable; tells whether it is complete. -/
def forVariable (k : Productions) : Parser Bool := do
  let _ ← advance
  let ds ← withoutIn (declarators (variableDeclarator k true))
  match ds with
  | [(shape, hasValue)] =>
    if ← seesKeyword "in" then
      if hasValue && (!shape.isName || (← isStrict)) then failHere
      loopOver (expression k)
    else if !hasValue && (← seesWord "of") then loopOver k.assignment
    else
      expect ";"
      pure false
  | _ =>
    expect ";"
    pure false

/-- Reads the head of a loop that declares a block variable; tells whether it is complete. -/
def forLexical (k : Productions) : Parser Bool := do
  let kind ← lexicalKind
  if !(← isStrict) && (← ahead).value == "in".toList then loopOver (expression k)
  else
    let ds ← withoutIn (declarators (lexicalDeclarator k kind true))
    let single := match ds with
      | [(_, false)] => true
      | _ => false
    if single && (← seesKeyword "in") then loopOver (expression k)
    else if single && (← seesWord "of") then loopOver k.assignment
    else
      endStatement
      pure false

/-- Refuses to assign the members of a collection to what is no target. -/
def refuseTarget (shape : Shape) : Parser Unit := do
  if !(← context).isAssignmentTarget then failHere
  match shape with
  | .assignment .. => failHere
  | _ => pure ()

/-- Reads the head of a loop that starts with an expression; tells whether it is complete. -/
def forExpression (k : Productions) : Parser Bool := do
  let shape ← withoutIn (inherited k.assignment)
  if ← seesKeyword "in" then
    refuseTarget shape
    loopOver (expression k)
  else if ← seesWord "of" then
    refuseTarget shape
    loopOver k.assignment
  else
    loop do
      if ← accept "," then
        let _ ← isolated k.assignment
        pure true
      else pure false
    expect ";"
    pure false

/-- Reads a `for` loop. -/
def forStatement (k : Productions) : Parser Unit := do
  let _ ← advance
  expect "("
  let complete ← if ← accept ";" then pure false
    else if ← seesKeyword "var" then forVariable k
    else if (← seesKeyword "const") || (← seesKeyword "let") then forLexical k
    else forExpression k
  if !complete then
    if !(← sees ";") then
      let _ ← expression k
    expect ";"
    if !(← sees ")") then
      let _ ← expression k
  expect ")"
  loopBody (isolated k.statement)

/-- Reads the label of a jump; tells whether there is one. -/
def jumpLabel : Parser Bool := do
  let s ← get
  if s.ahead.kind == .identifier && !s.newline then
    let name ← variableName .parameter
    if (← context).labels.contains name then pure true else failLast
  else pure false

/-- Reads a jump to the next round of a loop. -/
def continueStatement : Parser Unit := do
  let _ ← advance
  let labelled ← jumpLabel
  endStatement
  if !labelled && !(← context).inIteration then failLast

/-- Reads a jump out of a loop or switch. -/
def breakStatement : Parser Unit := do
  let _ ← advance
  let labelled ← jumpLabel
  endStatement
  let c ← context
  if !labelled && !c.inIteration && !c.inSwitch then failLast

/-- Reads a return with its value. -/
def returnStatement (k : Productions) : Parser Unit := do
  if !(← context).inFunctionBody then failHere
  let _ ← advance
  let s ← get
  let t := s.ahead
  let hasValue := (!t.isPunctuator ";" && !t.isPunctuator "\x7d" && !s.newline && t.kind != .eof)
    || t.kind == .string || t.kind == .template
  if hasValue then
    let _ ← expression k
  endStatement

/-- Reads a `with` statement. -/
def withStatement (k : Productions) : Parser Unit := do
  if ← isStrict then failHere
  let _ ← advance
  condition k
  k.statement

/-- Reads a case of a switch; tells whether it is the default. -/
def switchCase (k : Productions) : Parser Bool := do
  let isDefault ← seesKeyword "default"
  if isDefault then
    let _ ← advance
  else
    expectKeyword "case"
    let _ ← expression k
  expect ":"
  loop do
    if (← sees "\x7d") || (← seesKeyword "default") || (← seesKeyword "case") then pure false
    else
      k.item
      pure true
  pure isDefault

/-- Reads a switch. -/
def switchStatement (k : Productions) : Parser Unit := do
  let _ ← advance
  condition k
  let before ← context
  setContext fun c => { c with inSwitch := true }
  expect "\x7b"
  let _ ← iterate (fun (hasDefault : Bool) => do
    if ← sees "\x7d" then pure none
    else
      let isDefault ← switchCase k
      if isDefault && hasDefault then failLast
      pure (some (hasDefault || isDefault))) false
  expect "\x7d"
  setContext fun c => { c with inSwitch := before.inSwitch }

/-- Reads a throw with its value. -/
def throwStatement (k : Productions) : Parser Unit := do
  let _ ← advance
  if (← get).newline then failLast
  let _ ← expression k
  endStatement

/-- Whether a list has a repeated member. -/
def hasRepeated : List Text → Bool
  | [] => false
  | t :: rest => rest.contains t || hasRepeated rest

/-- Reads the handler of a `try` statement. -/
def catchClause (k : Productions) : Parser Unit := do
  let _ ← advance
  expect "("
  if ← sees ")" then unexpected (← ahead)
  let (shape, tokens) ← k.pattern .parameter
  if hasRepeated (tokens.map (·.value)) then failHere
  refuseRestricted shape
  expect ")"
  block k

/-- Reads a `try` statement. -/
def tryStatement (k : Productions) : Parser Unit := do
  let _ ← advance
  block k
  let caught ← seesKeyword "catch"
  if caught then catchClause k
  let finished ← seesKeyword "finally"
  if finished then
    let _ ← advance
    block k
  if !caught && !finished then failLast

/-- Reads what stands behind a label. -/
def labelled (k : Productions) : Parser Unit := do
  let t ← ahead
  if t.isKeyword "class" then unexpected t
  else if t.isKeyword "function" then
    let isGenerator ← functionDeclaration k
    if (← isStrict) || isGenerator then unexpected t
  else k.statement

/-- Reads an expression, or a label with its statement. -/
def labelledStatement (k : Productions) : Parser Unit := do
  let shape ← expression k
  match shape with
  | .name label =>
    if ← accept ":" then
      let before ← context
      if before.labels.contains label then failLast
      setContext fun c => { c with labels := label :: c.labels }
      labelled k
      setContext fun c => { c with labels := before.labels }
    else endStatement
  | _ => endStatement

/-- Reads an expression as a statement. -/
def expressionStatement (k : Productions) : Parser Unit := do
  let _ ← expression k
  endStatement

/-- Reads a statement that starts with a keyword. -/
def keywordStatement (k : Productions) (t : Token) : Parser Unit :=
  match t.value.toStr with
  | "break" => breakStatement
  | "continue" => continueStatement
  | "debugger" => do
    let _ ← advance
    endStatement
  | "do" => doStatement k
  | "for" => forStatement k
  | "function" => do
    let _ ← functionDeclaration k
  | "if" => ifStatement k
  | "return" => returnStatement k
  | "switch" => switchStatement k
  | "throw" => throwStatement k
  | "try" => tryStatement k
  | "var" => variableStatement k
  | "while" => whileStatement k
  | "with" => withStatement k
  | _ => expressionStatement k

/-- Reads a statement. -/
def statement (k : Productions) : Parser Unit := do
  let t ← ahead
  match t.kind with
  | .eof => unexpected t
  | .punctuator =>
    if t.isPunctuator "\x7b" then block k
    else if t.isPunctuator ";" then expect ";"
    else expressionStatement k
  | .identifier =>
    if ← seesAsyncFunction then
      let _ ← functionDeclaration k
    else labelledStatement k
  | .keyword => keywordStatement k t
  | _ => expressionStatement k

/-- Reads a statement or declaration. -/
def item (k : Productions) : Parser Unit := do
  setContext fun c => { c with isAssignmentTarget := true, isBindingElement := true }
  let t ← ahead
  if t.isKeyword "export" then unexpected t
  else if t.isKeyword "import" then
    if ← seesImportCall then expressionStatement k else unexpected t
  else if t.isKeyword "const" then lexicalDeclaration k
  else if t.isKeyword "function" then
    let _ ← functionDeclaration k
  else if t.isKeyword "class" then classDeclaration k (leftHandSide k)
  else if t.isKeyword "let" then
    if ← seesLexicalDeclaration then lexicalDeclaration k else statement k
  else statement k

end HostScript.Grammar.Parser
