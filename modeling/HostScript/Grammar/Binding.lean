import HostScript.Grammar.Parser

/-!
# Patterns, parameters and function bodies

What binds names: patterns of declarations and parameters. The productions that are used inside
one another are collected in a record, which the grammar as a whole closes.
-/

namespace HostScript.Grammar

/-- How a pattern binds its names. -/
inductive BindingKind where
  | var_
  | let_
  | const_
  | parameter
  deriving DecidableEq

/-- The productions that are used inside one another. -/
structure Productions where
  assignment : Parser Shape
  exponentiation : Parser Shape
  unary : Parser Shape
  /-- What can follow `new`. -/
  callee : Parser Shape
  /-- A pattern, with the tokens of the names that it binds. -/
  pattern : BindingKind → Parser (Shape × List Token)
  statement : Parser Unit
  /-- A statement or declaration. -/
  item : Parser Unit

/-- What is at fault in a list of parameters: a token, or a part of an expression whose place is
no longer known. -/
inductive Culprit where
  | token (line : Nat)
  | part

/-- A list of parameters. -/
structure Params where
  /-- Whether all parameters are plain names. -/
  simple : Bool := true
  shapes : List Shape := []
  /-- The names bound so far. -/
  names : List Text := []
  /-- What strict code forbids. -/
  stricted : Option Culprit := none
  /-- What strict code would have forbidden, in code that may turn out to be strict. -/
  firstRestricted : Option Culprit := none
  /-- Whether the fault is a repeated name. -/
  repeated : Bool := false

/-- Takes in a name that a parameter binds. -/
def Params.bind (ps : Params) (strict : Bool) (culprit : Culprit) (name : Text) : Params :=
  let again := ps.names.contains name
  let ps :=
    if strict then
      let ps :=
        if isRestricted name then { ps with stricted := some culprit, repeated := false } else ps
      if again then { ps with stricted := some culprit, repeated := true } else ps
    else if ps.firstRestricted.isSome then ps
    else if isRestricted name || isStrictWord name then
      { ps with firstRestricted := some culprit, repeated := false }
    else if again then { ps with stricted := some culprit, repeated := true }
    else ps
  { ps with names := name :: ps.names }

namespace Parser

/-- Fails at a culprit. -/
def failCulprit {α : Type} : Culprit → Parser α
  | .token line => failAt line
  | .part => failLast

/-- Fails at a culprit, if there is one. -/
def refuse : Option Culprit → Parser Unit
  | some c => failCulprit c
  | none => pure ()

/-- Reads an expression, which may be a sequence. -/
def expression (k : Productions) : Parser Shape := do
  let first ← isolated k.assignment
  if ← sees "," then
    let items ← iterate (fun items => do
      if ← accept "," then
        let e ← isolated k.assignment
        pure (some (items ++ [e]))
      else pure none) [first]
    pure (.sequence items)
  else pure first

/-- Reads the name of a variable. -/
def variableName (kind : BindingKind) : Parser Text := do
  let t ← advance
  let c ← context
  if t.isKeyword "yield" then
    if c.strict || !c.allowYield then unexpected t else pure t.value
  else if t.kind != .identifier then
    if c.strict || t.value != "let".toList || kind != .var_ then unexpected t else pure t.value
  else if c.await && t.value == "await".toList then unexpected t
  else pure t.value

/-- The key of a property: its text if it has one, whether it is a word, and whether it is
computed. -/
structure Key where
  text : Option Text
  isWord : Bool
  computed : Bool := false

/-- Whether a key has a given text. -/
def Key.hasText (key : Key) (s : String) : Bool := key.text == some s.toList

/-- Reads the key of a property. -/
def propertyKey (k : Productions) : Parser Key := do
  let t ← advance
  match t.kind with
  | .string | .number =>
    if (← isStrict) && t.octal then unexpected t
    else pure ⟨if t.kind == .string then some t.value else none, false, false⟩
  | .identifier | .boolean | .null | .keyword => pure ⟨some t.value, true, false⟩
  | .punctuator =>
    if t.isPunctuator "[" then
      let shape ← isolated k.assignment
      expect "]"
      pure ⟨shape.keyText?, false, true⟩
    else unexpected t
  | _ => unexpected t

/-- Reads a pattern that may have a default value. -/
def patternWithDefault (k : Productions) (kind : BindingKind) : Parser (Shape × List Token) := do
  let (shape, tokens) ← k.pattern kind
  if ← accept "=" then
    let before ← context
    setContext fun c => { c with allowYield := true }
    let _ ← isolated k.assignment
    setContext fun c => { c with allowYield := before.allowYield }
    pure (.assignment shape none, tokens)
  else pure (shape, tokens)

/-- Reads the rest of an array pattern, in which a rest element is the last. -/
def arrayPattern (k : Productions) (kind : BindingKind) : Parser (Shape × List Token) := do
  expect "["
  let (items, tokens, _) ← iterate (fun (items, tokens, done) => do
    if done || (← sees "]") then pure none
    else if ← accept "," then pure (some (items, tokens, false))
    else if ← accept "..." then
      let (shape, more) ← k.pattern kind
      pure (some (items ++ [.spread shape], tokens ++ more, true))
    else
      let (shape, more) ← patternWithDefault k kind
      if !(← sees "]") then expect ","
      pure (some (items ++ [shape], tokens ++ more, false)))
    (([] : List Shape), ([] : List Token), false)
  expect "]"
  pure (.array items, tokens)

/-- Reads a property of an object pattern. -/
def propertyPattern (k : Productions) (kind : BindingKind) : Parser (Shape × List Token) := do
  let t ← ahead
  if t.kind == .identifier then
    let name ← variableName .parameter
    if ← accept "=" then
      let _ ← k.assignment
      pure (.assignment (.name name) none, [t])
    else if ← accept ":" then patternWithDefault k kind
    else pure (.name name, [t])
  else
    let _ ← propertyKey k
    expect ":"
    patternWithDefault k kind

/-- Reads what is left of an object in an object pattern; it comes last. -/
def restProperty (k : Productions) : Parser (Shape × List Token) := do
  expect "..."
  let (shape, tokens) ← k.pattern .parameter
  if ← sees "=" then failLast
  if !(← sees "\x7d") then failLast
  pure (.spread shape, tokens)

/-- Reads an object pattern. -/
def objectPattern (k : Productions) (kind : BindingKind) : Parser (Shape × List Token) := do
  expect "\x7b"
  let (values, tokens) ← iterate (fun (values, tokens) => do
    if ← sees "\x7d" then pure none
    else
      let (shape, more) ← if ← sees "..." then restProperty k else propertyPattern k kind
      if !(← sees "\x7d") then expect ","
      pure (some (values ++ [shape], tokens ++ more)))
    (([] : List Shape), ([] : List Token))
  expect "\x7d"
  pure (.object values, tokens)

/-- Reads a pattern. -/
def pattern (k : Productions) (kind : BindingKind) : Parser (Shape × List Token) := do
  if ← sees "[" then arrayPattern k kind
  else if ← sees "\x7b" then objectPattern k kind
  else
    let t ← ahead
    if t.isKeyword "let" && (kind == .let_ || kind == .const_) then unexpected t
    else
      let name ← variableName kind
      pure (.name name, [t])

/-- Reads a rest parameter, which comes last and has no default value. -/
def restElement (k : Productions) : Parser (Shape × List Token) := do
  expect "..."
  let (shape, tokens) ← k.pattern .parameter
  if ← sees "=" then failLast
  if !(← sees ")") then failLast
  pure (.spread shape, tokens)

/-- Reads a parameter. -/
def formalParameter (k : Productions) (ps : Params) : Parser Params := do
  let (shape, tokens) ← if ← sees "..." then restElement k else patternWithDefault k .parameter
  let strict ← isStrict
  let ps := tokens.foldl (fun ps t => ps.bind strict (.token t.line) t.value) ps
  pure { ps with simple := ps.simple && shape.isName, shapes := ps.shapes ++ [shape] }

/-- Reads a list of parameters; `first` is at fault if the code turns out to be strict. -/
def formalParameters (k : Productions) (first : Option Culprit) : Parser Params := do
  expect "("
  let start : Params := { firstRestricted := first }
  let (ps, _) ← iterate (fun (ps, done) => do
    if done || (← sees ")") || (← ahead).kind == .eof then pure none
    else
      let ps ← formalParameter k ps
      if ← sees ")" then pure (some (ps, true))
      else
        expect ","
        pure (some (ps, false))) (start, false)
  expect ")"
  pure ps

/-- Reads the directives at the start of a body. `first` is the line of an octal escape in a
directive so far, which strict code forbids. -/
def directives (k : Productions) : Parser Unit := do
  let _ ← iterate (fun (first : Option Nat) => do
    let t ← ahead
    if t.kind != .string then pure none
    else
      let shape ← expression k
      endStatement
      match shape with
      | .literal _ =>
        if t.written.isEmpty then pure none
        else if t.written == "use strict".toList then
          setContext fun c => { c with strict := true }
          match first with
          | some line => failAt line
          | none =>
            if (← context).allowStrictDirective then pure (some first) else unexpected t
        else pure (some (first <|> if t.octal then some t.line else none))
      | _ => pure none) none

/-- Reads the body of a function. -/
def functionBody (k : Productions) : Parser Unit := do
  expect "\x7b"
  directives k
  let before ← context
  setContext fun c =>
    { c with labels := [], inIteration := false, inSwitch := false, inFunctionBody := true }
  loop do
    if (← ahead).kind == .eof || (← sees "\x7d") then pure false
    else
      k.item
      pure true
  expect "\x7d"
  setContext fun c => { c with
    labels := before.labels
    inIteration := before.inIteration
    inSwitch := before.inSwitch
    inFunctionBody := before.inFunctionBody }

/-- Reads a body in the scope of parameters, and refuses what strict code forbids in them. -/
def bodyOf (body : Parser Unit) (ps : Params) : Parser Unit := do
  let before ← context
  setContext fun c => { c with allowStrictDirective := ps.simple }
  body
  if ← isStrict then
    refuse ps.firstRestricted
    refuse ps.stricted
  setContext fun c =>
    { c with strict := before.strict, allowStrictDirective := before.allowStrictDirective }

/-- Reads parameters and body of a function. -/
def functionRest (k : Productions) (first : Option Culprit) : Parser Unit := do
  let ps ← formalParameters k first
  bodyOf (functionBody k) ps

/-- What is at fault in the name of a function, in code that may turn out to be strict. -/
def nameFault (t : Token) : Parser (Option Culprit) := do
  if ← isStrict then
    if isRestricted t.value then unexpected t else pure none
  else if isRestricted t.value || isStrictWord t.value then pure (some (.token t.line))
  else pure none

/-- Passes over `async`, `function` and `*`; tells whether the function is asynchronous and
whether it is a generator. -/
def functionHead : Parser (Bool × Bool) := do
  let isAsync ← seesWord "async"
  if isAsync then
    let _ ← advance
  expectKeyword "function"
  let isGenerator ← if isAsync then pure false else accept "*"
  pure (isAsync, isGenerator)

/-- Reads a part in which `await` and `yield` have the given meaning. -/
def inFunction {α : Type} (await allowYield : Bool) (p : Parser α) : Parser α := do
  let before ← context
  setContext fun c => { c with await := await, allowYield := allowYield }
  let a ← p
  setContext fun c => { c with await := before.await, allowYield := before.allowYield }
  pure a

/-- Reads the declaration of a function; tells whether it is a generator. -/
def functionDeclaration (k : Productions) : Parser Bool := do
  let (isAsync, isGenerator) ← functionHead
  let t ← ahead
  let _ ← variableName .parameter
  let first ← nameFault t
  inFunction isAsync (!isGenerator) (functionRest k first)
  pure isGenerator

/-- Reads a function in an expression. -/
def functionExpression (k : Productions) : Parser Unit := do
  let (isAsync, isGenerator) ← functionHead
  inFunction isAsync (!isGenerator) do
    let first ← if ← sees "(" then pure none else do
      let t ← ahead
      let _ ← if !(← isStrict) && !isGenerator && t.isKeyword "yield" then memberName
        else variableName .parameter
      nameFault t
    functionRest k first

end Parser

end HostScript.Grammar
