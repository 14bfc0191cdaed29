import HostScript.Grammar.Binding

/-!
# Expressions

Expressions by binding strength. A list in parentheses may turn out to be the parameters of an
arrow function, and an array or object a pattern, so each production notes what its expression
could still be.
-/

namespace HostScript.Grammar.Parser

/-- Reads a body of a method. -/
def methodBody (k : Productions) (ps : Params) : Parser Unit := do
  plainValue
  bodyOf (isolated (functionBody k)) ps

/-- Reads parameters and body of a method. -/
def method (k : Productions) : Parser Unit := do
  let before ← context
  setContext fun c => { c with allowYield := true }
  let ps ← formalParameters k none
  methodBody k ps
  setContext fun c => { c with allowYield := before.allowYield }

/-- Reads parameters and body of an asynchronous method. -/
def asyncMethod (k : Productions) : Parser Unit :=
  inFunction true false do
    let ps ← formalParameters k none
    methodBody k ps

/-- Reads parameters and body of a generator method. -/
def generatorMethod (k : Productions) : Parser Unit := do
  let before ← context
  setContext fun c => { c with allowYield := true }
  let ps ← formalParameters k none
  setContext fun c => { c with allowYield := false }
  methodBody k ps
  setContext fun c => { c with allowYield := before.allowYield }

/-- Reads parameters and body of an accessor whose parameters are acceptable. -/
def accessor (k : Productions) (acceptable : List Shape → Bool) : Parser Unit := do
  let before ← context
  setContext fun c => { c with allowYield := true }
  let ps ← formalParameters k none
  if acceptable ps.shapes then
    methodBody k ps
    setContext fun c => { c with allowYield := before.allowYield }
  else failHere

/-- Reads parameters and body of a getter. -/
def getter (k : Productions) : Parser Unit := do
  setContext fun c => { c with allowYield := false }
  accessor k (·.isEmpty)

/-- Reads parameters and body of a setter. -/
def setter (k : Productions) : Parser Unit :=
  accessor k fun
    | [.spread _] => false
    | [_] => true
    | _ => false

/-- Reads a property that starts with a word, whose token is passed over already. -/
def wordProperty (k : Productions) (t : Token) (hasProto : Bool) : Parser (Shape × Bool) := do
  let s ← get
  let isAsync := !s.newline && t.isWord "async"
    && !([":", "(", "*", ","].any (s.ahead.isPunctuator ·))
  let key : Key ← if isAsync then propertyKey k else pure ⟨some t.value, true, false⟩
  let next ← ahead
  if !isAsync && t.isWord "get" && next.isPropertyKey then
    let _ ← propertyKey k
    getter k
    pure (.other, hasProto)
  else if !isAsync && t.isWord "set" && next.isPropertyKey then
    let _ ← propertyKey k
    setter k
    pure (.other, hasProto)
  else if next.isPunctuator ":" && !isAsync then
    let isProto := key.hasText "__proto__"
    if isProto && hasProto then failHere
    let _ ← advance
    let value ← inherited k.assignment
    pure (value, hasProto || isProto)
  else if next.isPunctuator "(" then
    if isAsync then asyncMethod k else method k
    pure (.other, hasProto)
  else if next.isPunctuator "=" then
    setContext fun c => { c with coverError := some next.line }
    let _ ← advance
    let _ ← isolated k.assignment
    pure (.assignment (.name t.value) none, hasProto)
  else pure (.name t.value, hasProto)

/-- Reads a property that does not start with an identifier. -/
def otherProperty (k : Productions) (hasProto : Bool) : Parser (Shape × Bool) := do
  if ← accept "*" then
    let next ← ahead
    if next.isPropertyKey then
      let _ ← propertyKey k
      generatorMethod k
      pure (.other, hasProto)
    else unexpected next
  else
    let key ← propertyKey k
    if ← sees ":" then
      let isProto := !key.computed && key.hasText "__proto__"
      if isProto && hasProto then failHere
      let _ ← advance
      let value ← inherited k.assignment
      pure (value, hasProto || isProto)
    else if ← sees "(" then
      method k
      pure (.other, hasProto)
    else
      let t ← advance
      unexpected t

/-- Reads `...` and its argument. -/
def spreadElement (k : Productions) : Parser Shape := do
  expect "..."
  let e ← inherited k.assignment
  pure (.spread e)

/-- Reads an object. -/
def objectLiteral (k : Productions) : Parser Shape := do
  expect "\x7b"
  let (values, _) ← iterate (fun (values, hasProto) => do
    if ← sees "\x7d" then pure none
    else
      let t ← ahead
      let (value, hasProto) ← if t.isPunctuator "..." then do
          let e ← spreadElement k
          pure (e, hasProto)
        else if t.kind == .identifier then do
          let _ ← advance
          wordProperty k t hasProto
        else otherProperty k hasProto
      if !(← sees "\x7d") then expect ","
      pure (some (values ++ [value], hasProto))) (([] : List Shape), false)
  expect "\x7d"
  pure (.object values)

/-- Reads an array. -/
def arrayLiteral (k : Productions) : Parser Shape := do
  expect "["
  let items ← iterate (fun items => do
    if ← sees "]" then pure none
    else if ← accept "," then pure (some items)
    else if ← sees "..." then
      let e ← spreadElement k
      if !(← sees "]") then
        plainValue
        expect ","
      pure (some (items ++ [e]))
    else
      let e ← inherited k.assignment
      if !(← sees "]") then expect ","
      pure (some (items ++ [e]))) ([] : List Shape)
  expect "]"
  pure (.array items)

/-- Makes sure that an arrow follows. -/
def needArrow : Parser Unit := do
  if !(← sees "=>") then expect "=>"

/-- Reads more of a list in parentheses; tells whether it can only be a list of parameters. -/
def groupItems (k : Productions) (first : Shape) : Parser (List Shape × Bool) :=
  iterate (fun (items, arrow) => do
    if arrow || !(← accept ",") then pure none
    else if ← accept ")" then pure (some (items, true))
    else if ← sees "..." then
      if !(← context).isBindingElement then unexpected (← ahead)
      let (rest, _) ← restElement k
      expect ")"
      needArrow
      setContext fun c => { c with isBindingElement := false }
      pure (some (items ++ [rest], true))
    else
      let e ← inherited k.assignment
      pure (some (items ++ [e], false))) ([first], false)

/-- Closes a list in parentheses, which an arrow turns into parameters. -/
def closeGroup (shape : Shape) : Parser Shape := do
  expect ")"
  let next ← ahead
  let result ← if next.isPunctuator "=>" then
      match shape with
      | .name ['y', 'i', 'e', 'l', 'd'] => pure (.parameters [shape] false)
      | _ =>
        if !(← context).isBindingElement then unexpected next
        else match shape with
          | .sequence items => pure (.parameters items false)
          | _ => pure (.parameters [shape] false)
    else pure shape
  setContext fun c => { c with isBindingElement := false }
  pure result

/-- Reads an expression, or the parameters of an arrow function, in parentheses. -/
def group (k : Productions) : Parser Shape := do
  expect "("
  if ← accept ")" then
    needArrow
    pure (.parameters [] false)
  else if ← sees "..." then
    let (rest, _) ← restElement k
    expect ")"
    needArrow
    pure (.parameters [rest] false)
  else
    setContext fun c => { c with isBindingElement := true }
    let first ← inherited k.assignment
    if ← sees "," then
      setContext fun c => { c with isAssignmentTarget := false }
      let (items, arrow) ← groupItems k first
      if arrow then pure (.parameters items false) else closeGroup (.sequence items)
    else closeGroup first

/-- Reads a template with its substitutions. -/
def templateLiteral (k : Productions) : Parser Unit := do
  if !(← ahead).head then throw .strayPiece
  let t ← advance
  let _ ← iterate (fun (piece : Token) => do
    if piece.tail then pure none
    else
      let _ ← expression k
      if (← ahead).kind != .template then failLast
      let next ← advance
      pure (some next)) t

/-- Reads the key of a member of a class, after `static` and `async`: the token that the kind of
member depends on, the key, and whether the member is asynchronous. -/
def asyncKey (k : Productions) (t : Token) (key : Key) : Parser (Token × Key × Bool) := do
  let s ← get
  if t.isWord "async" && !s.newline
      && !([":", "(", "*"].any fun p => s.ahead.value == p.toList) then
    let next := s.ahead
    let key ← propertyKey k
    if next.isWord "constructor" then unexpected next
    pure (next, key, true)
  else pure (t, key, false)

/-- The start of a member of a class. -/
structure MemberHead where
  /-- The token that the kind of member depends on. -/
  token : Token
  key : Option Key
  computed : Bool
  isStatic : Bool
  isAsync : Bool

/-- Reads the start of a member of a class. -/
def memberHead (k : Productions) : Parser MemberHead := do
  let t ← ahead
  if ← accept "*" then pure ⟨t, none, false, false, false⟩
  else
    let computed := t.isPunctuator "["
    let key ← propertyKey k
    let next ← ahead
    if key.isWord && key.hasText "static" && (next.isPropertyKey || next.isPunctuator "*") then
      let computed := next.isPunctuator "["
      if ← accept "*" then pure ⟨next, some key, computed, true, false⟩
      else
        let key ← propertyKey k
        let (t, key, isAsync) ← asyncKey k next key
        pure ⟨t, some key, computed, true, isAsync⟩
    else
      let (t, key, isAsync) ← asyncKey k t key
      pure ⟨t, some key, computed, false, isAsync⟩

/-- Reads a member of a class; tells whether it is the constructor. -/
def classMember (k : Productions) (hasConstructor : Bool) : Parser Bool := do
  let h ← memberHead k
  let next ← ahead
  let nextComputed := next.isPunctuator "["
  let (key, computed, plain) ←
    if h.token.isWord "get" && next.isPropertyKey then do
      let key ← propertyKey k
      getter k
      pure (key, nextComputed, false)
    else if h.token.isWord "set" && next.isPropertyKey then do
      let key ← propertyKey k
      setter k
      pure (key, nextComputed, false)
    else if h.token.isPunctuator "*" && next.isPropertyKey then do
      let key ← propertyKey k
      generatorMethod k
      pure (key, nextComputed, false)
    else match h.key with
      | some key =>
        if next.isPunctuator "(" then do
          if h.isAsync then asyncMethod k else method k
          pure (key, h.computed, true)
        else unexpected next
      | none => unexpected next
  if computed then pure hasConstructor
  else if h.isStatic then
    if key.hasText "prototype" then unexpected h.token else pure hasConstructor
  else if key.hasText "constructor" then
    if !plain || hasConstructor then unexpected h.token else pure true
  else pure hasConstructor

/-- Reads the body of a class. -/
def classBody (k : Productions) : Parser Unit := do
  expect "\x7b"
  let _ ← iterate (fun (hasConstructor : Bool) => do
    if ← sees "\x7d" then pure none
    else if ← accept ";" then pure (some hasConstructor)
    else
      let hasConstructor ← classMember k hasConstructor
      pure (some hasConstructor)) false
  expect "\x7d"

/-- Reads a name after a dot, an index or a template behind an expression; none if there is
none. -/
def memberSuffix (k : Productions) : Parser (Option Shape) := do
  let t ← ahead
  if t.isPunctuator "." then
    memberTarget
    let _ ← advance
    let _ ← memberName
    pure (some .member)
  else if t.isPunctuator "[" then
    memberTarget
    let _ ← advance
    let _ ← isolated (expression k)
    expect "]"
    pure (some .member)
  else if t.kind == .template && t.head then
    templateLiteral k
    pure (some .other)
  else pure none

/-- Reads the arguments of a call, each by the given production. -/
def arguments (k : Productions) (argument : Parser Shape) : Parser (List Shape) := do
  expect "("
  let (items, _) ← iterate (fun (items, done) => do
    if done || (← sees ")") then pure none
    else
      let e ← if ← sees "..." then spreadElement k else isolated argument
      if ← sees ")" then pure (some (items ++ [e], true))
      else
        expect ","
        pure (some (items ++ [e], false))) (([] : List Shape), false)
  expect ")"
  pure items

/-- Reads an argument that may turn out to be a parameter. -/
def asyncArgument (k : Productions) : Parser Shape := do
  let e ← k.assignment
  setContext fun c => { c with coverError := none }
  pure e

/-- Reads `new` with its callee and arguments, or `new.target`. -/
def newExpression (k : Productions) : Parser Shape := do
  let _ ← memberName
  if ← accept "." then
    let t ← ahead
    if t.isWord "target" && (← context).inFunctionBody then
      let _ ← memberName
      pure .other
    else unexpected t
  else if ← seesKeyword "import" then unexpected (← ahead)
  else
    let _ ← isolated k.callee
    if ← sees "(" then
      let _ ← arguments k k.assignment
    plainValue
    pure .other

/-- Reads the heritage and body of a class, after its name. -/
def classRest (k : Productions) (heritage : Parser Shape) : Parser Unit := do
  if ← seesKeyword "extends" then
    let _ ← advance
    let _ ← isolated heritage
  classBody k

/-- Reads a class in an expression. -/
def classExpression (k : Productions) (heritage : Parser Shape) : Parser Unit := do
  let before ← context
  setContext fun c => { c with strict := true }
  expectKeyword "class"
  if (← ahead).kind == .identifier then
    let _ ← variableName .parameter
  classRest k heritage
  setContext fun c => { c with strict := before.strict }

/-- Reads the declaration of a class. -/
def classDeclaration (k : Productions) (heritage : Parser Shape) : Parser Unit := do
  let before ← context
  setContext fun c => { c with strict := true }
  expectKeyword "class"
  let _ ← variableName .parameter
  classRest k heritage
  setContext fun c => { c with strict := before.strict }

/-- Whether a call of `import` starts here. -/
def seesImportCall : Parser Bool := do
  if ← seesKeyword "import" then
    let t ← second
    pure (t.isPunctuator "(")
  else pure false

/-- Reads an expression that starts with a keyword. -/
def keywordExpression (k : Productions) (heritage : Parser Shape) : Parser Shape := do
  let c ← context
  let t ← ahead
  if !c.strict && c.allowYield && t.isKeyword "yield" then .name <$> memberName
  else if !c.strict && t.isKeyword "let" then
    let _ ← advance
    pure (.name t.value)
  else
    plainValue
    if t.isKeyword "function" then
      functionExpression k
      pure .other
    else if t.isKeyword "this" then
      let _ ← advance
      pure .other
    else if t.isKeyword "class" then
      classExpression k heritage
      pure .other
    else if ← seesImportCall then
      let _ ← advance
      pure .load
    else
      let t ← advance
      unexpected t

/-- Reads an expression that has no parts on its left. -/
def primary (k : Productions) (heritage : Parser Shape) : Parser Shape := do
  let t ← ahead
  let c ← context
  match t.kind with
  | .identifier =>
    if c.await && t.value == "await".toList then unexpected t
    else if ← seesAsyncFunction then
      functionExpression k
      pure .other
    else
      let _ ← advance
      pure (.name t.value)
  | .number | .string =>
    if c.strict && t.octal then unexpected t
    else
      plainValue
      let _ ← advance
      pure (.literal (if t.kind == .string then some t.value else none))
  | .boolean | .null =>
    plainValue
    let _ ← advance
    pure (.literal none)
  | .template =>
    templateLiteral k
    pure .other
  | .punctuator =>
    if t.isPunctuator "(" then
      setContext fun c => { c with isBindingElement := false }
      inherited (group k)
    else if t.isPunctuator "[" then inherited (arrayLiteral k)
    else if t.isPunctuator "\x7b" then inherited (objectLiteral k)
    else if t.isPunctuator "/" || t.isPunctuator "/=" then
      plainValue
      advanceRegex
      pure (.literal none)
    else
      let t ← advance
      unexpected t
  | .keyword => keywordExpression k heritage
  | _ =>
    let t ← advance
    unexpected t

/-- Reads the start of a chain of members and calls. -/
def chainStart (k : Productions) (heritage : Parser Shape) : Parser Shape := do
  let isNew ← seesKeyword "new"
  inherited (if isNew then newExpression k else primary k heritage)

/-- Reads what can follow `new`: a chain of members without calls. -/
def calleeExpression (k : Productions) (heritage : Parser Shape) : Parser Shape := do
  let first ← if (← seesKeyword "super") && (← context).inFunctionBody then do
      let _ ← advance
      let t ← ahead
      if t.isPunctuator "[" || t.isPunctuator "." then pure .other else unexpected t
    else chainStart k heritage
  iterate (fun _ => memberSuffix k) first

/-- Refuses to load a module with any other number of arguments than one. -/
def refuseArguments (callee : Shape) (args : List Shape) : Parser Unit := do
  match callee with
  | .load => if args.length != 1 then failHere
  | _ => pure ()

/-- Reads a call behind an expression. After `async` on the same line, the arguments may turn out
to be parameters. -/
def callSuffix (k : Productions) (start : Token) (callee : Shape) : Parser Shape := do
  let asyncArrow := start.isWord "async" && start.line == (← ahead).line
  plainValue
  let args ← arguments k (if asyncArrow then asyncArgument k else k.assignment)
  refuseArguments callee args
  if asyncArrow && (← sees "=>") then pure (.parameters args true) else pure .other

/-- Reads the start of a chain that may call `super`. -/
def superStart (k : Productions) (heritage : Parser Shape) : Parser Shape := do
  if (← seesKeyword "super") && (← context).inFunctionBody then
    let _ ← advance
    let t ← ahead
    if t.isPunctuator "(" || t.isPunctuator "." || t.isPunctuator "[" then pure .other
    else unexpected t
  else chainStart k heritage

/-- Reads a chain of members and calls, at most `depth` heritage clauses deep. -/
def chain (k : Productions) : (depth : Nat) → Parser Shape
  | 0 => failHere
  | depth + 1 => do
    let start ← ahead
    let before ← context
    setContext fun c => { c with allowIn := true }
    let first ← superStart k (chain k depth)
    let shape ← iterate (fun callee => do
      if ← sees "(" then
        let shape ← callSuffix k start callee
        pure (some shape)
      else memberSuffix k) first
    setContext fun c => { c with allowIn := before.allowIn }
    pure shape

/-- Reads a chain of members and calls. -/
def leftHandSide (k : Productions) : Parser Shape := do chain k (← get).budget

/-- Refuses to count a protected name up or down in strict code. -/
def refuseCounting (shape : Shape) : Parser Unit := do
  let c ← context
  match shape with
  | .name t => if c.strict && isRestricted t then failHere
  | _ => pure ()
  if !c.isAssignmentTarget then failHere

/-- Reads an expression that may be counted up or down. -/
def update (k : Productions) : Parser Shape := do
  if (← sees "++") || (← sees "--") then
    let _ ← advance
    let shape ← inherited k.unary
    refuseCounting shape
    plainValue
    pure .other
  else
    let shape ← inherited (leftHandSide k)
    if !(← get).newline && ((← sees "++") || (← sees "--")) then
      refuseCounting shape
      plainValue
      let _ ← advance
      pure .other
    else pure shape

/-- Whether a token is a unary operator. -/
def isUnaryOperator (t : Token) : Bool :=
  ["+", "-", "~", "!"].any (t.isPunctuator ·) || ["delete", "void", "typeof"].any (t.isKeyword ·)

/-- Reads an expression with unary operators. -/
def unary (k : Productions) : Parser Shape := do
  let t ← ahead
  if isUnaryOperator t then
    let _ ← advance
    let shape ← inherited k.unary
    if (← isStrict) && t.isKeyword "delete" && shape.isName then failHere
    plainValue
    pure .unary
  else if (← context).await && t.isWord "await" then
    let _ ← advance
    let _ ← k.unary
    pure .other
  else update k

/-- Reads a power; its base has no unary operator. -/
def exponentiation (k : Productions) : Parser Shape := do
  let shape ← inherited (unary k)
  let isUnary := match shape with
    | .unary => true
    | _ => false
  if !isUnary && (← sees "**") then
    let _ ← advance
    plainValue
    let _ ← isolated k.exponentiation
    pure .other
  else pure shape

/-- Whether a token is a binary operator. -/
def isBinaryOperator (allowIn : Bool) (t : Token) : Bool :=
  ["||", "&&", "|", "^", "&", "==", "!=", "===", "!==", "<", ">", "<=", ">=", "<<", ">>", ">>>",
      "+", "-", "*", "/", "%"].any (t.isPunctuator ·)
    || t.isKeyword "instanceof" || (allowIn && t.isKeyword "in")

/-- Reads an expression with binary operators. -/
def binary (k : Productions) : Parser Shape := do
  let first ← inherited (exponentiation k)
  iterate (fun _ => do
    if isBinaryOperator (← context).allowIn (← ahead) then
      let _ ← advance
      plainValue
      let _ ← isolated (exponentiation k)
      pure (some .other)
    else pure none) first

/-- Reads an expression with a condition. -/
def conditional (k : Productions) : Parser Shape := do
  let shape ← inherited (binary k)
  if ← accept "?" then
    let before ← context
    setContext fun c => { c with allowIn := true }
    let _ ← isolated k.assignment
    setContext fun c => { c with allowIn := before.allowIn }
    expect ":"
    let _ ← isolated k.assignment
    plainValue
    pure .other
  else pure shape

/-- Whether an expression can start with a token. -/
def startsExpression (t : Token) : Bool :=
  match t.kind with
  | .punctuator =>
    ["[", "(", "\x7b", "+", "-", "!", "~", "++", "--", "/", "/="].any (t.isPunctuator ·)
  | .keyword =>
    ["class", "delete", "function", "let", "new", "super", "this", "typeof", "void", "yield"].any
      (t.isKeyword ·)
  | _ => true

/-- Reads a `yield` with its argument. -/
def yieldExpression (k : Productions) : Parser Shape := do
  expectKeyword "yield"
  if (← get).newline then pure (.yield_ false)
  else
    let before ← context
    setContext fun c => { c with allowYield := false }
    let hasArgument ← if ← accept "*" then do
        let _ ← k.assignment
        pure true
      else if startsExpression (← ahead) then do
        let _ ← k.assignment
        pure true
      else pure false
    setContext fun c => { c with allowYield := before.allowYield }
    pure (.yield_ hasArgument)

/-- Refuses a parameter whose default is a `yield` with an argument, or that is named `await` in
an asynchronous arrow function. -/
def checkParameter (async : Bool) (shape : Shape) : Parser Unit := do
  match shape with
  | .assignment _ (some true) => unexpected (← ahead)
  | .name t => if async && t == "await".toList then unexpected (← ahead)
  | _ => pure ()

/-- Whether a shape is a `yield`. -/
def isYield : Shape → Bool
  | .yield_ _ => true
  | _ => false

/-- The parameters of an arrow function from the shapes in their place. -/
def arrowParameters (shapes : List Shape) (async : Bool) : Parser Params := do
  shapes.forM (checkParameter async)
  let c ← context
  let ps := (boundAll shapes).foldl (fun ps n => ps.bind c.strict .part n) ({} : Params)
  if (c.strict || !c.allowYield) && shapes.any isYield then unexpected (← ahead)
  if ps.repeated then
    refuse (if c.strict then ps.stricted else ps.firstRestricted)
    failLast
  pure { ps with simple := shapes.all Shape.isName, shapes := shapes }

/-- Reads arrow and body of an arrow function. -/
def arrowRest (k : Productions) (shapes : List Shape) (async : Bool) : Parser Shape := do
  let ps ← arrowParameters shapes async
  if (← get).newline then unexpected (← ahead)
  setContext fun c => { c with coverError := none }
  let before ← context
  setContext fun c =>
    { c with allowStrictDirective := ps.simple, allowYield := true, await := async }
  expect "=>"
  if ← sees "\x7b" then
    setContext fun c => { c with allowIn := true }
    functionBody k
    setContext fun c => { c with allowIn := before.allowIn }
  else
    let _ ← isolated k.assignment
  if ← isStrict then
    refuse ps.firstRestricted
    refuse ps.stricted
  setContext fun c => { c with
    strict := before.strict
    allowStrictDirective := before.allowStrictDirective
    allowYield := before.allowYield
    await := before.await }
  pure .other

/-- The operators that assign. -/
def assignmentOperators : List String :=
  ["=", "*=", "**=", "/=", "%=", "+=", "-=", "<<=", ">>=", ">>>=", "&=", "^=", "|="]

/-- Reads an assignment behind its target. -/
def assignmentRest (k : Productions) (start : Token) (shape : Shape) : Parser Shape := do
  let op ← ahead
  if assignmentOperators.any (op.isPunctuator ·) then
    let c ← context
    if !c.isAssignmentTarget then failHere
    match shape with
    | .name t => if c.strict && (isRestricted t || isStrictWord t) then unexpected start
    | _ => pure ()
    if !op.isPunctuator "=" then plainValue
    let _ ← advance
    let right ← isolated k.assignment
    setContext fun c => { c with coverError := none }
    let yields := match right with
      | .yield_ hasArgument => some hasArgument
      | _ => none
    pure (.assignment shape yields)
  else pure shape

/-- Reads the parameter of an asynchronous arrow function that has no parentheses. -/
def asyncParameter (k : Productions) (start : Token) (shape : Shape) : Parser Shape := do
  let next ← ahead
  if start.isWord "async" && start.line == next.line
      && (next.kind == .identifier || next.isKeyword "yield") then
    let arg ← primary k (leftHandSide k)
    pure (.parameters [arg] true)
  else pure shape

/-- Reads an assignment, an arrow function or any expression that binds more tightly. -/
def assignment (k : Productions) : Parser Shape := do
  if !(← context).allowYield && (← seesKeyword "yield") then yieldExpression k
  else
    let start ← ahead
    let shape ← conditional k
    let shape ← asyncParameter k start shape
    match shape with
    | .parameters items async =>
      plainValue
      arrowRest k items async
    | .name t =>
      if ← sees "=>" then
        plainValue
        arrowRest k [.name t] false
      else assignmentRest k start shape
    | _ =>
      if ← sees "=>" then
        plainValue
        pure shape
      else assignmentRest k start shape

end HostScript.Grammar.Parser
