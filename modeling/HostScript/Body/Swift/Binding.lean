import HostScript.Body.Scope
import HostScript.Source.Bracket

/-!
# Optional values and bindings

How a script tests and takes out what may be missing.
-/

namespace HostScript.Body.Swift

open Pattern

/-!
## Optional values

Casts, type tests, default values, optional chaining and forced unwrapping. An operator stands
after its operand, so the operand is found by reading backwards over names, dots and bracketed
groups.
-/

/-- The length of the operand at the start of a text read backwards; `depth` brackets are open. -/
def operandLength : (depth : Nat) → Text → Nat
  | _, [] => 0
  | 0, c :: rest =>
    if c == ')' || c == ']' then 1 + operandLength 1 rest
    else if isAlnum c || c == '_' || c == '$' || c == '.' then 1 + operandLength 0 rest
    else 0
  | depth + 1, c :: rest =>
    if c == ')' || c == ']' then 1 + operandLength (depth + 2) rest
    else if c == '(' || c == '[' then 1 + operandLength depth rest
    else 1 + operandLength (depth + 1) rest

/-- The offset where the operand that ends at an offset starts. -/
def operandStart (t : Text) (stop : Nat) : Nat :=
  stop - operandLength 0 (t.take stop).reverse

/-- How often an operator that is looked for from the start is rephrased. -/
def operatorRounds : Nat := 200

/-- An access that is made only where there is a value. -/
def chainedMember : Pattern := "?." ++ cap 1 ident

/-- Rephrases one chained access after another as a test of its operand. -/
def optionalChaining : (turns : Nat) → Text → Text
  | 0, t => t
  | turns + 1, t =>
    match chainedMember.search? t with
    | none => t
    | some m =>
      let start := operandStart t m.start
      let base := t.slice start m.start
      let stop :=
        if t[m.stop]? == some '(' then ((Source.closing? t m.stop).map (· + 1)).getD m.stop
        else m.stop
      let access := base ++ "." ++ t.slice (m.start + 2) stop
      optionalChaining turns
        (t.take start ++ "(" ++ base ++ " == null ? undefined : " ++ access ++ ")" ++ t.drop stop)

/-- The operator between an optional value and its default. -/
def coalescing : Pattern := blanks ++ "??" ++ blanks

/-- The default of an optional value, up to the next separator: group 1. -/
def defaultValue : Pattern :=
  cap 1 (noneOf (among ",;)]\x7d\n")).plusLazy
    ++ isAhead (blanks ++ (oneOf (among ",;)]\x7d\n") <|> textEnd))

/-- Rephrases one default operator after another as a test of its operand. -/
def nilCoalescing : (turns : Nat) → Text → Text
  | 0, t => t
  | turns + 1, t =>
    match coalescing.search? t with
    | none => t
    | some m =>
      let start := operandStart t m.start
      let left := t.slice start m.start
      let right : Text := ((defaultValue.match? m.after).map (·.group 1)).getD []
      nilCoalescing turns
        (t.take start ++ "(" ++ left ++ " != null ? " ++ left ++ " : " ++ right.trim ++ ")"
          ++ t.drop (m.stop + right.length))

/-- A cast, which goes. -/
def castSuffix : Edit := .const
  (gap ++ "as" ++ (oneOf (among "?!")).opt ++ gap ++ (oneOf (isWord ||| among ".<>[]:")).plus
    ++ (lit "?").opt) ""

/-- A test for a type. -/
def typeTest : Edit :=
  ⟨edge ++ cap 1 dotted ++ gap ++ "is" ++ gap ++ cap 2 upperName,
    fun m => m.group 1 ++ " instanceof " ++ m.group 2⟩

/-- A forced unwrapping, which goes. -/
def forcedValue : Edit :=
  ⟨cap 1 (oneOf (isWord ||| among "$)]")) ++ "!" ++ notAhead (lit "="), fun m => m.group 1⟩

/-- Rephrases everything about optional values. -/
def optionals (_ : Scope) (t : Text) : Text :=
  let t := typeTest.apply (castSuffix.apply t)
  forcedValue.apply (optionalChaining operatorRounds (nilCoalescing operatorRounds t))

/-!
## Bindings

Optional bindings in conditions become assignments with a test against null, and declarations lose
their types. A name that a condition binds is declared at the head of the body.
-/

/-- A name and the value that is bound to it. -/
def boundValue : Pattern :=
  choice ["let", "var"] ++ gap ++ cap 1 name
    ++ (blanks ++ ":" ++ blanks ++ (noneOf (among "=")).plusLazy).opt ++ blanks ++ "=" ++ blanks
    ++ cap 2 any.plus ++ textEnd

/-- A name that is bound to its own value. -/
def boundSelf : Pattern := choice ["let", "var"] ++ gap ++ cap 1 name ++ textEnd

/-- The name and the value that a condition binds. -/
def boundPair? (condition : Text) : Option (Text × Text) :=
  match boundValue.match? condition with
  | some m => some (m.group 1, Text.trim (m.group 2))
  | none => (boundSelf.match? condition).map fun m => (m.group 1, m.group 1)

/-- A guard: its indentation, its conditions and what stands behind its brace. -/
def guardLine : Pattern :=
  cap 1 blanks ++ "guard" ++ gap ++ cap 2 any.plusLazy ++ gap ++ "else" ++ blanks ++ "\x7b"
    ++ cap 3 any.star ++ textEnd

/-- A condition that binds a name: what stands before it, its conditions and what stands behind its
brace. -/
def bindingLine : Pattern :=
  cap 1 (blanks ++ (lit "\x7d").opt ++ blanks ++ ("else" ++ gap).opt) ++ "if" ++ gap
    ++ cap 2 (any.star ++ edge ++ choice ["let", "var"] ++ gap ++ name ++ any.starLazy) ++ blanks
    ++ "\x7b" ++ cap 3 any.star ++ textEnd

/-- A guard: the declarations before it, and the test that leaves. -/
def guardLines (scope : Scope) (m : Match) : List Text :=
  let indent := m.group 1
  let parts := (Source.splitTopLevel .conditions (m.group 2)).map fun condition =>
    match boundPair? condition with
    | none => (([] : List Text), "!(" ++ condition ++ ")")
    | some (name, value) =>
      let declaration :=
        indent ++ (if scope.parameters.contains name then "" else "const ") ++ name ++ " = "
          ++ value ++ ";"
      (if value == name then [] else [declaration], name ++ " == null")
  parts.flatMap (·.1)
    ++ [indent ++ "if (" ++ Text.join " || " (parts.map (·.2)) ++ ") \x7b" ++ m.group 3]

/-- A condition with bindings: its line, and the names it binds anew in order. -/
def bindingParts (scope : Scope) (hoisted : List Text) (m : Match) : Text × List Text :=
  let step (state : List Text × List Text) (condition : Text) : List Text × List Text :=
    let (checks, hoisted) := state
    match boundPair? condition with
    | none => (checks ++ ["(" ++ condition ++ ")"], hoisted)
    | some (name, value) =>
      if value == name then (checks ++ [name ++ " != null"], hoisted)
      else
        let known := scope.parameters.contains name || hoisted.contains name
        (checks ++ ["(" ++ name ++ " = " ++ value ++ ") != null"],
          if known then hoisted else hoisted ++ [name])
  let (checks, hoisted) := (Source.splitTopLevel .conditions (m.group 2)).foldl step ([], hoisted)
  (m.group 1 ++ "if (" ++ Text.join " && " checks ++ ") \x7b" ++ m.group 3, hoisted)

/-- The lines with their bindings rephrased, and the names to declare at the head. -/
def bindLines (scope : Scope) : (hoisted : List Text) → List Text → List Text × List Text
  | hoisted, [] => ([], hoisted)
  | hoisted, line :: rest =>
    let (new, hoisted) : List Text × List Text :=
      match guardLine.match? line with
      | some m => (guardLines scope m, hoisted)
      | none =>
        match bindingLine.match? line with
        | some m =>
          let (new, hoisted) := bindingParts scope hoisted m
          ([new], hoisted)
        | none => ([line], hoisted)
    let (more, hoisted) := bindLines scope hoisted rest
    (new ++ more, hoisted)

/-- Rephrases optional bindings. -/
def optionalBinding (scope : Scope) (t : Text) : Text :=
  let (lines, hoisted) := bindLines scope [] t.lines
  Text.unlines (hoisted.map (fun (n : Text) => "let " ++ n ++ ";") ++ lines)

/-- A line that declares variables: its indentation, its keyword, what it declares, a type and a
value. -/
def declarationLine : Pattern :=
  cap 1 blanks ++ cap 2 (choice ["let", "var"]) ++ gap
    ++ cap 3 (name <|> "(" ++ (oneOf (isWord ||| isBlank ||| among ",")).plus ++ ")") ++ blanks
    ++ (":" ++ blanks ++ cap 4 (noneOf (among "=")).plusLazy).opt ++ blanks
    ++ (cap 5 ("=" ++ any.star)).opt ++ textEnd

/-- Rephrases a line that declares a variable; a tuple of names becomes an array pattern. -/
def declarations (_ : Scope) (line : Text) : Text :=
  match declarationLine.match? line with
  | none => line
  | some m =>
    let target := m.group 3
    let target : Text :=
      if target.startsWith "(" then
        "[" ++ Text.join ", " (((target.trimOf (among "()")).splitOn ',').map Text.trim) ++ "]"
      else target
    let init := m.group? 5
    let keyword : Text :=
      if m.group 2 == "let".toList && init.isSome then "const" else "let"
    m.group 1 ++ keyword ++ " " ++ target ++ (match init with
      | some value => ' ' :: value
      | none => [])

end HostScript.Body.Swift
