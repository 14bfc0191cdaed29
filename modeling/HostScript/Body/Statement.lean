import HostScript.Body.Scope

/-!
# Statements

Ends of statements, parentheses around conditions, and parameter lists without their types. Both
dialects share these.
-/

namespace HostScript.Body

open Pattern

/-- The last characters of a line that do not end a statement. -/
def continuesLine : CharSet := among "\x7b\x7d;,([:?+-*/=&|."

/-- The start of a line that is a label. -/
def labelLine : Pattern :=
  blanks ++ ("case" ++ edge <|> "default" ++ blanks ++ ":" <|> "else" ++ edge)

/-- A line with a semicolon where it ends a statement. -/
def terminateLine (line : Text) : Text :=
  let t := line.trimEnd
  match t.getLast? with
  | none => line
  | some c => if continuesLine c || labelLine.fits t then line else t ++ ";"

/-- Ends every statement with a semicolon. -/
def terminateStatements (_ : Scope) (t : Text) : Text := Text.unlines (t.lines.map terminateLine)

/-- Whether a text is one pair of parentheses around everything. -/
def isParenthesized (t : Text) : Bool :=
  t.startsWith "(" && t.endsWith ")" && go 0 t
where
  /-- No parenthesis brings the count to zero before the end. -/
  go (depth : Int) : Text → Bool
    | [] => true
    | c :: rest =>
      if c == '(' then go (depth + 1) rest
      else if c == ')' then
        if depth - 1 == 0 && !rest.isEmpty then false else go (depth - 1) rest
      else go depth rest

/-- The offset of the first brace outside round and square brackets. -/
def braceOutside? : (depth : Int) → Text → Option Nat
  | _, [] => none
  | depth, c :: rest =>
    if c == '(' || c == '[' then (braceOutside? (depth + 1) rest).map (· + 1)
    else if c == ')' || c == ']' then (braceOutside? (depth - 1) rest).map (· + 1)
    else if c == '\x7b' && depth == 0 then some 0
    else (braceOutside? depth rest).map (· + 1)

/-- The start of a control statement: what stands before its word, and the word. -/
def controlHead : Pattern :=
  cap 1 (blanks ++ (lit "\x7d").opt ++ blanks ++ ("else" ++ gap).opt)
    ++ cap 2 (choice ["if", "while", "switch"]) ++ gap

/-- Puts the condition of a control statement in parentheses. -/
def parenthesizeControl (_ : Scope) (line : Text) : Text :=
  match controlHead.match? line with
  | none => line
  | some m =>
    match braceOutside? 0 m.after with
    | none => line
    | some brace =>
      let condition := Text.trim (m.after.take brace)
      if isParenthesized condition then line
      else m.group 1 ++ m.group 2 ++ " (" ++ condition ++ ") " ++ m.after.drop brace

private def starOrBlank : Pattern := (oneOf (isBlank ||| among "*")).plus

/-- The name in one part of a parameter list, none if the part has nothing before its colon. -/
def parameterName? (part : Text) : Option Text :=
  if part.contains ':' then (Text.words (part.cutAt ':').1).getLast?
  else (starOrBlank.split part).getLast?

/-- The parameter names of a list with types, either `name: Type` or `Type name`. -/
def stripTypes (params : Text) : Outcome Text := do
  let parts := ((params.trim.trimOf (among "()")).splitOn ',').map Text.trim
  let names ← (parts.filter (!·.isEmpty)).mapM fun part =>
    match parameterName? part with
    | some name => pure name
    | none => Except.error Fault.outOfRange
  pure (Text.join ", " (names.filter fun n => !n.isEmpty && n != "void".toList))

end HostScript.Body
