import HostScript.Downlevel
import HostScript.Number.Reading
import HostScript.Optimize.Folding
import HostScript.Pattern.Match
import HostScript.Script.Masked

/-!
# Optimization

The steps that work on functions, on statements and on loops.
-/

namespace HostScript.Optimize

open Pattern Script

/-!
## Small functions

A function that only returns a short expression becomes an arrow constant. That form is not known
before its place in the text, so the function must not be named earlier; it cannot be constructed,
and it has no receiver and no argument list of its own.
-/

/-- A function that only returns an expression. -/
def smallFunction : Pattern :=
  fresh ++ "function" ++ gap ++ cap 1 ident ++ blanks ++ "(" ++ cap 2 (noneOf (among "()")).star
    ++ ")" ++ blanks ++ "\x7b" ++ blanks ++ "return" ++ gap
    ++ cap 3 (noneOf (among ";\x7b\x7d")).plusLazy ++ blanks ++ ";" ++ blanks ++ "\x7d"

private def contextBound : Pattern :=
  edge ++ choice ["this", "arguments", "super"] ++ edge <|> edge ++ "new.target" ++ edge

/-- Expressions of this length and more stay in their function. -/
def inlineLimit : Nat := 50

/-- How often a text declares a name. -/
def declarationCount (t name : Text) : Nat :=
  let declaration := edge
    ++ ("function" ++ gap <|> "class" ++ gap <|> choice ["var", "let", "const"] ++ gap)
    ++ Pattern.text name ++ nameEnds
  (declaration.allIn t).length

/-- Whether the function that a fit declares stays a function. -/
def staysFunction (t : Text) (m : Match) : Bool :=
  let name := m.group 1
  let expression := Text.trim (m.group 3)
  expression.length ≥ inlineLimit || !atStatementStart t m.start
    || contextBound.occursIn expression || (freeName name).occursIn m.before
    || (edge ++ "new" ++ gap ++ Pattern.text name ++ nameEnds).occursIn t
    || declarationCount t name > 1

/-- Rephrases small functions from an offset on. -/
def inlineFrom : (fuel pos : Nat) → Text → Text
  | 0, _, t => t
  | fuel + 1, pos, t =>
    match smallFunction.searchAt? t pos with
    | none => t
    | some m =>
      if staysFunction t m then inlineFrom fuel m.stop t
      else
        let new := "const " ++ m.group 1 ++ " = (" ++ Text.trim (m.group 2) ++ ") => "
          ++ Text.trim (m.group 3) ++ ";"
        inlineFrom fuel (m.start + new.length) (m.before ++ new ++ m.after)

/-- Small functions as arrow constants. -/
def inlineSmallFunctions (code : Text) : Outcome Text :=
  let m := mask .all code
  m.restoreText (inlineFrom (m.text.length + 1) 0 m.text)

/-!
## Dead code

Statements that follow a jump in the same block are dropped, unless they hold a declaration that is
seen from before, a label or a case.
-/

/-- A jump statement. -/
def jump : Pattern :=
  fresh ++ choice ["return", "throw", "break", "continue"] ++ edge
    ++ (noneOf (among ";\x7b\x7d")).star ++ ";"

/-- What keeps statements after a jump alive. -/
def keptAlive : Pattern :=
  edge ++ choice ["case", "default", "function", "var"] ++ edge
    <|> (textStart <|> oneOf (among ";\x7b\x7d")) ++ blanks ++ ident ++ blanks ++ ":"
      ++ notAhead (lit ":")

/-- Drops dead statements from an offset on. -/
def dropFrom : (fuel pos : Nat) → Text → Text
  | 0, _, t => t
  | fuel + 1, pos, t =>
    match jump.searchAt? t pos with
    | none => t
    | some m =>
      if !atStatementStart t m.start then dropFrom fuel m.stop t
      else
        let length := blockRestLength 0 m.after
        let region := m.after.upTo length
        if region.trim.isEmpty || keptAlive.occursIn region then dropFrom fuel m.stop t
        else
          let trailing := region.drop region.trimEnd.length
          dropFrom fuel m.stop (t.take m.stop ++ trailing ++ m.after.drop length)

/-- The script without dead statements. -/
def deadCodeElimination (code : Text) : Outcome Text :=
  let m := mask .all code
  m.restoreText (dropFrom (m.text.length + 1) 0 m.text)

/-!
## Counted loops

Loops that count up from zero by one are marked as hot, and those that fill an array element by
element become a map. The marks are hints: comments that tell an engine what the optimizer knows,
like the header with the level.
-/

/-- The mark before a hot loop. -/
def hotLoopMark : Text := "/* @jit:hot-loop */"

/-- A hint, with one blank or line break after it. -/
def hint : Pattern :=
  "/* @jit:" ++ (noneOf (among "*")).star ++ "*/" ++ (oneOf (among " \n")).opt

/-- The script without hints. -/
def stripHints (code : Text) : Text := hint.erase code

/-- The header of a script optimized at a level. -/
def hintsHeader (level : Int) : Text := "/* @jit:hints level=" ++ Text.ofInt level ++ " */\n"

/-- A step by one of the variable in the first group. -/
def countUp : Pattern :=
  same 1 ++ blanks ++ "++" <|> "++" ++ blanks ++ same 1
    <|> same 1 ++ blanks ++ "+=" ++ blanks ++ "1"

/-- The header of a loop that counts up from zero by one. -/
def countedLoop : Pattern :=
  fresh ++ "for" ++ blanks ++ "(" ++ blanks ++ choice ["let", "var"] ++ gap ++ cap 1 ident ++ blanks
    ++ "=" ++ blanks ++ "0" ++ blanks ++ ";" ++ blanks ++ same 1 ++ blanks ++ "<" ++ blanks
    ++ (noneOf (among ";")).plus ++ ";" ++ blanks ++ countUp ++ blanks ++ ")"

/-- The mark of a hidden comment at the end of a text. -/
def trailingComment : Pattern :=
  "__JSCOM_" ++ cap 1 digit.plus ++ "__" ++ blanks ++ textEnd

/-- Whether the hot loop mark stands right before a place of a masked text. -/
def isMarked (m : Masked) (before : Text) : Outcome Bool :=
  match trailingComment.search? before with
  | none => .ok false
  | some c => Number.readDigits (c.group 1) >>= fun index =>
    match m.spans[index]? with
    | some span => .ok (span == hotLoopMark)
    | none => .error .outOfRange

/-- Marks counted loops as hot; a loop that has its mark keeps it. -/
def loopRecognition (code : Text) : Outcome Text := do
  let m := mask .all code
  let text ← countedLoop.replaceM (fun (loop : Match) => do
    let marked ← isMarked m loop.before
    pure (if marked then loop.text else hotLoopMark ++ [' '] ++ loop.text)) m.text
  m.restoreText text

/-- A loop that fills an array element by element. -/
def fillingLoop : Pattern :=
  fresh ++ "for" ++ blanks ++ "(" ++ blanks ++ "let" ++ gap ++ cap 1 ident ++ blanks ++ "="
    ++ blanks ++ "0" ++ blanks ++ ";" ++ blanks ++ same 1 ++ blanks ++ "<" ++ blanks
    ++ cap 2 (ident ++ ("." ++ ident).star) ++ ".length" ++ blanks ++ ";" ++ blanks ++ countUp
    ++ blanks ++ ")" ++ blanks ++ "\x7b" ++ blanks ++ cap 3 ident ++ blanks ++ "[" ++ blanks
    ++ same 1
    ++ blanks ++ "]" ++ blanks ++ "=" ++ blanks ++ cap 4 (noneOf (among ";\x7b\x7d")).plusLazy
    ++ blanks ++ ";" ++ blanks ++ "\x7d"

/-- A loop that fills an array, as a map; it stays if the array occurs in the elements or cannot
be assigned. -/
def mapForm (t : Text) (m : Match) : Text :=
  let index := m.group 1
  let source := m.group 2
  let target := m.group 3
  let expression := m.group 4
  if (freeName target).occursIn expression
      || (edge ++ "const" ++ gap ++ Pattern.text target ++ nameEnds).occursIn t then m.text
  else
    let item : Text := if (freeName "item").occursIn expression then "__item" else "item"
    let element := fresh ++ Pattern.text source ++ blanks ++ "[" ++ blanks ++ Pattern.text index
      ++ blanks ++ "]"
    let body := element.replace (fun _ => item) expression
    target ++ " = " ++ source ++ ".map((" ++ item ++ ", " ++ index ++ ") => " ++ body ++ ");"

/-- Loops that fill an array, as maps. -/
def vectorization (code : Text) : Outcome Text :=
  let m := mask .all code
  m.restoreText (fillingLoop.replace (mapForm m.text) m.text)

end HostScript.Optimize
