import HostScript.Body.Scope
import HostScript.Source.Bracket

/-!
# Control flow

Statements whose form in the source has no counterpart in the script: switch cases, loop headers and
error handling.
-/

namespace HostScript.Body.Swift

open Pattern

/-!
## Switch cases

A case never falls through to the next, so a `break` ends each case that does not end in a jump
already; a case with several values gets a label for each.
-/

/-- A line that labels a case: the label, its values and what stands behind it. -/
def caseLine : Pattern :=
  cap 1 ("case" ++ gap ++ cap 2 any.plusLazy <|> lit "default") ++ blanks ++ ":"
    ++ notAhead (lit ":") ++ cap 3 any.star ++ textEnd

/-- The start of a label. -/
def caseWord : Pattern := "case" ++ edge <|> "default" ++ blanks ++ ":"

/-- The start of a jump. -/
def jumpWord : Pattern :=
  blanks ++ choice ["return", "break", "throw", "continue"] ++ edge

/-- A switch statement that is open: the brace depth of its cases and whether one has begun. -/
structure OpenSwitch where
  depth : Int
  begun : Bool

/-- Whether the last line that is not blank is a jump; lines are given latest first. -/
def endsWithJump : (latest : List Text) → Outcome Bool
  | [] => .ok false
  | line :: earlier =>
    let t := line.trim
    if t.isEmpty then endsWithJump earlier
    else if caseWord.fits t then
      match (t.cutAt ':').2 with
      | none => .error .outOfRange
      | some tail => .ok (jumpWord.fits tail.trim)
    else .ok (jumpWord.fits t)

/-- The opening braces less the closing ones outside literals and comments of a line. -/
def shownBraceDelta (line : Text) : Int :=
  (Script.mask .all line).text.foldl
    (fun n c => if c == '\x7b' then n + 1 else if c == '\x7d' then n - 1 else n) 0

/-- The line of a case label, with one label per value. -/
def labelText (line : Text) (m : Match) : Text :=
  match m.group? 2 with
  | none => line
  | some values =>
    Text.join " "
      ((Source.splitTopLevel .arguments values).map fun (v : Text) => "case " ++ v ++ ":")
      ++ m.group 3

/-- The lines with the implied jumps; `out` holds the lines before, latest first. -/
def breakCases : (depth : Int) → (switches : List OpenSwitch) → (out : List Text) → List Text →
    Outcome (List Text)
  | _, _, out, [] => .ok out.reverse
  | depth, switches, out, line :: rest => do
    let t := line.trim
    let (switches, out, line) ← (match caseLine.match? t, switches with
      | some m, current :: outer =>
        if current.depth == depth then do
          let falls ← (if current.begun then (!·) <$> endsWithJump out else pure false)
          let out := if falls then "break;".toList :: out else out
          pure ({ current with begun := true } :: outer, out, labelText line m)
        else pure (switches, out, line)
      | _, _ => pure (switches, out, line) : Outcome (List OpenSwitch × List Text × Text))
    let switches :=
      if ("switch" ++ edge).fits t && t.endsWith "\x7b" then ⟨depth + 1, false⟩ :: switches
      else switches
    let depth := depth + shownBraceDelta line
    breakCases depth (switches.dropWhile (depth < ·.depth)) (line :: out) rest

/-- Ends every case that falls through with a `break`. -/
def switchCases (_ : Scope) (t : Text) : Outcome Text := do
  let lines ← breakCases 0 [] [] t.lines
  pure (Text.unlines lines)

/-!
## Loops

Loops over ranges, strides, enumerated and filtered collections, and loops that test their
condition last, each on a line of its own.
-/

/-- What stands between the ends of a range. -/
def rangeMark : Pattern := choice ["..<", "..."]

/-- The start of a loop over something: its indentation and its variable. -/
def loopHead : Pattern := cap 1 blanks ++ "for" ++ gap ++ cap 2 name ++ gap ++ "in" ++ gap

/-- The end of a line that opens a loop. -/
def loopTail (index : Nat) : Pattern := blanks ++ "\x7b" ++ cap index any.star ++ textEnd

/-- A loop over a range from its end. -/
def reversedRange : Pattern :=
  loopHead ++ "(" ++ cap 3 any.plusLazy ++ blanks ++ cap 4 rangeMark ++ blanks
    ++ cap 5 any.plusLazy ++ ").reversed()" ++ loopTail 6

/-- A loop over numbers at equal distances. -/
def strideRange : Pattern :=
  loopHead ++ "stride(" ++ blanks ++ "from:" ++ blanks ++ cap 3 any.plusLazy ++ "," ++ blanks
    ++ cap 4 (choice ["to", "through"]) ++ ":" ++ blanks ++ cap 5 any.plusLazy ++ "," ++ blanks
    ++ "by:" ++ blanks ++ cap 6 any.plusLazy ++ ")" ++ loopTail 7

/-- A loop over the members of a collection with their places. -/
def enumeratedLoop : Pattern :=
  cap 1 blanks ++ "for" ++ gap ++ "(" ++ cap 2 name ++ "," ++ blanks ++ cap 3 name ++ ")" ++ gap
    ++ "in" ++ gap ++ cap 4 any.plusLazy ++ ".enumerated()" ++ loopTail 5

/-- A loop over a range. -/
def plainRange : Pattern :=
  loopHead ++ cap 3 any.plusLazy ++ blanks ++ cap 4 rangeMark ++ blanks ++ cap 5 any.plusLazy
    ++ loopTail 6

/-- A loop over the members of a collection, perhaps only those with a property. -/
def collectionLoop : Pattern :=
  loopHead ++ cap 3 any.plusLazy ++ (gap ++ "where" ++ gap ++ cap 4 any.plusLazy).opt ++ loopTail 5

/-- The start of a loop that tests its condition last. -/
def repeatHead : Pattern := cap 1 blanks ++ "repeat" ++ loopTail 2

/-- The end of a loop that tests its condition last. -/
def whileTail : Pattern :=
  cap 1 blanks ++ "\x7d" ++ blanks ++ "while" ++ gap ++ cap 2 any.plusLazy ++ blanks
    ++ (lit ";").opt ++ blanks ++ textEnd

/-- A counting loop from its parts. -/
def countingLoop (indent var start test bound step rest : Text) : Text :=
  indent ++ "for (let " ++ var ++ " = " ++ start ++ "; " ++ var ++ " " ++ test ++ " " ++ bound
    ++ "; " ++ var ++ step ++ ") \x7b" ++ rest

/-- What a line becomes where a pattern fits it. -/
def whenFits (p : Pattern) (f : Match → Text) (line : Text) : Option Text :=
  (p.match? line).map f

private def excludesEnd (m : Match) : Bool := m.group 4 == "..<".toList

/-- A loop line in script form, none if the line is no loop. -/
def loopLine? (line : Text) : Option Text :=
  whenFits reversedRange (fun m =>
      countingLoop (m.group 1) (m.group 2)
        (if excludesEnd m then m.group 5 ++ " - 1" else m.group 5) ">=" (m.group 3) "--"
        (m.group 6)) line
    <|> whenFits strideRange (fun m =>
      let down := (Text.trim (m.group 6)).startsWith "-"
      let test : Text := (if down then ">" else "<")
        ++ (if m.group 4 == "through".toList then "=" else "")
      countingLoop (m.group 1) (m.group 2) (m.group 3) test (m.group 5) (" += " ++ m.group 6)
        (m.group 7)) line
    <|> whenFits enumeratedLoop (fun m =>
      m.group 1 ++ "for (const [" ++ m.group 2 ++ ", " ++ m.group 3 ++ "] of " ++ m.group 4
        ++ ".entries()) \x7b" ++ m.group 5) line
    <|> whenFits plainRange (fun m =>
      countingLoop (m.group 1) (m.group 2) (m.group 3) (if excludesEnd m then "<" else "<=")
        (m.group 5) "++" (m.group 6)) line
    <|> whenFits collectionLoop (fun m =>
      let guard : Text := match m.group? 4 with
        | some condition => " if (!(" ++ condition ++ ")) continue;"
        | none => []
      m.group 1 ++ "for (const " ++ m.group 2 ++ " of " ++ m.group 3 ++ ") \x7b" ++ guard
        ++ m.group 5) line
    <|> whenFits repeatHead (fun m => m.group 1 ++ "do \x7b" ++ m.group 2) line

/-- Rephrases a line that opens or closes a loop. -/
def rangeLoops (_ : Scope) (line : Text) : Text :=
  match loopLine? line with
  | some new => new
  | none =>
    match whileTail.match? line with
    | some m =>
      if (m.group 2).startsWith "(" then line
      else m.group 1 ++ "\x7d while (" ++ m.group 2 ++ ");"
    | none => line

/-!
## Error handling

A `do` block with catch clauses becomes a `try` statement with one `catch` that tells the clauses
apart by conditions on the error. A `do` block without clauses is a plain block, unless a loop
condition follows it.
-/

/-- The word that marks an expression that can throw, with the white space behind it. -/
def tryWord : Pattern := fresh ++ "try" ++ (oneOf (among "?!")).opt ++ gap

/-- The head of a `do` block. -/
def doBlock : Pattern := fresh ++ "do" ++ blanks ++ "\x7b"

/-- The head of a catch clause with what it catches. -/
def catchClause : Pattern :=
  blanks ++ "catch" ++ edge ++ cap 1 (noneOf (among "\x7b")).star ++ "\x7b"

/-- A name for the error: group 1. -/
def catchName : Pattern :=
  choice ["let", "var"] ++ gap ++ cap 1 name ++ (gap ++ "as" ++ gap ++ dotted).opt

/-- A test for the type of the error: group 1. -/
def catchType : Pattern := "is" ++ gap ++ cap 1 dotted

/-- A value that the error is compared with. -/
def catchValue : Pattern :=
  (lit ".").opt ++ oneOf isNameStart ++ (oneOf (isWord ||| among ".")).star

/-- A catch clause: what it catches, and its statements. -/
structure Clause where
  pattern : Text
  body : Text

namespace Clause

/-- The name that a clause gives to the error. -/
def binding? (c : Clause) : Option Text := (catchName.matchAll? c.pattern).map (·.group 1)

/-- The condition under which a clause applies, none if it always does. -/
def condition? (c : Clause) : Option Text :=
  if c.pattern.isEmpty || c.binding?.isSome then none
  else match catchType.matchAll? c.pattern with
    | some m => some ("error instanceof " ++ m.group 1)
    | none =>
      if catchValue.fitsAll c.pattern then some ("error === " ++ c.pattern) else none

/-- The statements of a clause that catches everything. -/
def fallback (c : Clause) : Text :=
  match c.binding? with
  | some n => " var " ++ n ++ " = error;" ++ c.body
  | none => c.body

/-- The clauses with a condition up to the first one without, and the statements of that one. -/
def branches : List Clause → List (Text × Text) × Option Text
  | [] => ([], none)
  | c :: rest =>
    match c.condition? with
    | none => ([], some c.fallback)
    | some condition =>
      let (more, last) := branches rest
      ((condition, c.body) :: more, last)

end Clause

/-- One `catch` for several clauses. -/
def catchChain (clauses : List Clause) : Text :=
  let general : Text :=
    let (branches, fallback) := Clause.branches clauses
    if branches.isEmpty then " catch (error) \x7b" ++ fallback.getD [] ++ "\x7d"
    else
      let chain := Text.join " else "
        (branches.map fun (condition, body) => "if (" ++ condition ++ ") \x7b" ++ body ++ "\x7d")
      " catch (error) \x7b " ++ chain ++ " else \x7b" ++ fallback.getD " throw error; "
        ++ "\x7d \x7d"
  match clauses with
  | [c] =>
    match c.binding? with
    | some n => " catch (" ++ n ++ ") \x7b" ++ c.body ++ "\x7d"
    | none =>
      if c.pattern.isEmpty then " catch (error) \x7b" ++ c.body ++ "\x7d" else general
  | _ => general

mutual

/-- Rephrases the `do` blocks of a text. -/
def doBlocks : (fuel : Nat) → Text → Text
  | 0, t => t
  | fuel + 1, t =>
    match doBlock.search? t with
    | none => t
    | some m =>
      match Source.blockEnd? t (m.stop - 1) with
      | none => t
      | some close =>
        let body := doBlocks fuel (t.slice m.stop close)
        let (clauses, rest) := catchClauses fuel (t.drop (close + 1))
        let block : Text :=
          if !clauses.isEmpty then "try \x7b" ++ body ++ "\x7d" ++ catchChain clauses
          else if (blanks ++ "while" ++ edge).fits rest then "do \x7b" ++ body ++ "\x7d"
          else "\x7b" ++ body ++ "\x7d"
        m.before ++ block ++ doBlocks fuel rest

/-- The catch clauses at the start of a text, and what follows them. -/
def catchClauses : (fuel : Nat) → Text → List Clause × Text
  | 0, t => ([], t)
  | fuel + 1, t =>
    match catchClause.match? t with
    | none => ([], t)
    | some m =>
      match Source.blockEnd? t (m.stop - 1) with
      | none => ([], t)
      | some close =>
        let (clauses, rest) := catchClauses fuel (t.drop (close + 1))
        (⟨Text.trim (m.group 1), doBlocks fuel (t.slice m.stop close)⟩ :: clauses, rest)

end

/-- Rephrases error handling: `try` before an expression goes, `do` blocks become `try`. -/
def errorHandling (_ : Scope) (t : Text) : Text :=
  let t := tryWord.erase t
  doBlocks (2 * t.length + 2) t

end HostScript.Body.Swift
