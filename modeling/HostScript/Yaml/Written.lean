import HostScript.Fault
import HostScript.Text.Quoted

/-!
# Texts of documents

The ways in which a document writes a text: in quotes, as plain words, or as an indented block.
Lines of a text are folded: one line break is a space, and each further one is kept.
-/

/-!
## Places in documents

A place in a document, with the line and column that indentation depends on, and the reading of
white space and line breaks.
-/

namespace HostScript.Yaml

/-- A place in a document. -/
structure Place where
  rest : Text
  index : Nat := 0
  line : Nat := 0
  column : Nat := 0

/-- The fault of a place where no token can be read. -/
def noToken : Fault := .malformed .token

/-- The characters that end a line. -/
def endsLine : CharSet := fun c => c == '\n' || [0x85, 0x2028, 0x2029].contains c.toNat

/-- Spaces and tabs. -/
def isSpace : CharSet := among " \t"

/-- The mark of byte order, which takes no column. -/
def byteOrderMark : Char := '\ufeff'

namespace Place

/-- The next character. -/
def next? (p : Place) : Option Char := p.rest.head?

/-- Whether the next character is a given one. -/
def sees (p : Place) (c : Char) : Bool := p.next? == some c

/-- Whether the next character is in a set. -/
def seesAny (p : Place) (s : CharSet) : Bool := p.next?.any s

/-- Whether the document ends here. -/
def atEnd (p : Place) : Bool := p.rest.isEmpty

/-- Whether a word ends at a distance: there is white space, a line break or the end. -/
def gapAt (p : Place) (distance : Nat) : Bool :=
  (p.rest[distance]?).all fun c => isSpace c || endsLine c

/-- Whether a line ends here, or a space comes next. -/
def atSpaceOrEnd (p : Place) : Bool := p.next?.all fun c => c == ' ' || endsLine c

/-- Whether a line ends here. -/
def atLineEnd (p : Place) : Bool := p.next?.all endsLine

/-- Whether a mark of three characters stands here on its own. -/
def seesMark (p : Place) (mark : String) : Bool := p.rest.take 3 == mark.toList && p.gapAt 3

/-- Whether a mark between documents stands here. -/
def seesAnyMark (p : Place) : Bool := p.seesMark "---" || p.seesMark "..."

/-- The place behind the next character. -/
def step (p : Place) : Place :=
  match p.rest with
  | [] => p
  | c :: rest =>
    if endsLine c then ⟨rest, p.index + 1, p.line + 1, 0⟩
    else ⟨rest, p.index + 1, p.line, if c == byteOrderMark then p.column else p.column + 1⟩

/-- The place behind some more characters. -/
def move : Nat → Place → Place
  | 0, p => p
  | n + 1, p => p.step.move n

/-- The characters of a set that come next, and the place behind them. -/
def span (p : Place) (s : CharSet) : Text × Place :=
  let found := p.rest.takeWhile s
  (found, p.move found.length)

/-- The place behind the characters of a set that come next. -/
def skip (p : Place) (s : CharSet) : Place := (p.span s).2

/-- Reads a line break, if there is one: what it stands for, and the place behind it. -/
def lineBreak (p : Place) : Text × Place :=
  match p.next? with
  | some c =>
    if !endsLine c then ([], p)
    else if c.toNat == 0x2028 || c.toNat == 0x2029 then ([c], p.step)
    else (['\n'], p.step)
  | none => ([], p)

/-- The place behind a comment, if there is one. -/
def skipComment (p : Place) : Place := if p.sees '#' then p.skip (fun c => !endsLine c) else p

/-- The place behind the rest of a line that may hold a comment and nothing else. -/
def restOfLine (p : Place) : Outcome Place :=
  let p := (p.skip (· == ' ')).skipComment
  if p.atLineEnd then .ok p.lineBreak.2 else .error noToken

end Place

end HostScript.Yaml

/-! ## Folding -/

namespace HostScript.Yaml

/-- What a line break and the ones after it fold into. -/
def folded (first more : Text) : Text :=
  if first != ['\n'] then first ++ more else if more.isEmpty then [' '] else more

/-! ## Quotes -/

/-- The characters that letters stand for behind a backslash. -/
def escapedChars : List (Char × Nat) :=
  [('0', 0), ('a', 7), ('b', 8), ('t', 9), ('\t', 9), ('n', 10), ('v', 11), ('f', 12), ('r', 13),
    ('e', 27), (' ', 32), ('\x22', 34), ('\\', 92), ('/', 47), ('N', 0x85), ('_', 0xA0),
    ('L', 0x2028), ('P', 0x2029)]

/-- The number of hexadecimal digits after an escape letter. -/
def escapeWidth? (c : Char) : Option Nat :=
  match c with
  | 'x' => some 2
  | 'u' => some 4
  | 'U' => some 8
  | _ => none

/-- Reads an escape in hexadecimal digits. -/
def hexEscape (width : Nat) (p : Place) : Outcome (Char × Place) :=
  let digits := p.rest.take width
  let n := basedValue 16 digits
  if digits.length < width || !digits.all isHexDigit then .error noToken
  else if n > 0x7FFFFFFF then .error .tooLarge
  else if n > 0x10FFFF then .error (.badValue "chr() arg not in range(0x110000)")
  else .ok (Text.charOf n, p.move width)

/-- Reads the line breaks and the white space before the next line of a quoted text. -/
def quotedBreaks : (fuel : Nat) → Place → Outcome (Text × Place)
  | 0, _ => .error noToken
  | fuel + 1, p =>
    if p.seesAnyMark then .error noToken
    else
      let p := p.skip isSpace
      if p.seesAny endsLine then do
        let (first, p) := p.lineBreak
        let (more, p) ← quotedBreaks fuel p
        pure (first ++ more, p)
      else .ok ([], p)

/-- Reads white space inside of a quoted text. -/
def quotedSpaces (p : Place) : Outcome (Text × Place) := do
  let (spaces, p) := p.span isSpace
  if p.atEnd then .error noToken
  else if p.seesAny endsLine then
    let (first, p) := p.lineBreak
    let (more, p) ← quotedBreaks (p.rest.length + 1) p
    pure (folded first more, p)
  else pure (spaces, p)

/-- Reads an escape behind its backslash. -/
def escape (p : Place) : Outcome (Text × Place) :=
  match p.next? with
  | none => .error noToken
  | some c =>
    match escapedChars.lookup c, escapeWidth? c with
    | some n, _ => .ok ([Char.ofNat n], p.step)
    | none, some width => do
      let (e, p) ← hexEscape width p.step
      pure ([e], p)
    | none, none =>
      if endsLine c then quotedBreaks (p.rest.length + 1) p.lineBreak.2 else .error noToken

/-- Reads a quoted text behind its opening quote. -/
def quotedText (quote : Char) : (fuel : Nat) → Place → Outcome (Text × Place)
  | 0, _ => .error noToken
  | fuel + 1, p =>
    let single := quote == '\x27'
    let continue_ (piece : Text × Place) : Outcome (Text × Place) := do
      let (more, p) ← quotedText quote fuel piece.2
      pure (piece.1 ++ more, p)
    match p.next? with
    | none => .error noToken
    | some c =>
      if single && p.rest.take 2 == [quote, quote] then continue_ ([quote], p.move 2)
      else if c == quote then .ok ([], p.step)
      else if !single && c == '\\' then do continue_ (← escape p.step)
      else if isSpace c || endsLine c then do continue_ (← quotedSpaces p)
      else continue_ ([c], p.step)

/-- Reads a quoted text at its opening quote. -/
def quoted (quote : Char) (p : Place) : Outcome (Text × Place) :=
  quotedText quote (p.rest.length + 1) p.step

/-! ## Plain words -/

/-- The indicators that end a word inside of brackets. -/
def isFlowIndicator : CharSet := among ",?[]\x7b\x7d"

/-- The length of the word at the start of a text. -/
def wordLength (inFlow : Bool) : Text → Nat
  | [] => 0
  | c :: rest =>
    let ends (d : Char) : Bool :=
      isSpace d || endsLine d || (inFlow && among ",[]\x7b\x7d" d)
    if isSpace c || endsLine c || (c == ':' && rest.head?.all ends)
        || (inFlow && isFlowIndicator c) then 0
    else 1 + wordLength inFlow rest

/-- Passes over spaces and line breaks before the next line of plain words; none if a mark between
documents comes first. -/
def plainBreaks : (fuel : Nat) → Place → Option Text × Place
  | 0, p => (some [], p)
  | fuel + 1, p =>
    let p := p.skip (· == ' ')
    if p.seesAny endsLine then
      let (first, p) := p.lineBreak
      if p.seesAnyMark then (none, p)
      else
        let (more, p) := plainBreaks fuel p
        (more.map (first ++ ·), p)
    else (some [], p)

/-- What follows a plain word: the white space up to the next word if there may be one, whether a
line ended, and the place behind it. -/
def plainSpaces (p : Place) : Option Text × Bool × Place :=
  let (spaces, p) := p.span (· == ' ')
  if p.seesAny endsLine then
    let (first, p) := p.lineBreak
    if p.seesAnyMark then (none, true, p)
    else
      let (more, p) := plainBreaks (p.rest.length + 1) p
      (more.map (folded first), true, p)
  else (if spaces.isEmpty then none else some spaces, false, p)

/-- Plain words as they are read: the text, whether a key may follow, and the place behind. -/
structure Plain where
  text : Text
  keysAllowed : Bool
  place : Place

/-- Reads plain words behind those that were read with the white space after them. A line that is
indented by less than `indent` ends them. -/
def plainWords (inFlow : Bool) (indent : Int) : (fuel : Nat) → (text spaces : Text) →
    (keysAllowed : Bool) → Place → Plain
  | 0, text, _, keysAllowed, p => ⟨text, keysAllowed, p⟩
  | fuel + 1, text, spaces, keysAllowed, p =>
    let length := wordLength inFlow p.rest
    if p.sees '#' || length == 0 then ⟨text, keysAllowed, p⟩
    else
      let text := text ++ spaces ++ p.rest.take length
      match plainSpaces (p.move length) with
      | (none, newLine, p) => ⟨text, newLine, p⟩
      | (some spaces, newLine, p) =>
        if p.sees '#' || (!inFlow && p.column < indent) then ⟨text, newLine, p⟩
        else plainWords inFlow indent fuel text spaces newLine p

/-! ## Indented blocks -/

/-- How a block ends: whether all line breaks at its end are kept, or none; one is kept if nothing
is said. -/
abbrev Chomping := Option Bool

/-- Reads the sign of how a block ends. -/
def chomping (p : Place) : Chomping × Place :=
  if p.sees '+' then (some true, p.step)
  else if p.sees '-' then (some false, p.step)
  else (none, p)

/-- Reads the digit of how far a block is indented. -/
def increment (p : Place) : Outcome (Option Nat × Place) :=
  match p.next? with
  | some c =>
    if c == '0' then .error noToken
    else if c.isDigit then .ok (some (basedDigit c), p.step)
    else .ok (none, p)
  | none => .ok (none, p)

/-- Reads the signs behind the one that starts a block, in either order. -/
def blockSigns (p : Place) : Outcome (Chomping × Option Nat × Place) := do
  let (chomp, p) := chomping p
  let (count, p) ← increment p
  let (chomp, p) := if chomp.isNone && count.isSome then chomping p else (chomp, p)
  if p.atSpaceOrEnd then pure (chomp, count, p) else .error noToken

/-- Passes over empty lines at the start of a block: the line breaks, and the deepest column of the
spaces. -/
def blockStart : (fuel : Nat) → (deepest : Nat) → Place → Text × Nat × Place
  | 0, deepest, p => ([], deepest, p)
  | fuel + 1, deepest, p =>
    if p.sees ' ' then blockStart fuel (max deepest p.step.column) p.step
    else if p.seesAny endsLine then
      let (first, p) := p.lineBreak
      let (more, deepest, p) := blockStart fuel deepest p
      (first ++ more, deepest, p)
    else ([], deepest, p)

/-- Passes over spaces up to a column. -/
def spacesTo (column : Nat) (p : Place) : Place :=
  p.move ((p.rest.take (column - p.column)).takeWhile (· == ' ')).length

/-- Passes over empty lines inside of a block, up to the indentation of the next line. -/
def blockBreaks (indent : Nat) : (fuel : Nat) → Place → Text × Place
  | 0, p => ([], p)
  | fuel + 1, p =>
    let p := spacesTo indent p
    if p.seesAny endsLine then
      let (first, p) := p.lineBreak
      let (more, p) := blockBreaks indent fuel p
      (first ++ more, p)
    else ([], p)

/-- The lines of a block: their text, the last line break, the empty lines at the end, and the
place behind. -/
structure BlockLines where
  text : Text
  last : Text
  empty : Text
  place : Place

/-- Reads the lines of a block behind those that were read with the empty lines after them. -/
def blockLines (folds : Bool) (indent : Nat) : (fuel : Nat) → BlockLines → BlockLines
  | 0, b => b
  | fuel + 1, b =>
    let goesOn (p : Place) : Bool := p.column == indent && !p.atEnd
    if !goesOn b.place then b
    else
      let (line, p) := b.place.span (fun c => !endsLine c)
      let (last, p) := p.lineBreak
      let (empty, p) := blockBreaks indent (p.rest.length + 1) p
      let text := b.text ++ b.empty ++ line
      if goesOn p then
        let joins := folds && last == ['\n'] && !b.place.seesAny isSpace && !p.seesAny isSpace
        let gap : Text := if joins then (if empty.isEmpty then [' '] else []) else last
        blockLines folds indent fuel ⟨text ++ gap, last, empty, p⟩
      else ⟨text, last, empty, p⟩

/-- Reads an indented block at its sign, inside of the given indentation. -/
def blockText (parent : Int) (p : Place) : Outcome (Text × Place) := do
  let folds := p.sees '>'
  let (chomp, count, p) ← blockSigns p.step
  let p ← p.restOfLine
  let least := (max (parent + 1) 1).toNat
  let (empty, indent, p) := match count with
    | none =>
      let (empty, deepest, p) := blockStart (p.rest.length + 1) 0 p
      (empty, max least deepest, p)
    | some n =>
      let indent := least + n - 1
      let (empty, p) := blockBreaks indent (p.rest.length + 1) p
      (empty, indent, p)
  let b := blockLines folds indent (p.rest.length + 1) ⟨[], [], empty, p⟩
  let tail : Text := (if chomp == some false then [] else b.last)
    ++ (if chomp == some true then b.empty else [])
  pure (b.text ++ tail, b.place)

end HostScript.Yaml
