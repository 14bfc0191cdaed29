import HostScript.Source.Bracket
import HostScript.Text.Basic

/-!
# Significant lines

Declarations are read line by line from trimmed source lines without comments. Comments are
blanked out in place, character by character, so every line keeps its number.
-/

namespace HostScript.Source

/-- Where a place in a source stands. -/
inductive Region where
  | code
  | quoted (quote : Char)
  | lineComment
  | blockComment
  deriving DecidableEq

/-- Whether a character opens a string that comments cannot start in. -/
def isQuote : CharSet := fun c => c == '\x22' || c == '\x27'

/-- Blanks comments from a place on. Line breaks stay; a string ends at its quote or its line. -/
def blankFrom : Region → Text → Text
  | _, [] => []
  | .code, '/' :: '/' :: rest => ' ' :: ' ' :: blankFrom .lineComment rest
  | .code, '/' :: '*' :: rest => ' ' :: ' ' :: blankFrom .blockComment rest
  | .code, c :: rest => c :: blankFrom (if isQuote c then .quoted c else .code) rest
  | .quoted q, '\\' :: c :: rest => '\\' :: c :: blankFrom (.quoted q) rest
  | .quoted q, c :: rest => c :: blankFrom (if c == q || c == '\n' then .code else .quoted q) rest
  | .lineComment, c :: rest =>
    if c == '\n' then c :: blankFrom .code rest else ' ' :: blankFrom .lineComment rest
  | .blockComment, '*' :: '/' :: rest => ' ' :: ' ' :: blankFrom .code rest
  | .blockComment, c :: rest => (if c == '\n' then c else ' ') :: blankFrom .blockComment rest

/-- The source with every comment replaced by blanks. -/
def blankComments (source : Text) : Text := blankFrom .code source

/-- A line of a source: its number, counted from one, and its trimmed text without comments. -/
structure Line where
  number : Nat
  text : Text
  deriving DecidableEq

/-- The lines with their numbers, trimmed, without the empty ones. -/
def numberLines (first : Nat) : List Text → List Line
  | [] => []
  | raw :: rest =>
    let text := raw.trim
    if text.isEmpty then numberLines (first + 1) rest
    else ⟨first, text⟩ :: numberLines (first + 1) rest

/-- The lines of a source that hold more than comments and blanks. -/
def significantLines (source : Text) : List Line :=
  numberLines 1 (blankComments source.unifyBreaks).lines

end HostScript.Source

/-!
## Blocks of lines

The body of a declaration is the text between the brace that opens it, on its first line or the
next, and the brace that brings the count back to zero. Quotes are read line by line.
-/

namespace HostScript.Source

/-- A captured body. -/
structure Block where
  /-- The trimmed lines between the outer braces. -/
  body : Text
  /-- The index of the last line that belongs to the block. -/
  last : Nat
  /-- Whether the closing brace was found. -/
  closed : Bool
  /-- Whether an opening brace was found. -/
  opened : Bool
  /-- What follows the closing brace on its line. -/
  trailing : Text

/-- Progress of a capture at the end of a line. -/
inductive LineScan where
  /-- The block closes: where the line's part of the body starts, and the closing brace. -/
  | closed (start stop : Nat)
  /-- The block goes on: braces open, whether the first was met, where the body part starts. -/
  | goesOn (depth : Nat) (opened : Bool) (start : Nat)

/-- Counts the braces of one line. -/
def scanLine : (depth : Nat) → (opened : Bool) → (start : Nat) → List (Nat × Char) → LineScan
  | depth, opened, start, [] => .goesOn depth opened start
  | depth, opened, start, (pos, c) :: rest =>
    if c == '\x7b' then scanLine (depth + 1) true (if opened then start else pos + 1) rest
    else if c == '\x7d' && opened then
      if depth - 1 == 0 then .closed start pos else scanLine (depth - 1) opened start rest
    else scanLine depth opened start rest

/-- The fragments with one more at the end, unless it is blank. -/
def addFragment (parts : List Text) (fragment : Text) : List Text :=
  let t := fragment.trim
  if t.isEmpty then parts else parts ++ [t]

/-- Captures from the line with index `idx` on; `first` is the line where the capture began. -/
def captureFrom (first : Nat) : (idx depth : Nat) → (opened : Bool) → (parts : List Text) →
    List Line → Block
  | idx, _, opened, parts, [] => ⟨Text.unlines parts, idx - 1, false, opened, []⟩
  | idx, depth, opened, parts, line :: rest =>
    match scanLine depth opened 0 (codeChars line.text) with
    | .closed start stop =>
      ⟨Text.unlines (addFragment parts (line.text.slice start stop)), idx, true, true,
        (line.text.since (stop + 1)).trim⟩
    | .goesOn depth opened start =>
      if opened then
        captureFrom first (idx + 1) depth opened (addFragment parts (line.text.drop start)) rest
      else if idx > first then ⟨[], first, false, false, []⟩
      else captureFrom first (idx + 1) depth opened parts rest

/-- The block opened on the line with the given index or on the one after it. -/
def captureBlock (lines : List Line) (start : Nat) : Block :=
  captureFrom start start 0 false [] (lines.drop start)

end HostScript.Source
