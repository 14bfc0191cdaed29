import HostScript.Cli.Handler
import HostScript.Cli.Style
import HostScript.Json
import HostScript.Text.Emoji
import HostScript.Text.Wrap

/-!
# Output of commands

Lines with markup, tables, and what a command prints of them.
-/

namespace HostScript.Cli

open Pattern

/-!
## Markup of output lines

Lines of output may hold tags in square brackets that set a style up to a closing tag, and names of
pictures between colons. What is left without the tags is the text; a backslash before a bracket
keeps it. A closing tag may give any name of the style that it closes.
-/

/-- A tag with the backslashes before it. -/
def tag : Pattern :=
  cap 1 (lit "\\").star ++ "["
    ++ cap 2 (oneOf (between 'a' 'z' ||| among "#/@") ++ (noneOf (among "[")).starLazy) ++ "]"

/-- The characters that are never shown: the bell, and moves of the cursor within the page. -/
def isUnshown : CharSet := among "\x07\x08\x0b\x0c\r"

/-- Text between tags: a kept bracket loses its backslash, and pictures replace their names. -/
def betweenTags (t : Text) : Text :=
  (Emoji.replaceNames (Text.replaceAll "\\[" "[" t)).filter (!isUnshown ·)

/-- A tag that was opened. -/
structure OpenTag where
  /-- The name of its style. -/
  name : Text
  /-- What follows the equals sign. -/
  value : Option Text

/-- Whether an open tag can be closed: the value of a handler has to be readable. -/
def OpenTag.canClose (o : OpenTag) : Bool :=
  !o.name.startsWith "@" || isHandler (o.value.getD [])

/-- Takes the latest tag with a name from the open tags, which stand latest first. -/
def takeTag? (name : Text) : List OpenTag → Option (OpenTag × List OpenTag)
  | [] => none
  | o :: rest =>
    if o.name == name then some (o, rest)
    else (takeTag? name rest).map fun (found, rest) => (found, o :: rest)

/-- Takes the tag that a closing tag means: the latest one if it gives no name. -/
def closeTag? (name : Text) (tags : List OpenTag) : Outcome (Option (OpenTag × List OpenTag)) :=
  if name.isEmpty then .ok (tags.head?.map fun o => (o, tags.tail))
  else do pure (takeTag? (← styleName name) tags)

/-- The open tags after one more tag. -/
def openTags (tags : List OpenTag) (content : Text) : Outcome (List OpenTag) :=
  match content.cutAt '=' with
  | ('/' :: closed, _) => do
    match ← closeTag? (Text.trim closed) tags with
    | some (o, tags) => if o.canClose then pure tags else .error .unbalancedMarkup
    | none => .error .unbalancedMarkup
  | (name, value) => do pure (⟨← styleName name, value⟩ :: tags)

/-- The text of a line from an offset on, given the tags that follow and the open ones. -/
def plainFrom (t : Text) : (pos : Nat) → List OpenTag → List Match → Outcome Text
  | pos, _, [] => .ok (betweenTags (t.since pos))
  | pos, tags, m :: rest => do
    let before := betweenTags (t.slice pos m.start)
    let escapes := (m.group 1).length
    let kept := List.replicate (escapes / 2) '\\'
    if escapes % 2 == 1 then
      let literal := betweenTags (m.text.since escapes)
      let tail ← plainFrom t m.stop tags rest
      pure (before ++ kept ++ literal ++ tail)
    else
      let tags ← openTags tags (m.group 2)
      let tail ← plainFrom t m.stop tags rest
      pure (before ++ kept ++ tail)

/-- The text of a line without its tags. -/
def plain (t : Text) : Outcome Text := plainFrom t 0 [] (tag.allIn t)

end HostScript.Cli

/-!
## Tables

The columns of a table are as wide as their widest cells. If the table is wider than the screen, the
widest columns give way, in equal parts, until it fits; the cells are then broken into lines. A row
is as high as its highest cell.
-/

namespace HostScript.Cli.Table

open HostScript.Text (Overflow)

/-- The cells that a text takes up: its widest line. -/
def measure (t : Text) : Nat := (t.anyLines.map Text.cells).foldl max 0

/-- The widths of the columns that rows need. -/
def columnWidths : List (List Text) → List Nat
  | [] => []
  | row :: [] => row.map measure
  | row :: rest => List.zipWith max (row.map measure) (columnWidths rest)

/-- The sum of widths. -/
def total (widths : List Nat) : Nat := widths.foldl (· + ·) 0

/-- A quotient as the nearest whole number, a half as the nearest even one. -/
def nearest (n d : Nat) : Nat :=
  let q := n / d
  let twice := 2 * (n % d)
  if twice > d || (twice == d && q % 2 == 1) then q + 1 else q

/-- Takes an excess in equal parts from the columns of one width; none gives more than `most`.
`sharing` is the number of columns that still have to give. -/
def shrink (widest most : Nat) : (excess sharing : Nat) → List Nat → List Nat
  | _, _, [] => []
  | excess, sharing, w :: rest =>
    if w == widest && sharing > 0 then
      let given := min most (nearest excess sharing)
      (w - given) :: shrink widest most (excess - given) (sharing - 1) rest
    else w :: shrink widest most excess sharing rest

/-- The widths of columns that fit a room: as long as they do not, the widest ones give way down to
the next width. -/
def collapse (room : Nat) : (fuel : Nat) → List Nat → List Nat
  | 0, widths => widths
  | fuel + 1, widths =>
    let excess := total widths - room
    if excess == 0 then widths
    else
      let widest := widths.foldl max 0
      let next := (widths.filter (· != widest)).foldl max 0
      let sharing := widths.count widest
      collapse room fuel (shrink widest (min excess (widest - next)) excess sharing widths)

/-- The cells that the edges of a table and the blanks beside its cells take. -/
def frame (columns : Nat) : Nat := 3 * columns + 1

/-- The widths of the cells of a table on a screen; no column asks for more than there is. -/
def cellWidths (screen : Nat) (rows : List (List Text)) : List Nat :=
  let widths := columnWidths rows
  let room := screen - (widths.length + 1)
  let widths := widths.map fun w => min (w + 2) room
  (collapse room (total widths) widths).map (· - 2)

/-- The lines of a row of cells: each line has a cell of every column. -/
def rowLines (widths : List Nat) (cells : List Text) : List (List Text) :=
  let wrapped := List.zipWith (fun w c => Text.wrap .ellipsis w c) widths cells
  let height := (wrapped.map List.length).foldl max 1
  (List.range height).map fun k => wrapped.map fun ls => ls.getD k []

end HostScript.Cli.Table

/-!
## What a command shows

A command prints lines, panels and tables, writes files, and ends with an exit code. What is wider
than the screen is broken into lines. Panels and tables are printed without borders, though these
take up room, and the cells of a row stand between bars.
-/

namespace HostScript.Cli

/-- What became of a command. -/
structure Result where
  exitCode : Nat := 0
  stdout : Text := []
  stderr : Text := []
  /-- The files that were written, by name. -/
  written : List (Text × Text) := []
  /-- The document that was printed in place of lines. -/
  document : Option Json := none
  /-- A fault that the command does not handle. -/
  escaped : Option Fault := none

/-- Something to print. -/
inductive Piece where
  /-- Text as it is. -/
  | verbatim (t : Text)
  /-- A line with markup. -/
  | line (t : Text)
  /-- A line with markup, printed without blanks at its ends. -/
  | trimmed (t : Text)
  /-- A title and the text below it. -/
  | panel (title body : Text)
  /-- A title, column heads and rows. -/
  | table (title : Text) (heads : List Text) (rows : List (List Text))

/-- The width of the screen. -/
def screenWidth : Nat := 240

/-- Lines of text, one below the other. -/
def stacked (ls : List Text) : Text := Text.join [] (ls.map fun (l : Text) => l ++ "\n")

/-- The title of a panel, which is one line. -/
def panelTitle (t : Text) : Text :=
  let line := Text.expandTabs (t.map fun c => if c == '\n' then ' ' else c)
  Text.trim (Text.truncate .fold (screenWidth - 4) (" " ++ line ++ " "))

/-- The lines of a table below its title. -/
def tableLines (widths : List Nat) (rows : List (List Text)) : List Text :=
  rows.flatMap fun cells =>
    (Table.rowLines widths cells).map fun line => Text.join " | " (line.map Text.trim)

/-- The text of a piece. -/
def Piece.text : Piece → Outcome Text
  | .verbatim t => .ok t
  | .line t => do pure (stacked (Text.wrap .fold screenWidth (← plain t)))
  | .trimmed t => do pure (stacked ((Text.wrap .fold screenWidth (← plain t)).map Text.trim))
  | .panel title body => do
    let title ← plain title
    let body ← plain body
    pure (stacked (panelTitle title
      :: (Text.wrap .fold (screenWidth - 4) body).map Text.trim))
  | .table title heads rows => do
    let rows ← (heads :: rows).mapM (·.mapM plain)
    let widths := Table.cellWidths screenWidth rows
    let title ← plain title
    let titleLines := Text.wrap .fold (Table.total widths + Table.frame widths.length) title
    pure (stacked (titleLines.map Text.trim ++ tableLines widths rows))

/-- Prints pieces after what a result already shows; a fault ends the printing. -/
def Result.print (r : Result) : List Piece → Result
  | [] => r
  | p :: rest =>
    match p.text with
    | .ok t => Result.print { r with stdout := r.stdout ++ t } rest
    | .error f => { r with exitCode := 1, escaped := some f }

/-- The end of a command that was called in a wrong way. -/
def misused (message : Text) : Result := { exitCode := 2, stderr := message }

/-- The end of a command that a fault escapes from. -/
def escapes (f : Fault) : Result := { exitCode := 1, escaped := some f }

/-- The end of a command that reports a fault on the error channel. -/
def refused (message : Text) : Result :=
  { exitCode := 1, stderr := "Error: " ++ message ++ "\n" }

/-- The line that reports a fault. -/
def faultPiece (f : Fault) (line : Text → Piece) : Piece :=
  match f with
  | .invalidScript _ => .verbatim "syntax:"
  | f => line ("[red]" ++ (f.kind?.getD "").toList ++ ":[/] " ++ f.message)

/-- The end of a command with a fault: one that callers can act on is printed. -/
def failed (f : Fault) (line : Text → Piece := .line) : Result :=
  match f.kind? with
  | none => escapes f
  | some _ =>
    let r := Result.print {} [faultPiece f line]
    { r with exitCode := 1 }

end HostScript.Cli
