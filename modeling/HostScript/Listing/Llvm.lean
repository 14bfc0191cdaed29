import HostScript.Pattern.Match
import HostScript.Routine

/-!
# LLVM listings

Registers and symbols become names. Labels, metadata and declarations are passed over.
-/

namespace HostScript.Listing.Llvm

open Pattern

private def solid : Pattern := (noneOf isBlank).plus

private def symbol : Pattern := (oneOf (isWord ||| among ".$")).plus

private def target : Pattern := "%" ++ cap 1 dotted ++ blanks ++ "=" ++ blanks

private def defineHead : Pattern :=
  "define" ++ edge ++ (noneOf (among "@")).star ++ "@" ++ cap 1 symbol ++ blanks
    ++ "(" ++ cap 2 any.starLazy ++ ")" ++ cap 3 any.star ++ textEnd

private def arithmeticLine : Pattern :=
  target
    ++ cap 2 ((lit "f").opt ++ "add" <|> (lit "f").opt ++ "sub" <|> (lit "f").opt ++ "mul"
      <|> (oneOf (among "suf")).opt ++ "div")
    ++ edge ++ (gap ++ choice ["nsw", "nuw", "exact", "fast"]).star ++ gap ++ solid ++ gap
    ++ cap 3 solid ++ "," ++ blanks ++ cap 4 solid ++ textEnd

private def allocaLine : Pattern := target ++ "alloca" ++ edge

private def loadLine : Pattern :=
  target ++ "load" ++ edge ++ any.star ++ "," ++ blanks ++ solid ++ gap ++ cap 2 ("%" ++ dotted)

private def storeLine : Pattern :=
  "store" ++ gap ++ solid ++ gap ++ cap 1 solid ++ "," ++ blanks ++ solid ++ gap
    ++ cap 2 ("%" ++ dotted)

private def callLine : Pattern :=
  target.opt ++ ("tail" ++ gap).opt ++ "call" ++ edge ++ (noneOf (among "@")).star ++ "@"
    ++ cap 2 symbol ++ blanks ++ "(" ++ cap 3 any.star ++ ")"

private def returnLine : Pattern := "ret" ++ gap ++ cap 1 solid ++ (gap ++ cap 2 solid).opt

private def branchLine : Pattern :=
  "br" ++ gap ++ "i1" ++ gap ++ cap 1 solid ++ "," ++ blanks ++ "label" ++ gap ++ "%"
    ++ cap 2 dotted ++ "," ++ blanks ++ "label" ++ gap ++ "%" ++ cap 3 dotted

private def jumpLine : Pattern := "br" ++ gap ++ "label" ++ gap ++ "%" ++ cap 1 dotted

/-- A register at the end of a text. -/
def lastRegister : Pattern := "%" ++ cap 1 dotted ++ blanks ++ textEnd

private def labelLine : Pattern := dotted ++ ":"

/-- Dots are no part of a name. -/
def undotted (t : Text) : Text := t.map fun c => if c == '.' then '_' else c

/-- The name of a register; a number gets a letter before it. -/
def registerName (register : Text) : Text :=
  let n := undotted register
  if n.head?.any isDigitLike then 'v' :: n else n

/-- An operand: a register or symbol by name, anything else as written. -/
def operand (value : Text) : Text :=
  let t := Text.trimEndOf (among ",") value.trim
  match t with
  | c :: rest => if c == '%' || c == '@' then registerName rest else t
  | [] => []

/-- The parameters of a signature. -/
def params (signature : Text) : List Text :=
  (signature.splitOn ',').filterMap fun part =>
    (lastRegister.search? (Text.trim part)).map fun m => registerName (m.group 1)

/-- The arguments of a call: the last word of each. -/
def callArgs (t : Text) : List Text :=
  (t.splitOn ',').filterMap fun part => (Text.words part).getLast?.map operand

private def arithmetic? (line : Text) : Option Instruction :=
  (arithmeticLine.match? line).map fun m =>
    let kind := Text.trimStartOf (among "f") (m.group 2)
    ⟨.arithmetic kind, [registerName (m.group 1), operand (m.group 3), operand (m.group 4)], [], []⟩

private def alloca? (line : Text) : Option Instruction :=
  (allocaLine.match? line).map fun m => ⟨.load, [registerName (m.group 1), "undefined"], [], []⟩

private def load? (line : Text) : Option Instruction :=
  (loadLine.match? line).map fun m =>
    ⟨.load, [registerName (m.group 1), operand (m.group 2)], [], []⟩

private def store? (line : Text) : Option Instruction :=
  (storeLine.match? line).map fun m => ⟨.store, [operand (m.group 2), operand (m.group 1)], [], []⟩

private def call? (line : Text) : Option Instruction :=
  (callLine.match? line).map fun m =>
    let result := ((m.group? 1).map registerName).getD []
    ⟨.call, undotted (m.group 2) :: callArgs (m.group 3), result, []⟩

private def return? (line : Text) : Option Instruction :=
  (returnLine.match? line).map fun m =>
    match m.group? 2 with
    | some value => ⟨.return_, if m.group 1 == "void".toList then [] else [operand value], [], []⟩
    | none => ⟨.return_, [], [], []⟩

private def branch? (line : Text) : Option Instruction :=
  (branchLine.match? line).map fun m => ⟨.branch, [operand (m.group 1), m.group 2], [], []⟩

private def jump? (line : Text) : Option Instruction :=
  (jumpLine.match? line).map fun m => ⟨.branch, ["true", m.group 1], [], []⟩

/-- The instruction on a line. -/
def instruction (line : Text) : Instruction :=
  (arithmetic? line <|> alloca? line <|> load? line <|> store? line <|> call? line
    <|> return? line <|> branch? line <|> jump? line).getD (.unknown line)

/-- The tags that attributes of a function stand for. -/
def attributeTags : List (String × String) :=
  [("inlinehint", "inline"), ("alwaysinline", "inline"), ("optsize", "size"),
    ("minsize", "minsize"), ("noinline", "noinline")]

/-- The tags of a function, from its attributes. -/
def tags (attributes : Text) : List Text :=
  Text.sorted ((attributeTags.filter fun (a, _) =>
    (edge ++ lit a ++ edge).occursIn attributes).map (·.2.toList))

/-- The routines read so far, and the one that is open. -/
structure State where
  done : List Routine
  current : Option Routine

/-- All routines read. -/
def State.routines (st : State) : List Routine := st.done ++ st.current.toList

/-- Reads one line without its comment. -/
def step (st : State) (line : Text) : State :=
  if line.isEmpty then st
  else match defineHead.match? line with
    | some m =>
      ⟨st.routines, some ⟨undotted (m.group 1), params (m.group 2), [], tags (m.group 3)⟩⟩
    | none =>
      match st.current with
      | none => st
      | some r =>
        if line == ['\x7d'] then ⟨st.routines, none⟩
        else if labelLine.fitsAll line then st
        else ⟨st.done, some (r.add (instruction line))⟩

/-- The line before its comment, trimmed. -/
def withoutComment (line : Text) : Text := Text.trim (line.cutAt ';').1

/-- The routines of a listing. -/
def read (t : Text) : List Routine :=
  ((t.anyLines.map withoutComment).foldl step ⟨[], none⟩).routines

end HostScript.Listing.Llvm
