import HostScript.Listing.Symbolic
import HostScript.Pattern.Match

/-!
# Dalvik listings

Methods stand between `.method` and `.end method`. Parameters keep their register names, except
the receiver of a method that is not static.
-/

namespace HostScript.Listing

open Pattern

/-- The type of a parameter in a descriptor. -/
def descriptorType : Pattern :=
  (lit "[").star ++ (oneOf (among "ZBSCIJFD") <|> "L" ++ (noneOf (among ";")).plus ++ ";")

/-- The number of parameters in a descriptor. -/
def descriptorArity (descriptor : Text) : Nat := (descriptorType.allIn descriptor).length

/-- Whether calls of a method with these modifiers have one possible target. -/
def isDirect (modifiers : Text) : Bool :=
  modifiers.words.any fun w => ["final", "private", "static"].any (·.toList == w)

/-- Whether a method is static. -/
def isStatic (modifiers : Text) : Bool := modifiers.words.contains "static".toList

namespace Smali

private def solid : Pattern := (noneOf isBlank).plus

private def methodName : Pattern := (oneOf (isWord ||| among "$<>")).plus

/-- The head of a method: its modifiers, name, parameter types and result type are the groups. -/
def methodHead : Pattern :=
  ".method" ++ gap ++ cap 1 (((oneOf (isWord ||| among "-")).plus ++ gap).star) ++ cap 2 methodName
    ++ "(" ++ cap 3 any.starLazy ++ ")" ++ cap 4 solid

/-- An arithmetic operation: operator, form and operands are the groups. -/
def arithmeticLine : Pattern :=
  cap 1 (choice ["add", "sub", "mul", "div"]) ++ "-" ++ choice ["int", "long", "float", "double"]
    ++ (cap 2 (choice ["/2addr", "/lit8", "/lit16"])).opt ++ gap ++ cap 3 any.star ++ textEnd

/-- A load of a number: the register and the number are the groups. -/
def constLine : Pattern :=
  "const" ++ (choice ["/4", "/16", "/high16"] <|> "-wide" ++ (choice ["/16", "/32"]).opt).opt
    ++ gap ++ cap 1 name ++ "," ++ blanks ++ cap 2 solid ++ textEnd

/-- A load of a string: the register and the literal are the groups. -/
def stringLine : Pattern :=
  "const-string" ++ (lit "/jumbo").opt ++ gap ++ cap 1 name ++ "," ++ blanks
    ++ cap 2 ("\x22" ++ any.star ++ "\x22") ++ textEnd

/-- A copy: the target and the source are the groups. -/
def moveLine : Pattern :=
  "move" ++ (choice ["-object", "-wide"]).opt ++ (choice ["/from16", "/16"]).opt ++ gap
    ++ cap 1 name ++ "," ++ blanks ++ cap 2 name ++ textEnd

/-- A move of the result of a call to a register, group 1. -/
def moveResultLine : Pattern :=
  "move-result" ++ (choice ["-object", "-wide"]).opt ++ gap ++ cap 1 name ++ textEnd

/-- A call: its kind, registers and method are the groups 1, 2 and 4. -/
def invokeLine : Pattern :=
  "invoke-" ++ cap 1 (choice ["virtual", "static", "direct", "super", "interface"])
    ++ (lit "/range").opt ++ gap ++ "\x7b" ++ cap 2 any.starLazy ++ "\x7d," ++ blanks
    ++ (noneOf isBlank).plusLazy ++ "->" ++ cap 4 methodName ++ "("

/-- A return of a register, group 1. -/
def returnLine : Pattern :=
  "return" ++ (choice ["-object", "-wide"]).opt ++ gap ++ cap 1 name ++ textEnd

/-- A branch: the condition, the mark of a test against zero, the registers and the label are the
groups. -/
def ifLine : Pattern :=
  "if-" ++ cap 1 (choice ["eq", "ne", "lt", "ge", "gt", "le"]) ++ (cap 2 "z").opt ++ gap
    ++ cap 3 name ++ "," ++ blanks ++ (cap 4 name ++ "," ++ blanks).opt ++ ":" ++ cap 5 name
    ++ textEnd

/-- A jump to a label, group 1. -/
def gotoLine : Pattern :=
  "goto" ++ (choice ["/16", "/32"]).opt ++ gap ++ ":" ++ cap 1 name ++ textEnd

/-- The parameters of a method, and the names of its registers. -/
structure Registers where
  params : List Text
  names : List (Text × Text)

/-- A numbered register of a parameter. -/
def paramRegister (n : Nat) : Text := 'p' :: Text.ofNat n

/-- The registers of a method; that of the receiver comes first. -/
def registers (modifiers descriptor : Text) : Registers :=
  let offset := if isStatic modifiers then 0 else 1
  let params := (List.range (descriptorArity descriptor)).map fun i => paramRegister (i + offset)
  let receiver : List (Text × Text) := if isStatic modifiers then [] else [("p0", "this")]
  ⟨params, receiver ++ params.map fun p => (p, p)⟩

/-- The name of a register. -/
def Registers.name (r : Registers) (token : Text) : Text := (r.names.lookup token).getD token

/-- The arithmetic operation on a line. -/
def arithmetic? (r : Registers) (line : Text) : Option Instruction :=
  (arithmeticLine.match? line).map fun m =>
    let form := (m.group? 2).getD []
    let value (t : Text) : Text :=
      if form == "/lit8".toList || form == "/lit16".toList then literal t else r.name t
    let opcode := Opcode.arithmetic (m.group 1)
    match ((m.group 3).splitOn ',').map Text.trim with
    | [target, right] =>
      if form == "/2addr".toList then
        ⟨opcode, [r.name target, r.name target, value right], [], []⟩
      else .unknown line
    | [target, left, right] => ⟨opcode, [r.name target, r.name left, value right], [], []⟩
    | _ => .unknown line

/-- The load of a string on a line. -/
def string? (r : Registers) (line : Text) : Option Instruction :=
  (stringLine.match? line).map fun m => ⟨.load, [r.name (m.group 1), m.group 2], [], []⟩

/-- The load of a number on a line. -/
def const? (r : Registers) (line : Text) : Option Instruction :=
  (constLine.match? line).map fun m => ⟨.load, [r.name (m.group 1), literal (m.group 2)], [], []⟩

/-- The copy on a line. -/
def move? (r : Registers) (line : Text) : Option Instruction :=
  (moveLine.match? line).map fun m => ⟨.store, [r.name (m.group 1), r.name (m.group 2)], [], []⟩

/-- The call on a line. -/
def invoke? (r : Registers) (line : Text) : Option Instruction :=
  (invokeLine.match? line).map fun m =>
    let args := ((((m.group 2).splitOn ',').map Text.trim).filter (!·.isEmpty)).map r.name
    let method := m.group 4
    match args with
    | receiver :: rest =>
      if m.group 1 == "static".toList then ⟨.call, method :: args, [], []⟩
      else ⟨.call, (receiver ++ "." ++ method) :: rest, [], []⟩
    | [] => ⟨.call, [method], [], []⟩

/-- The return of a value on a line. -/
def return? (r : Registers) (line : Text) : Option Instruction :=
  (returnLine.match? line).map fun m => ⟨.return_, [r.name (m.group 1)], [], []⟩

/-- The return without a value on a line. -/
def returnVoid? (line : Text) : Option Instruction :=
  if line == "return-void".toList then some ⟨.return_, [], [], []⟩ else none

/-- The branch on a line. -/
def if? (r : Registers) (line : Text) : Option Instruction :=
  (ifLine.match? line).map fun m =>
    let other := if (m.group? 2).isSome then ['0'] else r.name (m.group 4)
    ⟨.branch, [r.name (m.group 3) ++ " " ++ comparison (m.group 1) ++ " " ++ other, m.group 5],
      [], []⟩

/-- The jump on a line. -/
def goto? (line : Text) : Option Instruction :=
  (gotoLine.match? line).map fun m => ⟨.branch, ["true", m.group 1], [], []⟩

/-- The instruction on a line. -/
def instruction (r : Registers) (line : Text) : Instruction :=
  (arithmetic? r line <|> string? r line <|> const? r line <|> move? r line <|> invoke? r line
    <|> return? r line <|> returnVoid? line <|> if? r line <|> goto? line).getD (.unknown line)

/-- The instructions with the value of the last one, a call without a result, moved to a name. -/
def moveResult? (target : Text) (is : List Instruction) : Option (List Instruction) :=
  match is.getLast? with
  | some i =>
    if i.opcode == .call && i.result.isEmpty then
      some (is.dropLast ++ [{ i with result := target }])
    else none
  | none => none

/-- The methods read so far, and the one that is open with its registers. -/
structure State where
  done : List Routine
  current : Option (Routine × Registers)

/-- All routines read. -/
def State.routines (st : State) : List Routine := st.done ++ (st.current.map (·.1)).toList

/-- A method from its head. -/
def openMethod (m : Match) : Routine × Registers :=
  let modifiers := m.group 1
  let r := registers modifiers (m.group 3)
  let tags : List Text := if isDirect modifiers then ["devirtualize"] else []
  (⟨Text.trimOf (among "<>") (m.group 2), r.params, [], tags⟩, r)

/-- The method after one line of its body. -/
def addLine (routine : Routine) (r : Registers) (line : Text) : Routine :=
  match moveResultLine.match? line with
  | some m =>
    match moveResult? (r.name (m.group 1)) routine.instructions with
    | some is => { routine with instructions := is }
    | none => routine.add (.unknown line)
  | none => routine.add (instruction r line)

/-- Reads one line without its comment. -/
def step (st : State) (line : Text) : State :=
  if line.isEmpty then st
  else match methodHead.match? line with
    | some m => ⟨st.routines, some (openMethod m)⟩
    | none =>
      match st.current with
      | none => st
      | some (routine, r) =>
        if line.startsWith ".end method" then ⟨st.routines, none⟩
        else if line.startsWith "." || line.startsWith ":" then st
        else ⟨st.done, some (addLine routine r line, r)⟩

/-- The line before its comment, trimmed. -/
def withoutComment (line : Text) : Text := Text.trim (line.cutAt '#').1

/-- The routines of a listing. -/
def read (t : Text) : List Routine :=
  ((t.anyLines.map withoutComment).foldl step ⟨[], none⟩).routines

end Smali

end HostScript.Listing
