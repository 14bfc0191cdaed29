import HostScript.Listing.Smali
import HostScript.Listing.Symbolic

/-!
# JVM bytecode listings

Methods are lowered by a symbolic run of their bytecode. Local slots hold the receiver of a method
that is not static, then its parameters.
-/

namespace HostScript.Listing.Jvm

open Pattern

private def solid : Pattern := (noneOf isBlank).plus

/-- The head of a method: its modifiers, name and parameter types are the groups. -/
def methodHead : Pattern :=
  cap 1 ((choice ["public", "private", "protected", "static", "final", "synchronized", "native",
      "abstract", "strictfp"] ++ gap).star)
    ++ (oneOf (isWord ||| among ".$<>[]")).plus ++ gap ++ cap 2 ((oneOf isIdentPart).plus)
    ++ "(" ++ cap 3 any.starLazy ++ ")"
    ++ (gap ++ "throws" ++ gap ++ (oneOf (isWord ||| among ".$, ")).plus).opt ++ ";" ++ textEnd

/-- A line of code: its offset, operation, operands and comment are the groups. -/
def instructionLine : Pattern :=
  cap 1 digit.plus ++ ":" ++ gap ++ cap 2 name ++ blanks ++ cap 3 any.starLazy ++ blanks
    ++ ("//" ++ blanks ++ cap 4 any.star).opt ++ textEnd

/-- The head of a class, whose name is group 1. -/
def classHead : Pattern :=
  ("public" ++ gap <|> "final" ++ gap <|> "abstract" ++ gap).star ++ "class" ++ gap
    ++ cap 1 (oneOf (isWord ||| among ".$")).plus

private def descriptorParts : Pattern := "(" ++ cap 1 any.starLazy ++ ")" ++ cap 2 solid

private def memberComment : Pattern :=
  choice ["Method", "Field", "InterfaceMethod"] ++ gap
    ++ (cap 1 (oneOf (isWord ||| among "/$")).plus ++ ".").opt
    ++ cap 2 (oneOf (isWord ||| among "$<>\x22")).plus ++ ":" ++ cap 3 solid

/-- An arithmetic operation; the operator is group 1. -/
def arithmeticOp : Pattern :=
  oneOf (among "ilfd") ++ cap 1 (choice ["add", "sub", "mul", "div"]) ++ textEnd

/-- A load of a slot; group 1 is the slot of a short form. -/
def loadOp : Pattern :=
  oneOf (among "ilfda") ++ "load" ++ ("_" ++ cap 1 digit).opt ++ textEnd

/-- A store to a slot; group 1 is the slot of a short form. -/
def storeOp : Pattern :=
  oneOf (among "ilfda") ++ "store" ++ ("_" ++ cap 1 digit).opt ++ textEnd

/-- A return of a value. -/
def returnOp : Pattern := oneOf (among "ilfda") ++ "return" ++ textEnd

private def conditionCode : Pattern := cap 1 (choice ["eq", "ne", "lt", "ge", "gt", "le"])

private def compareOp : Pattern := "if_" ++ oneOf (among "ia") ++ "cmp" ++ conditionCode ++ textEnd

private def testOp : Pattern := "if" ++ conditionCode ++ textEnd

/-- A short form of a constant; its digit is group 1. -/
def constantOp : Pattern := oneOf (among "ilfd") ++ "const_" ++ cap 1 digit

/-- The comment on a constant: its type and its value are the groups. -/
def constantComment : Pattern :=
  cap 1 (choice ["int", "long", "float", "double", "String"]) ++ gap ++ cap 2 any.star

/-- A member that an instruction refers to. -/
structure Member where
  owner : Text
  name : Text
  descriptor : Text

/-- The last part of a name with separators. -/
def lastPart (sep : Char) (t : Text) : Text := (t.splitOn sep).getLastD []

/-- The member named in a comment; all parts are empty if there is none. -/
def Member.ofComment (comment : Text) : Member :=
  match memberComment.search? comment with
  | some m =>
    ⟨lastPart '/' (m.group 1), Text.trimOf (among "\x22") (m.group 2), m.group 3⟩
  | none => ⟨[], [], []⟩

/-- The number of arguments that a descriptor takes, and whether it gives a value. -/
def arity (descriptor : Text) : Nat × Bool :=
  match descriptorParts.search? descriptor with
  | some m => (descriptorArity (m.group 1), m.group 2 != ['V'])
  | none => (0, false)

/-- The member with its owner, if it has one. -/
def Member.qualified (m : Member) : Text :=
  if m.owner.isEmpty then m.name else m.owner ++ "." ++ m.name

/-- A line of a method: offset, operation, operands and comment. -/
structure Line where
  offset : Text
  op : Text
  operands : Text
  comment : Text

/-- The source text of a line. -/
def Line.raw (l : Line) : Text := Text.trim (l.offset ++ ": " ++ l.op ++ " " ++ l.operands)

/-- A bytecode operation. Slots are named by their numbers. -/
inductive Op where
  | arithmetic (opcode : Opcode)
  | load (slot : Text)
  | store (slot : Text)
  | push (value : Text)
  | increment (slot amount : Text)
  | invoke (isStatic : Bool) (member : Member) (raw : Text)
  | returnValue
  | return_
  | compare (sign label : Text)
  | test (sign label : Text)
  | jump (label : Text)
  | dup
  | pop
  | other (raw : Text)

/-- The value that a constant's comment gives. -/
def constantValue? (comment : Text) : Option Text :=
  (constantComment.match? comment).map fun m =>
    let value := Text.trim (m.group 2)
    if m.group 1 == "String".toList then
      "\x22" ++ Text.replaceAll "\x22" "\\\x22" value ++ "\x22"
    else Text.trimEndOf (among "lfdLFD") value

/-- The label of a jump. -/
def jumpLabel (operands : Text) : Text := 'L' :: operands.trim

/-- The operations with a fixed name, and those known by how their name starts. -/
def Op.named (l : Line) : Op :=
  if l.op == "iconst_m1".toList then .push "-1"
  else if l.op == "aconst_null".toList then .push "null"
  else match constantOp.matchAll? l.op with
    | some m => .push (m.group 1)
    | none =>
      if l.op == "bipush".toList || l.op == "sipush".toList then .push (literal l.operands)
      else if l.op.startsWith "ldc" then
        match constantValue? l.comment with
        | some v => .push v
        | none => .other l.raw
      else if l.op == "iinc".toList then
        match (l.operands.splitOn ',').map Text.trim with
        | [slot, amount] => .increment slot (literal amount)
        | _ => .other l.raw
      else if l.op == "getstatic".toList then .push (Member.ofComment l.comment).qualified
      else if l.op.startsWith "invoke" then
        .invoke (l.op == "invokestatic".toList) (.ofComment l.comment) l.raw
      else control
where
  /-- Returns, branches and stack operations. -/
  control : Op :=
    if returnOp.fits l.op then .returnValue
    else if l.op == "return".toList then .return_
    else match compareOp.match? l.op with
      | some m => .compare (comparison (m.group 1)) (jumpLabel l.operands)
      | none =>
        match testOp.match? l.op with
        | some m => .test (comparison (m.group 1)) (jumpLabel l.operands)
        | none =>
          if l.op == "goto".toList || l.op == "goto_w".toList then .jump (jumpLabel l.operands)
          else if l.op == "dup".toList then .dup
          else if l.op == "pop".toList then .pop
          else .other l.raw

/-- The operation on a line. -/
def Op.ofLine (l : Line) : Op :=
  match arithmeticOp.match? l.op with
  | some m => .arithmetic (.arithmetic (m.group 1))
  | none =>
    match loadOp.match? l.op with
    | some m => .load ((m.group? 1).getD l.operands.trim)
    | none =>
      match storeOp.match? l.op with
      | some m => .store ((m.group? 1).getD l.operands.trim)
      | none => Op.named l

/-- A method with its code. -/
structure Method where
  name : Text
  owner : Text
  params : List Text
  /-- The names of slots by number. -/
  slots : List (Text × Text)
  tags : List Text
  lines : List Line := []

/-- The name of a numbered parameter. -/
def paramName (i : Nat) : Text := "arg" ++ Text.ofNat i

/-- A method from its name, modifiers, parameter types and class. -/
def Method.ofHead (name modifiers paramTypes owner : Text) : Method :=
  let count := ((paramTypes.splitOn ',').filter fun p => !(Text.trim p).isEmpty).length
  let offset := if isStatic modifiers then 0 else 1
  let slots := (List.range count).map fun i => (Text.ofNat (i + offset), paramName i)
  let receiver : List (Text × Text) := if isStatic modifiers then [] else [("0", "this")]
  let direct : List Text := if isDirect modifiers then ["devirtualize"] else []
  let locked : List Text :=
    if modifiers.words.contains "synchronized".toList then ["synchronized"] else []
  ⟨name, owner, (List.range count).map paramName, receiver ++ slots, direct ++ locked, []⟩

/-- The name of a slot. -/
def Method.slot (m : Method) (index : Text) : Text :=
  (m.slots.lookup index).getD ("local" ++ index)

/-- The script functions that stand for library methods. -/
def libraryCalls : List (String × String) :=
  [("System.out.println", "console.log"), ("System.out.print", "console.log"),
    ("Math.sqrt", "Math.sqrt"), ("Math.abs", "Math.abs"), ("Math.max", "Math.max"),
    ("Math.min", "Math.min")]

/-- The script form of a callee. -/
def scriptCallee (callee : Text) : Text :=
  ((libraryCalls.find? (·.1.toList == callee)).map (·.2.toList)).getD callee

/-- Runs a call symbolically. A constructor has no lowered form, but its arguments leave the
stack. -/
def invoke (method : Method) (s : Symbolic) (isStatic : Bool) (m : Member) (raw : Text) :
    Symbolic :=
  if m.name.isEmpty then s.emitUnknown raw
  else
    let (count, returns) := arity m.descriptor
    let (args, s) := s.popMany count
    if isStatic then
      let callee := if m.owner == method.owner then m.name else m.qualified
      s.call (scriptCallee callee) args returns
    else if m.name == "<init>".toList then s.emitUnknown raw
    else
      let (receiver, s) := s.pop
      s.call (scriptCallee (receiver ++ "." ++ m.name)) args returns

/-- Runs an operation symbolically. -/
def run (method : Method) (s : Symbolic) : Op → Symbolic
  | .arithmetic opcode => s.arithmetic opcode
  | .load slot => s.push (method.slot slot)
  | .store slot =>
    let (value, s) := s.pop
    s.emit .store [method.slot slot, value]
  | .push value => s.push value
  | .increment slot amount =>
    s.emit .add [method.slot slot, method.slot slot, amount]
  | .invoke isStatic m raw => invoke method s isStatic m raw
  | .returnValue =>
    let (value, s) := s.pop
    s.emit .return_ [value]
  | .return_ => s.emit .return_ []
  | .compare sign label =>
    let (right, s) := s.pop
    let (left, s) := s.pop
    s.emit .branch [left ++ " " ++ sign ++ " " ++ right, label]
  | .test sign label =>
    let (value, s) := s.pop
    s.emit .branch [value ++ " " ++ sign ++ " 0", label]
  | .jump label => s.emit .branch ["true", label]
  | .dup =>
    match s.stack with
    | top :: _ => s.push top
    | [] => s
  | .pop => s.pop.2
  | .other raw => s.emitUnknown raw

/-- Lowers a method. -/
def lower (m : Method) : Routine :=
  let s := (m.lines.map Op.ofLine).foldl (run m) {}
  ⟨m.name, m.params, s.code, m.tags⟩

/-- The methods read so far, the one that is open, and the class. -/
structure State where
  done : List Method
  current : Option Method
  owner : Text

/-- All methods read. -/
def State.methods (st : State) : List Method := st.done ++ st.current.toList

/-- Whether a line starts a member that is not lowered: a constructor or an initializer. -/
def endsMethod (line : Text) : Bool :=
  line.startsWith "static \x7b\x7d"
    || (line.endsWith ";" && line.contains '(' && !instructionLine.fits line)

/-- Reads one trimmed line. -/
def step (st : State) (line : Text) : State :=
  if line.isEmpty then st
  else match classHead.match? line with
    | some m => { st with owner := lastPart '.' (m.group 1) }
    | none =>
      match methodHead.match? line with
      | some m =>
        ⟨st.methods, some (.ofHead (m.group 2) (m.group 1) (m.group 3) st.owner), st.owner⟩
      | none =>
        if endsMethod line then ⟨st.methods, none, st.owner⟩
        else match st.current, instructionLine.match? line with
          | some method, some m =>
            let added := method.lines ++ [⟨m.group 1, m.group 2, m.group 3, m.group 4⟩]
            { st with current := some { method with lines := added } }
          | _, _ => st

/-- The routines of a listing. -/
def read (t : Text) : List Routine :=
  ((t.anyLines.map Text.trim).foldl step ⟨[], none, []⟩).methods.map lower

end HostScript.Listing.Jvm
