import HostScript.Fault
import HostScript.Text.Quoted
import HostScript.Text.WordChar

/-!
# Routines

Listings of several engines are lowered to one small instruction set. An instruction names its
operands by the texts that scripts use for them; what a listing says beyond that set stays as an
unknown instruction with its source text.
-/

namespace HostScript

/-- The operations of the instruction set. -/
inductive Opcode where
  | load
  | store
  | add
  | sub
  | mul
  | div
  | call
  | return_
  | branch
  | loop
  | unknown
  deriving DecidableEq

namespace Opcode

/-- All operations. -/
def all : List Opcode :=
  [.load, .store, .add, .sub, .mul, .div, .call, .return_, .branch, .loop, .unknown]

/-- The name of an operation. -/
def name : Opcode → String
  | .load => "load"
  | .store => "store"
  | .add => "add"
  | .sub => "sub"
  | .mul => "mul"
  | .div => "div"
  | .call => "call"
  | .return_ => "return"
  | .branch => "branch"
  | .loop => "loop"
  | .unknown => "unknown"

/-- The operation with a given name. -/
def ofName (n : Text) : Outcome Opcode :=
  match all.find? (·.name.toList == n) with
  | some op => .ok op
  | none => .error (.badValue (Text.quoted n ++ " is not a valid Opcode"))

/-- The operator of an arithmetic operation. -/
def operator? : Opcode → Option String
  | .add => some "+"
  | .sub => some "-"
  | .mul => some "*"
  | .div => some "/"
  | _ => none

/-- The arithmetic operation with a given name; a division if there is none. -/
def arithmetic (n : Text) : Opcode :=
  ([Opcode.add, .sub, .mul].find? (·.name.toList == n)).getD .div

end Opcode

/-- An instruction. Loads and stores have a target and a source, arithmetic a target and two
operands, a call its callee and arguments, a branch its condition and label. -/
structure Instruction where
  opcode : Opcode
  args : List Text := []
  /-- Where a call leaves its value, if anywhere. -/
  result : Text := []
  /-- The source text of an unknown instruction. -/
  raw : Text := []
  deriving DecidableEq

/-- An instruction outside the instruction set. -/
def Instruction.unknown (raw : Text) : Instruction := ⟨.unknown, [], [], raw.trim⟩

/-- A lowered function of a listing. -/
structure Routine where
  name : Text
  params : List Text := []
  instructions : List Instruction := []
  tags : List Text := []
  deriving DecidableEq

/-- The number of unknown instructions. -/
def Routine.unknownCount (r : Routine) : Nat :=
  r.instructions.countP (·.opcode == .unknown)

/-- The routine with one more instruction. -/
def Routine.add (r : Routine) (i : Instruction) : Routine :=
  { r with instructions := r.instructions ++ [i] }

/-- The comparison that a condition code stands for. -/
def comparison (code : Text) : Text :=
  let table := [("eq", "==="), ("ne", "!=="), ("lt", "<"), ("ge", ">="), ("gt", ">"), ("le", "<=")]
  ((table.find? (·.1.toList == code)).map (·.2.toList)).getD []

end HostScript

/-!
## Routines as script text

Every instruction becomes one line. The first assignment to a name declares it, later ones assign;
parameters are declared already. Instructions that have no script form become comments.
-/

namespace HostScript.Routine

/-- The words that cannot name a binding. -/
def reservedWords : List String :=
  ["break", "case", "catch", "class", "const", "continue", "debugger", "default", "delete", "do",
    "else", "enum", "export", "extends", "false", "finally", "for", "function", "if", "import",
    "in", "instanceof", "new", "null", "return", "super", "switch", "this", "throw", "true", "try",
    "typeof", "var", "void", "while", "with", "yield", "let", "static"]

/-- The text with every character that identifiers cannot have replaced by an underscore. -/
def identifierChars (t : Text) : Text := t.map fun c => if isIdentPart c then c else '_'

/-- A name made fit for a binding. -/
def identifier (name : Text) : Text :=
  let name := match identifierChars name with
    | [] => ['_']
    | c :: rest => if isDigitLike c then '_' :: c :: rest else c :: rest
  if reservedWords.any (·.toList == name) then name ++ ['_'] else name

/-- An assignment, which declares a name that is not declared yet; members are never declared. -/
def assign (declared : List Text) (name value : Text) : Text × List Text :=
  if name.contains '.' || declared.contains name then (name ++ " = " ++ value ++ ";", declared)
  else ("var " ++ name ++ " = " ++ value ++ ";", name :: declared)

/-- The comment for an instruction without a script form, on one line. -/
def unsupported (i : Instruction) : Text :=
  let raw := if i.raw.isEmpty then Text.join " " (i.opcode.name.toList :: i.args) else i.raw
  "// unsupported: " ++ Text.join " " raw.words

/-- The line of an instruction, and the names declared after it. -/
def line (declared : List Text) (i : Instruction) : Text × List Text :=
  match i.opcode, i.args with
  | .load, [target, source] => assign declared target source
  | .store, [target, source] => assign declared target source
  | .call, callee :: args =>
    let call := callee ++ "(" ++ Text.join ", " args ++ ")"
    if i.result.isEmpty then (call ++ ";", declared) else assign declared i.result call
  | .return_, [] => ("return;", declared)
  | .return_, value :: _ => ("return " ++ value ++ ";", declared)
  | .branch, [condition, label] =>
    if condition == "true".toList then ("/* jump " ++ label ++ " */", declared)
    else ("if (" ++ condition ++ ") \x7b /* branch " ++ label ++ " */ \x7d", declared)
  | .loop, count :: _ =>
    ("for (var i = 0; i < " ++ count ++ "; i++) \x7b /* loop body */ \x7d", declared)
  | op, [target, left, right] =>
    match op.operator? with
    | some sign => assign declared target (left ++ " " ++ sign.toList ++ " " ++ right)
    | none => (unsupported i, declared)
  | _, _ => (unsupported i, declared)

/-- The lines of instructions. -/
def lines : (declared : List Text) → List Instruction → List Text
  | _, [] => []
  | declared, i :: rest =>
    let (text, declared) := line declared i
    ("  " ++ text) :: lines declared rest

/-- A routine as a function. -/
def script (r : Routine) : Text :=
  let params := r.params.map identifier
  let head := "function " ++ identifier r.name ++ "(" ++ Text.join ", " params ++ ") \x7b"
  let body := lines (params ++ ["this".toList]) r.instructions
  let notes : List Text :=
    if r.tags.isEmpty then [] else ["// Optimizations: " ++ Text.join ", " r.tags]
  Text.unlines (head :: body ++ ["\x7d".toList] ++ notes)

/-- Routines as one script. -/
def scriptOf (format : Text) (rs : List Routine) : Text :=
  let head : List Text :=
    ["// Generated by jitphone from " ++ format ++ " instructions", "'use strict';", []]
  let missing : List Text :=
    if rs.isEmpty then ["// No functions lowered from " ++ format] else []
  let body := rs.flatMap fun r => [r.script, []]
  Text.trimEndOf (among "\n") (Text.unlines (head ++ missing ++ body)) ++ "\n"

end HostScript.Routine
