import HostScript.Number.Reading
import HostScript.Pattern.Match
import HostScript.Routine

/-!
# Operands of lowered code

Integers are written in decimal in the lowered code, whatever base the listing uses.

Code for a stack machine is lowered by running it on a stack of operand texts: what a value is
called is known without running the code. An operation leaves its value in a fresh name.
-/

namespace HostScript.Listing

open Pattern

/-- A hexadecimal integer with an optional sign. -/
def hexLiteral : Pattern :=
  (lit "-").opt ++ "0x" ++ (oneOf isHexDigit).plus

/-- A decimal integer with an optional sign. -/
def decimalLiteral : Pattern := (lit "-").opt ++ digit.plus

/-- The number that a hexadecimal literal denotes. -/
def hexNumber (t : Text) : Int :=
  let digits := if t.startsWith "-" then t.drop 3 else t.drop 2
  let n := basedValue 16 digits
  if t.startsWith "-" then -(n : Int) else n

/-- A literal in decimal. What is no integer, or has too many digits, stays as it is written. -/
def literal (token : Text) : Text :=
  let t := token.trim
  let number : Outcome Text :=
    if hexLiteral.fitsAll t then Number.writeInt (hexNumber t)
    else if decimalLiteral.fitsAll t then Number.readSigned t >>= Number.writeInt
    else .ok t
  match number with
  | .ok n => n
  | .error _ => t

/-! ### Symbolic operand stack -/

/-- A symbolic run: the operands on the stack, top first, the number of names made, and the
instructions so far. -/
structure Symbolic where
  stack : List Text := []
  temps : Nat := 0
  code : List Instruction := []

namespace Symbolic

/-- The name of a temporary value. -/
def tempName (n : Nat) : Text := 't' :: Text.ofNat n

/-- Pushes an operand. -/
def push (s : Symbolic) (operand : Text) : Symbolic := { s with stack := operand :: s.stack }

/-- Takes the operand on top; an empty stack gives an undefined one. -/
def pop (s : Symbolic) : Text × Symbolic :=
  match s.stack with
  | [] => ("undefined", s)
  | x :: rest => (x, { s with stack := rest })

/-- Takes several operands, the deepest first. -/
def popMany (s : Symbolic) : (count : Nat) → List Text × Symbolic
  | 0 => ([], s)
  | n + 1 =>
    let (last, s) := s.pop
    let (others, s) := s.popMany n
    (others ++ [last], s)

/-- Adds an instruction. -/
def emit (s : Symbolic) (opcode : Opcode) (args : List Text) (result : Text := []) : Symbolic :=
  { s with code := s.code ++ [⟨opcode, args, result, []⟩] }

/-- Adds an instruction that has no lowered form. -/
def emitUnknown (s : Symbolic) (raw : Text) : Symbolic :=
  { s with code := s.code ++ [.unknown raw] }

/-- Makes a fresh name. -/
def fresh (s : Symbolic) : Text × Symbolic := (tempName s.temps, { s with temps := s.temps + 1 })

/-- An operation on the two topmost operands. -/
def arithmetic (s : Symbolic) (opcode : Opcode) : Symbolic :=
  let (right, s) := s.pop
  let (left, s) := s.pop
  let (target, s) := s.fresh
  (s.emit opcode [target, left, right]).push target

/-- A call whose arguments are off the stack already. -/
def call (s : Symbolic) (callee : Text) (args : List Text) (returns : Bool) : Symbolic :=
  if returns then
    let (target, s) := s.fresh
    (s.emit .call (callee :: args) target).push target
  else s.emit .call (callee :: args)

end Symbolic

end HostScript.Listing
