import HostScript.Proofs.Listing.Literal
import HostScript.Routine
import Mathlib.Logic.Function.Basic

/-!
# Running a routine

The straight-line instructions of a routine assign integers to names, make calls and return.
An operand is an integer literal or the name of a value. What a call answers is left open and may
depend on all calls before it. Branches, loops, divisions and unknown instructions have no meaning
here: a run that reaches one has no result.
-/

namespace HostScript

/-- The integer operation that an opcode stands for. -/
def Opcode.compute? : Opcode → Option (Int → Int → Int)
  | .add => some (· + ·)
  | .sub => some (· - ·)
  | .mul => some (· * ·)
  | _ => none

/-- A call with the values of its arguments. -/
structure Call where
  target : Text
  args : List Int
  deriving DecidableEq

/-- What calls answer, given the calls before. -/
abbrev Answers := List Call → Call → Int

/-- How far the execution of a routine has come. -/
structure Execution where
  /-- The values of names. -/
  values : Text → Int
  /-- The calls so far, in order. -/
  calls : List Call
  /-- What was returned, a value or nothing, once the routine has returned. -/
  returned : Option (Option Int)

namespace Execution

variable (answers : Answers)

/-- The execution of a routine before its first instruction. -/
def start (values : Text → Int) : Execution := ⟨values, [], none⟩

/-- The value of an operand: an integer literal stands for itself. -/
def operand (x : Execution) (t : Text) : Int := (Listing.integer? t).getD (x.values t)

/-- Gives a name a value. -/
def assign (x : Execution) (name : Text) (value : Int) : Execution :=
  { x with values := Function.update x.values name value }

/-- Makes a call; its answer is kept if it has a name to go to. -/
def call (x : Execution) (target : Text) (args : List Text) (result : Text) : Execution :=
  let made : Call := ⟨target, args.map x.operand⟩
  let after := { x with calls := x.calls ++ [made] }
  if result.isEmpty then after else after.assign result (answers x.calls made)

/-- Ends the routine. -/
def leave (x : Execution) (value : Option Int) : Execution := { x with returned := some value }

/-- Carries out an instruction. Nothing happens after the routine has returned. -/
def step (x : Execution) (i : Instruction) : Option Execution :=
  if x.returned.isSome then some x
  else match i.opcode, i.args with
    | .load, [target, source] => some (x.assign target (x.operand source))
    | .store, [target, source] => some (x.assign target (x.operand source))
    | .call, target :: args => some (x.call answers target args i.result)
    | .return_, [] => some (x.leave none)
    | .return_, [value] => some (x.leave (some (x.operand value)))
    | op, [target, left, right] =>
      op.compute?.map fun f => x.assign target (f (x.operand left) (x.operand right))
    | _, _ => none

/-- Carries out instructions in order. -/
def run (x : Execution) (code : List Instruction) : Option Execution :=
  code.foldlM (step answers) x

/-- The value that was returned, if any. -/
def value (x : Execution) : Option Int := x.returned.join

variable {answers}

@[simp] theorem values_assign (x : Execution) (name : Text) (v : Int) :
    (x.assign name v).values = Function.update x.values name v := rfl

@[simp] theorem calls_assign (x : Execution) (name : Text) (v : Int) :
    (x.assign name v).calls = x.calls := rfl

@[simp] theorem returned_assign (x : Execution) (name : Text) (v : Int) :
    (x.assign name v).returned = x.returned := rfl

/-- A literal has the value that it denotes. -/
theorem operand_of_integer? (x : Execution) {t : Text} {n : Int}
    (h : Listing.integer? t = some n) : x.operand t = n := by
  simp [operand, h]

/-- A name has the value that was assigned to it. -/
theorem operand_of_name (x : Execution) {t : Text} (h : Listing.integer? t = none) :
    x.operand t = x.values t := by
  simp [operand, h]

/-- An assignment leaves the other operands alone. -/
theorem operand_assign_of_ne (x : Execution) {name t : Text} (v : Int) (h : t ≠ name) :
    (x.assign name v).operand t = x.operand t := by
  simp [operand, h]

/-- Operands among which a name does not stand keep their values when it is assigned. -/
theorem map_operand_assign (x : Execution) {name : Text} (v : Int) {ts : List Text}
    (h : name ∉ ts) : ts.map (x.assign name v).operand = ts.map x.operand := by
  apply List.map_congr_left
  intro t ht
  apply operand_assign_of_ne
  rintro rfl
  exact h ht

/-- A run in two parts. -/
theorem run_append (x : Execution) (code more : List Instruction) :
    x.run answers (code ++ more) = (x.run answers code).bind (·.run answers more) := by
  rw [run, List.foldlM_append]
  rfl

/-- A run that goes on for one instruction. -/
theorem run_snoc {x y : Execution} {code : List Instruction} (h : x.run answers code = some y)
    (i : Instruction) : x.run answers (code ++ [i]) = y.step answers i := by
  rw [run_append, h]
  change (y.step answers i).bind pure = _
  cases y.step answers i <;> rfl

/-- Code after a return is not carried out. -/
theorem run_of_returned {x : Execution} (h : x.returned.isSome = true) (code : List Instruction) :
    x.run answers code = some x := by
  induction code with
  | nil => rfl
  | cons i code ih =>
    have hstep : x.step answers i = some x := by
      rw [step, if_pos h]
    rw [run, List.foldlM_cons, hstep]
    exact ih

end Execution

end HostScript
