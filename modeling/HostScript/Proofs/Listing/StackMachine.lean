import HostScript.Listing.Symbolic
import HostScript.Proofs.Routine.Execution

/-!
# Lowering stack code to named values

The stack machines of the listings share one set of operations on a stack of integers and on
numbered locals. Their code is lowered by a symbolic run that keeps the names of values on its
stack instead of the values. A name on the symbolic stack is read only when it is taken off, so
the lowered code computes the same values as long as no operation assigns to a local whose name is
still on the stack. Main statement: under this condition every run of the stack machine is matched,
call by call and local by local, by a run of the lowered code.
-/

namespace HostScript.Listing

/-- An operation of a stack machine. Locals are numbered, integers are as written. -/
inductive StackOp where
  | const (token : Text)
  | get (slot : Nat)
  | set (slot : Nat)
  /-- Assigns to a local and leaves the value on the stack. -/
  | tee (slot : Nat)
  | increment (slot : Nat) (token : Text)
  | arithmetic (opcode : Opcode)
  | call (target : Text) (arity : Nat) (returns : Bool)
  | dup
  | drop
  | nop
  /-- Returns the value on top of the stack, or nothing. -/
  | leave (gives : Bool)

/-- An operation returns. -/
def StackOp.isLeave : StackOp → Bool
  | .leave _ => true
  | _ => false

theorem StackOp.eq_leave_of_isLeave (op : StackOp) (h : op.isLeave = true) :
    ∃ gives, op = .leave gives := by
  cases op <;> first | exact ⟨_, rfl⟩ | cases h

/-- A state of the stack machine. -/
structure StackMachine where
  /-- The stack, its top first. -/
  stack : List Int
  locals : Nat → Int
  /-- The calls so far, in order. -/
  calls : List Call
  /-- What was returned, a value or nothing, once the code has returned. -/
  returned : Option (Option Int)

namespace StackMachine

variable (answers : Answers)

/-- The machine before the first operation. -/
def start (locals : Nat → Int) : StackMachine := ⟨[], locals, [], none⟩

/-- Carries out an operation, unless the stack is too short for it. Nothing happens after the code
has returned. -/
def step (m : StackMachine) (op : StackOp) : Option StackMachine :=
  if m.returned.isSome then some m
  else match op, m.stack with
    | .const token, stack => (integer? token).map fun n => { m with stack := n :: stack }
    | .get slot, stack => some { m with stack := m.locals slot :: stack }
    | .set slot, value :: stack =>
      some { m with stack := stack, locals := Function.update m.locals slot value }
    | .tee slot, value :: _ => some { m with locals := Function.update m.locals slot value }
    | .increment slot token, _ => (integer? token).map fun n =>
      { m with locals := Function.update m.locals slot (m.locals slot + n) }
    | .arithmetic opcode, right :: left :: stack =>
      opcode.compute?.map fun f => { m with stack := f left right :: stack }
    | .call target arity returns, stack =>
      if arity ≤ stack.length then
        let made : Call := ⟨target, (stack.take arity).reverse⟩
        let answer := if returns then [answers m.calls made] else []
        some { m with stack := answer ++ stack.drop arity, calls := m.calls ++ [made] }
      else none
    | .dup, value :: stack => some { m with stack := value :: value :: stack }
    | .drop, _ :: stack => some { m with stack := stack }
    | .nop, _ => some m
    | .leave true, value :: _ => some { m with returned := some (some value) }
    | .leave false, _ => some { m with returned := some none }
    | _, _ => none

/-- Carries out operations in order. -/
def run (m : StackMachine) (ops : List StackOp) : Option StackMachine := ops.foldlM (step answers) m

/-- Comes to the end of the code: a value that is due is what is left on top of the stack. -/
def finish (gives : Bool) (m : StackMachine) : Option StackMachine :=
  if gives then m.step answers (.leave true) else some m

/-- The value that was returned, if any. -/
def value (m : StackMachine) : Option Int := m.returned.join

variable {answers}

/-- Only a return makes the machine return. -/
theorem returned_step {m m' : StackMachine} {op : StackOp} (hstay : op.isLeave = false)
    (h : m.step answers op = some m') : m'.returned = m.returned := by
  unfold step at h
  split at h
  · rw [Option.some.inj h]
  · split at h
    all_goals first
      | (obtain ⟨_, _, rfl⟩ := Option.map_eq_some_iff.mp h; rfl)
      | (obtain rfl := Option.some.inj h; rfl)
      | (obtain rfl := Option.some.inj (Option.ite_none_right_eq_some.mp h).2; rfl)
      | cases hstay
      | cases h

/-- Operations without a return leave the machine running. -/
theorem returned_run {m m' : StackMachine} {ops : List StackOp}
    (hstay : ∀ op ∈ ops, op.isLeave = false) (h : m.run answers ops = some m') :
    m'.returned = m.returned := by
  induction ops generalizing m with
  | nil => rw [Option.some.inj h]
  | cons op ops ih =>
    rw [run, List.foldlM_cons] at h
    obtain ⟨m₁, hstep, hrest⟩ := Option.bind_eq_some_iff.mp h
    rw [ih (fun u hu => hstay u (List.mem_cons_of_mem _ hu)) hrest,
      returned_step (hstay op (List.mem_cons_self ..)) hstep]

/-- Operations and then a return of a value: the value lies on top of the stack that the operations
leave. -/
theorem value_run_leave {locals : Nat → Int} {ops : List StackOp}
    (hstay : ∀ op ∈ ops, op.isLeave = false) {m' : StackMachine}
    (h : (start locals).run answers (ops ++ [.leave true]) = some m') : ∃ v, m'.value = some v := by
  rw [run, List.foldlM_append] at h
  obtain ⟨m, hops, hleave⟩ := Option.bind_eq_some_iff.mp h
  have hrunning : m.returned = none := returned_run hstay hops
  rw [List.foldlM_cons] at hleave
  obtain ⟨m₁, hstep, hend⟩ := Option.bind_eq_some_iff.mp hleave
  obtain rfl := Option.some.inj hend
  unfold step at hstep
  rw [if_neg (by rw [hrunning]; decide)] at hstep
  cases hstack : m.stack with
  | nil => simp [hstack] at hstep
  | cons v vs =>
    simp only [hstack, Option.some.injEq] at hstep
    exact ⟨v, by rw [← hstep]; rfl⟩

end StackMachine

namespace StackOp

/-- Runs an operation symbolically, with a name for each local. -/
def lower (name : Nat → Text) (s : Symbolic) : StackOp → Symbolic
  | .const token => s.push (literal token)
  | .get slot => s.push (name slot)
  | .set slot =>
    let (value, s) := s.pop
    s.emit .store [name slot, value]
  | .tee slot =>
    let (value, s) := s.pop
    (s.emit .store [name slot, value]).push (name slot)
  | .increment slot token => s.emit .add [name slot, name slot, literal token]
  | .arithmetic opcode => s.arithmetic opcode
  | .call target arity returns =>
    let (args, s) := s.popMany arity
    s.call target args returns
  | .dup =>
    match s.stack with
    | top :: _ => s.push top
    | [] => s
  | .drop => s.pop.2
  | .nop => s
  | .leave gives =>
    if gives then
      let (value, s) := s.pop
      s.emit .return_ [value]
    else s.emit .return_ []

/-- Runs operations symbolically, in order. -/
def lowerAll (name : Nat → Text) (s : Symbolic) (ops : List StackOp) : Symbolic :=
  ops.foldl (lower name) s

/-- An operation does not assign to a local whose name stays on the symbolic stack. -/
def Spares (name : Nat → Text) (pending : List Text) : StackOp → Prop
  | .set slot => name slot ∉ pending.tail
  | .tee slot => name slot ∉ pending.tail
  | .increment slot _ => name slot ∉ pending
  | _ => True

/-- Operations up to a return do not assign to locals whose names are still on the symbolic
stack. -/
def SparesAll (name : Nat → Text) : Symbolic → List StackOp → Prop
  | _, [] => True
  | s, op :: ops =>
    op.Spares name s.stack ∧ (op.isLeave = true ∨ SparesAll name (op.lower name s) ops)

instance (name : Nat → Text) (pending : List Text) :
    (op : StackOp) → Decidable (op.Spares name pending)
  | .set slot => inferInstanceAs (Decidable (name slot ∉ pending.tail))
  | .tee slot => inferInstanceAs (Decidable (name slot ∉ pending.tail))
  | .increment slot _ => inferInstanceAs (Decidable (name slot ∉ pending))
  | .const _ | .get _ | .arithmetic _ | .call .. | .dup | .drop | .nop | .leave _ => isTrue trivial

instance decidableSparesAll (name : Nat → Text) (s : Symbolic) :
    (ops : List StackOp) → Decidable (SparesAll name s ops)
  | [] => isTrue trivial
  | op :: ops =>
    have := decidableSparesAll name (op.lower name s) ops
    inferInstanceAs (Decidable (_ ∧ (_ ∨ _)))

/-- The locals of an operation lie within a range. -/
def Within (slots : Nat → Prop) : StackOp → Prop
  | .get slot => slots slot
  | .set slot => slots slot
  | .tee slot => slots slot
  | .increment slot _ => slots slot
  | _ => True

end StackOp

/-- Names for the locals of a range: different ones, that are neither literals nor names of
temporary values. -/
structure Naming (name : Nat → Text) (slots : Nat → Prop) : Prop where
  injective : ∀ {i j : Nat}, slots i → slots j → name i = name j → i = j
  notLiteral : ∀ {i : Nat}, slots i → integer? (name i) = none
  notTemp : ∀ {i : Nat}, slots i → ∀ n, name i ≠ Symbolic.tempName n

/-- The lowered code so far does what the machine did so far. -/
structure Agrees (answers : Answers) (begin : Execution) (name : Nat → Text) (slots : Nat → Prop)
    (s : Symbolic) (m : StackMachine) (x : Execution) : Prop where
  code : begin.run answers s.code = some x
  locals : ∀ i, slots i → x.values (name i) = m.locals i
  calls : x.calls = m.calls
  returned : x.returned = m.returned

/-- In addition the code has not returned, and the symbolic stack names the values of the
machine's stack. -/
structure Tracks (answers : Answers) (begin : Execution) (name : Nat → Text) (slots : Nat → Prop)
    (s : Symbolic) (m : StackMachine) (x : Execution) : Prop
    extends Agrees answers begin name slots s m x where
  running : m.returned = none
  stack : s.stack.map x.operand = m.stack
  temps : ∀ t ∈ s.stack, ∀ n, s.temps ≤ n → t ≠ Symbolic.tempName n

/-- A text that starts with neither a sign nor a digit is no literal. -/
theorem integer?_eq_none_of_head {c : Char} (hc : c.isDigit = false) (hminus : c ≠ '-')
    (hplus : c ≠ '+') (t : Text) : integer? (c :: t) = none := by
  have hungrouped : ungrouped? Char.isDigit (c :: t) = none := by
    unfold ungrouped?
    split <;> simp_all
  have hnatural : natural? (c :: t) = none := by
    unfold natural?
    split
    · rename_i heq
      obtain ⟨rfl, -⟩ := List.cons.inj heq
      cases hc
    · rw [hungrouped]
      rfl
  unfold integer?
  split
  · rename_i heq
    exact absurd (List.cons.inj heq).1 hminus
  · rename_i heq
    exact absurd (List.cons.inj heq).1 hplus
  · rw [hnatural]
    rfl

/-- The name of a temporary value is no literal. -/
theorem integer?_tempName (n : Nat) : integer? (Symbolic.tempName n) = none :=
  integer?_eq_none_of_head (by decide) (by decide) (by decide) _

/-- Different temporary values have different names. -/
theorem tempName_injective {m n : Nat} (h : Symbolic.tempName m = Symbolic.tempName n) : m = n :=
  ofNat_injective (List.cons.inj h).2

namespace Symbolic

/-- Returns what is left on top of the stack, if a value is due. -/
def finish (gives : Bool) (s : Symbolic) : Symbolic :=
  match gives, s.stack with
  | true, value :: _ => s.emit .return_ [value]
  | _, _ => s

/-- Taking several operands off a stack that has them. -/
theorem popMany_eq (s : Symbolic) {n : Nat} (h : n ≤ s.stack.length) :
    s.popMany n = ((s.stack.take n).reverse, { s with stack := s.stack.drop n }) := by
  induction n generalizing s with
  | zero => simp [popMany]
  | succ n ih =>
    cases hs : s.stack with
    | nil => simp [hs] at h
    | cons t ts =>
      have hpop : s.pop = (t, { s with stack := ts }) := by simp [pop, hs]
      have hts : n ≤ ts.length := by simpa [hs] using h
      rw [popMany, hpop]
      simp only
      rw [ih { s with stack := ts } hts]
      simp

/-- Taking an operand off adds no code. -/
theorem code_pop (s : Symbolic) : s.pop.2.code = s.code := by
  unfold pop
  split <;> rfl

/-- Taking operands off adds no code. -/
theorem code_popMany (s : Symbolic) (n : Nat) : (s.popMany n).2.code = s.code := by
  induction n generalizing s with
  | zero => rfl
  | succ n ih =>
    rw [popMany]
    simp only
    rw [ih, code_pop]

end Symbolic

/-- A symbolic run only adds code. -/
theorem StackOp.code_lower (name : Nat → Text) (s : Symbolic) (op : StackOp) :
    ∃ more, (op.lower name s).code = s.code ++ more := by
  cases op with
  | const | get | nop => exact ⟨[], by simp [lower, Symbolic.push]⟩
  | increment => exact ⟨_, rfl⟩
  | set | tee => exact ⟨_, by simp [lower, Symbolic.push, Symbolic.emit, Symbolic.code_pop]; rfl⟩
  | arithmetic opcode =>
    exact ⟨_, by
      simp [lower, Symbolic.arithmetic, Symbolic.push, Symbolic.emit, Symbolic.fresh,
        Symbolic.code_pop]; rfl⟩
  | call target arity returns =>
    cases returns <;>
      exact ⟨_, by
        simp [lower, Symbolic.call, Symbolic.push, Symbolic.emit, Symbolic.fresh,
          Symbolic.code_popMany]; rfl⟩
  | dup =>
    refine ⟨[], ?_⟩
    cases hs : s.stack <;> simp [lower, hs, Symbolic.push]
  | drop => exact ⟨[], by simp [lower, Symbolic.code_pop]⟩
  | leave gives =>
    cases gives <;> exact ⟨_, by simp [lower, Symbolic.emit, Symbolic.code_pop]; rfl⟩

section Simulation

variable {answers : Answers} {begin : Execution} {name : Nat → Text} {slots : Nat → Prop}
  {s : Symbolic} {m : StackMachine} {x : Execution}

/-- Code that is added after a return changes nothing. -/
theorem Agrees.of_returned (h : Agrees answers begin name slots s m x)
    (hreturned : m.returned.isSome = true) {s' : Symbolic} {more : List Instruction}
    (hcode : s'.code = s.code ++ more) : Agrees answers begin name slots s' m x where
  code := by
    rw [hcode, Execution.run_append, h.code]
    exact Execution.run_of_returned (h.returned ▸ hreturned) more
  locals := h.locals
  calls := h.calls
  returned := h.returned

/-- While the code has not returned, an instruction is carried out as its opcode says. -/
theorem Tracks.not_returned (h : Tracks answers begin name slots s m x) :
    ¬ x.returned.isSome = true := by
  rw [h.returned, h.running]
  decide

/-- An operand with a value is pushed. -/
theorem Tracks.push (h : Tracks answers begin name slots s m x) {t : Text} {v : Int}
    (hv : x.operand t = v) (ht : ∀ n, s.temps ≤ n → t ≠ Symbolic.tempName n) :
    Tracks answers begin name slots (s.push t) { m with stack := v :: m.stack } x where
  code := h.code
  locals := h.locals
  calls := h.calls
  returned := h.returned
  running := h.running
  stack := by simp [Symbolic.push, hv, h.stack]
  temps := by
    intro u hu
    rcases List.mem_cons.mp hu with rfl | hu
    · exact ht
    · exact h.temps u hu

/-- Operands are taken off. -/
theorem Tracks.dropStack (h : Tracks answers begin name slots s m x) (n : Nat) :
    Tracks answers begin name slots { s with stack := s.stack.drop n }
      { m with stack := m.stack.drop n } x where
  code := h.code
  locals := h.locals
  calls := h.calls
  returned := h.returned
  running := h.running
  stack := by rw [List.map_drop, h.stack]
  temps := fun t ht => h.temps t (List.mem_of_mem_drop ht)

/-- An instruction assigns to a local whose name is not on the stack. -/
theorem Tracks.assignLocal (h : Tracks answers begin name slots s m x) (hn : Naming name slots)
    {i : Nat} (hi : slots i) {instruction : Instruction} {v : Int}
    (hstep : x.step answers instruction = some (x.assign (name i) v)) (hfree : name i ∉ s.stack) :
    Tracks answers begin name slots { s with code := s.code ++ [instruction] }
      { m with locals := Function.update m.locals i v } (x.assign (name i) v) where
  code := by rw [Execution.run_snoc h.code, hstep]
  locals := by
    intro j hj
    by_cases hij : j = i
    · subst hij
      simp
    · have hname : name j ≠ name i := fun heq => hij (hn.injective hj hi heq)
      simp [hname, hij, h.locals j hj]
  calls := h.calls
  returned := h.returned
  running := h.running
  stack := by rw [Execution.map_operand_assign x v hfree, h.stack]
  temps := h.temps

/-- An instruction makes a call and keeps no answer. -/
theorem Tracks.addCall (h : Tracks answers begin name slots s m x) {instruction : Instruction}
    {calls : List Call} (hstep : x.step answers instruction = some { x with calls := calls }) :
    Tracks answers begin name slots { s with code := s.code ++ [instruction] }
      { m with calls := calls } { x with calls := calls } where
  code := by rw [Execution.run_snoc h.code, hstep]
  locals := h.locals
  calls := rfl
  returned := h.returned
  running := h.running
  stack := h.stack
  temps := h.temps

/-- An instruction leaves a value, and perhaps a call, behind a fresh name, which is pushed. -/
theorem Tracks.assignTemp (h : Tracks answers begin name slots s m x) (hn : Naming name slots)
    {instruction : Instruction} {v : Int} {calls : List Call}
    (hstep : x.step answers instruction =
      some ({ x with calls := calls }.assign (Symbolic.tempName s.temps) v)) :
    Tracks answers begin name slots
      { stack := Symbolic.tempName s.temps :: s.stack, temps := s.temps + 1,
        code := s.code ++ [instruction] }
      { m with stack := v :: m.stack, calls := calls }
      ({ x with calls := calls }.assign (Symbolic.tempName s.temps) v) where
  code := by rw [Execution.run_snoc h.code, hstep]
  locals := by
    intro i hi
    have hname := hn.notTemp hi s.temps
    simp [hname, h.locals i hi]
  calls := rfl
  returned := h.returned
  running := h.running
  stack := by
    have hfree : Symbolic.tempName s.temps ∉ s.stack :=
      fun hmem => h.temps _ hmem s.temps le_rfl rfl
    have hrest := Execution.map_operand_assign { x with calls := calls } v hfree
    have hsame : s.stack.map { x with calls := calls }.operand = s.stack.map x.operand := rfl
    rw [List.map_cons, hrest, hsame, h.stack, Execution.operand_of_name _ (integer?_tempName _)]
    simp
  temps := by
    intro t ht n hle
    have hlt : s.temps + 1 ≤ n := hle
    rcases List.mem_cons.mp ht with rfl | ht
    · intro heq
      have := tempName_injective heq
      omega
    · exact h.temps t ht n (by omega)

/-- The top of both stacks, and what is below. -/
theorem Tracks.exists_top (h : Tracks answers begin name slots s m x) {v : Int} {vs : List Int}
    (hm : m.stack = v :: vs) : ∃ t ts, s.stack = t :: ts ∧ x.operand t = v ∧
      s.pop = (t, { s with stack := ts }) ∧
      Tracks answers begin name slots { s with stack := ts } { m with stack := vs } x := by
  have hstack := h.stack
  rw [hm] at hstack
  obtain ⟨t, ts, hs, hv, -⟩ := List.map_eq_cons_iff.mp hstack
  have hrest := h.dropStack 1
  rw [hs, hm, List.drop_one, List.tail_cons, List.drop_one, List.tail_cons] at hrest
  exact ⟨t, ts, hs, hv, by simp [Symbolic.pop, hs], hrest⟩

/-- Assigning the top of the stack to a local takes it off. -/
theorem Tracks.store (h : Tracks answers begin name slots s m x) (hn : Naming name slots)
    {slot : Nat} (hslot : slots slot) {v : Int} {vs : List Int} (hm : m.stack = v :: vs)
    (hfree : name slot ∉ s.stack.tail) :
    ∃ t ts, s.pop = (t, { s with stack := ts }) ∧
      Tracks answers begin name slots ({ s with stack := ts }.emit .store [name slot, t])
        { m with stack := vs, locals := Function.update m.locals slot v }
        (x.assign (name slot) v) := by
  obtain ⟨t, ts, hs, hv, hpop, hrest⟩ := h.exists_top hm
  have hstep : x.step answers ⟨.store, [name slot, t], [], []⟩ =
      some (x.assign (name slot) v) := by
    rw [Execution.step, if_neg h.not_returned]
    simp only [hv]
  rw [hs, List.tail_cons] at hfree
  exact ⟨t, ts, hpop, hrest.assignLocal hn hslot hstep hfree⟩

/-- An operation on the two topmost values leaves its value on top. -/
theorem Tracks.arithmetic (h : Tracks answers begin name slots s m x) (hn : Naming name slots)
    {opcode : Opcode} {f : Int → Int → Int} (hf : opcode.compute? = some f) {left right : Int}
    {vs : List Int} (hm : m.stack = right :: left :: vs) :
    ∃ x', Tracks answers begin name slots (s.arithmetic opcode)
      { m with stack := f left right :: vs } x' := by
  obtain ⟨t, ts, -, ht, hpop, hone⟩ := h.exists_top hm
  obtain ⟨u, us, -, hu, hpop', htwo⟩ := hone.exists_top rfl
  have hcompute : x.step answers ⟨opcode, [Symbolic.tempName s.temps, u, t], [], []⟩ =
      some ({ x with calls := x.calls }.assign (Symbolic.tempName s.temps) (f left right)) := by
    rw [Execution.step, if_neg h.not_returned]
    cases opcode <;> simp_all [Opcode.compute?]
  have htemp := htwo.assignTemp hn hcompute
  simp only [Symbolic.arithmetic, hpop, hpop']
  exact ⟨_, by simpa [Symbolic.fresh, Symbolic.emit, Symbolic.push, h.calls] using htemp⟩

/-- A call takes its arguments off both stacks and leaves its answer, if it gives one. -/
theorem Tracks.call (h : Tracks answers begin name slots s m x) (hn : Naming name slots)
    (target : Text) {arity : Nat} (returns : Bool) (hlen : arity ≤ m.stack.length) :
    ∃ x', Tracks answers begin name slots (StackOp.lower name s (.call target arity returns))
      { m with
        stack := (if returns then
          [answers m.calls ⟨target, (m.stack.take arity).reverse⟩] else []) ++ m.stack.drop arity
        calls := m.calls ++ [⟨target, (m.stack.take arity).reverse⟩] } x' := by
  have hlen' : arity ≤ s.stack.length := by
    rw [← h.stack, List.length_map] at hlen
    exact hlen
  have hrest := h.dropStack arity
  have hargs : ((s.stack.take arity).reverse).map x.operand = (m.stack.take arity).reverse := by
    rw [List.map_reverse, List.map_take, h.stack]
  set made : Call := ⟨target, (m.stack.take arity).reverse⟩ with hmade
  simp only [StackOp.lower, s.popMany_eq hlen']
  cases returns with
  | true =>
    have hcall : x.step answers
        ⟨.call, target :: (s.stack.take arity).reverse, Symbolic.tempName s.temps, []⟩ =
        some ({ x with calls := m.calls ++ [made] }.assign (Symbolic.tempName s.temps)
          (answers m.calls made)) := by
      rw [Execution.step, if_neg h.not_returned]
      simp only [Execution.call, hargs, h.calls, ← hmade]
      rfl
    exact ⟨_, hrest.assignTemp hn hcall⟩
  | false =>
    have hcall : x.step answers ⟨.call, target :: (s.stack.take arity).reverse, [], []⟩ =
        some { x with calls := m.calls ++ [made] } := by
      rw [Execution.step, if_neg h.not_returned]
      simp only [Execution.call, hargs, h.calls, ← hmade]
      rfl
    exact ⟨_, hrest.addCall hcall⟩

/-- What one operation preserves, if it does not return. -/
theorem Tracks.step (h : Tracks answers begin name slots s m x) (hn : Naming name slots)
    {op : StackOp} (hwithin : op.Within slots) (hspares : op.Spares name s.stack)
    (hstay : op.isLeave = false) {m' : StackMachine} (hstep : m.step answers op = some m') :
    ∃ x', Tracks answers begin name slots (op.lower name s) m' x' := by
  unfold StackMachine.step at hstep
  rw [if_neg (by rw [h.running]; decide)] at hstep
  cases op with
  | const token =>
    obtain ⟨n, hvalue, rfl⟩ := Option.map_eq_some_iff.mp hstep
    have hliteral := integer?_literal hvalue
    refine ⟨x, h.push (x.operand_of_integer? hliteral) fun k _ heq => ?_⟩
    rw [heq, integer?_tempName] at hliteral
    cases hliteral
  | get slot =>
    obtain rfl := Option.some.inj hstep
    have hvalue : x.operand (name slot) = m.locals slot := by
      rw [x.operand_of_name (hn.notLiteral hwithin), h.locals slot hwithin]
    exact ⟨x, h.push hvalue fun k _ => hn.notTemp hwithin k⟩
  | set slot =>
    cases hm : m.stack with
    | nil => simp [hm] at hstep
    | cons v vs =>
      simp only [hm, Option.some.injEq] at hstep
      subst hstep
      obtain ⟨t, ts, hpop, htracks⟩ := h.store hn hwithin hm hspares
      simp only [StackOp.lower, hpop]
      exact ⟨_, htracks⟩
  | tee slot =>
    cases hm : m.stack with
    | nil => simp [hm] at hstep
    | cons v vs =>
      simp only [hm, Option.some.injEq] at hstep
      subst hstep
      obtain ⟨t, ts, hpop, htracks⟩ := h.store hn hwithin hm hspares
      have hvalue : (x.assign (name slot) v).operand (name slot) = v := by
        rw [Execution.operand_of_name _ (hn.notLiteral hwithin)]
        simp
      have hpush := htracks.push hvalue fun k _ => hn.notTemp hwithin k
      simp only [StackOp.lower, hpop]
      exact ⟨_, by simpa [hm] using hpush⟩
  | increment slot token =>
    obtain ⟨n, hvalue, rfl⟩ := Option.map_eq_some_iff.mp hstep
    have hadd : x.step answers ⟨.add, [name slot, name slot, literal token], [], []⟩ =
        some (x.assign (name slot) (m.locals slot + n)) := by
      rw [Execution.step, if_neg h.not_returned]
      simp only [Opcode.compute?, Option.map_some]
      rw [x.operand_of_name (hn.notLiteral hwithin), h.locals slot hwithin,
        x.operand_of_integer? (integer?_literal hvalue)]
    exact ⟨_, h.assignLocal hn hwithin hadd hspares⟩
  | arithmetic opcode =>
    rcases hm : m.stack with _ | ⟨right, _ | ⟨left, vs⟩⟩
    · simp [hm] at hstep
    · simp [hm] at hstep
    · simp only [hm] at hstep
      obtain ⟨f, hf, rfl⟩ := Option.map_eq_some_iff.mp hstep
      exact h.arithmetic hn hf hm
  | call target arity returns =>
    simp only [Option.ite_none_right_eq_some, Option.some.injEq] at hstep
    obtain ⟨hlen, rfl⟩ := hstep
    exact h.call hn target returns hlen
  | dup =>
    cases hm : m.stack with
    | nil => simp [hm] at hstep
    | cons v vs =>
      simp only [hm, Option.some.injEq] at hstep
      subst hstep
      obtain ⟨t, ts, hs, hv, -⟩ := h.exists_top hm
      have hpush := h.push hv (h.temps t (by simp [hs]))
      simp only [StackOp.lower, hs]
      exact ⟨x, by simpa [hm] using hpush⟩
  | drop =>
    cases hm : m.stack with
    | nil => simp [hm] at hstep
    | cons v vs =>
      simp only [hm, Option.some.injEq] at hstep
      subst hstep
      obtain ⟨t, ts, -, -, hpop, hrest⟩ := h.exists_top hm
      simp only [StackOp.lower, hpop]
      exact ⟨x, hrest⟩
  | nop =>
    obtain rfl := Option.some.inj hstep
    exact ⟨x, h⟩
  | leave gives => cases hstay

/-- A return ends the lowered code with what the machine returns. -/
theorem Tracks.leave (h : Tracks answers begin name slots s m x) {gives : Bool} {m' : StackMachine}
    (hstep : m.step answers (.leave gives) = some m') :
    m'.returned.isSome = true ∧
      ∃ x', Agrees answers begin name slots (StackOp.lower name s (.leave gives)) m' x' := by
  unfold StackMachine.step at hstep
  rw [if_neg (by rw [h.running]; decide)] at hstep
  have hcode {i : Instruction} {y : Execution} (hi : x.step answers i = some y) :
      begin.run answers (s.code ++ [i]) = some y := by
    rw [Execution.run_snoc h.code, hi]
  cases gives with
  | false =>
    obtain rfl := Option.some.inj hstep
    refine ⟨rfl, x.leave none, ?_, h.locals, h.calls, rfl⟩
    refine hcode ?_
    rw [Execution.step, if_neg h.not_returned]
  | true =>
    cases hm : m.stack with
    | nil => simp [hm] at hstep
    | cons v vs =>
      simp only [hm, Option.some.injEq] at hstep
      subst hstep
      obtain ⟨t, ts, hs, hv, hpop, -⟩ := h.exists_top hm
      refine ⟨rfl, x.leave (some v), ?_, h.locals, h.calls, rfl⟩
      simp only [StackOp.lower, hpop, if_true]
      refine hcode ?_
      rw [Execution.step, if_neg h.not_returned]
      simp only [hv]

/-- After a return the machine stands still, and so does the lowered code. -/
theorem Agrees.run_of_returned (h : Agrees answers begin name slots s m x)
    (hreturned : m.returned.isSome = true) {ops : List StackOp} {m' : StackMachine}
    (hrun : m.run answers ops = some m') :
    m' = m ∧ Agrees answers begin name slots (StackOp.lowerAll name s ops) m x := by
  induction ops generalizing s with
  | nil => exact ⟨(Option.some.inj hrun).symm, h⟩
  | cons op ops ih =>
    have hstep : m.step answers op = some m := by
      unfold StackMachine.step
      rw [if_pos hreturned]
    rw [StackMachine.run, List.foldlM_cons, hstep] at hrun
    obtain ⟨more, hmore⟩ := op.code_lower name s
    exact ih (h.of_returned hreturned hmore) hrun

/-- What operations in order preserve: they are matched up to where they end or return. -/
theorem Tracks.run (h : Tracks answers begin name slots s m x) (hn : Naming name slots)
    {ops : List StackOp} (hwithin : ∀ op ∈ ops, op.Within slots)
    (hspares : StackOp.SparesAll name s ops) {m' : StackMachine}
    (hrun : m.run answers ops = some m') :
    (∃ x', Tracks answers begin name slots (StackOp.lowerAll name s ops) m' x') ∨
      m'.returned.isSome = true ∧
        ∃ x', Agrees answers begin name slots (StackOp.lowerAll name s ops) m' x' := by
  induction ops generalizing s m x with
  | nil =>
    obtain rfl := Option.some.inj hrun
    exact Or.inl ⟨x, h⟩
  | cons op ops ih =>
    rw [StackMachine.run, List.foldlM_cons] at hrun
    obtain ⟨m₁, hstep, hrest⟩ := Option.bind_eq_some_iff.mp hrun
    obtain ⟨hfree, hrestFree⟩ := hspares
    cases hleave : op.isLeave with
    | true =>
      obtain ⟨gives, rfl⟩ := op.eq_leave_of_isLeave hleave
      obtain ⟨hreturned, x₁, h₁⟩ := h.leave hstep
      obtain ⟨rfl, hend⟩ := h₁.run_of_returned hreturned hrest
      exact Or.inr ⟨hreturned, x₁, hend⟩
    | false =>
      have hop := hwithin op (List.mem_cons_self ..)
      obtain ⟨x₁, h₁⟩ := h.step hn hop hfree hleave hstep
      have hfree₁ := hrestFree.resolve_left (by simp [hleave])
      exact ih h₁ (fun u hu => hwithin u (List.mem_cons_of_mem _ hu)) hfree₁ hrest

/-- Operations that assign to no local with a pending name are matched by their lowered code from
any values of names: in the calls made, in the locals left and in what is returned. -/
theorem agrees_of_run (hn : Naming name slots) {ops : List StackOp}
    (hwithin : ∀ op ∈ ops, op.Within slots) (hspares : StackOp.SparesAll name {} ops)
    {values : Text → Int} {locals : Nat → Int} (hlocals : ∀ i, slots i → values (name i) = locals i)
    {gives : Bool} {m' : StackMachine}
    (hrun : ((StackMachine.start locals).run answers ops).bind
      (StackMachine.finish answers gives) = some m') :
    ∃ x, Agrees answers (.start values) name slots ((StackOp.lowerAll name {} ops).finish gives)
      m' x := by
  obtain ⟨m₁, hops, hfinish⟩ := Option.bind_eq_some_iff.mp hrun
  have hstart : Tracks answers (.start values) name slots {}
      (.start locals) (.start values) :=
    { code := rfl, locals := hlocals, calls := rfl, returned := rfl, running := rfl,
      stack := rfl, temps := by simp }
  rcases hstart.run hn hwithin hspares hops with ⟨x, h⟩ | ⟨hreturned, x, h⟩
  · cases gives with
    | false =>
      obtain rfl := Option.some.inj hfinish
      exact ⟨x, h.toAgrees⟩
    | true =>
      -- The value that is due lies on top of both stacks.
      obtain ⟨-, y, hleave⟩ := h.leave hfinish
      cases hm : m₁.stack with
      | nil =>
        unfold StackMachine.finish StackMachine.step at hfinish
        rw [if_pos rfl, if_neg (by rw [h.running]; decide)] at hfinish
        simp [hm] at hfinish
      | cons v vs =>
        obtain ⟨t, ts, hs, -, hpop, -⟩ := h.exists_top hm
        refine ⟨y, ?_, hleave.locals, hleave.calls, hleave.returned⟩
        have hcode := hleave.code
        simp only [StackOp.lower, hpop, if_true, Symbolic.emit] at hcode
        simpa [Symbolic.finish, hs, Symbolic.emit] using hcode
  · have hsame : m' = m₁ := by
      cases gives with
      | false => exact (Option.some.inj hfinish).symm
      | true =>
        unfold StackMachine.finish StackMachine.step at hfinish
        rw [if_pos rfl, if_pos hreturned] at hfinish
        exact (Option.some.inj hfinish).symm
    have hmore : ∃ more, ((StackOp.lowerAll name {} ops).finish gives).code =
        (StackOp.lowerAll name {} ops).code ++ more := by
      unfold Symbolic.finish
      split
      · exact ⟨_, rfl⟩
      · exact ⟨[], by simp⟩
    obtain ⟨more, hmore⟩ := hmore
    exact ⟨x, hsame ▸ h.of_returned hreturned hmore⟩

end Simulation

end HostScript.Listing
