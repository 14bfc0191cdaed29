import HostScript.Listing.Jvm
import HostScript.Proofs.Listing.StackMachine
import HostScript.Proofs.Pattern.Plain

/-!
# Bytecode without jumps

A static method whose lines load, store, increment and compute integers and end in a return is
lowered to code that returns the same integer and leaves the same locals, as long as no store and
no increment hits a local whose name is still on the symbolic stack. The value of such a local is
not saved, so `iload_0`, `iinc 0, 1`, `ireturn` returns the incremented value.
-/

namespace HostScript.Listing.Jvm

/-- A line of a method stands for an operation on integers. -/
inductive Denotes : Line → StackOp → Prop where
  | load {l : Line} {n : Nat} (op : l.op = "iload".toList)
    (slot : l.operands.trim = Text.ofNat n) : Denotes l (.get n)
  | loadShort {l : Line} {n : Nat} (small : n < 10)
    (op : l.op = "iload_".toList ++ Text.ofNat n) : Denotes l (.get n)
  | store {l : Line} {n : Nat} (op : l.op = "istore".toList)
    (slot : l.operands.trim = Text.ofNat n) : Denotes l (.set n)
  | storeShort {l : Line} {n : Nat} (small : n < 10)
    (op : l.op = "istore_".toList ++ Text.ofNat n) : Denotes l (.set n)
  | constMinus {l : Line} (op : l.op = "iconst_m1".toList) : Denotes l (.const (Text.ofInt (-1)))
  | constShort {l : Line} {n : Nat} (small : n < 10)
    (op : l.op = "iconst_".toList ++ Text.ofNat n) : Denotes l (.const (Text.ofNat n))
  | push {l : Line} {n : Int} (op : l.op = "bipush".toList ∨ l.op = "sipush".toList)
    (value : l.operands.trim = Text.ofInt n) : Denotes l (.const (Text.ofInt n))
  | add {l : Line} (op : l.op = "iadd".toList) : Denotes l (.arithmetic .add)
  | sub {l : Line} (op : l.op = "isub".toList) : Denotes l (.arithmetic .sub)
  | mul {l : Line} (op : l.op = "imul".toList) : Denotes l (.arithmetic .mul)
  | increment {l : Line} {n : Nat} {k : Int} (op : l.op = "iinc".toList)
    (operands : (l.operands.splitOn ',').map Text.trim = [Text.ofNat n, Text.ofInt k]) :
    Denotes l (.increment n (Text.ofInt k))
  | dup {l : Line} (op : l.op = "dup".toList) : Denotes l .dup
  | pop {l : Line} (op : l.op = "pop".toList) : Denotes l .drop

/-- The name of a numbered slot. -/
def Method.slotName (m : Method) (n : Nat) : Text := m.slot (Text.ofNat n)

section Reading

variable {l : Line} {op : Text}

/-- A line that computes. -/
theorem ofLine_arithmetic (hop : l.op = op) (operator : Text)
    (h : (arithmeticOp.match? op).map (·.group 1) = some operator) :
    Op.ofLine l = .arithmetic (.arithmetic operator) := by
  obtain ⟨m, hm, hgroup⟩ := Option.map_eq_some_iff.mp h
  simp only [Op.ofLine, hop, hm, hgroup]

/-- A line that loads, with the slot in its name if it is a short form. -/
theorem ofLine_load (hop : l.op = op) (hcompute : arithmeticOp.fits op = false)
    (short : Option Text) (h : (loadOp.match? op).map (·.group? 1) = some short) :
    Op.ofLine l = .load (short.getD l.operands.trim) := by
  obtain ⟨m, hm, hgroup⟩ := Option.map_eq_some_iff.mp h
  simp only [Op.ofLine, hop, Pattern.match?_eq_none hcompute, hm, hgroup]

/-- A line that stores, with the slot in its name if it is a short form. -/
theorem ofLine_store (hop : l.op = op) (hcompute : arithmeticOp.fits op = false)
    (hload : loadOp.fits op = false) (short : Option Text)
    (h : (storeOp.match? op).map (·.group? 1) = some short) :
    Op.ofLine l = .store (short.getD l.operands.trim) := by
  obtain ⟨m, hm, hgroup⟩ := Option.map_eq_some_iff.mp h
  simp only [Op.ofLine, hop, Pattern.match?_eq_none hcompute, Pattern.match?_eq_none hload, hm,
    hgroup]

/-- A line that neither computes nor loads nor stores. -/
theorem ofLine_named (hop : l.op = op)
    (h : ∀ p ∈ [arithmeticOp, loadOp, storeOp], p.fits op = false) : Op.ofLine l = Op.named l := by
  simp only [List.mem_cons, List.not_mem_nil, or_false, forall_eq_or_imp, forall_eq] at h
  obtain ⟨hcompute, hload, hstore⟩ := h
  simp only [Op.ofLine, hop, Pattern.match?_eq_none hcompute, Pattern.match?_eq_none hload,
    Pattern.match?_eq_none hstore]

/-- A line that pushes the digit in its name. -/
theorem named_digit (hop : l.op = op)
    (hnames : ∀ n ∈ ["iconst_m1", "aconst_null"], op ≠ n.toList) {digit : Text}
    (h : (constantOp.matchAll? op).map (·.group 1) = some digit) : Op.named l = .push digit := by
  simp only [List.mem_cons, List.not_mem_nil, or_false, forall_eq_or_imp, forall_eq,
    ← beq_eq_false_iff_ne] at hnames
  obtain ⟨m, hm, hgroup⟩ := Option.map_eq_some_iff.mp h
  simp only [Op.named, hop, hnames, Bool.false_eq_true, if_false, hm, hgroup]

/-- A line that in addition makes no constant, increments nothing and refers to no member. -/
theorem named_control (hop : l.op = op) (hdigit : constantOp.fitsAll op = false)
    (hnames : ∀ n ∈ ["iconst_m1", "aconst_null", "bipush", "sipush", "iinc", "getstatic"],
      op ≠ n.toList)
    (hheads : ∀ n ∈ ["ldc", "invoke"], op.startsWith n = false) :
    Op.named l = Op.named.control l := by
  simp only [List.mem_cons, List.not_mem_nil, or_false, forall_eq_or_imp, forall_eq,
    ← beq_eq_false_iff_ne] at hnames hheads
  simp only [Op.named, hop, hnames, hheads, Pattern.matchAll?_eq_none hdigit, Bool.false_eq_true,
    Bool.or_self, if_false]

/-- A line that pushes its operand. -/
theorem ofLine_push (h : l.op = "bipush".toList ∨ l.op = "sipush".toList) :
    Op.ofLine l = .push (literal l.operands) := by
  rcases h with hop | hop
  all_goals
    rw [ofLine_named hop (by decide), Op.named, hop, if_neg (by decide),
      if_neg (by decide), Pattern.matchAll?_eq_none (by decide)]
    exact if_pos (by decide)

/-- A line that increments a slot. -/
theorem ofLine_increment (hop : l.op = "iinc".toList) {slot amount : Text}
    (h : (l.operands.splitOn ',').map Text.trim = [slot, amount]) :
    Op.ofLine l = .increment slot (literal amount) := by
  rw [ofLine_named hop (by decide), Op.named, hop, if_neg (by decide),
    if_neg (by decide), Pattern.matchAll?_eq_none (by decide), h]
  rfl

/-- The line that returns. -/
theorem ofLine_return (hop : l.op = "ireturn".toList) : Op.ofLine l = .returnValue := by
  rw [ofLine_named hop (by decide +kernel),
    named_control hop (by decide +kernel) (by decide) (by decide), Op.named.control, hop,
    if_pos (by decide +kernel)]

end Reading

/-- Blanks around a literal do not count. -/
theorem literal_eq_of_trim {t u : Text} (h : t.trim = u.trim) : literal t = literal u := by
  simp only [literal, h]

/-- A digit is its own literal. -/
theorem literal_digit : ∀ n < 10, literal (Text.ofNat n) = Text.ofNat n := by decide

/-- What runs symbolically is the operation that the line stands for. -/
theorem run_ofLine (m : Method) {l : Line} {op : StackOp} (h : Denotes l op) (s : Symbolic) :
    run m s (Op.ofLine l) = op.lower m.slotName s := by
  cases h with
  | load hop hslot =>
    rw [ofLine_load hop (by decide +kernel) none (by decide +kernel), Option.getD_none, hslot]
    rfl
  | @loadShort n hsmall hop =>
    have hname : ∀ n < 10, arithmeticOp.fits ("iload_".toList ++ Text.ofNat n) = false ∧
        (loadOp.match? ("iload_".toList ++ Text.ofNat n)).map (·.group? 1) =
          some (some (Text.ofNat n)) := by decide +kernel
    rw [ofLine_load hop (hname n hsmall).1 _ (hname n hsmall).2]
    rfl
  | store hop hslot =>
    rw [ofLine_store hop (by decide +kernel) (by decide +kernel) none (by decide +kernel),
      Option.getD_none, hslot]
    rfl
  | @storeShort n hsmall hop =>
    have hname : ∀ n < 10, arithmeticOp.fits ("istore_".toList ++ Text.ofNat n) = false ∧
        loadOp.fits ("istore_".toList ++ Text.ofNat n) = false ∧
        (storeOp.match? ("istore_".toList ++ Text.ofNat n)).map (·.group? 1) =
          some (some (Text.ofNat n)) := by decide +kernel
    obtain ⟨hcompute, hload, hstore⟩ := hname n hsmall
    rw [ofLine_store hop hcompute hload _ hstore]
    rfl
  | constMinus hop =>
    have hminus : literal (Text.ofInt (-1)) = "-1".toList := by decide
    rw [ofLine_named hop (by decide +kernel), Op.named, hop, if_pos (by decide), StackOp.lower,
      hminus]
    rfl
  | @constShort n hsmall hop =>
    have hname : ∀ n < 10,
        (∀ p ∈ [arithmeticOp, loadOp, storeOp],
          p.fits ("iconst_".toList ++ Text.ofNat n) = false) ∧
        (∀ t ∈ ["iconst_m1", "aconst_null"], "iconst_".toList ++ Text.ofNat n ≠ t.toList) ∧
        (constantOp.matchAll? ("iconst_".toList ++ Text.ofNat n)).map (·.group 1) =
          some (Text.ofNat n) := by decide +kernel
    obtain ⟨hothers, hnames, hdigit⟩ := hname n hsmall
    rw [ofLine_named hop hothers, named_digit hop hnames hdigit, StackOp.lower,
      literal_digit n hsmall]
    rfl
  | @push n hop hvalue =>
    have htrim : (Text.ofInt n).trim = Text.ofInt n :=
      trim_eq_self (isBlank_of_integer?_eq_some (integer?_ofInt n))
    rw [ofLine_push hop, literal_eq_of_trim (hvalue.trans htrim.symm)]
    rfl
  | add hop =>
    rw [ofLine_arithmetic hop "add".toList (by decide +kernel)]
    rfl
  | sub hop =>
    rw [ofLine_arithmetic hop "sub".toList (by decide +kernel)]
    rfl
  | mul hop =>
    rw [ofLine_arithmetic hop "mul".toList (by decide +kernel)]
    rfl
  | increment hop hoperands =>
    rw [ofLine_increment hop hoperands]
    rfl
  | dup hop =>
    rw [ofLine_named hop (by decide),
      named_control hop (by decide) (by decide) (by decide), Op.named.control, hop]
    rfl
  | pop hop =>
    rw [ofLine_named hop (by decide),
      named_control hop (by decide) (by decide) (by decide), Op.named.control, hop]
    rfl

/-- Lines run symbolically as the operations that they stand for. -/
theorem foldl_run_ofLine (m : Method) {lines : List Line} {ops : List StackOp}
    (h : List.Forall₂ Denotes lines ops) (s : Symbolic) :
    (lines.map Op.ofLine).foldl (run m) s = StackOp.lowerAll m.slotName s ops := by
  induction h generalizing s with
  | nil => rfl
  | cons hline _ ih =>
    rw [List.map_cons, List.foldl_cons, run_ofLine m hline, ih]
    rfl

/-- No operation that a line stands for is a return. -/
theorem isLeave_of_denotes {lines : List Line} {ops : List StackOp}
    (h : List.Forall₂ Denotes lines ops) : ∀ op ∈ ops, op.isLeave = false := by
  induction h with
  | nil => simp
  | cons hline _ ih =>
    rintro op (_ | ⟨_, hop⟩)
    · cases hline <;> rfl
    · exact ih op hop

/-- The entries of a list whose keys are made from numbers. -/
theorem lookup_keyed {α : Type} {key : Nat → Text} (hkey : key.Injective) (f : Nat → α)
    (count n : Nat) :
    ((List.range count).map fun i => (key i, f i)).lookup (key n) =
      if n < count then some (f n) else none := by
  induction count with
  | zero => rfl
  | succ count ih =>
    rw [List.range_succ, List.map_append, List.lookup_append, ih]
    by_cases hlt : n < count
    · simp [hlt, Nat.lt_succ_of_lt hlt]
    · by_cases heq : n = count
      · simp [heq]
      · have hne : key n ≠ key count := fun h => heq (hkey h)
        have hnlt : ¬ n < count + 1 := by omega
        simp [hlt, hnlt, List.lookup_cons, beq_eq_false_iff_ne.mpr hne]

/-- A method has the head of a static one. -/
def Method.HasStaticHead (m : Method) : Prop :=
  ∃ name modifiers types owner, isStatic modifiers = true ∧
    m = { Method.ofHead name modifiers types owner with lines := m.lines }

section Static

variable {m : Method}

/-- A static method has its parameters in its first slots. -/
theorem Method.HasStaticHead.slotName_eq (h : m.HasStaticHead) (n : Nat) :
    m.slotName n = if n < m.params.length then paramName n else "local" ++ Text.ofNat n := by
  obtain ⟨name, modifiers, types, owner, hstatic, hm⟩ := h
  rw [hm]
  simp only [Method.slotName, Method.slot, Method.ofHead, hstatic, if_true, Nat.add_zero,
    List.nil_append, lookup_keyed ofNat_injective, List.length_map, List.length_range]
  split <;> rfl

/-- The parameters of a static method are named after their slots. -/
theorem Method.HasStaticHead.params_eq (h : m.HasStaticHead) :
    m.params = (List.range m.params.length).map m.slotName := by
  have hnames : (List.range m.params.length).map m.slotName =
      (List.range m.params.length).map paramName := by
    apply List.map_congr_left
    intro n hn
    rw [h.slotName_eq, if_pos (List.mem_range.mp hn)]
  obtain ⟨name, modifiers, types, owner, -, hm⟩ := h
  rw [hnames, hm]
  simp only [Method.ofHead, List.length_map, List.length_range]

/-- The slots of a static method have names of their own. -/
theorem Method.HasStaticHead.naming (h : m.HasStaticHead) : Naming m.slotName fun _ => True where
  injective := by
    intro i j _ _ heq
    rw [h.slotName_eq, h.slotName_eq] at heq
    split at heq <;> split at heq
    · exact ofNat_injective (List.append_cancel_left heq)
    · exact absurd (List.cons.inj heq).1 (by decide)
    · exact absurd (List.cons.inj heq).1 (by decide)
    · exact ofNat_injective (List.append_cancel_left heq)
  notLiteral := by
    intro i _
    rw [h.slotName_eq]
    split
    all_goals exact integer?_eq_none_of_head (by decide) (by decide) (by decide) _
  notTemp := by
    intro i _ n
    rw [h.slotName_eq]
    split
    all_goals exact fun heq => absurd (List.cons.inj heq).1 (by decide)

/-- A static method without jumps that never assigns to a local with a pending name is lowered to
code that returns the same integer and leaves the same locals, whatever is in the locals first. -/
theorem value_lower_eq (hhead : m.HasStaticHead) {code : List Line} {last : Line}
    (hlines : m.lines = code ++ [last]) {ops : List StackOp}
    (hcode : List.Forall₂ Denotes code ops) (hlast : last.op = "ireturn".toList)
    (hspares : StackOp.SparesAll m.slotName {} (ops ++ [.leave true])) (answers : Answers)
    {values : Text → Int} {locals : Nat → Int} (hstart : ∀ n, values (m.slotName n) = locals n)
    {final : StackMachine}
    (hrun : (StackMachine.start locals).run answers (ops ++ [.leave true]) = some final) :
    (lower m).params = (List.range (lower m).params.length).map m.slotName ∧
      ∃ x v, (Execution.start values).run answers (lower m).instructions = some x ∧
        final.value = some v ∧ x.value = some v ∧
        ∀ n, x.values (m.slotName n) = final.locals n := by
  refine ⟨hhead.params_eq, ?_⟩
  have hlower : (lower m).instructions =
      (StackOp.lowerAll m.slotName {} (ops ++ [.leave true])).code := by
    simp only [lower, hlines, List.map_append, List.foldl_append, foldl_run_ofLine m hcode,
      List.map_cons, List.map_nil, List.foldl_cons, List.foldl_nil, ofLine_return hlast,
      StackOp.lowerAll]
    rfl
  obtain ⟨v, hv⟩ := StackMachine.value_run_leave (isLeave_of_denotes hcode) hrun
  have hwithin : ∀ op ∈ ops ++ [.leave true], op.Within fun _ => True := by
    intro op _
    cases op <;> trivial
  have hend : ((StackMachine.start locals).run answers (ops ++ [.leave true])).bind
      (StackMachine.finish answers false) = some final := by
    rw [hrun]
    rfl
  obtain ⟨x, h⟩ := agrees_of_run hhead.naming hwithin hspares (fun n _ => hstart n) hend
  refine ⟨x, v, ?_, hv, ?_, fun n => h.locals n trivial⟩
  · rw [hlower]
    exact h.code
  · rw [← hv, Execution.value, StackMachine.value, h.returned]

/-- Two parameters are added, the sum is kept and multiplied by a changed parameter. -/
def sumTimes : Method :=
  { Method.ofHead "sumTimes" "public static " "int, int" "Main" with
    lines :=
      [⟨"0", "iload_0", "", ""⟩, ⟨"1", "iload_1", "", ""⟩, ⟨"2", "iadd", "", ""⟩,
        ⟨"3", "dup", "", ""⟩, ⟨"4", "istore", "2", ""⟩, ⟨"6", "iinc", "0, -3", ""⟩,
        ⟨"9", "iload_0", "", ""⟩, ⟨"10", "imul", "", ""⟩, ⟨"11", "ireturn", "", ""⟩] }

/-- The operations before the return. -/
def sumTimesOps : List StackOp :=
  [.get 0, .get 1, .arithmetic .add, .dup, .set 2, .increment 0 (Text.ofInt (-3)), .get 0,
    .arithmetic .mul]

/-- The values that it starts with. -/
def sumTimesStart (t : Text) : Int := if t = paramName 0 then 10 else 4

theorem value_lower_eq_sumTimes :
    sumTimes.HasStaticHead ∧
    List.Forall₂ Denotes sumTimes.lines.dropLast sumTimesOps ∧
    StackOp.SparesAll sumTimes.slotName {} (sumTimesOps ++ [.leave true]) ∧
    ∃ x, (Execution.start sumTimesStart).run (fun _ _ => 0) (lower sumTimes).instructions = some x ∧
      x.value = some 98 ∧ x.values (sumTimes.slotName 0) = 7 ∧
      x.values (sumTimes.slotName 2) = 14 := by
  have hhead : sumTimes.HasStaticHead := ⟨_, _, _, _, by decide, rfl⟩
  have hcode : List.Forall₂ Denotes sumTimes.lines.dropLast sumTimesOps :=
    .cons (.loadShort (by decide) (by decide)) <|
    .cons (.loadShort (by decide) (by decide)) <|
    .cons (.add rfl) <|
    .cons (.dup rfl) <|
    .cons (.store rfl (by decide)) <|
    .cons (.increment rfl (by decide)) <|
    .cons (.loadShort (by decide) (by decide)) <|
    .cons (.mul rfl) .nil
  have hspares : StackOp.SparesAll sumTimes.slotName {} (sumTimesOps ++ [.leave true]) := by
    decide
  have hstart : ∀ n, sumTimesStart (sumTimes.slotName n) = if n = 0 then 10 else 4 := by
    intro n
    have hzero : sumTimes.slotName 0 = paramName 0 := by decide
    have hiff : sumTimes.slotName n = paramName 0 ↔ n = 0 :=
      ⟨fun h => hhead.naming.injective trivial trivial (h.trans hzero.symm), fun h => h ▸ hzero⟩
    simp only [sumTimesStart, hiff]
  obtain ⟨final, hrun, hvalue, hzero, htwo⟩ : ∃ final : StackMachine,
      (StackMachine.start fun n => if n = 0 then 10 else 4).run (fun _ _ => 0)
        (sumTimesOps ++ [.leave true]) = some final ∧
      final.value = some 98 ∧ final.locals 0 = 7 ∧ final.locals 2 = 14 :=
    ⟨_, rfl, rfl, rfl, rfl⟩
  have hlines : sumTimes.lines = sumTimes.lines.dropLast ++ [⟨"11", "ireturn", "", ""⟩] := rfl
  obtain ⟨-, x, v, hx, hv, hxv, hlocals⟩ :=
    value_lower_eq hhead hlines hcode rfl hspares (fun _ _ => 0) hstart hrun
  refine ⟨hhead, hcode, hspares, x, hx, ?_, ?_, ?_⟩
  · rw [hxv, ← hv, hvalue]
  · rw [hlocals, hzero]
  · rw [hlocals, htwo]

/-- Reads a parameter, increments it and returns what was read. -/
def postIncrement : Method :=
  { Method.ofHead "next" "static " "int" "Main" with
    lines :=
      [⟨"0", "iload_0", "", ""⟩, ⟨"1", "iinc", "0, 1", ""⟩, ⟨"4", "ireturn", "", ""⟩] }

/-- The value that was read is lost. -/
theorem value_lower_postIncrement :
    read "class Main {
  static int next(int);
    Code:
       0: iload_0
       1: iinc          0, 1
       4: ireturn
}".toList =
      [lower postIncrement] ∧
    postIncrement.HasStaticHead ∧
    (∃ code last, postIncrement.lines = code ++ [last] ∧
      List.Forall₂ Denotes code [.get 0, .increment 0 (Text.ofInt 1)] ∧
      last.op = "ireturn".toList) ∧
    ∃ x final, (Execution.start fun _ => 5).run (fun _ _ => 0) (lower postIncrement).instructions =
        some x ∧
      (StackMachine.start fun _ => 5).run (fun _ _ => 0)
        [.get 0, .increment 0 (Text.ofInt 1), .leave true] = some final ∧
      final.value = some 5 ∧ x.value = some 6 := by
  have hlower : (lower postIncrement).instructions =
      [⟨.add, ["arg0", "arg0", "1"], [], []⟩, ⟨.return_, ["arg0"], [], []⟩] := by decide +kernel
  refine ⟨Text.apply_toList_eq (f := read) rfl (by decide +kernel),
    ⟨_, _, _, _, by decide, rfl⟩,
    ⟨postIncrement.lines.dropLast, ⟨"4", "ireturn", "", ""⟩, rfl, ?_, rfl⟩, ?_⟩
  · exact .cons (.loadShort (by decide) (by decide))
      (.cons (.increment (by decide) (by decide)) .nil)
  · rw [hlower]
    exact ⟨_, _, rfl, rfl, rfl, rfl⟩

end Static

end HostScript.Listing.Jvm
