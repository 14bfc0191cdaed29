import HostScript.Listing.Wat
import HostScript.Proofs.Listing.Declared
import HostScript.Proofs.Listing.Folded
import HostScript.Proofs.Outcome

/-!
# What lowering gives

Lowering a function emits an instruction for every step that leaves a trace, and it fails only where
a list stands in the place of a name or of an operator.
-/

/-!
## What lowering emits

A step of a function emits at most one instruction. It makes the next temporary name if the step
leaves a value of its own, and it is unknown if the step is not understood. So the names that the
code of a function makes are the first temporary names in their order, and its unknown instructions
are the steps that were not understood.
-/

namespace HostScript.Listing.Wat

/-- The name that an instruction makes for its value, if it makes one: arithmetic does, and so does
a call that leaves a value. -/
def made? (i : Instruction) : Option Text :=
  match i.opcode with
  | .add | .sub | .mul | .div => i.args.head?
  | .call => if i.result = [] then none else some i.result
  | _ => none

/-- The names that code makes for values, in order. -/
def madeNames (code : List Instruction) : List Text := code.filterMap made?

/-- The unknown instructions of code, in order. -/
def unknowns (code : List Instruction) : List Instruction := code.filter (·.opcode == .unknown)

/-- Between two moments of a symbolic run code is emitted that makes the temporary names between
them and has the given unknown instructions. -/
def Emits (unknown : List Instruction) (s s' : Symbolic) : Prop :=
  ∃ new made, s'.code = s.code ++ new ∧ unknowns new = unknown ∧ s'.temps = s.temps + made ∧
    madeNames new = (List.range' s.temps made).map Symbolic.tempName

section Emits

variable {s s' s'' : Symbolic} {u v : List Instruction}

/-- Nothing is emitted where only operands are moved. -/
theorem emits_nil (hcode : s'.code = s.code) (htemps : s'.temps = s.temps) : Emits [] s s' :=
  ⟨[], 0, by simpa using hcode, rfl, htemps, rfl⟩

theorem Emits.trans (h : Emits u s s') (h' : Emits v s' s'') : Emits (u ++ v) s s'' := by
  obtain ⟨new, made, hcode, hunknown, htemps, hmade⟩ := h
  obtain ⟨new', made', hcode', hunknown', htemps', hmade'⟩ := h'
  refine ⟨new ++ new', made + made', ?_, ?_, ?_, ?_⟩
  · rw [hcode', hcode, List.append_assoc]
  · rw [← hunknown, ← hunknown', unknowns, List.filter_append]
    rfl
  · rw [htemps', htemps, Nat.add_assoc]
  · rw [htemps] at hmade'
    have hboth : madeNames (new ++ new') = madeNames new ++ madeNames new' :=
      List.filterMap_append ..
    rw [hboth, hmade, hmade', ← List.map_append, List.range'_append_1]

theorem emits_store (args : List Text) : Emits [] s (s.emit .store args) :=
  ⟨_, 0, rfl, rfl, rfl, rfl⟩

theorem emits_return (args : List Text) : Emits [] s (s.emit .return_ args) :=
  ⟨_, 0, rfl, rfl, rfl, rfl⟩

theorem emits_emitUnknown (raw : Text) : Emits [.unknown raw] s (s.emitUnknown raw) :=
  ⟨[.unknown raw], 0, rfl, rfl, rfl, rfl⟩

theorem emits_pop : Emits [] s s.pop.2 := by
  unfold Symbolic.pop
  split <;> exact emits_nil rfl rfl

theorem emits_popMany (count : Nat) : Emits [] s (s.popMany count).2 := by
  induction count generalizing s with
  | zero => exact emits_nil rfl rfl
  | succ count ih => exact emits_pop.trans ih

theorem emits_arithmetic {opcode : Opcode} (h : opcode ∈ [.add, .sub, .mul, .div]) :
    Emits [] s (s.arithmetic opcode) := by
  refine (emits_pop.trans emits_pop).trans (v := []) ⟨_, 1, rfl, ?_, rfl, ?_⟩ <;>
    simp only [List.mem_cons, List.not_mem_nil, or_false] at h <;>
    rcases h with rfl | rfl | rfl | rfl <;> rfl

theorem emits_call (callee : Text) (args : List Text) (returns : Bool) :
    Emits [] s (s.call callee args returns) := by
  cases returns with
  | true => exact ⟨_, 1, rfl, rfl, rfl, rfl⟩
  | false => exact ⟨_, 0, rfl, rfl, rfl, rfl⟩

end Emits

/-- An operator is one of the four of arithmetic. -/
theorem arithmetic_mem (n : Text) : Opcode.arithmetic n ∈ [Opcode.add, .sub, .mul, .div] := by
  unfold Opcode.arithmetic
  cases h : [Opcode.add, .sub, .mul].find? (·.name.toList == n) with
  | none => decide
  | some o =>
    have hsub : [Opcode.add, .sub, .mul] ⊆ [Opcode.add, .sub, .mul, .div] := by decide
    exact hsub (List.mem_of_find?_eq_some h)

/-- Arithmetic is read with one of its operators. -/
theorem mem_of_ofStep_eq {head : Text} {immediates : List Text} {opcode : Opcode}
    (h : Op.ofStep head immediates = .arithmetic opcode) :
    opcode ∈ [Opcode.add, .sub, .mul, .div] := by
  have hplain : Op.ofStep.plain head immediates ≠ .arithmetic opcode := by
    unfold Op.ofStep.plain
    repeat' split
    all_goals nofun
  unfold Op.ofStep at h
  repeat' split at h
  · obtain rfl := Op.arithmetic.inj h
    exact arithmetic_mem _
  all_goals first | exact absurd h hplain | cases h

/-- The instruction that stays of a step that is not understood: its words. -/
def notUnderstood? (step : Step) : Option Instruction :=
  match step.head with
  | .atom head =>
    match Op.ofStep head step.immediates with
    | .other raw => some (.unknown raw)
    | _ => none
  | .list _ => none

section Run

variable {f : Func} {known : List (Text × Signature)} {s s' : Symbolic}

/-- What one step emits: nothing unknown, unless it is not understood. -/
theorem emits_runStep {step : Step} (h : runStep f known s step = .ok s') :
    Emits (notUnderstood? step).toList s s' := by
  obtain ⟨head | items, immediates⟩ := step
  · obtain rfl := Except.ok.inj h
    change Emits (Option.toList (match Op.ofStep head immediates with
      | .other raw => some (.unknown raw)
      | _ => none)) s (run f known s (Op.ofStep head immediates))
    cases hop : Op.ofStep head immediates with
    | arithmetic opcode => exact emits_arithmetic (mem_of_ofStep_eq hop)
    | const token | get token => exact emits_nil rfl rfl
    | set token => exact emits_pop.trans (emits_store _)
    | tee token => exact (emits_pop.trans (emits_store _)).trans (emits_nil rfl rfl)
    | call token => exact (emits_popMany _).trans (emits_call _ _ _)
    | return_ =>
      simp only [run]
      split
      · exact emits_pop.trans (emits_return _)
      · exact emits_return _
    | drop => exact emits_pop
    | nop => exact emits_nil rfl rfl
    | other raw => exact emits_emitUnknown raw
  · cases h

/-- What steps in order emit. -/
theorem emits_foldlM {steps : List Step} (h : steps.foldlM (runStep f known) s = .ok s') :
    Emits (steps.filterMap notUnderstood?) s s' := by
  induction steps generalizing s with
  | nil =>
    obtain rfl := Except.ok.inj h
    exact emits_nil rfl rfl
  | cons step steps ih =>
    rw [List.foldlM_cons] at h
    obtain ⟨s₁, hfirst, hrest⟩ := Outcome.bind_eq_ok_iff.mp h
    have hboth := (emits_runStep hfirst).trans (ih hrest)
    rw [List.filterMap_cons]
    cases hstep : notUnderstood? step with
    | none => simpa [hstep] using hboth
    | some i => simpa [hstep] using hboth

/-- The code of a function makes the first temporary names in their order, and its unknown
instructions are the steps that were not understood. -/
theorem emitted_of_lower {tags : List Text} {r : Routine} (h : lower known tags f = .ok r) :
    madeNames r.instructions =
        (List.range (madeNames r.instructions).length).map Symbolic.tempName ∧
      unknowns r.instructions = (flatten f.body).filterMap notUnderstood? := by
  obtain ⟨s, hsteps, hr⟩ := Outcome.bind_eq_ok_iff.mp h
  obtain ⟨t, hresult, hlast⟩ : ∃ t, Emits [] s t ∧ r.instructions = t.code := by
    rw [← Except.ok.inj hr]
    dsimp only
    split
    · exact ⟨_, emits_return _, rfl⟩
    · exact ⟨_, emits_nil rfl rfl, rfl⟩
  obtain ⟨new, made, hcode, hunknown, -, hmade⟩ := (emits_foldlM hsteps).trans hresult
  have hnew : r.instructions = new := hlast.trans hcode
  rw [hnew, hmade, hunknown, List.append_nil, List.length_map, List.length_range',
    List.range_eq_range']
  exact ⟨rfl, rfl⟩

end Run

end HostScript.Listing.Wat

/-!
## Texts that cannot be lowered

Lowering takes any forest as it is but for two places where it needs an atom: the first entry of a
declaration of parameters or locals, and the operator of a folded instruction. A list in one of
these places fails the whole text, and nothing else does. What is well placed but not understood
stays as an unknown instruction.
-/

namespace HostScript.Listing.Wat

/-- A declaration of parameters or locals with a list where their name or type belongs. -/
def Misdeclares (e : Expr) : Prop :=
  ∃ w ∈ ["param", "local"], ∃ inner rest, e = .list (.atom (w : String).toList :: .list inner :: rest)

/-- A folded instruction with a list where its operator belongs, or with such an operand. -/
inductive LacksOperator : Expr → Prop where
  | head {inner args : List Expr} : LacksOperator (.list (.list inner :: args))
  | operand {head e : Expr} {args : List Expr} (lacks : LacksOperator e) (operand : e ∈ args) :
    LacksOperator (.list (head :: args))

/-- Whether an item of a function declares something of it. -/
def isDeclaration : Expr → Bool
  | .list (head :: _) => declarationWords.any head.isAtom
  | _ => false

/-- The items of a function behind its name. -/
def unnamed : List Expr → List Expr
  | .atom ('$' :: _) :: rest => rest
  | items => items

/-- The instructions among the items of a function. -/
def instructions (items : List Expr) : List Expr := (unnamed items).filter (!isDeclaration ·)

/-- A step without an operator. -/
def Step.LacksOperator (s : Step) : Prop := ∃ items, s.head = .list items

/-! ### Instructions without an operator -/

mutual

theorem exists_flattenNode_iff : ∀ items : List Expr,
    (∃ s ∈ flattenNode items, s.LacksOperator) ↔ LacksOperator (.list items)
  | [] => by
    simp only [flattenNode, List.not_mem_nil, false_and, exists_false, false_iff]
    nofun
  | head :: args => by
    have hargs := exists_flattenOperands_iff args
    have hhead (ts : List Text) :
        Step.LacksOperator ⟨head, ts⟩ ↔ ∃ inner, head = .list inner := Iff.rfl
    simp only [flattenNode, List.mem_append, List.mem_singleton, or_and_right, exists_or, hargs,
      exists_eq_left, hhead]
    constructor
    · rintro (⟨e, he, hlacks⟩ | ⟨inner, rfl⟩)
      · exact .operand hlacks he
      · exact .head
    · rintro (_ | ⟨hlacks, he⟩)
      · exact Or.inr ⟨_, rfl⟩
      · exact Or.inl ⟨_, he, hlacks⟩

theorem exists_flattenOperands_iff : ∀ args : List Expr,
    (∃ s ∈ flattenOperands args, s.LacksOperator) ↔ ∃ e ∈ args, LacksOperator e
  | [] => by simp [flattenOperands]
  | .list items :: rest => by
    have hitems := exists_flattenNode_iff items
    have hrest := exists_flattenOperands_iff rest
    simp only [flattenOperands, List.mem_append, or_and_right, exists_or, hitems, hrest,
      List.exists_mem_cons_iff]
  | .atom t :: rest => by
    have hrest := exists_flattenOperands_iff rest
    have hatom : ¬ LacksOperator (.atom t) := nofun
    simp only [flattenOperands, hrest, List.exists_mem_cons_iff, hatom, false_or]

end

/-- A sequence of instructions has a step without an operator exactly if one of them lacks one. -/
theorem exists_flatten_iff (items : List Expr) :
    (∃ s ∈ flatten items, s.LacksOperator) ↔ ∃ e ∈ items, LacksOperator e := by
  suffices h : ∀ pending : Option Step, (∀ s ∈ pending, ¬ s.LacksOperator) →
      ((∃ s ∈ flattenFrom pending items, s.LacksOperator) ↔ ∃ e ∈ items, LacksOperator e) from
    h none nofun
  have hatom (t : Text) (ts : List Text) : ¬ Step.LacksOperator ⟨.atom t, ts⟩ := nofun
  have hnone (t : Text) : ¬ LacksOperator (.atom t) := nofun
  intro pending hpending
  fun_induction flattenFrom pending items with
  | case1 pending =>
    cases pending with
    | none => simp
    | some s => simpa using hpending s rfl
  | case2 pending items rest ih =>
    have hitems := exists_flattenNode_iff items
    have hfirst : ¬ ∃ s ∈ pending.toList, s.LacksOperator := by
      rintro ⟨s, hs, hlacks⟩
      exact hpending s (by simpa using hs) hlacks
    have hrest := ih nofun
    simp only [List.mem_append, or_and_right, exists_or, hitems, hrest, hfirst, false_or,
      List.exists_mem_cons_iff]
  | case3 t rest step himmediate ih =>
    have hstep : ∀ s ∈ some (Step.mk step.head (step.immediates ++ [t])), ¬ s.LacksOperator := by
      rintro s ⟨⟩
      exact hpending step rfl
    rw [ih hstep]
    simp only [List.exists_mem_cons_iff, hnone, false_or]
  | case4 t rest step himmediate ih =>
    rw [List.exists_mem_cons_iff, ih (by rintro s ⟨⟩; exact hatom t [])]
    simp only [hpending step rfl, List.exists_mem_cons_iff, hnone, false_or]
  | case5 t rest ih =>
    rw [ih (by rintro s ⟨⟩; exact hatom t [])]
    simp only [List.exists_mem_cons_iff, hnone, false_or]

/-! ### When lowering fails -/

section Fails

variable {α β : Type} {fault : Fault}

/-- A computation fails with a fault in one case and has a result in any other. -/
def FailsIn (case : Prop) (fault : Fault) (x : Outcome α) : Prop :=
  (case ∧ x = .error fault) ∨ (¬ case ∧ ∃ a, x = .ok a)

/-- A fold fails if one of its members does, whatever it has come to. -/
theorem failsIn_foldlM {bad : α → Prop} {f : β → α → Outcome β}
    (h : ∀ b x, FailsIn (bad x) fault (f b x)) (xs : List α) (b : β) :
    FailsIn (∃ x ∈ xs, bad x) fault (xs.foldlM f b) := by
  induction xs generalizing b with
  | nil => exact Or.inr ⟨by simp, b, rfl⟩
  | cons x xs ih =>
    rw [List.foldlM_cons, List.exists_mem_cons_iff]
    rcases h b x with ⟨hbad, hx⟩ | ⟨hgood, b', hx⟩
    · exact Or.inl ⟨Or.inl hbad, by rw [hx]; rfl⟩
    · rw [hx]
      rcases ih b' with ⟨hrest, hfail⟩ | ⟨hrest, c, hc⟩
      · exact Or.inl ⟨Or.inr hrest, hfail⟩
      · exact Or.inr ⟨not_or.mpr ⟨hgood, hrest⟩, c, hc⟩

/-- So does a computation on each member. -/
theorem failsIn_mapM {bad : α → Prop} {f : α → Outcome β} {xs : List α}
    (h : ∀ x ∈ xs, FailsIn (bad x) fault (f x)) :
    FailsIn (∃ x ∈ xs, bad x) fault (xs.mapM f) := by
  induction xs with
  | nil => exact Or.inr ⟨by simp, [], rfl⟩
  | cons x xs ih =>
    rw [List.forall_mem_cons] at h
    rw [List.mapM_cons, List.exists_mem_cons_iff]
    rcases h.1 with ⟨hbad, hx⟩ | ⟨hgood, y, hx⟩
    · exact Or.inl ⟨Or.inl hbad, by rw [hx]; rfl⟩
    · rw [hx]
      rcases ih h.2 with ⟨hrest, hfail⟩ | ⟨hrest, ys, hys⟩
      · exact Or.inl ⟨Or.inr hrest, by simp only [hfail]; rfl⟩
      · exact Or.inr ⟨not_or.mpr ⟨hgood, hrest⟩, y :: ys, by simp only [hys]; rfl⟩

end Fails

/-- Declaring the entries of a declaration fails if the first one is a list. -/
theorem failsIn_declareEntries (f : Func) (isParam : Bool) (entries : List Expr) :
    FailsIn (∃ inner rest, entries = .list inner :: rest) .misplaced
      (f.declareEntries isParam entries) := by
  unfold Func.declareEntries
  split
  · refine Or.inr ⟨?_, _, rfl⟩
    rintro ⟨inner, rest, h⟩
    cases h
  · exact Or.inl ⟨⟨_, _, rfl⟩, rfl⟩
  · have hatom {t : Text} {rest : List Expr} :
        ¬ ∃ inner rest', Expr.atom t :: rest = .list inner :: rest' := by
      rintro ⟨inner, rest', h⟩
      cases h
    split <;> exact Or.inr ⟨hatom, _, rfl⟩

theorem isAtom_iff {e : Expr} {w : String} : e.isAtom w = true ↔ e = .atom w.toList := by
  cases e with
  | atom t => simp [Expr.isAtom]
  | list items => simp [Expr.isAtom]

/-- A declaration of parameters or locals is misplaced by what stands behind its head. -/
theorem misdeclares_iff {head : Expr} {entries : List Expr} :
    Misdeclares (.list (head :: entries)) ↔
      (head.isAtom "param" || head.isAtom "local") = true ∧
        ∃ inner rest, entries = .list inner :: rest := by
  simp only [Misdeclares, List.mem_cons, List.not_mem_nil, or_false, exists_eq_or_imp,
    exists_eq_left, Bool.or_eq_true, isAtom_iff, Expr.list.injEq, List.cons.injEq]
  constructor
  · rintro (⟨inner, rest, rfl, rfl⟩ | ⟨inner, rest, rfl, rfl⟩)
    · exact ⟨Or.inl rfl, inner, rest, rfl⟩
    · exact ⟨Or.inr rfl, inner, rest, rfl⟩
  · rintro ⟨rfl | rfl, inner, rest, rfl⟩
    · exact Or.inl ⟨inner, rest, rfl, rfl⟩
    · exact Or.inr ⟨inner, rest, rfl, rfl⟩

/-- What an item of a function does: it fails if it is a declaration with a list in the wrong
place, and it goes to the body if it declares nothing. -/
theorem failsIn_item (f : Func) (e : Expr) : FailsIn (Misdeclares e) .misplaced (f.item e) := by
  unfold Func.item
  split
  · rename_i head entries
    rw [misdeclares_iff]
    split
    · rename_i hdeclares
      rw [hdeclares]
      simpa using failsIn_declareEntries f (head.isAtom "param") entries
    · rename_i hother
      have hgood : ¬ ((head.isAtom "param" || head.isAtom "local") = true ∧
          ∃ inner rest, entries = Expr.list inner :: rest) := fun h => hother h.1
      split
      · exact Or.inr ⟨hgood, _, rfl⟩
      · split <;> exact Or.inr ⟨hgood, _, rfl⟩
  · rename_i hshape
    refine Or.inr ⟨?_, _, rfl⟩
    rintro ⟨w, -, inner, rest, rfl⟩
    exact hshape _ _ rfl

/-- What an item adds to the body of its function: itself, if it declares nothing. -/
theorem body_item {f g : Func} {e : Expr} (h : f.item e = .ok g) :
    g.body = f.body ++ if isDeclaration e then [] else [e] := by
  have hunnamed (isParam : Bool) (entries : List Expr) (f : Func) :
      (f.declareUnnamed isParam entries).body = f.body := by
    induction entries generalizing f with
    | nil => rfl
    | cons _ entries ih => exact ih _
  unfold Func.item at h
  split at h
  · rename_i head entries
    have hwords : isDeclaration (.list (head :: entries)) =
        ((head.isAtom "param" || head.isAtom "local") || (head.isAtom "result" ||
          (head.isAtom "export" || head.isAtom "type" || head.isAtom "import"))) := by
      simp [isDeclaration, declarationWords, Bool.or_assoc]
    rw [hwords]
    split at h
    · rename_i hlocals
      rw [hlocals, Bool.true_or, if_pos rfl, List.append_nil]
      unfold Func.declareEntries at h
      split at h
      · obtain rfl := Except.ok.inj h
        rfl
      · cases h
      · split at h
        · obtain rfl := Except.ok.inj h
          rfl
        · obtain rfl := Except.ok.inj h
          exact hunnamed _ _ f
    · rename_i hlocals
      rw [Bool.not_eq_true] at hlocals
      rw [hlocals, Bool.false_or]
      split at h
      · rename_i hresult
        obtain rfl := Except.ok.inj h
        rw [hresult, Bool.true_or, if_pos rfl, List.append_nil]
      · rename_i hresult
        rw [Bool.not_eq_true] at hresult
        rw [hresult, Bool.false_or]
        split at h
        · rename_i hlink
          obtain rfl := Except.ok.inj h
          rw [hlink, if_pos rfl, List.append_nil]
        · rename_i hlink
          obtain rfl := Except.ok.inj h
          rw [if_neg hlink]
  · rename_i hshape
    obtain rfl := Except.ok.inj h
    have hnone : isDeclaration e = false := by
      unfold isDeclaration
      split
      · exact absurd rfl (hshape _ _)
      · rfl
    rw [hnone]
    rfl

/-- What items in order add to the body. -/
theorem body_items {f g : Func} {items : List Expr} (h : items.foldlM Func.item f = .ok g) :
    g.body = f.body ++ items.filter (!isDeclaration ·) := by
  induction items generalizing f with
  | nil =>
    obtain rfl := Except.ok.inj h
    simp
  | cons e items ih =>
    rw [List.foldlM_cons] at h
    obtain ⟨f₁, hfirst, hrest⟩ := Outcome.bind_eq_ok_iff.mp h
    rw [ih hrest, body_item hfirst, List.filter_cons]
    cases isDeclaration e <;> simp

/-- A function is read from the items behind its name. -/
theorem exists_ofItems_eq (items : List Expr) (index : Nat) :
    ∃ n, Func.ofItems items index = (unnamed items).foldlM Func.item { name := n } := by
  unfold Func.ofItems
  split
  · rename_i t rest
    split
    · rename_i n hn
      obtain ⟨m, rfl, -⟩ := dollarName?_eq_some_iff.mp hn
      exact ⟨n, rfl⟩
    · rename_i hn
      have hitems : unnamed (.atom t :: rest) = .atom t :: rest := by
        unfold unnamed
        split
        · rename_i heq
          obtain rfl := Expr.atom.inj (List.cons.inj heq).1
          cases hn
        · rfl
      exact ⟨_, by rw [hitems]⟩
  · rename_i hshape
    have hitems : unnamed items = items := by
      unfold unnamed
      split
      · exact absurd rfl (hshape _ _)
      · rfl
    exact ⟨_, by rw [hitems]⟩

/-- The name of a function declares nothing. -/
theorem exists_unnamed_misdeclares_iff (items : List Expr) :
    (∃ e ∈ unnamed items, Misdeclares e) ↔ ∃ e ∈ items, Misdeclares e := by
  unfold unnamed
  split
  · rename_i t rest
    have hname : ¬ Misdeclares (.atom ('$' :: t)) := by
      rintro ⟨_, _, _, _, h⟩
      cases h
    rw [List.exists_mem_cons_iff, or_iff_right hname]
  · rfl

/-- A function cannot be read if one of its declarations has a list in the wrong place. -/
theorem failsIn_ofItems (items : List Expr) (index : Nat) :
    FailsIn (∃ e ∈ items, Misdeclares e) .misplaced (Func.ofItems items index) := by
  obtain ⟨n, hn⟩ := exists_ofItems_eq items index
  rw [hn, ← exists_unnamed_misdeclares_iff]
  exact failsIn_foldlM failsIn_item _ _

/-- The body of a function is what it does not declare. -/
theorem body_ofItems {items : List Expr} {index : Nat} {f : Func}
    (h : Func.ofItems items index = .ok f) : f.body = instructions items := by
  obtain ⟨n, hn⟩ := exists_ofItems_eq items index
  exact body_items (hn.symm.trans h)

/-- Functions cannot be read if one of them cannot. -/
theorem failsIn_readFuncs (index : Nat) (sources : List (List Expr)) :
    FailsIn (∃ items ∈ sources, ∃ e ∈ items, Misdeclares e) .misplaced
      (readFuncs index sources) := by
  induction sources generalizing index with
  | nil => exact Or.inr ⟨by simp, [], rfl⟩
  | cons items sources ih =>
    rw [readFuncs, List.exists_mem_cons_iff]
    rcases failsIn_ofItems items index with ⟨hbad, hf⟩ | ⟨hgood, f, hf⟩
    · exact Or.inl ⟨Or.inl hbad, by rw [hf]; rfl⟩
    · rw [hf]
      rcases ih (index + 1) with ⟨hrest, hfail⟩ | ⟨hrest, fs, hfs⟩
      · exact Or.inl ⟨Or.inr hrest, by simp only [hfail]; rfl⟩
      · exact Or.inr ⟨not_or.mpr ⟨hgood, hrest⟩, f :: fs, by simp only [hfs]; rfl⟩

theorem bodies_readFuncs {index : Nat} {sources : List (List Expr)} {fs : List Func}
    (h : readFuncs index sources = .ok fs) :
    List.Forall₂ (fun items f => f.body = instructions items) sources fs := by
  induction sources generalizing index fs with
  | nil =>
    obtain rfl := Except.ok.inj h
    exact .nil
  | cons items sources ih =>
    obtain ⟨f, hf, hrest⟩ := Outcome.bind_eq_ok_iff.mp h
    obtain ⟨gs, hgs, hfs⟩ := Outcome.bind_eq_ok_iff.mp hrest
    obtain rfl := Except.ok.inj hfs
    exact .cons (body_ofItems hf) (ih hgs)

/-- What holds of some instruction of a function holds of some in its body. -/
theorem exists_body_iff {sources : List (List Expr)} {fs : List Func}
    (h : List.Forall₂ (fun items f => f.body = instructions items) sources fs) (p : Expr → Prop) :
    (∃ f ∈ fs, ∃ e ∈ f.body, p e) ↔ ∃ items ∈ sources, ∃ e ∈ instructions items, p e := by
  induction h with
  | nil => simp
  | cons hbody _ ih => rw [List.exists_mem_cons_iff, List.exists_mem_cons_iff, ih, hbody]

/-- A function cannot be lowered if an instruction lacks its operator. -/
theorem failsIn_lower (known : List (Text × Signature)) (tags : List Text) (f : Func) :
    FailsIn (∃ e ∈ f.body, LacksOperator e) .wrongShape (lower known tags f) := by
  have hstep (s : Symbolic) (step : Step) :
      FailsIn step.LacksOperator .wrongShape (runStep f known s step) := by
    unfold runStep
    split
    · rename_i head hhead
      refine Or.inr ⟨?_, _, rfl⟩
      rintro ⟨items, hitems⟩
      rw [hhead] at hitems
      cases hitems
    · rename_i items hhead
      exact Or.inl ⟨⟨items, hhead⟩, rfl⟩
  rw [← exists_flatten_iff, lower]
  rcases failsIn_foldlM hstep (flatten f.body) {} with ⟨hbad, hfail⟩ | ⟨hgood, s, hs⟩
  · exact Or.inl ⟨hbad, by rw [hfail]; rfl⟩
  · rw [hs]
    exact Or.inr ⟨hgood, _, rfl⟩

/-- The instructions of lowered functions that are unknown are the steps that are not understood. -/
theorem unknowns_of_mapM_lower {known : List (Text × Signature)} {tags : List Text}
    {sources : List (List Expr)} {fs : List Func} {rs : List Routine}
    (hbodies : List.Forall₂ (fun items f => f.body = instructions items) sources fs)
    (h : fs.mapM (lower known tags) = .ok rs) :
    List.Forall₂ (fun items r => unknowns r.instructions =
      (flatten (instructions items)).filterMap notUnderstood?) sources rs := by
  induction hbodies generalizing rs with
  | nil =>
    obtain rfl := Except.ok.inj h
    exact .nil
  | cons hbody _ ih =>
    rw [List.mapM_cons] at h
    obtain ⟨r, hr, hrest⟩ := Outcome.bind_eq_ok_iff.mp h
    obtain ⟨rs', hrs', hall⟩ := Outcome.bind_eq_ok_iff.mp hrest
    obtain rfl := Except.ok.inj hall
    exact .cons (by rw [(emitted_of_lower hr).2, hbody]) (ih hrs')

/-- A listing is lowered unless a declaration of one of its functions has a list where a name or
a type belongs, or an instruction has one where its operator belongs. Every routine then has one
unknown instruction for each step of its function that is not understood, and no other. -/
theorem read_succeeds_iff (t : Text) :
    ((∃ rs, read t = .ok rs) ↔ ∀ items ∈ functions (parse t),
      (∀ e ∈ items, ¬ Misdeclares e) ∧ ∀ e ∈ instructions items, ¬ LacksOperator e) ∧
    ∀ rs, read t = .ok rs →
      List.Forall₂ (fun items r => unknowns r.instructions =
        (flatten (instructions items)).filterMap notUnderstood?) (functions (parse t)) rs := by
  rcases failsIn_readFuncs 0 (functions (parse t)) with ⟨⟨items, hitems, e, he, hbad⟩, hfail⟩ |
    ⟨hdeclared, fs, hfs⟩
  · have hread : read t = .error .misplaced := by
      rw [read, hfail]
      rfl
    rw [hread]
    refine ⟨iff_of_false nofun fun h => (h items hitems).1 e he hbad, nofun⟩
  · have hbodies := bodies_readFuncs hfs
    have hread : read t = fs.mapM (lower (signatures fs) (tags t)) := by
      rw [read, hfs]
      rfl
    have hlacks := exists_body_iff hbodies LacksOperator
    rw [hread]
    refine ⟨?_, fun rs hrs => unknowns_of_mapM_lower hbodies hrs⟩
    push Not at hdeclared
    rcases failsIn_mapM fun f (_ : f ∈ fs) => failsIn_lower (signatures fs) (tags t) f with
      ⟨hbad, hfail⟩ | ⟨hgood, rs, hrs⟩
    · obtain ⟨items, hitems, e, he, hoperator⟩ := hlacks.mp hbad
      rw [hfail]
      exact iff_of_false nofun fun h => (h items hitems).2 e he hoperator
    · rw [hlacks] at hgood
      push Not at hgood
      exact iff_of_true ⟨rs, hrs⟩ fun items hitems =>
        ⟨hdeclared items hitems, hgood items hitems⟩

/-- A function with one instruction, which is not understood. -/
def trapText : Text := "(func unreachable)"

theorem functions_trapText : functions (parse trapText) = [[.atom "unreachable"]] := by
  have htokens : tokens trapText = ["(", "func", "unreachable", ")"].map String.toList := by
    decide +kernel
  rw [parse, htokens]
  simp [forest, closeAll, functions, functionsOf, Expr.isAtom]

theorem read_succeeds_iff_trap :
    ∃ r, read trapText = .ok [r] ∧ unknowns r.instructions = [.unknown "unreachable"] := by
  obtain ⟨hsucceeds, hunknown⟩ := read_succeeds_iff trapText
  rw [functions_trapText] at hsucceeds hunknown
  have hplain : instructions [.atom "unreachable"] = [.atom "unreachable"] := rfl
  obtain ⟨rs, hrs⟩ := hsucceeds.mpr <| by
    simp only [List.mem_singleton, forall_eq, hplain]
    exact ⟨nofun, nofun⟩
  have hraw : (flatten (instructions [.atom "unreachable"])).filterMap notUnderstood? =
      [.unknown "unreachable"] := by decide +kernel
  cases hunknown rs hrs with
  | cons hr hrest =>
    cases hrest
    exact ⟨_, hrs, hr.trans hraw⟩

/-- Texts with a list in the place of an operator and in that of a name are not lowered. -/
theorem read_fails_listOperator :
    read "(func ((x)))" = .error .wrongShape ∧ read "(func (param (x)))" = .error .misplaced := by
  have hoperator : tokens "(func ((x)))" =
      ["(", "func", "(", "(", "x", ")", ")", ")"].map String.toList := by decide +kernel
  have hname : tokens "(func (param (x)))" =
      ["(", "func", "(", "param", "(", "x", ")", ")", ")"].map String.toList := by decide +kernel
  have hoperator : functions (parse "(func ((x)))") = [[.list [.list [.atom "x"]]]] := by
    rw [parse, hoperator]
    simp [forest, closeAll, functions, functionsOf, Expr.isAtom]
  have hname : functions (parse "(func (param (x)))") =
      [[.list [.atom "param", .list [.atom "x"]]]] := by
    rw [parse, hname]
    simp [forest, closeAll, functions, functionsOf, Expr.isAtom]
  refine ⟨?_, by rw [read, hname]; rfl⟩
  let f : Func := { name := "func0", body := [.list [.list [.atom "x"]]] }
  have hfail : lower (signatures [f]) (tags "(func ((x)))") f = .error .wrongShape := by
    rcases failsIn_lower (signatures [f]) (tags "(func ((x)))") f with h | h
    · exact h.2
    · exact absurd ⟨_, List.mem_singleton_self _, .head⟩ h.1
  rw [read, hoperator]
  change [f].mapM (lower (signatures [f]) (tags "(func ((x)))")) = _
  rw [List.mapM_cons, hfail]
  rfl

end HostScript.Listing.Wat
