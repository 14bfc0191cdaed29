import HostScript.Proofs.Listing.Declared
import HostScript.Proofs.Listing.Folded
import HostScript.Proofs.Listing.StackMachine
import Mathlib.Algebra.Ring.Int.Defs

/-!
# Flat function bodies

A function whose body is a flat sequence of constants, moves from and to locals, integer
arithmetic, calls by name and returns is lowered to code that makes the same calls, leaves the same
locals and returns the same, as long as no assignment hits a local whose name is still on the
symbolic stack. Every immediate argument has to look like one, and the numbers of locals have to be
written in plain decimal: a local is looked up by the text of its number.
-/

namespace HostScript.Listing.Wat

/-- An instruction as it is written flat. -/
structure FlatOp where
  op : Text
  immediates : List Text

/-- The tokens of an instruction. -/
def FlatOp.tokens (c : FlatOp) : List Text := c.op :: c.immediates

/-- A token refers to a declared local, by its name or by its number in decimal. -/
inductive RefersTo (ds : List Local) : Text → Nat → Prop where
  | name {i : Nat} {d : Local} {n : Text} (declared : ds[i]? = some d) (named : d.name = some n) :
    RefersTo ds ('$' :: n) i
  | number {i : Nat} (declared : i < ds.length) : RefersTo ds (Text.ofNat i) i

/-- An instruction in a function of a module stands for an operation. -/
inductive Denotes (sources : List (List Expr)) (items : List Expr) : FlatOp → StackOp → Prop where
  | const {type : String} {token : Text} (number : type ∈ ["i32", "i64", "f32", "f64"]) :
    Denotes sources items ⟨type.toList ++ ".const".toList, [token]⟩ (.const token)
  | get {token : Text} {i : Nat} (refers : RefersTo (items.flatMap declares) token i) :
    Denotes sources items ⟨"local.get".toList, [token]⟩ (.get i)
  | set {token : Text} {i : Nat} (refers : RefersTo (items.flatMap declares) token i) :
    Denotes sources items ⟨"local.set".toList, [token]⟩ (.set i)
  | tee {token : Text} {i : Nat} (refers : RefersTo (items.flatMap declares) token i) :
    Denotes sources items ⟨"local.tee".toList, [token]⟩ (.tee i)
  | add {type : String} (integer : type ∈ ["i32", "i64"]) :
    Denotes sources items ⟨type.toList ++ ".add".toList, []⟩ (.arithmetic .add)
  | sub {type : String} (integer : type ∈ ["i32", "i64"]) :
    Denotes sources items ⟨type.toList ++ ".sub".toList, []⟩ (.arithmetic .sub)
  | mul {type : String} (integer : type ∈ ["i32", "i64"]) :
    Denotes sources items ⟨type.toList ++ ".mul".toList, []⟩ (.arithmetic .mul)
  | call {n : Text} {callee : List Expr} (declared : callee ∈ sources)
    (named : functionName? callee = some n) :
    Denotes sources items ⟨"call".toList, ['$' :: n]⟩
      (.call (Routine.identifierChars n) (paramNames (callee.flatMap declares)).length
        (callee.any declaresResult))
  | drop : Denotes sources items ⟨"drop".toList, []⟩ .drop
  | nop : Denotes sources items ⟨"nop".toList, []⟩ .nop
  | return_ : Denotes sources items ⟨"return".toList, []⟩ (.leave (items.any declaresResult))

/-- The script name of a numbered local. -/
def Func.slotName (f : Func) (i : Nat) : Text := f.localName (Text.ofNat i)

section Steps

variable {sources : List (List Expr)} {items : List Expr}

/-- No operator that stands for an operation is taken for an immediate argument. -/
theorem Denotes.notImmediate {c : FlatOp} {op : StackOp} (h : Denotes sources items c op) :
    isImmediate c.op = false := by
  have hconst : ∀ type ∈ ["i32", "i64", "f32", "f64"],
      isImmediate (type.toList ++ ".const".toList) = false := by decide
  have harithmetic : ∀ type ∈ ["i32", "i64"], ∀ name ∈ [".add", ".sub", ".mul"],
      isImmediate (type.toList ++ name.toList) = false := by decide
  cases h with
  | const htype => exact hconst _ htype
  | add htype => exact harithmetic _ htype ".add" (by decide)
  | sub htype => exact harithmetic _ htype ".sub" (by decide)
  | mul htype => exact harithmetic _ htype ".mul" (by decide)
  | get | set | tee | call | drop | nop | return_ =>
    simp only
    decide +kernel

/-- Tokens of instructions give the instructions back. -/
theorem flattenFrom_tokens {code : List FlatOp} (hop : ∀ c ∈ code, isImmediate c.op = false)
    (himmediate : ∀ c ∈ code, ∀ t ∈ c.immediates, isImmediate t = true) (pending : Option Step) :
    flattenFrom pending ((code.flatMap FlatOp.tokens).map .atom) =
      pending.toList ++ code.map fun c => ⟨.atom c.op, c.immediates⟩ := by
  induction code generalizing pending with
  | nil => simp [flattenFrom]
  | cons c code ih =>
    have hrest := ih (fun d hd => hop d (List.mem_cons_of_mem _ hd))
      fun d hd => himmediate d (List.mem_cons_of_mem _ hd)
    have hc := hop c (List.mem_cons_self ..)
    have htokens : ((c :: code).flatMap FlatOp.tokens).map Expr.atom =
        .atom c.op :: (c.immediates.map .atom ++ (code.flatMap FlatOp.tokens).map .atom) := by
      simp [FlatOp.tokens]
    rw [htokens, startsAnew_operator hc, flattenFrom,
      flattenFrom_immediates (himmediate c (List.mem_cons_self ..)), hrest]
    simp

/-- A token that refers to a local gives its script name. -/
theorem RefersTo.localName_eq {f : Func} {ds : List Local} (hf : f.Knows ds) {token : Text}
    {i : Nat} (h : RefersTo ds token i) : f.localName token = f.slotName i := by
  cases h with
  | number => rfl
  | @name _ d n hd hn =>
    have hscript : d.script i = Routine.identifierChars n := by simp [Local.script, hn]
    simp only [Func.slotName, Func.localName, hf.named (List.mem_of_getElem? hd) hn, hf.number hd,
      hscript, Option.getD_some]

/-- A token refers to a local that is there. -/
theorem RefersTo.lt {ds : List Local} {token : Text} {i : Nat} (h : RefersTo ds token i) :
    i < ds.length := by
  cases h with
  | number hi => exact hi
  | name hd => exact (List.getElem?_eq_some_iff.mp hd).1

/-- A call by name goes to the function of that name. -/
theorem callTarget_signatures {fs : List Func} (hdistinct : (fs.map Func.name).Nodup) {g : Func}
    (hg : g ∈ fs) {callee : List Expr} (hreads : g.Reads callee) {n : Text}
    (hn : functionName? callee = some n) :
    callTarget (signatures fs) ('$' :: n) =
      ⟨Routine.identifierChars n, (paramNames (callee.flatMap declares)).length,
        callee.any declaresResult⟩ := by
  have hname := hreads.name hn
  have hlookup := lookup_signatures hdistinct hg
  rw [hname] at hlookup
  simp only [callTarget, dollarName?, Option.getD_some, hlookup, Func.signature, hname,
    hreads.knows.params, hreads.hasResult]

/-- An operator of arithmetic. -/
theorem ofStep_arithmetic {head : Text} (operator : Text)
    (h : (arithmeticOp.match? head).map (·.group 1) = some operator) (immediates : List Text) :
    Op.ofStep head immediates = .arithmetic (.arithmetic operator) := by
  obtain ⟨m, hm, hgroup⟩ := Option.map_eq_some_iff.mp h
  simp only [Op.ofStep, hm, hgroup]

/-- The operators that are one word each are not arithmetic. -/
theorem match?_arithmeticOp_word : ∀ w ∈ ["local.get", "local.set", "local.tee", "call", "drop",
    "nop", "return"], arithmeticOp.match? w.toList = none := by
  have hfits : ∀ w ∈ ["local.get", "local.set", "local.tee", "call", "drop", "nop", "return"],
      arithmeticOp.fits w.toList = false := by decide
  exact fun w hw => Pattern.match?_eq_none (hfits w hw)

/-- What runs symbolically is the operation that the instruction stands for. -/
theorem run_ofStep {fs : List Func}
    (hreads : List.Forall₂ (fun items f => f.Reads items) sources fs)
    (hdistinct : (fs.map Func.name).Nodup) {f : Func} (hf : f.Reads items) {c : FlatOp}
    {op : StackOp} (h : Denotes sources items c op) (s : Symbolic) :
    run f (signatures fs) s (Op.ofStep c.op c.immediates) = op.lower f.slotName s := by
  cases h with
  | @const type token htype =>
    have hconst : ∀ type ∈ ["i32", "i64", "f32", "f64"],
        arithmeticOp.fits (type.toList ++ ".const".toList) = false ∧
          Text.endsWith (type.toList ++ ".const".toList) ".const".toList = true := by decide +kernel
    obtain ⟨hfits, hend⟩ := hconst type htype
    simp only [Op.ofStep, Pattern.match?_eq_none hfits, hend, if_true]
    rfl
  | get hrefers =>
    rw [Op.ofStep, match?_arithmeticOp_word "local.get" (by decide), StackOp.lower,
      ← hrefers.localName_eq hf.knows]
    rfl
  | set hrefers =>
    rw [Op.ofStep, match?_arithmeticOp_word "local.set" (by decide), StackOp.lower,
      ← hrefers.localName_eq hf.knows]
    rfl
  | tee hrefers =>
    rw [Op.ofStep, match?_arithmeticOp_word "local.tee" (by decide), StackOp.lower,
      ← hrefers.localName_eq hf.knows]
    rfl
  | add htype =>
    have hmatch : ∀ type ∈ ["i32", "i64"],
        (arithmeticOp.match? (type.toList ++ ".add".toList)).map (·.group 1) =
          some "add".toList := by decide +kernel
    rw [ofStep_arithmetic _ (hmatch _ htype)]
    rfl
  | sub htype =>
    have hmatch : ∀ type ∈ ["i32", "i64"],
        (arithmeticOp.match? (type.toList ++ ".sub".toList)).map (·.group 1) =
          some "sub".toList := by decide +kernel
    rw [ofStep_arithmetic _ (hmatch _ htype)]
    rfl
  | mul htype =>
    have hmatch : ∀ type ∈ ["i32", "i64"],
        (arithmeticOp.match? (type.toList ++ ".mul".toList)).map (·.group 1) =
          some "mul".toList := by decide +kernel
    rw [ofStep_arithmetic _ (hmatch _ htype)]
    rfl
  | @call n callee hmem hname =>
    obtain ⟨g, hg, hcallee⟩ := exists_mem_of_forall₂ hreads hmem
    have htarget := callTarget_signatures hdistinct hg hcallee hname
    rw [Op.ofStep, match?_arithmeticOp_word "call" (by decide)]
    change run f (signatures fs) s (.call ('$' :: n)) = _
    rw [run, htarget]
    rfl
  | drop =>
    rw [Op.ofStep, match?_arithmeticOp_word "drop" (by decide)]
    rfl
  | nop =>
    rw [Op.ofStep, match?_arithmeticOp_word "nop" (by decide)]
    rfl
  | return_ =>
    rw [Op.ofStep, match?_arithmeticOp_word "return" (by decide), StackOp.lower, ← hf.hasResult]
    rfl

/-- Instructions run symbolically as the operations that they stand for. -/
theorem foldlM_runStep {fs : List Func}
    (hreads : List.Forall₂ (fun items f => f.Reads items) sources fs)
    (hdistinct : (fs.map Func.name).Nodup) {f : Func} (hf : f.Reads items) {code : List FlatOp}
    {ops : List StackOp} (h : List.Forall₂ (Denotes sources items) code ops) (s : Symbolic) :
    (code.map fun c => ⟨.atom c.op, c.immediates⟩).foldlM (runStep f (signatures fs)) s =
      .ok (StackOp.lowerAll f.slotName s ops) := by
  induction h generalizing s with
  | nil => rfl
  | cons hop _ ih =>
    rw [List.map_cons, List.foldlM_cons, runStep]
    simp only [run_ofStep hreads hdistinct hf hop]
    exact ih _

/-- The locals of an operation are among those that its function declares. -/
theorem Denotes.within {c : FlatOp} {op : StackOp} (h : Denotes sources items c op) :
    op.Within (· < (items.flatMap declares).length) := by
  cases h with
  | get hrefers | set hrefers | tee hrefers => exact hrefers.lt
  | _ => trivial

/-- Instructions stand for operations on declared locals and are not taken for immediate
arguments. -/
theorem forall_of_denotes {code : List FlatOp} {ops : List StackOp}
    (h : List.Forall₂ (Denotes sources items) code ops) :
    (∀ c ∈ code, isImmediate c.op = false) ∧
      ∀ op ∈ ops, op.Within (· < (items.flatMap declares).length) := by
  induction h with
  | nil => simp
  | cons hop _ ih =>
    simp only [List.forall_mem_cons]
    exact ⟨⟨hop.notImmediate, ih.1⟩, hop.within, ih.2⟩

/-- A function with a flat body that never assigns to a local with a pending name is lowered to
code that makes the same calls, leaves the same locals and returns the same, whatever is in the
locals first and whatever the calls answer. -/
theorem lower_run_eq {fs : List Func} (hread : readFuncs 0 sources = .ok fs)
    (hdistinct : (fs.map Func.name).Nodup) {f : Func} (hf : (items, f) ∈ sources.zip fs)
    {code : List FlatOp} (hbody : f.body = (code.flatMap FlatOp.tokens).map .atom)
    (hrecognized : ∀ c ∈ code, ∀ t ∈ c.immediates, isImmediate t = true)
    {ops : List StackOp} (hcode : List.Forall₂ (Denotes sources items) code ops)
    (hnames : Naming f.slotName (· < f.count)) (hspares : StackOp.SparesAll f.slotName {} ops)
    (answers : Answers) {values : Text → Int} {locals : Nat → Int}
    (hstart : ∀ i < f.count, values (f.slotName i) = locals i) {final : StackMachine}
    (hrun : ((StackMachine.start locals).run answers ops).bind
      (StackMachine.finish answers (items.any declaresResult)) = some final)
    (tags : List Text) :
    ∃ r x, lower (signatures fs) tags f = .ok r ∧
      (Execution.start values).run answers r.instructions = some x ∧
      x.calls = final.calls ∧ x.returned = final.returned ∧
      ∀ i < f.count, x.values (f.slotName i) = final.locals i := by
  have hreads := reads_readFuncs hread
  have hself : f.Reads items := (List.forall₂_iff_zip.mp hreads).2 hf
  obtain ⟨hoperators, hwithin⟩ := forall_of_denotes hcode
  have hsteps : flatten f.body = code.map fun c => ⟨.atom c.op, c.immediates⟩ := by
    rw [flatten, hbody, flattenFrom_tokens hoperators hrecognized]
    rfl
  have hlower : lower (signatures fs) tags f = .ok ⟨f.name, f.params,
      ((StackOp.lowerAll f.slotName {} ops).finish f.hasResult).code, tags⟩ := by
    rw [lower, hsteps, foldlM_runStep hreads hdistinct hself hcode]
    rfl
  rw [← hself.knows.count] at hwithin
  rw [← hself.hasResult] at hrun
  obtain ⟨x, h⟩ := agrees_of_run hnames hwithin hspares hstart hrun
  exact ⟨_, x, hlower, h.code, h.calls, h.returned, h.locals⟩

end Steps

/-- A module whose second function scales the sum that its first function computes. -/
def scaleSources : List (List Expr) :=
  [[.atom "$add", .list [.atom "param", .atom "$a", .atom "i32"],
      .list [.atom "param", .atom "i32"], .list [.atom "result", .atom "i32"],
      .atom "local.get", .atom "$a", .atom "local.get", .atom "1", .atom "i32.add"],
    [.atom "$scale", .list [.atom "param", .atom "$x", .atom "i32"],
      .list [.atom "local", .atom "$y", .atom "i32"], .list [.atom "result", .atom "i32"],
      .atom "local.get", .atom "$x", .atom "i32.const", .atom "0x10", .atom "call", .atom "$add",
      .atom "local.tee", .atom "$y", .atom "local.get", .atom "0", .atom "i32.mul",
      .atom "return", .atom "nop"]]

/-- The instructions of the second function. -/
def scaleCode : List FlatOp :=
  [⟨"local.get", ["$x"]⟩, ⟨"i32.const", ["0x10"]⟩, ⟨"call", ["$add"]⟩, ⟨"local.tee", ["$y"]⟩,
    ⟨"local.get", ["0"]⟩, ⟨"i32.mul", []⟩, ⟨"return", []⟩, ⟨"nop", []⟩]

/-- The second function as it is read. -/
def scaleFunc : Func :=
  { name := "scale", params := ["x"], locals := [("1", "y"), ("$y", "y"), ("0", "x"), ("$x", "x")],
    count := 2, hasResult := true, body := (scaleCode.flatMap FlatOp.tokens).map .atom }

/-- The operations of the second function. -/
def scaleOps : List StackOp :=
  [.get 0, .const "0x10", .call "add" 2 true, .tee 1, .get 0, .arithmetic .mul, .leave true, .nop]

/-- The values that it starts with. -/
def scaleStart (t : Text) : Int := if t = "x".toList then 3 else 0

/-- Names that are not literals and do not start like temporary names. -/
theorem naming_of_head {name : Nat → Text} {count : Nat}
    (hinjective : ∀ i < count, ∀ j < count, name i = name j → i = j)
    (hliteral : ∀ i < count, integer? (name i) = none)
    (hhead : ∀ i < count, (name i).head? ≠ some 't') : Naming name (· < count) where
  injective hi hj := hinjective _ hi _ hj
  notLiteral hi := hliteral _ hi
  notTemp hi n heq := hhead _ hi (by rw [heq]; rfl)

theorem lower_run_eq_scale :
    List.Forall₂ (Denotes scaleSources scaleSources[1]) scaleCode scaleOps ∧
    StackOp.SparesAll scaleFunc.slotName {} scaleOps ∧
    ∃ g r x, readFuncs 0 scaleSources = .ok [g, scaleFunc] ∧
      lower (signatures [g, scaleFunc]) [] scaleFunc = .ok r ∧
      (Execution.start scaleStart).run (fun _ made => made.args.sum) r.instructions = some x ∧
      x.calls = [⟨"add", [3, 16]⟩] ∧ x.value = some 57 ∧
      x.values (scaleFunc.slotName 1) = 19 := by
  obtain ⟨g, hread, hname⟩ : ∃ g, readFuncs 0 scaleSources = .ok [g, scaleFunc] ∧
      g.name = "add".toList := ⟨_, rfl, rfl⟩
  have hdistinct : ([g, scaleFunc].map Func.name).Nodup := by
    rw [List.map_cons, hname]
    decide
  have hself : (scaleSources[1], scaleFunc) ∈ scaleSources.zip [g, scaleFunc] := by
    simp [scaleSources]
  have hfirst : RefersTo (scaleSources[1].flatMap declares) (Text.ofNat 0) 0 := .number (by decide)
  have hcode : List.Forall₂ (Denotes scaleSources scaleSources[1]) scaleCode scaleOps :=
    .cons (.get (.name rfl rfl)) <|
    .cons (.const (show "i32" ∈ ["i32", "i64", "f32", "f64"] by decide)) <|
    .cons (.call (show scaleSources[0] ∈ scaleSources by simp [scaleSources]) rfl) <|
    .cons (.tee (.name rfl rfl)) <|
    .cons (.get hfirst) <|
    .cons (.mul (show "i32" ∈ ["i32", "i64"] by decide)) <|
    .cons .return_ <|
    .cons .nop .nil
  have hrecognized : ∀ c ∈ scaleCode, ∀ t ∈ c.immediates, isImmediate t = true := by
    simp only [scaleCode, List.forall_mem_cons, List.not_mem_nil, false_imp_iff, implies_true,
      and_true]
    decide
  have hnames : Naming scaleFunc.slotName (· < scaleFunc.count) :=
    naming_of_head (by decide) (by decide) (by decide)
  have hspares : StackOp.SparesAll scaleFunc.slotName {} scaleOps := by decide
  have hstart : ∀ i < scaleFunc.count,
      scaleStart (scaleFunc.slotName i) = if i = 0 then 3 else 0 := by decide
  obtain ⟨final, hrun, hcalls, hvalue, hy⟩ : ∃ final : StackMachine,
      ((StackMachine.start fun i => if i = 0 then 3 else 0).run (fun _ made => made.args.sum)
        scaleOps).bind (StackMachine.finish (fun _ made => made.args.sum)
          (scaleSources[1].any declaresResult)) = some final ∧
      final.calls = [⟨"add", [3, 16]⟩] ∧ final.value = some 57 ∧ final.locals 1 = 19 :=
    ⟨_, rfl, rfl, rfl, rfl⟩
  obtain ⟨r, x, hlower, hx, hsame, hreturned, hlocals⟩ := lower_run_eq hread hdistinct hself rfl
    hrecognized hcode hnames hspares (fun _ made => made.args.sum) hstart hrun []
  refine ⟨hcode, hspares, g, r, x, hread, hlower, hx, ?_, ?_, ?_⟩
  · rw [hsame, hcalls]
  · rw [Execution.value, hreturned]
    exact hvalue
  · rw [hlocals 1 (by decide), hy]

/-- A function that returns its parameter, with the number of the parameter in hexadecimal. -/
def hexIndexText : Text :=
  "(module (func $f (param $x i32) (result i32) local.get 0x0))".toList

/-- The items of the function. -/
def hexIndexItems : List Expr :=
  [.atom "$f", .list [.atom "param", .atom "$x", .atom "i32"],
    .list [.atom "result", .atom "i32"], .atom "local.get", .atom "0x0"]

/-- The number in hexadecimal is returned in place of the parameter that it refers to. -/
theorem lower_hexIndex :
    functions (parse hexIndexText) = [hexIndexItems] ∧
    natural? "0x0" = some 0 ∧ (hexIndexItems.flatMap declares).length = 1 ∧
    ∃ f r x final, readFuncs 0 [hexIndexItems] = .ok [f] ∧
      f.body = [.atom "local.get", .atom "0x0"] ∧ Naming f.slotName (· < f.count) ∧
      StackOp.SparesAll f.slotName {} [.get 0] ∧
      lower (signatures [f]) [] f = .ok r ∧
      (Execution.start fun _ => 5).run (fun _ _ => 0) r.instructions = some x ∧
      ((StackMachine.start fun _ => 5).run (fun _ _ => 0) [.get 0]).bind
        (StackMachine.finish (fun _ _ => 0) (hexIndexItems.any declaresResult)) = some final ∧
      final.value = some 5 ∧ x.value = some 0 := by
  have htokens : tokens hexIndexText = ["(", "module", "(", "func", "$f", "(", "param", "$x",
      "i32", ")", "(", "result", "i32", ")", "local.get", "0x0", ")", ")"].map String.toList := by
    decide +kernel
  have hparse : functions (parse hexIndexText) = [hexIndexItems] := by
    rw [parse, htokens]
    simp [forest, closeAll, functions, functionsOf, Expr.isAtom, hexIndexItems]
  refine ⟨hparse, by decide +kernel, rfl, ?_⟩
  refine ⟨_, _, _, _, rfl, rfl, ?_, ?_, rfl, rfl, rfl, rfl, rfl⟩
  · exact naming_of_head (by decide) (by decide) (by decide)
  · decide

end HostScript.Listing.Wat
