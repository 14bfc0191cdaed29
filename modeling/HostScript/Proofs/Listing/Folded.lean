import HostScript.Listing.Wat
import HostScript.Proofs.Outcome
import HostScript.Proofs.Pattern.Plain
import Mathlib.Data.List.TakeWhile

/-!
# Folded and flat instructions

A folded instruction is a list: an operator, and behind it immediate arguments and folded operands
in any order. Written flat, its operands come first, then the operator, then the immediate
arguments, and only the shape of the atoms tells where an instruction ends. Both ways give the
same steps, because an operator is never taken for an immediate argument, so a function lowers to
the same routine however its body is written.
-/

namespace HostScript.Listing.Wat

/-- The words that open a declaration of a function. -/
def declarationWords : List String := ["param", "local", "result", "export", "type", "import"]

/-- A text that can head an instruction in a function. -/
structure IsOperator (t : Text) : Prop where
  notImmediate : isImmediate t = false
  notDeclaration : ∀ w ∈ declarationWords, t ≠ w.toList

/-- A folded instruction. -/
inductive IsFolded : Expr → Prop where
  | node {op : Text} {args : List Expr} (operator : IsOperator op)
    (immediates : ∀ t, .atom t ∈ args → isImmediate t = true)
    (operands : ∀ items, .list items ∈ args → IsFolded (.list items)) :
    IsFolded (.list (.atom op :: args))

mutual

/-- The tokens of a folded instruction written flat: its operands, its operator, its immediate
arguments. -/
def nodeTokens : List Expr → List Text
  | [] => []
  | head :: args => postorder args ++ (head :: args).filterMap Expr.atom?

/-- The tokens of folded instructions written flat, from left to right; atoms among them are passed
over. -/
def postorder : List Expr → List Text
  | [] => []
  | .list items :: rest => nodeTokens items ++ postorder rest
  | .atom _ :: rest => postorder rest

end

/-- Folded instructions written flat. -/
def unfolded (trees : List Expr) : List Expr := (postorder trees).map .atom

/-- A sequence that gives no immediate argument to an instruction before it. -/
def StartsAnew (rest : List Expr) : Prop :=
  ∀ pending, flattenFrom pending rest = pending.toList ++ flattenFrom none rest

theorem startsAnew_nil : StartsAnew [] := by
  intro pending
  cases pending <;> simp [flattenFrom]

/-- An operator ends the instruction before it. -/
theorem startsAnew_operator {op : Text} (h : isImmediate op = false) (rest : List Expr) :
    StartsAnew (.atom op :: rest) := by
  intro pending
  cases pending <;> simp [flattenFrom, h]

/-- Immediate arguments go to the instruction before them. -/
theorem flattenFrom_immediates {ts : List Text} (h : ∀ t ∈ ts, isImmediate t = true)
    (step : Step) (rest : List Expr) :
    flattenFrom (some step) (ts.map .atom ++ rest) =
      flattenFrom (some ⟨step.head, step.immediates ++ ts⟩) rest := by
  induction ts generalizing step with
  | nil => simp
  | cons t ts ih =>
    have ht : isImmediate t = true := h t (List.mem_cons_self ..)
    have hts := ih (fun u hu => h u (List.mem_cons_of_mem _ hu))
      ⟨step.head, step.immediates ++ [t]⟩
    simp only [List.map_cons, List.cons_append, flattenFrom, ht, if_true, hts,
      List.append_assoc, List.nil_append]

/-- The atoms among the arguments of a folded instruction are its immediate arguments. -/
theorem isImmediate_of_mem_filterMap {args : List Expr}
    (h : ∀ t, .atom t ∈ args → isImmediate t = true) :
    ∀ t ∈ args.filterMap Expr.atom?, isImmediate t = true := by
  intro t ht
  obtain ⟨e, he, heq⟩ := List.mem_filterMap.mp ht
  cases e with
  | atom u =>
    obtain rfl : u = t := Option.some.inj heq
    exact h u he
  | list items => cases heq

/-- The tokens of operands give the steps of the operands, if each operand's own tokens give its
steps up to its operator, which may still take immediate arguments. -/
theorem flattenFrom_postorder {args : List Expr}
    (h : ∀ items, .list items ∈ args → ∃ head more, items = head :: more ∧
      ∀ pending rest, flattenFrom pending ((nodeTokens items).map .atom ++ rest) =
        pending.toList ++ flattenOperands more ++
          flattenFrom (some ⟨head, more.filterMap Expr.atom?⟩) rest)
    {rest : List Expr} (hrest : StartsAnew rest) (pending : Option Step) :
    flattenFrom pending ((postorder args).map .atom ++ rest) =
      pending.toList ++ flattenOperands args ++ flattenFrom none rest := by
  induction args generalizing pending with
  | nil => simpa [postorder, flattenOperands] using hrest pending
  | cons e args ih =>
    have hargs := ih fun items hi => h items (List.mem_cons_of_mem _ hi)
    cases e with
    | atom t => simpa [postorder, flattenOperands] using hargs pending
    | list items =>
      obtain ⟨head, more, rfl, hnode⟩ := h items (List.mem_cons_self ..)
      rw [postorder, List.map_append, List.append_assoc, hnode, hargs, flattenOperands,
        flattenNode]
      simp

/-- The tokens of a folded instruction give the steps of its operands and then the instruction
itself, open to further immediate arguments. -/
theorem IsFolded.flattenFrom_nodeTokens {e : Expr} (he : IsFolded e) :
    ∀ items, e = .list items → ∃ head more, items = head :: more ∧
      ∀ pending rest, flattenFrom pending ((nodeTokens items).map .atom ++ rest) =
        pending.toList ++ flattenOperands more ++
          flattenFrom (some ⟨head, more.filterMap Expr.atom?⟩) rest := by
  induction he with
  | @node op args operator immediates operands ih =>
    rintro items heq
    obtain rfl : .atom op :: args = items := Expr.list.inj heq
    refine ⟨.atom op, args, rfl, fun pending rest => ?_⟩
    have htokens : (nodeTokens (.atom op :: args)).map Expr.atom ++ rest =
        (postorder args).map .atom ++
          (.atom op :: ((args.filterMap Expr.atom?).map .atom ++ rest)) := by
      simp [nodeTokens, Expr.atom?]
    have hanew := startsAnew_operator operator.notImmediate
      ((args.filterMap Expr.atom?).map .atom ++ rest)
    rw [htokens, flattenFrom_postorder (fun items hi => ih items hi items rfl) hanew, flattenFrom,
      flattenFrom_immediates (isImmediate_of_mem_filterMap immediates)]
    simp

/-- Folded instructions give the steps of operands. -/
theorem flattenFrom_folded {trees : List Expr} (h : ∀ e ∈ trees, IsFolded e)
    (pending : Option Step) :
    flattenFrom pending trees = pending.toList ++ flattenOperands trees := by
  induction trees generalizing pending with
  | nil => simp [flattenFrom, flattenOperands]
  | cons e trees ih =>
    have htrees := ih fun u hu => h u (List.mem_cons_of_mem _ hu)
    cases h e (List.mem_cons_self ..) with
    | node => simp [flattenFrom, flattenOperands, htrees]

/-- Folded instructions and the same instructions written flat give the same steps, whatever
instruction stands before them. -/
theorem flattenFrom_unfolded {trees : List Expr} (h : ∀ e ∈ trees, IsFolded e)
    (pending : Option Step) :
    flattenFrom pending (unfolded trees) = flattenFrom pending trees := by
  have hnodes : ∀ items, .list items ∈ trees → ∃ head more, items = head :: more ∧
      ∀ pending rest, flattenFrom pending ((nodeTokens items).map .atom ++ rest) =
        pending.toList ++ flattenOperands more ++
          flattenFrom (some ⟨head, more.filterMap Expr.atom?⟩) rest :=
    fun items hi => (h _ hi).flattenFrom_nodeTokens items rfl
  have hflat := flattenFrom_postorder hnodes startsAnew_nil pending
  rw [List.append_nil] at hflat
  rw [unfolded, hflat, flattenFrom_folded h]
  simp [flattenFrom]

/-- Sequences that give the same steps may be exchanged at the end of a longer one. -/
theorem flattenFrom_append_congr {ys zs : List Expr}
    (h : ∀ pending, flattenFrom pending ys = flattenFrom pending zs) (xs : List Expr)
    (pending : Option Step) : flattenFrom pending (xs ++ ys) = flattenFrom pending (xs ++ zs) := by
  induction xs generalizing pending with
  | nil => exact h pending
  | cons x xs ih =>
    cases x with
    | list items => simp only [List.cons_append, flattenFrom, ih]
    | atom t => cases pending <;> simp only [List.cons_append, flattenFrom, ih]

/-- A word that starts with a dollar sign is an immediate argument. -/
theorem isImmediate_dollar {rest : Text} (h : ∀ c ∈ rest, isBlank c = false) :
    isImmediate ('$' :: rest) = true := by
  set c := Cursor.start ('$' :: rest) with hc
  set finish : Cursor → Option Cursor := fun d => if d.after.isEmpty then some d else none
    with hfinish
  have hsolid : ∀ x ∈ rest, outside isBlank x = true := by
    intro x hx
    simp [outside, h x hx]
  have htake : (c.advance 1).after.takeWhile (outside isBlank) = rest := by
    have hafter : (c.advance 1).after = rest := by simp [hc, Cursor.start, Cursor.advance]
    rw [hafter, List.takeWhile_eq_self_iff]
    exact hsolid
  have hstop : ∀ j < ((c.advance 1).after.takeWhile (outside isBlank)).length,
      finish ((c.advance 1).advance j) = none := by
    intro j hj
    rw [htake] at hj
    have hmore : rest.drop j ≠ [] := by simpa using hj
    simp [hfinish, hc, Cursor.start, Cursor.advance, hmore]
  have hname : (Pattern.lit "$" ++ (Pattern.noneOf isBlank).star).run finish c =
      some ((c.advance 1).advance rest.length) := by
    have hlit : Pattern.lit "$" = Pattern.text ['$'] := rfl
    have hhead : ['$'].isPrefixOf c.after = true := by simp [hc, Cursor.start]
    have hone : ['$'].length = 1 := rfl
    rw [Pattern.run_seq, hlit, Pattern.run_text, if_pos hhead, hone, Pattern.noneOf,
      Pattern.run_star_one hstop, htake]
    simp [hfinish, hc, Cursor.start, Cursor.advance]
  have hrun : immediate.run finish c = some ((c.advance 1).advance rest.length) := by
    rw [immediate, Pattern.run_orElse, hname]
    rfl
  rw [isImmediate, Pattern.fitsAll, Pattern.matchAll?, Option.isSome_map, ← hc, hrun]
  rfl

/-- An operator that is one word does not name a function. -/
theorem IsOperator.dollarName?_eq_none {op : Text} (h : IsOperator op)
    (hword : ∀ c ∈ op, isBlank c = false) : dollarName? op = none := by
  unfold dollarName?
  split
  · rename_i rest
    have himm := isImmediate_dollar fun c hc => hword c (List.mem_cons_of_mem _ hc)
    rw [h.notImmediate] at himm
    cases himm
  · rfl

namespace Func

/-- The function with more code at the end of its body. -/
def addCode (f : Func) (code : List Expr) : Func := { f with body := f.body ++ code }

/-- A folded instruction belongs to the body of a function. -/
theorem item_folded (f : Func) {e : Expr} (he : IsFolded e) : f.item e = .ok (f.addCode [e]) := by
  cases he with
  | @node op args operator _ _ =>
    have hword (w : String) (hw : w ∈ declarationWords) :
        (Expr.atom op).isAtom w = false := by
      simpa [Expr.isAtom] using operator.notDeclaration w hw
    simp only [item, addCode, hword "param" (by decide), hword "local" (by decide),
      hword "result" (by decide), hword "export" (by decide), hword "type" (by decide),
      hword "import" (by decide), Bool.or_self, Bool.false_eq_true, if_false]

/-- Items that belong to the body are added to it in order. -/
theorem foldlM_item {code : List Expr} (h : ∀ e ∈ code, ∀ f : Func, f.item e = .ok (f.addCode [e]))
    (f : Func) : code.foldlM item f = .ok (f.addCode code) := by
  induction code generalizing f with
  | nil => simp [addCode, pure, Except.pure]
  | cons e code ih =>
    rw [List.foldlM_cons, h e (List.mem_cons_self ..)]
    change code.foldlM item (f.addCode [e]) = _
    rw [ih fun u hu => h u (List.mem_cons_of_mem _ hu)]
    simp [addCode]

/-- Where the code of a function starts with no name, the items before it decide everything but
the code. -/
theorem ofItems_append (head : List Expr) (index : Nat) : ∃ start : Outcome Func,
    ∀ code : List Expr, (∀ e ∈ code, ∀ f : Func, f.item e = .ok (f.addCode [e])) →
      (head = [] → ∀ t, code.head? = some (.atom t) → dollarName? t = none) →
      ofItems (head ++ code) index = (·.addCode code) <$> start := by
  have hfold (items : List Expr) (f : Func) (code : List Expr)
      (hcode : ∀ e ∈ code, ∀ f : Func, f.item e = .ok (f.addCode [e])) :
      (items ++ code).foldlM item f = (·.addCode code) <$> items.foldlM item f := by
    rw [List.foldlM_append]
    cases items.foldlM item f with
    | error e => rfl
    | ok g => exact foldlM_item hcode g
  have hfallback (items : List Expr) (f : Func)
      (hname : ∀ t, items.head? = some (.atom t) → dollarName? t = none)
      (hf : f = { name := ("func" : Text) ++ Text.ofNat index }) :
      ofItems items index = items.foldlM item f := by
    subst hf
    unfold ofItems
    split
    · rename_i t rest
      rw [hname t rfl]
    · rfl
  cases head with
  | nil =>
    refine ⟨.ok { name := ("func" : Text) ++ Text.ofNat index }, fun code hcode hname => ?_⟩
    rw [List.nil_append, hfallback code _ (hname rfl) rfl, foldlM_item hcode]
    rfl
  | cons x head =>
    cases hx : x.atom?.bind dollarName? with
    | none =>
      refine ⟨(x :: head).foldlM item { name := ("func" : Text) ++ Text.ofNat index },
        fun code hcode _ => ?_⟩
      rw [hfallback _ _ _ rfl, hfold _ _ _ hcode]
      intro t ht
      obtain rfl : x = .atom t := by simpa using ht
      exact hx
    | some n =>
      refine ⟨head.foldlM item { name := n }, fun code hcode _ => ?_⟩
      obtain ⟨t, ht, hn⟩ := Option.bind_eq_some_iff.mp hx
      cases x with
      | list items => cases ht
      | atom u =>
        obtain rfl : u = t := Option.some.inj ht
        rw [List.cons_append, ofItems]
        simp only [hn]
        exact hfold _ _ _ hcode

end Func

/-- What a step does depends on the function only through its locals and its result. -/
theorem runStep_addCode (f : Func) (code : List Expr) :
    runStep (f.addCode code) = runStep f := by
  funext known s step
  obtain ⟨head, immediates⟩ := step
  cases head with
  | list items => rfl
  | atom t =>
    change Except.ok _ = Except.ok _
    cases Op.ofStep t immediates <;> rfl

/-- Code that gives the same steps is lowered in the same way. -/
theorem lower_addCode_congr {code other : List Expr}
    (h : ∀ pending, flattenFrom pending code = flattenFrom pending other)
    (known : List (Text × Signature)) (tags : List Text) (f : Func) :
    lower known tags (f.addCode code) = lower known tags (f.addCode other) := by
  have hsteps : flatten (f.addCode code).body = flatten (f.addCode other).body :=
    flattenFrom_append_congr h f.body none
  unfold lower
  rw [hsteps, runStep_addCode, runStep_addCode]
  rfl

/-- Tokens of operands that start with operators start with an operator. -/
theorem isOperator_of_postorder {args : List Expr}
    (h : ∀ items, .list items ∈ args → ∃ t ts, nodeTokens items = t :: ts ∧ IsOperator t)
    {t : Text} (ht : (postorder args).head? = some t) : IsOperator t := by
  induction args with
  | nil => simp [postorder] at ht
  | cons e args ih =>
    cases e with
    | atom u =>
      rw [postorder] at ht
      exact ih (fun items hi => h items (List.mem_cons_of_mem _ hi)) ht
    | list items =>
      obtain ⟨u, ts, hu, hop⟩ := h items (List.mem_cons_self ..)
      rw [postorder, hu, List.cons_append, List.head?_cons] at ht
      obtain rfl : u = t := Option.some.inj ht
      exact hop

/-- The tokens of a folded instruction start with an operator. -/
theorem IsFolded.isOperator_nodeTokens {e : Expr} (he : IsFolded e) :
    ∀ items, e = .list items → ∃ t ts, nodeTokens items = t :: ts ∧ IsOperator t := by
  induction he with
  | @node op args operator immediates operands ih =>
    rintro items heq
    obtain rfl : .atom op :: args = items := Expr.list.inj heq
    have htokens : nodeTokens (.atom op :: args) =
        postorder args ++ op :: args.filterMap Expr.atom? := by
      simp [nodeTokens, Expr.atom?]
    cases hfirst : postorder args with
    | nil => exact ⟨op, _, by rw [htokens, hfirst, List.nil_append], operator⟩
    | cons t ts =>
      have hop : IsOperator t := isOperator_of_postorder (fun items hi => ih items hi items rfl)
        (by rw [hfirst, List.head?_cons])
      exact ⟨t, _, by rw [htokens, hfirst, List.cons_append], hop⟩

/-- Folded instructions and the same instructions written flat give the same steps, and a function
has the same signature and lowers to the same routine with either behind its declarations. A
function without any declaration must not start with a text that could be its name. -/
theorem flatten_eq_flatten_unfolded {trees : List Expr} (h : ∀ e ∈ trees, IsFolded e) :
    flatten trees = flatten (unfolded trees) ∧
      ∀ (head : List Expr) (index : Nat) (known : List (Text × Signature)) (tags : List Text),
        (head = [] → ∀ t, (postorder trees).head? = some t → ∀ c ∈ t, isBlank c = false) →
        Func.signature <$> Func.ofItems (head ++ trees) index =
            Func.signature <$> Func.ofItems (head ++ unfolded trees) index ∧
          Func.ofItems (head ++ trees) index >>= lower known tags =
            Func.ofItems (head ++ unfolded trees) index >>= lower known tags := by
  refine ⟨(flattenFrom_unfolded h none).symm, fun head index known tags hword => ?_⟩
  obtain ⟨start, hstart⟩ := Func.ofItems_append head index
  have hfolded : Func.ofItems (head ++ trees) index = (·.addCode trees) <$> start := by
    refine hstart trees (fun e he f => f.item_folded (h e he)) fun _ t ht => ?_
    cases h _ (List.mem_of_head? ht)
  have hflat : Func.ofItems (head ++ unfolded trees) index =
      (·.addCode (unfolded trees)) <$> start := by
    refine hstart _ (fun e he f => ?_) fun hnil t ht => ?_
    · obtain ⟨t, -, rfl⟩ := List.mem_map.mp he
      rfl
    · rw [unfolded, List.head?_map] at ht
      obtain ⟨u, hu, hut⟩ := Option.map_eq_some_iff.mp ht
      obtain rfl : u = t := Expr.atom.inj hut
      have hop : IsOperator u := isOperator_of_postorder
        (fun items hi => (h _ hi).isOperator_nodeTokens items rfl) hu
      exact hop.dollarName?_eq_none (hword hnil u hu)
  rw [hfolded, hflat]
  cases start with
  | error e => exact ⟨rfl, rfl⟩
  | ok f =>
    exact ⟨rfl, lower_addCode_congr (fun pending => (flattenFrom_unfolded h pending).symm)
      known tags f⟩

/-- An addition whose second operand is a call with an argument on either side of its target. -/
def nestedCall : Expr :=
  .list [.atom "i32.add", .list [.atom "local.get", .atom "$x"],
    .list [.atom "call", .list [.atom "i32.const", .atom "0x10"], .atom "$f",
      .list [.atom "i32.const", .atom "2"]]]

/-- Both ways of writing the addition give the same steps and the same function. -/
theorem flatten_eq_flatten_unfolded_nestedCall :
    (∀ e ∈ [nestedCall], IsFolded e) ∧
      postorder [nestedCall] = ["local.get", "$x", "i32.const", "0x10", "i32.const", "2", "call",
        "$f", "i32.add"].map String.toList ∧
      flatten [nestedCall] = flatten (unfolded [nestedCall]) ∧
      Func.ofItems ([.list [.atom "param", .atom "$x", .atom "i32"]] ++ [nestedCall]) 0 >>=
          lower [] [] =
        Func.ofItems ([.list [.atom "param", .atom "$x", .atom "i32"]] ++ unfolded [nestedCall]) 0
          >>= lower [] [] := by
  have hconst (t : Text) (ht : isImmediate t = true) :
      IsFolded (.list [.atom "i32.const", .atom t]) :=
    .node ⟨by decide +kernel, by decide⟩ (by simpa using ht) (by simp)
  have hget : IsFolded (.list [.atom "local.get", .atom "$x"]) :=
    .node ⟨by decide +kernel, by decide⟩ (by simpa using by decide +kernel) (by simp)
  have hcall : IsFolded (.list [.atom "call", .list [.atom "i32.const", .atom "0x10"], .atom "$f",
      .list [.atom "i32.const", .atom "2"]]) := by
    refine .node ⟨by decide +kernel, by decide⟩ (by simpa using by decide +kernel) ?_
    intro items hi
    have hitems : items = [.atom "i32.const", .atom "0x10"] ∨
        items = [.atom "i32.const", .atom "2"] := by simpa using hi
    rcases hitems with rfl | rfl
    · exact hconst _ (by decide +kernel)
    · exact hconst _ (by decide +kernel)
  have htrees : ∀ e ∈ [nestedCall], IsFolded e := by
    intro e he
    obtain rfl : e = nestedCall := by simpa using he
    refine .node ⟨by decide +kernel, by decide⟩ (by simp) ?_
    intro items hi
    rcases (by simpa using hi : items = _ ∨ items = _) with rfl | rfl
    · exact hget
    · exact hcall
  have hmain := flatten_eq_flatten_unfolded htrees
  refine ⟨htrees, ?_, hmain.1, (hmain.2 _ 0 [] [] (by simp)).2⟩
  simp [nestedCall, postorder, nodeTokens, Expr.atom?, List.filterMap]

end HostScript.Listing.Wat
