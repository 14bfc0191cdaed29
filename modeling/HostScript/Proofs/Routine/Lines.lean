import HostScript.Proofs.Routine.Header
import HostScript.Proofs.Text

/-!
# Declarations and remarks in the lines of a routine

The lines of a routine carry the names that are declared so far. After some instructions these are
the parameters and every plain name that one of the instructions assigned, so a line declares its
name exactly when the name is assigned there for the first time. An instruction without a script
form shows as a comment, and the text in it is put together from words, so the comment ends no
sooner than its line.
-/

namespace HostScript

namespace Instruction

/-- The name that an instruction gives a value. -/
def target? : Instruction → Option Text
  | ⟨.load, [target, _], _, _⟩ => some target
  | ⟨.store, [target, _], _, _⟩ => some target
  | ⟨.call, _ :: _, result, _⟩ => if result.isEmpty then none else some result
  | ⟨op, [target, _, _], _, _⟩ => if op.operator?.isSome then some target else none
  | _ => none

/-- Whether an instruction has a script form: its operation is one of the instruction set and has
as many operands as it takes. -/
def hasForm : Instruction → Bool
  | ⟨.load, [_, _], _, _⟩ => true
  | ⟨.store, [_, _], _, _⟩ => true
  | ⟨.call, _ :: _, _, _⟩ => true
  | ⟨.return_, _, _, _⟩ => true
  | ⟨.branch, [_, _], _, _⟩ => true
  | ⟨.loop, _ :: _, _, _⟩ => true
  | ⟨op, [_, _, _], _, _⟩ => op.operator?.isSome
  | _ => false

end Instruction

namespace Routine

variable {declared : List Text} {i : Instruction}

/-! ### Names that are declared -/

/-- A text does not start with itself behind another one, if it has a character that the other one
lacks: that character would come too late. -/
theorem not_isPrefix_append_of_mem {w x rest : Text} {c : Char} (hw : w ≠ []) (hout : c ∉ w)
    (hmem : c ∈ x) : ¬ w ++ x <+: x ++ rest := by
  rintro ⟨tail, htail⟩
  have hfirst := congrArg (List.idxOf c) htail
  rw [List.append_assoc, List.idxOf_append_of_notMem hout, List.idxOf_append_of_mem hmem,
    List.idxOf_append_of_mem hmem] at hfirst
  have hpos := List.length_pos_of_ne_nil hw
  omega

/-- An assignment to a plain name declares it exactly when it is not declared yet. -/
theorem assign_declares_iff {name : Text} (hname : '.' ∉ name) (value : Text) :
    ("var " ++ name ++ " = " : Text) <+: (assign declared name value).1 ↔ name ∉ declared := by
  by_cases hmem : name ∈ declared
  · have hold : (assign declared name value).1 =
        (name ++ " = ".toList) ++ (value ++ ";".toList) := by
      simp [assign, hmem]
    rw [hold, List.append_assoc]
    exact iff_of_false (not_isPrefix_append_of_mem (c := '=') (by decide) (by decide) (by simp))
      (not_not_intro hmem)
  · have hnew : (assign declared name value).1 =
        ("var " ++ name ++ " = " : Text) ++ (value ++ ";".toList) := by
      simp [assign, hname, hmem]
    rw [hnew]
    exact iff_of_true (List.prefix_append _ _) hmem

/-- An assignment adds its name to those that are declared, unless it is a member. -/
theorem mem_assign_snd {t name value : Text} :
    t ∈ (assign declared name value).2 ↔ t ∈ declared ∨ (name = t ∧ '.' ∉ t) := by
  unfold assign
  split
  · rename_i hknown
    have hknown : '.' ∈ name ∨ name ∈ declared := by simpa using hknown
    constructor
    · exact Or.inl
    · rintro (h | ⟨rfl, hdot⟩)
      · exact h
      · exact hknown.resolve_left hdot
  · rename_i hknown
    have hdot : '.' ∉ name := by
      intro hdot
      simp [hdot] at hknown
    rw [List.mem_cons]
    constructor
    · rintro (rfl | h)
      · exact Or.inr ⟨rfl, hdot⟩
      · exact Or.inl h
    · rintro (h | ⟨rfl, -⟩)
      · exact Or.inr h
      · exact Or.inl rfl

/-- The line of an instruction that gives a name a value is an assignment to that name. -/
theorem line_of_target {name : Text} (h : i.target? = some name) :
    ∃ value, ∀ declared, line declared i = assign declared name value := by
  fun_cases Instruction.target? i with
  | case1 target source => exact ⟨source, fun _ => by simp_all [Instruction.target?, line]⟩
  | case2 target source => exact ⟨source, fun _ => by simp_all [Instruction.target?, line]⟩
  | case3 callee args result raw hresult => simp_all [Instruction.target?]
  | case4 callee args result raw hresult =>
    refine ⟨callee ++ "(".toList ++ Text.join ", " args ++ ")".toList, fun _ => ?_⟩
    simp_all [Instruction.target?, line]
  | case5 op target left right result raw _ hop =>
    obtain ⟨sign, hsign⟩ := Option.isSome_iff_exists.mp hop
    refine ⟨left ++ " ".toList ++ sign.toList ++ " ".toList ++ right, fun _ => ?_⟩
    rw [line_arithmetic hsign]
    simp_all [Instruction.target?]
  | case6 => simp_all [Instruction.target?]
  | case7 => simp_all [Instruction.target?]

/-- An instruction that gives no name a value declares nothing. -/
theorem line_snd_of_target_eq_none (h : i.target? = none) : (line declared i).2 = declared := by
  obtain ⟨op, args, result, raw⟩ := i
  fun_cases line declared ⟨op, args, result, raw⟩ <;> simp_all [Instruction.target?]

/-- What is declared after an instruction. -/
theorem mem_line_snd {t : Text} :
    t ∈ (line declared i).2 ↔ t ∈ declared ∨ (i.target? = some t ∧ '.' ∉ t) := by
  cases h : i.target? with
  | none => simp [line_snd_of_target_eq_none h]
  | some name =>
    obtain ⟨value, hline⟩ := line_of_target h
    rw [hline, mem_assign_snd, Option.some.injEq]

/-- The names that are declared after instructions. -/
def declaredAfter (declared : List Text) (is : List Instruction) : List Text :=
  is.foldl (fun declared i => (line declared i).2) declared

/-- After some instructions, the names are declared that were so before, and every plain name that
one of them assigned. -/
theorem mem_declaredAfter {t : Text} {is : List Instruction} :
    t ∈ declaredAfter declared is ↔
      t ∈ declared ∨ ((∃ i ∈ is, i.target? = some t) ∧ '.' ∉ t) := by
  induction is generalizing declared with
  | nil => simp [declaredAfter]
  | cons i is ih =>
    have hstep : declaredAfter declared (i :: is) = declaredAfter (line declared i).2 is := rfl
    rw [hstep, ih, mem_line_snd, List.exists_mem_cons_iff (a := i)]
    tauto

/-- The lines of instructions in two parts. -/
theorem lines_append (is more : List Instruction) :
    lines declared (is ++ more) =
      lines declared is ++ lines (declaredAfter declared is) more := by
  induction is generalizing declared with
  | nil => rfl
  | cons i is ih =>
    rw [List.cons_append, lines_cons, lines_cons, ih]
    rfl

@[simp] theorem length_lines (is : List Instruction) : (lines declared is).length = is.length := by
  induction is generalizing declared with
  | nil => rfl
  | cons i is ih => rw [lines_cons, List.length_cons, ih, List.length_cons]

/-- The line of an instruction among others. -/
theorem getElem?_lines (before after : List Instruction) :
    (lines declared (before ++ i :: after))[before.length]? =
      some ("  ".toList ++ (line (declaredAfter declared before) i).1) := by
  rw [lines_append, List.getElem?_append_right (by simp), length_lines, Nat.sub_self, lines_cons]
  rfl

/-! ### Remarks -/

/-- The characters that end a line of a script, and with it a comment on that line. -/
def lineEnds : List Char := ['\n', '\r', '\u2028', '\u2029']

/-- Such a character is white space, other than the space between words. -/
theorem isBlank_of_mem_lineEnds {c : Char} (h : c ∈ lineEnds) : isBlank c = true ∧ c ≠ ' ' := by
  have hall : ∀ c ∈ lineEnds, isBlank c = true ∧ c ≠ ' ' := by decide
  exact hall c h

/-- The parts between white space have none. -/
theorem isBlank_of_mem_words_go {t part : Text} (h : part ∈ Text.words.go t) :
    ∀ c ∈ part, isBlank c = false := by
  induction t generalizing part with
  | nil =>
    obtain rfl : part = [] := by simpa [Text.words.go] using h
    simp
  | cons c t ih =>
    rw [Text.words.go] at h
    split at h
    · rcases List.mem_cons.mp h with rfl | h
      · simp
      · exact ih h
    · rename_i hc
      have hc : isBlank c = false := by simpa using hc
      split at h
      · obtain rfl : part = [c] := by simpa using h
        simpa using hc
      · rename_i first parts hgo
        rw [hgo] at ih
        rcases List.mem_cons.mp h with rfl | h
        · exact List.forall_mem_cons.mpr ⟨hc, ih (List.mem_cons_self ..)⟩
        · exact ih (List.mem_cons_of_mem _ h)

/-- Words with a space between neighbours have no other white space. -/
theorem eq_space_of_mem_join_words {t : Text} {c : Char}
    (hc : c ∈ Text.join " ".toList t.words) (hblank : isBlank c = true) : c = ' ' := by
  have hsolid : ∀ w ∈ t.words, ∀ c ∈ w, isBlank c = false := fun w hw =>
    isBlank_of_mem_words_go (List.mem_of_mem_filter hw)
  generalize t.words = ws at hc hsolid
  induction ws with
  | nil => simp [Text.join] at hc
  | cons w ws ih =>
    have hw : c ∉ w := by
      intro hmem
      rw [hsolid w (List.mem_cons_self ..) c hmem] at hblank
      cases hblank
    have hsolid : ∀ v ∈ ws, ∀ c ∈ v, isBlank c = false := fun v hv =>
      hsolid v (List.mem_cons_of_mem _ hv)
    cases ws with
    | nil => exact absurd hc hw
    | cons v ws =>
      rw [Text.join_cons _ _ (List.cons_ne_nil v ws), List.mem_append, List.mem_append] at hc
      rcases hc with hc | hc | hc
      · exact absurd hc hw
      · exact List.mem_singleton.mp hc
      · exact ih hc hsolid

/-- The comment for an instruction stands on one line, whatever the instruction holds. -/
theorem notMem_unsupported {c : Char} (h : c ∈ lineEnds) (i : Instruction) :
    c ∉ unsupported i := by
  obtain ⟨hblank, hspace⟩ := isBlank_of_mem_lineEnds h
  obtain ⟨text, htext⟩ : ∃ text : Text,
      unsupported i = "// unsupported: ".toList ++ Text.join " ".toList text.words := ⟨_, rfl⟩
  have hmark : ∀ c ∈ "// unsupported: ".toList, c ∉ lineEnds := by decide
  rw [htext, List.mem_append]
  rintro (hc | hc)
  · exact hmark c hc h
  · exact hspace (eq_space_of_mem_join_words hc hblank)

/-- An instruction without a script form shows as a comment and declares nothing. -/
theorem line_of_not_hasForm (h : i.hasForm = false) :
    line declared i = (unsupported i, declared) := by
  obtain ⟨op, args, result, raw⟩ := i
  fun_cases line declared ⟨op, args, result, raw⟩ <;> simp_all [Instruction.hasForm]

/-! ### The lines of a script -/

/-- A routine as a function shows its head, the lines of its body one after the other, and its
end. -/
theorem exists_script_eq (r : Routine) :
    ∃ head tail, r.script = Text.unlines (head :: (r.body ++ tail)) :=
  ⟨_, _, by rw [script, List.append_assoc, List.cons_append]; rfl⟩

/-- The line of an instruction stands in the body of its routine. It declares a plain name exactly
when no parameter shows as that name, it is not `this`, and no instruction before assigned it. If
the instruction has no script form, the line is one comment. -/
theorem body_declares_iff {r : Routine} {before after : List Instruction} {i : Instruction}
    (h : r.instructions = before ++ i :: after) :
    (∃ head tail, r.script = Text.unlines (head :: (r.body ++ tail))) ∧
      ∃ l, r.body[before.length]? = some l ∧
        (∀ name, i.target? = some name → '.' ∉ name →
          ((("  var " ++ name ++ " = " : Text) <+: l) ↔
            name ∉ r.params.map identifier ∧ name ≠ "this".toList ∧
              ∀ j ∈ before, j.target? ≠ some name)) ∧
        (i.hasForm = false →
          ∃ text, l = "  // unsupported: " ++ text ∧ ∀ c ∈ lineEnds, c ∉ l) := by
  refine ⟨r.exists_script_eq, _, by rw [body, h, getElem?_lines], ?_, ?_⟩
  · intro name htarget hdot
    obtain ⟨value, hline⟩ := line_of_target htarget
    have hindent : ("  var " ++ name ++ " = " : Text) =
        "  ".toList ++ ("var " ++ name ++ " = " : Text) := rfl
    rw [hline, hindent, List.prefix_append_right_inj, assign_declares_iff hdot, mem_declaredAfter]
    simp only [List.mem_append, List.mem_singleton, hdot, not_false_eq_true, and_true, not_or,
      not_exists, not_and, and_assoc, ne_eq]
  · intro hform
    rw [line_of_not_hasForm hform]
    refine ⟨Text.join " " (Text.words _), rfl, fun c hc => ?_⟩
    rw [List.mem_append, not_or]
    have hindent : ∀ c ∈ lineEnds, c ∉ "  ".toList := by decide
    exact ⟨hindent c hc, notMem_unsupported hc i⟩

/-- A routine that assigns its parameter, a member, `x` twice, and holds an unknown instruction
over several lines. -/
def declaring : Routine where
  name := "f".toList
  params := ["a".toList]
  instructions :=
    [⟨.load, ["a".toList, "1".toList], [], []⟩,
     ⟨.store, ["o.p".toList, "a".toList], [], []⟩,
     ⟨.call, ["g".toList], "x".toList, []⟩,
     ⟨.add, ["x".toList, "x".toList, "1".toList], [], []⟩,
     .unknown "spill\n r0,\u2028 r1".toList]

/-- Its third line declares `x`, its fourth does not do so again, and its last is one comment. -/
theorem body_declaring :
    (∃ l, declaring.body[2]? = some l ∧ ("  var x = " : Text) <+: l) ∧
      (∃ l, declaring.body[3]? = some l ∧ ¬ ("  var x = " : Text) <+: l) ∧
      ∃ l, declaring.body[4]? = some l ∧ ("  // unsupported: " : Text) <+: l ∧
        ∀ c ∈ lineEnds, c ∉ l := by
  have hcall : declaring.instructions =
      declaring.instructions.take 2 ++ ⟨.call, ["g".toList], "x".toList, []⟩ ::
        declaring.instructions.drop 3 := by decide
  have hadd : declaring.instructions =
      declaring.instructions.take 3 ++ ⟨.add, ["x".toList, "x".toList, "1".toList], [], []⟩ ::
        declaring.instructions.drop 4 := by decide
  have hunknown : declaring.instructions =
      declaring.instructions.take 4 ++ .unknown "spill\n r0,\u2028 r1".toList :: [] := by decide
  refine ⟨?_, ?_, ?_⟩
  · obtain ⟨-, l, hl, hdeclares, -⟩ := body_declares_iff hcall
    exact ⟨l, hl, (hdeclares "x".toList (by decide) (by decide)).mpr (by decide)⟩
  · obtain ⟨-, l, hl, hdeclares, -⟩ := body_declares_iff hadd
    refine ⟨l, hl, fun hvar => ?_⟩
    have hfirst := ((hdeclares "x".toList (by decide) (by decide)).mp hvar).2.2
    exact absurd hfirst (by decide)
  · obtain ⟨-, l, hl, -, hremark⟩ := body_declares_iff hunknown
    obtain ⟨text, rfl, hends⟩ := hremark (by decide)
    exact ⟨_, hl, List.prefix_append _ _, hends⟩

end Routine

end HostScript
