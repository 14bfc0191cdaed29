import HostScript.Routine
import Mathlib.Data.List.Basic

/-!
# Parameters in the head and in the body of a script

The head of a script shows a parameter as an identifier, while the lines of its body show operands
as they are. Both show the same exactly when every parameter that the body mentions is an
identifier already: it is not empty, does not start with a digit and is no reserved word.
-/

namespace HostScript

namespace Instruction

/-- The operands that the line of an instruction shows. A jump that always happens shows none. -/
def operands : Instruction → List Text
  | ⟨.load, [target, source], _, _⟩ => [target, source]
  | ⟨.store, [target, source], _, _⟩ => [target, source]
  | ⟨.call, _ :: args, result, _⟩ => if result.isEmpty then args else result :: args
  | ⟨.return_, value :: _, _, _⟩ => [value]
  | ⟨.branch, [condition, _], _, _⟩ => if condition == "true".toList then [] else [condition]
  | ⟨.loop, count :: _, _, _⟩ => [count]
  | ⟨op, [target, left, right], _, _⟩ =>
    if op.operator?.isSome then [target, left, right] else []
  | _ => []

/-- The instruction with the operands that its line shows renamed. -/
def mapOperands (rename : Text → Text) : Instruction → Instruction
  | ⟨.load, [target, source], result, raw⟩ => ⟨.load, [rename target, rename source], result, raw⟩
  | ⟨.store, [target, source], result, raw⟩ => ⟨.store, [rename target, rename source], result, raw⟩
  | ⟨.call, callee :: args, result, raw⟩ =>
    ⟨.call, callee :: args.map rename, if result.isEmpty then result else rename result, raw⟩
  | ⟨.return_, value :: rest, result, raw⟩ => ⟨.return_, rename value :: rest, result, raw⟩
  | ⟨.branch, [condition, label], result, raw⟩ =>
    ⟨.branch, [if condition == "true".toList then condition else rename condition, label], result,
      raw⟩
  | ⟨.loop, count :: rest, result, raw⟩ => ⟨.loop, rename count :: rest, result, raw⟩
  | ⟨op, [target, left, right], result, raw⟩ =>
    if op.operator?.isSome then ⟨op, [rename target, rename left, rename right], result, raw⟩
    else ⟨op, [target, left, right], result, raw⟩
  | i => i

/-- Renaming that leaves the operands alone leaves the instruction alone. -/
theorem mapOperands_eq_self {rename : Text → Text} {i : Instruction}
    (h : ∀ t ∈ i.operands, rename t = t) : i.mapOperands rename = i := by
  fun_cases mapOperands rename i with
  | case3 callee args result raw =>
    have hargs : ∀ t ∈ args, rename t = t := by
      cases hr : result.isEmpty <;> simp_all [operands]
    have hmap : args.map rename = args := by
      rw [List.map_congr_left hargs, List.map_id']
    cases hr : result.isEmpty <;> simp_all [operands]
  | _ => simp_all [operands]

end Instruction

namespace Routine

/-- A renaming makes texts longer or leaves them alone. -/
def Lengthens (rename : Text → Text) : Prop :=
  ∀ t, t.length ≤ (rename t).length ∧ ((rename t).length = t.length → rename t = t)

/-- Texts in a row that a renaming does not make longer are left alone. -/
theorem Lengthens.join {rename : Text → Text} (h : Lengthens rename) (sep : Text)
    (ts : List Text) :
    (Text.join sep ts).length ≤ (Text.join sep (ts.map rename)).length ∧
      ((Text.join sep (ts.map rename)).length = (Text.join sep ts).length →
        ∀ t ∈ ts, rename t = t) := by
  induction ts with
  | nil => simp
  | cons t ts ih =>
    obtain ⟨hle, heq⟩ := h t
    cases ts with
    | nil => simpa [Text.join] using ⟨hle, heq⟩
    | cons u us =>
      obtain ⟨hle', heq'⟩ := ih
      simp only [List.map_cons, Text.join, List.length_append] at hle' heq' ⊢
      refine ⟨by omega, fun hlen => ?_⟩
      rw [List.forall_mem_cons]
      exact ⟨heq (by omega), heq' (by omega)⟩

/-- A renaming gives names that are declared, one word each and not reserved. -/
def GivesNames (rename : Text → Text) (declared : List Text) : Prop :=
  ∀ t, rename t ≠ t →
    rename t ∈ declared ∧ ' ' ∉ rename t ∧ ∀ w ∈ reservedWords, rename t ≠ w.toList

/-- What stands before the first occurrence of a character. -/
theorem eq_of_append_cons {c : Char} {x y a b : Text} (hx : c ∉ x) (hy : c ∉ y)
    (h : x ++ c :: a = y ++ c :: b) : x = y := by
  have hread {t : Text} (ht : c ∉ t) (rest : Text) :
      (t ++ c :: rest).takeWhile (· != c) = t := by
    rw [List.takeWhile_append_of_pos fun d hd => ?_, List.takeWhile_cons_of_neg (by simp),
      List.append_nil]
    rw [bne_iff_ne]
    rintro rfl
    exact ht hd
  have hfirst := congrArg (List.takeWhile (· != c)) h
  rwa [hread hx, hread hy] at hfirst

section Lines

variable {rename : Text → Text} {declared : List Text}

/-- An assignment reads the same after renaming only if its target and its value do. -/
theorem assign_eq (hlong : Lengthens rename) (hnames : GivesNames rename declared)
    {target value value' : Text} (hle : value.length ≤ value'.length)
    (h : (assign declared target value).1 = (assign declared (rename target) value').1) :
    rename target = target ∧ value = value' := by
  by_cases hfix : rename target = target
  · refine ⟨hfix, ?_⟩
    rw [hfix] at h
    unfold assign at h
    split at h <;> simpa using h
  · exfalso
    obtain ⟨hmem, hsolid, hfree⟩ := hnames target hfix
    have hknown : (rename target).contains '.' || declared.contains (rename target) := by
      simp [hmem]
    unfold assign at h
    rw [if_pos hknown] at h
    split at h
    · obtain ⟨hlen, heq⟩ := hlong target
      have hsame := congrArg List.length h
      simp only [List.length_append] at hsame
      exact hfix (heq (by omega))
    · -- One line starts with `var`, the other with the name, and both go on with a blank.
      have hword : "var".toList ++ ' ' :: (target ++ (" = ".toList ++ (value ++ ";".toList))) =
          rename target ++ ' ' :: ("= ".toList ++ (value' ++ ";".toList)) := by
        simpa using h
      exact hfree "var" (by decide) (eq_of_append_cons (by decide) hsolid hword).symm

/-- The line of an arithmetic instruction. -/
theorem line_arithmetic {op : Opcode} {sign : String} (h : op.operator? = some sign)
    (target left right result raw : Text) :
    line declared ⟨op, [target, left, right], result, raw⟩ =
      assign declared target (left ++ " ".toList ++ sign.toList ++ " ".toList ++ right) := by
  cases op <;> simp_all [Opcode.operator?, line]

/-- The line of an instruction reads the same after renaming only if its operands do. -/
theorem fixed_of_line_eq (hlong : Lengthens rename) (hnames : GivesNames rename declared)
    {i : Instruction} (h : (line declared i).1 = (line declared (i.mapOperands rename)).1) :
    ∀ t ∈ i.operands, rename t = t := by
  fun_cases Instruction.operands i with
  | case1 target source result raw | case2 target source result raw =>
    obtain ⟨htarget, hsource⟩ := assign_eq hlong hnames (hlong source).1 h
    simpa using ⟨htarget, hsource.symm⟩
  | case3 callee args result raw hresult =>
    simp only [Instruction.mapOperands, line, hresult, if_true] at h
    have hlen := congrArg List.length h
    simp only [List.length_append] at hlen
    exact (hlong.join ", ".toList args).2 (by omega)
  | case4 callee args result raw hresult =>
    have hkept : (rename result).isEmpty = false := by
      have := (hlong result).1
      cases hr : rename result <;> simp_all
    simp only [Instruction.mapOperands, line, hresult, Bool.false_eq_true, if_false, hkept] at h
    obtain ⟨hargs, hfixed⟩ := hlong.join ", ".toList args
    obtain ⟨htarget, hvalue⟩ := assign_eq hlong hnames
      (by simp only [List.length_append]; omega) h
    have hlen := congrArg List.length hvalue
    simp only [List.length_append] at hlen
    rw [List.forall_mem_cons]
    exact ⟨htarget, hfixed (by omega)⟩
  | case5 value rest result raw =>
    simp only [Instruction.mapOperands, line] at h
    simpa using h.symm
  | case6 condition label result raw htrue => simp
  | case7 condition label result raw htrue =>
    have hkept : (rename condition == "true".toList) = false := by
      by_cases hfix : rename condition = condition
      · simpa [hfix] using htrue
      · exact beq_eq_false_iff_ne.mpr ((hnames condition hfix).2.2 "true" (by decide))
    simp only [Instruction.mapOperands, line, htrue, hkept, Bool.false_eq_true, if_false] at h
    simpa using h.symm
  | case8 count rest result raw =>
    simp only [Instruction.mapOperands, line] at h
    simpa using h.symm
  | case9 op target left right result raw _ _ _ hop =>
    obtain ⟨sign, hsign⟩ := Option.isSome_iff_exists.mp hop
    have hmap : (Instruction.mk op [target, left, right] result raw).mapOperands rename =
        ⟨op, [rename target, rename left, rename right], result, raw⟩ := by
      cases op <;> simp_all [Instruction.mapOperands]
    rw [hmap, line_arithmetic hsign, line_arithmetic hsign] at h
    obtain ⟨hleft, hfixLeft⟩ := hlong left
    obtain ⟨hright, hfixRight⟩ := hlong right
    obtain ⟨htarget, hvalue⟩ := assign_eq hlong hnames
      (by simp only [List.length_append]; omega) h
    have hlen := congrArg List.length hvalue
    simp only [List.length_append] at hlen
    simpa using ⟨htarget, hfixLeft (by omega), hfixRight (by omega)⟩
  | case10 => simp
  | case11 => simp

/-- Names stay declared. -/
theorem mem_line {t : Text} (h : t ∈ declared) (i : Instruction) : t ∈ (line declared i).2 := by
  have hassign (name value : Text) : t ∈ (assign declared name value).2 := by
    unfold assign
    split
    · exact h
    · exact List.mem_cons_of_mem _ h
  unfold line
  split
  all_goals first
    | exact h
    | exact hassign _ _
    | (split; all_goals first | exact h | exact hassign _ _)

theorem lines_cons (i : Instruction) (is : List Instruction) :
    lines declared (i :: is) =
      ("  ".toList ++ (line declared i).1) :: lines (line declared i).2 is := rfl

/-- Lines read the same after renaming only if the operands in them do: as long as they do, the
same names are declared. -/
theorem fixed_of_lines_eq (hlong : Lengthens rename) (hnames : GivesNames rename declared)
    {is : List Instruction}
    (h : lines declared is = lines declared (is.map (·.mapOperands rename))) :
    ∀ i ∈ is, ∀ t ∈ i.operands, rename t = t := by
  induction is generalizing declared with
  | nil => simp
  | cons i is ih =>
    rw [List.map_cons, lines_cons, lines_cons] at h
    obtain ⟨hline, hrest⟩ := List.cons.inj h
    have hfixed := fixed_of_line_eq hlong hnames (List.append_cancel_left hline)
    rw [Instruction.mapOperands_eq_self hfixed] at hrest
    have hmore : GivesNames rename (line declared i).2 := by
      intro t ht
      obtain ⟨hmem, hword⟩ := hnames t ht
      exact ⟨mem_line hmem i, hword⟩
    rw [List.forall_mem_cons]
    exact ⟨hfixed, ih hmore hrest⟩

end Lines

/-- All characters can stand in an identifier. -/
def IsWordLike (t : Text) : Prop := ∀ c ∈ t, isIdentPart c = true

instance (t : Text) : Decidable (IsWordLike t) :=
  decidable_of_iff (t.all isIdentPart = true) List.all_eq_true

/-- The text as an identifier, reserved or not. -/
def bindable (t : Text) : Text :=
  match identifierChars t with
  | [] => ['_']
  | c :: rest => if isDigitLike c then '_' :: c :: rest else c :: rest

theorem identifier_eq (t : Text) : identifier t =
    if reservedWords.any (·.toList == bindable t) then bindable t ++ ['_'] else bindable t := rfl

theorem isWordLike_identifierChars (t : Text) : IsWordLike (identifierChars t) := by
  intro c hc
  obtain ⟨d, -, rfl⟩ := List.mem_map.mp hc
  split
  · assumption
  · decide

theorem identifierChars_eq_self {t : Text} (h : IsWordLike t) : identifierChars t = t := by
  rw [identifierChars, List.map_congr_left fun c hc => if_pos (h c hc), List.map_id']

/-- What the head shows is one word that starts with no digit. -/
theorem bindable_spec (t : Text) :
    IsWordLike (bindable t) ∧ bindable t ≠ [] ∧ (bindable t).head?.any isDigitLike = false := by
  have hchars := isWordLike_identifierChars t
  unfold bindable
  split
  · exact ⟨by simp [IsWordLike]; decide, by simp, by decide⟩
  · rename_i c rest heq
    rw [heq] at hchars
    split
    · refine ⟨?_, by simp, show isDigitLike '_' = false by decide⟩
      intro d hd
      rcases List.mem_cons.mp hd with rfl | hd
      · decide
      · exact hchars d hd
    · rename_i hdigit
      exact ⟨hchars, by simp, by simpa using hdigit⟩

/-- What the head shows is in addition no reserved word. -/
theorem identifier_spec (t : Text) :
    IsWordLike (identifier t) ∧ identifier t ≠ [] ∧
      (identifier t).head?.any isDigitLike = false ∧
      ∀ w ∈ reservedWords, identifier t ≠ w.toList := by
  obtain ⟨hchars, hne, hdigit⟩ := bindable_spec t
  rw [identifier_eq]
  split
  · refine ⟨?_, by simp, ?_, ?_⟩
    · intro c hc
      rcases List.mem_append.mp hc with hc | hc
      · exact hchars c hc
      · obtain rfl : c = '_' := by simpa using hc
        decide
    · cases hb : bindable t with
      | nil => exact absurd hb hne
      | cons c rest => simpa [hb] using hdigit
    · -- No reserved word ends in an underscore.
      intro w hw heq
      have hlast : ∀ w ∈ reservedWords, w.toList.getLast? ≠ some '_' := by decide
      exact hlast w hw (by rw [← heq]; simp)
  · rename_i hfree
    refine ⟨hchars, hne, hdigit, fun w hw heq => hfree ?_⟩
    exact List.any_eq_true.mpr ⟨w, hw, by simp [heq]⟩

/-- A word is longer as an identifier, or an identifier already. -/
theorem length_identifier {t : Text} (h : IsWordLike t) :
    t.length ≤ (identifier t).length ∧ ((identifier t).length = t.length → identifier t = t) := by
  have hbindable : bindable t = t ∨ (bindable t).length = t.length + 1 := by
    unfold bindable
    rw [identifierChars_eq_self h]
    split
    · exact Or.inr rfl
    · split
      · exact Or.inr rfl
      · exact Or.inl rfl
  rw [identifier_eq]
  split
  · rw [List.length_append, List.length_singleton]
    rcases hbindable with heq | hlen
    · rw [heq]
      exact ⟨by omega, by omega⟩
    · exact ⟨by omega, by omega⟩
  · rcases hbindable with heq | hlen
    · rw [heq]
      exact ⟨Nat.le_refl _, fun _ => rfl⟩
    · exact ⟨by omega, by omega⟩

/-- The words that are reserved in scripts, those of strict code included. -/
def allReservedWords : List String :=
  reservedWords ++
    ["await", "implements", "interface", "package", "private", "protected", "public"]

/-- A text names a binding of its own in a script: it is no number and no reserved word. -/
structure IsName (t : Text) : Prop where
  nonempty : t ≠ []
  notNumber : t.head?.any isDigitLike = false
  notReserved : ∀ w ∈ allReservedWords, t ≠ w.toList

/-- A word that names a binding is shown as it is. -/
theorem IsName.identifier_eq_self {t : Text} (h : IsName t) (hword : IsWordLike t) :
    identifier t = t := by
  have hbindable : bindable t = t := by
    unfold bindable
    rw [identifierChars_eq_self hword]
    split
    · exact absurd rfl h.nonempty
    · rename_i c rest
      have hdigit : ¬ isDigitLike c = true := by simpa using h.notNumber
      rw [if_neg hdigit]
  rw [identifier_eq, hbindable, if_neg]
  rw [List.any_eq_true]
  rintro ⟨w, hw, heq⟩
  exact h.notReserved w (List.mem_append_left _ hw) (by simpa using (beq_iff_eq.mp heq).symm)

variable {r : Routine}

/-- How the head shows a text: a parameter as an identifier. -/
def headerName (r : Routine) (t : Text) : Text := if t ∈ r.params then identifier t else t

/-- The lines between the head of a script and its end. -/
def body (r : Routine) : List Text :=
  lines (r.params.map identifier ++ ["this".toList]) r.instructions

/-- The routine with its operands named as in the head. -/
def headed (r : Routine) : Routine :=
  { r with instructions := r.instructions.map (·.mapOperands r.headerName) }

/-- A line of the body shows a text as an operand. -/
def Mentions (r : Routine) (t : Text) : Prop := ∃ i ∈ r.instructions, t ∈ i.operands

/-- The body names parameters as the head does, by names of their own. -/
structure KeepsParams (r : Routine) : Prop where
  shown : r.body = r.headed.body
  usable : ∀ p ∈ r.params, r.Mentions p → IsName (identifier p)

/-- Head and body show the same parameters exactly when those that are mentioned are shown as they
are. -/
theorem body_eq_iff (hwords : ∀ p ∈ r.params, IsWordLike p) :
    r.body = r.headed.body ↔ ∀ p ∈ r.params, r.Mentions p → identifier p = p := by
  constructor
  · intro h p hp ⟨i, hi, hoperand⟩
    have hlong : Lengthens r.headerName := by
      intro t
      unfold headerName
      split
      · rename_i ht
        exact length_identifier (hwords t ht)
      · exact ⟨Nat.le_refl _, fun _ => rfl⟩
    have hnames : GivesNames r.headerName (r.params.map identifier ++ ["this".toList]) := by
      intro t ht
      by_cases hparam : t ∈ r.params
      · obtain ⟨hchars, -, -, hfree⟩ := identifier_spec t
        rw [headerName, if_pos hparam]
        refine ⟨List.mem_append_left _ (List.mem_map_of_mem hparam), fun hblank => ?_, hfree⟩
        exact absurd (hchars ' ' hblank) (by decide)
      · exact absurd (if_neg hparam) ht
    have hfixed := fixed_of_lines_eq hlong hnames h i hi p hoperand
    rwa [headerName, if_pos hp] at hfixed
  · intro h
    have hsame : r.instructions.map (·.mapOperands r.headerName) = r.instructions := by
      rw [List.map_congr_left fun i hi => Instruction.mapOperands_eq_self fun t ht => ?_,
        List.map_id']
      unfold headerName
      split
      · rename_i hparam
        exact h t hparam ⟨i, hi, ht⟩
      · rfl
    rw [headed, hsame]

/-- Parameters keep their names exactly when those that are mentioned are names already. -/
theorem keepsParams_iff (hwords : ∀ p ∈ r.params, IsWordLike p) :
    r.KeepsParams ↔ ∀ p ∈ r.params, r.Mentions p → IsName p := by
  constructor
  · intro h p hp hmention
    have hname := h.usable p hp hmention
    rwa [(body_eq_iff hwords).mp h.shown p hp hmention] at hname
  · intro h
    have hfixed : ∀ p ∈ r.params, r.Mentions p → identifier p = p := fun p hp hmention =>
      (h p hp hmention).identifier_eq_self (hwords p hp)
    refine ⟨(body_eq_iff hwords).mpr hfixed, fun p hp hmention => ?_⟩
    rw [hfixed p hp hmention]
    exact h p hp hmention

end Routine

end HostScript
