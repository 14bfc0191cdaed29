import HostScript.Proofs.Listing.Jvm
import HostScript.Proofs.Pattern.Found
import HostScript.Proofs.Text
import Mathlib.Algebra.GroupWithZero.Nat
import Mathlib.Data.List.Nodup

/-!
# Slots of parameters

The platforms give every parameter the slots that its type needs, one behind the other, and a value
of type `long` or `double` needs two. The readers count parameters instead, so the slot where a
parameter lies names the one as many places further on as there are wide parameters before it.
-/

namespace HostScript.Listing

/-- The type of a value. -/
inductive ValueType where
  | boolean
  | byte
  | short
  | char
  | int
  | long
  | float
  | double
  | object (className : Text)
  | array (element : ValueType)

namespace ValueType

/-- A type as a method descriptor spells it. -/
def descriptor : ValueType → Text
  | .boolean => ['Z']
  | .byte => ['B']
  | .short => ['S']
  | .char => ['C']
  | .int => ['I']
  | .long => ['J']
  | .float => ['F']
  | .double => ['D']
  | .object className => 'L' :: (className ++ [';'])
  | .array element => '[' :: element.descriptor

/-- The slots that a value takes. -/
def width : ValueType → Nat
  | .long | .double => 2
  | _ => 1

/-- Classes are called by names that a descriptor can hold. -/
def IsNamed : ValueType → Prop
  | .object className => className ≠ [] ∧ ';' ∉ className
  | .array element => element.IsNamed
  | _ => True

end ValueType

/-- The slots that a value takes, by the name of its type in a source. -/
def nameWidth (typeName : Text) : Nat :=
  if typeName = "long".toList ∨ typeName = "double".toList then 2 else 1

/-- Texts that compare equal are equal. -/
local instance lawfulBEqText : LawfulBEq Text := inferInstance

/-- The first slot of a parameter: behind the receiver and the parameters before it. -/
def slotOf (modifiers : Text) (widths : List Nat) (i : Nat) : Nat :=
  (if "static".toList ∈ modifiers.words then 0 else 1) + (widths.take i).sum

/-- The number of wide parameters before one. -/
def wideBefore (widths : List Nat) (i : Nat) : Nat := (widths.take i).count 2

variable {modifiers : Text} {widths : List Nat} {i : Nat}

theorem ValueType.width_eq (t : ValueType) : t.width = 1 ∨ t.width = 2 := by
  cases t <;> simp [width]

theorem nameWidth_eq (n : Text) : nameWidth n = 1 ∨ nameWidth n = 2 := by
  unfold nameWidth
  split <;> simp

/-- Wide parameters take one slot more than there are parameters. -/
theorem sum_eq (h : ∀ w ∈ widths, w = 1 ∨ w = 2) : widths.sum = widths.length + widths.count 2 := by
  induction widths with
  | nil => rfl
  | cons w widths ih =>
    rw [List.forall_mem_cons] at h
    rw [List.sum_cons, ih h.2, List.length_cons]
    rcases h.1 with rfl | rfl
    · rw [List.count_cons_of_ne (by decide)]
      omega
    · rw [List.count_cons_self]
      omega

/-- The slot of a parameter is its place among the slots, moved on by the wide ones before it. -/
theorem slotOf_eq (h : ∀ w ∈ widths, w = 1 ∨ w = 2) (hi : i < widths.length) :
    slotOf modifiers widths i =
      i + wideBefore widths i + if isStatic modifiers then 0 else 1 := by
  have hstatic : (if "static".toList ∈ modifiers.words then 0 else 1) =
      if isStatic modifiers then 0 else 1 := by
    simp only [isStatic, List.contains_iff_mem]
  rw [slotOf, hstatic, sum_eq fun w hw => h w (List.mem_of_mem_take hw), wideBefore,
    List.length_take_of_le hi.le, Nat.add_comm]

theorem wideBefore_eq_zero_iff (h : ∀ w ∈ widths, w = 1 ∨ w = 2) :
    wideBefore widths i = 0 ↔ ∀ w ∈ widths.take i, w = 1 := by
  rw [wideBefore, List.count_eq_zero]
  refine ⟨fun hno w hw => ?_, fun hall hmem => absurd (hall 2 hmem) (by decide)⟩
  refine (h w (List.mem_of_mem_take hw)).resolve_right ?_
  rintro rfl
  exact hno hw

/-- Of a list without repetitions, an entry further on is another one. -/
theorem getElem?_eq_iff {α : Type} {xs : List α} (hxs : xs.Nodup) {k : Nat} (hi : i < xs.length) :
    xs[i + k]? = xs[i]? ↔ k = 0 := by
  refine ⟨fun h => ?_, fun h => by rw [h, Nat.add_zero]⟩
  rw [List.getElem?_eq_getElem hi] at h
  obtain ⟨hk, heq⟩ := List.getElem?_eq_some_iff.mp h
  have hplace := hxs.getElem_inj_iff.mp heq
  omega

/-! ### The types in a descriptor -/

section Descriptor

open Pattern

/-- A descriptor is made of brackets and what the array finally holds. -/
theorem ValueType.exists_descriptor_eq (t : ValueType) : ∃ n base,
    t.descriptor = List.replicate n '[' ++ base ∧
      ((∃ c, base = [c] ∧ among "ZBSCIJFD" c = true) ∨
        ∃ className, base = 'L' :: (className ++ [';']) ∧
          (t.IsNamed → className ≠ [] ∧ ';' ∉ className)) := by
  induction t with
  | object className => exact ⟨0, _, rfl, Or.inr ⟨className, rfl, id⟩⟩
  | array element ih =>
    obtain ⟨n, base, hbase, h⟩ := ih
    exact ⟨n + 1, base, congrArg (List.cons '[') hbase, h⟩
  | _ => exact ⟨0, _, rfl, Or.inl ⟨_, rfl, by decide⟩⟩

/-- One type is read where its descriptor comes next. -/
theorem ValueType.takes_descriptor {t : ValueType} (ht : t.IsNamed) (rest : Text) :
    descriptorType.Takes t.descriptor rest noGroups := by
  obtain ⟨n, base, hdescriptor, h⟩ := t.exists_descriptor_eq
  have hbrackets : ∀ a ∈ List.replicate n '[', (a == '[') = true := by
    intro a ha
    rw [(List.mem_replicate.mp ha).2]
    rfl
  rw [hdescriptor]
  rcases h with ⟨c, rfl, hc⟩ | ⟨className, rfl, hnamed⟩
  · have hhead : ([c] ++ rest).head?.any (· == '[') = false := by
      refine Bool.eq_false_iff.mpr fun hbracket => ?_
      obtain rfl : c = '[' := by simpa using hbracket
      exact absurd hc (by decide)
    exact (takes_star hbrackets hhead).append (takes_one hc rest).left
  · obtain ⟨hne, hsemicolon⟩ := hnamed ht
    have hname : ∀ a ∈ className, outside (among ";") a = true := by
      intro a ha
      have : a ≠ ';' := fun heq => hsemicolon (heq ▸ ha)
      simpa [outside, among] using this
    have hclass : (lit "L" ++ (noneOf (among ";")).plus ++ lit ";").Takes
        (['L'] ++ className ++ [';']) rest noGroups :=
      ((takes_text ['L'] _).append (takes_plus hne hname rfl)).append (takes_text [';'] rest)
    exact (takes_star hbrackets rfl).append (hclass.right (refuses_one rfl))

theorem ValueType.descriptor_ne_nil (t : ValueType) : t.descriptor ≠ [] := by
  cases t <;> simp [descriptor]

/-- No type is read at the end. -/
theorem refuses_descriptorType : descriptorType.Refuses [] := by
  intro k c hc
  have hbrackets : c.after.head?.any (· == '[') = false := by rw [hc]; rfl
  have hclass : (lit "L" ++ (noneOf (among ";")).plus ++ lit ";").Refuses [] :=
    ((refuses_text (by simp) []).append _).append _
  exact (run_star_one_stop hbrackets).trans (((refuses_one rfl).orElse hclass) k c hc)

/-- The types of a descriptor are counted one by one. -/
theorem length_matchesFrom_descriptor {types : List ValueType} (h : ∀ t ∈ types, t.IsNamed)
    (s : Text) {fuel : Nat} (hfuel : types.length < fuel) {c : Cursor}
    (hc : c.after = types.flatMap ValueType.descriptor) :
    (descriptorType.matchesFrom s fuel false c).length = types.length := by
  induction types generalizing fuel c with
  | nil =>
    obtain ⟨fuel, rfl⟩ : ∃ n, fuel = n + 1 := ⟨fuel - 1, by omega⟩
    have hnone : descriptorType.searchFrom c.before c.pos false c.after = none := by
      rw [hc, List.flatMap_nil, searchFrom, refuses_descriptorType _ _ rfl]
      rfl
    rw [matchesFrom, hnone]
    rfl
  | cons t types ih =>
    rw [List.forall_mem_cons] at h
    obtain ⟨before, after, pos, groups⟩ := c
    obtain ⟨fuel, rfl⟩ : ∃ n, fuel = n + 1 := ⟨fuel - 1, by omega⟩
    obtain rfl : after = t.descriptor ++ types.flatMap ValueType.descriptor := hc
    have hrun := ValueType.takes_descriptor h.1 (types.flatMap ValueType.descriptor) some
      ⟨before, _, pos, []⟩ _ rfl rfl
    have hlength := List.length_pos_iff.mpr t.descriptor_ne_nil
    have hmoved : pos + t.descriptor.length ≠ pos := by omega
    rw [matchesFrom_of_run hrun hmoved, List.length_cons, List.length_cons,
      ih h.2 (by rw [List.length_cons] at hfuel; omega) (Cursor.after_behind rfl noGroups)]

/-- A descriptor has as many types as it was written from. -/
theorem descriptorArity_descriptor {types : List ValueType} (h : ∀ t ∈ types, t.IsNamed) :
    descriptorArity (types.flatMap ValueType.descriptor) = types.length := by
  have hlength : types.length ≤ (types.flatMap ValueType.descriptor).length := by
    induction types with
    | nil => exact Nat.zero_le _
    | cons t types ih =>
      have hpos := List.length_pos_iff.mpr t.descriptor_ne_nil
      have hrest := ih (List.forall_mem_cons.mp h).2
      rw [List.flatMap_cons, List.length_append, List.length_cons]
      omega
  exact length_matchesFrom_descriptor h _ (by omega) rfl

end Descriptor

/-! ### The types in a head -/

/-- A type in a source has a name, with more in it than blanks and commas. -/
def HasName (typeName : Text) : Prop := ∃ c ∈ typeName, isBlank c = false ∧ c ≠ ','

/-- The parts of a head that are not blank. -/
def solidParts (types : Text) : List Text :=
  (types.splitOn ',').filter fun p => !(Text.trim p).isEmpty

theorem length_solidParts_pos {t : Text} (h : HasName t) : 0 < (solidParts t).length := by
  obtain ⟨c, hc, hsolid, hcomma⟩ := h
  rw [← Text.join_splitOn ',' t] at hc
  obtain ⟨part, hpart, hmem⟩ :=
    (Text.mem_of_mem_join hc).resolve_left fun h => hcomma (List.mem_singleton.mp h)
  refine List.length_pos_of_mem (List.mem_filter.mpr ⟨hpart, ?_⟩)
  rw [Bool.not_eq_true', List.isEmpty_eq_false_iff, ne_eq, Text.trim_eq_nil_iff]
  exact fun hblank => Bool.false_ne_true (hsolid.symm.trans (hblank c hmem))

/-- A head has at least as many parts as types. -/
theorem length_le_solidParts {names : List Text} (h : ∀ n ∈ names, HasName n) (blanks : Text) :
    names.length ≤ (solidParts (blanks ++ Text.join ", " names)).length := by
  induction names generalizing blanks with
  | nil => exact Nat.zero_le _
  | cons n names ih =>
    rw [List.forall_mem_cons] at h
    obtain ⟨c, hc, hsolid⟩ := h.1
    have hpos : 0 < (solidParts (blanks ++ n)).length :=
      length_solidParts_pos ⟨c, List.mem_append_right _ hc, hsolid⟩
    cases names with
    | nil => exact hpos
    | cons n' names =>
      have hjoin : blanks ++ Text.join ", " (n :: n' :: names) =
          (blanks ++ n) ++ ',' :: ([' '] ++ Text.join ", " (n' :: names)) := by
        simp [Text.join]
      have hrest := ih h.2 [' ']
      rw [hjoin, solidParts, Text.splitOn_append_cons, List.filter_append, List.length_append,
        List.length_cons]
      simp only [solidParts] at hpos hrest
      omega

/-! ### Where parameters lie -/

/-- Behind the entry of the receiver, if there is one, numbered entries stand in their order. -/
theorem lookup_behind_receiver {static : Bool} {receiver this : Text} {key f : Nat → Text}
    (hkey : key.Injective) (hreceiver : static = false → ∀ n, key n ≠ receiver)
    (count n : Nat) :
    ((if static then [] else [(receiver, this)]) ++
        (List.range count).map fun i => (key i, f i)).lookup (key n) =
      ((List.range count).map f)[n]? := by
  have hother : (if static then [] else [(receiver, this)]).lookup (key n) = none := by
    cases hstatic : static with
    | true => rfl
    | false => simp [List.lookup_cons, beq_eq_false_iff_ne.mpr (hreceiver hstatic n)]
  rw [List.lookup_append, hother, Option.none_or, Jvm.lookup_keyed hkey, List.getElem?_map]
  split <;> simp_all

theorem ofNat_add_injective (offset : Nat) :
    (fun i => Text.ofNat (i + offset)).Injective :=
  fun _ _ h => Nat.add_right_cancel (ofNat_injective h)

section Static

variable {modifiers : Text}

/-- Of a method that is not static, the slots of parameters are not the first one. -/
theorem ofNat_ne_zero (h : isStatic modifiers = false) (n : Nat) :
    Text.ofNat (n + if isStatic modifiers then 0 else 1) ≠ "0".toList := by
  have hzero : "0".toList = Text.ofNat 0 := by decide
  rw [h, hzero]
  exact fun heq => Nat.succ_ne_zero n (ofNat_injective heq)

/-- A slot of a method names the parameter with its number among the slots of parameters. -/
theorem Jvm.lookup_slots (name types owner : Text) (n : Nat) :
    (Jvm.Method.ofHead name modifiers types owner).slots.lookup
        (Text.ofNat (n + if isStatic modifiers then 0 else 1)) =
      (Jvm.Method.ofHead name modifiers types owner).params[n]? :=
  lookup_behind_receiver (ofNat_add_injective _) ofNat_ne_zero _ n

/-- So does a register of a method. -/
theorem Smali.lookup_names (descriptor : Text) (n : Nat) :
    (Smali.registers modifiers descriptor).names.lookup
        (Smali.paramRegister (n + if isStatic modifiers then 0 else 1)) =
      (Smali.registers modifiers descriptor).params[n]? := by
  have hkey :
      (fun i => Smali.paramRegister (i + if isStatic modifiers then 0 else 1)).Injective :=
    fun _ _ h => ofNat_add_injective _ (List.cons.inj h).2
  have hreceiver : isStatic modifiers = false →
      ∀ n, Smali.paramRegister (n + if isStatic modifiers then 0 else 1) ≠ "p0".toList :=
    fun h n heq => ofNat_ne_zero h n (List.cons.inj heq).2
  simp only [Smali.registers, List.map_map]
  exact lookup_behind_receiver hkey hreceiver _ n

theorem Jvm.length_params (name types owner : Text) :
    (Jvm.Method.ofHead name modifiers types owner).params.length = (solidParts types).length := by
  rw [Jvm.Method.ofHead, List.length_map, List.length_range]
  rfl

theorem Smali.length_params (descriptor : Text) :
    (Smali.registers modifiers descriptor).params.length = descriptorArity descriptor := by
  rw [Smali.registers, List.length_map, List.length_range]

/-- Parameters have names of their own. -/
theorem Jvm.nodup_params (name types owner : Text) :
    (Jvm.Method.ofHead name modifiers types owner).params.Nodup := by
  refine List.Nodup.map (fun i j h => ?_) List.nodup_range
  exact ofNat_injective (List.append_cancel_left h)

theorem Smali.nodup_params (descriptor : Text) :
    (Smali.registers modifiers descriptor).params.Nodup := by
  refine List.Nodup.map (fun i j h => ?_) List.nodup_range
  exact ofNat_add_injective _ (List.cons.inj h).2

end Static

/-- What a method finds at the slot that a parameter has been given: the name of a parameter as
many places further on as there are wide ones before it. It is the right one if there are none. -/
def FindsShifted (params : List Text) (find : Nat → Option Text) (modifiers : Text)
    (widths : List Nat) : Prop :=
  ∀ i < widths.length, params[i]?.isSome = true ∧
    find (slotOf modifiers widths i) = params[i + wideBefore widths i]? ∧
    (find (slotOf modifiers widths i) = params[i]? ↔ ∀ w ∈ widths.take i, w = 1)

theorem findsShifted {params : List Text} {find : Nat → Option Text} {modifiers : Text}
    {widths : List Nat} (hwidths : ∀ w ∈ widths, w = 1 ∨ w = 2) (hparams : params.Nodup)
    (hlength : widths.length ≤ params.length)
    (hfind : ∀ n, find (n + if isStatic modifiers then 0 else 1) = params[n]?) :
    FindsShifted params find modifiers widths := by
  intro i hi
  have hlt : i < params.length := by omega
  have hslot : find (slotOf modifiers widths i) = params[i + wideBefore widths i]? := by
    rw [slotOf_eq hwidths hi, hfind]
  refine ⟨by rw [List.getElem?_eq_getElem hlt]; rfl, hslot, ?_⟩
  rw [hslot, getElem?_eq_iff hparams hlt, wideBefore_eq_zero_iff hwidths]

/-- The slots and registers that the platforms give to parameters. A parameter is found there under
its own name just if no `long` and no `double` stands before it; otherwise another parameter is
found, or none. -/
theorem params_found_shifted (modifiers : Text) :
    (∀ names : List Text, (∀ n ∈ names, HasName n) → ∀ name owner,
      let m := Jvm.Method.ofHead name modifiers (Text.join ", " names) owner
      FindsShifted m.params (fun slot => m.slots.lookup (Text.ofNat slot)) modifiers
        (names.map nameWidth)) ∧
    ∀ types : List ValueType, (∀ t ∈ types, t.IsNamed) →
      let r := Smali.registers modifiers (types.flatMap ValueType.descriptor)
      FindsShifted r.params (fun slot => r.names.lookup (Smali.paramRegister slot)) modifiers
        (types.map ValueType.width) := by
  constructor
  · intro names hnames name owner
    have hlength : (names.map nameWidth).length ≤
        (Jvm.Method.ofHead name modifiers (Text.join ", " names) owner).params.length := by
      rw [List.length_map, Jvm.length_params]
      exact length_le_solidParts hnames []
    refine findsShifted ?_ (Jvm.nodup_params ..) hlength fun n =>
      Jvm.lookup_slots name _ owner n
    simp only [List.forall_mem_map]
    exact fun n _ => nameWidth_eq n
  · intro types htypes
    have hlength : (types.map ValueType.width).length ≤ (Smali.registers modifiers
        (types.flatMap ValueType.descriptor)).params.length := by
      rw [List.length_map, Smali.length_params, descriptorArity_descriptor htypes]
    refine findsShifted ?_ (Smali.nodup_params ..) hlength fun n =>
      Smali.lookup_names _ n
    simp only [List.forall_mem_map]
    exact fun t _ => t.width_eq

/-- In the method `mix(String, long, int)` the second parameter is found and the third is not, as
in one with the descriptor `I[DJLA;`. -/
theorem params_found_shifted_longBefore :
    let names : List Text := ["java.lang.String", "long", "int"]
    let types : List ValueType := [.int, .array .double, .long, .object "A"]
    let m := Jvm.Method.ofHead "mix" "public " (Text.join ", " names) "Main"
    let r := Smali.registers "public " (types.flatMap ValueType.descriptor)
    (∀ n ∈ names, HasName n) ∧ (∀ t ∈ types, t.IsNamed) ∧
      m.slots.lookup (Text.ofNat 2) = m.params[1]? ∧
      m.slots.lookup (Text.ofNat 4) ≠ m.params[2]? ∧
      r.names.lookup (Smali.paramRegister 3) = r.params[2]? ∧
      r.names.lookup (Smali.paramRegister 5) ≠ r.params[3]? := by
  intro names types m r
  have hnames : ∀ n ∈ names, HasName n := by
    simp only [names, List.forall_mem_cons]
    exact ⟨⟨'j', by decide, by decide⟩, ⟨'l', by decide, by decide⟩, ⟨'i', by decide, by decide⟩,
      List.forall_mem_nil _⟩
  have htypes : ∀ t ∈ types, t.IsNamed := by simp [types, ValueType.IsNamed]
  have hjvm := (params_found_shifted "public ").1 names hnames "mix" "Main"
  have hsmali := (params_found_shifted "public ").2 types htypes
  exact ⟨hnames, htypes, (hjvm 1 (by decide)).2.2.mpr (by decide +kernel),
    mt (hjvm 2 (by decide)).2.2.mp (by decide +kernel),
    (hsmali 2 (by decide)).2.2.mpr (by decide), mt (hsmali 3 (by decide)).2.2.mp (by decide)⟩

/-- The `int` behind a `long` lies in slot 2, and the code that returns it returns a local that
nothing sets, or a register that no parameter has. -/
theorem not_found_behindLong :
    let m := Jvm.Method.ofHead "second" "static " (Text.join ", " ["long", "int"]) "Main"
    let r := Smali.registers "public static " ([.long, .int].flatMap ValueType.descriptor)
    slotOf "static " ([("long" : Text), "int"].map nameWidth) 1 = 2 ∧
    m.slots.lookup (Text.ofNat 2) = none ∧ m.params[1]? = some ("arg1" : Text) ∧
    slotOf "public static " ([.long, .int].map ValueType.width) 1 = 2 ∧
    r.names.lookup (Smali.paramRegister 2) = none ∧ r.params[1]? = some ("p1" : Text) ∧
    Jvm.read "class Main {
  static int second(long, int);
    Code:
       0: iload_2
       1: ireturn
}" =
      [⟨"second", ["arg0", "arg1"], [⟨.return_, ["local2"], [], []⟩], ["devirtualize"]⟩] ∧
    Smali.read ".method public static second(JI)I
    return p2
.end method" =
      [⟨"second", ["p0", "p1"], [⟨.return_, ["p2"], [], []⟩], ["devirtualize"]⟩] := by
  refine ⟨by decide +kernel, by decide +kernel, by decide +kernel, by decide, by decide +kernel,
    by decide, ?_, ?_⟩
  · exact Text.apply_toList_eq (f := Jvm.read) rfl (by decide +kernel)
  · exact Text.apply_toList_eq (f := Smali.read) rfl (by decide +kernel)

end HostScript.Listing
