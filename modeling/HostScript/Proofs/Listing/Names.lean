import HostScript.Listing.Llvm
import HostScript.Proofs.Listing.Lowered
import HostScript.Proofs.Listing.Wat
import HostScript.Proofs.Routine.Header
import HostScript.Proofs.Script.Collapse

/-!
# Names of registers and locals

Registers and locals keep their own names as far as scripts allow them: characters that scripts do
not allow become underscores, a number gets a letter in front, and a local without a name is called
by its number. Values that an operation leaves get temporary names. All of these share the names of
one function, so two registers can come to have one name, and so can two locals, or a local and a
temporary value. Here it is stated when exactly this happens.
-/

namespace HostScript.Listing

/-- Two texts are rewritten alike if their characters are, place by place. -/
theorem map_eq_map_iff_forall₂ {f : Char → Char} {s t : Text} :
    s.map f = t.map f ↔ List.Forall₂ (fun a b => f a = f b) s t := by
  rw [← List.forall₂_eq_eq_eq, List.forall₂_map_left_iff, List.forall₂_map_right_iff]

/-! ### Registers -/

namespace Llvm

/-- Two characters that the names of registers do not tell apart. -/
def Alike (a b : Char) : Prop := a = b ∨ (a ∈ ['.', '_'] ∧ b ∈ ['.', '_'])

instance : DecidableRel Alike := fun _ _ => inferInstanceAs (Decidable (_ ∨ _))

/-- A register that is called by a number, or by a name that starts like one. -/
def IsNumbered (r : Text) : Prop := r.head?.any isDigitLike = true

instance : DecidablePred IsNumbered := fun _ => inferInstanceAs (Decidable (_ = true))

/-- Two registers that come to have one name: they differ in dots and underscores at most, but for
the letter that numbers get. -/
def Clash (r s : Text) : Prop :=
  List.Forall₂ Alike r s ∨ (IsNumbered r ∧ List.Forall₂ Alike ('v' :: r) s) ∨
    (IsNumbered s ∧ List.Forall₂ Alike r ('v' :: s))

instance (r s : Text) : Decidable (Clash r s) := inferInstanceAs (Decidable (_ ∨ _))

variable {r s : Text}

theorem undotted_eq_iff : undotted r = undotted s ↔ List.Forall₂ Alike r s := by
  have hchar (a b : Char) : ((if a == '.' then '_' else a) = if b == '.' then '_' else b) ↔
      Alike a b := by
    simp only [Alike, List.mem_cons, List.not_mem_nil, or_false, beq_iff_eq]
    split <;> split <;> simp_all [eq_comm]
  simp only [undotted, map_eq_map_iff_forall₂, hchar]

/-- Dots and underscores are no digits, so registers that differ in them start alike. -/
theorem isNumbered_congr (h : List.Forall₂ Alike r s) : IsNumbered r ↔ IsNumbered s := by
  cases h with
  | nil => rfl
  | @cons a b _ _ hab =>
    have hmark : ∀ c ∈ ['.', '_'], isDigitLike c = false := by decide
    simp only [IsNumbered, List.head?_cons, Option.any_some]
    rcases hab with rfl | ⟨ha, hb⟩
    · rfl
    · rw [hmark a ha, hmark b hb]

theorem not_isNumbered_letter (r : Text) : ¬ IsNumbered ('v' :: r) := by
  simp only [IsNumbered, List.head?_cons, Option.any_some]
  decide

/-- The name of a register, by what it starts with. -/
theorem registerName_eq (r : Text) :
    (IsNumbered r ∧ registerName r = undotted ('v' :: r)) ∨
      (¬ IsNumbered r ∧ registerName r = undotted r) := by
  have hhead : (undotted r).head?.any isDigitLike = r.head?.any isDigitLike := by
    cases r with
    | nil => rfl
    | cons a r =>
      by_cases ha : a = '.'
      · subst ha
        rfl
      · simp [undotted, ha]
  rw [registerName, hhead, IsNumbered]
  cases r.head?.any isDigitLike with
  | true => exact Or.inl ⟨rfl, rfl⟩
  | false => exact Or.inr ⟨Bool.false_ne_true, rfl⟩

/-- Two registers get one name exactly if they clash. -/
theorem registerName_eq_iff : registerName r = registerName s ↔ Clash r s := by
  have hfirst (h : IsNumbered r) : ¬ List.Forall₂ Alike r ('v' :: s) := fun hrs =>
    not_isNumbered_letter s ((isNumbered_congr hrs).mp h)
  have hsecond (h : IsNumbered s) : ¬ List.Forall₂ Alike ('v' :: r) s := fun hrs =>
    not_isNumbered_letter r ((isNumbered_congr hrs).mpr h)
  have hboth (h : List.Forall₂ Alike r s) : IsNumbered r ↔ IsNumbered s := isNumbered_congr h
  rcases registerName_eq r with ⟨hr, hrname⟩ | ⟨hr, hrname⟩ <;>
    rcases registerName_eq s with ⟨hs, hsname⟩ | ⟨hs, hsname⟩ <;>
    rw [hrname, hsname, undotted_eq_iff, Clash]
  · have hletter : List.Forall₂ Alike ('v' :: r) ('v' :: s) ↔ List.Forall₂ Alike r s := by
      simp [List.forall₂_cons, Alike]
    rw [hletter]
    grind
  · grind
  · grind
  · grind

/-- A register is read as the operand that it is. -/
theorem operand_register (hr : ∀ c ∈ r, isWord c = true ∨ c = '.') :
    operand ('%' :: r) = registerName r := by
  have hsolid : ∀ c ∈ '%' :: r, isBlank c = false ∧ among "," c = false := by
    rw [List.forall_mem_cons]
    refine ⟨by decide, fun c hc => ?_⟩
    rcases hr c hc with hword | rfl
    · refine ⟨Script.isBlank_of_isWord hword, ?_⟩
      rw [← Bool.not_eq_true]
      intro hcomma
      obtain rfl : c = ',' := by simpa [among] using hcomma
      revert hword
      decide
    · decide
  have htrim : Text.trim ('%' :: r) = '%' :: r :=
    Text.trim_eq_self (fun c hc => (hsolid c (List.mem_of_mem_head? hc)).1)
      fun c hc => (hsolid c (List.mem_of_mem_getLast? hc)).1
  have hend : Text.trimEndOf (among ",") ('%' :: r) = '%' :: r := by
    refine List.rdropWhile_eq_self_iff.mpr fun hne => ?_
    rw [(hsolid _ (List.getLast_mem hne)).2]
    exact Bool.false_ne_true
  rw [operand, htrim, hend]
  rfl

end Llvm

/-! ### Locals -/

namespace Wat

/-- Two characters that the names of locals do not tell apart. -/
def Alike (a b : Char) : Prop :=
  a = b ∨ ((isIdentPart a = false ∨ a = '_') ∧ (isIdentPart b = false ∨ b = '_'))

/-- The name of a local without one. -/
def placeName (isParam : Bool) (index : Nat) : Text :=
  (if isParam then 'p' else 'l') :: Text.ofNat index

/-- Two locals with different numbers come to have one name: their names differ in characters that
are written as underscores at most, or one is called by the number of the other. -/
def Clash (d e : Local) (i j : Nat) : Prop :=
  match d.name, e.name with
  | some n, some m => List.Forall₂ Alike n m
  | some n, none => n = placeName e.isParam j
  | none, some m => m = placeName d.isParam i
  | none, none => False

theorem identifierChars_eq_iff {n m : Text} :
    Routine.identifierChars n = Routine.identifierChars m ↔ List.Forall₂ Alike n m := by
  have hchar (a b : Char) : ((if isIdentPart a then a else '_') =
      if isIdentPart b then b else '_') ↔ Alike a b := by
    have hmark : isIdentPart '_' = true := by decide
    unfold Alike
    cases ha : isIdentPart a <;> cases hb : isIdentPart b <;> simp <;> aesop
  simp only [Routine.identifierChars, map_eq_map_iff_forall₂, hchar]

/-- A word without underscores is the name of nothing but itself. -/
theorem identifierChars_eq_word_iff {n w : Text}
    (hw : ∀ c ∈ w, isIdentPart c = true ∧ c ≠ '_') : Routine.identifierChars n = w ↔ n = w := by
  have hself : Routine.identifierChars w = w :=
    Routine.identifierChars_eq_self fun c hc => (hw c hc).1
  refine ⟨fun h => ?_, fun h => h ▸ hself⟩
  have halike : List.Forall₂ Alike n w := identifierChars_eq_iff.mp (h.trans hself.symm)
  clear h hself
  induction halike with
  | nil => rfl
  | @cons a b _ _ hab _ ih =>
    rw [List.forall_mem_cons] at hw
    obtain rfl : a = b := hab.resolve_right fun h =>
      h.2.elim (fun hb => Bool.false_ne_true (hb.symm.trans hw.1.1)) hw.1.2
    rw [ih hw.2]

/-- A letter with a number behind it is such a word. -/
theorem isIdentPart_of_mem_numbered {letter : Char}
    (hletter : isIdentPart letter = true ∧ letter ≠ '_') (k : Nat) :
    ∀ c ∈ letter :: Text.ofNat k, isIdentPart c = true ∧ c ≠ '_' := by
  refine List.forall_mem_cons.mpr ⟨hletter, fun c hc => ?_⟩
  have hdigit := isDigit_of_mem_ofNat hc
  refine ⟨isIdentPart_of_isDigit hdigit, ?_⟩
  rintro rfl
  cases hdigit

theorem identifierChars_eq_placeName_iff {n : Text} {isParam : Bool} {i : Nat} :
    Routine.identifierChars n = placeName isParam i ↔ n = placeName isParam i := by
  refine identifierChars_eq_word_iff (isIdentPart_of_mem_numbered ?_ i)
  cases isParam <;> decide

/-- Two locals get one name exactly if they clash. -/
theorem script_eq_iff {d e : Local} {i j : Nat} (hij : i ≠ j) :
    d.script i = e.script j ↔ Clash d e i j := by
  have hplace (d : Local) (i : Nat) (h : d.name = none) : d.script i = placeName d.isParam i := by
    rw [Local.script, h]
    rfl
  unfold Clash
  cases hd : d.name with
  | some n =>
    have hn : d.script i = Routine.identifierChars n := by rw [Local.script, hd]
    cases he : e.name with
    | some m =>
      have hm : e.script j = Routine.identifierChars m := by rw [Local.script, he]
      rw [hn, hm, identifierChars_eq_iff]
    | none => rw [hn, hplace e j he, identifierChars_eq_placeName_iff]
  | none =>
    rw [hplace d i hd]
    cases he : e.name with
    | some m =>
      have hm : e.script j = Routine.identifierChars m := by rw [Local.script, he]
      rw [hm, eq_comm, identifierChars_eq_placeName_iff]
    | none =>
      rw [hplace e j he]
      exact iff_of_false (fun h => hij (ofNat_injective (List.cons.inj h).2)) id

/-- A local has the name of a temporary value exactly if it is called so. -/
theorem script_eq_tempName_iff {d : Local} {i k : Nat} :
    d.script i = Symbolic.tempName k ↔ d.name = some (Symbolic.tempName k) := by
  cases hd : d.name with
  | some n =>
    have hn : d.script i = Routine.identifierChars n := by rw [Local.script, hd]
    rw [hn, Symbolic.tempName,
      identifierChars_eq_word_iff (isIdentPart_of_mem_numbered (by decide) k), Option.some.injEq]
  | none =>
    have hletter : (if d.isParam then 'p' else 'l') ≠ 't' := by cases d.isParam <;> decide
    simp [Local.script, hd, Symbolic.tempName, hletter]

/-- A local is called by its script name, however a token refers to it. -/
theorem RefersTo.localName_eq_script {f : Func} {ds : List Local} (hf : f.Knows ds) {token : Text}
    {i : Nat} (h : RefersTo ds token i) {d : Local} (hd : ds[i]? = some d) :
    f.localName token = d.script i := by
  rw [h.localName_eq hf, Func.slotName, Func.localName, hf.number hd, Option.getD_some]

/-- A local has the name of a temporary value that its function makes exactly if it is called like
the temporary name with that number. -/
theorem script_mem_madeNames_iff {known : List (Text × Signature)} {tags : List Text} {f : Func}
    {r : Routine} (h : lower known tags f = .ok r) (d : Local) (i : Nat) :
    d.script i ∈ madeNames r.instructions ↔
      ∃ k < (madeNames r.instructions).length, d.name = some (Symbolic.tempName k) := by
  conv_lhs => rw [(emitted_of_lower h).1]
  simp only [List.mem_map, List.mem_range]
  refine exists_congr fun k => and_congr_right fun _ => ?_
  rw [eq_comm, script_eq_tempName_iff]

end Wat

/-- Two registers get one name exactly if they clash, and so do two locals of a function. A local
gets the name of a temporary value of its function exactly if it is called so. -/
theorem names_shared_iff (r s : Text) (items : List Wat.Expr) (index : Nat) :
    ((∀ c ∈ r, isWord c = true ∨ c = '.') → (∀ c ∈ s, isWord c = true ∨ c = '.') →
      (Llvm.operand ('%' :: r) = Llvm.operand ('%' :: s) ↔ Llvm.Clash r s)) ∧
    ∀ f : Wat.Func, Wat.Func.ofItems items index = .ok f →
      (∀ t u i j d e, Wat.RefersTo (items.flatMap Wat.declares) t i →
        Wat.RefersTo (items.flatMap Wat.declares) u j → i ≠ j →
        (items.flatMap Wat.declares)[i]? = some d → (items.flatMap Wat.declares)[j]? = some e →
        (f.localName t = f.localName u ↔ Wat.Clash d e i j)) ∧
      ∀ known tags r, Wat.lower known tags f = .ok r →
        ∀ t i d, Wat.RefersTo (items.flatMap Wat.declares) t i →
          (items.flatMap Wat.declares)[i]? = some d →
          (f.localName t ∈ Wat.madeNames r.instructions ↔
            ∃ k < (Wat.madeNames r.instructions).length,
              d.name = some (Symbolic.tempName k)) := by
  refine ⟨fun hr hs => ?_, fun f hf => ?_⟩
  · rw [Llvm.operand_register hr, Llvm.operand_register hs, Llvm.registerName_eq_iff]
  · have hknows := (Wat.Func.reads_ofItems hf).knows
    refine ⟨fun t u i j d e ht hu hij hd he => ?_, fun known tags r hr t i d ht hd => ?_⟩
    · rw [ht.localName_eq_script hknows hd, hu.localName_eq_script hknows he,
        Wat.script_eq_iff hij]
    · rw [ht.localName_eq_script hknows hd, Wat.script_mem_madeNames_iff hr]

/-- The items of a function with a parameter `$a-b`, one without a name and a local `$t0`, which
adds its parameters. -/
def addItems : List Wat.Expr :=
  [.atom "$f", .list [.atom "param", .atom "$a-b", .atom "i32"],
    .list [.atom "param", .atom "i32"], .list [.atom "local", .atom "$t0", .atom "i32"],
    .list [.atom "result", .atom "i32"], .atom "local.get", .atom "$a-b", .atom "local.get",
    .atom "1", .atom "i32.add"]

/-- The code of that function. -/
def addRoutine : Routine :=
  ⟨"f", ["a_b", "p1"], [⟨.add, ["t0", "a_b", "p1"], [], []⟩, ⟨.return_, ["t0"], [], []⟩], []⟩

theorem names_shared_iff_add :
    Llvm.operand "%x.1" = Llvm.operand "%x_1" ∧ Llvm.operand "%0" = Llvm.operand "%v0" ∧
    Llvm.operand "%x.1" ≠ Llvm.operand "%x1" ∧
    ∃ f, Wat.Func.ofItems addItems 0 = .ok f ∧ Wat.lower [] [] f = .ok addRoutine ∧
      f.localName "$a-b" ≠ f.localName (Text.ofNat 1) ∧
      f.localName "$t0" ∈ Wat.madeNames addRoutine.instructions := by
  have hregisters r s := (names_shared_iff r s addItems 0).1
  have hlocals := (names_shared_iff [] [] addItems 0).2
  have hlower : ((Wat.Func.ofItems addItems 0).bind (Wat.lower [] [])).toOption =
      some addRoutine := by
    decide +kernel
  obtain ⟨f, hf⟩ : ∃ f, Wat.Func.ofItems addItems 0 = .ok f := ⟨_, rfl⟩
  rw [hf] at hlower
  have hr : Wat.lower [] [] f = .ok addRoutine := Outcome.toOption_eq_some_iff.mp hlower
  refine ⟨(hregisters "x.1" "x_1" (by decide) (by decide)).mpr (by decide),
    (hregisters "0" "v0" (by decide) (by decide)).mpr (by decide),
    mt (hregisters "x.1" "x1" (by decide) (by decide)).mp (by decide), f, hf, hr, ?_, ?_⟩
  · refine mt ((hlocals f hf).1 "$a-b" (Text.ofNat 1) 0 1 _ _ (.name rfl rfl)
      (.number (by decide)) (by decide) rfl rfl).mp ?_
    exact fun h => absurd (congrArg List.length h) (by decide)
  · exact ((hlocals f hf).2 [] [] addRoutine hr "$t0" 2 _ (.name rfl rfl) rfl).mpr
      ⟨0, by decide, rfl⟩

/-- A listing whose two parameters differ in a dot. -/
def dottedText : Text :=
  "define i32 @f(i32 %a.b, i32 %a_b) \x7b\n  %d = sub i32 %a.b, %a_b\n  ret i32 %d\n\x7d"

/-- A listing with a parameter called like a temporary value, which is read once that is made. -/
def tempText : Text :=
  "(module (func $f (param $t0 i32) (param $x i32) (result i32)
  local.get $x local.get $x i32.add local.get $t0 i32.sub))"

/-- The items of its function. -/
def tempItems : List Wat.Expr :=
  [.atom "$f", .list [.atom "param", .atom "$t0", .atom "i32"],
    .list [.atom "param", .atom "$x", .atom "i32"], .list [.atom "result", .atom "i32"],
    .atom "local.get", .atom "$x", .atom "local.get", .atom "$x", .atom "i32.add",
    .atom "local.get", .atom "$t0", .atom "i32.sub"]

set_option maxRecDepth 1000 in
/-- The tokens of the listing, in which no tag is declared. -/
theorem tokens_tempText :
    Wat.tokens tempText = ["(", "module", "(", "func", "$f", "(", "param", "$t0", "i32", ")", "(",
      "param", "$x", "i32", ")", "(", "result", "i32", ")", "local.get", "$x", "local.get", "$x",
      "i32.add", "local.get", "$t0", "i32.sub", ")", ")"].map String.toList ∧
      Wat.tags tempText = [] := by
  have htext : tempText = _ := Text.toList_eq rfl
  rw [htext]
  decide +kernel

/-- Two parameters that differ in a dot become one, and a parameter called `$t0` is overwritten by
the sum. -/
theorem names_shared_dottedRegister :
    ("a.b" : Text) ≠ "a_b" ∧ Llvm.operand "%a.b" = Llvm.operand "%a_b" ∧
    Llvm.read dottedText =
      [⟨"f", ["a_b", "a_b"], [⟨.sub, ["d", "a_b", "a_b"], [], []⟩, ⟨.return_, ["d"], [], []⟩],
        []⟩] ∧
    Wat.read tempText =
      .ok [⟨"f", ["t0", "x"], [⟨.add, ["t0", "x", "x"], [], []⟩,
        ⟨.sub, ["t1", "t0", "t0"], [], []⟩, ⟨.return_, ["t1"], [], []⟩], []⟩] := by
  obtain ⟨htokens, htags⟩ := tokens_tempText
  have hitems : Wat.functions (Wat.parse tempText) = [tempItems] := by
    rw [Wat.parse, htokens]
    simp [Wat.forest, Wat.closeAll, Wat.functions, Wat.functionsOf, Wat.Expr.isAtom, tempItems]
  refine ⟨by decide, by decide +kernel,
    Text.apply_toList_eq (f := Llvm.read) rfl (by decide +kernel), ?_⟩
  have hread : ((Wat.readFuncs 0 [tempItems]).bind fun fs =>
      fs.mapM (Wat.lower (Wat.signatures fs) [])).toOption =
        some [⟨"f", ["t0", "x"], [⟨.add, ["t0", "x", "x"], [], []⟩,
          ⟨.sub, ["t1", "t0", "t0"], [], []⟩, ⟨.return_, ["t1"], [], []⟩], []⟩] := by
    decide +kernel
  rw [Wat.read, hitems, htags]
  exact Outcome.toOption_eq_some_iff.mp hread

end HostScript.Listing
