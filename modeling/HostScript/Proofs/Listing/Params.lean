import HostScript.Listing
import HostScript.Proofs.Listing.Declared
import HostScript.Proofs.Pattern.Covered
import HostScript.Proofs.Routine.Header

/-!
# Parameters of listings

The readers make names of registers, slots and locals each in their own way. All of them give words,
so the parameters of a routine keep their names from the head of its script to the body exactly when
those that the body mentions can name a binding. Numbered registers and slots always can; a register
or a local that is called after a reserved word, or a local called by a number, cannot.
-/

namespace HostScript.Listing

open Routine

/-- A word with a number behind it. -/
theorem isWordLike_numbered {word : Text} (h : IsWordLike word) (n : Nat) :
    IsWordLike (word ++ Text.ofNat n) := by
  intro c hc
  rcases List.mem_append.mp hc with hc | hc
  · exact h c hc
  · exact isIdentPart_of_isDigit (isDigit_of_mem_ofNat hc)

/-- A word with a number behind it is not reserved. -/
theorem isName_numbered {c : Char} (hc : isDigitLike c = false) (word : Text) (n : Nat) :
    IsName (c :: word ++ Text.ofNat n) where
  nonempty := by simp
  notNumber := by simpa using hc
  notReserved := by
    intro w hw heq
    have hletters : ∀ w ∈ allReservedWords, w.toList.all (!·.isDigit) = true := by decide
    obtain ⟨d, ds, hd⟩ := List.exists_cons_of_ne_nil (ofNat_ne_nil n)
    have hdigit : d.isDigit = true := isDigit_of_mem_ofNat (hd ▸ List.mem_cons_self ..)
    have hmem : d ∈ w.toList := by
      rw [← heq, hd]
      simp
    have hletter := List.all_eq_true.mp (hletters w hw) d hmem
    rw [hdigit] at hletter
    cases hletter

namespace Llvm

/-- The name of a register is a word. -/
theorem isWordLike_registerName {t : Text} (h : ∀ c ∈ t, isWord c = true ∨ c = '.') :
    IsWordLike (registerName t) := by
  have hundotted : IsWordLike (undotted t) := by
    intro c hc
    obtain ⟨d, hd, rfl⟩ := List.mem_map.mp hc
    by_cases hdot : d = '.'
    · simp only [hdot, beq_self_eq_true, if_true]
      decide
    · have hword := (h d hd).resolve_right hdot
      simp [hdot, isIdentPart, hword]
  unfold registerName
  simp only
  split
  · intro c hc
    rcases List.mem_cons.mp hc with rfl | hc
    · decide
    · exact hundotted c hc
  · exact hundotted

/-- A register is read up to its end: its name is a run of word characters and dots. -/
theorem group_lastRegister {t : Text} {m : Match} (h : lastRegister.search? t = some m) :
    ∀ c ∈ m.group 1, isWord c = true ∨ c = '.' := by
  obtain ⟨_, x, _, gs, -, hspells, hgroup⟩ := Pattern.infix_of_search? h
  cases hspells with
  | seq hrest hend =>
    cases hend
    cases hrest with
    | seq hregister hblanks =>
      obtain ⟨-, -, rfl⟩ := hblanks.of_rounds_one
      cases hregister with
      | @seq _ _ _ register _ _ _ hname =>
        cases hname with
        | group hdotted =>
          obtain ⟨-, hchars, -⟩ := hdotted.of_rounds_one
          have hregister : m.group 1 = register := by
            rw [Match.group, hgroup]
            rfl
          rw [hregister]
          intro c hc
          have hset := hchars c hc
          rcases Bool.or_eq_true_iff.mp hset with hword | hdot
          · exact Or.inl hword
          · exact Or.inr (by simpa [among] using hdot)

/-- The parameters of a signature are words. -/
theorem isWordLike_params (signature : Text) : ∀ p ∈ params signature, IsWordLike p := by
  intro p hp
  obtain ⟨part, -, hpart⟩ := List.mem_filterMap.mp hp
  obtain ⟨m, hm, rfl⟩ := Option.map_eq_some_iff.mp hpart
  exact isWordLike_registerName (group_lastRegister hm)

/-- What one line preserves: every routine has the parameters of a signature. -/
theorem params_step {st : State} (h : ∀ r ∈ st.routines, ∃ signature, r.params = params signature)
    (line : Text) : ∀ r ∈ (step st line).routines, ∃ signature, r.params = params signature := by
  unfold step
  split
  · exact h
  · split
    · intro r hr
      rcases List.mem_append.mp hr with hr | hr
      · exact h r hr
      · obtain rfl := List.mem_singleton.mp hr
        exact ⟨_, rfl⟩
    · split
      · exact h
      · rename_i current hcurrent
        have hopen : ∃ signature, current.params = params signature :=
          h current (by simp [State.routines, hcurrent])
        split
        · intro r hr
          exact h r (by simpa [State.routines] using hr)
        · split
          · exact h
          · intro r hr
            rcases List.mem_append.mp hr with hr | hr
            · exact h r (List.mem_append_left _ hr)
            · obtain rfl := List.mem_singleton.mp hr
              exact hopen

/-- Every routine of a listing has the parameters of a signature. -/
theorem params_read {t : Text} {r : Routine} (hr : r ∈ read t) :
    ∃ signature, r.params = params signature := by
  unfold read at hr
  refine List.foldlRecOn (motive := fun st : State =>
    ∀ r ∈ st.routines, ∃ signature, r.params = params signature) _ step ?_ ?_ r hr
  · simp [State.routines]
  · exact fun st h line _ => params_step h line

end Llvm

namespace Smali

/-- A method from its head has numbered registers as its parameters. -/
theorem params_openMethod (m : Match) :
    ∀ p ∈ (openMethod m).1.params, ∃ n, p = paramRegister n := by
  intro p hp
  simp only [openMethod, registers] at hp
  obtain ⟨i, -, rfl⟩ := List.mem_map.mp hp
  exact ⟨_, rfl⟩

/-- A line of the body leaves the parameters as they are. -/
theorem params_addLine (routine : Routine) (r : Registers) (line : Text) :
    (addLine routine r line).params = routine.params := by
  unfold addLine
  split
  · split <;> rfl
  · rfl

/-- The routines after one more is opened or goes on. -/
theorem mem_routines {done : List Routine} {routine r : Routine} {registers : Registers}
    (hr : r ∈ (State.mk done (some (routine, registers))).routines) : r ∈ done ∨ r = routine := by
  simpa [State.routines] using hr

/-- What one line preserves: the parameters of every method are numbered registers. -/
theorem params_step {st : State}
    (h : ∀ r ∈ st.routines, ∀ p ∈ r.params, ∃ n, p = paramRegister n) (line : Text) :
    ∀ r ∈ (step st line).routines, ∀ p ∈ r.params, ∃ n, p = paramRegister n := by
  unfold step
  split
  · exact h
  · split
    · rename_i m _
      intro r hr
      rcases mem_routines hr with hr | hr
      · exact h r hr
      · rw [hr]
        exact params_openMethod m
    · split
      · exact h
      · rename_i routine registers hcurrent
        have hopen : ∀ p ∈ routine.params, ∃ n, p = paramRegister n :=
          h routine (by simp [State.routines, hcurrent])
        split
        · intro r hr
          exact h r (by simpa [State.routines] using hr)
        · split
          · exact h
          · intro r hr
            rcases mem_routines hr with hr | hr
            · have hdone : r ∈ st.routines := by
                rw [State.routines]
                exact List.mem_append_left _ hr
              exact h r hdone
            · rw [hr, params_addLine]
              exact hopen

/-- The parameters of every method of a listing are numbered registers. -/
theorem params_read {t : Text} {r : Routine} (hr : r ∈ read t) :
    ∀ p ∈ r.params, ∃ n, p = paramRegister n := by
  unfold read at hr
  refine List.foldlRecOn (motive := fun st : State =>
    ∀ r ∈ st.routines, ∀ p ∈ r.params, ∃ n, p = paramRegister n) _ step ?_ ?_ r hr
  · simp [State.routines]
  · exact fun st h line _ => params_step h line

end Smali

namespace Jvm

/-- A method from its head has numbered parameters. -/
theorem params_ofHead (name modifiers types owner : Text) :
    ∀ p ∈ (Method.ofHead name modifiers types owner).params, ∃ n, p = paramName n := by
  intro p hp
  simp only [Method.ofHead] at hp
  obtain ⟨i, -, rfl⟩ := List.mem_map.mp hp
  exact ⟨i, rfl⟩

/-- The methods after one more is opened or goes on. -/
theorem mem_methods {done : List Method} {method m : Method} {owner : Text}
    (hm : m ∈ (State.mk done (some method) owner).methods) : m ∈ done ∨ m = method := by
  simpa [State.methods] using hm

/-- What one line preserves: every method has numbered parameters. -/
theorem params_step {st : State}
    (h : ∀ m ∈ st.methods, ∀ p ∈ m.params, ∃ n, p = paramName n) (line : Text) :
    ∀ m ∈ (step st line).methods, ∀ p ∈ m.params, ∃ n, p = paramName n := by
  unfold step
  split
  · exact h
  · split
    · exact h
    · split
      · intro m hm
        rcases mem_methods hm with hm | hm
        · exact h m hm
        · rw [hm]
          exact params_ofHead _ _ _ _
      · split
        · intro m hm
          exact h m (by simpa [State.methods] using hm)
        · split
          · rename_i method _ hcurrent _
            have hopen : ∀ p ∈ method.params, ∃ n, p = paramName n :=
              h method (by simp [State.methods, hcurrent])
            intro m hm
            rcases mem_methods hm with hm | hm
            · have hdone : m ∈ st.methods := by
                rw [State.methods]
                exact List.mem_append_left _ hm
              exact h m hdone
            · rw [hm]
              exact hopen
          · exact h

/-- Every method of a listing has numbered parameters. -/
theorem params_read {t : Text} {r : Routine} (hr : r ∈ read t) :
    ∀ p ∈ r.params, ∃ n, p = paramName n := by
  obtain ⟨m, hm, rfl⟩ := List.mem_map.mp hr
  refine List.foldlRecOn (motive := fun st : State =>
    ∀ m ∈ st.methods, ∀ p ∈ m.params, ∃ n, p = paramName n) _ step ?_ ?_ m hm
  · simp [State.methods]
  · exact fun st h line _ => params_step h line

end Jvm

namespace Wat

/-- A routine has the parameters of its function. -/
theorem params_lower {known : List (Text × Signature)} {tags : List Text} {f : Func} {r : Routine}
    (h : lower known tags f = .ok r) : r.params = f.params := by
  obtain ⟨s, -, hr⟩ := Outcome.bind_eq_ok_iff.mp h
  obtain rfl := Except.ok.inj hr
  rfl

/-- The script name of a local is a word. -/
theorem isWordLike_script (d : Local) (index : Nat) : IsWordLike (d.script index) := by
  unfold Local.script
  split
  · exact isWordLike_identifierChars _
  · have hletter : IsWordLike [if d.isParam then 'p' else 'l'] := by
      cases d.isParam <;> decide
    exact isWordLike_numbered hletter index

/-- The parameters of every routine of a listing are words. -/
theorem isWordLike_read {t : Text} {rs : List Routine} (h : read t = .ok rs) {r : Routine}
    (hr : r ∈ rs) : ∀ p ∈ r.params, IsWordLike p := by
  obtain ⟨fs, hfs, hrs⟩ := Outcome.bind_eq_ok_iff.mp h
  obtain ⟨f, hf, hlower⟩ := Outcome.exists_of_mem_mapM hrs hr
  obtain ⟨items, -, hreads⟩ := exists_mem_of_forall₂ (reads_readFuncs hfs).flip hf
  rw [params_lower hlower, hreads.knows.params]
  intro p hp
  obtain ⟨⟨d, i⟩, -, hscript⟩ := List.mem_filterMap.mp hp
  obtain ⟨-, hp⟩ := Option.ite_none_right_eq_some.mp hscript
  obtain rfl := Option.some.inj hp
  exact isWordLike_script d i

end Wat

/-- A listing is read by the reader of its format. -/
theorem exists_reader_of_lower {t tag : Text} {rs : List Routine} (h : lower t tag = .ok rs)
    {r : Routine} (hr : r ∈ rs) :
    ∃ f ∈ formats, f.tag.toList = tag ∧ ∃ read, f.reader = some read ∧ read t = .ok rs := by
  obtain ⟨f, hf, hread⟩ := Outcome.bind_eq_ok_iff.mp h
  unfold format at hf
  split at hf
  · rename_i g hfind
    obtain rfl := Except.ok.inj hf
    refine ⟨g, List.mem_of_find?_eq_some hfind, by simpa using List.find?_some hfind, ?_⟩
    split at hread
    · rename_i read hreader
      exact ⟨read, hreader, hread⟩
    · obtain rfl := Except.ok.inj hread
      simp at hr
  · cases hf

/-- The parameters of every routine of a listing are words; numbered registers and slots are
names. -/
theorem isWordLike_lower {t tag : Text} {rs : List Routine} (h : lower t tag = .ok rs) {r : Routine}
    (hr : r ∈ rs) : (∀ p ∈ r.params, IsWordLike p) ∧
      (tag = "android-art".toList ∨ tag = "java-hotspot".toList → ∀ p ∈ r.params, IsName p) := by
  obtain ⟨f, hf, htag, read, hreader, hread⟩ := exists_reader_of_lower h hr
  simp only [formats, List.mem_cons, List.not_mem_nil, or_false] at hf
  rcases hf with rfl | rfl | rfl | rfl | rfl | rfl | rfl | rfl | rfl
  · obtain rfl := Option.some.inj hreader
    obtain rfl := Except.ok.inj hread
    obtain ⟨signature, hparams⟩ := Llvm.params_read hr
    refine ⟨hparams ▸ Llvm.isWordLike_params signature, fun hnumbered => ?_⟩
    rw [← htag] at hnumbered
    exact absurd hnumbered (by decide)
  · obtain rfl := Option.some.inj hreader
    obtain rfl := Except.ok.inj hread
    have hparams := Smali.params_read hr
    refine ⟨fun p hp => ?_, fun _ p hp => ?_⟩
    · obtain ⟨n, rfl⟩ := hparams p hp
      exact isWordLike_numbered (show IsWordLike ['p'] by decide) n
    · obtain ⟨n, rfl⟩ := hparams p hp
      exact isName_numbered (show isDigitLike 'p' = false by decide) [] n
  · obtain rfl := Option.some.inj hreader
    refine ⟨Wat.isWordLike_read hread hr, fun hnumbered => ?_⟩
    rw [← htag] at hnumbered
    exact absurd hnumbered (by decide)
  · obtain rfl := Option.some.inj hreader
    obtain rfl := Except.ok.inj hread
    have hparams := Jvm.params_read hr
    refine ⟨fun p hp => ?_, fun _ p hp => ?_⟩
    · obtain ⟨n, rfl⟩ := hparams p hp
      exact isWordLike_numbered (show IsWordLike "arg".toList by decide) n
    · obtain ⟨n, rfl⟩ := hparams p hp
      exact isName_numbered (show isDigitLike 'a' = false by decide) "rg".toList n
  all_goals cases hreader

/-- The parameters of a routine of a listing keep their names from the head of its script to the
body exactly when each one that is mentioned names a binding; numbered registers and slots always
do. -/
theorem keepsParams_iff_of_lower {t tag : Text} {rs : List Routine} (h : lower t tag = .ok rs)
    {r : Routine} (hr : r ∈ rs) :
    (r.KeepsParams ↔ ∀ p ∈ r.params, r.Mentions p → IsName p) ∧
      (tag = "android-art".toList ∨ tag = "java-hotspot".toList →
        ∀ p ∈ r.params, identifier p = p ∧ IsName p) := by
  obtain ⟨hwords, hnames⟩ := isWordLike_lower h hr
  refine ⟨keepsParams_iff hwords, fun hnumbered p hp => ?_⟩
  have hname := hnames hnumbered p hp
  exact ⟨hname.identifier_eq_self (hwords p hp), hname⟩

/-- A sum of two registers, one of them dotted. -/
def dottedSum : Text :=
  "define i32 @sum(i32 %a, i32 %b.1) \x7b\n  %t = add i32 %a, %b.1\n  ret i32 %t\n\x7d".toList

/-- The routine of the sum. -/
def dottedSumRoutine : Routine :=
  ⟨"sum", ["a", "b_1"], [⟨.add, ["t", "a", "b_1"], [], []⟩, ⟨.return_, ["t"], [], []⟩], []⟩

theorem keepsParams_iff_of_lower_dottedSum :
    lower dottedSum "ios-llvm" = .ok [dottedSumRoutine] ∧ dottedSumRoutine.Mentions "b_1" ∧
      dottedSumRoutine.KeepsParams := by
  have hread : Llvm.read dottedSum = [dottedSumRoutine] :=
    Text.apply_toList_eq (f := Llvm.read) rfl (by decide +kernel)
  have hlower : lower dottedSum "ios-llvm" = .ok [dottedSumRoutine] := congrArg Except.ok hread
  refine ⟨hlower, ⟨_, List.mem_cons_self .., by decide⟩, ?_⟩
  refine (keepsParams_iff_of_lower hlower (List.mem_cons_self ..)).1.mpr fun p hp _ => ?_
  have hparams : p = "a".toList ∨ p = "b_1".toList := by simpa [dottedSumRoutine] using hp
  rcases hparams with rfl | rfl
  · exact ⟨by decide, by decide +kernel, by decide +kernel⟩
  · exact ⟨by decide, by decide, by decide⟩

/-- A register that is called after a reserved word. -/
def reservedRegister : Text := "define i32 @f(i32 %new) \x7b\n  ret i32 %new\n\x7d".toList

/-- The routine that returns the register. -/
def reservedRegisterRoutine : Routine := ⟨"f", ["new"], [⟨.return_, ["new"], [], []⟩], []⟩

/-- The head shows the register under another name than the body. -/
theorem not_keepsParams_reservedRegister :
    lower reservedRegister "ios-llvm" = .ok [reservedRegisterRoutine] ∧
      reservedRegisterRoutine.Mentions "new" ∧
      reservedRegisterRoutine.script =
        "function f(new_) \x7b\n  return new;\n\x7d".toList ∧
      ¬ reservedRegisterRoutine.KeepsParams := by
  have hread : Llvm.read reservedRegister = [reservedRegisterRoutine] :=
    Text.apply_toList_eq (f := Llvm.read) rfl (by decide +kernel)
  refine ⟨congrArg Except.ok hread, ⟨_, List.mem_cons_self .., by decide⟩, by decide +kernel,
    fun h => ?_⟩
  exact absurd h.shown (by decide)

end HostScript.Listing
