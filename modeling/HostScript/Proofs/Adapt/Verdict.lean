import HostScript.Adapt.Cached
import HostScript.Proofs.Adapt.Wrap
import HostScript.Proofs.Outcome

/-!
# What the verdict on an adapted script says

With polyfills, a script is guarded before its modern constructs are expressed in older ones. After
guarding, no forbidden name stands free, and neither the head nor the harness adds one. So the
verdict finds a forbidden name exactly when the step to the older language brings one into the open,
as it does with the code inside a template.
-/

namespace HostScript.Adapt

open Profile Script

/-- No forbidden name stands free in a guarded script. -/
theorem not_freeIn_guarded {p : Profile} (hp : p ∈ bundled) {n : Text} (hn : n ∈ p.disallowed)
    (code : Text) :
    ¬ FreeIn n (sources (renameFree (guardOf p.disallowed) (cut [] code))) := by
  have hids := guardable_disallowed hp
  rw [FreeIn, hids.cut_guarded (fun n => notMem_regexWords_disallowed hp) code,
    standsAmong_renameFree_iff hids.isRenaming (hids.isName n hn)]
  rintro ⟨w, -, -, hwn⟩
  by_cases hw : w ∈ p.disallowed
  · -- The guarded name of a forbidden name is not forbidden.
    rw [guardOf_eq_some_iff.mpr ⟨hw, rfl⟩, Option.getD_some] at hwn
    exact hids.fresh w hw (hwn ▸ hn)
  · rw [guardOf, if_neg hw, Option.getD_none] at hwn
    exact hw (hwn ▸ hn)

/-- A script without marks is supplied, and then no forbidden name stands free in it. -/
theorem exists_supply_eq {p : Profile} (hp : p ∈ bundled) {code : Text} (hu : Unmarked code)
    (hlen : code.length ≤ 10 ^ Number.digitLimit) :
    ∃ supplied labels, supply p true code = .ok (supplied, labels, []) ∧
      ∀ n ∈ p.disallowed, ¬ FreeIn n supplied := by
  obtain ⟨found, hguard, -, hfound⟩ := (guardable_disallowed hp).guardIdentifiers_eq hu hlen
  have hsub : found ⊆ p.disallowed :=
    fun n hn => List.mem_of_mem_filter ((hfound n).mp hn)
  refine ⟨_, _, by rw [supply, if_pos rfl, hguard]; rfl, fun n hn => ?_⟩
  rw [freeIn_preamble_append_iff hp hsub hn]
  exact not_freeIn_guarded hp hn code

/-- No forbidden name is reported exactly when none stands free. -/
theorem disallowedIn_eq_nil_iff {p : Profile} (hp : p ∈ bundled) (code : Text) :
    disallowedIn p.disallowed code = [] ↔ ∀ n ∈ p.disallowed, ¬ FreeIn n code := by
  simp only [List.eq_nil_iff_forall_not_mem, (guardable_disallowed hp).mem_disallowedIn, not_and]

/-- Scripts in which the same forbidden names stand free have the same report. -/
theorem disallowedIn_congr {p : Profile} (hp : p ∈ bundled) {code code' : Text}
    (h : ∀ n ∈ p.disallowed, FreeIn n code ↔ FreeIn n code') :
    disallowedIn p.disallowed code = disallowedIn p.disallowed code' := by
  refine List.filter_congr fun n hn => ?_
  have hiff : n ∈ disallowedIn p.disallowed code ↔ n ∈ disallowedIn p.disallowed code' := by
    rw [(guardable_disallowed hp).mem_disallowedIn, (guardable_disallowed hp).mem_disallowedIn,
      h n hn]
  simpa [disallowedIn, hn] using hiff

/-- A host accepts a script exactly when no forbidden name is left and it is not too long. -/
theorem compatible_iff (p : Profile) (code : Text) :
    (verdict p code).compatible = true ↔
      (verdict p code).unguarded = [] ∧ (code.length : Int) ≤ p.maxPayload := by
  rw [verdict]
  simp only [List.isEmpty_iff, List.append_eq_nil_iff, List.map_eq_nil_iff]
  refine and_congr_right fun _ => ?_
  rw [payloadIssue]
  split
  · rename_i hlong
    exact iff_of_false (List.cons_ne_nil _ _) (by omega)
  · rename_i hshort
    exact iff_of_true rfl (by omega)

/-- A script with its forbidden names guarded and its missing features supplied, in the older
language: what the harness is put around. -/
def olderForm (p : Profile) (code : Text) : Outcome Text := do
  let (supplied, _, _) ← supply p true (Optimize.stripHints code)
  let (older, _) ← downlevel supplied
  pure older

theorem olderForm_eq {p : Profile} {code supplied older : Text} {labels warnings : List Text}
    {steps : List String}
    (hsupply : supply p true (Optimize.stripHints code) = .ok (supplied, labels, warnings))
    (hdown : downlevel supplied = .ok (older, steps)) : olderForm p code = .ok older := by
  rw [olderForm, hsupply]
  change Except.bind (downlevel supplied) _ = _
  rw [hdown]
  rfl

/-- What an adaptation with polyfills, and without shrinking, is asked to do. -/
def guardingOptions (level : Int) : Options where
  polyfills := true
  forSize := false
  level := level

/-- An adaptation that does not shrink puts the harness around the older form and gives its verdict
on the result. -/
theorem map_adapt_guardingOptions (p : Profile) (level : Int) (code : Text) :
    (adapt p (guardingOptions level) code).map (fun a => (a.code, a.verdict)) =
      (olderForm p code).bind fun older =>
        (Harness.wrap p older).map fun wrapped => (wrapped, verdict p wrapped) := by
  rw [adapt, olderForm]
  change Except.map _ (Except.bind (supply p true (Optimize.stripHints code)) _) =
    Except.bind (Except.bind (supply p true (Optimize.stripHints code)) _) _
  cases supply p true (Optimize.stripHints code) with
  | error e => rfl
  | ok s =>
    obtain ⟨supplied, labels, warnings⟩ := s
    change Except.map _ (Except.bind (downlevel supplied) _) =
      Except.bind (Except.bind (downlevel supplied) _) _
    cases downlevel supplied with
    | error e => rfl
    | ok d =>
      obtain ⟨older, steps⟩ := d
      change Except.map _ (Except.bind (Harness.wrap p older) _) =
        Except.map _ (Harness.wrap p older)
      cases Harness.wrap p older with
      | error e => rfl
      | ok wrapped => rfl

/-- An adaptation comes with the verdict on its script, and its script has an older form. -/
theorem of_adapt_eq {p : Profile} {level : Int} {code : Text} {a : Adaptation}
    (ha : adapt p (guardingOptions level) code = .ok a) :
    a.verdict = verdict p a.code ∧ ∃ older, olderForm p code = .ok older := by
  have hmap := map_adapt_guardingOptions p level code
  rw [ha] at hmap
  cases holder : olderForm p code with
  | error e =>
    rw [holder] at hmap
    cases hmap
  | ok older =>
    cases hwrap : Harness.wrap p older with
    | error e => simp [holder, Except.bind, Except.map, hwrap] at hmap
    | ok wrapped =>
      simp only [holder, Except.bind, Except.map, hwrap, Except.ok.injEq, Prod.mk.injEq] at hmap
      exact ⟨by rw [hmap.2, hmap.1], older, rfl⟩

/-- A script that has an older form is adapted, and the verdict reports the forbidden names of the
older form. -/
theorem exists_adapt_eq {p : Profile} (hp : p ∈ bundled) (level : Int) {code older : Text}
    (holder : olderForm p code = .ok older) :
    ∃ a, adapt p (guardingOptions level) code = .ok a ∧
      a.verdict.unguarded = disallowedIn p.disallowed older := by
  have hmap := map_adapt_guardingOptions p level code
  obtain ⟨wrapped, hwrap, hfree⟩ := exists_wrap_eq_freeIn hp older
  cases ha : adapt p (guardingOptions level) code with
  | error e => simp [ha, holder, Except.bind, Except.map, hwrap] at hmap
  | ok a =>
    simp only [ha, holder, Except.bind, Except.map, hwrap, Except.ok.injEq, Prod.mk.injEq] at hmap
    refine ⟨a, rfl, ?_⟩
    rw [hmap.2]
    exact disallowedIn_congr hp hfree

/-- With polyfills, an adaptation leaves no forbidden name exactly when none stands free in the
older form of the guarded script, and then the host accepts it exactly when it is short enough. In
the guarded script itself none stands free, so what the step to the older language leaves alone is
adapted without a forbidden name. -/
theorem adapt_unguarded_iff {p : Profile} (hp : p ∈ bundled) (level : Int) (code : Text) :
    ((∃ a, adapt p (guardingOptions level) code = .ok a ∧ a.verdict.unguarded = []) ↔
        ∃ older, olderForm p code = .ok older ∧ ∀ n ∈ p.disallowed, ¬ FreeIn n older) ∧
      (∀ a, adapt p (guardingOptions level) code = .ok a →
        (a.verdict.compatible = true ↔
          a.verdict.unguarded = [] ∧ (a.code.length : Int) ≤ p.maxPayload)) ∧
      (Unmarked (Optimize.stripHints code) →
        (Optimize.stripHints code).length ≤ 10 ^ Number.digitLimit →
        ∃ supplied labels, supply p true (Optimize.stripHints code) = .ok (supplied, labels, []) ∧
          (∀ n ∈ p.disallowed, ¬ FreeIn n supplied) ∧
          (downlevel supplied = .ok (supplied, []) →
            ∃ a, adapt p (guardingOptions level) code = .ok a ∧ a.verdict.unguarded = [])) := by
  refine ⟨⟨?_, ?_⟩, ?_, ?_⟩
  · rintro ⟨a, ha, hnone⟩
    obtain ⟨-, older, holder⟩ := of_adapt_eq ha
    obtain ⟨a', ha', hreport⟩ := exists_adapt_eq hp level holder
    rw [ha] at ha'
    cases ha'
    exact ⟨older, holder, (disallowedIn_eq_nil_iff hp older).mp (hreport ▸ hnone)⟩
  · rintro ⟨older, holder, hnone⟩
    obtain ⟨a, ha, hreport⟩ := exists_adapt_eq hp level holder
    exact ⟨a, ha, hreport.trans ((disallowedIn_eq_nil_iff hp older).mpr hnone)⟩
  · intro a ha
    rw [(of_adapt_eq ha).1]
    exact compatible_iff p a.code
  · intro hu hlen
    obtain ⟨supplied, labels, hsupply, hnone⟩ := exists_supply_eq hp hu hlen
    refine ⟨supplied, labels, hsupply, hnone, fun hdown => ?_⟩
    have holder : olderForm p code = .ok supplied := olderForm_eq hsupply hdown
    obtain ⟨a, ha, hreport⟩ := exists_adapt_eq hp level holder
    exact ⟨a, ha, hreport.trans ((disallowedIn_eq_nil_iff hp supplied).mpr hnone)⟩

/-- A script that calls a forbidden function. -/
def plainUse : Text := "eval(x);"

/-- What a web view runs for the call, with the lines of the two features that it lacks. -/
def guardedUse (assign includes : List Text) : Text :=
  Text.unlines [("/* jitphone polyfills */" : Text), Polyfill.guardDefinition "eval",
    Text.unlines assign, Text.unlines includes] ++ "\n" ++ (Polyfill.guardName "eval" ++ "(x);")

/-- The guarded call is in the older language already. -/
def StaysGuarded (assign includes : List Text) : Prop :=
  (downlevel (guardedUse assign includes)).toOption = some (guardedUse assign includes, [])

instance (assign includes : List Text) : Decidable (StaysGuarded assign includes) :=
  inferInstanceAs (Decidable (_ = _))

/-- The features that a web view lacks are in the older language. -/
theorem staysGuarded_features :
    StaysGuarded (Polyfill.assignPolyfill.map String.toList)
      (Polyfill.includesPolyfill.map String.toList) := by
  apply Text.of_map_toList (P := (StaysGuarded · (Polyfill.includesPolyfill.map String.toList)))
  · delta Polyfill.assignPolyfill
    repeat with_reducible first
      | exact List.map_nil | apply Text.map_toList_cons rfl
      | apply Text.map_toList_append_cons rfl rfl
  apply Text.of_map_toList (P := StaysGuarded _)
  · delta Polyfill.includesPolyfill
    repeat with_reducible first
      | exact List.map_nil | apply Text.map_toList_cons rfl
      | apply Text.map_toList_append_cons rfl rfl
  decide +kernel

/-- For a web view the call is guarded before the script is put in the older language, which leaves
it alone. So it is adapted without a forbidden name. -/
theorem adapt_unguarded_iff_plainUse :
    webHost ∈ bundled ∧ ∃ supplied labels,
      supply webHost true (Optimize.stripHints plainUse) = .ok (supplied, labels, []) ∧
        (∀ n ∈ webHost.disallowed, ¬ FreeIn n supplied) ∧
        downlevel supplied = .ok (supplied, []) ∧
        ∃ a, adapt webHost (guardingOptions 0) plainUse = .ok a ∧ a.verdict.unguarded = [] := by
  have hp : webHost ∈ bundled := by simp [bundled]
  have hu : Unmarked (Optimize.stripHints plainUse) := ⟨by decide +kernel, by decide +kernel⟩
  have hlen : (Optimize.stripHints plainUse).length ≤ 10 ^ Number.digitLimit :=
    le_pow_digitLimit (by decide +kernel)
  obtain ⟨supplied, labels, hsupply, hnone, hadapt⟩ :=
    (adapt_unguarded_iff hp 0 plainUse).2.2 hu hlen
  have hsupplied : supplied = guardedUse (Polyfill.assignPolyfill.map String.toList)
      (Polyfill.includesPolyfill.map String.toList) := by
    have hguard : guardIdentifiers webHost.disallowed (Optimize.stripHints plainUse) =
        .ok (Polyfill.guardName "eval" ++ "(x);", ["eval".toList]) :=
      Outcome.toOption_eq_some_iff.mp (by decide +kernel)
    have hpreamble : Polyfill.preamble webHost.missing ["eval".toList] =
        Text.unlines [("/* jitphone polyfills */" : Text), Polyfill.guardDefinition "eval",
          Text.unlines (Polyfill.assignPolyfill.map String.toList),
          Text.unlines (Polyfill.includesPolyfill.map String.toList)] ++ "\n" := rfl
    rw [supply, if_pos rfl, hguard] at hsupply
    have hok := (Prod.mk.inj (Except.ok.inj hsupply)).1
    rw [← hok, hpreamble, guardedUse]
  have hdown : downlevel supplied = .ok (supplied, []) := by
    rw [hsupplied]
    exact Outcome.toOption_eq_some_iff.mp staysGuarded_features
  exact ⟨hp, supplied, labels, hsupply, hnone, hdown, hadapt hdown⟩

/-- A script that calls a forbidden function inside a template. -/
def templateUse : Text := "var a = `$\x7beval(x)\x7d`;"

/-- Behind the lines of two features, the code inside the template is in the open once the script is
put in the older language. -/
def OpensEval (assign includes : List Text) : Prop :=
  (downlevel (Text.unlines [("/* jitphone polyfills */" : Text), Text.unlines assign,
    Text.unlines includes] ++ "\n" ++ templateUse)).toOption.map
      (fun older => disallowedIn webHost.disallowed older.1) = some [("eval" : Text)]

instance (assign includes : List Text) : Decidable (OpensEval assign includes) :=
  inferInstanceAs (Decidable (_ = _))

/-- These are the features that a web view lacks. -/
theorem opensEval_features :
    OpensEval (Polyfill.assignPolyfill.map String.toList)
      (Polyfill.includesPolyfill.map String.toList) := by
  apply Text.of_map_toList (P := (OpensEval · (Polyfill.includesPolyfill.map String.toList)))
  · delta Polyfill.assignPolyfill
    repeat with_reducible first
      | exact List.map_nil | apply Text.map_toList_cons rfl
      | apply Text.map_toList_append_cons rfl rfl
  apply Text.of_map_toList (P := OpensEval _)
  · delta Polyfill.includesPolyfill
    repeat with_reducible first
      | exact List.map_nil | apply Text.map_toList_cons rfl
      | apply Text.map_toList_append_cons rfl rfl
  decide +kernel

/-- Code inside a template is not guarded, and the step to the older language brings it into the
open. -/
theorem adapt_templateUse_unguarded :
    ∃ a, adapt webHost (guardingOptions 0) templateUse = .ok a ∧
      a.verdict.unguarded = [("eval" : Text)] := by
  have hpreamble : Polyfill.preamble webHost.missing [] =
      Text.unlines [("/* jitphone polyfills */" : Text),
        Text.unlines (Polyfill.assignPolyfill.map String.toList),
        Text.unlines (Polyfill.includesPolyfill.map String.toList)] ++ "\n" := rfl
  have hsupply : supply webHost true (Optimize.stripHints templateUse) =
      .ok (Polyfill.preamble webHost.missing [] ++ templateUse, ["polyfills".toList], []) := by
    have hguard : guardIdentifiers webHost.disallowed (Optimize.stripHints templateUse) =
        .ok (templateUse, []) := Outcome.toOption_eq_some_iff.mp (by decide +kernel)
    rw [supply, if_pos rfl, hguard]
    rfl
  have hopen := opensEval_features
  rw [OpensEval, ← hpreamble] at hopen
  obtain ⟨⟨older, steps⟩, hdown, hreport⟩ := Option.map_eq_some_iff.mp hopen
  obtain ⟨a, ha, hunguarded⟩ := exists_adapt_eq (by simp [bundled]) 0
    (olderForm_eq hsupply (Outcome.toOption_eq_some_iff.mp hdown))
  exact ⟨a, ha, hunguarded.trans hreport⟩

end HostScript.Adapt
