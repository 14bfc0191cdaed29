import HostScript.Harness
import HostScript.Proofs.Adapt.Guard
import HostScript.Proofs.Script.Concat
import HostScript.Profile.Bundled

/-!
# The texts around a script

What is put before and behind a script for a bundled host names nothing that the host forbids, and
it is scanned on its own. The forbidden names that stand free in the whole are therefore those that
stand free in the script.
-/

namespace HostScript

/-- Replacing a text puts the new one between the parts that it divides. -/
theorem Text.replaceAll_eq_join (old new t : Text) :
    Text.replaceAll old new t = Text.join new (Text.splitOnText old t) := by
  have hcons (c : Char) (part : Text) (parts : List Text) :
      Text.join new ((c :: part) :: parts) = c :: Text.join new (part :: parts) := by
    cases parts <;> rfl
  have hgo (skip : Nat) : Text.splitOnText.go old skip t ≠ [] ∧
      Text.replaceAll.go old new skip t = Text.join new (Text.splitOnText.go old skip t) := by
    induction t generalizing skip with
    | nil => exact ⟨by simp [Text.splitOnText.go], rfl⟩
    | cons c t ih =>
      rw [Text.splitOnText.go, Text.replaceAll.go]
      split_ifs
      · exact ih (skip - 1)
      · obtain ⟨hne, heq⟩ := ih (old.length - 1)
        refine ⟨List.cons_ne_nil _ _, ?_⟩
        obtain ⟨part, parts, hparts⟩ := List.exists_cons_of_ne_nil hne
        rw [heq, hparts]
        rfl
      · obtain ⟨hne, heq⟩ := ih 0
        obtain ⟨part, parts, hparts⟩ := List.exists_cons_of_ne_nil hne
        rw [heq, hparts]
        exact ⟨List.cons_ne_nil _ _, (hcons c part parts).symm⟩
  exact (hgo 0).2

/-- The texts of lines, one line at a time. The characters of a literal come from unification, which
is much cheaper than decoding it. -/
theorem Text.map_toList_cons {s : String} {t : Text} {ss : List String} {ts : List Text}
    (hs : s = String.ofList t) (hss : ss.map String.toList = ts) :
    (s :: ss).map String.toList = t :: ts := by
  rw [List.map_cons, hss, hs, String.toList_ofList]

/-- The texts of lines, where a line is written in two parts. -/
theorem Text.map_toList_append_cons {s s' : String} {t t' : Text} {ss : List String}
    {ts : List Text} (hs : s = String.ofList t) (hs' : s' = String.ofList t')
    (hss : ss.map String.toList = ts) :
    ((s ++ s') :: ss).map String.toList = (t ++ t') :: ts := by
  rw [List.map_cons, hss, hs, hs', ← String.ofList_append, String.toList_ofList]

/-- What holds of the characters of lines holds of the lines. -/
theorem Text.of_map_toList {P : List Text → Prop} {ss : List String} {ts : List Text}
    (h : ss.map String.toList = ts) (hts : P ts) : P (ss.map String.toList) := by
  rwa [h]

/-- Lines put together, each with its line break. -/
theorem Text.unlines_append_break {ts : List Text} (hts : ts ≠ []) :
    Text.unlines ts ++ ['\n'] = (ts.map (· ++ ['\n'])).flatten := by
  induction ts with
  | nil => exact absurd rfl hts
  | cons t ts ih =>
    cases ts with
    | nil => simp [Text.unlines, Text.join]
    | cons u us =>
      have hrest := ih (List.cons_ne_nil u us)
      rw [Text.unlines] at hrest ⊢
      rw [Text.join, List.map_cons, List.flatten_cons, ← hrest, List.append_assoc]
      simp

namespace Adapt

open Profile Script

/-- The names that a bundled profile forbids can be guarded. -/
theorem guardable_disallowed {p : Profile} (hp : p ∈ bundled) : Guardable p.disallowed := by
  have hall : ∀ q ∈ bundled, ∀ n ∈ q.disallowed, n ≠ [] ∧ n.all isIdentPart = true ∧
      Polyfill.guardName n ∉ q.disallowed ∧ ¬ markHead <:+: Polyfill.guardName n := by
    decide +kernel
  exact ⟨fun n hn => isName_of_all (hall p hp n hn).1 (hall p hp n hn).2.1,
    fun n hn => (hall p hp n hn).2.2.1, fun n hn => (hall p hp n hn).2.2.2⟩

/-- No name that a bundled profile forbids is a word behind which a regular expression may start. -/
theorem notMem_regexWords_disallowed {p : Profile} (hp : p ∈ bundled) {n : Text}
    (hn : n ∈ p.disallowed) : n ∉ regexWords := by
  have hall : ∀ q ∈ bundled, ∀ n ∈ q.disallowed, n ∉ regexWords := by decide +kernel
  exact hall p hp n hn

/-- A text that may stand before any script and uses none of the names. -/
structure IsSilent (ids : List Text) (x : Text) : Prop extends IsPrelude x where
  unused : ∀ n ∈ ids, ¬ FreeIn n x

/-- A name that stands free in a text occurs in it. -/
theorem FreeIn.isInfix {n x : Text} (h : FreeIn n x) : n <:+: x := by
  have hin := StandsAmong.isInfix h
  rwa [sources_cut] at hin

/-- A prelude in which no name occurs is silent. -/
theorem isSilent_of_not_isInfix {ids : List Text} {x : Text} (hx : IsPrelude x)
    (hids : ∀ n ∈ ids, ¬ n <:+: x) : IsSilent ids x :=
  ⟨hx, fun n hn hfree => hids n hn hfree.isInfix⟩

/-- A prelude is silent in which one name is not reported and the others do not occur. -/
theorem Guardable.isSilent {ids : List Text} (h : Guardable ids) {x m : Text} (hx : IsPrelude x)
    (hm : m ∈ ids) (hunused : disallowedIn [m] x = [])
    (habsent : ∀ n ∈ ids, n ≠ m → ¬ n <:+: x) : IsSilent ids x := by
  refine ⟨hx, fun n hn hfree => ?_⟩
  have hsingle : Guardable [m] := h.subset (List.cons_subset.mpr ⟨hm, List.nil_subset _⟩)
  by_cases hnm : n = m
  · have hmem := (hsingle.mem_disallowedIn n x).mpr ⟨List.mem_singleton.mpr hnm, hfree⟩
    rw [hunused] at hmem
    cases hmem
  · exact habsent n hn hnm hfree.isInfix

/-- A silent text before a script adds no name and hides none. -/
theorem IsSilent.standsAmong_iff {ids : List Text} {x : Text} (hx : IsSilent ids x) {n : Text}
    (hn : IsName n) (hmem : n ∈ ids) (w : List Piece) (code : Text) :
    StandsAmong n (cut w (x ++ code)) ↔ FreeIn n code := by
  have hunused := hx.unused n hmem
  rw [FreeIn] at hunused
  rw [hx.cut_append, standsAmong_append_iff hn fun _ => hx.ends.2, or_iff_right hunused, FreeIn]

/-- The parts of a harness around the script. -/
def harnessParts (p : Profile) (harness : Text) : List Text :=
  Text.splitOnText Harness.codeMark (Text.replaceAll Harness.profileMark p.name harness)

/-- A harness has one place for the script. What stands before it may stand before any script, what
stands behind it starts on a new line, and neither holds a name that the host forbids. -/
def Surrounds (p : Profile) (lines : List Text) : Prop :=
  let parts := harnessParts p (Text.unlines lines)
  parts.length = 2 ∧
    (∀ pre ∈ parts.take 1, '/' ∉ pre ∧ opensLine (cut [] pre).reverse = true ∧
      ∀ n ∈ p.disallowed, ¬ n <:+: pre) ∧
    ∀ post ∈ parts.drop 1, post.head? = some '\n' ∧
      (∀ inClass, regexRest.go inClass post.tail = none) ∧ ∀ n ∈ p.disallowed, ¬ n <:+: post

instance (p : Profile) (lines : List Text) : Decidable (Surrounds p lines) :=
  inferInstanceAs (Decidable (_ ∧ _))

/-- The harnesses of the bundled profiles surround the script. -/
theorem surrounds_bundled :
    Surrounds automationHost (Harness.automation.map String.toList) ∧
      Surrounds webHost (Harness.webview.map String.toList) ∧
      Surrounds scriptHost (Harness.script.map String.toList) := by
  refine ⟨?_, ?_, ?_⟩
  all_goals
    apply Text.of_map_toList
    · delta Harness.automation Harness.webview Harness.script
      repeat with_reducible first
        | exact List.map_nil | apply Text.map_toList_cons rfl
        | apply Text.map_toList_append_cons rfl rfl
    · decide +kernel

/-- The harness of a bundled profile is known. -/
theorem exists_find?_eq {p : Profile} (hp : p ∈ bundled) :
    ∃ lines, Harness.find? p.harness = some (Text.unlines lines) ∧ Surrounds p lines := by
  obtain ⟨hautomation, hweb, hscript⟩ := surrounds_bundled
  simp only [bundled, List.mem_cons, List.not_mem_nil, or_false] at hp
  rcases hp with rfl | rfl | rfl
  · exact ⟨_, rfl, hautomation⟩
  · exact ⟨_, rfl, hweb⟩
  · exact ⟨_, rfl, hscript⟩

/-- A script for a bundled profile is put between a silent text and one that starts on a new line
and holds no forbidden name. -/
theorem exists_wrap_eq {p : Profile} (hp : p ∈ bundled) :
    ∃ pre post, IsSilent p.disallowed pre ∧ IsCoda post ∧ (∀ n ∈ p.disallowed, ¬ n <:+: post) ∧
      ∀ code, Harness.wrap p code = .ok (pre ++ code ++ post) := by
  obtain ⟨lines, hfind, htwo, hpre, hpost⟩ := exists_find?_eq hp
  obtain ⟨pre, post, hparts⟩ := List.length_eq_two.mp htwo
  obtain ⟨hslash, hopens, hunused⟩ := hpre pre (by simp [hparts])
  obtain ⟨hbreak, hregex, habsent⟩ := hpost post (by simp [hparts])
  refine ⟨pre, post, isSilent_of_not_isInfix ⟨hslash, hopens⟩ hunused, ⟨hbreak, hregex⟩, habsent,
    fun code => ?_⟩
  rw [harnessParts] at hparts
  rw [Harness.wrap, hfind]
  dsimp only
  rw [Text.replaceAll_eq_join Harness.codeMark code, hparts]
  simp [Text.join]

/-- The harness of a bundled profile neither adds nor hides a forbidden name. -/
theorem exists_wrap_eq_freeIn {p : Profile} (hp : p ∈ bundled) (code : Text) :
    ∃ wrapped, Harness.wrap p code = .ok wrapped ∧
      ∀ n ∈ p.disallowed, FreeIn n wrapped ↔ FreeIn n code := by
  obtain ⟨pre, post, hpre, hpost, habsent, hwrap⟩ := exists_wrap_eq hp
  refine ⟨pre ++ code ++ post, hwrap code, fun n hn => ?_⟩
  have hname := (guardable_disallowed hp).isName n hn
  rw [FreeIn, List.append_assoc, hpre.standsAmong_iff hname hn, FreeIn,
    hpost.standsAmong_iff hname (habsent n hn), FreeIn]

/-- Silent texts before a script add no name and hide none. -/
theorem standsAmong_flatten_iff {ids : List Text} {xs : List Text} (hne : xs ≠ [])
    (hxs : ∀ x ∈ xs, IsSilent ids x) {n : Text} (hn : IsName n) (hmem : n ∈ ids)
    (w : List Piece) (code : Text) :
    StandsAmong n (cut w (xs.flatten ++ code)) ↔ FreeIn n code := by
  induction xs generalizing w with
  | nil => exact absurd rfl hne
  | cons x xs ih =>
    rw [List.forall_mem_cons] at hxs
    rw [List.flatten_cons, List.append_assoc, hxs.1.standsAmong_iff hn hmem]
    cases xs with
    | nil => rfl
    | cons y ys => exact ih (List.cons_ne_nil y ys) hxs.2 []

/-- A feature is defined by a text that may stand before any script and holds no forbidden name. -/
def Supplies (lines : List Text) : Prop :=
  let x := Text.unlines lines ++ ['\n']
  '/' ∉ x ∧ opensLine (cut [] x).reverse = true ∧ ∀ n ∈ scriptHost.disallowed, ¬ n <:+: x

instance (lines : List Text) : Decidable (Supplies lines) := inferInstanceAs (Decidable (_ ∧ _))

/-- Every feature is supplied without forbidden names. -/
theorem supplies_of_mem_features {f : String × List String} (hf : f ∈ Polyfill.features) :
    Supplies (f.2.map String.toList) := by
  simp only [Polyfill.features, List.mem_cons, List.not_mem_nil, or_false] at hf
  rcases hf with rfl | rfl | rfl | rfl | rfl
  all_goals
    apply Text.of_map_toList
    · delta Polyfill.promisePolyfill Polyfill.assignPolyfill Polyfill.includesPolyfill
        Polyfill.findPolyfill Polyfill.textIncludesPolyfill
      repeat with_reducible first
        | exact List.map_nil | apply Text.map_toList_cons rfl
        | apply Text.map_toList_append_cons rfl rfl
    · decide +kernel

/-- The bare script engine forbids every name that a bundled profile forbids. -/
theorem disallowed_subset {p : Profile} (hp : p ∈ bundled) :
    p.disallowed ⊆ scriptHost.disallowed := by
  have hsubset {ns ms : List String} (h : ns ⊆ ms) : ns.map String.toList ⊆ ms.map String.toList :=
    List.map_subset _ h
  simp only [bundled, List.mem_cons, List.not_mem_nil, or_false] at hp
  rcases hp with rfl | rfl | rfl
  · exact hsubset (by simp)
  · exact hsubset (by simp)
  · exact List.Subset.refl _

/-- The definition of a feature is silent. -/
theorem isSilent_feature {p : Profile} (hp : p ∈ bundled) {name x : Text}
    (hx : Polyfill.feature? name = some x) : IsSilent p.disallowed (x ++ ['\n']) := by
  obtain ⟨f, hf, rfl⟩ := Option.map_eq_some_iff.mp hx
  obtain ⟨hslash, hopens, hunused⟩ := supplies_of_mem_features (List.mem_of_find?_eq_some hf)
  exact isSilent_of_not_isInfix ⟨hslash, hopens⟩ fun n hn => hunused n (disallowed_subset hp hn)

/-- The definition of a guarded name is silent. -/
theorem isSilent_guardDefinition {p : Profile} (hp : p ∈ bundled) {n : Text}
    (hn : n ∈ p.disallowed) :
    IsSilent p.disallowed (Polyfill.guardDefinition n ++ ['\n']) := by
  have hall : ∀ m ∈ scriptHost.disallowed,
      '/' ∉ Polyfill.guardDefinition m ++ ['\n'] ∧
        opensLine (cut [] (Polyfill.guardDefinition m ++ ['\n'])).reverse = true ∧
        disallowedIn [m] (Polyfill.guardDefinition m ++ ['\n']) = [] ∧
        ∀ k ∈ scriptHost.disallowed, k ≠ m → ¬ k <:+: Polyfill.guardDefinition m ++ ['\n'] := by
    decide +kernel
  have hscript : Guardable scriptHost.disallowed := guardable_disallowed (by simp [bundled])
  obtain ⟨hslash, hopens, hreport, habsent⟩ := hall n (disallowed_subset hp hn)
  have hsilent := hscript.isSilent ⟨hslash, hopens⟩ (disallowed_subset hp hn) hreport habsent
  exact ⟨hsilent.toIsPrelude, fun m hm => hsilent.unused m (disallowed_subset hp hm)⟩

/-- The head that is put before a script adds no forbidden name and hides none. -/
theorem freeIn_preamble_append_iff {p : Profile} (hp : p ∈ bundled) {guarded : List Text}
    (hg : guarded ⊆ p.disallowed) {n : Text} (hn : n ∈ p.disallowed) (code : Text) :
    FreeIn n (Polyfill.preamble p.missing guarded ++ code) ↔ FreeIn n code := by
  let blocks := guarded.map Polyfill.guardDefinition ++ p.missing.filterMap Polyfill.feature?
  have hname := (guardable_disallowed hp).isName n hn
  obtain ⟨x, hhead, hcomment⟩ : ∃ x : Text, ("/* jitphone polyfills */" : Text) = '/' :: x ∧
      spanAt? [] '/' (x ++ ['\n']) = some (.comment, x.length) :=
    ⟨"* jitphone polyfills */".toList, by decide, by decide⟩
  have hsome : ∀ q ∈ bundled, ∃ m ∈ q.missing, (Polyfill.feature? m).isSome = true := by
    decide
  have hne : blocks.map (· ++ ['\n']) ≠ [] := by
    obtain ⟨m, hm, hfeature⟩ := hsome p hp
    obtain ⟨y, hy⟩ := Option.isSome_iff_exists.mp hfeature
    have hmem : y ∈ blocks := List.mem_append_right _ (List.mem_filterMap.mpr ⟨m, hm, hy⟩)
    simpa using List.ne_nil_of_mem hmem
  have hsilent : ∀ b ∈ blocks.map (· ++ ['\n']), IsSilent p.disallowed b := by
    intro b hb
    obtain ⟨y, hy, rfl⟩ := List.mem_map.mp hb
    rcases List.mem_append.mp hy with hy | hy
    · obtain ⟨m, hm, rfl⟩ := List.mem_map.mp hy
      exact isSilent_guardDefinition hp (hg hm)
    · obtain ⟨m, -, hm⟩ := List.mem_filterMap.mp hy
      exact isSilent_feature hp hm
  have htext : Polyfill.preamble p.missing guarded ++ code =
      '/' :: x ++ '\n' :: ((blocks.map (· ++ ['\n'])).flatten ++ code) := by
    have hlines : Polyfill.preamble p.missing guarded =
        Text.unlines (('/' :: x) :: blocks) ++ ['\n'] := by
      rw [← hhead]
      rfl
    rw [hlines, Text.unlines_append_break (List.cons_ne_nil _ _)]
    simp
  rw [htext, FreeIn, standsAmong_comment_iff hcomment hname,
    standsAmong_flatten_iff hne hsilent hname hn]

end Adapt

end HostScript
