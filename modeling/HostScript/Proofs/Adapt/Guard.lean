import HostScript.Adapt
import HostScript.Proofs.Script.Rescan

/-!
# What the check for forbidden names sees

A forbidden name is reported, and replaced by its guarded name, exactly where it stands free: its
characters are code, and what touches them is neither an identifier character nor a hidden literal
or comment nor, before them, a dot. A comment next to a name therefore hides it.
-/

namespace HostScript.Adapt

open Script

/-- A name stands free in a script. -/
def FreeIn (n code : Text) : Prop := StandsAmong n (cut [] code)

/-- A name is reported exactly when it stands among the runs of the shown text. -/
theorem mem_disallowedIn_iff_stands {ids : List Text} {n : Text} (hn : IsName n) (code : Text) :
    n ∈ disallowedIn ids code ↔
      n ∈ ids ∧ Stands (· == '.') false n (textRuns (mask .all code).text) := by
  rw [disallowedIn, List.mem_filter, occursIn_freeName_iff hn]

/-- A name without the opening of a mark stands among the runs of the shown text exactly when it
stands free in the script. -/
theorem stands_text_iff {n : Text} (hn : IsName n) (hm : ¬ markHead <:+: n) (code : Text) :
    Stands (· == '.') false n (textRuns (mask .all code).text) ↔ FreeIn n code := by
  have hw := fun p (hp : p ∈ cut [] code) => isWhole_of_mem_cut hp
  have hruns : ∀ w ∈ pieceRuns (cut [] code), ∀ p ∈ w, p.IsWhole :=
    fun w hw' p hp => hw p (mem_of_mem_runsOf hw' hp)
  rw [mask_eq, pieces_all, textRuns_assemble hw, stands_showRuns_iff hm hruns, FreeIn,
    standsAmong_iff hn]

/-- Texts that compare equal are equal. -/
local instance lawfulBEqText : LawfulBEq Text := inferInstance

/-- The guarded names of some identifiers. -/
def guardOf (ids : List Text) (w : Text) : Option Text :=
  if w ∈ ids then some (Polyfill.guardName w) else none

theorem guardOf_eq_some_iff {ids : List Text} {n m : Text} :
    guardOf ids n = some m ↔ n ∈ ids ∧ Polyfill.guardName n = m := by
  simp [guardOf]

/-- Identifiers that can be guarded one after the other: they are names, none of them is the guarded
name of another, and no mark can start in a guarded name. -/
structure Guardable (ids : List Text) : Prop where
  isName : ∀ n ∈ ids, IsName n
  fresh : ∀ n ∈ ids, Polyfill.guardName n ∉ ids
  unmarked : ∀ n ∈ ids, ¬ markHead <:+: Polyfill.guardName n

theorem Guardable.subset {ids some : List Text} (h : Guardable ids) (hs : some ⊆ ids) :
    Guardable some where
  isName := fun n hn => h.isName n (hs hn)
  fresh := fun n hn hg => h.fresh n (hs hn) (hs hg)
  unmarked := fun n hn => h.unmarked n (hs hn)

/-- No mark can start in a name that can be guarded. -/
theorem Guardable.not_markHead {ids : List Text} (h : Guardable ids) {n : Text} (hn : n ∈ ids) :
    ¬ markHead <:+: n :=
  fun hi => h.unmarked n hn (hi.trans (List.suffix_append _ n).isInfix)

/-- The guarded name of a name is a name. -/
theorem isName_guardName {n : Text} (hn : IsName n) : IsName (Polyfill.guardName n) where
  ne_nil := by simp [Polyfill.guardName, hn.ne_nil]
  isIdentPart := by
    have hmark : Polyfill.guardMark.all isIdentPart = true := by decide
    intro c hc
    rcases List.mem_append.mp hc with hc | hc
    · exact List.all_eq_true.mp hmark c hc
    · exact hn.isIdentPart c hc

/-- Guarding is a renaming of names. -/
theorem Guardable.isRenaming {ids : List Text} (h : Guardable ids) : IsRenaming (guardOf ids) where
  old := fun hnm => h.isName _ (guardOf_eq_some_iff.mp hnm).1
  new := by
    intro n m hnm
    obtain ⟨hn, rfl⟩ := guardOf_eq_some_iff.mp hnm
    exact isName_guardName (h.isName n hn)
  old_unmarked := by
    intro n m hnm
    exact h.not_markHead (guardOf_eq_some_iff.mp hnm).1
  new_unmarked := by
    intro n m hnm
    obtain ⟨hn, rfl⟩ := guardOf_eq_some_iff.mp hnm
    exact h.unmarked n hn

/-- Guarding one name in a text. -/
theorem replace_guardName {n : Text} (hn : IsName n) (text : Text) :
    (freeName n).replace (fun _ => Polyfill.guardName n) text =
      (renameRuns (· == '.') (guardOf [n]) false (textRuns text)).flatten := by
  have hone : (fun w => if w = n then some (Polyfill.guardName n) else none) = guardOf [n] := by
    funext w
    by_cases hw : w = n <;> simp [guardOf, hw]
  rw [replace_freeName hn, hone]

/-- Guarding the first name and then the others guards them all. -/
theorem Guardable.guardOf_cons {n : Text} {ids : List Text} (h : Guardable (n :: ids)) :
    (fun w => (guardOf [n] w).elim (guardOf ids w) fun v => some ((guardOf ids v).getD v)) =
      guardOf (n :: ids) := by
  funext w
  have hfresh : Polyfill.guardName n ∉ ids :=
    fun hg => h.fresh n (List.mem_cons_self ..) (List.mem_cons_of_mem n hg)
  by_cases hw : w = n
  · subst hw
    simp [guardOf, hfresh]
  · simp [guardOf, hw]

/-- After guarding one name, the names that stand in a text are the others that stood there, and the
guarded name. -/
theorem stands_guardOf_singleton_iff {n : Text} (h : Guardable [n]) {w : Text}
    (hw : w ≠ Polyfill.guardName n) (ws : List Text) :
    Stands (· == '.') false w (renameRuns (· == '.') (guardOf [n]) false ws) ↔
      w ≠ n ∧ Stands (· == '.') false w ws := by
  rw [stands_renameRuns_iff h.isRenaming.endsIn_dot]
  constructor
  · rintro ⟨v, hv, hvw⟩
    by_cases hvn : v = n
    · subst hvn
      simp only [guardOf, List.mem_singleton, ite_true, Option.getD_some] at hvw
      exact absurd hvw.symm hw
    · simp only [guardOf, List.mem_singleton, hvn, ite_false, Option.getD_none] at hvw
      subst hvw
      exact ⟨hvn, hv⟩
  · rintro ⟨hwn, hs⟩
    exact ⟨w, hs, by simp [guardOf, hwn]⟩

/-- Guarding names one after the other renames all of them at once, and reports each that stood in
the text once. -/
theorem guardText_spec {ids : List Text} (h : Guardable ids) (text : Text) :
    (guardText ids text).1 =
        (renameRuns (· == '.') (guardOf ids) false (textRuns text)).flatten ∧
      (guardText ids text).2.Nodup ∧
      ∀ n, n ∈ (guardText ids text).2 ↔
        n ∈ ids ∧ Stands (· == '.') false n (textRuns text) := by
  induction ids generalizing text with
  | nil =>
    have hnone : guardOf [] = fun _ => none := by
      funext w
      simp [guardOf]
    simp [guardText, hnone, renameRuns_none]
  | cons m ids ih =>
    have hmem : m ∈ m :: ids := List.mem_cons_self ..
    have hm := h.isName m hmem
    have hrest := h.subset (List.subset_cons_self m ids)
    rw [guardText]
    by_cases hocc : (freeName m).occursIn text = true
    · have hone : Guardable [m] := h.subset (by simp)
      have hstands := (occursIn_freeName_iff hm text).mp hocc
      rw [if_pos hocc, replace_guardName hm]
      obtain ⟨htext, hnodup, hfound⟩ := ih hrest
        (renameRuns (· == '.') (guardOf [m]) false (textRuns text)).flatten
      rw [hone.isRenaming.textRuns_flatten] at htext hfound
      rw [renameRuns_renameRuns hone.isRenaming.endsIn_dot, h.guardOf_cons] at htext
      have hfound' : ∀ n, n ∈ (guardText ids
          (renameRuns (· == '.') (guardOf [m]) false (textRuns text)).flatten).2 ↔
            n ∈ ids ∧ n ≠ m ∧ Stands (· == '.') false n (textRuns text) := by
        intro n
        rw [hfound]
        refine and_congr_right fun hn => stands_guardOf_singleton_iff hone ?_ _
        rintro rfl
        exact h.fresh m hmem (List.mem_cons_of_mem m hn)
      refine ⟨htext, List.nodup_cons.mpr ⟨fun hf => ((hfound' m).mp hf).2.1 rfl, hnodup⟩, ?_⟩
      intro n
      rw [List.mem_cons, List.mem_cons, hfound']
      by_cases hnm : n = m
      · simp [hnm, hstands]
      · simp [hnm]
    · have hgone : ¬ Stands (· == '.') false m (textRuns text) :=
        fun hs => hocc ((occursIn_freeName_iff hm text).mpr hs)
      obtain ⟨htext, hnodup, hfound⟩ := ih hrest text
      rw [if_neg hocc]
      refine ⟨?_, hnodup, ?_⟩
      · rw [htext]
        congr 1
        apply renameRuns_congr
        intro w hw
        have hwm : w ≠ m := fun heq => hgone (heq ▸ hw)
        simp [guardOf, hwm]
      · intro n
        rw [hfound, List.mem_cons]
        by_cases hnm : n = m
        · simp [hnm, hgone]
        · simp [hnm]

/-- A name in which no mark can start is reported exactly when it stands free. -/
theorem mem_disallowedIn_iff {ids : List Text} {n : Text} (hn : IsName n)
    (hm : ¬ markHead <:+: n) (code : Text) :
    n ∈ disallowedIn ids code ↔ n ∈ ids ∧ FreeIn n code := by
  rw [mem_disallowedIn_iff_stands hn, stands_text_iff hn hm]

/-- Of identifiers that can be guarded, those are reported that stand free. -/
theorem Guardable.mem_disallowedIn {ids : List Text} (h : Guardable ids) (n code : Text) :
    n ∈ disallowedIn ids code ↔ n ∈ ids ∧ FreeIn n code := by
  by_cases hn : n ∈ ids
  · exact mem_disallowedIn_iff (h.isName n hn) (h.not_markHead hn) code
  · exact iff_of_false (fun hd => hn (List.mem_of_mem_filter hd)) fun hd => hn hd.1

/-- Guarding a script without marks renames the forbidden names that stand free, and reports each
of them once. -/
theorem Guardable.guardIdentifiers_eq {ids : List Text} (h : Guardable ids) {code : Text}
    (hu : Unmarked code) (hlen : code.length ≤ 10 ^ Number.digitLimit) :
    ∃ found, guardIdentifiers ids code =
        .ok (sources (renameFree (guardOf ids) (cut [] code)), found) ∧
      found.Nodup ∧ ∀ n, n ∈ found ↔ n ∈ disallowedIn ids code := by
  obtain ⟨htext, hnodup, hfound⟩ := guardText_spec h (mask .all code).text
  refine ⟨(guardText ids (mask .all code).text).2, ?_, hnodup, ?_⟩
  · rw [guardIdentifiers]
    dsimp only
    rw [htext, restoreText_renameRuns h.isRenaming hu hlen]
    rfl
  · intro n
    rw [hfound, h.mem_disallowedIn]
    exact and_congr_right fun hn => stands_text_iff (h.isName n hn) (h.not_markHead hn) code

/-- The check for forbidden names and their replacement see a name exactly where it stands free: it
is reported if and only if it does so somewhere, and in the guarded script every such occurrence
reads as the guarded name. -/
theorem guarding_exact (ids : List Text) (code : Text) :
    (∀ n, IsName n → ¬ markHead <:+: n →
        (n ∈ disallowedIn ids code ↔ n ∈ ids ∧ FreeIn n code)) ∧
      (Guardable ids → Unmarked code → code.length ≤ 10 ^ Number.digitLimit →
        ∃ guarded found, guardIdentifiers ids code = .ok (guarded, found) ∧
          (∀ n, n ∈ found ↔ n ∈ ids ∧ FreeIn n code) ∧
          guarded = sources (renameFree (guardOf ids) (cut [] code)) ∧
          ∀ n ∈ ids, ∀ before after, cut [] code = before ++ spelled n ++ after →
            StandsBetween before after →
            guarded = sources (renameFree (guardOf ids) before) ++ Polyfill.guardName n ++
              sources (renameFree (guardOf ids) after)) := by
  refine ⟨fun n hn hm => mem_disallowedIn_iff hn hm code, ?_⟩
  intro h hu hlen
  obtain ⟨found, hguard, -, hfound⟩ := h.guardIdentifiers_eq hu hlen
  refine ⟨_, found, hguard, ?_, rfl, ?_⟩
  · intro n
    rw [hfound, h.mem_disallowedIn]
  · intro n hn before after hcut hs
    have hnm : guardOf ids n = some (Polyfill.guardName n) := guardOf_eq_some_iff.mpr ⟨hn, rfl⟩
    rw [hcut, renameFree_append_append h.isRenaming hnm hs]
    simp

/-- Two names that a host forbids. -/
def forbiddenPair : List Text := ["eval", "Function"]

/-- A script that uses one of them freely, behind a dot, in a longer name and in a string. -/
def mixedUses : Text := "x = eval (a.eval) + evaluate('eval');"

/-- Only the free use of a name is guarded. -/
theorem guarding_exact_mixedUses :
    Guardable forbiddenPair ∧ Unmarked mixedUses ∧
      (∀ n ∈ forbiddenPair, n ∈ disallowedIn forbiddenPair mixedUses ↔ FreeIn n mixedUses) ∧
      ∃ found, guardIdentifiers forbiddenPair mixedUses =
        .ok ("x = __guarded_eval (a.eval) + evaluate('eval');", found) := by
  have hnames : ∀ n ∈ forbiddenPair, n ≠ [] ∧ n.all isIdentPart = true := by decide
  have hids : Guardable forbiddenPair :=
    ⟨fun n hn => isName_of_all (hnames n hn).1 (hnames n hn).2, by decide,
      by decide⟩
  have hu : Unmarked mixedUses := ⟨by decide, by decide⟩
  have hlen : mixedUses.length ≤ 10 ^ Number.digitLimit :=
    le_pow_digitLimit (by decide)
  have hcode : sources (renameFree (guardOf forbiddenPair) (cut [] mixedUses)) =
      ("x = __guarded_eval (a.eval) + evaluate('eval');" : Text) := by decide
  obtain ⟨hreport, hguard⟩ := guarding_exact forbiddenPair mixedUses
  obtain ⟨guarded, found, hok, -, rfl, -⟩ := hguard hids hu hlen
  refine ⟨hids, hu, fun n hn => ?_, found, by rw [hok, hcode]⟩
  rw [hreport n (hids.isName n hn) (hids.not_markHead hn), and_iff_right hn]

/-- A comment next to a name, a spread, a template around it and a division chain hide a name from
the check, and it is not guarded. -/
theorem disallowedIn_blind :
    disallowedIn ["eval"] "eval/**/(x)" = [] ∧ disallowedIn ["eval"] "f(...eval)" = [] ∧
      disallowedIn ["eval"] "`$\x7beval(x)\x7d`" = [] ∧
      disallowedIn ["eval"] "i++ / eval(x) / 2" = [] ∧
      (guardIdentifiers ["eval"] "eval/**/(x)").toOption = some (("eval/**/(x)" : Text), []) := by
  decide +kernel

end HostScript.Adapt

/-!
## What the check reports and what guarding leaves

Guarding goes through the forbidden names one after the other, on text that changes from name to
name. It reports the names that the check reports, and on the guarded script the check reports none:
the guarded script is scanned into the pieces of the script with the names replaced, and a guarded
name is never one of the forbidden ones.
-/

namespace HostScript.Adapt

open Script

/-- Names that a host may forbid: each is listed once, none starts as a guarded name does, and none
is a word behind which a regular expression may start. -/
structure Forbiddable (ids : List Text) : Prop where
  nodup : ids.Nodup
  isName : ∀ n ∈ ids, IsName n
  plain : ∀ n ∈ ids, ¬ ['_', '_'] <+: n
  word : ∀ n ∈ ids, n ∉ regexWords

/-- A guarded name is none of the names that a host may forbid. -/
theorem Forbiddable.guardName_notMem {ids : List Text} (h : Forbiddable ids) (n : Text) :
    Polyfill.guardName n ∉ ids := fun hn =>
  h.plain _ hn ⟨"guarded_".toList ++ n, rfl⟩

/-- Such names can be guarded if no mark can start in their guarded names. -/
theorem Forbiddable.guardable {ids some : List Text} (h : Forbiddable ids) (hs : some ⊆ ids)
    (hmark : ∀ n ∈ some, ¬ markHead <:+: Polyfill.guardName n) : Guardable some where
  isName := fun n hn => h.isName n (hs hn)
  fresh := fun n _ hg => h.guardName_notMem n (hs hg)
  unmarked := hmark

/-- The prefix of guarded names ends in a character that is part of no word. -/
theorem isName_guardMark :
    IsName Polyfill.guardMark ∧ ∀ c ∈ Polyfill.guardMark.getLast?, ∀ w ∈ regexWords, c ∉ w := by
  refine ⟨isName_of_all (by decide) (by decide), fun c hc => ?_⟩
  obtain rfl := Option.some.inj hc
  decide

/-- A script with its forbidden names guarded is scanned into the pieces of the script with the
names replaced. -/
theorem Guardable.cut_guarded {ids : List Text} (h : Guardable ids)
    (hword : ∀ n ∈ ids, n ∉ regexWords) (code : Text) :
    cut [] (sources (renameFree (guardOf ids) (cut [] code))) =
      renameFree (guardOf ids) (cut [] code) := by
  refine cut_sources_renameFree h.isRenaming (fun {n m} hnm => ?_) code
  obtain ⟨hn, rfl⟩ := guardOf_eq_some_iff.mp hnm
  exact slashAlike_append isName_guardMark.1 isName_guardMark.2 (h.isName n hn) (hword n hn)

/-- The runs that a guarded script shows are those of the script, with the names guarded. -/
theorem Guardable.textRuns_guarded {ids : List Text} (h : Guardable ids)
    (hword : ∀ n ∈ ids, n ∉ regexWords) (code : Text) :
    textRuns (mask .all (sources (renameFree (guardOf ids) (cut [] code)))).text =
      renameRuns (· == '.') (guardOf ids) false (textRuns (mask .all code).text) := by
  rw [mask_eq, pieces_all, h.cut_guarded hword, ← renameRuns_text h.isRenaming,
    h.isRenaming.textRuns_flatten]

/-- Guarding reports the names that occur in the text it starts from, in their order, and the others
have no bearing on its result. -/
theorem Forbiddable.guardText_eq {ids : List Text} (h : Forbiddable ids) {text : Text}
    (hmark : ∀ n ∈ ids, (freeName n).occursIn text = true →
      ¬ markHead <:+: Polyfill.guardName n) :
    (guardText ids text).2 = ids.filter (fun n => (freeName n).occursIn text) ∧
      guardText (ids.filter fun n => (freeName n).occursIn text) text = guardText ids text := by
  induction ids generalizing text with
  | nil => exact ⟨rfl, rfl⟩
  | cons m ids ih =>
    have hrest : Forbiddable ids :=
      ⟨(List.nodup_cons.mp h.nodup).2, fun n hn => h.isName n (List.mem_cons_of_mem m hn),
        fun n hn => h.plain n (List.mem_cons_of_mem m hn),
        fun n hn => h.word n (List.mem_cons_of_mem m hn)⟩
    have hmem : m ∈ m :: ids := List.mem_cons_self ..
    by_cases hocc : (freeName m).occursIn text = true
    · have hone : Guardable [m] :=
        h.guardable (by simp) fun n hn => List.mem_singleton.mp hn ▸ hmark m hmem hocc
      -- Guarding this name neither adds nor hides one of the others.
      have hsame : ∀ n ∈ ids,
          (freeName n).occursIn ((freeName m).replace (fun _ => Polyfill.guardName m) text) =
            (freeName n).occursIn text := by
        intro n hn
        have hnm : n ≠ m := fun heq => (List.nodup_cons.mp h.nodup).1 (heq ▸ hn)
        have hng : n ≠ Polyfill.guardName m := fun heq =>
          h.guardName_notMem m (heq ▸ List.mem_cons_of_mem m hn)
        have hname := hrest.isName n hn
        rw [Bool.eq_iff_iff, occursIn_freeName_iff hname, occursIn_freeName_iff hname,
          replace_guardName (h.isName m hmem), hone.isRenaming.textRuns_flatten,
          stands_guardOf_singleton_iff hone hng, and_iff_right hnm]
      have hfilter : ids.filter (fun n => (freeName n).occursIn
          ((freeName m).replace (fun _ => Polyfill.guardName m) text)) =
            ids.filter fun n => (freeName n).occursIn text :=
        List.filter_congr hsame
      obtain ⟨hfound, htext⟩ := ih hrest fun n hn hn' =>
        hmark n (List.mem_cons_of_mem m hn) (hsame n hn ▸ hn')
      rw [hfilter] at hfound htext
      rw [List.filter_cons, if_pos hocc, guardText, guardText, if_pos hocc, if_pos hocc, htext]
      exact ⟨congrArg (m :: ·) hfound, rfl⟩
    · rw [List.filter_cons, if_neg hocc, guardText, if_neg hocc]
      exact ih hrest fun n hn => hmark n (List.mem_cons_of_mem m hn)

/-- The check reports none of the names in the guarded script. -/
theorem Forbiddable.disallowedIn_guarded {ids : List Text} (h : Forbiddable ids) {code : Text}
    (hg : Guardable (disallowedIn ids code)) :
    disallowedIn ids (sources (renameFree (guardOf (disallowedIn ids code)) (cut [] code))) = [] := by
  have hword : ∀ n ∈ disallowedIn ids code, n ∉ regexWords :=
    fun n hn => h.word n (List.mem_of_mem_filter hn)
  rw [List.eq_nil_iff_forall_not_mem]
  intro n hn
  have hmem := List.mem_of_mem_filter hn
  have hname := h.isName n hmem
  have hstands := ((mem_disallowedIn_iff_stands hname _).mp hn).2
  rw [hg.textRuns_guarded hword, stands_renameRuns_iff hg.isRenaming.endsIn_dot] at hstands
  obtain ⟨v, hv, hvn⟩ := hstands
  by_cases hfound : v ∈ disallowedIn ids code
  · rw [guardOf_eq_some_iff.mpr ⟨hfound, rfl⟩, Option.getD_some] at hvn
    exact h.guardName_notMem v (hvn ▸ hmem)
  · rw [guardOf, if_neg hfound, Option.getD_none] at hvn
    subst hvn
    exact hfound ((mem_disallowedIn_iff_stands hname code).mpr ⟨hmem, hv⟩)

/-- Guarding reports the names that the check reports, in the same order, and on the guarded script
the check reports none, if no mark can start in the guarded name of a reported one. -/
theorem guarding_agrees {ids : List Text} (h : Forbiddable ids) {code : Text} (hu : Unmarked code)
    (hlen : code.length ≤ 10 ^ Number.digitLimit)
    (hmark : ∀ n ∈ disallowedIn ids code, ¬ markHead <:+: Polyfill.guardName n) :
    ∃ guarded, guardIdentifiers ids code = .ok (guarded, disallowedIn ids code) ∧
      disallowedIn ids guarded = [] := by
  have hg : Guardable (disallowedIn ids code) :=
    h.guardable (fun n hn => List.mem_of_mem_filter hn) hmark
  obtain ⟨hfound, htext⟩ := h.guardText_eq fun n hn hocc =>
    hmark n (List.mem_filter.mpr ⟨hn, hocc⟩)
  have hrenamed : (guardText ids (mask .all code).text).1 =
      (renameRuns (· == '.') (guardOf (disallowedIn ids code)) false
        (textRuns (mask .all code).text)).flatten := by
    rw [← htext]
    exact (guardText_spec hg (mask .all code).text).1
  refine ⟨_, ?_, h.disallowedIn_guarded hg⟩
  rw [guardIdentifiers]
  dsimp only
  rw [hrenamed, hfound, restoreText_renameRuns hg.isRenaming hu hlen]
  rfl

/-- Two names that a host forbids; the second ends in a word behind which a regular expression may
start. -/
def cryptoNames : List Text := ["eval", "mustreturn"]

/-- A script that divides by what both names give, with a string between them. -/
def cryptoUses : Text := "x = mustreturn /eval(a.eval) / '/' + eval;"

/-- Both names are reported and guarded, and the slashes still divide. -/
theorem guarding_agrees_divisions :
    Forbiddable cryptoNames ∧ Unmarked cryptoUses ∧
      (∀ n ∈ disallowedIn cryptoNames cryptoUses, ¬ markHead <:+: Polyfill.guardName n) ∧
      ∃ guarded, guardIdentifiers cryptoNames cryptoUses = .ok (guarded, cryptoNames) ∧
        disallowedIn cryptoNames guarded = [] := by
  have hnames : ∀ n ∈ cryptoNames, n ≠ [] ∧ n.all isIdentPart = true := by decide
  have hids : Forbiddable cryptoNames :=
    ⟨by decide, fun n hn => isName_of_all (hnames n hn).1 (hnames n hn).2, by decide, by decide⟩
  have hu : Unmarked cryptoUses := ⟨by decide, by decide⟩
  have hreport : disallowedIn cryptoNames cryptoUses = cryptoNames := by decide +kernel
  have hmark : ∀ n ∈ disallowedIn cryptoNames cryptoUses,
      ¬ markHead <:+: Polyfill.guardName n := by
    rw [hreport]
    decide
  have hlen : cryptoUses.length ≤ 10 ^ Number.digitLimit := le_pow_digitLimit (by decide)
  obtain ⟨guarded, hguard, hnone⟩ := guarding_agrees hids hu hlen hmark
  exact ⟨hids, hu, hmark, guarded, by rw [hguard, hreport], hnone⟩

/-- A name that can be forbidden and is a mark up to its first underscore. -/
def markLike : List Text := ["_JSLIT_0__"]

/-- The guarded name of such a name holds a mark, so guarding a script that uses it fails. -/
theorem guarding_fails_markedName :
    (Forbiddable markLike ∧ Unmarked "_JSLIT_0__" ∧ disallowedIn markLike "_JSLIT_0__" = markLike) ∧
      ¬ ∃ guarded, guardIdentifiers markLike "_JSLIT_0__" = .ok (guarded, markLike) := by
  have hnames : ∀ n ∈ markLike, n ≠ [] ∧ n.all isIdentPart = true := by decide
  have hids : Forbiddable markLike :=
    ⟨by decide, fun n hn => isName_of_all (hnames n hn).1 (hnames n hn).2, by decide, by decide⟩
  have hfail : (guardIdentifiers markLike "_JSLIT_0__").toOption = none := by decide +kernel
  refine ⟨⟨hids, ⟨by decide, by decide⟩, by decide +kernel⟩, ?_⟩
  rintro ⟨guarded, hguard⟩
  rw [hguard] at hfail
  cases hfail

end HostScript.Adapt
