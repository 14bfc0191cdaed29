import HostScript.Downlevel
import HostScript.Proofs.Adapt.Guard
import HostScript.Proofs.Optimize.Folding
import HostScript.Proofs.Optimize.LoopGaps

/-!
# Passes that rewrite the gaps of a script only

Folding constants, marking loops, plain declarations and guarded names change code between the
hidden spans of a script and keep the spans in their places. Each pass has its own sort of change.
-/

namespace HostScript

open Outcome Pattern Script Optimize Adapt

namespace Downlevel

/-- A word that declares block scoped names, swapped for the one that declares plain ones. -/
def DeclaresPlain (old new : Text) : Prop :=
  (old = "let".toList ∨ old = "const".toList) ∧ new = "var".toList

theorem DeclaresPlain.underscore_not_mem {old new : Text} (h : DeclaresPlain old new) :
    '_' ∉ old := by
  obtain ⟨rfl | rfl, -⟩ := h <;> decide

theorem DeclaresPlain.isInert {old new : Text} (h : DeclaresPlain old new) : IsInert new := by
  obtain ⟨-, rfl⟩ := h
  exact .of_all (by decide) (by decide)

/-- Such a word may be swapped where it declares names. -/
theorem rewords_blockScoped {t : Text} {m : Match} (hm : m ∈ blockScoped.allIn t) :
    Rewords DeclaresPlain m "var".toList := by
  obtain ⟨subject, -, -, k, e, hrun⟩ := (fitsFrom_allIn blockScoped t).of_mem hm
  obtain ⟨gs, hspells, -⟩ := spells_of_mem_allIn hm
  have hword : m.text = "let".toList ∨ m.text = "const".toList := by
    generalize m.text = x at hspells
    cases hspells with
    | seq hrest hahead =>
      cases hahead
      cases hrest with
      | seq hfresh hchoice =>
        cases hfresh
        cases hchoice with
        | left h => exact Or.inl (by simpa using h.eq_of_text.1)
        | right h => exact Or.inr (by simpa using h.eq_of_text.1)
  refine Or.inr ⟨?_, m.text, "var".toList, [], by simp, by simp, hword, rfl⟩
  simp only [blockScoped, run_seq] at hrun
  rw [Match.before, subject]
  exact apart_of_run_fresh hrun _

/-- Plain declarations come in gaps only, and the pass always gives a script. -/
theorem blockScope_edits {code : Text} (hu : Unmarked code)
    (hlen : code.length ≤ 10 ^ Number.digitLimit) :
    ∃ out, blockScope code = .ok out ∧ EditsGaps (Rewrites DeclaresPlain) code out := by
  have hreworded : Reworded DeclaresPlain none (mask .all code).text
      (blockScoped.replace (fun _ => "var".toList) (mask .all code).text) :=
    reworded_replace fun _ hm => rewords_blockScoped hm
  have hshows : ShowsEdit (Rewrites DeclaresPlain) code
      (blockScoped.replace (fun _ => "var".toList) (mask .all code).text) := by
    refine (ShowsEdit.mask hu).reword hreworded (fun _ _ => DeclaresPlain.underscore_not_mem)
      (fun _ _ => DeclaresPlain.isInert) ?_
    rintro a _ c rfl hac
    exact hac
  exact hshows.restoreText hlen

end Downlevel

namespace Script

/-- Renaming names swaps stretches of code. -/
theorem Renamed.rewrites {rename : Text → Option Text} {glued : Bool} {ps qs : List Piece}
    (h : Renamed rename glued ps qs) :
    Rewrites (Respells fun n m => rename n = some m) ps qs := by
  induction h with
  | nil => exact .nil
  | keep p _ ih => exact .copy p ih
  | swap hnm _ _ ih => exact .swap ⟨_, _, hnm, rfl, rfl⟩ ih

end Script

namespace Adapt

/-- Names that do not start with two underscores can be guarded if no mark can start in their
guarded names. -/
theorem Guardable.of_plain {ids : List Text}
    (hids : ∀ n ∈ ids, IsName n ∧ ¬ ['_', '_'] <+: n)
    (hmarks : ∀ n ∈ ids, ¬ markHead <:+: Polyfill.guardName n) : Guardable ids where
  isName n hn := (hids n hn).1
  fresh n _ hg := (hids _ hg).2 (List.prefix_append ['_', '_'] ("guarded_".toList ++ n))
  unmarked := hmarks

/-- Names are guarded in gaps only, and guarding always gives a script. -/
theorem Guardable.edits {ids : List Text} (h : Guardable ids) {code : Text} (hu : Unmarked code)
    (hlen : code.length ≤ 10 ^ Number.digitLimit) :
    ∃ out found, guardIdentifiers ids code = .ok (out, found) ∧
      EditsGaps (Rewrites fun n m => guardOf ids n = some m) code out := by
  obtain ⟨found, hguard, -⟩ := h.guardIdentifiers_eq hu hlen
  exact ⟨_, found, hguard, _, (renamed_renameFree h.isRenaming (cut [] code)).rewrites.edits,
    (text_layoutOf _).symm⟩

end Adapt

/-- Rewriting passes edit nothing but the gaps of a script: every literal and comment stays as it is
and in its place. Folding changes arithmetic, loop recognition adds marks of hot loops, plain
declarations change a word, and guarding gives names their guarded names. Folding fails at most for
a remainder, and loop recognition at most for code that goes on as a mark behind a hidden span. -/
theorem passes_edit_gaps {code : Text} (hu : Unmarked code)
    (hlen : code.length ≤ 10 ^ Number.digitLimit) :
    ((layout code).text = code ∧ (layout code).spans = (mask .all code).spans) ∧
      ((∀ out, constantFolding code = .ok out → EditsGaps SameButArithmetic code out) ∧
        FailsOnly (· = domainError) (constantFolding code) ∧
        ((∀ g ∈ (layout code).gaps, '%' ∉ g) → ∃ out, constantFolding code = .ok out)) ∧
      ((∀ out, loopRecognition code = .ok out → EditsGaps Annotated code out) ∧
        FailsOnly IsLookupFault (loopRecognition code) ∧
        ((∀ g ∈ (layout code).gaps.tail, ¬ GoesOnAsMark g) →
          ∃ out, loopRecognition code = .ok out)) ∧
      (∃ out, Downlevel.blockScope code = .ok out ∧
        EditsGaps (Rewrites Downlevel.DeclaresPlain) code out) ∧
      ∀ ids, Guardable ids → ∃ out found, guardIdentifiers ids code = .ok (out, found) ∧
        EditsGaps (Rewrites fun n m => guardOf ids n = some m) code out := by
  refine ⟨⟨text_layout code, spans_layout code⟩, ⟨?_, ?_, ?_⟩, ⟨?_, ?_, ?_⟩, ?_, ?_⟩
  · exact fun out => editsGaps_of_constantFolding hu hlen
  · exact failsOnly_constantFolding hu hlen fun _ _ _ => rfl
  · intro hgaps
    exact (failsOnly_constantFolding hu hlen fun g hg hc => hgaps g hg hc).exists_ok
  · exact fun out => editsGaps_of_loopRecognition hu hlen
  · exact loopRecognition_fails hu hlen
  · exact loopRecognition_succeeds hu hlen
  · exact Downlevel.blockScope_edits hu hlen
  · exact fun ids hids => hids.edits hu hlen

/-- A script with a string and a comment that read like the code next to them. -/
def evalLoop : Text := "for (let i = 0; i < 2 + 3; i++) eval(\"let 1 + 2\"); /* eval */"

/-- Every pass changes the code of this script and keeps its string and its comment. -/
theorem passes_edit_gaps_evalLoop :
    (layout evalLoop).spans = ["\"let 1 + 2\"", "/* eval */"] ∧
      (∃ out, constantFolding evalLoop = .ok out ∧ EditsGaps SameButArithmetic evalLoop out) ∧
      EditsGaps Annotated evalLoop
        "/* @jit:hot-loop */ for (let i = 0; i < 2 + 3; i++) eval(\"let 1 + 2\"); /* eval */" ∧
      EditsGaps (Rewrites Downlevel.DeclaresPlain) evalLoop
        "for (var i = 0; i < 2 + 3; i++) eval(\"let 1 + 2\"); /* eval */" ∧
      EditsGaps (Rewrites fun n m => guardOf ["eval"] n = some m) evalLoop
        "for (let i = 0; i < 2 + 3; i++) __guarded_eval(\"let 1 + 2\"); /* eval */" := by
  have hcode : evalLoop = _ := Text.toList_eq rfl
  have hu : Unmarked evalLoop := by rw [hcode]; decide +kernel
  have hlen : evalLoop.length ≤ 10 ^ Number.digitLimit :=
    le_pow_digitLimit (by rw [hcode]; decide +kernel)
  have hids : Guardable ["eval"] := by
    refine .of_plain (List.forall_mem_singleton.mpr ⟨isName_of_all ?_ ?_, ?_⟩) ?_ <;> decide
  obtain ⟨-, ⟨hfold, -, hfolds⟩, ⟨hmarks, -⟩, ⟨plain, hplain, hdeclares⟩, hguards⟩ :=
    passes_edit_gaps hu hlen
  obtain ⟨folded, hfolded⟩ := hfolds (by rw [hcode]; decide +kernel)
  obtain ⟨guarded, found, hguarded, hguard⟩ := hguards _ hids
  have hmarked : (loopRecognition evalLoop).toOption = some
      ("/* @jit:hot-loop */ for (let i = 0; i < 2 + 3; i++) eval(\"let 1 + 2\"); /* eval */" :
        Text) := by
    refine Text.of_toList (P := fun t => (loopRecognition evalLoop).toOption = some t) rfl ?_
    rw [hcode]
    decide +kernel
  have hplainLoop : (Downlevel.blockScope evalLoop).toOption =
      some "for (var i = 0; i < 2 + 3; i++) eval(\"let 1 + 2\"); /* eval */".toList := by
    refine Text.of_toList (P := fun t => (Downlevel.blockScope evalLoop).toOption = some t) rfl ?_
    rw [hcode]
    decide +kernel
  have hguardedLoop : (guardIdentifiers ["eval"] evalLoop).toOption.map (·.1) =
      some "for (let i = 0; i < 2 + 3; i++) __guarded_eval(\"let 1 + 2\"); /* eval */".toList := by
    refine Text.of_toList
      (P := fun t => (guardIdentifiers ["eval"] evalLoop).toOption.map (·.1) = some t) rfl ?_
    rw [hcode]
    decide +kernel
  rw [hplain] at hplainLoop
  rw [hguarded] at hguardedLoop
  refine ⟨by rw [hcode]; decide +kernel, ⟨folded, hfolded, hfold folded hfolded⟩, ?_, ?_, ?_⟩
  · exact hmarks _ (toOption_eq_some_iff.mp hmarked)
  · exact Option.some.inj hplainLoop ▸ hdeclares
  · exact Option.some.inj hguardedLoop ▸ hguard

/-- A name that makes up a mark with the underscores of its guarded name takes in the string of that
number, or a number that no span has; so does code behind the mark of a comment. -/
theorem passes_fail_fusedMarks :
    (Unmarked "\"a\"; _JSLIT_0__" ∧ Unmarked "_JSLIT_0__" ∧
        Unmarked "/**/JSCOM_5__ for (let i = 0; i < n; i++);" ∧
        IsName "_JSLIT_0__" ∧ ¬ ['_', '_'] <+: "_JSLIT_0__".toList) ∧
      (guardIdentifiers ["_JSLIT_0__"] "\"a\"; _JSLIT_0__").toOption =
        some ("\"a\"; __guarded\"a\"".toList, [("_JSLIT_0__" : Text)]) ∧
      (guardIdentifiers ["_JSLIT_0__"] "_JSLIT_0__").toOption = none ∧
      (loopRecognition "/**/JSCOM_5__ for (let i = 0; i < n; i++);").toOption = none := by
  have hu {t : Text} (h : ¬ markHead <:+: t ∧ '\x03' ∉ t) : Unmarked t := ⟨h.1, h.2⟩
  refine ⟨⟨hu ?_, hu ?_, hu ?_, isName_of_all ?_ ?_, ?_⟩, ?_, ?_, ?_⟩ <;> decide +kernel

end HostScript
