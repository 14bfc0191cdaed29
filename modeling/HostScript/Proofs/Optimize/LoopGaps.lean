import HostScript.Optimize
import HostScript.Proofs.Optimize.HotLoop
import HostScript.Proofs.Outcome
import HostScript.Proofs.Pattern.Forms
import HostScript.Proofs.Pattern.Found
import HostScript.Proofs.Script.Mark

/-!
# The comment before a loop

Whether a loop is marked is told by the mark of a hidden comment at the end of the text before it.
That text ends in at most one such mark with white space behind it, so the search finds it wherever
it starts.
-/

namespace HostScript

/-- A text is divided in one way behind the last of its characters that is not of a kind. -/
theorem Script.eq_of_append_eq_append {f : Char → Bool} {x y s t : Text} (hs : ∀ c ∈ s, f c = true)
    (ht : ∀ c ∈ t, f c = true) (hx : Script.endsIn f x = false) (hy : Script.endsIn f y = false)
    (h : x ++ s = y ++ t) : x = y ∧ s = t := by
  have hlast (z : Text) {w : Text} (hw : ∀ c ∈ w, f c = true) (hne : w ≠ []) :
      endsIn f (z ++ w) = true := by
    rw [endsIn_append f hne, endsIn_eq f hne]
    exact hw _ (List.getLast_mem hne)
  rcases List.append_eq_append_iff.mp h with ⟨z, rfl, rfl⟩ | ⟨z, rfl, rfl⟩
  · by_cases hz : z = []
    · subst hz
      exact ⟨(List.append_nil x).symm, rfl⟩
    · rw [hlast _ (fun c hc => hs c (List.mem_append_left t hc)) hz] at hy
      cases hy
  · by_cases hz : z = []
    · subst hz
      exact ⟨List.append_nil y, rfl⟩
    · rw [hlast _ (fun c hc => ht c (List.mem_append_left s hc)) hz] at hx
      cases hx

namespace Pattern

variable {p : Pattern} {t : Text}

/-- What a search finds at the end of a text is of the form of the pattern, with at most a line
break behind it. -/
theorem exists_form_of_search? (hp : p.isSimple = true) {m : Match}
    (h : (p ++ textEnd).search? t = some m) :
    ∃ u x v gs, t = u ++ (x ++ v) ∧ (v = [] ∨ v = ['\n']) ∧ p.Forms [] x gs ∧
      ∀ i, m.group? i = gs.lookup i := by
  rw [search?, searchAt?] at h
  obtain ⟨⟨a, b⟩, hab, rfl⟩ := Option.map_eq_some_iff.mp h
  have ht : t = ([] : Text).reverse ++ t := rfl
  obtain ⟨i, -, hi, rfl, -, -⟩ := of_searchFrom_eq_some ht hab
  obtain ⟨k, hk, -, hrun⟩ := run_of_searchFrom hab
  obtain ⟨x, gs, d, hforms, hpass, hd⟩ := exists_form_of_run hp hrun
  obtain ⟨hend, hd⟩ := Option.ite_none_right_eq_some.mp hd
  obtain rfl := hk d b hd
  refine ⟨t.take i, x, d.after, gs, ?_, ?_, hforms, fun j => ?_⟩
  · rw [← hpass.after]
    exact (List.take_append_drop i t).symm
  · rw [Cursor.onEnd, Bool.or_eq_true, List.isEmpty_iff, beq_iff_eq] at hend
    exact hend
  · rw [group?_ofCursors, hpass.groupTexts]
    exact congrArg (List.lookup j) (List.append_nil gs)

/-- A search finds something if a text of the form of the pattern stands at the end. -/
theorem isSome_search?_of_forms (hp : p.isSimple = true) {u x : Text} {gs : GroupTexts}
    (h : p.Forms [] x gs) : ((p ++ textEnd).search? (u ++ x)).isSome = true := by
  let c : Cursor := ⟨u.reverse ++ [], x, 0 + u.length, []⟩
  obtain ⟨d, hpass, hrun⟩ := isSome_run_of_forms (c := c) hp h (List.append_nil x).symm
  have hall : x ++ d.after = x ++ [] := hpass.after.symm.trans (List.append_nil x).symm
  have hafter : d.after = [] := List.append_cancel_left hall
  have hend : (textEnd.run some d).isSome = true := by
    have honEnd : d.onEnd = true := by rw [Cursor.onEnd, hafter]; rfl
    rw [run]
    beta_reduce
    rw [if_pos honEnd]
    rfl
  obtain ⟨a, b, hab, -⟩ := searchFrom_eq_some (p := p ++ textEnd) (hrun _ hend)
  have hsearch : (p ++ textEnd).search? (u ++ x) =
      ((p ++ textEnd).searchFrom [] 0 false (u ++ x)).map fun y =>
        Match.ofCursors (u ++ x) y.1 y.2 := rfl
  rw [hsearch, hab]
  rfl

end Pattern

namespace Optimize

open Pattern Script

/-- The mark of a comment with white space behind it. -/
def spacedMark : Pattern := "__JSCOM_" ++ cap 1 digit.plus ++ "__" ++ blanks

/-- The texts of such marks. -/
theorem forms_spacedMark_iff {x : Text} {gs : GroupTexts} :
    spacedMark.Forms [] x gs ↔ ∃ m v, x = Mark.source m ++ v ∧ m.kind = .comment ∧ m.IsSound ∧
      (∀ c ∈ v, isBlank c = true) ∧ gs = [(1, m.digits)] := by
  constructor
  · rintro ⟨_, v, _, _, rfl, rfl, ⟨_, _, _, _, rfl, rfl, ⟨_, digits, _, _, rfl, rfl, hopen,
      ⟨_, rfl, hdigits⟩⟩, hclose⟩, hblanks⟩
    obtain ⟨rfl, rfl⟩ := forms_lit_iff.mp hopen
    obtain ⟨hne, hall, rfl⟩ := forms_plus_iff.mp hdigits
    obtain ⟨rfl, rfl⟩ := forms_lit_iff.mp hclose
    obtain ⟨hv, rfl⟩ := forms_blanks_iff.mp hblanks
    let m : Mark := ⟨.comment, digits, (Mark.mk .comment digits 0).source.length⟩
    exact ⟨m, v, by simp [Mark.source, m]; rfl, rfl, ⟨hne, hall, rfl⟩, hv, rfl⟩
  · rintro ⟨m, v, rfl, hkind, hm, hv, rfl⟩
    have hopen : (lit "__JSCOM_").Forms [] (SpanKind.markStart .comment) [] :=
      forms_lit_iff.mpr ⟨rfl, rfl⟩
    have hdigits : digit.plus.Forms [] m.digits [] :=
      forms_plus_iff.mpr ⟨hm.ne_nil, hm.isDigit, rfl⟩
    have hclose : (lit "__").Forms [(1, m.digits)] (SpanKind.markStop .comment) [] :=
      forms_lit_iff.mpr ⟨rfl, rfl⟩
    have hsource : m.source ++ v = SpanKind.markStart .comment ++ m.digits ++
        SpanKind.markStop .comment ++ v := by
      simp [Mark.source, hkind]
    rw [hsource]
    exact ⟨_, v, [(1, m.digits)], [], rfl, rfl, ⟨_, _, [(1, m.digits)], [], rfl, rfl,
      ⟨_, _, [], [(1, m.digits)], rfl, rfl, hopen, [], rfl, hdigits⟩, hclose⟩,
      forms_blanks_iff.mpr ⟨hv, rfl⟩⟩

/-- A text ends in at most one mark of a comment with white space behind it. -/
theorem digits_eq_of_source {u u' v v' : Text} {m m' : Mark} (hm : m.kind = .comment)
    (hm' : m'.kind = .comment) (hsound : m.IsSound) (hsound' : m'.IsSound)
    (hv : ∀ c ∈ v, isBlank c = true) (hv' : ∀ c ∈ v', isBlank c = true)
    (h : u ++ (m.source ++ v) = u' ++ (m'.source ++ v')) : m.digits = m'.digits := by
  have hsource {m : Mark} (hm : m.kind = .comment) :
      m.source = SpanKind.markStart .comment ++ (m.digits ++ SpanKind.markStop .comment) := by
    rw [Mark.source, hm]
  have hblank (x : Text) : endsIn isBlank (x ++ SpanKind.markStop .comment) = false := by
    rw [endsIn_append _ (by decide)]
    decide
  have hdigit (x : Text) : endsIn isDigit (x ++ SpanKind.markStart .comment) = false := by
    rw [endsIn_append _ (by decide)]
    decide
  rw [hsource hm, hsource hm'] at h
  simp only [← List.append_assoc] at h
  have hmarks := (eq_of_append_eq_append hv hv' (hblank _) (hblank _) h).1
  have hdigits := List.append_cancel_right hmarks
  exact (eq_of_append_eq_append hsound.isDigit hsound'.isDigit (hdigit u) (hdigit u') hdigits).2

/-- What is found at the end of a text is the mark of a comment with white space behind it. -/
theorem exists_source_of_trailingComment {t : Text} {c : Match}
    (h : trailingComment.search? t = some c) :
    ∃ u m v, t = u ++ (Mark.source m ++ v) ∧ m.kind = .comment ∧ m.IsSound ∧
      (∀ d ∈ v, isBlank d = true) ∧ m.digits = c.group 1 := by
  have hsplit : trailingComment = spacedMark ++ textEnd := rfl
  rw [hsplit] at h
  obtain ⟨u, x, v, gs, rfl, hv, hforms, hgroup⟩ := exists_form_of_search? rfl h
  obtain ⟨m, w, rfl, hkind, hm, hw, rfl⟩ := forms_spacedMark_iff.mp hforms
  refine ⟨u, m, w ++ v, by rw [List.append_assoc], hkind, hm, ?_, ?_⟩
  · refine List.forall_mem_append.mpr ⟨hw, ?_⟩
    rcases hv with rfl | rfl
    · exact List.forall_mem_nil _
    · exact List.forall_mem_singleton.mpr (by decide)
  · rw [Match.group, hgroup]
    rfl

/-- The mark of a comment at the end of a text is found there. -/
theorem exists_trailingComment {u v : Text} {m : Mark} (hm : m.kind = .comment)
    (hsound : m.IsSound) (hv : ∀ c ∈ v, isBlank c = true) :
    ∃ c, trailingComment.search? (u ++ (m.source ++ v)) = some c ∧ c.group 1 = m.digits := by
  have hforms : spacedMark.Forms [] (m.source ++ v) [(1, m.digits)] :=
    forms_spacedMark_iff.mpr ⟨m, v, rfl, hm, hsound, hv, rfl⟩
  have hsplit : trailingComment = spacedMark ++ textEnd := rfl
  rw [hsplit]
  obtain ⟨c, hc⟩ := Option.isSome_iff_exists.mp (isSome_search?_of_forms (u := u) rfl hforms)
  obtain ⟨u', m', v', h, hm', hsound', hv', hdigits⟩ := exists_source_of_trailingComment hc
  exact ⟨c, hc, by rw [← hdigits, digits_eq_of_source hm hm' hsound hsound' hv hv' h]⟩

end Optimize

end HostScript

/-!
## Marking hot loops edits the gaps only

The mark of a hot loop goes between characters of code, so every hidden span comes back in its
place, and stripping the hints takes off every mark that was put, and nothing else. Before a mark is
put, the comment in front of the loop is looked up by the number in its mark. That fails where code
behind a hidden span makes up a mark of its own with the end of the span's.
-/

namespace HostScript

/-- Replacing succeeds exactly if every new text is there. -/
theorem Pattern.exists_replaceM_eq_ok_iff {p : Pattern} {f : Match → Outcome Text} {t : Text} :
    (∃ u, p.replaceM f t = .ok u) ↔ ∀ m ∈ p.allIn t, ∃ v, f m = .ok v := by
  have hsplice (pos : Nat) (ms : List Match) :
      (∃ u, spliceM t f pos ms = .ok u) ↔ ∀ m ∈ ms, ∃ v, f m = .ok v := by
    induction ms generalizing pos with
    | nil => exact iff_of_true ⟨_, rfl⟩ (List.forall_mem_nil _)
    | cons m ms ih =>
      rw [List.forall_mem_cons, ← ih m.stop]
      constructor
      · rintro ⟨u, hu⟩
        obtain ⟨v, hv, hu⟩ := Outcome.bind_eq_ok_iff.mp hu
        obtain ⟨w, hw, -⟩ := Outcome.bind_eq_ok_iff.mp hu
        exact ⟨⟨v, hv⟩, w, hw⟩
      · rintro ⟨⟨v, hv⟩, w, hw⟩
        exact ⟨_, Outcome.bind_eq_ok_iff.mpr ⟨v, hv, Outcome.bind_eq_ok_iff.mpr ⟨w, hw, rfl⟩⟩⟩
  exact hsplice 0 (p.allIn t)

namespace Optimize

open Outcome Pattern Script

/-- The mark of a hot loop stands apart from all marks of hidden spans. -/
theorem MarksLoop.isInert {old new : Text} (h : MarksLoop old new) : IsInert new := by
  obtain ⟨-, rfl⟩ := h
  exact .of_all (by simp) (by decide)

/-- Marking loops edits the gaps of the script that is shown. -/
theorem showsEdit_of_markLoops {code y : Text} {m : Masked} (hu : Unmarked code)
    (h : countedLoop.replaceM (fun loop => do
      let marked ← isMarked m loop.before
      pure (if marked then loop.text else hotLoopMark ++ [' '] ++ loop.text))
      (mask .all code).text = .ok y) : ShowsEdit Annotated code y := by
  refine (ShowsEdit.mask hu).reword (reworded_of_markLoops h) ?_ (fun _ _ => MarksLoop.isInert) ?_
  · rintro old new ⟨rfl, -⟩
    decide
  · rintro a _ c rfl hac
    exact annotated_of_rewrites hac

/-- If loop recognition gives a script, it is the given one with marks in its gaps. -/
theorem editsGaps_of_loopRecognition {code out : Text} (hu : Unmarked code)
    (hlen : code.length ≤ 10 ^ Number.digitLimit) (h : loopRecognition code = .ok out) :
    EditsGaps Annotated code out := by
  rw [loopRecognition] at h
  obtain ⟨y, hy, h⟩ := Outcome.bind_eq_ok_iff.mp h
  obtain ⟨out', hout, hedits⟩ := (showsEdit_of_markLoops hu hy).restoreText hlen
  obtain rfl : out' = out := Except.ok.inj (hout.symm.trans h)
  exact hedits

/-- Loop recognition fails as looking up a comment fails. -/
theorem failsOnly_loopRecognition {P : Fault → Prop} {code : Text} (hu : Unmarked code)
    (hlen : code.length ≤ 10 ^ Number.digitLimit)
    (h : ∀ before after, (mask .all code).text = before ++ after →
      FailsOnly P (isMarked (mask .all code) before)) : FailsOnly P (loopRecognition code) := by
  rw [loopRecognition]
  refine failsOnly_bind_iff.mpr ⟨failsOnly_replaceM (fun loop hloop => ?_), fun y hy => ?_⟩
  · have hsubject := ((fitsFrom_allIn countedLoop _).of_mem hloop).1
    refine failsOnly_bind_iff.mpr ⟨h loop.before (loop.subject.drop loop.start) ?_, fun _ _ => ?_⟩
    · rw [Match.before, List.take_append_drop, hsubject]
    · exact failsOnly_pure _
  · obtain ⟨out, hout, -⟩ := (showsEdit_of_markLoops hu hy).restoreText hlen
    rw [hout]
    exact failsOnly_ok out

/-- A fault of looking up a hidden span by its number. -/
def IsLookupFault (f : Fault) : Prop := f = .outOfRange ∨ ∃ n, f = Number.tooManyDigits n

/-- A number that no hidden span has is the only reason for loop recognition to fail. -/
theorem loopRecognition_fails {code : Text} (hu : Unmarked code)
    (hlen : code.length ≤ 10 ^ Number.digitLimit) :
    FailsOnly IsLookupFault (loopRecognition code) := by
  refine failsOnly_loopRecognition hu hlen fun before _ _ => ?_
  rw [isMarked]
  split
  · exact failsOnly_ok _
  · refine failsOnly_bind_iff.mpr ⟨?_, fun index _ => ?_⟩
    · rw [Number.readDigits]
      exact failsOnly_ite_iff.mpr
        ⟨fun _ => failsOnly_error_iff.mpr (Or.inr ⟨_, rfl⟩), fun _ => failsOnly_ok _⟩
    · split
      · exact failsOnly_ok _
      · exact failsOnly_error_iff.mpr (Or.inl rfl)

/-- Where no code behind a hidden span goes on as a mark, the comment before a loop is looked up
under the number of a hidden span. -/
theorem isMarked_succeeds {code : Text} (hu : Unmarked code)
    (hlen : code.length ≤ 10 ^ Number.digitLimit)
    (hgaps : ∀ g ∈ (layout code).gaps.tail, ¬ GoesOnAsMark g) {before after : Text}
    (h : (mask .all code).text = before ++ after) :
    FailsOnly (fun _ => False) (isMarked (mask .all code) before) := by
  rw [isMarked]
  split
  · exact failsOnly_ok _
  · rename_i c hc
    obtain ⟨u, m, v, rfl, hkind, hsound, -, hdigits⟩ := exists_source_of_trailingComment hc
    rw [mask_eq, pieces_all, List.append_assoc, List.append_assoc] at h
    obtain ⟨xs, span, ys, hcut, -, -, hmj⟩ := exists_hidden_of_commentMark
      (fun _ => isWhole_of_mem_cut) (by rwa [sources_cut]) hgaps hkind hsound h
    have hj : 0 + (spansOf xs).length < (spansOf (cut [] code)).length := by
      rw [hcut, spansOf_append, spansOf_hidden, List.length_append, List.length_cons]
      omega
    have hread := readDigits_ofNat (lt_of_lt_of_le hj ((length_spansOf_cut_le code).trans hlen))
    rw [← hdigits, hmj, hread, spans_mask]
    refine failsOnly_bind_iff.mpr ⟨failsOnly_ok _, fun index hindex => ?_⟩
    obtain rfl := Except.ok.inj hindex
    rw [List.getElem?_eq_getElem hj]
    exact failsOnly_ok _

/-- Where no code behind a hidden span goes on as a mark, loop recognition gives a script. -/
theorem loopRecognition_succeeds {code : Text} (hu : Unmarked code)
    (hlen : code.length ≤ 10 ^ Number.digitLimit)
    (hgaps : ∀ g ∈ (layout code).gaps.tail, ¬ GoesOnAsMark g) :
    ∃ out, loopRecognition code = .ok out :=
  (failsOnly_loopRecognition hu hlen fun _ _ => isMarked_succeeds hu hlen hgaps).exists_ok

/-- What reads like the mark of a comment at the end of a text has the number of a hidden span. -/
def FindsComment (m : Masked) (before : Text) : Prop :=
  ∀ c, trailingComment.search? before = some c →
    ∃ index < m.spans.length, Number.readDigits (c.group 1) = .ok index

/-- The comment before a loop is looked up with success exactly if its number is that of a span. -/
theorem exists_isMarked_eq_ok_iff {m : Masked} {before : Text} :
    (∃ marked, isMarked m before = .ok marked) ↔ FindsComment m before := by
  rw [isMarked, FindsComment]
  cases trailingComment.search? before with
  | none => exact iff_of_true ⟨false, rfl⟩ nofun
  | some c =>
    constructor
    · rintro ⟨marked, h⟩ d hd
      obtain rfl := Option.some.inj hd
      obtain ⟨index, hindex, h⟩ := bind_eq_ok_iff.mp h
      refine ⟨index, ?_, hindex⟩
      split at h
      · rename_i span hspan
        exact (List.getElem?_eq_some_iff.mp hspan).1
      · cases h
    · intro h
      obtain ⟨index, hlt, hindex⟩ := h c rfl
      refine ⟨m.spans[index] == hotLoopMark, bind_eq_ok_iff.mpr ⟨index, hindex, ?_⟩⟩
      rw [List.getElem?_eq_getElem hlt]

variable {code : Text}

/-- Filling in the marks of a masked script gives the script. -/
theorem restore_mask_all (hu : Unmarked code) (hlen : code.length ≤ 10 ^ Number.digitLimit) :
    (mask .all code).restore = .ok code := by
  have h := restoreText_assemble (fun p (hp : p ∈ cut [] code) => isWhole_of_mem_cut hp) rfl
    (by rwa [sources_cut]) hlen
  rwa [sources_cut, ← pieces_all] at h

/-- Loop recognition gives a script exactly if every comment it looks up is there. -/
theorem exists_loopRecognition_eq_ok_iff (hu : Unmarked code)
    (hlen : code.length ≤ 10 ^ Number.digitLimit) :
    (∃ out, loopRecognition code = .ok out) ↔
      ∀ loop ∈ countedLoop.allIn (mask .all code).text,
        FindsComment (mask .all code) loop.before := by
  have hmarking (loop : Match) :
      (∃ v, (do
        let marked ← isMarked (mask .all code) loop.before
        pure (if marked then loop.text else hotLoopMark ++ [' '] ++ loop.text)) = .ok v) ↔
      FindsComment (mask .all code) loop.before := by
    rw [← exists_isMarked_eq_ok_iff]
    constructor
    · rintro ⟨v, hv⟩
      obtain ⟨marked, hmarked, -⟩ := bind_eq_ok_iff.mp hv
      exact ⟨marked, hmarked⟩
    · rintro ⟨marked, hmarked⟩
      exact ⟨_, bind_eq_ok_iff.mpr ⟨marked, hmarked, rfl⟩⟩
  simp only [← hmarking]
  rw [← exists_replaceM_eq_ok_iff, loopRecognition]
  constructor
  · rintro ⟨out, hout⟩
    obtain ⟨y, hy, -⟩ := bind_eq_ok_iff.mp hout
    exact ⟨y, hy⟩
  · rintro ⟨y, hy⟩
    obtain ⟨out, hout, -⟩ := (showsEdit_of_markLoops hu hy).restoreText hlen
    exact ⟨out, bind_eq_ok_iff.mpr ⟨y, hy, hout⟩⟩

/-- A script that opens no hint comes back from the header and the marks of its hot loops, wherever
the loops are and whatever surrounds them. It is marked exactly if each comment before a loop is
there, which can fail only where code behind a literal or comment goes on as a mark. -/
theorem stripHints_loopRecognition (hu : Unmarked code) (hopen : ¬ hintHead <:+: code)
    (hlen : code.length ≤ 10 ^ Number.digitLimit) :
    (∀ out, loopRecognition code = .ok out →
        ∀ level, stripHints (hintsHeader level ++ out) = code) ∧
      ((∃ out, loopRecognition code = .ok out) ↔
        ∀ loop ∈ countedLoop.allIn (mask .all code).text,
          FindsComment (mask .all code) loop.before) ∧
      ((∀ g ∈ (layout code).gaps.tail, ¬ GoesOnAsMark g) →
        ∃ out, loopRecognition code = .ok out) := by
  refine ⟨fun out hout level => ?_, exists_loopRecognition_eq_ok_iff hu hlen,
    loopRecognition_succeeds hu hlen⟩
  have hmarks : Annotated code out :=
    annotated_of_loopRecognition (restore_mask_all hu hlen) hout
  rw [stripHints_hintsHeader, hmarks.stripHints_eq hopen]

/-- A counted loop between a comment and a slash that divides. -/
def tightLoop : Text := "/**/ for(var i=0;i<n;++i)a/2"

/-- The loop is marked, and the mark comes off again with the header. -/
theorem stripHints_loopRecognition_tightLoop :
    (Unmarked tightLoop ∧ ¬ hintHead <:+: tightLoop) ∧
      ∃ out, loopRecognition tightLoop = .ok out ∧
        out = "/**/ /* @jit:hot-loop */ for(var i=0;i<n;++i)a/2" ∧
        stripHints (hintsHeader 2 ++ out) = tightLoop := by
  have hu : Unmarked tightLoop := ⟨by decide, by decide⟩
  have hopen : ¬ hintHead <:+: tightLoop := by decide +kernel
  have hmarked : loopRecognition tightLoop =
      .ok ("/**/ /* @jit:hot-loop */ for(var i=0;i<n;++i)a/2" : Text) :=
    toOption_eq_some_iff.mp (by decide +kernel)
  have hlen : tightLoop.length ≤ 10 ^ Number.digitLimit := le_pow_digitLimit (by decide)
  have hstrip := (stripHints_loopRecognition hu hopen hlen).1
  exact ⟨⟨hu, hopen⟩, _, hmarked, rfl, hstrip _ hmarked 2⟩

/-- The end of a comment's mark and the code behind it read like the mark of another comment, one
that is not there. -/
theorem loopRecognition_fails_fusedMark :
    (Unmarked "/**/JSCOM_5__ for (let i = 0; i < n; i++) {}" ∧
        ¬ hintHead <:+: "/**/JSCOM_5__ for (let i = 0; i < n; i++) {}".toList) ∧
      ¬ ∃ out, loopRecognition "/**/JSCOM_5__ for (let i = 0; i < n; i++) {}" = .ok out := by
  have hfail : (loopRecognition "/**/JSCOM_5__ for (let i = 0; i < n; i++) {}").toOption = none := by
    decide +kernel
  refine ⟨⟨⟨by decide, by decide⟩, by decide⟩, ?_⟩
  rintro ⟨out, hout⟩
  rw [hout] at hfail
  cases hfail

end Optimize

end HostScript
