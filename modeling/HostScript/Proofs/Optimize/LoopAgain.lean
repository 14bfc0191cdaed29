import HostScript.Proofs.Optimize.LoopGaps
import HostScript.Proofs.Optimize.LoopPieces

/-!
# Loops that are marked once

The marks of hot loops go in front of the loops that have none. Where no slash on the line before a
loop waits for the rest of a regular expression, scanning the marked script finds the old pieces and
the new comments. So every header that is found again stands where one was found before, behind its
mark.
-/

namespace HostScript

namespace Pattern

theorem FitsFrom.le_start {p : Pattern} {t : Text} {pos : Nat} {ms : List Match}
    (h : FitsFrom p t pos ms) {m : Match} (hm : m ∈ ms) : pos ≤ m.start := by
  induction h with
  | nil => cases hm
  | cons subject start stop length runs rest ih =>
    rcases List.mem_cons.mp hm with rfl | hm
    · exact start
    · exact start.trans (stop.trans (ih hm))

/-- Putting a text in front of certain fits is putting it in where they start. -/
theorem splice_eq_insertedAt {p : Pattern} {t new : Text} {wanted : Match → Bool}
    {here : Nat → Bool} {pos : Nat} {ms : List Match} (hms : FitsFrom p t pos ms) (hne : ∀ m ∈ ms, m.text ≠ [])
    (hhere : ∀ i, pos ≤ i → (here i = true ↔ ∃ m ∈ ms, m.start = i ∧ wanted m = true)) :
    splice t (fun m => if wanted m then new ++ m.text else m.text) pos ms =
      Script.insertedAt here new pos (t.drop pos) := by
  induction hms with
  | nil =>
    refine (Script.insertedAt_eq_self fun i _ => ?_).symm
    exact Bool.eq_false_iff.mpr fun h => by simpa using (hhere _ (Nat.le_add_right _ i)).mp h
  | @cons pos m ms subject start stop length runs rest ih =>
    subst subject
    rw [List.forall_mem_cons] at hne
    obtain ⟨c, text, hcons⟩ := List.exists_cons_of_ne_nil hne.1
    have hlength : m.start + (text.length + 1) = m.stop := by
      have := congrArg List.length hcons
      rw [Match.text, Text.slice, List.length_drop, List.length_take_of_le length,
        List.length_cons] at this
      omega
    -- Behind the first fit the places are those of the others.
    have hothers (i : Nat) (hi : pos ≤ i) (hne : i ≠ m.start) :
        here i = true ↔ ∃ m' ∈ ms, m'.start = i ∧ wanted m' = true := by
      rw [hhere i hi, List.exists_mem_cons_iff]
      exact or_iff_right fun h => hne h.1.symm
    have hnone (i : Nat) (hi : pos ≤ i) (hne : i ≠ m.start) (hlt : i < m.stop) :
        here i = false := by
      refine Bool.eq_false_iff.mpr fun h => ?_
      obtain ⟨m', hm', rfl, -⟩ := (hothers i hi hne).mp h
      exact absurd (rest.le_start hm') (by omega)
    have hstart : here m.start = wanted m := by
      rw [Bool.eq_iff_iff, hhere _ start, List.exists_mem_cons_iff]
      refine ⟨fun h => ?_, fun h => Or.inl ⟨rfl, h⟩⟩
      rcases h with h | ⟨m', hm', heq, -⟩
      · exact h.2
      · exact absurd (rest.le_start hm') (by omega)
    have hslice : (m.subject.slice pos m.start).length = m.start - pos := by
      rw [Text.slice, List.length_drop, List.length_take_of_le (stop.trans length)]
    have hbefore : Script.insertedAt here new pos (m.subject.slice pos m.start) =
        m.subject.slice pos m.start := Script.insertedAt_eq_self fun i hi =>
      hnone _ (by omega) (by omega) (by omega)
    have hinside : Script.insertedAt here new (m.start + 1) text = text :=
      Script.insertedAt_eq_self fun i hi => hnone _ (by omega) (by omega) (by omega)
    have hrest := ih hne.2 fun i hi => hothers i (by omega) (by omega)
    have hdrop : m.subject.drop pos =
        m.subject.slice pos m.start ++ (m.text ++ m.subject.drop m.stop) := by
      rw [Match.text, Text.slice_append_drop stop length,
        Text.slice_append_drop start (stop.trans length)]
    rw [splice, hrest, hdrop, Script.insertedAt_append, hbefore, hslice,
      Nat.add_sub_cancel' start, hcons, Script.insertedAt_append, Script.insertedAt, hinside,
      hstart, List.length_cons, hlength]
    cases wanted m <;> simp

/-- Replacing succeeds with the new texts of the fits. -/
theorem spliceM_eq_ok {t : Text} {f : Match → Outcome Text} {g : Match → Text} {pos : Nat}
    {ms : List Match} (h : ∀ m ∈ ms, f m = .ok (g m)) :
    spliceM t f pos ms = .ok (splice t g pos ms) := by
  induction ms generalizing pos with
  | nil => rfl
  | cons m ms ih =>
    rw [List.forall_mem_cons] at h
    rw [spliceM, h.1, ih h.2]
    rfl

/-- Putting back what the fits cover changes nothing. -/
theorem splice_text {p : Pattern} {t : Text} {pos : Nat} {ms : List Match}
    (hms : FitsFrom p t pos ms) : splice t Match.text pos ms = t.drop pos := by
  induction hms with
  | nil => rfl
  | cons subject start stop length _ _ ih =>
    subst subject
    rw [splice, ih, Match.text, List.append_assoc, Text.slice_append_drop stop length,
      Text.slice_append_drop start (stop.trans length)]

end Pattern

namespace Optimize

open Pattern Script

/-! ## Where marks are put -/

/-- Whether a loop is looked up and has no mark. -/
def lacksMark (m : Masked) (loop : Match) : Bool :=
  match isMarked m loop.before with
  | .ok marked => !marked
  | .error _ => false

theorem lacksMark_iff {m : Masked} {loop : Match} :
    lacksMark m loop = true ↔ isMarked m loop.before = .ok false := by
  rw [lacksMark]
  cases isMarked m loop.before with
  | error e => exact iff_of_false (by simp) nofun
  | ok marked => cases marked <;> simp

/-- Whether a mark goes in at an offset of a masked script. -/
def marksAt (m : Masked) (i : Nat) : Bool :=
  (countedLoop.allIn m.text).any fun loop => loop.start == i && lacksMark m loop

theorem marksAt_iff {m : Masked} {i : Nat} :
    marksAt m i = true ↔
      ∃ loop ∈ countedLoop.allIn m.text, loop.start = i ∧ lacksMark m loop = true := by
  simp [marksAt]

/-- A loop starts with the letter `f`, apart from any name before it. -/
theorem place_of_loop {t : Text} {loop : Match} (hloop : loop ∈ countedLoop.allIn t) {x y : Text}
    (ht : t = x ++ y) (hx : x.length = loop.start) :
    loop.before = x ∧ (endsIn isIdentPart x || endsIn (· == '.') x) = false ∧
      y.head? = some 'f' := by
  obtain ⟨subject, -, -, k, e, hrun⟩ := (fitsFrom_allIn countedLoop t).of_mem hloop
  obtain ⟨-, -, -, hapart⟩ := exists_parts_of_loop hloop
  have hbefore : loop.before = x := by
    rw [Match.before, subject, ht, ← hx, List.take_left]
  have hhead : (t.drop loop.start).head? = some 'f' := head?_of_run_countedLoop hrun
  rw [ht, ← hx, List.drop_left] at hhead
  rw [hbefore, getLast?_any_bound] at hapart
  exact ⟨hbefore, hapart, hhead⟩

/-- Marking loops puts marks in where loops without one start. -/
theorem replaceM_markLoops {m : Masked}
    (hlookup : ∀ loop ∈ countedLoop.allIn m.text, ∃ b, isMarked m loop.before = .ok b) :
    countedLoop.replaceM (fun loop => do
      let marked ← isMarked m loop.before
      pure (if marked then loop.text else hotLoopMark ++ [' '] ++ loop.text)) m.text =
        .ok (insertedAt (marksAt m) loopMark 0 m.text) := by
  have hms := fitsFrom_allIn countedLoop m.text
  have hne : ∀ loop ∈ countedLoop.allIn m.text, loop.text ≠ [] := fun loop hloop => by
    obtain ⟨gs, hspells, -⟩ := spells_of_mem_allIn hloop
    exact hspells.ne_nil rfl
  have hsplice : splice m.text (fun loop =>
      if lacksMark m loop then loopMark ++ loop.text else loop.text) 0 (countedLoop.allIn m.text) =
        insertedAt (marksAt m) loopMark 0 (m.text.drop 0) :=
    splice_eq_insertedAt hms hne fun i _ => marksAt_iff
  rw [List.drop_zero] at hsplice
  rw [← hsplice]
  refine spliceM_eq_ok fun loop hloop => ?_
  obtain ⟨b, hb⟩ := hlookup loop hloop
  rw [hb, lacksMark, hb]
  cases b <;> rfl

/-- Whether a mark goes in behind the pieces in a window. -/
def marksBehind (code : Text) (w : List Piece) : Bool :=
  marksAt (mask .all code) (Piece.assemble 0 w.reverse).1.length

/-- The mark of a hot loop as the scanner finds it. -/
def hotNote : List Piece := [.hidden .comment hotLoopMark, .code ' ']

/-- The pieces of a script with the marks of its hot loops. -/
def markedPieces (code : Text) : List Piece := inserted (marksBehind code) hotNote [] (cut [] code)

/-- A place for a mark lies behind code that no name reaches out of, and before a letter. -/
theorem place_of_marksBehind {code : Text} {us vs : List Piece} {p : Piece}
    (h : cut [] code = us ++ p :: vs) (hmarks : marksBehind code us.reverse = true) :
    p = .code 'f' ∧ (endsIn isIdentPart (Piece.assemble 0 us).1 ||
        endsIn (· == '.') (Piece.assemble 0 us).1) = false ∧
      ∃ loop ∈ countedLoop.allIn (mask .all code).text,
        isMarked (mask .all code) loop.before = .ok false ∧
          loop.before = (Piece.assemble 0 us).1 := by
  have hwhole : ∀ q ∈ us ++ p :: vs, q.IsWhole := fun q hq => isWhole_of_mem_cut (h ▸ hq)
  rw [List.forall_mem_append, List.forall_mem_cons] at hwhole
  rw [marksBehind, List.reverse_reverse, marksAt_iff] at hmarks
  obtain ⟨loop, hloop, hstart, hlacks⟩ := hmarks
  have htext : (mask .all code).text = (Piece.assemble 0 us).1 ++
      (Piece.assemble (0 + (spansOf us).length) (p :: vs)).1 := by
    rw [mask_eq, pieces_all, h, assemble_append_fst 0 hwhole.1]
  obtain ⟨hbefore, hapart, hhead⟩ := place_of_loop hloop htext hstart.symm
  have hvs : ∀ q ∈ p :: vs, q.IsWhole := List.forall_mem_cons.mpr hwhole.2
  obtain ⟨qs, hqs⟩ := exists_code_of_head? hvs (by decide) hhead
  exact ⟨(List.cons.inj hqs).1, hapart, loop, hloop, lacksMark_iff.mp hlacks, hbefore⟩

/-- Code that is put in swaps nothing for itself. -/
theorem rewrites_inserted (here : List Piece → Bool) (new : Text) (w ps : List Piece) :
    Rewrites (Respells fun old n => old = [] ∧ n = new) ps (inserted here (spelled new) w ps) := by
  induction ps generalizing w with
  | nil => exact .nil
  | cons p ps ih =>
    rw [inserted_cons]
    split
    · exact @Rewrites.swap _ _ [] _ _ _ ⟨[], new, ⟨rfl, rfl⟩, rfl, rfl⟩ (.copy p (ih _))
    · exact .copy p (ih _)

/-- Code that is put in hides nothing. -/
theorem spansOf_inserted (here : List Piece → Bool) (new : Text) (w ps : List Piece) :
    spansOf (inserted here (spelled new) w ps) = spansOf ps := by
  induction ps generalizing w with
  | nil => rfl
  | cons p ps ih =>
    have hsplit (l : List Piece) : spansOf (p :: l) = spansOf [p] ++ spansOf l :=
      spansOf_append [p] l
    rw [inserted_cons, spansOf_append, hsplit, hsplit ps, ih]
    split
    · rw [spansOf_spelled, List.nil_append]
    · rfl

/-- New marks bring no mark of a hidden span into a script. -/
theorem unmarked_markedPieces {code : Text} (hu : Unmarked code) :
    Unmarked (sources (markedPieces code)) := by
  have hsources : sources (markedPieces code) =
      sources (inserted (marksBehind code) (spelled loopMark) [] (cut [] code)) :=
    flatMap_inserted_congr (by decide)
  rw [hsources]
  refine (rewrites_inserted (marksBehind code) loopMark [] (cut [] code)).unmarked ?_
    (by rwa [sources_cut])
  rintro old new ⟨-, rfl⟩
  exact .of_all (by simp [loopMark]) (by decide)

/-- If every comment before a loop is looked up, loop recognition gives the script with marks in
front of the loops that have none. -/
theorem loopRecognition_eq {code : Text} (hu : Unmarked code)
    (hlen : code.length ≤ 10 ^ Number.digitLimit)
    (hlookup : ∀ loop ∈ countedLoop.allIn (mask .all code).text,
      ∃ b, isMarked (mask .all code) loop.before = .ok b) :
    loopRecognition code = .ok (sources (markedPieces code)) := by
  have hwhole : ∀ p ∈ cut [] code, p.IsWhole := fun p => isWhole_of_mem_cut
  have hrewrites := rewrites_inserted (marksBehind code) loopMark [] (cut [] code)
  have hshown : insertedAt (marksAt (mask .all code)) loopMark 0 (mask .all code).text =
      (Piece.assemble 0 (inserted (marksBehind code) (spelled loopMark) [] (cut [] code))).1 := by
    have htext : (mask .all code).text = (Piece.assemble 0 (cut [] code)).1 := by
      rw [mask_eq, pieces_all]
    rw [htext]
    refine insertedAt_assemble (w := []) (List.forall_mem_nil _) hwhole fun i hi x y hxy hx => ?_
    obtain ⟨loop, hloop, hstart, -⟩ := marksAt_iff.mp hi
    obtain ⟨-, hapart, hhead⟩ :=
      place_of_loop hloop (htext.trans hxy) (hx.trans hstart.symm)
    exact ⟨(Bool.or_eq_false_iff.mp hapart).1, by rw [hhead]; decide⟩
  have hsources : sources (inserted (marksBehind code) (spelled loopMark) [] (cut [] code)) =
      sources (markedPieces code) := flatMap_inserted_congr (by decide)
  rw [loopRecognition, replaceM_markLoops hlookup, ← hsources]
  refine Eq.trans ?_ (restoreText_assemble (hrewrites.isWhole hwhole) (spansOf_inserted ..)
    (hsources ▸ unmarked_markedPieces hu) hlen)
  rw [← hshown]
  rfl

/-! ## Scanning the marked script -/

/-- The mark of a hot loop is found wherever it stands. -/
theorem standsAlone_hotNote : StandsAlone hotNote where
  found {w ps} h := by
    -- A comment is found whatever stands before it.
    have hfound : spanAt? [')'] '/' (hotLoopMark.tail ++ [' ']) =
        some (.comment, hotLoopMark.tail.length) := by decide +kernel
    have hdivides : regexAllowed [')'] = false := by decide +kernel
    refine ⟨spanAt?_append_of_follows (z := ' ' :: sources ps) hfound (Or.inl rfl) ?_,
      (spanAt?_eq_none_congr (by decide) [] _ [] _).mp (by decide), h⟩
    rw [hdivides]
    exact fun _ hallowed => by cases hallowed
  edge w := edge_code (by decide) (by decide) _

/-- Pieces before a loop in which nothing waits for the rest of a regular expression: no slash right
before the loop, and none that may start a regular expression on its line. -/
structure IsSettled (us : List Piece) : Prop where
  last : us.getLast? ≠ some (.code '/')
  slash : ∀ x y, us = x ++ .code '/' :: y → regexAllowed (nearby x.reverse) = true →
    ∀ r, regexRest (sources y ++ r) = none

/-- A script whose loops without marks stand behind settled pieces. -/
def LoopsSettled (code : Text) : Prop :=
  ∀ us vs, cut [] code = us ++ vs → ∀ loop ∈ countedLoop.allIn (mask .all code).text,
    isMarked (mask .all code) loop.before = .ok false →
      loop.before = (Piece.assemble 0 us).1 → IsSettled us

/-- The scanner finds the old pieces and the marks in the marked script. -/
theorem cut_markedPieces {code : Text} (h : LoopsSettled code) :
    cut [] (sources (markedPieces code)) = markedPieces code := by
  have hwhole : ∀ p ∈ cut [] code, p.IsWhole := fun p => isWhole_of_mem_cut
  refine IsCut.cut_sources (isCut_inserted standsAlone_hotNote hwhole (fun _ => rfl) ?_
    (isCut_cut [] code))
  intro us p vs hcut hmarks
  rw [List.append_nil] at hmarks
  obtain ⟨rfl, hapart, loop, hloop, hfree, hbefore⟩ := place_of_marksBehind hcut hmarks
  have hsettled := h us _ hcut loop hloop hfree hbefore
  have hus : ∀ q ∈ us, q.IsWhole := fun q hq => hwhole q (hcut ▸ List.mem_append_left _ hq)
  rw [Bool.or_eq_false_iff] at hapart
  have hlast : ∀ q ∈ us.getLast?,
      ∃ c, q = .code c ∧ c ≠ '/' ∧ isIdentPart c = false ∧ c ≠ '.' := by
    intro q hq
    obtain ⟨xs, rfl⟩ := List.getLast?_eq_some_iff.mp hq
    have hfresh := fresh_of_assemble hus (w := []) (fun h => absurd h (by simp)) hapart.1
    rw [List.append_nil, List.reverse_concat] at hfresh
    obtain ⟨c, rfl, hc⟩ := hfresh q rfl
    refine ⟨c, rfl, ?_, hc, ?_⟩
    · rintro rfl
      exact hsettled.last hq
    · rintro rfl
      have hdot := hapart.2
      rw [endsIn_dot_assemble hus, endsIn, hq] at hdot
      cases hdot
  refine ⟨?_, fun q hq => ?_, ⟨'f', rfl, by decide, by decide⟩, ?_⟩
  · rw [List.append_nil]
    rcases List.eq_nil_or_concat' us with rfl | ⟨xs, q, rfl⟩
    · exact fun k => by simp [looks, endsIn]
    · obtain ⟨c, rfl, -, hc, hdot⟩ := hlast q List.getLast?_concat
      rw [List.reverse_concat]
      exact edge_code hc hdot _
  · obtain ⟨c, hc, hslash, -⟩ := hlast q hq
    exact ⟨c, hc, hslash⟩
  · simpa using hsettled.slash

/-! ## Which pieces end in a mark -/

/-- Pieces that end in the mark of a hot loop, with white space behind it. -/
def EndsHot (us : List Piece) : Prop :=
  ∃ xs b, (∀ c ∈ b, isBlank c = true) ∧ us = xs ++ .hidden .comment hotLoopMark :: spelled b

/-- The comment before a loop is the hidden span with the number that is found. -/
theorem isMarked_eq {m : Masked} {before span : Text} {c : Match} {k : Nat}
    (hc : trailingComment.search? before = some c) (hk : c.group 1 = Text.ofNat k)
    (hlt : k < 10 ^ Number.digitLimit) (hget : m.spans[k]? = some span) :
    isMarked m before = .ok (span == hotLoopMark) := by
  simp [isMarked, hc, hk, readDigits_ofNat hlt, hget, bind, Except.bind]

/-- Behind the mark of a hot loop a loop is marked. -/
theorem isMarked_of_endsHot {m : Masked} {us vs : List Piece} (hw : ∀ p ∈ us, p.IsWhole)
    (hspans : m.spans = spansOf (us ++ vs)) (hlen : m.spans.length ≤ 10 ^ Number.digitLimit)
    (h : EndsHot us) : isMarked m (Piece.assemble 0 us).1 = .ok true := by
  obtain ⟨xs, b, hb, rfl⟩ := h
  rw [List.forall_mem_append] at hw
  have hshown : (Piece.assemble 0 (xs ++ .hidden .comment hotLoopMark :: spelled b)).1 =
      (Piece.assemble 0 xs).1 ++ (SpanKind.comment.mark (spansOf xs).length ++ b) := by
    rw [assemble_append_fst 0 hw.1, Piece.assemble_hidden, assemble_spelled, Nat.zero_add]
  have hread := Mark.readKind?_mark .comment (spansOf xs).length []
  rw [List.append_nil] at hread
  obtain ⟨hkind, hsound, hprefix⟩ := Mark.readKind?_eq_some_iff.mp hread
  have hsource := List.IsPrefix.eq_of_length hprefix hsound.length.symm
  obtain ⟨c, hc, hdigits⟩ := exists_trailingComment (u := (Piece.assemble 0 xs).1) hkind hsound hb
  rw [hsource, ← hshown] at hc
  have hget : m.spans[(spansOf xs).length]? = some hotLoopMark := by
    rw [hspans, spansOf_append, spansOf_append, spansOf_hidden, List.append_assoc,
      List.getElem?_append_right le_rfl, Nat.sub_self]
    rfl
  have hlt := (List.getElem?_eq_some_iff.mp hget).1
  rw [isMarked_eq hc hdigits (lt_of_lt_of_le hlt hlen) hget, beq_self_eq_true]

/-- Two starts of the same pieces that show the same text are the same. -/
theorem eq_of_assemble_eq {us us' vs vs' : List Piece} (hw : ∀ p ∈ us ++ vs, p.IsWhole)
    (h : us ++ vs = us' ++ vs') (hsame : (Piece.assemble 0 us).1 = (Piece.assemble 0 us').1) :
    us = us' := by
  have hlonger {xs zs : List Piece} (hxs : ∀ p ∈ xs, p.IsWhole) (hzs : ∀ p ∈ zs, p.IsWhole)
      (h : (Piece.assemble 0 xs).1 = (Piece.assemble 0 (xs ++ zs)).1) : zs = [] := by
    rw [assemble_append_fst 0 hxs] at h
    by_contra hne
    exact assemble_ne_nil hzs hne _ (List.self_eq_append_right.mp h)
  have hw' := h ▸ hw
  rw [List.forall_mem_append] at hw hw'
  rcases List.append_eq_append_iff.mp h with ⟨z, rfl, -⟩ | ⟨z, rfl, -⟩
  · rw [List.forall_mem_append] at hw'
    rw [hlonger hw.1 hw'.1.2 hsame, List.append_nil]
  · rw [List.forall_mem_append] at hw
    rw [hlonger hw'.1 hw.1.2 hsame.symm, List.append_nil]

/-- A loop is marked behind the mark of a hot loop only. -/
theorem endsHot_of_isMarked {code : Text} (hu : Unmarked code)
    (hlen : code.length ≤ 10 ^ Number.digitLimit)
    (hgaps : ∀ g ∈ (layout code).gaps.tail, ¬ GoesOnAsMark g) {us vs : List Piece}
    (hcut : cut [] code = us ++ vs)
    (h : isMarked (mask .all code) (Piece.assemble 0 us).1 = .ok true) : EndsHot us := by
  have hwhole : ∀ p ∈ cut [] code, p.IsWhole := fun p => isWhole_of_mem_cut
  have hus : ∀ p ∈ us, p.IsWhole := fun p hp => hwhole p (hcut ▸ List.mem_append_left _ hp)
  obtain ⟨c, hc⟩ : ∃ c, trailingComment.search? (Piece.assemble 0 us).1 = some c := by
    rw [isMarked] at h
    split at h
    · cases h
    · exact ⟨_, ‹_›⟩
  obtain ⟨u, m, v, hshown, hkind, hsound, hv, hdigits⟩ := exists_source_of_trailingComment hc
  have htext : (Piece.assemble 0 (cut [] code)).1 =
      u ++ (m.source ++ (v ++ (Piece.assemble (0 + (spansOf us).length) vs).1)) := by
    rw [hcut, assemble_append_fst 0 hus, hshown]
    simp
  obtain ⟨xs, span, ys, hsplit, hxs, hys, hnumber⟩ := exists_hidden_of_commentMark hwhole
    (by rwa [sources_cut]) hgaps hkind hsound htext
  have hys' : ∀ p ∈ ys, p.IsWhole := fun p hp =>
    hwhole p (hsplit ▸ List.mem_append_right xs (List.mem_cons_of_mem _ hp))
  have hblank : '_' ∉ v := fun hmem => absurd (hv _ hmem) (by decide)
  obtain ⟨zs, rfl, -⟩ := exists_spelled_append hys' hblank hys
  have hxsWhole : ∀ p ∈ xs, p.IsWhole := fun p hp => hwhole p (hsplit ▸ List.mem_append_left _ hp)
  have hsource : m.source = SpanKind.comment.mark (0 + (spansOf xs).length) := by
    rw [Mark.source, hkind, hnumber, SpanKind.mark, List.append_assoc]
  have hparts : us ++ vs = (xs ++ .hidden .comment span :: spelled v) ++ zs := by
    rw [← hcut, hsplit]
    simp
  have hus_eq : us = xs ++ .hidden .comment span :: spelled v := by
    refine eq_of_assemble_eq (hcut ▸ hwhole) hparts ?_
    rw [hshown, assemble_append_fst 0 hxsWhole, Piece.assemble_hidden, assemble_spelled, hxs,
      hsource]
  have hget : (mask .all code).spans[0 + (spansOf xs).length]? = some span := by
    rw [spans_mask, hsplit, spansOf_append, spansOf_hidden, Nat.zero_add,
      List.getElem?_append_right le_rfl, Nat.sub_self]
    rfl
  have hlt := (List.getElem?_eq_some_iff.mp hget).1
  rw [spans_mask] at hlt
  rw [isMarked_eq hc (hdigits.symm.trans hnumber)
    (lt_of_lt_of_le hlt ((length_spansOf_cut_le code).trans hlen)) hget] at h
  have hhot : span = hotLoopMark := beq_iff_eq.mp (Except.ok.inj h)
  exact ⟨xs, v, hv, by rw [hus_eq, hhot]⟩

/-! ## Loops of the marked script -/

/-- The mark in front of a loop. -/
def hotComment : Piece := .hidden .comment hotLoopMark

theorem hotComment_notMem_spelled (n : Text) : hotComment ∉ spelled n := by
  intro h
  obtain ⟨c, -, hc⟩ := List.mem_map.mp h
  cases hc

/-- Marks are put between the pieces before the letter of a loop only. -/
theorem marksBehind_eq_false {code : Text} {us vs : List Piece} {p : Piece}
    (h : cut [] code = us ++ p :: vs) (hp : p ≠ .code 'f') : marksBehind code us.reverse = false :=
  Bool.eq_false_iff.mpr fun hmarks => hp (place_of_marksBehind h hmarks).1

/-- Pieces that end in a mark still do with the new marks. -/
theorem EndsHot.inserted {code : Text} {us vs : List Piece} (hcut : cut [] code = us ++ vs)
    (h : EndsHot us) : EndsHot (inserted (marksBehind code) hotNote [] us) := by
  obtain ⟨xs, b, hb, rfl⟩ := h
  have hfree : marksBehind code (xs.reverse ++ []) = false := by
    have hplace : cut [] code = xs ++ hotComment :: (spelled b ++ vs) := by
      rw [hcut]
      simp [hotComment]
    rw [List.append_nil]
    exact marksBehind_eq_false hplace nofun
  have hblanks : Script.inserted (marksBehind code) hotNote (hotComment :: (xs.reverse ++ []))
      (spelled b) = spelled b := by
    refine inserted_eq_self fun x p y hxy => ?_
    have hp : p ∈ spelled b := hxy ▸ List.mem_append_right x (List.mem_cons_self ..)
    obtain ⟨c, hc, rfl⟩ := List.mem_map.mp hp
    have hplace : cut [] code = (xs ++ hotComment :: x) ++ .code c :: (y ++ vs) := by
      rw [hcut, hxy]
      simp [hotComment]
    have hletter : Piece.code c ≠ .code 'f' := fun heq => by
      rw [Piece.code.inj heq] at hc
      exact absurd (hb _ hc) (by decide)
    simpa using marksBehind_eq_false hplace hletter
  refine ⟨Script.inserted (marksBehind code) hotNote [] xs, b, hb, ?_⟩
  rw [inserted_append, inserted_of_not_here hfree]
  exact congrArg _ (congrArg _ hblanks)

/-- Where a letter of a loop stands in the marked script, a mark stands before it or none was put
there. -/
theorem endsHot_or_of_markedPieces {code : Text} {us' vs' : List Piece}
    (h : markedPieces code = us' ++ .code 'f' :: vs') :
    EndsHot us' ∨ ∃ us vs, cut [] code = us ++ vs ∧ marksBehind code us.reverse = false ∧
      us' = inserted (marksBehind code) hotNote [] us ∧
      .code 'f' :: vs' = inserted (marksBehind code) hotNote us.reverse vs := by
  rcases exists_append_of_inserted h with
    ⟨us, vs, hcut, hus, hvs⟩ | ⟨us, p, vs, n, m, -, -, hnew, hus, hvs⟩
  · rw [List.append_nil] at hvs
    refine Or.inr ⟨us, vs, hcut, ?_, hus, hvs⟩
    cases vs with
    | nil => cases hvs
    | cons p vs =>
      refine Bool.eq_false_iff.mpr fun hmarks => ?_
      rw [inserted_of_here hmarks] at hvs
      cases (List.cons.inj hvs).1
  · left
    cases m with
    | nil =>
      rw [List.append_nil] at hnew
      exact ⟨inserted (marksBehind code) hotNote [] us, [' '], by decide, by rw [hus, ← hnew]; rfl⟩
    | cons q m =>
      -- No new piece is the letter of a loop.
      have hmem : q ∈ hotNote := hnew ▸ List.mem_append_right n (List.mem_cons_self ..)
      rw [← (List.cons.inj hvs).1] at hmem
      simp [hotNote] at hmem

/-- Where a header stands in the marked script and no mark was put, one stood before. -/
theorem exists_header_of_inserted {code : Text} {us vs : List Piece} {i j : Nat}
    (hcut : cut [] code = us ++ vs) {l : LoopParts} (hl : l.IsSound) {rest : Text}
    (hw : ∀ p ∈ inserted (marksBehind code) hotNote us.reverse vs, p.IsWhole)
    (hu : Unmarked (sources (inserted (marksBehind code) hotNote us.reverse vs)))
    (h : (Piece.assemble i (inserted (marksBehind code) hotNote us.reverse vs)).1 =
      l.text ++ rest) : ∃ l' : LoopParts, l'.IsSound ∧ l'.text <+: (Piece.assemble j vs).1 := by
  obtain ⟨bs', qs', hsplit, hbs'⟩ := exists_pieces_of_header hw hu hl h
  obtain ⟨ys, rfl, hys⟩ := exists_append_of_inserted_start rfl (hotComment_notMem_spelled _) hsplit
  rcases exists_append_of_inserted hys.symm with
    ⟨bs, zs, rfl, rfl, hzs⟩ | ⟨bs, p, zs, n, m, rfl, hmarks, hnew, -, hzs⟩
  · obtain ⟨ts, rfl, -⟩ :=
      exists_append_of_inserted_start rfl (hotComment_notMem_spelled _) hzs.symm
    have hwhole : ∀ p ∈ us ++ (spelled l.head ++ (bs ++ (spelled l.tail ++ ts))), p.IsWhole :=
      fun p hp => isWhole_of_mem_cut (hcut ▸ hp)
    simp only [List.forall_mem_append] at hwhole
    have hbs := hwhole.2.2.1
    have hbsInserted : ∀ p ∈ inserted (marksBehind code) hotNote
        ((spelled l.head).reverse ++ us.reverse) bs, p.IsWhole := fun p hp => by
      rw [hsplit] at hw
      exact hw p (List.mem_append_right _ (List.mem_append_left _ hp))
    let l' : LoopParts := { l with bound := (Piece.assemble j bs).1 }
    have hl' : l'.IsSound := by
      refine ⟨hl.start, hl.counter, hl.assign, hl.compare, ⟨?_, ?_⟩, hl.step⟩
      · refine assemble_ne_nil hbs ?_ j
        rintro rfl
        exact hl.bound.1 hbs'.symm
      · intro hmem
        have hcode := (mem_assemble_iff hbs (by decide)).mp hmem
        have hshown := (mem_assemble_iff hbsInserted (i := i) (by decide)).mpr (mem_inserted hcode)
        rw [hbs'] at hshown
        exact hl.bound.2 hshown
    refine ⟨l', hl', (Piece.assemble (j + (spansOf bs).length) ts).1, ?_⟩
    rw [assemble_append_fst j fun q => isWhole_of_mem_spelled, assemble_append_fst _ hbs,
      assemble_append_fst _ fun q => isWhole_of_mem_spelled, assemble_spelled, assemble_spelled,
      spansOf_spelled, spansOf_spelled]
    simp only [LoopParts.text, List.append_assoc]
    rfl
  · -- Behind the bound comes a semicolon, which is no new piece and no letter of a loop.
    exfalso
    have hsplit : cut [] code = (us ++ (spelled l.head ++ bs)) ++ p :: zs := by
      rw [hcut]
      simp
    have hplace := (place_of_marksBehind hsplit (by simpa using hmarks)).1
    cases m with
    | nil =>
      have hhead := (List.cons.inj hzs).1
      rw [hplace] at hhead
      exact absurd (Piece.code.inj hhead) (by decide)
    | cons q m =>
      have hmem : q ∈ hotNote := hnew ▸ List.mem_append_right n (List.mem_cons_self ..)
      rw [← (List.cons.inj hzs).1] at hmem
      simp [hotNote] at hmem

/-! ## Marking twice -/

/-- Each new mark stands before a character of code, so there are no more hidden spans than there
were pieces. -/
theorem length_spansOf_inserted_le {here : List Piece → Bool} {w ps : List Piece}
    (hps : ∀ p ∈ ps, p.IsWhole)
    (hplace : ∀ us p vs, ps = us ++ p :: vs → here (us.reverse ++ w) = true → ∃ c, p = .code c) :
    (spansOf (inserted here hotNote w ps)).length ≤ ps.length := by
  induction ps generalizing w with
  | nil => exact Nat.le_refl 0
  | cons p ps ih =>
    rw [List.forall_mem_cons] at hps
    have hrest := ih (w := p :: w) hps.2 fun us q vs hsplit hmarks =>
      hplace (p :: us) q vs (by rw [hsplit]; rfl) (by simpa using hmarks)
    cases hhere : here w with
    | true =>
      obtain ⟨c, rfl⟩ := hplace [] p ps rfl hhere
      have hnote (l : List Piece) : spansOf (hotNote ++ .code c :: l) = hotLoopMark :: spansOf l :=
        spansOf_hidden ..
      rw [inserted_of_here hhere, hnote]
      exact Nat.succ_le_succ hrest
    | false =>
      rw [inserted_of_not_here hhere]
      cases hps.1 with
      | code c => exact hrest.trans (Nat.le_succ _)
      | hidden span _ _ =>
        rw [spansOf_hidden]
        exact Nat.succ_le_succ hrest

/-- A script has no more pieces than characters. -/
theorem length_le_sources {ps : List Piece} (hps : ∀ p ∈ ps, p.IsWhole) :
    ps.length ≤ (sources ps).length := by
  induction ps with
  | nil => exact Nat.le_refl 0
  | cons p ps ih =>
    rw [List.forall_mem_cons] at hps
    have hpos := List.length_pos_of_ne_nil hps.1.source_ne_nil
    have hrest := ih hps.2
    rw [sources_cons, List.length_append, List.length_cons]
    omega

section

variable {code : Text}

/-- Every loop of the marked script stands behind the mark of a hot loop. -/
theorem exists_endsHot_of_loop (hu : Unmarked code) (hlen : code.length ≤ 10 ^ Number.digitLimit)
    (hgaps : ∀ g ∈ (layout code).gaps.tail, ¬ GoesOnAsMark g)
    (hunmarked : Unmarked (sources (markedPieces code)))
    (hwhole : ∀ p ∈ markedPieces code, p.IsWhole) {loop : Match}
    (hloop : loop ∈ countedLoop.allIn (Piece.assemble 0 (markedPieces code)).1) :
    ∃ us vs, markedPieces code = us ++ vs ∧ (Piece.assemble 0 us).1 = loop.before ∧
      EndsHot us := by
  obtain ⟨subject, stop, length, -⟩ := (fitsFrom_allIn countedLoop _).of_mem hloop
  obtain ⟨l, hl, htext, -⟩ := exists_parts_of_loop hloop
  have hshown : (Piece.assemble 0 (markedPieces code)).1 =
      loop.before ++ (loop.text ++ loop.after) := by
    rw [Match.text, Match.after, Text.slice_append_drop stop (subject ▸ length), Match.before,
      List.take_append_drop, subject]
  have hbefore : loop.before.length = loop.start := by
    rw [Match.before, List.length_take_of_le (stop.trans (subject ▸ length))]
  obtain ⟨-, hapart, hhead⟩ := place_of_loop hloop hshown hbefore
  rw [Bool.or_eq_false_iff] at hapart
  obtain ⟨us', vs', hsplit, hus', hvs'⟩ :=
    exists_append_of_assemble hwhole (Apart.of_endsIn hapart.1) hshown
  rw [hsplit, List.forall_mem_append] at hwhole
  obtain ⟨ys, rfl⟩ := exists_code_of_head? hwhole.2 (by decide) (hvs'.symm ▸ hhead)
  refine ⟨us', _, hsplit, hus', ?_⟩
  rcases endsHot_or_of_markedPieces hsplit with hhot | ⟨us, vs, hcut, hfree, rfl, hvs⟩
  · exact hhot
  -- No mark was put here, so the loop was found here before, and it was marked.
  have hcutWhole : ∀ p ∈ us ++ vs, p.IsWhole := fun p hp => isWhole_of_mem_cut (hcut ▸ hp)
  rw [List.forall_mem_append] at hcutWhole
  have hunmarked' : Unmarked (sources (inserted (marksBehind code) hotNote us.reverse vs)) := by
    rw [hsplit, sources_append, hvs] at hunmarked
    exact hunmarked.of_infix (List.suffix_append _ _).isInfix
  rw [hvs, htext] at hvs'
  rw [hvs] at hwhole
  obtain ⟨l', hl', hprefix⟩ := exists_header_of_inserted (j := 0 + (spansOf us).length) hcut hl
    hwhole.2 hunmarked' hvs'
  have htextCode : (mask .all code).text = (Piece.assemble 0 us).1 ++
      (Piece.assemble (0 + (spansOf us).length) vs).1 := by
    rw [mask_eq, pieces_all, hcut, assemble_append_fst 0 hcutWhole.1]
  have hends : (endsIn isIdentPart (Piece.assemble 0 us).1 ||
      endsIn (· == '.') (Piece.assemble 0 us).1) = false := by
    rw [← hus', endsIn_assemble hwhole.1, endsIn_dot_assemble hwhole.1, endsIn, endsIn,
      getLast?_inserted] at hapart
    rw [endsIn_assemble hcutWhole.1, endsIn_dot_assemble hcutWhole.1, Bool.or_eq_false_iff]
    exact hapart
  obtain ⟨found, hfound, hstart⟩ := exists_loop_of_header (t := (mask .all code).text)
    (i := (Piece.assemble 0 us).1.length) (by rw [htextCode, List.length_append]; omega) hl'
    (by rw [htextCode, List.take_left, getLast?_any_bound, hends])
    (by rw [htextCode, List.drop_left]; exact hprefix)
  obtain ⟨hfoundBefore, -, -⟩ := place_of_loop hfound htextCode hstart.symm
  obtain ⟨marked, hmarked⟩ := (isMarked_succeeds hu hlen hgaps htextCode).exists_ok
  have htrue : marked = true := by
    by_contra hfalse
    rw [Bool.not_eq_true] at hfalse
    refine absurd ?_ (Bool.eq_false_iff.mp hfree)
    rw [marksBehind, List.reverse_reverse, marksAt_iff]
    exact ⟨found, hfound, hstart, lacksMark_iff.mpr (by rw [hfoundBefore, hmarked, hfalse])⟩
  exact (endsHot_of_isMarked hu hlen hgaps hcut (by rw [hmarked, htrue])).inserted hcut

/-- A loop gets its mark once: where no slash on the line before a loop waits for the rest of a
regular expression, and no code behind a hidden span goes on as a mark, loop recognition gives a
script that it leaves alone. -/
theorem loopRecognition_twice (hu : Unmarked code) (hlen : code.length ≤ 10 ^ Number.digitLimit)
    (hgaps : ∀ g ∈ (layout code).gaps.tail, ¬ GoesOnAsMark g) (hsettled : LoopsSettled code) :
    ∃ out, loopRecognition code = .ok out ∧ loopRecognition out = .ok out := by
  have hlookup : ∀ loop ∈ countedLoop.allIn (mask .all code).text,
      ∃ b, isMarked (mask .all code) loop.before = .ok b := fun loop hloop => by
    have htext : (mask .all code).text = loop.before ++ loop.subject.drop loop.start := by
      rw [Match.before, List.take_append_drop, ((fitsFrom_allIn countedLoop _).of_mem hloop).1]
    exact (isMarked_succeeds hu hlen hgaps htext).exists_ok
  have hcutWhole : ∀ p ∈ cut [] code, p.IsWhole := fun p => isWhole_of_mem_cut
  have hwhole : ∀ p ∈ markedPieces code, p.IsWhole := fun p hp => by
    rcases mem_or_mem_of_inserted hp with hp | hp
    · exact hcutWhole p hp
    · rcases List.mem_pair.mp hp with rfl | rfl
      · exact .hidden _ (by decide) (by decide)
      · exact .code ' '
  have hunmarked := unmarked_markedPieces hu
  have hmask : mask .all (sources (markedPieces code)) =
      ⟨(Piece.assemble 0 (markedPieces code)).1, spansOf (markedPieces code)⟩ := by
    rw [mask_eq, pieces_all, cut_markedPieces hsettled]
    rfl
  have hspans : (spansOf (markedPieces code)).length ≤ 10 ^ Number.digitLimit := by
    have hle : (spansOf (markedPieces code)).length ≤ (cut [] code).length :=
      length_spansOf_inserted_le hcutWhole fun us p vs hcut hmarks =>
        ⟨'f', (place_of_marksBehind hcut (by rwa [List.append_nil] at hmarks)).1⟩
    have hpieces := length_le_sources hcutWhole
    rw [sources_cut] at hpieces
    omega
  refine ⟨_, loopRecognition_eq hu hlen hlookup, ?_⟩
  rw [loopRecognition, hmask]
  have hkept : countedLoop.replaceM (fun loop => do
      let marked ← isMarked ⟨(Piece.assemble 0 (markedPieces code)).1, spansOf (markedPieces code)⟩
        loop.before
      pure (if marked then loop.text else hotLoopMark ++ [' '] ++ loop.text))
      (Piece.assemble 0 (markedPieces code)).1 = .ok (Piece.assemble 0 (markedPieces code)).1 := by
    refine (spliceM_eq_ok fun loop hloop => ?_).trans
      (congrArg Except.ok (splice_text (fitsFrom_allIn countedLoop _)))
    obtain ⟨us, vs, hsplit, hshown, hhot⟩ :=
      exists_endsHot_of_loop hu hlen hgaps hunmarked hwhole hloop
    have hus : ∀ p ∈ us, p.IsWhole := fun p hp => hwhole p (hsplit ▸ List.mem_append_left _ hp)
    have hmarked := isMarked_of_endsHot
      (m := ⟨(Piece.assemble 0 (markedPieces code)).1, spansOf (markedPieces code)⟩) hus
      (congrArg spansOf hsplit) hspans hhot
    rw [hshown] at hmarked
    rw [hmarked]
    rfl
  change (countedLoop.replaceM _ _ >>= fun text => _) = _
  rw [hkept]
  refine Masked.fillAll_assemble (fun p hp => (hwhole p hp).isFlat) hunmarked List.prefix_rfl ?_
  rw [Nat.zero_add]
  exact hspans

end

/-- A loop on the line behind a division. -/
def loopBelow : Text := "x++ / 2;\nfor (let i = 0; i < n; i++) {}"

/-- The slash that divides cannot reach the loop on the next line. -/
theorem loopsSettled_loopBelow : LoopsSettled loopBelow := by
  have hspelled : cut [] loopBelow = spelled loopBelow :=
    spelling?_eq_some_iff.mp (by decide +kernel)
  have hloops : ∀ loop ∈ countedLoop.allIn (mask .all loopBelow).text,
      loop.before = "x++ / 2;\n".toList := by decide +kernel
  intro us vs hcut loop hloop _ hbefore
  rw [hspelled] at hcut
  obtain ⟨u, v, -, rfl, -⟩ := List.map_eq_append_iff.mp hcut
  have hu : u = "x++ / 2;\n".toList :=
    (assemble_spelled 0 u).symm.trans (hbefore.symm.trans (hloops loop hloop))
  subst hu
  refine ⟨by simp, fun x y hxy _ r => ?_⟩
  obtain ⟨x, y', hsplit, rfl, hy⟩ := List.map_eq_append_iff.mp hxy
  obtain ⟨c, y, rfl, hc, rfl⟩ := List.map_eq_cons_iff.mp hy
  obtain rfl := Piece.code.inj hc
  have hy : "x++ ".toList = x ∧ " 2;\n".toList = y := by
    refine eq_of_append_cons_eq (c := '/') (by decide) ?_ hsplit
    intro hmem
    have hcount := congrArg (List.count '/') hsplit
    have htwice := List.count_pos_iff.mpr hmem
    have honce : List.count '/' "x++ / 2;\n".toList = 1 := by decide
    rw [honce, List.count_append, List.count_cons_self] at hcount
    omega
  have hsources : sources (List.map Piece.code y) = y := sources_spelled y
  rw [hsources, ← hy.2]
  rfl

/-- The loop is marked once. -/
theorem loopRecognition_twice_loopBelow :
    (Unmarked loopBelow ∧ LoopsSettled loopBelow) ∧
      ∃ out, loopRecognition loopBelow = .ok out ∧
        loopRecognition out = .ok out := by
  have hu : Unmarked loopBelow := ⟨by decide, by decide⟩
  have hlen : loopBelow.length ≤ 10 ^ Number.digitLimit := le_pow_digitLimit (by decide)
  have hgaps : ∀ g ∈ (layout loopBelow).gaps.tail, ¬ GoesOnAsMark g := by decide +kernel
  exact ⟨⟨hu, loopsSettled_loopBelow⟩, loopRecognition_twice hu hlen hgaps loopsSettled_loopBelow⟩

/-- A loop on the line of a division. -/
def loopBeside : Text := "x++ / 2; for (let i = 0; i < n; i++) {}"

/-- The first slash of the mark ends what the slash of the division may open, so the mark is no
comment any more, and the loop is marked again. -/
theorem loopRecognition_marksAgain :
    Unmarked loopBeside ∧ ∃ out again, loopRecognition loopBeside = .ok out ∧
      loopRecognition out = .ok again ∧ again ≠ out := by
  refine ⟨⟨by decide, by decide⟩,
    "x++ / 2; /* @jit:hot-loop */ for (let i = 0; i < n; i++) {}",
    "x++ / 2; /* @jit:hot-loop */ /* @jit:hot-loop */ for (let i = 0; i < n; i++) {}", ?_, ?_,
    by decide +kernel⟩
  · exact Outcome.toOption_eq_some_iff.mp
      (Text.of_toList (P := fun t => (loopRecognition loopBeside).toOption = some t) rfl
        (by decide +kernel))
  · exact Outcome.toOption_eq_some_iff.mp
      (Text.apply_toList_eq (f := fun t => (loopRecognition t).toOption) rfl (by decide +kernel))

end Optimize

end HostScript
