import HostScript.Optimize
import HostScript.Proofs.Numeral
import HostScript.Proofs.Outcome
import HostScript.Proofs.Pattern.Plain
import HostScript.Proofs.Script.Mark
import HostScript.Proofs.Script.Reword

/-!
# Hints come off without a trace

The header of an optimized script is a hint with its line break, and the mark of a hot loop is a
hint with its blank. Where the text itself opens no hint, stripping takes away exactly the marks
that were put before its loops, whatever stands around them.
-/

namespace HostScript.Optimize

open Pattern

/-- What a hint opens with. -/
def hintHead : Text := "/* @jit:"

/-- What stands between the opening of a hint and the next star. -/
def hintBody (after : Text) : Text := (after.drop hintHead.length).takeWhile (outside (among "*"))

/-- What follows the body of a hint, from the next star on. -/
def hintRest (after : Text) : Text := (after.drop hintHead.length).drop (hintBody after).length

/-- How far a hint goes: up to the next star, which has to close it, and over one blank. -/
def hintFit : PlainFit := fun _ after =>
  if hintHead.isPrefixOf after && ['*', '/'].isPrefixOf (hintRest after) then
    some (hintHead.length + ((hintBody after).length +
      (2 + if ((hintRest after).drop 2).head?.any (among " \n") then 1 else 0)))
  else none

/-- A hint ends at the next star behind its opening. -/
theorem run_hint (c : Cursor) :
    hint.run some c = (hintFit c.before.head? c.after).map c.advance := by
  have hopen : lit "/* @jit:" = Pattern.text hintHead := rfl
  have hclose : lit "*/" = Pattern.text ['*', '/'] := rfl
  have htake : (c.advance hintHead.length).after.takeWhile (outside (among "*")) =
      hintBody c.after := rfl
  rw [hint, run_seq, run_seq, run_seq, hopen, hclose, noneOf, oneOf, run_text, hintFit]
  cases hhead : hintHead.isPrefixOf c.after with
  | false => rfl
  | true =>
    rw [if_pos rfl, run_star_one, htake, run_text, run_opt_one, Bool.true_and]
    · have hrest : ((c.advance hintHead.length).advance (hintBody c.after).length).after =
          hintRest c.after := rfl
      have hblank : (((c.advance hintHead.length).advance (hintBody c.after).length).advance
          2).after = (hintRest c.after).drop 2 := rfl
      have htwo : ['*', '/'].length = 2 := rfl
      rw [htwo, hblank, hrest, Cursor.advance_advance, Cursor.advance_advance,
        Cursor.advance_advance]
      cases ['*', '/'].isPrefixOf (hintRest c.after) <;> rfl
    · -- Fewer characters of the body leave one of them ahead, which is no star.
      intro j hj
      rw [htake] at hj
      have hpre : hintBody c.after <+: c.after.drop hintHead.length := List.takeWhile_prefix _
      have hdrop : ((c.advance hintHead.length).advance j).after =
          (c.after.drop hintHead.length).drop j := rfl
      have hnext : ((c.after.drop hintHead.length).drop j).head? = some (hintBody c.after)[j] := by
        rw [List.head?_drop, List.getElem?_eq_some_iff]
        exact ⟨_, (hpre.getElem hj).symm⟩
      have hchar := List.all_eq_true.mp List.all_takeWhile _ (List.getElem_mem hj)
      rw [run_text, hdrop, if_neg]
      intro hstar
      obtain ⟨more, hmore⟩ := List.isPrefixOf_iff_prefix.mp hstar
      have hstar : '*' = (hintBody c.after)[j] := by
        rw [← hmore] at hnext
        exact Option.some.inj hnext
      rw [← hstar] at hchar
      exact absurd hchar (by decide)

/-- A text that starts like a hint is the opening of the hint, its body and the rest. -/
theorem hintHead_append_eq {after : Text} (h : hintHead <+: after) :
    hintHead ++ (hintBody after ++ hintRest after) = after := by
  have hbody : hintBody after <+: after.drop hintHead.length := List.takeWhile_prefix _
  rw [hintRest, List.prefix_iff_eq_append.mp hbody]
  exact List.prefix_iff_eq_append.mp h

/-- Hints fit in one way. -/
theorem hint_isPlain : hint.IsPlain hintFit where
  run_eq := run_hint
  pos := by
    intro prev after n h
    simp only [hintFit, Option.ite_none_right_eq_some, Option.some.injEq] at h
    have hlength : hintHead.length = 8 := rfl
    omega
  le := by
    intro prev after n h
    simp only [hintFit, Option.ite_none_right_eq_some, Option.some.injEq, Bool.and_eq_true,
      List.isPrefixOf_iff_prefix] at h
    obtain ⟨⟨hhead, more, hmore⟩, rfl⟩ := h
    have hlength := congrArg List.length (hintHead_append_eq hhead)
    have hdrop : (hintRest after).drop 2 = more := by
      rw [← hmore]
      rfl
    rw [← hmore] at hlength
    simp only [List.length_append, List.length_cons, List.length_nil] at hlength
    rw [hdrop]
    cases more with
    | nil => simp; omega
    | cons c more =>
      rw [List.length_cons] at hlength
      split <;> omega

/-- Stripping hints is one walk over the text. -/
theorem stripHints_eq (t : Text) : stripHints t = swapFits hintFit [] none 0 t :=
  hint_isPlain.replace_eq [] t

/-- What stands before the text makes no difference to its hints. -/
theorem swapFits_hintFit (prev : Option Char) (t : Text) :
    swapFits hintFit [] prev 0 t = stripHints t := by
  rw [stripHints_eq]
  cases t <;> rfl

/-- A text without hints at its start keeps its first character. -/
theorem stripHints_cons {c : Char} {t : Text} (h : ¬ hintHead <+: c :: t) :
    stripHints (c :: t) = c :: stripHints t := by
  have hfit : hintFit none (c :: t) = none := by
    rw [hintFit, if_neg]
    simp only [Bool.and_eq_true, List.isPrefixOf_iff_prefix]
    exact fun hp => h hp.1
  rw [stripHints_eq, swapFits, hfit]
  dsimp only
  rw [swapFits_hintFit]

/-- A hint with a blank or line break after it comes off. -/
theorem stripHints_hint {body : Text} (hbody : ∀ c ∈ body, outside (among "*") c = true) {b : Char}
    (hb : among " \n" b = true) (t : Text) :
    stripHints (hintHead ++ (body ++ '*' :: '/' :: b :: t)) = stripHints t := by
  have htake : hintBody (hintHead ++ (body ++ '*' :: '/' :: b :: t)) = body := by
    rw [hintBody, List.drop_left, List.takeWhile_append_of_pos hbody]
    have hstar : outside (among "*") '*' = false := by decide
    rw [List.takeWhile_cons, hstar]
    simp
  have hrest : hintRest (hintHead ++ (body ++ '*' :: '/' :: b :: t)) = '*' :: '/' :: b :: t := by
    rw [hintRest, htake, List.drop_left, List.drop_left]
  have hfit : hintFit none (hintHead ++ (body ++ '*' :: '/' :: b :: t)) =
      some (hintHead ++ (body ++ ['*', '/', b])).length := by
    rw [hintFit, htake, hrest, if_pos (by simp)]
    simp [hb]
  have hsplit : hintHead ++ (body ++ '*' :: '/' :: b :: t) =
      (hintHead ++ (body ++ ['*', '/', b])) ++ t := by simp
  have hcons : hintHead ++ (body ++ '*' :: '/' :: b :: t) =
      '/' :: (hintHead.tail ++ (body ++ '*' :: '/' :: b :: t)) := rfl
  rw [hcons] at hfit
  rw [stripHints_eq, hcons, hint_isPlain.swapFits_of_fit [] hfit, ← hcons, hsplit, List.drop_left,
    swapFits_hintFit, List.nil_append]

/-- The header of an optimized script comes off. -/
theorem stripHints_hintsHeader (level : Int) (t : Text) :
    stripHints (hintsHeader level ++ t) = stripHints t := by
  have hdigit {n : Nat} : ∀ c ∈ Text.ofNat n, outside (among "*") c = true := by
    intro c hc
    by_contra hstar
    obtain rfl : c = '*' := by simpa [outside, among] using hstar
    exact absurd (isDigit_of_mem_ofNat hc) (by decide)
  have hlevel : ∀ c ∈ Text.ofInt level, outside (among "*") c = true := by
    cases level with
    | ofNat n => exact hdigit
    | negSucc n => exact List.forall_mem_cons.mpr ⟨by decide, hdigit⟩
  have hwords : ∀ c ∈ ("hints level=" : Text), outside (among "*") c = true :=
    List.all_eq_true.mp (by decide)
  have hbody : ∀ c ∈ ("hints level=" : Text) ++ (Text.ofInt level ++ [' ']),
      outside (among "*") c = true :=
    List.forall_mem_append.mpr
      ⟨hwords, List.forall_mem_append.mpr ⟨hlevel, List.forall_mem_singleton.mpr (by decide)⟩⟩
  have hshape {a b w n : Text} (ha : a = hintHead ++ w) (hb : b = [' ', '*', '/', '\n']) :
      a ++ n ++ b ++ t = hintHead ++ (w ++ (n ++ [' ']) ++ '*' :: '/' :: '\n' :: t) := by
    rw [ha, hb]
    simp only [List.append_assoc, List.cons_append, List.nil_append]
  have hopen : ("/* @jit:hints level=" : Text) = hintHead ++ "hints level=" := by decide
  have hclose : (" */\n" : Text) = [' ', '*', '/', '\n'] := by decide
  have hheader : hintsHeader level ++ t = hintHead ++ (("hints level=" : Text) ++
      (Text.ofInt level ++ [' ']) ++ '*' :: '/' :: '\n' :: t) := hshape hopen hclose
  rw [hheader, stripHints_hint hbody (by decide)]

/-- The mark of a hot loop with the blank after it. -/
def loopMark : Text := hotLoopMark ++ [' ']

/-- The mark of a hot loop comes off. -/
theorem stripHints_loopMark (t : Text) : stripHints (loopMark ++ t) = stripHints t := by
  have hbody : ∀ c ∈ ("hot-loop " : Text), outside (among "*") c = true :=
    List.all_eq_true.mp (by decide)
  exact stripHints_hint hbody (by decide) t

/-- A text and the same text with marks of hot loops before some of its letters `f`. -/
inductive Annotated : Text → Text → Prop where
  | nil : Annotated [] []
  | copy (c : Char) {t u : Text} (rest : Annotated t u) : Annotated (c :: t) (c :: u)
  | mark {t u : Text} (rest : Annotated ('f' :: t) u) : Annotated ('f' :: t) (loopMark ++ u)

namespace Annotated

/-- A text may have no marks at all. -/
theorem refl (t : Text) : Annotated t t := by
  induction t with
  | nil => exact .nil
  | cons c t ih => exact .copy c ih

/-- The same text may stand before a text and the text with marks. -/
theorem append_left (x : Text) {t u : Text} (h : Annotated t u) : Annotated (x ++ t) (x ++ u) := by
  induction x with
  | nil => exact h
  | cons c x ih => exact .copy c ih

/-- Where a text with marks goes on without a slash, so does the text. -/
theorem prefix_of_prefix {t u w : Text} (h : Annotated t u) (hw : '/' ∉ w) (hu : w <+: u) :
    w <+: t := by
  induction h generalizing w with
  | nil => exact hu
  | copy c rest ih =>
    cases w with
    | nil => exact List.nil_prefix
    | cons d w =>
      obtain ⟨rfl, hwu⟩ := List.cons_prefix_cons.mp hu
      exact List.cons_prefix_cons.mpr ⟨rfl, ih (fun hd => hw (List.mem_cons_of_mem _ hd)) hwu⟩
  | @mark t u rest ih =>
    cases w with
    | nil => exact List.nil_prefix
    | cons d w =>
      have hslash : loopMark ++ u = '/' :: (loopMark.tail ++ u) := rfl
      rw [hslash] at hu
      obtain ⟨rfl, -⟩ := List.cons_prefix_cons.mp hu
      exact absurd (List.mem_cons_self ..) hw

/-- Stripping takes the marks off a text that opens no hint. -/
theorem stripHints_eq {t u : Text} (h : Annotated t u) (ht : ¬ hintHead <:+: t) :
    stripHints u = t := by
  have hopen : hintHead = '/' :: hintHead.tail := by decide
  have hslash : '/' ∉ hintHead.tail := by decide
  induction h with
  | nil =>
    rw [Optimize.stripHints_eq]
    rfl
  | @copy c t u rest ih =>
    have hhead : ¬ hintHead <+: c :: u := by
      intro hu
      -- Only the first character of the opening is a slash, and it is copied.
      rw [hopen] at hu
      obtain ⟨rfl, htail⟩ := List.cons_prefix_cons.mp hu
      apply ht
      rw [hopen]
      exact (List.cons_prefix_cons.mpr ⟨rfl, rest.prefix_of_prefix hslash htail⟩).isInfix
    rw [stripHints_cons hhead, ih fun hi => ht (hi.trans (List.suffix_cons c t).isInfix)]
  | @mark t u rest ih => rw [stripHints_loopMark, ih ht]

end Annotated

end HostScript.Optimize

/-!
## Marking hot loops adds marks only

Counted loops start with the letter `f`, and neither the mark of a hot loop nor that letter can be
part of the mark of a hidden span. So what is put before the loops of a masked script stays where it
is when the hidden spans come back, and nothing else changes.
-/

namespace HostScript.Optimize

open Pattern Script

namespace Annotated

/-- Marks of hot loops stand behind the characters of marks of hidden spans, never among them. -/
theorem takeWhile_isMarkPart {t u : Text} (h : Annotated t u) :
    t.takeWhile isMarkPart = u.takeWhile isMarkPart := by
  induction h with
  | nil => rfl
  | copy c rest ih => rw [List.takeWhile_cons, List.takeWhile_cons, ih]
  | @mark t u rest ih =>
    have hletter : isMarkPart 'f' = false := by decide
    have hslash : isMarkPart '/' = false := by decide
    have hcons : loopMark ++ u = '/' :: (loopMark.tail ++ u) := rfl
    rw [hcons, List.takeWhile_cons, List.takeWhile_cons, hletter, hslash]
    rfl

/-- The same marks of hidden spans are read from a text and from the text with marks. -/
theorem read?_eq {t u : Text} (h : Annotated t u) : Mark.read? t = Mark.read? u := by
  rw [← Mark.read?_takeWhile t, h.takeWhile_isMarkPart, Mark.read?_takeWhile]

/-- No mark of a hidden span is read from the mark of a hot loop. -/
theorem fillAll_loopMark (spans : List Text) (t : Text) :
    Masked.fillAll spans false 0 (loopMark ++ t) =
      (loopMark ++ ·) <$> Masked.fillAll spans false 0 t := by
  have hchars : ∀ c ∈ loopMark, ¬ isMarkPart c = true := List.any_eq_false.mp (by decide)
  apply Masked.fillAll_copy
  intro s hs hsuffix
  obtain ⟨c, s, rfl⟩ := List.exists_cons_of_ne_nil hs
  have hc := hchars c (hsuffix.subset (List.mem_cons_self ..))
  exact Mark.read?_cons_eq_none (Bool.eq_false_iff.mpr hc) (s ++ t)

/-- Filling in the hidden spans keeps the marks of hot loops where they are. -/
theorem fillAll {spans : List Text} {x y : Text} (h : Annotated x y) {skip : Nat}
    (hskip : 'f' ∉ x.take skip) {t u : Text} (ht : Masked.fillAll spans false skip x = .ok t)
    (hu : Masked.fillAll spans false skip y = .ok u) : Annotated t u := by
  -- The induction is on the marks; the characters to be skipped belong to the mark of a hidden
  -- span, so no loop starts among them.
  induction h generalizing skip t u with
  | nil =>
    rw [Masked.fillAll] at ht hu
    cases ht
    cases hu
    exact .nil
  | @copy c x y rest ih =>
    cases skip with
    | succ skip =>
      rw [Masked.fillAll] at ht hu
      rw [List.take_succ_cons] at hskip
      exact ih (fun hf => hskip (List.mem_cons_of_mem c hf)) ht hu
    | zero =>
      rw [Masked.fillAll] at ht hu
      rw [← (Annotated.copy c rest).read?_eq] at hu
      cases hread : Mark.read? (c :: x) with
      | none =>
        rw [hread] at ht hu
        obtain ⟨t, ht', rfl⟩ := Outcome.map_eq_ok_iff.mp ht
        obtain ⟨u, hu', rfl⟩ := Outcome.map_eq_ok_iff.mp hu
        exact .copy c (ih (by simp) ht' hu')
      | some m =>
        rw [hread] at ht hu
        obtain ⟨span, hspan, ht⟩ := Outcome.bind_eq_ok_iff.mp ht
        obtain ⟨t', ht', ht⟩ := Outcome.bind_eq_ok_iff.mp ht
        obtain ⟨span', hspan', hu⟩ := Outcome.bind_eq_ok_iff.mp hu
        obtain ⟨u', hu', hu⟩ := Outcome.bind_eq_ok_iff.mp hu
        cases ht
        cases hu
        obtain rfl : span = span' := Except.ok.inj (hspan.symm.trans hspan')
        have hletter : 'f' ∉ x.take (m.length - 1) :=
          fun hf => absurd (Mark.isMarkPart_of_mem_take hread _ hf) (by decide)
        exact append_left span (ih hletter ht' hu')
  | @mark x y rest ih =>
    cases skip with
    | succ skip => exact absurd (List.mem_cons_self ..) hskip
    | zero =>
      rw [fillAll_loopMark] at hu
      obtain ⟨u, hu', rfl⟩ := Outcome.map_eq_ok_iff.mp hu
      have hrest := ih hskip ht hu'
      have hletter : Mark.read? ('f' :: x) = none := Mark.read?_cons_eq_none (by decide) x
      rw [Masked.fillAll, hletter] at ht
      obtain ⟨t, -, rfl⟩ := Outcome.map_eq_ok_iff.mp ht
      exact .mark hrest

end Annotated

/-- A counted loop starts with the letter `f`. -/
theorem head?_of_run_countedLoop {k : Cursor → Option Cursor} {c e : Cursor}
    (h : countedLoop.run k c = some e) : c.after.head? = some 'f' := by
  have hfor : lit "for" = Pattern.text ['f', 'o', 'r'] := rfl
  simp only [countedLoop, run_seq] at h
  rw [Pattern.fresh, run_notAfter] at h
  obtain ⟨-, h⟩ := Option.ite_none_left_eq_some.mp h
  rw [hfor, run_text] at h
  obtain ⟨hpre, -⟩ := Option.ite_none_right_eq_some.mp h
  obtain ⟨rest, hrest⟩ := List.isPrefixOf_iff_prefix.mp hpre
  rw [← hrest]
  rfl

/-- A mark put before the first letter of a loop. -/
def MarksLoop (old new : Text) : Prop := old = ['f'] ∧ new = loopMark ++ ['f']

/-- Texts that differ by such marks. -/
theorem annotated_of_rewrites {t u : Text} (h : Rewrites MarksLoop t u) : Annotated t u := by
  induction h with
  | nil => exact .nil
  | copy c _ ih => exact .copy c ih
  | swap h _ ih =>
    obtain ⟨rfl, rfl⟩ := h
    rw [List.append_assoc]
    exact .mark (.copy 'f' ih)

/-- A counted loop may get a mark before its first letter. -/
theorem rewords_countedLoop {x : Text} {loop : Match} (hloop : loop ∈ countedLoop.allIn x) :
    Rewords MarksLoop loop (loopMark ++ loop.text) := by
  obtain ⟨subject, stop, length, k, e, hrun⟩ := (fitsFrom_allIn countedLoop x).of_mem hloop
  obtain ⟨gs, hspells, -⟩ := spells_of_mem_allIn hloop
  have hsplit : x.drop loop.start = loop.text ++ loop.after := by
    rw [Match.text, Match.after, subject, Text.slice_append_drop stop length]
  have hhead : (x.drop loop.start).head? = some 'f' := head?_of_run_countedLoop hrun
  rw [hsplit, List.head?_append_of_ne_nil _ (hspells.ne_nil rfl)] at hhead
  obtain ⟨rest, hrest⟩ := List.head?_eq_some_iff.mp hhead
  refine Or.inr ⟨?_, ['f'], loopMark ++ ['f'], rest, hrest, by rw [hrest]; simp, rfl, rfl⟩
  simp only [countedLoop, run_seq] at hrun
  rw [Match.before, subject]
  exact apart_of_run_fresh hrun _

/-- Marking loops in a text, where no mark is put twice, adds marks before their first letters. -/
theorem reworded_of_markLoops {m : Masked} {x y : Text}
    (h : countedLoop.replaceM (fun loop => do
      let marked ← isMarked m loop.before
      pure (if marked then loop.text else hotLoopMark ++ [' '] ++ loop.text)) x = .ok y) :
    Reworded MarksLoop none x y := by
  refine reworded_of_replaceM (fun loop hloop v hv => ?_) h
  obtain ⟨marked, -, hv⟩ := Outcome.bind_eq_ok_iff.mp hv
  cases marked with
  | true => exact Or.inl (Except.ok.inj hv).symm
  | false => exact Except.ok.inj hv ▸ rewords_countedLoop hloop

/-- Marking hot loops adds marks to the script that its masked form stands for. -/
theorem annotated_of_loopRecognition {code t u : Text} (ht : (mask .all code).restore = .ok t)
    (hu : loopRecognition code = .ok u) : Annotated t u := by
  rw [loopRecognition] at hu
  obtain ⟨y, hy, hu⟩ := Outcome.bind_eq_ok_iff.mp hu
  exact (annotated_of_rewrites (reworded_of_markLoops hy).toRewrites).fillAll (by simp) ht hu

end HostScript.Optimize
