import HostScript.Proofs.Outcome
import HostScript.Proofs.Pattern.Covered
import HostScript.Proofs.Script.Layout

/-!
# Rewording a masked script

The mark of a hidden literal or comment consists of identifier characters and starts and ends with
underscores. A place between two characters that are not both part of a name is therefore no place
inside a mark, and a stretch without underscores that starts at such a place is code throughout.
Swapping such stretches in the shown text of a script edits its gaps only.
-/

namespace HostScript.Script

open Pattern

/-- A place that does not divide a name, from the character before it and the text after it. -/
def Apart (prev : Option Char) (after : Text) : Prop :=
  ¬ (prev.any isIdentPart = true ∧ after.head?.any isIdentPart = true)

theorem Apart.of_endsIn {x y : Text} (hx : endsIn isIdentPart x = false) :
    Apart x.getLast? y := by
  rintro ⟨hprev, -⟩
  rw [← endsIn, hx] at hprev
  cases hprev

theorem Apart.of_startsIn {prev : Option Char} {x : Text} (hx : startsIn isIdentPart x = false) :
    Apart prev x := by
  rintro ⟨-, hnext⟩
  rw [← startsIn, hx] at hnext
  cases hnext

/-- Texts that differ by stretches swapped at places that do not divide a name; `prev` is the
character before the texts. -/
inductive Reworded (swaps : Text → Text → Prop) : Option Char → Text → Text → Prop
  /-- Nothing is left. -/
  | nil (prev : Option Char) : Reworded swaps prev [] []
  /-- A character is kept. -/
  | copy {prev : Option Char} (c : Char) {t u : Text} (rest : Reworded swaps (some c) t u) :
    Reworded swaps prev (c :: t) (c :: u)
  /-- A stretch is swapped for another one. -/
  | swap {prev : Option Char} {old new t u : Text} (apart : Apart prev (old ++ t))
    (h : swaps old new) (rest : Reworded swaps (old.getLast?.or prev) t u) :
    Reworded swaps prev (old ++ t) (new ++ u)

variable {swaps : Text → Text → Prop}

namespace Reworded

theorem refl (prev : Option Char) (t : Text) : Reworded swaps prev t t := by
  induction t generalizing prev with
  | nil => exact .nil prev
  | cons c t ih => exact .copy c (ih (some c))

/-- A stretch may be kept before a rewording. -/
theorem append_left (x : Text) {prev : Option Char} {t u : Text}
    (h : Reworded swaps (x.getLast?.or prev) t u) : Reworded swaps prev (x ++ t) (x ++ u) := by
  induction x generalizing prev with
  | nil => exact h
  | cons c x ih =>
    refine .copy c (ih ?_)
    rw [List.getLast?_cons] at h
    cases hx : x.getLast? <;> simpa [hx] using h

/-- A stretch may be put in at a place that does not divide a name. -/
theorem insert {prev : Option Char} {new t u : Text} (hapart : Apart prev t) (h : swaps [] new)
    (rest : Reworded swaps prev t u) : Reworded swaps prev t (new ++ u) :=
  @swap swaps prev [] new t u hapart h rest

/-- The same texts differ by swapped stretches, wherever these start. -/
theorem toRewrites {prev : Option Char} {t u : Text} (h : Reworded swaps prev t u) :
    Rewrites swaps t u := by
  induction h with
  | nil => exact .nil
  | copy c _ ih => exact .copy c ih
  | swap _ h _ ih => exact .swap h ih

end Reworded

/-- What pieces show as a text without underscores and whatever follows it, starts with that text
in code. -/
theorem exists_spelled_append {i : Nat} {ps : List Piece} (hw : ∀ p ∈ ps, p.IsWhole) {n t : Text}
    (hn : '_' ∉ n) (h : (Piece.assemble i ps).1 = n ++ t) :
    ∃ qs, ps = spelled n ++ qs ∧ (Piece.assemble i qs).1 = t := by
  induction n generalizing ps with
  | nil => exact ⟨ps, rfl, h⟩
  | cons c n ih =>
    rw [List.mem_cons, not_or] at hn
    cases ps with
    | nil => simp at h
    | cons p ps =>
      rw [List.forall_mem_cons] at hw
      cases hw.1 with
      | code d =>
        rw [Piece.assemble_code, List.cons_append] at h
        obtain ⟨rfl, hrest⟩ := List.cons.inj h
        obtain ⟨qs, rfl, hqs⟩ := ih hw.2 hn.2 hrest
        exact ⟨qs, rfl, hqs⟩
      | @hidden kind d span hk _ =>
        obtain ⟨m, hm⟩ := SpanKind.exists_mark_eq hk i
        rw [Piece.assemble_hidden, hm] at h
        exact absurd (List.cons.inj h).1 hn.1

/-- Swapping stretches of what pieces show swaps stretches of their code. In front of the pieces,
`z` is the rest of a mark. -/
theorem Reworded.rewrites (hold : ∀ old new, swaps old new → '_' ∉ old) {prev : Option Char}
    {t u : Text} (h : Reworded swaps prev t u) {i : Nat} {ps : List Piece}
    (hw : ∀ p ∈ ps, p.IsWhole) {z : Text} (hz : ∀ c ∈ z, isIdentPart c = true)
    (hprev : z ≠ [] → prev.any isIdentPart = true) (ht : t = z ++ (Piece.assemble i ps).1) :
    ∃ qs, Rewrites (Respells swaps) ps qs ∧ u = z ++ (Piece.assemble i qs).1 := by
  induction h generalizing i ps z with
  | nil =>
    obtain ⟨rfl, hps⟩ := List.append_eq_nil_iff.mp ht.symm
    have hnil : ps = [] := by
      by_contra hne
      exact assemble_ne_nil hw hne i hps
    subst hnil
    exact ⟨[], .nil, rfl⟩
  | @copy prev c t u rest ih =>
    cases z with
    | cons d z =>
      -- The character goes on with a mark.
      obtain ⟨rfl, hrest⟩ := List.cons.inj ht
      rw [List.forall_mem_cons] at hz
      obtain ⟨qs, hqs, hu⟩ := ih hw hz.2 (fun _ => hz.1) hrest
      exact ⟨qs, hqs, by rw [hu, List.cons_append]⟩
    | nil =>
      cases ps with
      | nil => simp at ht
      | cons p ps =>
        rw [List.forall_mem_cons] at hw
        cases hw.1 with
        | code d =>
          rw [List.nil_append, Piece.assemble_code] at ht
          obtain ⟨rfl, hrest⟩ := List.cons.inj ht
          obtain ⟨qs, hqs, hu⟩ :=
            ih hw.2 (List.forall_mem_nil _) (fun hne => absurd rfl hne) hrest
          exact ⟨.code c :: qs, .copy _ hqs, by rw [hu]; rfl⟩
        | @hidden kind d span hk hd =>
          -- The character starts a mark.
          have hmark : ∀ c ∈ kind.mark i, isIdentPart c = true :=
            fun c => isIdentPart_of_mem_mark hk
          obtain ⟨e, m, hm⟩ := List.exists_cons_of_ne_nil (kind.mark_ne_nil i)
          rw [List.nil_append, Piece.assemble_hidden, hm] at ht
          obtain ⟨rfl, hrest⟩ := List.cons.inj ht
          rw [hm, List.forall_mem_cons] at hmark
          obtain ⟨qs, hqs, hu⟩ := ih hw.2 hmark.2 (fun _ => hmark.1) hrest
          refine ⟨.hidden kind (d :: span) :: qs, .copy _ hqs, ?_⟩
          rw [hu, Piece.assemble_hidden, hm]
          rfl
  | @swap prev old new t u apart h rest ih =>
    have hnil : z = [] := by
      by_contra hne
      obtain ⟨c, z, rfl⟩ := List.exists_cons_of_ne_nil hne
      refine apart ⟨hprev hne, ?_⟩
      rw [ht]
      exact hz c (List.mem_cons_self ..)
    subst hnil
    obtain ⟨ps, rfl, hps⟩ := exists_spelled_append hw (hold old new h) ht.symm
    have hw' := fun p hp => hw p (List.mem_append_right _ hp)
    obtain ⟨qs, hqs, hu⟩ :=
      ih hw' (List.forall_mem_nil _) (fun hne => absurd rfl hne) hps.symm
    refine ⟨spelled new ++ qs, .swap ⟨old, new, h, rfl, rfl⟩ hqs, ?_⟩
    rw [hu, List.nil_append, List.nil_append,
      assemble_append_fst i fun _ => isWhole_of_mem_spelled, assemble_spelled, spansOf_spelled]
    rfl

/-- Swapping stretches without underscores for inert ones is one more edit of the gaps. -/
theorem ShowsEdit.reword {change change' : Text → Text → Prop} {code t u : Text}
    (h : ShowsEdit change code t) (hu : Reworded swaps none t u)
    (hold : ∀ old new, swaps old new → '_' ∉ old)
    (hnew : ∀ old new, swaps old new → IsInert new)
    (hcomp : ∀ a b c, change a b → Rewrites swaps b c → change' a c) :
    ShowsEdit change' code u := by
  obtain ⟨ps, hw, hunmarked, hedits, rfl⟩ := h
  obtain ⟨qs, hqs, rfl⟩ :=
    hu.rewrites hold hw (List.forall_mem_nil _) (fun hne => absurd rfl hne) (List.nil_append _).symm
  exact ⟨qs, hqs.isWhole hw, hqs.unmarked hnew hunmarked, hedits.trans hcomp hqs.edits, rfl⟩

/-- What may be put in place of a fit: its own text, or that text with a swapped beginning if the
fit does not start inside a name. -/
def Rewords (swaps : Text → Text → Prop) (m : Match) (v : Text) : Prop :=
  v = m.text ∨ Apart m.before.getLast? (m.text ++ m.after) ∧
    ∃ old new rest, m.text = old ++ rest ∧ v = new ++ rest ∧ swaps old new

/-- Whatever rewords the text behind a fit, rewords the text from the fit on. -/
theorem Rewords.append {m : Match} {v u : Text} (h : Rewords swaps m v)
    (hu : Reworded swaps (m.text.getLast?.or m.before.getLast?) m.after u) :
    Reworded swaps m.before.getLast? (m.text ++ m.after) (v ++ u) := by
  rcases h with rfl | ⟨hapart, old, new, rest, htext, rfl, hswap⟩
  · exact hu.append_left m.text
  · rw [htext, List.append_assoc] at hapart
    rw [htext, List.getLast?_append, Option.or_assoc] at hu
    rw [htext, List.append_assoc, List.append_assoc]
    exact .swap hapart hswap (hu.append_left rest)

/-- Putting such texts in place of fits rewords a text. -/
theorem reworded_of_spliceM {p : Pattern} {x : Text} {f : Match → Outcome Text} {pos : Nat}
    {ms : List Match} (hms : FitsFrom p x pos ms)
    (hf : ∀ m ∈ ms, ∀ v, f m = .ok v → Rewords swaps m v) {y : Text}
    (h : spliceM x f pos ms = .ok y) : Reworded swaps (x.take pos).getLast? (x.drop pos) y := by
  induction hms generalizing y with
  | nil =>
    rw [spliceM] at h
    cases h
    exact .refl _ _
  | @cons pos m ms subject start stop length runs rest ih =>
    rw [spliceM] at h
    obtain ⟨v, hv, h⟩ := Outcome.bind_eq_ok_iff.mp h
    obtain ⟨tail, htail, h⟩ := Outcome.bind_eq_ok_iff.mp h
    cases h
    rw [List.forall_mem_cons] at hf
    have hloop : x.drop m.start = m.text ++ x.drop m.stop := by
      rw [Match.text, subject, Text.slice_append_drop stop length]
    have hgap : x.drop pos = x.slice pos m.start ++ x.drop m.start :=
      (Text.slice_append_drop start (stop.trans length)).symm
    have hlast {i j : Nat} (hij : i ≤ j) :
        (x.slice i j).getLast?.or (x.take i).getLast? = (x.take j).getLast? := by
      rw [Text.take_eq_append_slice hij, List.getLast?_append]
    have hrest := ih hf.2 htail
    have htext : m.text = x.slice m.start m.stop := by rw [Match.text, subject]
    have hbefore : m.before = x.take m.start := by rw [Match.before, subject]
    have hafter : m.after = x.drop m.stop := by rw [Match.after, subject]
    rw [← hlast stop, ← htext, ← hbefore, ← hafter] at hrest
    have hfit := (hf.1 v hv).append hrest
    rw [hgap, List.append_assoc]
    apply Reworded.append_left
    rw [hlast start, hloop, ← hbefore, ← hafter]
    exact hfit

/-- Replacing fits by such texts rewords a text. -/
theorem reworded_of_replaceM {p : Pattern} {x y : Text} {f : Match → Outcome Text}
    (hf : ∀ m ∈ p.allIn x, ∀ v, f m = .ok v → Rewords swaps m v)
    (h : p.replaceM f x = .ok y) : Reworded swaps none x y :=
  reworded_of_spliceM (fitsFrom_allIn p x) hf h

/-- Replacing fits by such texts, where no step can fail, rewords a text. -/
theorem reworded_replace {p : Pattern} {x : Text} {f : Match → Text}
    (hf : ∀ m ∈ p.allIn x, Rewords swaps m (f m)) : Reworded swaps none x (p.replace f x) := by
  refine reworded_of_replaceM (fun m hm v hv => ?_) (replaceM_ok p f x)
  exact Except.ok.inj hv ▸ hf m hm

/-- A fit that is not to start inside a longer name starts behind no name. -/
theorem endsIn_of_run_fresh {t : Text} {i : Nat} {k : Cursor → Option Cursor} {e : Cursor}
    (h : fresh.run k (placeAt t i) = some e) : endsIn isIdentPart (t.take i) = false := by
  rw [fresh, run_notAfter] at h
  obtain ⟨h, -⟩ := Option.ite_none_left_eq_some.mp h
  rw [← Bool.not_eq_true, endsIn]
  intro hprev
  apply h
  rw [placeAt]
  dsimp only
  rw [List.head?_reverse]
  cases hc : (t.take i).getLast? with
  | none => simp [hc] at hprev
  | some c =>
    rw [hc, Option.any_some] at hprev
    change (isWord c || among "$." c) = true
    simp only [isIdentPart, Bool.or_eq_true, beq_iff_eq] at hprev
    rcases hprev with hprev | rfl
    · rw [hprev, Bool.true_or]
    · decide

/-- Such a place does not divide a name. -/
theorem apart_of_run_fresh {t : Text} {i : Nat} {k : Cursor → Option Cursor} {e : Cursor}
    (h : fresh.run k (placeAt t i) = some e) (after : Text) : Apart (t.take i).getLast? after :=
  .of_endsIn (endsIn_of_run_fresh h)

end HostScript.Script

/-!
## Places of a masked script

A mark is longer or shorter than the span that it stands for and holds no line break, so an offset
of the masked text is in general no offset of the script, and a line counted in the masked text
lacks the line breaks of the spans that are hidden before it. A text that shows in the masked
script stands in the script itself if it cannot start in a mark and has no underscore, because a
mark starts with one.
-/

namespace HostScript.Script

variable {ps : List Piece} {i : Nat} {c : Char} {w u v : Text}

/-! ### Characters of marks -/

/-- Whether a character occurs in marks of literals and comments. -/
def isMarkChar (c : Char) : Bool := c.isDigit || "_JSLITCOM".toList.contains c

theorem isMarkChar_of_mem_mark {kind : SpanKind} (hk : kind ≠ .chunk) (hc : c ∈ kind.mark i) :
    isMarkChar c = true := by
  have hends : kind.markStart.all isMarkChar = true ∧ kind.markStop.all isMarkChar = true := by
    cases kind with
    | literal => decide
    | comment => decide
    | chunk => exact absurd rfl hk
  rw [SpanKind.mark, List.mem_append, List.mem_append] at hc
  rcases hc with (hc | hc) | hc
  · exact List.all_eq_true.mp hends.1 c hc
  · rw [isMarkChar, isDigit_of_mem_ofNat hc, Bool.true_or]
  · exact List.all_eq_true.mp hends.2 c hc

/-- The mark of a literal or comment ends with an underscore. -/
theorem getLast?_mark {kind : SpanKind} (hk : kind ≠ .chunk) (i : Nat) :
    (kind.mark i).getLast? = some '_' := by
  cases kind with
  | literal => simp [SpanKind.mark, SpanKind.markStop]
  | comment => simp [SpanKind.mark, SpanKind.markStop]
  | chunk => exact absurd rfl hk

/-! ### Texts that show -/

/-- Pieces that show a text which neither starts in a mark nor has an underscore spell it behind
those that show what is before. -/
theorem exists_append_spelled (hw : ∀ p ∈ ps, p.IsWhole) (hplain : '_' ∉ w)
    (hstart : w.head?.all isMarkChar = false) (h : (Piece.assemble i ps).1 = u ++ (w ++ v)) :
    ∃ before after, ps = before ++ (spelled w ++ after) ∧ (Piece.assemble i before).1 = u := by
  induction ps generalizing i u with
  | nil =>
    have hnil : w = [] := by simp_all
    simp [hnil] at hstart
  | cons p ps ih =>
    have hps : ∀ q ∈ ps, q.IsWhole := fun q hq => hw q (List.mem_cons_of_mem _ hq)
    cases u with
    | nil =>
      obtain ⟨after, hafter, -⟩ := exists_spelled_append hw hplain h
      exact ⟨[], after, hafter, rfl⟩
    | cons a u =>
      cases hw p (List.mem_cons_self ..) with
      | code c =>
        obtain ⟨rfl, hrest⟩ := List.cons.inj h
        obtain ⟨before, after, rfl, hbefore⟩ := ih hps hrest
        exact ⟨.code c :: before, after, rfl, by rw [Piece.assemble_code, hbefore]⟩
      | @hidden kind c span hk hc =>
        rw [Piece.assemble_hidden] at h
        -- the mark either lies in what is before or reaches into the text
        rcases List.append_eq_append_iff.mp h with ⟨u', hu, hrest⟩ | ⟨m, hm, hrest⟩
        · obtain ⟨before, after, rfl, hbefore⟩ := ih hps hrest
          refine ⟨.hidden kind (c :: span) :: before, after, rfl, ?_⟩
          rw [Piece.assemble_hidden, hbefore, hu]
        · cases m with
          | nil =>
            obtain ⟨before, after, rfl, hbefore⟩ := ih (u := []) hps hrest.symm
            refine ⟨.hidden kind (c :: span) :: before, after, rfl, ?_⟩
            rw [Piece.assemble_hidden, hbefore, hm, List.append_nil, List.append_nil]
          | cons b m =>
            cases w with
            | nil => simp at hstart
            | cons d w =>
              obtain ⟨rfl, -⟩ := List.cons.inj hrest
              have hmark : isMarkChar d = true :=
                isMarkChar_of_mem_mark hk (by rw [hm]; simp)
              simp [hmark] at hstart

/-! ### Line breaks -/

/-- What pieces show lacks the line breaks of their hidden spans, and no others. -/
theorem count_assemble (hw : ∀ p ∈ ps, p.IsWhole) (i : Nat) :
    List.count '\n' (Piece.assemble i ps).1 + List.count '\n' (spansOf ps).flatten =
      List.count '\n' (sources ps) := by
  induction ps generalizing i with
  | nil => rfl
  | cons p ps ih =>
    have hps := fun j => ih (fun q hq => hw q (List.mem_cons_of_mem _ hq)) j
    cases hw p (List.mem_cons_self ..) with
    | code c =>
      rw [Piece.assemble_code, spansOf_code, sources_cons, Piece.source, List.singleton_append,
        List.count_cons, List.count_cons, ← hps i]
      omega
    | @hidden kind c span hk hc =>
      have hmark : List.count '\n' (kind.mark i) = 0 := by
        refine List.count_eq_zero.mpr fun hmem => ?_
        exact absurd (isMarkChar_of_mem_mark hk hmem) (by decide)
      rw [Piece.assemble_hidden, spansOf_hidden, sources_cons, Piece.source, List.count_append,
        List.flatten_cons, List.count_append, List.count_append, ← hps (i + 1), hmark]
      omega

/-- The hidden spans of pieces that start before an offset of what the pieces stand for. -/
def spansBefore : (offset : Nat) → List Piece → List Text
  | 0, _ => []
  | _ + 1, [] => []
  | n + 1, p :: ps => spansOf [p] ++ spansBefore (n + 1 - p.source.length) ps

/-- The spans before some pieces are those of the pieces before them. -/
theorem spansBefore_append {before : List Piece} (hw : ∀ p ∈ before, p.IsWhole)
    (after : List Piece) :
    spansBefore (sources before).length (before ++ after) = spansOf before := by
  induction before with
  | nil =>
    rw [sources_nil, List.length_nil, spansBefore, spansOf_nil]
  | cons p before ih =>
    rw [List.forall_mem_cons] at hw
    obtain ⟨n, hn⟩ : ∃ n, (sources (p :: before)).length = n + 1 := by
      have hpos := List.length_pos_of_ne_nil hw.1.source_ne_nil
      rw [sources_cons, List.length_append]
      exact ⟨_, (Nat.succ_pred_eq_of_pos (by omega)).symm⟩
    have hrest : n + 1 - p.source.length = (sources before).length := by
      rw [← hn, sources_cons, List.length_append, Nat.add_sub_cancel_left]
    rw [hn, List.cons_append, spansBefore, hrest, ih hw.2, ← spansOf_append,
      List.singleton_append]

/-! ### Places -/

/-- The literals and comments of a script that start before an offset. -/
def hiddenBefore (code : Text) (o : Nat) : List Text := spansBefore o (cut [] code)

/-- A text stands at an offset of a script, outside literals and comments, and shows at an offset
of the masked script. -/
def ShowsAt (code w : Text) (o i : Nat) : Prop :=
  ∃ before after, cut [] code = before ++ (spelled w ++ after) ∧
    (sources before).length = o ∧ (Piece.assemble 0 before).1.length = i

variable {code : Text} {o : Nat}

theorem isWhole_of_append {before after : List Piece} (h : cut [] code = before ++ after) :
    ∀ p ∈ before, p.IsWhole := by
  intro p hp
  have hmem : p ∈ cut [] code := by
    rw [h]
    exact List.mem_append_left _ hp
  exact isWhole_of_mem_cut hmem

/-- A text of the masked script that neither starts in a mark nor has an underscore stands in the
script. -/
theorem exists_showsAt (hplain : '_' ∉ w) (hstart : w.head?.all isMarkChar = false)
    (h : (mask .all code).text = u ++ (w ++ v)) : ∃ o, ShowsAt code w o u.length := by
  rw [mask_eq, pieces_all] at h
  obtain ⟨before, after, hcut, hbefore⟩ :=
    exists_append_spelled (fun _ => isWhole_of_mem_cut) hplain hstart h
  exact ⟨_, before, after, hcut, rfl, by rw [hbefore]⟩

/-- A text that stands in the script as code shows in the masked script. -/
theorem ShowsAt.mask_eq (h : ShowsAt code w o i) :
    ∃ u v, (mask .all code).text = u ++ (w ++ v) ∧ u.length = i := by
  obtain ⟨before, after, hcut, -, hi⟩ := h
  rw [Script.mask_eq, pieces_all, hcut]
  refine ⟨(Piece.assemble 0 before).1,
    (Piece.assemble (0 + (spansOf before).length + (spansOf (spelled w)).length) after).1, ?_, hi⟩
  rw [assemble_append_fst 0 (isWhole_of_append hcut),
    assemble_append_fst _ (fun _ => isWhole_of_mem_spelled), assemble_spelled]

/-- Where a text stands in the script. -/
theorem ShowsAt.code_eq (h : ShowsAt code w o i) :
    ∃ u v, code = u ++ (w ++ v) ∧ u.length = o := by
  obtain ⟨before, after, hcut, ho, -⟩ := h
  have hcode := sources_cut [] code
  rw [hcut, sources_append, sources_append, sources_spelled] at hcode
  exact ⟨sources before, sources after, hcode.symm, ho⟩

/-- The line breaks before a place of the masked script and those that are hidden before it are the
line breaks before its place in the script. -/
theorem ShowsAt.count_take (h : ShowsAt code w o i) :
    List.count '\n' ((mask .all code).text.take i) + List.count '\n' (hiddenBefore code o).flatten =
      List.count '\n' (code.take o) := by
  obtain ⟨before, after, hcut, rfl, rfl⟩ := h
  have hwhole := isWhole_of_append hcut
  have hcode := sources_cut [] code
  rw [hcut, sources_append] at hcode
  rw [Script.mask_eq, pieces_all, hiddenBefore, hcut, assemble_append_fst 0 hwhole,
    List.take_left, spansBefore_append hwhole, count_assemble hwhole, ← hcode, List.take_left]

/-- If no character of a set with the underscore stands right before a place of the masked script,
none does so in the script. -/
theorem ShowsAt.head?_any {s : CharSet} (hs : s '_' = true) (h : ShowsAt code w o i)
    (hfree : ((mask .all code).text.take i).reverse.head?.any s = false) :
    (code.take o).reverse.head?.any s = false := by
  obtain ⟨before, after, hcut, rfl, rfl⟩ := h
  have hwhole := isWhole_of_append hcut
  have hcode := sources_cut [] code
  rw [hcut, sources_append] at hcode
  rw [Script.mask_eq, pieces_all, hcut, assemble_append_fst 0 hwhole, List.take_left] at hfree
  rw [← hcode, List.take_left]
  rw [List.head?_reverse] at hfree ⊢
  induction before using List.reverseRecOn with
  | nil => rfl
  | append_singleton before p _ =>
    have hp := hwhole p (List.mem_append_right _ (List.mem_singleton_self p))
    rw [assemble_append_fst 0 fun q hq => hwhole q (List.mem_append_left _ hq)] at hfree
    cases hp with
    | code c =>
      rw [sources_append]
      simpa [Piece.source] using hfree
    | @hidden kind c span hk hc =>
      rw [Piece.assemble_hidden, Piece.assemble_nil, List.append_nil, List.getLast?_append,
        getLast?_mark hk] at hfree
      simp [hs] at hfree

end HostScript.Script
