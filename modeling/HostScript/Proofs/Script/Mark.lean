import HostScript.Proofs.Script.Layout
import HostScript.Proofs.Script.Restore

/-!
# How far a mark reaches

Reading a mark looks at no more of a text than the stretch of characters that can be part of a
mark. Whatever is written behind that stretch, the same mark is read.
-/

namespace HostScript.Script

/-- The characters of marks. -/
def isMarkPart : CharSet := isDigit ||| among "_JSLITCOMP\x03\x04"

/-- A digit can be part of a mark. -/
theorem isMarkPart_of_isDigit {c : Char} (h : isDigit c = true) : isMarkPart c = true := by
  change (isDigit c || among "_JSLITCOMP\x03\x04" c) = true
  rw [h, Bool.true_or]

/-- The opening of a mark consists of characters of marks. -/
theorem SpanKind.isMarkPart_markStart (kind : SpanKind) :
    ∀ c ∈ kind.markStart, isMarkPart c = true := by
  rw [← List.all_eq_true]
  cases kind <;> decide

/-- The end of a mark consists of characters of marks. -/
theorem SpanKind.isMarkPart_markStop (kind : SpanKind) :
    ∀ c ∈ kind.markStop, isMarkPart c = true := by
  rw [← List.all_eq_true]
  cases kind <;> decide

/-- A stretch that stays within a set stands at the start of a text exactly when it stands at the
start of the text's own stretch. -/
theorem prefix_takeWhile_iff {p : Char → Bool} {w : Text} (hw : ∀ c ∈ w, p c = true) (t : Text) :
    w <+: t.takeWhile p ↔ w <+: t := by
  constructor
  · exact fun h => h.trans (List.takeWhile_prefix p)
  · rintro ⟨rest, rfl⟩
    rw [List.takeWhile_append_of_pos hw]
    exact List.prefix_append _ _

namespace Mark

/-- The text of a mark. -/
def source (m : Mark) : Text := m.kind.markStart ++ (m.digits ++ m.kind.markStop)

/-- A mark as it can stand in a text. -/
structure IsSound (m : Mark) : Prop where
  ne_nil : m.digits ≠ []
  isDigit : ∀ c ∈ m.digits, isDigit c = true
  length : m.length = m.source.length

/-- A mark consists of characters of marks. -/
theorem IsSound.isMarkPart {m : Mark} (h : m.IsSound) : ∀ c ∈ m.source, isMarkPart c = true := by
  intro c hc
  rw [source, List.mem_append, List.mem_append] at hc
  rcases hc with hc | hc | hc
  · exact m.kind.isMarkPart_markStart c hc
  · exact isMarkPart_of_isDigit (h.isDigit c hc)
  · exact m.kind.isMarkPart_markStop c hc

/-- What is read as a mark of a kind is such a mark at the start of the text. -/
theorem readKind?_eq_some_iff {kind : SpanKind} {t : Text} {m : Mark} :
    readKind? kind t = some m ↔ m.kind = kind ∧ m.IsSound ∧ m.source <+: t := by
  constructor
  · intro h
    rw [readKind?] at h
    obtain ⟨hstart, h⟩ := Option.ite_none_right_eq_some.mp h
    obtain ⟨hstop, h⟩ := Option.ite_none_right_eq_some.mp h
    obtain ⟨rest, rfl⟩ := List.isPrefixOf_iff_prefix.mp hstart
    rw [List.drop_left] at hstop h
    simp only [Bool.and_eq_true, Bool.not_eq_true', List.isPrefixOf_iff_prefix] at hstop
    obtain rfl := Option.some.inj h
    refine ⟨rfl, ⟨?_, ?_, ?_⟩, ?_⟩
    · exact List.isEmpty_eq_false_iff.mp hstop.1
    · exact List.all_eq_true.mp List.all_takeWhile
    · simp [source, Nat.add_assoc]
    · have hdigits : rest.takeWhile isDigit <+: rest := List.takeWhile_prefix _
      obtain ⟨more, hmore⟩ := hstop.2
      refine ⟨more, ?_⟩
      rw [source, List.append_assoc, List.append_assoc, hmore, List.prefix_iff_eq_append.mp hdigits]
  · -- What follows the number is no digit, so the digits of the text are those of the mark.
    rintro ⟨rfl, hm, rest, rfl⟩
    have hend : (m.kind.markStop ++ rest).takeWhile isDigit = [] := by
      cases hrest : m.kind.markStop ++ rest with
      | nil => rfl
      | cons c more => simp [m.kind.isDigit_markStop rest (c := c) (by rw [hrest]; rfl)]
    have hdigits : (m.digits ++ (m.kind.markStop ++ rest)).takeWhile isDigit = m.digits := by
      rw [List.takeWhile_append_of_pos hm.isDigit, hend, List.append_nil]
    have hshape : m.source ++ rest =
        m.kind.markStart ++ (m.digits ++ (m.kind.markStop ++ rest)) := by
      simp [source]
    have hlength : m.kind.markStart.length + m.digits.length + m.kind.markStop.length =
        m.length := by
      simp [hm.length, source, Nat.add_assoc]
    have hne : m.digits.isEmpty = false := List.isEmpty_eq_false_iff.mpr hm.ne_nil
    have hstart : m.kind.markStart.isPrefixOf
        (m.kind.markStart ++ (m.digits ++ (m.kind.markStop ++ rest))) = true := by simp
    have hstop : m.kind.markStop.isPrefixOf (m.kind.markStop ++ rest) = true := by simp
    simp only [readKind?, hshape, hstart, ite_true, List.drop_left, hdigits, hne, hstop,
      Bool.not_false, Bool.true_and, hlength]

/-- The same mark is read from the stretch of characters of marks alone. -/
theorem read?_takeWhile (t : Text) : read? (t.takeWhile isMarkPart) = read? t := by
  have hkind (kind : SpanKind) : readKind? kind (t.takeWhile isMarkPart) = readKind? kind t := by
    ext m
    rw [readKind?_eq_some_iff, readKind?_eq_some_iff]
    refine and_congr_right fun _ => and_congr_right fun hm => ?_
    exact prefix_takeWhile_iff hm.isMarkPart t
  simp only [read?, hkind]

/-- No mark is read at a character that is none of a mark. -/
theorem read?_cons_eq_none {c : Char} (h : isMarkPart c = false) (t : Text) :
    read? (c :: t) = none := by
  rw [← read?_takeWhile, List.takeWhile_cons, h]
  rfl

/-- What is read as a mark is one at the start of the text. -/
theorem of_read?_eq_some {t : Text} {m : Mark} (h : read? t = some m) :
    m.IsSound ∧ m.source <+: t := by
  have hkind {kind : SpanKind} (h : readKind? kind t = some m) : m.IsSound ∧ m.source <+: t :=
    (readKind?_eq_some_iff.mp h).2
  simp only [read?, Option.orElse_eq_orElse, Option.orElse_eq_or, Option.or_eq_some_iff] at h
  rcases h with h | ⟨-, h | ⟨-, h⟩⟩ <;> exact hkind h

/-- Behind its first character, a mark that is read covers characters of marks. -/
theorem isMarkPart_of_mem_take {c : Char} {t : Text} {m : Mark} (h : read? (c :: t) = some m) :
    ∀ d ∈ t.take (m.length - 1), isMarkPart d = true := by
  obtain ⟨hm, hpre⟩ := of_read?_eq_some h
  have htake : (c :: t).take m.length = m.source := by
    rw [hm.length]
    exact (List.prefix_iff_eq_take.mp hpre).symm
  intro d hd
  cases hlength : m.length with
  | zero => simp [hlength] at hd
  | succ n =>
    rw [hlength, List.take_succ_cons] at htake
    rw [hlength, Nat.add_sub_cancel] at hd
    apply hm.isMarkPart
    rw [← htake]
    exact List.mem_cons_of_mem c hd

end Mark

end HostScript.Script

/-!
## Where marks of comments are read

A mark ends in the two underscores that a mark starts with. So a text that reads like the mark of a
comment can also begin inside the mark of a hidden span and go on in the code behind it. Where no
code behind a span reads so, whatever reads like the mark of a comment is one.
-/

namespace HostScript.Script

/-- Code that reads like the rest of the mark of a comment, behind the end of another mark. -/
def GoesOnAsMark (g : Text) : Prop := "JSCOM_".toList <+: g ∨ "_JSCOM_".toList <+: g

instance : DecidablePred GoesOnAsMark :=
  fun g => inferInstanceAs (Decidable ("JSCOM_".toList <+: g ∨ "_JSCOM_".toList <+: g))

/-- A text that cannot start a mark before its end is code where pieces show it. -/
theorem prefix_lead_of_assemble {i : Nat} {ps : List Piece} (hw : ∀ p ∈ ps, p.IsWhole) {w : Text}
    (hpair : ¬ ['_', '_'] <:+: w) (hlast : w.getLast? ≠ some '_')
    (h : w <+: (Piece.assemble i ps).1) : w <+: (layoutOf ps).lead := by
  induction ps generalizing w with
  | nil => exact h
  | cons p ps ih =>
    rw [List.forall_mem_cons] at hw
    cases w with
    | nil => exact List.nil_prefix
    | cons c w =>
      cases hw.1 with
      | code d =>
        obtain ⟨rfl, hrest⟩ := List.cons_prefix_cons.mp h
        have hpair' : ¬ ['_', '_'] <:+: w := fun hi =>
          hpair (hi.trans (List.suffix_cons c w).isInfix)
        have hlast' : w.getLast? ≠ some '_' := by
          intro hl
          rw [List.getLast?_cons, hl] at hlast
          exact hlast rfl
        exact List.cons_prefix_cons.mpr ⟨rfl, ih hw.2 hpair' hlast' hrest⟩
      | @hidden kind d span hk _ =>
        -- A mark starts with two underscores, and the text has no more than one in a row.
        obtain ⟨m, hm⟩ := SpanKind.exists_mark_eq hk i
        rw [Piece.assemble_hidden, hm] at h
        obtain ⟨rfl, hrest⟩ := List.cons_prefix_cons.mp h
        cases w with
        | nil => exact absurd rfl hlast
        | cons e w =>
          obtain ⟨rfl, -⟩ := List.cons_prefix_cons.mp hrest
          exact absurd (List.prefix_append ['_', '_'] w).isInfix hpair

/-- The mark of a literal or comment holds the letter `J` in its opening only. -/
theorem SpanKind.mark_eq_opening {kind : SpanKind} (hk : kind ≠ .chunk) (i : Nat) :
    ∃ m, kind.mark i = '_' :: '_' :: 'J' :: m ∧ 'J' ∉ m := by
  have hdigits : 'J' ∉ Text.ofNat i := fun hJ => absurd (isDigit_of_mem_ofNat hJ) (by decide)
  cases kind with
  | chunk => exact absurd rfl hk
  | literal =>
    exact ⟨['S', 'L', 'I', 'T', '_'] ++ Text.ofNat i ++ ['_', '_'], rfl, by simp [hdigits]⟩
  | comment =>
    exact ⟨['S', 'C', 'O', 'M', '_'] ++ Text.ofNat i ++ ['_', '_'], rfl, by simp [hdigits]⟩

/-- What reads like the opening of a mark from inside a mark on begins with the end of that mark. -/
theorem SpanKind.rest_of_mark {kind : SpanKind} (hk : kind ≠ .chunk) {i : Nat} {u z t w : Text}
    (hmark : kind.mark i = u ++ z) (hu : u ≠ []) (hz : z ≠ [])
    (h : z ++ t = '_' :: '_' :: 'J' :: w) : t = '_' :: 'J' :: w ∨ t = 'J' :: w := by
  obtain ⟨m, hm, hJ⟩ := SpanKind.mark_eq_opening hk i
  rw [hm] at hmark
  match z, hz, h with
  | [_], _, h => exact Or.inl (List.cons.inj h).2
  | [_, _], _, h => exact Or.inr (List.cons.inj (List.cons.inj h).2).2
  | a :: b :: c :: z, _, h =>
    simp only [List.cons_append, List.cons.injEq] at h
    obtain ⟨rfl, rfl, rfl, -⟩ := h
    match u, hu, hmark with
    | [_], _, hmark => simp at hmark
    | [_, _], _, hmark => simp at hmark
    | _ :: _ :: _ :: u, _, hmark =>
      simp only [List.cons_append, List.cons.injEq] at hmark
      exact absurd (hmark.2.2.2 ▸ by simp) hJ

/-- The mark of a comment, character by character. -/
theorem Mark.source_eq {m : Mark} (hm : m.kind = .comment) :
    m.source =
      '_' :: '_' :: 'J' :: 'S' :: 'C' :: 'O' :: 'M' :: '_' :: (m.digits ++ ['_', '_']) := by
  rw [source, hm]
  rfl

section

variable {i : Nat} {ps : List Piece} {m : Mark} {u z t : Text}

/-- The code of a script does not start the mark of a comment. -/
theorem not_source_of_code (hw : ∀ p ∈ ps, p.IsWhole) {c : Char}
    (hu : Unmarked (c :: sources ps)) (hm : m.kind = .comment) :
    c :: (Piece.assemble i ps).1 ≠ m.source ++ t := by
  intro h
  rw [Mark.source_eq hm] at h
  obtain ⟨rfl, hrest⟩ := List.cons.inj h
  have hpre : ['_', 'J', 'S'] <+: (Piece.assemble i ps).1 := by
    rw [hrest]
    exact List.prefix_append ['_', 'J', 'S'] _
  have hsource := isPrefix_sources_of_assemble (fun q hq => (hw q hq).isFlat)
    List.suffix_rfl hpre
  exact hu.head (List.cons_prefix_cons.mpr ⟨rfl, hsource⟩).isInfix

/-- A hidden span that shows the mark of a comment is one with the number of the mark. -/
theorem eq_comment_of_mark {kind : SpanKind} (hm : m.kind = .comment) (hsound : m.IsSound)
    (h : kind.mark i ++ (Piece.assemble (i + 1) ps).1 = m.source ++ t) :
    kind = .comment ∧ m.digits = Text.ofNat i := by
  have hread : Mark.readKind? .comment (m.source ++ t) = some m :=
    Mark.readKind?_eq_some_iff.mpr ⟨hm, hsound, List.prefix_append _ _⟩
  by_cases hkind : kind = .comment
  · subst hkind
    rw [← h, Mark.readKind?_mark] at hread
    exact ⟨rfl, (congrArg Mark.digits (Option.some.inj hread)).symm⟩
  · -- The mark of a literal opens otherwise.
    have hstart : SpanKind.markStart .comment <+: m.source := by
      rw [Mark.source, hm]
      exact List.prefix_append _ _
    refine absurd ?_ (SpanKind.not_markStart_isPrefix_mark (Ne.symm hkind) i
      (Piece.assemble (i + 1) ps).1)
    rw [h]
    exact hstart.trans (List.prefix_append _ _)

/-- Where the mark of a comment reads from inside another mark on, the code behind that mark goes on
as one. -/
theorem goesOnAsMark_of_mark {kind : SpanKind} (hk : kind ≠ .chunk) (hw : ∀ p ∈ ps, p.IsWhole)
    (hm : m.kind = .comment) (hsound : m.IsSound) (hmark : kind.mark i = u ++ z) (hu : u ≠ [])
    (hz : z ≠ []) (h : z ++ (Piece.assemble (i + 1) ps).1 = m.source ++ t) :
    GoesOnAsMark (layoutOf ps).lead := by
  obtain ⟨a, d, had⟩ := List.exists_cons_of_ne_nil hsound.ne_nil
  have ha : a ≠ '_' := by
    rintro rfl
    exact absurd (hsound.isDigit '_' (had ▸ List.mem_cons_self ..)) (by decide)
  -- The first digit is no underscore, so up to it nothing can belong to a further mark.
  rw [Mark.source_eq hm, had] at h
  rcases SpanKind.rest_of_mark hk hmark hu hz h with hrest | hrest
  · have hshown : ['_', 'J', 'S', 'C', 'O', 'M', '_', a] <+: (Piece.assemble (i + 1) ps).1 := by
      rw [hrest]
      exact List.prefix_append ['_', 'J', 'S', 'C', 'O', 'M', '_', a] _
    have hlead := prefix_lead_of_assemble hw (by simp [List.infix_cons_iff, ha.symm])
      (by simpa) hshown
    exact Or.inr ((List.prefix_append ['_', 'J', 'S', 'C', 'O', 'M', '_'] [a]).trans hlead)
  · have hshown : ['J', 'S', 'C', 'O', 'M', '_', a] <+: (Piece.assemble (i + 1) ps).1 := by
      rw [hrest]
      exact List.prefix_append ['J', 'S', 'C', 'O', 'M', '_', a] _
    have hlead := prefix_lead_of_assemble hw (by simp [List.infix_cons_iff, ha.symm])
      (by simpa) hshown
    exact Or.inl ((List.prefix_append ['J', 'S', 'C', 'O', 'M', '_'] [a]).trans hlead)

/-- Where pieces show what reads like the mark of a comment, it is the mark of a hidden comment,
unless the code behind some span goes on as a mark. -/
theorem exists_hidden_of_commentMark (hw : ∀ p ∈ ps, p.IsWhole) (hu : Unmarked (sources ps))
    (hgaps : ∀ g ∈ (layoutOf ps).gaps.tail, ¬ GoesOnAsMark g) (hm : m.kind = .comment)
    (hsound : m.IsSound) (h : (Piece.assemble i ps).1 = u ++ (m.source ++ t)) :
    ∃ xs span ys, ps = xs ++ .hidden .comment span :: ys ∧ (Piece.assemble i xs).1 = u ∧
      (Piece.assemble (i + (spansOf xs).length + 1) ys).1 = t ∧
      m.digits = Text.ofNat (i + (spansOf xs).length) := by
  induction ps generalizing i u with
  | nil =>
    rw [Mark.source_eq hm] at h
    simp at h
  | cons p ps ih =>
    rw [List.forall_mem_cons] at hw
    have hups : Unmarked (sources ps) := hu.of_infix (List.suffix_append p.source _).isInfix
    cases hw.1 with
    | code c =>
      cases u with
      | nil => exact absurd h (not_source_of_code hw.2 hu hm)
      | cons e u =>
        obtain ⟨rfl, hrest⟩ := List.cons.inj h
        obtain ⟨xs, span, ys, rfl, rfl, hys, hdigits⟩ := ih hw.2 hups hgaps hrest
        exact ⟨.code c :: xs, span, ys, rfl, rfl, hys, hdigits⟩
    | @hidden kind c span hk hc =>
      have hlead : ¬ GoesOnAsMark (layoutOf ps).lead := hgaps _ (List.mem_cons_self ..)
      have hbehind {v : Text} (hv : (Piece.assemble (i + 1) ps).1 = v ++ (m.source ++ t)) :
          ∃ xs found ys, .hidden kind (c :: span) :: ps = xs ++ .hidden .comment found :: ys ∧
            (Piece.assemble i xs).1 = kind.mark i ++ v ∧
            (Piece.assemble (i + (spansOf xs).length + 1) ys).1 = t ∧
            m.digits = Text.ofNat (i + (spansOf xs).length) := by
        obtain ⟨xs, found, ys, rfl, rfl, hys, hdigits⟩ :=
          ih hw.2 hups (fun g hg => hgaps g (List.mem_cons_of_mem _ hg)) hv
        have hnext : i + (spansOf (.hidden kind (c :: span) :: xs)).length =
            i + 1 + (spansOf xs).length := by
          rw [spansOf_hidden, List.length_cons]
          omega
        exact ⟨.hidden kind (c :: span) :: xs, found, ys, rfl, rfl, by rwa [hnext],
          by rwa [hnext]⟩
      rw [Piece.assemble_hidden] at h
      rcases List.append_eq_append_iff.mp h with ⟨v, rfl, hv⟩ | ⟨z, hmark, hz⟩
      · exact hbehind hv
      by_cases hznil : z = []
      · subst hznil
        rw [List.append_nil] at hmark
        rw [← hmark, ← List.append_nil (kind.mark i)]
        exact hbehind hz.symm
      by_cases hunil : u = []
      · subst hunil
        obtain ⟨rfl, hdigits⟩ := eq_comment_of_mark hm hsound h
        refine ⟨[], c :: span, ps, rfl, rfl, ?_, hdigits⟩
        have hsource : m.source = SpanKind.comment.mark i := by
          rw [Mark.source, hm, hdigits, SpanKind.mark, List.append_assoc]
        rw [List.nil_append] at hmark
        rw [hsource, hmark] at hz
        exact (List.append_cancel_left hz).symm
      · exact absurd (goesOnAsMark_of_mark hk hw.2 hm hsound hmark hunil hznil hz.symm) hlead

end

end HostScript.Script
