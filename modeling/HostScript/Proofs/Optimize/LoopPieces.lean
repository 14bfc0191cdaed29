import HostScript.Proofs.Optimize.LoopHeader
import HostScript.Proofs.Script.Inserted

/-!
# The pieces of a loop's header

The counter of a loop is named twice before its bound. No two places show the same hidden spans, for
their numbers differ, so the counter is code, and with it all of the header but the bound.
-/

namespace HostScript

namespace Script

/-- Pieces that hide nothing spell code. -/
theorem exists_spelled_of_spansOf {ps : List Piece} (hw : ∀ p ∈ ps, p.IsWhole)
    (h : spansOf ps = []) : ∃ n, ps = spelled n := by
  induction ps with
  | nil => exact ⟨[], rfl⟩
  | cons p ps ih =>
    rw [List.forall_mem_cons] at hw
    cases hw.1 with
    | code c =>
      obtain ⟨n, rfl⟩ := ih hw.2 h
      exact ⟨c :: n, rfl⟩
    | hidden span _ _ => simp at h

/-- No mark is read where code comes first. -/
theorem ne_mark_of_code {i j : Nat} {c : Char} {ps : List Piece} (hw : ∀ p ∈ ps, p.IsWhole)
    (hu : Unmarked (c :: sources ps)) (kind : SpanKind) (t : Text) :
    c :: (Piece.assemble i ps).1 ≠ kind.mark j ++ t := by
  intro h
  have hcode := read?_append_assemble (fun p hp => (hw p hp).isFlat) (i := i)
    (List.cons_ne_nil c []) hu
  have hmark := Mark.read?_mark kind j t
  rw [← h] at hmark
  cases hcode.symm.trans hmark

/-- Pieces that show the same text with different numbers hide nothing. -/
theorem exists_spelled_of_same {i j : Nat} {ps qs : List Piece} (hps : ∀ p ∈ ps, p.IsWhole)
    (hqs : ∀ q ∈ qs, q.IsWhole) (hups : Unmarked (sources ps)) (huqs : Unmarked (sources qs))
    (hij : i ≠ j) (h : (Piece.assemble i ps).1 = (Piece.assemble j qs).1) :
    ∃ n, ps = spelled n := by
  induction ps generalizing qs with
  | nil => exact ⟨[], rfl⟩
  | cons p ps ih =>
    cases qs with
    | nil => exact absurd h (assemble_ne_nil hps (by simp) i)
    | cons q qs =>
      rw [List.forall_mem_cons] at hps hqs
      cases hps.1 with
      | code c =>
        cases hqs.1 with
        | code d =>
          obtain ⟨rfl, hrest⟩ := List.cons.inj h
          obtain ⟨n, rfl⟩ := ih hps.2 hqs.2 (hups.of_infix (List.suffix_cons c _).isInfix)
            (huqs.of_infix (List.suffix_cons c _).isInfix) hrest
          exact ⟨c :: n, rfl⟩
        | @hidden kind d span _ _ => exact absurd h (ne_mark_of_code hps.2 hups kind _)
      | @hidden kind c span _ _ =>
        cases hqs.1 with
        | code d => exact absurd h.symm (ne_mark_of_code hqs.2 huqs kind _)
        | @hidden kind' d span' _ _ =>
          have hmarks : kind.mark i ++ _ = kind'.mark j ++ _ := h
          have hread := Mark.read?_mark kind i (Piece.assemble (i + 1) ps).1
          have hread' := Mark.read?_mark kind' j (Piece.assemble (j + 1) qs).1
          rw [hmarks] at hread
          have hdigits := congrArg Mark.digits (Option.some.inj (hread.symm.trans hread'))
          exact absurd (ofNat_injective hdigits) hij

/-- Pieces that show a character that no mark starts with start with that character. -/
theorem exists_code_of_head? {i : Nat} {ps : List Piece} (hw : ∀ p ∈ ps, p.IsWhole) {c : Char}
    (hc : c ≠ '_') (h : (Piece.assemble i ps).1.head? = some c) : ∃ qs, ps = .code c :: qs := by
  cases ps with
  | nil => cases h
  | cons p ps =>
    cases hw p (List.mem_cons_self ..) with
    | code d => exact ⟨ps, by rw [Option.some.inj h]⟩
    | @hidden kind d span hk _ =>
      obtain ⟨m, hm⟩ := SpanKind.exists_mark_eq hk i
      rw [Piece.assemble_hidden, hm] at h
      exact absurd (Option.some.inj h).symm hc

/-- What is shown ends in a name where the last piece does. -/
theorem endsIn_assemble {ps : List Piece} (hw : ∀ p ∈ ps, p.IsWhole) (i : Nat) :
    endsIn isIdentPart (Piece.assemble i ps).1 = endsIn Piece.isSolid ps := by
  rcases List.eq_nil_or_concat' ps with rfl | ⟨ps, p, rfl⟩
  · rfl
  · have hp := hw p (List.mem_append_right ps (List.mem_singleton_self p))
    rw [assemble_append_fst i fun q hq => hw q (List.mem_append_left _ hq),
      endsIn_append _ (List.cons_ne_nil p [])]
    cases hp with
    | code c => simp [endsIn]
    | @hidden kind c span hk _ =>
      have hmark := kind.mark_ne_nil (i + (spansOf ps).length)
      rw [Piece.assemble_hidden, Piece.assemble_nil, List.append_nil, endsIn_append _ hmark,
        endsIn_eq _ hmark, isIdentPart_of_mem_mark hk (List.getLast_mem hmark)]
      exact (Piece.isSolid_hidden hk (c :: span)).symm

/-- A character that is none of a name is shown where a piece is that character. -/
theorem mem_assemble_iff {i : Nat} {ps : List Piece} (hw : ∀ p ∈ ps, p.IsWhole) {c : Char}
    (hc : isIdentPart c = false) : c ∈ (Piece.assemble i ps).1 ↔ .code c ∈ ps := by
  induction ps generalizing i with
  | nil => simp
  | cons p ps ih =>
    rw [List.forall_mem_cons] at hw
    cases hw.1 with
    | code d => simp [ih hw.2]
    | @hidden kind d span hk _ =>
      have hmark : c ∉ kind.mark i := fun h => by
        rw [isIdentPart_of_mem_mark hk h] at hc
        cases hc
      simp [hmark, ih hw.2]

/-- Text that cannot be part of what opens a mark may stand before a text without marks. -/
theorem Unmarked.append_left {x t : Text} (hx : ∀ c ∈ x, c ∉ '\x03' :: markHead)
    (ht : Unmarked t) : Unmarked (x ++ t) := by
  induction x with
  | nil => exact ht
  | cons c x ih =>
    rw [List.forall_mem_cons] at hx
    exact (ih hx.2).cons hx.1

/-- Text that cannot be part of what opens a mark may stand between texts without marks. -/
theorem Unmarked.append_between {t x u : Text} (ht : Unmarked t) (hne : x ≠ [])
    (hx : ∀ c ∈ x, c ∉ '\x03' :: markHead) (hu : Unmarked u) : Unmarked (t ++ (x ++ u)) := by
  refine ht.append (hu.append_left hx) (Or.inr fun c hc => ?_)
  rw [List.head?_append_of_ne_nil _ hne] at hc
  exact fun h => hx c (List.mem_of_head? hc) (List.mem_cons_of_mem _ h)

/-- White space cannot be part of what opens a mark. -/
theorem notMem_markHead_of_isBlank {c : Char} (h : isBlank c = true) : c ∉ '\x03' :: markHead := by
  intro hc
  have hpart : ∀ d ∈ '\x03' :: markHead, isBlank d = false :=
    List.all_iff_forall_prop.mp (by decide)
  rw [hpart c hc] at h
  cases h

end Script

namespace Optimize

open Pattern Script

/-! ## What surrounds the counter -/

/-- The characters that cannot be part of what opens a mark. -/
def isInertChar : CharSet := fun c => !('\x03' :: markHead).contains c

theorem notMem_of_isInertChar {c : Char} (h : isInertChar c = true) : c ∉ '\x03' :: markHead := by
  simpa [isInertChar] using h

theorem isInertChar_of_isBlank {c : Char} (h : isBlank c = true) : isInertChar c = true := by
  simpa [isInertChar] using notMem_markHead_of_isBlank h

/-- Texts between names: they end in no name, and cannot be part of what opens a mark. -/
structure IsSpacer (x : Text) : Prop where
  ne_nil : x ≠ []
  inert : ∀ c ∈ x, isInertChar c = true
  stop : endsIn isIdentPart x = false

/-- Behind white space no name ends. -/
theorem endsIn_append_blanks {b : Text} (hb : ∀ c ∈ b, isBlank c = true) {c : Char}
    (hc : isIdentPart c = false) (t : Text) : endsIn isIdentPart (t ++ c :: b) = false := by
  rw [endsIn_append _ (List.cons_ne_nil c b), endsIn_eq _ (List.cons_ne_nil c b)]
  rcases List.mem_cons.mp (List.getLast_mem (List.cons_ne_nil c b)) with h | h
  · rw [h, hc]
  · exact isIdentPart_of_isBlank (hb _ h)

/-- At white space no name starts. -/
theorem startsIn_blanks_append {b : Text} (hb : ∀ c ∈ b, isBlank c = true) {c : Char}
    (hc : isIdentPart c = false) (t : Text) : startsIn isIdentPart (b ++ c :: t) = false := by
  cases b with
  | nil => exact hc
  | cons d b => exact isIdentPart_of_isBlank (hb d (List.mem_cons_self ..))

namespace LoopParts.IsSound

variable {l : LoopParts}

theorem isSpacer_start (hl : l.IsSound) : IsSpacer l.start := by
  have hwithin : loopStart.Within isInertChar :=
    ⟨⟨⟨⟨⟨within_text (by decide), fun _ => isInertChar_of_isBlank⟩, within_text (by decide)⟩,
      fun _ => isInertChar_of_isBlank⟩, within_choice (by decide)⟩, fun _ => isInertChar_of_isBlank⟩
  obtain ⟨y, b, _, _, hstart, -, -, hb⟩ := hl.start
  obtain ⟨hne, hb, -⟩ := forms_gap_iff.mp hb
  refine ⟨by simp [hstart, hne], hl.start.mem_of_within hwithin, ?_⟩
  rw [hstart, endsIn_append _ hne, endsIn_eq _ hne]
  exact isIdentPart_of_isBlank (hb _ (List.getLast_mem hne))

theorem isSpacer_assign (hl : l.IsSound) :
    IsSpacer l.assign ∧ ∀ t, startsIn isIdentPart (l.assign ++ t) = false := by
  have hwithin : loopAssign.Within isInertChar :=
    ⟨⟨⟨⟨⟨⟨fun _ => isInertChar_of_isBlank, within_text (by decide)⟩,
      fun _ => isInertChar_of_isBlank⟩, within_text (by decide)⟩, fun _ => isInertChar_of_isBlank⟩,
      within_text (by decide)⟩, fun _ => isInertChar_of_isBlank⟩
  obtain ⟨_, b₇, _, _, hassign, -, ⟨_, _, _, _, rfl, -, ⟨_, b₆, _, _, rfl, -, ⟨_, _, _, _, rfl, -,
    ⟨_, b₅, _, _, rfl, -, ⟨b₄, _, _, _, rfl, -, hb₄, hequal⟩, hb₅⟩, hzero⟩, hb₆⟩, hsemi⟩, hb₇⟩ :=
    hl.assign
  obtain ⟨rfl, -⟩ := forms_lit_iff.mp hequal
  obtain ⟨rfl, -⟩ := forms_lit_iff.mp hsemi
  refine ⟨⟨by simp [hassign], hl.assign.mem_of_within hwithin, ?_⟩, fun t => ?_⟩
  · rw [hassign, List.append_assoc _ _ b₇]
    exact endsIn_append_blanks (forms_blanks_iff.mp hb₇).1 (by decide) _
  · simp only [hassign, List.append_assoc]
    exact startsIn_blanks_append (forms_blanks_iff.mp hb₄).1 (by decide) _

theorem isSpacer_compare (hl : l.IsSound) :
    IsSpacer l.compare ∧ ∀ t, startsIn isIdentPart (l.compare ++ t) = false := by
  have hwithin : loopCompare.Within isInertChar :=
    ⟨⟨fun _ => isInertChar_of_isBlank, within_text (by decide)⟩, fun _ => isInertChar_of_isBlank⟩
  obtain ⟨_, b₉, _, _, hcompare, -, ⟨b₈, _, _, _, rfl, -, hb₈, hless⟩, hb₉⟩ := hl.compare
  obtain ⟨rfl, -⟩ := forms_lit_iff.mp hless
  refine ⟨⟨by simp [hcompare], hl.compare.mem_of_within hwithin, ?_⟩, fun t => ?_⟩
  · rw [hcompare, List.append_assoc]
    exact endsIn_append_blanks (forms_blanks_iff.mp hb₉).1 (by decide) _
  · simp only [hcompare, List.append_assoc]
    exact startsIn_blanks_append (forms_blanks_iff.mp hb₈).1 (by decide) _

/-- Around the counter, the step cannot be part of what opens a mark. -/
theorem exists_step (hl : l.IsSound) : ∃ u v, l.step = u ++ (l.counter ++ v) ∧
    (∀ c ∈ u, isInertChar c = true) ∧ ∀ c ∈ v, isInertChar c = true := by
  have hblank {b : Text} {env gs : GroupTexts} (h : blanks.Forms env b gs) :
      ∀ c ∈ b, isInertChar c = true :=
    fun c hc => isInertChar_of_isBlank ((forms_blanks_iff.mp h).1 c hc)
  obtain ⟨_, e₂, _, _, hstep, -, ⟨e₁, u, _, _, rfl, -, he₁, hu⟩, he₂⟩ := hl.step
  obtain rfl := he₁.groups_eq_nil rfl
  rcases hu with hu | hu | hu
  · obtain ⟨_, _, _, _, rfl, -, ⟨_, b, _, _, rfl, -, ⟨hsame, rfl⟩, hb⟩, hsign⟩ := hu
    obtain rfl := Option.some.inj hsame
    obtain ⟨rfl, -⟩ := forms_lit_iff.mp hsign
    refine ⟨e₁, b ++ ("++".toList ++ e₂), by simp [hstep], hblank he₁, ?_⟩
    exact List.forall_mem_append.mpr ⟨hblank hb,
      List.forall_mem_append.mpr ⟨by decide, hblank he₂⟩⟩
  · obtain ⟨_, _, _, _, rfl, -, hstart, hsame⟩ := hu
    obtain rfl := hstart.groups_eq_nil rfl
    obtain rfl := Option.some.inj hsame.1
    obtain ⟨_, b, _, _, rfl, -, hsign, hb⟩ := hstart
    obtain ⟨rfl, -⟩ := forms_lit_iff.mp hsign
    refine ⟨e₁ ++ ("++".toList ++ b), e₂, by simp [hstep], ?_, hblank he₂⟩
    exact List.forall_mem_append.mpr ⟨hblank he₁,
      List.forall_mem_append.mpr ⟨by decide, hblank hb⟩⟩
  · obtain ⟨_, _, _, _, rfl, -, ⟨_, b', _, _, rfl, -, ⟨_, _, _, _, rfl, -, ⟨_, b, _, _, rfl, -,
      ⟨hsame, rfl⟩, hb⟩, hsign⟩, hb'⟩, hone⟩ := hu
    obtain rfl := Option.some.inj hsame
    obtain ⟨rfl, -⟩ := forms_lit_iff.mp hsign
    obtain ⟨rfl, -⟩ := forms_lit_iff.mp hone
    refine ⟨e₁, b ++ ("+=".toList ++ (b' ++ ("1".toList ++ e₂))), by simp [hstep], hblank he₁, ?_⟩
    exact List.forall_mem_append.mpr ⟨hblank hb, List.forall_mem_append.mpr ⟨by decide,
      List.forall_mem_append.mpr ⟨hblank hb', List.forall_mem_append.mpr ⟨by decide, hblank he₂⟩⟩⟩⟩

end LoopParts.IsSound

/-! ## The header as it is shown -/

section

variable {i : Nat} {ps : List Piece} {l : LoopParts} {rest : Text}

/-- The counter of a header that pieces show is code. -/
theorem unmarked_counter (hw : ∀ p ∈ ps, p.IsWhole) (hu : Unmarked (sources ps)) (hl : l.IsSound)
    (h : (Piece.assemble i ps).1 = l.text ++ rest) : Unmarked l.counter := by
  obtain ⟨hassign, hassignStart⟩ := hl.isSpacer_assign
  obtain ⟨-, hcompareStart⟩ := hl.isSpacer_compare
  have hspacer {x : Text} (hx : IsSpacer x) : Unmarked x := by
    have := Unmarked.append_left (t := []) (fun c hc => notMem_of_isInertChar (hx.inert c hc))
      ⟨by decide, by decide⟩
    rwa [List.append_nil] at this
  have hshown : (Piece.assemble i ps).1 = l.start ++ (l.counter ++ (l.assign ++ (l.counter ++
      (l.compare ++ (l.bound ++ l.tail ++ rest))))) := by
    rw [h, LoopParts.text, LoopParts.head]
    simp
  obtain ⟨ts, rfl, hts⟩ := exists_spelled_of_assemble hw (hspacer hl.isSpacer_start)
    (Apart.of_endsIn hl.isSpacer_start.stop) hshown
  rw [List.forall_mem_append] at hw
  obtain ⟨cs, us, rfl, hcs, hus⟩ := exists_append_of_assemble hw.2
    (Apart.of_startsIn (hassignStart _)) hts
  rw [List.forall_mem_append] at hw
  obtain ⟨vs, rfl, hvs⟩ := exists_spelled_of_assemble hw.2.2 (hspacer hassign)
    (Apart.of_endsIn hassign.stop) hus
  rw [List.forall_mem_append] at hw
  obtain ⟨ds, ys, rfl, hds, -⟩ := exists_append_of_assemble hw.2.2.2
    (Apart.of_startsIn (hcompareStart _)) hvs
  rw [List.forall_mem_append] at hw
  simp only [sources_append] at hu
  have hucs : Unmarked (sources cs) :=
    hu.of_infix ((List.prefix_append _ _).isInfix.trans (List.suffix_append _ _).isInfix)
  have huds : Unmarked (sources ds) := by
    refine hu.of_infix ?_
    exact (List.prefix_append _ _).isInfix.trans ((List.suffix_append _ _).isInfix.trans
      ((List.suffix_append _ _).isInfix.trans (List.suffix_append _ _).isInfix))
  -- If the counter hid a span, its second copy would show a later number.
  have hspelled : ∃ n, cs = spelled n := by
    by_cases hnone : spansOf cs = []
    · exact exists_spelled_of_spansOf hw.2.1 hnone
    · have hpos := List.length_pos_of_ne_nil hnone
      exact exists_spelled_of_same hw.2.1 hw.2.2.2.1 hucs huds (by omega) (hcs.trans hds.symm)
  obtain ⟨n, rfl⟩ := hspelled
  rw [assemble_spelled] at hcs
  rwa [sources_spelled, hcs] at hucs

/-- Only the bound of a header hides spans: what stands before and behind it is code. -/
theorem exists_pieces_of_header (hw : ∀ p ∈ ps, p.IsWhole) (hu : Unmarked (sources ps))
    (hl : l.IsSound) (h : (Piece.assemble i ps).1 = l.text ++ rest) :
    ∃ bs qs, ps = spelled l.head ++ (bs ++ (spelled l.tail ++ qs)) ∧
      (Piece.assemble i bs).1 = l.bound := by
  have hcounter := unmarked_counter hw hu hl h
  have hinert {x : Text} (hx : ∀ c ∈ x, isInertChar c = true) : ∀ c ∈ x, c ∉ '\x03' :: markHead :=
    fun c hc => notMem_of_isInertChar (hx c hc)
  have hcompare := hl.isSpacer_compare.1
  have hassign := hl.isSpacer_assign.1
  have hnil : Unmarked [] := ⟨by decide, by decide⟩
  have hhead : Unmarked l.head := by
    have hlast := hcounter.append_between hcompare.ne_nil (hinert hcompare.inert) hnil
    rw [List.append_nil] at hlast
    exact (hcounter.append_between hassign.ne_nil (hinert hassign.inert) hlast).append_left
      (hinert hl.isSpacer_start.inert)
  have htail : Unmarked l.tail := by
    obtain ⟨u, v, hstep, hu, hv⟩ := hl.exists_step
    have hsplit : l.tail = ';' :: u ++ (l.counter ++ ((v ++ [')']) ++ [])) := by
      rw [LoopParts.tail, hstep]
      simp
    rw [hsplit]
    refine (hcounter.append_between (by simp) (hinert ?_) hnil).append_left (hinert ?_)
    · exact List.forall_mem_append.mpr ⟨hv, by decide⟩
    · exact List.forall_mem_cons.mpr ⟨by decide, hu⟩
  have hshown : (Piece.assemble i ps).1 = l.head ++ (l.bound ++ (l.tail ++ rest)) := by
    rw [h, LoopParts.text]
    simp
  have hheadStop : endsIn isIdentPart l.head = false := by
    rw [LoopParts.head]
    simp only [← List.append_assoc]
    rw [endsIn_append _ hcompare.ne_nil, hcompare.stop]
  obtain ⟨bs, vs, rfl, hbs, hvs⟩ := exists_enclosed_of_assemble hw hhead
    (Apart.of_endsIn hheadStop) (Apart.of_startsIn rfl) hshown
  rw [List.forall_mem_append, List.forall_mem_append] at hw
  have htailStop : endsIn isIdentPart l.tail = false := by
    have hsplit : l.tail = (';' :: l.step) ++ [')'] := rfl
    rw [hsplit, endsIn_append _ (by decide)]
    decide
  obtain ⟨qs, rfl, -⟩ := exists_spelled_of_assemble hw.2.2 htail (Apart.of_endsIn htailStop) hvs
  exact ⟨bs, qs, rfl, hbs⟩

end

end Optimize

end HostScript
