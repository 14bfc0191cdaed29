import HostScript.Proofs.Outcome
import HostScript.Proofs.Script.Tame

/-!
# Shown texts of tame scripts

A text holds literals in double quotes if its double quotes are all theirs. What such a script shows
is made of code and of the marks of its literals, and it may be edited as long as these marks stay
and every mark is read: restoring it gives a text that holds the literals.
-/

namespace HostScript.Script

/-! ## Literals in double quotes -/

/-- A text whose double quotes belong to literals on one line, the given ones among them. -/
def HoldsLiterals (ls : List Text) (t : Text) : Prop :=
  ∃ ps : List (Part Text), (∀ p ∈ ps, p.Respects ['\x22']) ∧ ls ⊆ ps.filterMap Part.whole? ∧
    written id ps = t

section HoldsLiterals

variable {kind : Text → Prop} {ls ms : List Text} {l t u : Text} {p : Piece} {ps : List Piece}

theorem HoldsLiterals.mono (h : HoldsLiterals ls t) (hsub : ms ⊆ ls) : HoldsLiterals ms t :=
  h.imp fun _ hps => ⟨hps.1, List.Subset.trans hsub hps.2.1, hps.2.2⟩

theorem respects_code (ht : '\x22' ∉ t) {q : Part Text} (hq : q ∈ t.map Part.code) :
    q.Respects ['\x22'] := by
  obtain ⟨c, hc, rfl⟩ := List.mem_map.mp hq
  intro hmem
  obtain rfl := List.mem_singleton.mp hmem
  exact ht hc

/-- What holds no double quote holds no literal. -/
theorem holdsLiterals_code (ht : '\x22' ∉ t) : HoldsLiterals [] t :=
  ⟨t.map .code, fun _ => respects_code ht, List.nil_subset _, written_code t⟩

theorem holdsLiterals_literal (hl : IsQuoted '\x22' l) : HoldsLiterals [l] l :=
  ⟨[.whole l], List.forall_mem_singleton.mpr ⟨'\x22', List.mem_singleton_self _, hl⟩,
    List.Subset.refl _, List.append_nil l⟩

theorem HoldsLiterals.append (ht : HoldsLiterals ls t) (hu : HoldsLiterals ms u) :
    HoldsLiterals (ls ++ ms) (t ++ u) := by
  obtain ⟨ps, hps, hls, rfl⟩ := ht
  obtain ⟨qs, hqs, hms, rfl⟩ := hu
  refine ⟨ps ++ qs, List.forall_mem_append.mpr ⟨hps, hqs⟩, ?_, written_append ps qs⟩
  rw [List.filterMap_append]
  exact List.append_subset.mpr ⟨List.subset_append_of_subset_left _ hls,
    List.subset_append_of_subset_right _ hms⟩

theorem HoldsLiterals.code_append (ht : '\x22' ∉ t) (hu : HoldsLiterals ls u) :
    HoldsLiterals ls (t ++ u) := (holdsLiterals_code ht).append hu

/-- Its literals stand in it, in double quotes. -/
theorem HoldsLiterals.isQuoted (h : HoldsLiterals ls t) (hl : l ∈ ls) :
    IsQuoted '\x22' l ∧ l <:+: t := by
  obtain ⟨ps, hps, hls, rfl⟩ := h
  obtain ⟨p, hp, hwhole⟩ := List.mem_filterMap.mp (hls hl)
  cases p with
  | code => cases hwhole
  | whole l' =>
    obtain rfl := Option.some.inj hwhole
    obtain ⟨quote, hquote, hquoted⟩ := hps _ hp
    obtain rfl := List.mem_singleton.mp hquote
    obtain ⟨us, vs, rfl⟩ := List.append_of_mem hp
    exact ⟨hquoted, written id us, written id vs, by simp [written, Part.text]⟩

/-- A tame script holds its literals in double quotes. -/
theorem Scripted.holdsLiterals (h : Scripted kind ls t) (hls : ∀ l ∈ ls, IsQuoted '\x22' l) :
    HoldsLiterals ls t := by
  obtain ⟨ps, hps, hsub, rfl⟩ := h
  suffices hmore : ∃ ms, (∀ l ∈ ps.filterMap Part.whole?, IsQuoted '\x22' l → l ∈ ms) ∧
      HoldsLiterals ms (written id ps) by
    obtain ⟨ms, hms, hscript⟩ := hmore
    exact hscript.mono fun l hl => hms l (hsub hl) (hls l hl)
  clear hsub
  induction ps with
  | nil => exact ⟨[], List.forall_mem_nil _, holdsLiterals_code List.not_mem_nil⟩
  | cons p ps ih =>
    rw [List.forall_mem_cons] at hps
    obtain ⟨ms, hms, hscript⟩ := ih hps.2
    cases p with
    | code c =>
      refine ⟨ms, hms, hscript.code_append (t := [c]) fun hmem => ?_⟩
      exact Quoteless.quote_notMem (List.forall_mem_singleton.mpr hps.1) hmem
    | whole l =>
      obtain ⟨⟨quote, -, hl, hquote⟩, -⟩ := hps.1
      rcases hquote with rfl | hnot
      · refine ⟨l :: ms, fun l' hl' hquoted => ?_, (holdsLiterals_literal hl).append hscript⟩
        rcases List.mem_cons.mp hl' with rfl | hl'
        · exact List.mem_cons_self ..
        · exact List.mem_cons_of_mem _ (hms l' hl' hquoted)
      · refine ⟨ms, fun l' hl' hquoted => ?_, hscript.code_append hnot⟩
        rcases List.mem_cons.mp hl' with rfl | hl'
        · obtain ⟨s, rfl, -⟩ := hquoted
          exact absurd (List.mem_cons_self ..) hnot
        · exact hms l' hl' hquoted

/-- A piece whose double quotes are those of a hidden literal. -/
def Piece.IsDivided (p : Piece) : Prop := ∀ q ∈ p.parts (IsQuoted '\x22'), q.Respects ['\x22']

theorem Piece.isDivided_of_notMem (h : '\x22' ∉ p.source) : p.IsDivided := by
  intro q hq
  cases p with
  | hidden kind l =>
    rw [Piece.parts, if_neg] at hq
    · exact respects_code h hq
    · rintro ⟨s, rfl, -⟩
      exact h (List.mem_cons_self ..)
  | _ => exact respects_code h hq

theorem Piece.isDivided_literal {kind : SpanKind} (hl : IsQuoted '\x22' l) :
    (Piece.hidden kind l).IsDivided := by
  intro q hq
  rw [Piece.parts, if_pos hl] at hq
  obtain rfl := List.mem_singleton.mp hq
  exact ⟨'\x22', List.mem_singleton_self _, hl⟩

theorem Piece.IsTame.isDivided (h : p.IsTame) : p.IsDivided := by
  cases p with
  | code c => exact isDivided_of_notMem (Quoteless.quote_notMem (List.forall_mem_singleton.mpr h))
  | shown l => exact isDivided_of_notMem (Quoteless.quote_notMem h)
  | hidden kind l =>
    rcases h with ⟨quote, -, hl, rfl | hnot⟩ | hl
    · exact isDivided_literal hl
    · exact isDivided_of_notMem hnot
    · exact isDivided_of_notMem hl.quote_notMem
  | inner => exact h.elim

/-- The literals that a text holds are hidden in the pieces that stand for it. -/
theorem HoldsLiterals.exists_hidden (h : HoldsLiterals ls (sources ps))
    (hps : ∀ p ∈ ps, p.IsDivided) (hl : l ∈ ls) : ∃ kind, .hidden kind l ∈ ps := by
  obtain ⟨qs, hqs, hls, hwritten⟩ := h
  obtain rfl := eq_parts (by decide) hps hqs hwritten
  exact (mem_whole_parts.mp (hls hl)).2

/-- In a tame script all literals in double quotes are among the spans. -/
theorem HoldsLiterals.exists_parts (h : HoldsLiterals ls t) (ht : IsTameScript t) :
    ∃ ps : List (Part Text), (∀ p ∈ ps, p.Respects ['\x22']) ∧ ls ⊆ ps.filterMap Part.whole? ∧
      written id ps = t ∧ ps.filterMap Part.whole? ⊆ (mask .all t).spans := by
  obtain ⟨qs, hqs, hls, hwritten⟩ := h
  refine ⟨qs, hqs, hls, hwritten, fun l hl => ?_⟩
  rw [eq_parts (by decide) (fun p hp => (ht p hp).isDivided) hqs
    (hwritten.trans (sources_pieces (by decide) t).symm)] at hl
  obtain ⟨-, kind, hhidden⟩ := mem_whole_parts.mp hl
  exact mem_spans_of_hidden_mem hhidden 0

theorem HoldsLiterals.subset_spans (h : HoldsLiterals ls t) (ht : IsTameScript t) :
    ls ⊆ (mask .all t).spans := by
  obtain ⟨ps, -, hls, -, hspans⟩ := h.exists_parts ht
  exact List.Subset.trans hls hspans

/-- A tame script that holds literals has them. -/
theorem HoldsLiterals.scripted (h : HoldsLiterals ls t) (ht : IsTameScript t) :
    Scripted (fun _ => True) ls t := by
  obtain ⟨ms, hms, hscript⟩ := ht.exists_scripted
  exact hscript.mono fun l hl =>
    hms l (h.subset_spans ht hl) ⟨'\x22', by decide, (h.isQuoted hl).1, .inl rfl⟩

/-- An edit keeps the literals if it keeps those of a script in tame parts. -/
theorem HoldsLiterals.edit (h : HoldsLiterals ls t) (ht : IsTameScript t)
    (hedit : Scripted (fun _ => True) ls t → Scripted (fun _ => True) ls u) : HoldsLiterals ls u :=
  (hedit (h.scripted ht)).holdsLiterals fun _ hl => (h.isQuoted hl).1

end HoldsLiterals

/-! ## Shown texts -/

/-- A piece in which double quotes are those of a literal, and no quotes show. -/
def Piece.IsShownTame : Piece → Prop
  | .code c => isTameCode c = true
  | .shown l => Quoteless l
  | .hidden kind l => '\x22' ∉ l ∨ kind = .literal ∧ IsQuoted '\x22' l
  | .inner m => Quoteless m.text ∧ ∀ l ∈ m.spans, '\x22' ∉ l

instance : (p : Piece) → Decidable p.IsShownTame
  | .code _ => inferInstanceAs (Decidable (_ = _))
  | .shown l => inferInstanceAs (Decidable (Quoteless l))
  | .hidden kind l => inferInstanceAs (Decidable ('\x22' ∉ l ∨ kind = .literal ∧ IsQuoted '\x22' l))
  | .inner m => inferInstanceAs (Decidable (Quoteless m.text ∧ ∀ l ∈ m.spans, '\x22' ∉ l))

/-- A script that such pieces stand for. -/
def IsShownTame (o : MaskOptions) (t : Text) : Prop :=
  sources (pieces o t) = t ∧ ∀ p ∈ pieces o t, p.IsShownTame

instance (o : MaskOptions) (t : Text) : Decidable (IsShownTame o t) :=
  inferInstanceAs (Decidable (_ ∧ ∀ _ ∈ _, _))

section Shown

variable {spans : List Text} {m : Mark} {c : Char} {p : Piece} {ps : List Piece} {l t u : Text}

theorem mem_of_fill (h : Masked.fill spans false m = .ok l) : l ∈ spans := by
  obtain ⟨i, -, hspan⟩ := Outcome.bind_eq_ok_iff.mp h
  cases hget : spans[i]? with
  | none =>
    rw [hget] at hspan
    cases hspan
  | some span =>
    rw [hget] at hspan
    obtain rfl : span = l := Except.ok.inj hspan
    exact List.mem_of_getElem? hget

theorem notMem_of_fillAll (ht : c ∉ t) (hspans : ∀ l ∈ spans, c ∉ l) {skip : Nat}
    (h : Masked.fillAll spans false skip t = .ok u) : c ∉ u := by
  induction t generalizing skip u with
  | nil =>
    rw [Masked.fillAll] at h
    obtain rfl := Except.ok.inj h
    exact List.not_mem_nil
  | cons d t ih =>
    rw [List.mem_cons, not_or] at ht
    cases skip with
    | succ skip => exact ih ht.2 h
    | zero =>
      rw [Masked.fillAll] at h
      cases hread : Mark.read? (d :: t) with
      | none =>
        rw [hread] at h
        obtain ⟨v, hv, rfl⟩ := Outcome.map_eq_ok_iff.mp h
        exact fun hmem => (List.mem_cons.mp hmem).elim ht.1 (ih ht.2 hv)
      | some m =>
        rw [hread] at h
        obtain ⟨l, hl, h⟩ := Outcome.bind_eq_ok_iff.mp h
        obtain ⟨v, hv, h⟩ := Outcome.bind_eq_ok_iff.mp h
        obtain rfl := Except.ok.inj h
        exact List.not_mem_append (hspans l (mem_of_fill hl)) (ih ht.2 hv)

theorem Piece.IsShownTame.isDivided (h : p.IsShownTame) : p.IsDivided := by
  cases p with
  | code c => exact isDivided_of_notMem (Quoteless.quote_notMem (List.forall_mem_singleton.mpr h))
  | shown l => exact isDivided_of_notMem (Quoteless.quote_notMem h)
  | hidden kind l =>
    rcases h with hnot | ⟨-, hl⟩
    · exact isDivided_of_notMem hnot
    · exact isDivided_literal hl
  | inner m =>
    refine isDivided_of_notMem ?_
    rw [Piece.source]
    cases hrestore : m.restore with
    | ok t => exact notMem_of_fillAll h.1.quote_notMem h.2 hrestore
    | error => exact List.not_mem_nil

theorem quoteless_mark (kind : SpanKind) (i : Nat) : Quoteless (kind.mark i) := by
  have hdigits : Quoteless (Text.ofNat i) := quoteless_word fun c hc =>
    isWord_of_mem_mark (i := i) (by rw [mark_literal_cons]; simp [hc])
  rw [SpanKind.mark, quoteless_append, quoteless_append]
  cases kind <;> exact ⟨⟨by decide, hdigits⟩, by decide⟩

theorem quoteless_raiseMarks (k : Nat) (ht : Quoteless t) : Quoteless (raiseMarks k t) := by
  suffices hgo : ∀ skip, Quoteless (raiseMarks.go k skip t) from hgo 0
  induction t with
  | nil =>
    intro skip
    rw [raiseMarks.go]
    exact quoteless_nil
  | cons c t ih =>
    rw [quoteless_cons] at ht
    rintro (_ | skip)
    · rw [raiseMarks.go]
      split
      · exact quoteless_append.mpr ⟨quoteless_mark _ _, ih ht.2 _⟩
      · exact quoteless_cons.mpr ⟨ht.1, ih ht.2 0⟩
    · exact ih ht.2 skip

theorem Piece.quote_of_mem_spans (hps : ∀ p ∈ ps, p.IsShownTame) {i : Nat}
    (hl : l ∈ (Piece.assemble i ps).2) : IsQuoted '\x22' l ∨ '\x22' ∉ l := by
  induction ps generalizing i with
  | nil => cases hl
  | cons p ps ih =>
    rw [List.forall_mem_cons] at hps
    cases p with
    | code => exact ih hps.2 hl
    | shown => exact ih hps.2 hl
    | hidden kind l' =>
      rcases List.mem_cons.mp hl with rfl | hl
      · exact (Or.comm.mp hps.1).imp_left And.right
      · exact ih hps.2 hl
    | inner m =>
      rcases List.mem_append.mp hl with hl | hl
      · exact .inr (hps.1.2 l hl)
      · exact ih hps.2 hl

/-- The shown text of such pieces is made of code and of the marks of their literals. -/
theorem exists_legible_assemble (hps : ∀ p ∈ ps, p.IsShownTame) {i n : Nat}
    (hn : i + (Piece.assemble i ps).2.length ≤ n) :
    ∃ is, Legible n is (Piece.assemble i ps).1 ∧ ∀ l, .hidden .literal l ∈ ps →
      ∃ j, i + j ∈ is ∧ (Piece.assemble i ps).2[j]? = some l := by
  induction ps generalizing i with
  | nil => exact ⟨[], made_code quoteless_nil, fun l hl => absurd hl List.not_mem_nil⟩
  | cons p ps ih =>
    rw [List.forall_mem_cons] at hps
    cases p with
    | code c =>
      obtain ⟨is, his, hmem⟩ := ih hps.2 hn
      refine ⟨is, his.code_append (t := [c]) (List.forall_mem_singleton.mpr hps.1), fun l hl => ?_⟩
      exact hmem l ((List.mem_cons.mp hl).resolve_left (by simp))
    | shown s =>
      obtain ⟨is, his, hmem⟩ := ih hps.2 hn
      refine ⟨is, his.code_append hps.1, fun l hl => ?_⟩
      exact hmem l ((List.mem_cons.mp hl).resolve_left (by simp))
    | hidden kind s =>
      have hlen : i + ((Piece.assemble (i + 1) ps).2.length + 1) ≤ n := hn
      obtain ⟨is, his, hmem⟩ := ih hps.2 (i := i + 1) (by omega)
      have hlater {l : Text} (hl : .hidden .literal l ∈ ps) :
          ∃ j, i + j ∈ is ∧ (s :: (Piece.assemble (i + 1) ps).2)[j]? = some l := by
        obtain ⟨j, hj, hspan⟩ := hmem l hl
        exact ⟨j + 1, by rwa [Nat.add_comm j, ← Nat.add_assoc], hspan⟩
      cases kind with
      | literal =>
        have hmark : Legible n [i] (SpanKind.literal.mark i) :=
          ⟨[.whole i], List.forall_mem_singleton.mpr (show i < n by omega), List.Subset.refl _,
            List.append_nil _⟩
        refine ⟨[i] ++ is, hmark.append his, fun l hl => ?_⟩
        rcases List.mem_cons.mp hl with heq | hl
        · cases heq
          exact ⟨0, List.mem_cons_self .., rfl⟩
        · obtain ⟨j, hj, hspan⟩ := hlater hl
          exact ⟨j, List.mem_cons_of_mem _ hj, hspan⟩
      | _ =>
        refine ⟨is, his.code_append (quoteless_mark _ i), fun l hl => ?_⟩
        exact hlater ((List.mem_cons.mp hl).resolve_left (by simp))
    | inner m =>
      have hlen : i + (m.spans ++ (Piece.assemble (i + m.spans.length) ps).2).length ≤ n := hn
      rw [List.length_append] at hlen
      obtain ⟨is, his, hmem⟩ := ih hps.2 (i := i + m.spans.length) (by omega)
      refine ⟨is, his.code_append (quoteless_raiseMarks i hps.1.1), fun l hl => ?_⟩
      obtain ⟨j, hj, hspan⟩ := hmem l ((List.mem_cons.mp hl).resolve_left (by simp))
      refine ⟨m.spans.length + j, by rwa [← Nat.add_assoc], ?_⟩
      change (m.spans ++ (Piece.assemble (i + m.spans.length) ps).2)[m.spans.length + j]? = _
      rw [List.getElem?_append_right (Nat.le_add_right _ _), Nat.add_sub_cancel_left]
      exact hspan

end Shown

/-!
## Restoring

Code next to a mark may read like one together with its edge. Then the mark is not read, and what
tells it is left over.
-/

/-- Whether every mark that is read in a shown text with `n` spans has one, and none is left over. -/
def readsMarks (n : Nat) (t : Text) : Bool :=
  (Masked.fillAll (List.replicate n [' ']) false 0 t).toOption.any fun left =>
    decide (¬ tell <:+: left)

section Restoring

variable {n : Nat} {is : List Nat} {ps : List (Part Nat)} {r t left : Text} {m : Mark}
  {spans ls : List Text}

/-- The mark of a literal or comment holds the letter `J` in its opening only. -/
theorem Mark.source_eq_opening (hm : m.IsSound) (hk : m.kind ≠ .chunk) :
    ∃ x, m.source = '_' :: '_' :: 'J' :: x ∧ 'J' ∉ x := by
  have hdigits : 'J' ∉ m.digits := fun hmem => absurd (hm.isDigit _ hmem) (by decide)
  rw [Mark.source]
  cases hkind : m.kind with
  | chunk => exact absurd hkind hk
  | literal => exact ⟨['S', 'L', 'I', 'T', '_'] ++ (m.digits ++ ['_', '_']), rfl, by simp [hdigits]⟩
  | comment => exact ⟨['S', 'C', 'O', 'M', '_'] ++ (m.digits ++ ['_', '_']), rfl, by simp [hdigits]⟩

/-- The mark of a chunk holds no edge of the mark of a literal. -/
theorem Mark.source_eq_chunk (hm : m.IsSound) (hk : m.kind = .chunk) :
    ∃ x, m.source = '\x03' :: x ∧ '_' ∉ x := by
  have hdigits : '_' ∉ m.digits := fun hmem => by
    have hdigit := hm.isDigit _ hmem
    cases hdigit
  rw [Mark.source, hk]
  exact ⟨['T', 'P', 'L'] ++ (m.digits ++ ['\x04']), rfl, by simp [hdigits]⟩

/-- A text that starts behind the first or the second edge of a mark. -/
def StartsInMark (r : Text) : Prop :=
  ∃ d rest, isDigit d = true ∧ (r = tell ++ d :: rest ∨ r = '_' :: (tell ++ d :: rest))

/-- What is read as a mark from code on is code, or the mark behind it is left over. -/
theorem code_or_startsInMark {c : Char} (hm : m.IsSound)
    (h : c :: written SpanKind.literal.mark ps = m.source ++ r) :
    (∃ x qs, ps = x.map .code ++ qs ∧ m.source = c :: x ∧ r = written SpanKind.literal.mark qs) ∨
      StartsInMark r := by
  by_cases hk : m.kind = .chunk
  case pos =>
    left
    obtain ⟨x, hx, hunder⟩ := Mark.source_eq_chunk hm hk
    rw [hx] at h ⊢
    obtain ⟨rfl, hrest⟩ := List.cons.inj h
    rcases code_or_whole_of_written hrest with ⟨qs, rfl, hr⟩ | ⟨u, z, i, qs, -, hy, hz, hr⟩
    · exact ⟨x, qs, rfl, rfl, hr⟩
    · obtain ⟨d, z, rfl⟩ := List.exists_cons_of_ne_nil hz
      rw [mark_literal_cons] at hr
      obtain ⟨rfl, -⟩ := List.cons.inj (show d :: (z ++ r) = '_' :: _ from hr)
      exact absurd (by rw [hy]; simp) hunder
  obtain ⟨x, hx, hJ⟩ := Mark.source_eq_opening hm hk
  rw [hx] at h ⊢
  obtain ⟨rfl, hrest⟩ := List.cons.inj h
  rcases code_or_whole_of_written (x := '_' :: 'J' :: x) hrest with
    ⟨qs, rfl, hr⟩ | ⟨u, z, i, qs, -, hy, hz, hr⟩
  · exact .inl ⟨_, qs, rfl, rfl, hr⟩
  right
  obtain ⟨d, ds, hds⟩ := List.exists_cons_of_ne_nil (ofNat_ne_nil i)
  refine ⟨d, ds ++ ("__".toList ++ written SpanKind.literal.mark qs),
    isDigit_of_char (isDigit_of_mem_ofNat (hds ▸ List.mem_cons_self ..)), ?_⟩
  rw [mark_literal_cons, hds] at hr
  rcases z with _ | ⟨a, _ | ⟨b, _ | ⟨e, z⟩⟩⟩
  · exact absurd rfl hz
  · obtain ⟨-, rfl⟩ := List.cons.inj (show a :: r = '_' :: _ from hr)
    exact .inr (by simp)
  · obtain ⟨-, htail⟩ := List.cons.inj (show a :: b :: r = '_' :: _ from hr)
    obtain ⟨-, rfl⟩ := List.cons.inj htail
    exact .inl (by simp)
  · -- A mark that starts so early would bring a second `J` into the one that is read.
    obtain ⟨rfl, rfl, he, -⟩ : a = '_' ∧ b = '_' ∧ e = 'J' ∧ _ := by
      simpa [tell] using hr
    subst he
    rcases u with _ | ⟨_, _ | ⟨_, u⟩⟩
    · simp at hy
    · simp at hy
    · have hmem : 'J' ∈ x := by
        rw [(List.cons.inj (List.cons.inj hy).2).2]
        simp
      exact absurd hmem hJ

/-- What tells such a mark is copied. -/
theorem StartsInMark.tell_infix (h : StartsInMark r)
    (hleft : Masked.fillAll spans false 0 r = .ok left) : tell <:+: left := by
  obtain ⟨d, rest, hd, hr⟩ := h
  have hcopy : ∀ s, s ≠ [] → s <:+ '_' :: tell → Mark.read? (s ++ d :: rest) = none := by
    intro s hne hs
    have hunder : '_' ≠ d := by
      rintro rfl
      cases hd
    have hcases : s <:+ ['_', 'J', 'S', 'L', 'I', 'T', '_'] := hs
    simp only [List.suffix_cons_iff, List.suffix_nil, hne, or_false] at hcases
    rcases hcases with rfl | rfl | rfl | rfl | rfl | rfl | rfl <;>
      exact Mark.read?_eq_none (by simp [markHead, hunder]) (by simp)
  rcases hr with rfl | rfl
  · rw [Masked.fillAll_copy fun s hne hs => hcopy s hne (hs.trans (List.suffix_cons _ _)),
      Outcome.map_eq_ok_iff] at hleft
    obtain ⟨more, -, rfl⟩ := hleft
    exact ⟨[], more, rfl⟩
  · rw [← List.cons_append, Masked.fillAll_copy hcopy, Outcome.map_eq_ok_iff] at hleft
    obtain ⟨more, -, rfl⟩ := hleft
    exact ⟨['_'], more, rfl⟩

/-- A mark that is read from code on covers only code, or what tells the mark behind is left over. -/
theorem code_or_tell_of_read {c : Char}
    (h : Mark.read? (c :: written SpanKind.literal.mark ps) = some m) :
    (∃ (x : Text) (qs : List (Part Nat)), ps = x.map .code ++ qs ∧ ∀ spans,
        Masked.fillAll spans false (m.length - 1) (written SpanKind.literal.mark ps) =
          Masked.fillAll spans false 0 (written SpanKind.literal.mark qs)) ∨
      ∀ spans left, Masked.fillAll spans false (m.length - 1) (written SpanKind.literal.mark ps) =
        .ok left → tell <:+: left := by
  obtain ⟨hm, r, hr⟩ := Mark.of_read?_eq_some h
  have hskip {x : Text} (hx : m.source = c :: x) (spans : List Text) (t : Text) :
      Masked.fillAll spans false (m.length - 1) (x ++ t) = Masked.fillAll spans false 0 t := by
    rw [hm.length, hx, List.length_cons, Nat.add_sub_cancel, Masked.fillAll_skip]
  rcases code_or_startsInMark hm hr.symm with ⟨x, qs, rfl, hsource, rfl⟩ | hstarts
  · refine .inl ⟨x, qs, rfl, fun spans => ?_⟩
    rw [written_append, written_code, hskip hsource]
  · right
    intro spans left hleft
    obtain ⟨d, x, hx⟩ : ∃ d x, m.source = d :: x := by
      cases hk : m.kind <;> exact ⟨_, _, by rw [Mark.source, hk]; rfl⟩
    rw [hx] at hr
    obtain ⟨rfl, hrest⟩ := List.cons.inj (show d :: (x ++ r) = _ from hr)
    rw [← hrest, hskip hx] at hleft
    exact hstarts.tell_infix hleft

/-- What fills a mark with a blank fills it with its span. -/
theorem exists_fill_of_blanks {blank : Text}
    (h : Masked.fill (List.replicate spans.length [' ']) false m = .ok blank) :
    ∃ l, Masked.fill spans false m = .ok l ∧ spans[m.index]? = some l := by
  obtain ⟨i, hi, hspan⟩ := Outcome.bind_eq_ok_iff.mp h
  have hindex : i = m.index := by
    rw [Number.readDigits] at hi
    split at hi
    · cases hi
    · exact (Except.ok.inj hi).symm
  have hlt : i < spans.length := by
    by_contra hge
    rw [List.getElem?_eq_none (by simpa using hge)] at hspan
    cases hspan
  have hget := List.getElem?_eq_getElem hlt
  refine ⟨spans[i], ?_, by rw [← hindex, hget]⟩
  simp only [Masked.fill, hi, bind, Except.bind, hget]
  rfl

/-- The literals in double quotes among the spans of some marks. -/
def literalsAt (spans : List Text) (is : List Nat) : List Text :=
  (is.filterMap (spans[·]?)).filter (IsQuoted '\x22' ·)

/-- A span holds the literal that it is. -/
theorem holdsLiterals_span {l : Text} (h : IsQuoted '\x22' l ∨ '\x22' ∉ l) :
    HoldsLiterals ([l].filter (IsQuoted '\x22' ·)) l := by
  by_cases hl : IsQuoted '\x22' l
  · have hfilter : [l].filter (IsQuoted '\x22' ·) = [l] := by simp [hl]
    rw [hfilter]
    exact holdsLiterals_literal hl
  · have hfilter : [l].filter (IsQuoted '\x22' ·) = [] := by simp [hl]
    rw [hfilter]
    exact holdsLiterals_code (h.resolve_left hl)

/-- Restoring a text in which all marks are read puts back the literals of those that it is made
of. -/
theorem holdsLiterals_written (hspans : ∀ l ∈ spans, IsQuoted '\x22' l ∨ '\x22' ∉ l)
    (hps : ∀ p ∈ ps, p.IsTame (· < n))
    (hleft : Masked.fillAll (List.replicate spans.length [' ']) false 0
      (written SpanKind.literal.mark ps) = .ok left) (hlacks : ¬ tell <:+: left) :
    ∃ out, Masked.fillAll spans false 0 (written SpanKind.literal.mark ps) = .ok out ∧
      HoldsLiterals (literalsAt spans (ps.filterMap Part.whole?)) out := by
  -- A mark in the code may cover several of the parts.
  induction hsize : ps.length using Nat.strong_induction_on generalizing ps left with
  | _ size ih =>
    subst hsize
    cases ps with
    | nil => exact ⟨[], rfl, holdsLiterals_code List.not_mem_nil⟩
    | cons p ps =>
      rw [List.forall_mem_cons] at hps
      cases p with
      | whole i =>
        have hcons : written SpanKind.literal.mark (.whole i :: ps) =
            SpanKind.literal.mark i ++ written SpanKind.literal.mark ps := rfl
        rw [hcons, Masked.fillAll_append_mark] at hleft
        obtain ⟨blank, hblank, hleft⟩ := Outcome.bind_eq_ok_iff.mp hleft
        obtain ⟨rest, hrest, rfl⟩ := Outcome.map_eq_ok_iff.mp hleft
        obtain ⟨l, hl, hspan⟩ := exists_fill_of_blanks hblank
        rw [Mark.index, ofDigits_ofNat] at hspan
        obtain ⟨out, hout, hscript⟩ := ih _ (Nat.lt_succ_self _) hps.2 hrest
          (fun hin => hlacks (hin.trans (List.suffix_append _ _).isInfix)) rfl
        refine ⟨l ++ out, ?_, ?_⟩
        · rw [hcons, Masked.fillAll_append_mark, hl, hout]
          rfl
        · have hat : literalsAt spans (i :: ps.filterMap Part.whole?) =
              [l].filter (IsQuoted '\x22' ·) ++ literalsAt spans (ps.filterMap Part.whole?) := by
            rw [literalsAt, List.filterMap_cons_some hspan, ← List.singleton_append,
              List.filter_append, literalsAt]
          change HoldsLiterals (literalsAt spans (i :: ps.filterMap Part.whole?)) _
          rw [hat]
          exact (holdsLiterals_span (hspans l (List.mem_of_getElem? hspan))).append hscript
      | code c =>
        have hcons : written SpanKind.literal.mark (.code c :: ps) =
            c :: written SpanKind.literal.mark ps := rfl
        rw [hcons, Masked.fillAll] at hleft
        rw [hcons, Masked.fillAll]
        cases hread : Mark.read? (c :: written SpanKind.literal.mark ps) with
        | none =>
          rw [hread] at hleft
          obtain ⟨rest, hrest, rfl⟩ := Outcome.map_eq_ok_iff.mp hleft
          obtain ⟨out, hout, hscript⟩ := ih _ (Nat.lt_succ_self _) hps.2 hrest
            (fun hin => hlacks (hin.trans (List.suffix_cons c rest).isInfix)) rfl
          refine ⟨c :: out, ?_, hscript.code_append (t := [c])
            (Quoteless.quote_notMem (List.forall_mem_singleton.mpr hps.1))⟩
          dsimp only
          rw [hout]
          rfl
        | some m =>
          rw [hread] at hleft
          obtain ⟨blank, hblank, hleft⟩ := Outcome.bind_eq_ok_iff.mp hleft
          obtain ⟨rest, hrest, hend⟩ := Outcome.bind_eq_ok_iff.mp hleft
          obtain rfl := Except.ok.inj hend
          have hlacks' : ¬ tell <:+: rest :=
            fun hin => hlacks (hin.trans (List.suffix_append _ _).isInfix)
          obtain ⟨x, us, rfl, hskip⟩ := (code_or_tell_of_read hread).resolve_right
            fun htell => hlacks' (htell _ _ hrest)
          rw [hskip] at hrest
          obtain ⟨l, hl, hspan⟩ := exists_fill_of_blanks hblank
          have hshort : us.length < (Part.code c :: (x.map Part.code ++ us)).length := by
            rw [List.length_cons, List.length_append]
            omega
          obtain ⟨out, hout, hscript⟩ := ih _ hshort
            (fun p hp => hps.2 p (List.mem_append_right _ hp)) hrest hlacks' rfl
          refine ⟨l ++ out, ?_, ?_⟩
          · dsimp only
            rw [hl, hskip, hout]
            rfl
          · rw [List.filterMap_cons, List.filterMap_append, whole_code]
            exact ((holdsLiterals_span (hspans l (List.mem_of_getElem? hspan))).append
              hscript).mono (List.subset_append_right _ _)

/-- The shown text of a tame script may be edited as long as its marks stay and are read: restoring
gives a text that holds the literals. -/
theorem HoldsLiterals.restore {o : MaskOptions} (h : HoldsLiterals ls t) (ht : IsShownTame o t) :
    ∃ is, Legible (mask o t).spans.length is (mask o t).text ∧
      ∀ u, Legible (mask o t).spans.length is u → readsMarks (mask o t).spans.length u = true →
        ∃ out, (mask o t).restoreText u = .ok out ∧ HoldsLiterals ls out := by
  obtain ⟨hsources, hpieces⟩ := ht
  obtain ⟨is, his, hmem⟩ := exists_legible_assemble hpieces (i := 0)
    (n := (Piece.assemble 0 (pieces o t)).2.length) (by omega)
  rw [mask_eq]
  refine ⟨is, his, ?_⟩
  rintro u ⟨ps, hps, hwhole, rfl⟩ hreads
  obtain ⟨left, hleft, hlacks⟩ := (Option.any_eq_true _ _).mp hreads
  obtain ⟨out, hout, hscript⟩ := holdsLiterals_written
    (fun l hl => Piece.quote_of_mem_spans hpieces hl) hps
    (Outcome.toOption_eq_some_iff.mp hleft) (of_decide_eq_true hlacks)
  refine ⟨out, hout, hscript.mono fun l hl => ?_⟩
  have hquoted := (h.isQuoted hl).1
  rw [← hsources] at h
  obtain ⟨kind, hhidden⟩ := h.exists_hidden (fun p hp => (hpieces p hp).isDivided) hl
  obtain rfl : kind = .literal := by
    rcases hpieces _ hhidden with hnot | ⟨hkind, -⟩
    · obtain ⟨s, rfl, -⟩ := hquoted
      exact absurd (List.mem_cons_self ..) hnot
    · exact hkind
  obtain ⟨j, hj, hspan⟩ := hmem l hhidden
  rw [Nat.zero_add] at hj
  exact List.mem_filter.mpr ⟨List.mem_filterMap.mpr ⟨j, hwhole hj, hspan⟩, decide_eq_true hquoted⟩

end Restoring

end HostScript.Script
