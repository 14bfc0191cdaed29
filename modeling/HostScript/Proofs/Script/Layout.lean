import HostScript.Proofs.Script.PieceRuns

/-!
# Gaps of code and hidden spans

A script is a gap of code followed by its hidden spans, each with the gap of code behind it. An edit
of the code gives every gap a new text and keeps every span in its place. Where such an edit brings
no mark into the script, restoring the text that it shows gives exactly the edited script.
-/

namespace HostScript.Script

/-- A script as a gap of code, and behind it hidden spans, each with the gap of code behind it. -/
structure Layout where
  lead : Text
  rest : List (Text × Text)

namespace Layout

/-- The script. -/
def text (l : Layout) : Text := l.lead ++ l.rest.flatMap fun x => x.1 ++ x.2

/-- The hidden spans in order. -/
def spans (l : Layout) : List Text := l.rest.map (·.1)

/-- The gaps of code in order, one more than there are spans. -/
def gaps (l : Layout) : List Text := l.lead :: l.rest.map (·.2)

/-- A layout with more code before its first gap. -/
def push (x : Text) (l : Layout) : Layout := ⟨x ++ l.lead, l.rest⟩

/-- A layout with one more span before its first gap. -/
def hide (span : Text) (l : Layout) : Layout := ⟨[], (span, l.lead) :: l.rest⟩

@[simp] theorem text_push (x : Text) (l : Layout) : (l.push x).text = x ++ l.text := by
  simp [text, push]

@[simp] theorem text_hide (span : Text) (l : Layout) : (l.hide span).text = span ++ l.text := by
  simp [text, hide]

@[simp] theorem spans_push (x : Text) (l : Layout) : (l.push x).spans = l.spans := rfl

@[simp] theorem spans_hide (span : Text) (l : Layout) : (l.hide span).spans = span :: l.spans := rfl

/-- An edit of the gaps of a layout: every gap is changed on its own, and the spans stay. -/
structure Edits (change : Text → Text → Prop) (l l' : Layout) : Prop where
  spans : l'.spans = l.spans
  gaps : List.Forall₂ change l.gaps l'.gaps

variable {change change' : Text → Text → Prop}

/-- Editing the gaps twice is editing them once. -/
theorem Edits.trans {change'' : Text → Text → Prop}
    (hcomp : ∀ a b c, change a b → change' b c → change'' a c) {l l' l'' : Layout}
    (h : l.Edits change l') (h' : l'.Edits change' l'') : l.Edits change'' l'' where
  spans := h'.spans.trans h.spans
  gaps := by
    have hgaps : ∀ {as bs cs : List Text}, List.Forall₂ change as bs → List.Forall₂ change' bs cs →
        List.Forall₂ change'' as cs := by
      intro as bs cs hab hbc
      induction hab generalizing cs with
      | nil =>
        cases hbc
        exact .nil
      | cons h _ ih =>
        cases hbc with
        | cons h' hrest => exact .cons (hcomp _ _ _ h h') (ih hrest)
    exact hgaps h.gaps h'.gaps

/-- Edits of one sort are edits of a wider one. -/
theorem Edits.mono (hle : ∀ a b, change a b → change' a b) {l l' : Layout}
    (h : l.Edits change l') : l.Edits change' l' where
  spans := h.spans
  gaps := h.gaps.imp hle

/-- A layout counts as edited where a text counts as changed without a change. -/
theorem Edits.refl (hrefl : ∀ g, change g g) (l : Layout) : l.Edits change l where
  spans := rfl
  gaps := List.forall₂_same.mpr fun g _ => hrefl g

/-- The first gap may be edited at its start. -/
theorem Edits.push {x y : Text} (hxy : ∀ g g', change g g' → change (x ++ g) (y ++ g'))
    {l l' : Layout} (h : l.Edits change l') : (l.push x).Edits change (l'.push y) where
  spans := h.spans
  gaps := by
    obtain ⟨hlead, hrest⟩ := List.forall₂_cons.mp h.gaps
    exact .cons (hxy _ _ hlead) hrest

/-- A span may stand before an edit. -/
theorem Edits.hide (hnil : change [] []) (span : Text) {l l' : Layout} (h : l.Edits change l') :
    (l.hide span).Edits change (l'.hide span) where
  spans := congrArg (span :: ·) h.spans
  gaps := .cons hnil h.gaps

end Layout

/-- The gaps and spans of pieces. -/
def layoutOf : List Piece → Layout
  | [] => ⟨[], []⟩
  | .hidden _ span :: ps => (layoutOf ps).hide span
  | p :: ps => (layoutOf ps).push p.source

/-- Gaps and spans make up what the pieces stand for. -/
theorem text_layoutOf (ps : List Piece) : (layoutOf ps).text = sources ps := by
  induction ps with
  | nil => rfl
  | cons p ps ih =>
    cases p <;> simp [layoutOf, ih, Piece.source]

/-- The spans of a layout are those that its pieces hide. -/
theorem spans_layoutOf {ps : List Piece} (hw : ∀ p ∈ ps, p.IsWhole) :
    (layoutOf ps).spans = spansOf ps := by
  induction ps with
  | nil => rfl
  | cons p ps ih =>
    rw [List.forall_mem_cons] at hw
    cases hw.1 with
    | code c => simpa [layoutOf] using ih hw.2
    | hidden span _ _ => simpa [layoutOf] using ih hw.2

/-- Code in front goes to the first gap. -/
theorem layoutOf_spelled_append (n : Text) (ps : List Piece) :
    layoutOf (spelled n ++ ps) = (layoutOf ps).push n := by
  induction n with
  | nil => rfl
  | cons c n ih =>
    have hcons : spelled (c :: n) ++ ps = .code c :: (spelled n ++ ps) := rfl
    rw [hcons, layoutOf, ih]
    · rfl
    · simp

/-- The gaps and the hidden spans of a script. -/
def layout (code : Text) : Layout := layoutOf (cut [] code)

/-- Gaps and spans make up the script. -/
@[simp] theorem text_layout (code : Text) : (layout code).text = code := by
  rw [layout, text_layoutOf, sources_cut]

/-- Masking a script takes out the spans that its pieces hide. -/
theorem spans_mask (code : Text) : (mask .all code).spans = spansOf (cut [] code) := by
  rw [mask_eq, pieces_all]
  rfl

/-- The spans of a script are those that masking it hides. -/
theorem spans_layout (code : Text) : (layout code).spans = (mask .all code).spans := by
  rw [layout, spans_layoutOf fun p => isWhole_of_mem_cut, spans_mask]

/-- A character that is none of a name shows where it stands in a gap. -/
theorem exists_gap_of_mem_assemble {i : Nat} {ps : List Piece} (hw : ∀ p ∈ ps, p.IsWhole)
    {c : Char} (hc : isIdentPart c = false) (h : c ∈ (Piece.assemble i ps).1) :
    ∃ g ∈ (layoutOf ps).gaps, c ∈ g := by
  induction ps generalizing i with
  | nil => simp at h
  | cons p ps ih =>
    rw [List.forall_mem_cons] at hw
    cases hw.1 with
    | code d =>
      rw [Piece.assemble_code, List.mem_cons] at h
      rcases h with rfl | h
      · exact ⟨_, List.mem_cons_self .., List.mem_cons_self ..⟩
      · obtain ⟨g, hg, hcg⟩ := ih hw.2 h
        rcases List.mem_cons.mp hg with rfl | hg
        · exact ⟨_, List.mem_cons_self .., List.mem_cons_of_mem d hcg⟩
        · exact ⟨g, List.mem_cons_of_mem _ hg, hcg⟩
    | hidden span hk _ =>
      rw [Piece.assemble_hidden, List.mem_append] at h
      rcases h with h | h
      · rw [isIdentPart_of_mem_mark hk h] at hc
        cases hc
      · obtain ⟨g, hg, hcg⟩ := ih hw.2 h
        exact ⟨g, List.mem_cons_of_mem _ hg, hcg⟩

/-- A script is another one with only its gaps edited. -/
def EditsGaps (change : Text → Text → Prop) (code out : Text) : Prop :=
  ∃ l, (layout code).Edits change l ∧ out = l.text

/-- Lists that differ by stretches that are swapped for others. -/
inductive Rewrites {α : Type} (swaps : List α → List α → Prop) : List α → List α → Prop
  /-- Nothing is left. -/
  | nil : Rewrites swaps [] []
  /-- A member is kept. -/
  | copy (a : α) {l l' : List α} (rest : Rewrites swaps l l') : Rewrites swaps (a :: l) (a :: l')
  /-- A stretch is swapped for another one. -/
  | swap {old new l l' : List α} (h : swaps old new) (rest : Rewrites swaps l l') :
    Rewrites swaps (old ++ l) (new ++ l')

namespace Rewrites

variable {α : Type} {swaps : List α → List α → Prop}

theorem refl (l : List α) : Rewrites swaps l l := by
  induction l with
  | nil => exact .nil
  | cons a l ih => exact .copy a ih

theorem append_left (x : List α) {l l' : List α} (h : Rewrites swaps l l') :
    Rewrites swaps (x ++ l) (x ++ l') := by
  induction x with
  | nil => exact h
  | cons a x ih => exact .copy a ih

/-- A member is one of the old list or of a new stretch. -/
theorem mem {l l' : List α} (h : Rewrites swaps l l') {a : α} (ha : a ∈ l') :
    a ∈ l ∨ ∃ old new, swaps old new ∧ (∀ b ∈ old, b ∈ l) ∧ a ∈ new := by
  induction h with
  | nil => exact Or.inl ha
  | copy b _ ih =>
    rcases List.mem_cons.mp ha with rfl | ha
    · exact Or.inl (List.mem_cons_self ..)
    · refine (ih ha).imp (List.mem_cons_of_mem b) ?_
      rintro ⟨old, new, h, hold, hnew⟩
      exact ⟨old, new, h, fun c hc => List.mem_cons_of_mem b (hold c hc), hnew⟩
  | @swap old new l l' h _ ih =>
    rcases List.mem_append.mp ha with ha | ha
    · exact Or.inr ⟨old, new, h, fun b hb => List.mem_append_left l hb, ha⟩
    · refine (ih ha).imp (List.mem_append_right old) ?_
      rintro ⟨old', new', h', hold, hnew⟩
      exact ⟨old', new', h', fun b hb => List.mem_append_right old (hold b hb), hnew⟩

end Rewrites

/-- Swapping stretches of code, as pieces. -/
def Respells (swaps : Text → Text → Prop) (ps qs : List Piece) : Prop :=
  ∃ old new, swaps old new ∧ ps = spelled old ∧ qs = spelled new

/-- A text that can stand next to anything without making part of a mark. -/
structure IsInert (t : Text) : Prop where
  ne_nil : t ≠ []
  not_mem : ∀ c ∈ t, c ∉ '\x03' :: markHead

/-- Whether a text is inert can be read off its characters. -/
theorem IsInert.of_all {t : Text} (hne : t ≠ [])
    (h : t.all (fun c => !('\x03' :: markHead).contains c) = true) : IsInert t where
  ne_nil := hne
  not_mem c hc := by simpa using List.all_eq_true.mp h c hc

variable {swaps : Text → Text → Prop} {ps qs : List Piece}

/-- Swapping stretches of code edits the gaps. -/
theorem Rewrites.edits (h : Rewrites (Respells swaps) ps qs) :
    (layoutOf ps).Edits (Rewrites swaps) (layoutOf qs) := by
  induction h with
  | nil => exact .refl Rewrites.refl _
  | copy p _ ih =>
    cases p with
    | hidden kind span => exact ih.hide .nil span
    | code c => exact ih.push fun _ _ h => h.append_left [c]
    | shown span => exact ih.push fun _ _ h => h.append_left span
    | inner m => exact ih.push fun _ _ h => h.append_left _
  | swap h _ ih =>
    obtain ⟨old, new, hswap, rfl, rfl⟩ := h
    rw [layoutOf_spelled_append, layoutOf_spelled_append]
    exact ih.push fun _ _ h => h.swap hswap

/-- Swapping stretches of code keeps the pieces whole. -/
theorem Rewrites.isWhole (h : Rewrites (Respells swaps) ps qs) (hw : ∀ p ∈ ps, p.IsWhole) :
    ∀ p ∈ qs, p.IsWhole := by
  intro p hp
  rcases h.mem hp with hp | ⟨_, _, ⟨old, new, -, -, rfl⟩, -, hp⟩
  · exact hw p hp
  · exact isWhole_of_mem_spelled hp

/-- What could open a mark at the start of an edited script stood at the start of the script. -/
theorem Rewrites.prefix_sources (h : Rewrites (Respells swaps) ps qs)
    (hnew : ∀ old new, swaps old new → IsInert new) {w : Text} (hw : ∀ c ∈ w, c ∈ markHead)
    (hp : w <+: sources qs) : w <+: sources ps := by
  induction h generalizing w with
  | nil => exact hp
  | @copy p ps qs rest ih =>
    rw [sources_cons] at hp ⊢
    refine isPrefix_append_of_rest hp fun v hv => ih fun c hc => hw c ?_
    exact hv ▸ List.mem_append_right _ hc
  | swap h rest _ =>
    obtain ⟨old, new, hswap, rfl, rfl⟩ := h
    cases w with
    | nil => exact List.nil_prefix
    | cons c w =>
      have hinert := hnew old new hswap
      obtain ⟨d, new, rfl⟩ := List.exists_cons_of_ne_nil hinert.ne_nil
      rw [sources_append, sources_spelled, List.cons_append] at hp
      obtain ⟨rfl, -⟩ := List.cons_prefix_cons.mp hp
      exact absurd (List.mem_cons_of_mem _ (hw c (List.mem_cons_self ..)))
        (hinert.not_mem c (List.mem_cons_self ..))

/-- Inert texts bring no mark into a script. -/
theorem Rewrites.unmarked (h : Rewrites (Respells swaps) ps qs)
    (hnew : ∀ old new, swaps old new → IsInert new) (hu : Unmarked (sources ps)) :
    Unmarked (sources qs) := by
  induction h with
  | nil => exact hu
  | @copy p ps qs rest ih =>
    rw [sources_cons] at hu ⊢
    have hqs := ih (hu.of_infix (List.suffix_append _ _).isInfix)
    refine ⟨?_, ?_⟩
    · rw [List.infix_append_iff_ne_nil]
      rintro (hin | hin | ⟨a, b, ha, hb, hab, hap, hbq⟩)
      · exact hu.head (hin.trans (List.prefix_append _ _).isInfix)
      · exact hqs.head hin
      · have hbhead : ∀ c ∈ b, c ∈ markHead := fun c hc => hab ▸ List.mem_append_right a hc
        apply hu.head
        rw [List.infix_append_iff_ne_nil]
        exact Or.inr (Or.inr ⟨a, b, ha, hb, hab, hap, rest.prefix_sources hnew hbhead hbq⟩)
    · rw [List.mem_append, not_or]
      exact ⟨fun hc => hu.chunk (List.mem_append_left _ hc), hqs.chunk⟩
  | swap h rest ih =>
    obtain ⟨old, new, hswap, rfl, rfl⟩ := h
    rw [sources_append, sources_spelled] at hu ⊢
    have hinert := hnew old new hswap
    have hfree : ∀ c ∈ new, c ≠ '\x03' ∧ c ∉ markHead := by
      intro c hc
      simpa [not_or] using hinert.not_mem c hc
    have hnewhead : ¬ markHead <:+: new := fun hi =>
      (hfree '_' (hi.subset (List.mem_cons_self ..))).2 (List.mem_cons_self ..)
    refine Unmarked.append ⟨hnewhead, fun hc => (hfree _ hc).1 rfl⟩
      (ih (hu.of_infix (List.suffix_append _ _).isInfix)) (Or.inl fun c hc => ?_)
    exact (hfree c (List.mem_of_getLast? hc)).2

/-- A script has no more hidden spans than characters. -/
theorem length_spansOf_cut_le (code : Text) : (spansOf (cut [] code)).length ≤ code.length := by
  have hw := fun p (hp : p ∈ cut [] code) => isWhole_of_mem_cut hp
  have hle := length_spans_le (fun p hp => ⟨(hw p hp).isFlat, (hw p hp).source_ne_nil⟩) 0
  rwa [sources_cut] at hle

/-- Restoring what pieces with the spans of a script show gives what they stand for. -/
theorem restoreText_assemble {code : Text} (hw : ∀ p ∈ qs, p.IsWhole)
    (hspans : spansOf qs = spansOf (cut [] code)) (hu : Unmarked (sources qs))
    (hlen : code.length ≤ 10 ^ Number.digitLimit) :
    (mask .all code).restoreText (Piece.assemble 0 qs).1 = .ok (sources qs) := by
  have hcount := length_spansOf_cut_le code
  have hspans : (Piece.assemble 0 qs).2 = spansOf (cut [] code) := hspans
  rw [Masked.restoreText, spans_mask]
  apply Masked.fillAll_assemble
  · exact fun p hp => (hw p hp).isFlat
  · exact hu
  · rw [hspans]
    exact List.prefix_rfl
  · rw [hspans]
    omega

/-- A text shows a script with only its gaps edited, and without marks of its own. -/
def ShowsEdit (change : Text → Text → Prop) (code t : Text) : Prop :=
  ∃ qs, (∀ p ∈ qs, p.IsWhole) ∧ Unmarked (sources qs) ∧
    (layout code).Edits change (layoutOf qs) ∧ t = (Piece.assemble 0 qs).1

namespace ShowsEdit

variable {change : Text → Text → Prop} {code t : Text}

/-- The shown text of a script shows it unedited. -/
theorem mask (hu : Unmarked code) : ShowsEdit Eq code (Script.mask .all code).text :=
  ⟨cut [] code, fun _ => isWhole_of_mem_cut, by rwa [sources_cut], .refl (fun _ => rfl) _,
    by rw [mask_eq, pieces_all]⟩

/-- Edits of one sort are edits of a wider one. -/
theorem mono {change' : Text → Text → Prop} (hle : ∀ a b, change a b → change' a b)
    (h : ShowsEdit change code t) : ShowsEdit change' code t := by
  obtain ⟨qs, hw, hu, hedits, rfl⟩ := h
  exact ⟨qs, hw, hu, hedits.mono hle, rfl⟩

/-- Restoring a text that shows an edited script gives that script. -/
theorem restoreText (h : ShowsEdit change code t) (hlen : code.length ≤ 10 ^ Number.digitLimit) :
    ∃ out, (Script.mask .all code).restoreText t = .ok out ∧ EditsGaps change code out := by
  obtain ⟨qs, hw, hu, hedits, rfl⟩ := h
  have hspans : spansOf qs = spansOf (cut [] code) := by
    rw [← spans_layoutOf hw, hedits.spans, layout, spans_layoutOf fun p => isWhole_of_mem_cut]
  exact ⟨sources qs, restoreText_assemble hw hspans hu hlen, layoutOf qs, hedits,
    (text_layoutOf qs).symm⟩

end ShowsEdit

end HostScript.Script
