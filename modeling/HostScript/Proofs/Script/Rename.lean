import HostScript.Proofs.Script.Layout

/-!
# Renaming in a masked script

Names that stand on their own in the code of a script are given new names, and everything else is
kept. Such a renaming brings no mark into the script, so that restoring the masked text after it
gives exactly the script with the new names.
-/

namespace HostScript.Script

/-- Pieces that differ by a renaming of names that stand on their own; `glued` tells whether the
piece before shows as part of a name. -/
inductive Renamed (rename : Text → Option Text) : (glued : Bool) → List Piece → List Piece → Prop
  /-- Nothing is left to rename. -/
  | nil (glued : Bool) : Renamed rename glued [] []
  /-- A piece is kept. -/
  | keep {glued : Bool} (p : Piece) {ps qs : List Piece} (h : Renamed rename p.isSolid ps qs) :
      Renamed rename glued (p :: ps) (p :: qs)
  /-- A name that nothing solid touches gets its new name. -/
  | swap {n m : Text} {ps qs : List Piece} (hnm : rename n = some m)
      (hps : startsIn Piece.isSolid ps = false) (h : Renamed rename true ps qs) :
      Renamed rename false (spelled n ++ ps) (spelled m ++ qs)

/-- A renaming of names to names, neither of which can hold a mark. -/
structure IsRenaming (rename : Text → Option Text) : Prop where
  /-- What is renamed is a name. -/
  old : ∀ {n m : Text}, rename n = some m → IsName n
  /-- What it is renamed to is a name. -/
  new : ∀ {n m : Text}, rename n = some m → IsName m
  /-- No mark can start in what is renamed. -/
  old_unmarked : ∀ {n m : Text}, rename n = some m → ¬ markHead <:+: n
  /-- No mark can start in what it is renamed to. -/
  new_unmarked : ∀ {n m : Text}, rename n = some m → ¬ markHead <:+: m

variable {rename : Text → Option Text}

/-- A name does not end in a dot. -/
theorem IsName.endsIn_dot {n : Text} (hn : IsName n) : endsIn (· == '.') n = false := by
  rw [endsIn_eq _ hn.ne_nil, beq_eq_false_iff_ne]
  intro hdot
  have hlast := hn.isIdentPart _ (List.getLast_mem hn.ne_nil)
  rw [hdot] at hlast
  revert hlast
  decide

/-- A renaming keeps dots. -/
theorem IsRenaming.endsIn_dot (hr : IsRenaming rename) (w v : Text) (h : rename w = some v) :
    endsIn (· == '.') v = endsIn (· == '.') w := by
  rw [(hr.old h).endsIn_dot, (hr.new h).endsIn_dot]

/-- The runs of a text after a renaming are the renamed runs. -/
theorem IsRenaming.textRuns_flatten (hr : IsRenaming rename) (t : Text) :
    textRuns (renameRuns (· == '.') rename false (textRuns t)).flatten =
      renameRuns (· == '.') rename false (textRuns t) := by
  have hsolid : ∀ w v, rename w = some v →
      v ≠ [] ∧ (∀ c ∈ w, isIdentPart c = true) ∧ ∀ c ∈ v, isIdentPart c = true :=
    fun w v h => ⟨(hr.new h).ne_nil, (hr.old h).isIdentPart, (hr.new h).isIdentPart⟩
  exact (isRuns_renameRuns hsolid (isRuns_runsOf _ _) false).1.runsOf_flatten

/-- Pieces that are kept may be put before a renaming. -/
theorem Renamed.append_left {w ps qs : List Piece} (hw : w ≠ [])
    (h : Renamed rename (endsIn Piece.isSolid w) ps qs) (glued : Bool) :
    Renamed rename glued (w ++ ps) (w ++ qs) := by
  induction w generalizing glued with
  | nil => exact absurd rfl hw
  | cons p w ih =>
    cases w with
    | nil => exact .keep p h
    | cons q w =>
      refine .keep p (ih (List.cons_ne_nil q w) ?_ _)
      simpa [endsIn, List.getLast?_cons] using h

/-- A name shows as solid pieces. -/
theorem isSolid_of_mem_spelled {n : Text} (hn : IsName n) {p : Piece} (hp : p ∈ spelled n) :
    p.isSolid = true := by
  obtain ⟨c, hc, rfl⟩ := List.mem_map.mp hp
  simpa using hn.isIdentPart c hc

theorem spelled_ne_nil {n : Text} (hn : IsName n) : spelled n ≠ [] := by
  simpa [spelled] using hn.ne_nil

/-- Renaming runs renames pieces. -/
theorem renamed_renameRuns (hr : IsRenaming rename) {ws : List (List Piece)}
    (h : IsRuns Piece.isSolid ws) (behind : Bool) {glued : Bool}
    (hglued : (glued && startsIn Piece.isSolid ws.flatten) = false) :
    Renamed rename glued ws.flatten
      (renameRuns Piece.isDot (respell rename) behind ws).flatten := by
  induction ws generalizing behind glued with
  | nil => exact .nil glued
  | cons w ws ih =>
    obtain ⟨hrun, hrest, hws⟩ := isRuns_cons_iff.mp h
    have htail := ih hws (endsIn Piece.isDot w) hrest
    have hkeep := htail.append_left hrun.ne_nil glued
    rw [renameRuns, List.flatten_cons, List.flatten_cons, renameRun]
    cases behind with
    | true => exact hkeep
    | false =>
      cases hrw : respell rename w with
      | none => exact hkeep
      | some v =>
        obtain ⟨n, m, rfl, hnm, rfl⟩ := respell_eq_some_iff.mp hrw
        have hn := hr.old hnm
        have hsolid := fun p => isSolid_of_mem_spelled hn (p := p)
        have hne := spelled_ne_nil hn
        have hend : endsIn Piece.isSolid (spelled n) = true := by
          rw [endsIn_eq _ hne]
          exact hsolid _ (List.getLast_mem hne)
        rw [List.flatten_cons, startsIn_append _ hne, hsolid _ (List.head_mem hne),
          Bool.and_true] at hglued
        subst hglued
        rw [hend, Bool.true_and] at hrest
        rw [hend] at htail
        exact .swap hnm hrest htail

/-- A renaming keeps the hidden spans. -/
theorem Renamed.spansOf_eq {glued : Bool} {ps qs : List Piece} (h : Renamed rename glued ps qs) :
    spansOf qs = spansOf ps := by
  induction h with
  | nil => rfl
  | keep p _ ih =>
    rw [← List.singleton_append, spansOf_append, ih, ← spansOf_append, List.singleton_append]
  | swap _ _ _ ih => simp [spansOf_append, ih]

/-- A renaming keeps the pieces whole. -/
theorem Renamed.isWhole {glued : Bool} {ps qs : List Piece} (h : Renamed rename glued ps qs)
    (hw : ∀ p ∈ ps, p.IsWhole) : ∀ p ∈ qs, p.IsWhole := by
  induction h with
  | nil => exact hw
  | keep p _ ih =>
    rw [List.forall_mem_cons] at hw ⊢
    exact ⟨hw.1, ih hw.2⟩
  | swap _ _ _ ih =>
    rw [List.forall_mem_append] at hw ⊢
    exact ⟨fun _ => isWhole_of_mem_spelled, ih hw.2⟩

/-- Behind a piece that shows as part of a name, a renaming does not change the identifier
characters that follow. -/
theorem Renamed.prefix_of_solid {glued : Bool} {ps qs : List Piece}
    (h : Renamed rename glued ps qs) (hglued : glued = true) (hw : ∀ p ∈ ps, p.IsWhole) {v : Text}
    (hv : ∀ c ∈ v, isIdentPart c = true) (hp : v <+: sources qs) : v <+: sources ps := by
  induction h generalizing v with
  | nil => exact hp
  | swap => cases hglued
  | @keep glued p ps qs h ih =>
    rw [List.forall_mem_cons] at hw
    cases v with
    | nil => exact List.nil_prefix
    | cons c v =>
      have hc := hv c (List.mem_cons_self ..)
      cases hw.1 with
      | hidden span hk hd =>
        -- The span itself starts with no identifier character.
        obtain ⟨rfl, -⟩ := List.cons_prefix_cons.mp hp
        rw [hc] at hd
        cases hd
      | code d =>
        obtain ⟨rfl, htail⟩ := List.cons_prefix_cons.mp hp
        refine List.cons_prefix_cons.mpr
          ⟨rfl, ih ?_ hw.2 (fun e he => hv e (List.mem_cons_of_mem _ he)) htail⟩
        simpa using hc

/-- Where no piece that shows as part of a name comes first, no identifier character does. -/
theorem not_prefix_of_startsIn {ps : List Piece} (hw : ∀ p ∈ ps, p.IsWhole)
    (hs : startsIn Piece.isSolid ps = false) {v : Text} (hne : v ≠ [])
    (hv : ∀ c ∈ v, isIdentPart c = true) : ¬ v <+: sources ps := by
  intro hp
  obtain ⟨c, v, rfl⟩ := List.exists_cons_of_ne_nil hne
  cases ps with
  | nil => simp at hp
  | cons p ps =>
    cases hw p (List.mem_cons_self ..) with
    | hidden span hk _ => simp [startsIn, Piece.isSolid_hidden hk] at hs
    | code d =>
      obtain ⟨rfl, -⟩ := List.cons_prefix_cons.mp hp
      simp [startsIn, hv c] at hs

/-- The opening of a mark consists of identifier characters. -/
theorem isIdentPart_of_mem_markHead {c : Char} (hc : c ∈ markHead) : isIdentPart c = true := by
  have hall : markHead.all isIdentPart = true := by decide
  exact List.all_eq_true.mp hall c hc

/-- A renaming brings no opening of a mark into a script. -/
theorem Renamed.not_markHead {glued : Bool} {ps qs : List Piece} (hr : IsRenaming rename)
    (h : Renamed rename glued ps qs) (hw : ∀ p ∈ ps, p.IsWhole)
    (hu : ¬ markHead <:+: sources ps) : ¬ markHead <:+: sources qs := by
  induction h with
  | nil => exact hu
  | @keep glued p ps qs h ih =>
    rw [List.forall_mem_cons] at hw
    rw [sources_cons, List.infix_append_iff_ne_nil] at hu ⊢
    rintro (hin | hin | ⟨a, b, ha, hb, hab, hap, hbq⟩)
    · exact hu (Or.inl hin)
    · exact ih hw.2 (fun hi => hu (Or.inr (Or.inl hi))) hin
    · refine hu (Or.inr (Or.inr ⟨a, b, ha, hb, hab, hap, ?_⟩))
      have hident := fun c (hc : c ∈ a ++ b) => isIdentPart_of_mem_markHead (hab ▸ hc)
      have hp : p.isSolid = true := by
        cases hw.1 with
        | hidden span hk _ => exact Piece.isSolid_hidden hk _
        | code c =>
          have hmem : a.getLast ha ∈ [c] := hap.subset (List.getLast_mem ha)
          have hc := hident _ (List.mem_append_left b (List.getLast_mem ha))
          rw [List.mem_singleton.mp hmem] at hc
          simpa using hc
      exact h.prefix_of_solid hp hw.2 (fun c hc => hident c (List.mem_append_right a hc)) hbq
  | @swap n m ps qs hnm hs h ih =>
    rw [List.forall_mem_append] at hw
    rw [sources_append, sources_spelled] at hu ⊢
    rw [List.infix_append_iff_ne_nil]
    rintro (hin | hin | ⟨a, b, ha, hb, hab, -, hbq⟩)
    · exact hr.new_unmarked hnm hin
    · exact ih hw.2 (fun hi => hu (hi.trans (List.suffix_append n _).isInfix)) hin
    · have hident := fun c (hc : c ∈ b) =>
        isIdentPart_of_mem_markHead (hab ▸ List.mem_append_right a hc)
      exact not_prefix_of_startsIn hw.2 hs hb hident (h.prefix_of_solid rfl hw.2 hident hbq)

/-- A renaming brings only identifier characters into a script. -/
theorem Renamed.mem_sources {glued : Bool} {ps qs : List Piece} (hr : IsRenaming rename)
    (h : Renamed rename glued ps qs) {c : Char} (hc : c ∈ sources qs) :
    c ∈ sources ps ∨ isIdentPart c = true := by
  induction h with
  | nil => exact Or.inl hc
  | keep p _ ih =>
    rw [sources_cons, List.mem_append] at hc ⊢
    rcases hc with hc | hc
    · exact Or.inl (Or.inl hc)
    · exact (ih hc).imp_left Or.inr
  | swap hnm _ _ ih =>
    rw [sources_append, sources_spelled, List.mem_append] at hc ⊢
    rcases hc with hc | hc
    · exact Or.inr ((hr.new hnm).isIdentPart c hc)
    · exact (ih hc).imp_left Or.inr

/-- A renaming brings no mark into a script. -/
theorem Renamed.unmarked {glued : Bool} {ps qs : List Piece} (hr : IsRenaming rename)
    (h : Renamed rename glued ps qs) (hw : ∀ p ∈ ps, p.IsWhole) (hu : Unmarked (sources ps)) :
    Unmarked (sources qs) where
  head := h.not_markHead hr hw hu.head
  chunk := by
    intro hc
    rcases h.mem_sources hr hc with hc | hc
    · exact hu.chunk hc
    · revert hc
      decide

/-- A script with some of its names renamed, except behind dots. -/
def renameFree (rename : Text → Option Text) (ps : List Piece) : List Piece :=
  (renameRuns Piece.isDot (respell rename) false (pieceRuns ps)).flatten

/-- Renaming the free names renames pieces. -/
theorem renamed_renameFree (hr : IsRenaming rename) (ps : List Piece) :
    Renamed rename false ps (renameFree rename ps) := by
  have hstart : (false && startsIn Piece.isSolid (runsOf Piece.isSolid ps).flatten) = false := rfl
  have h := renamed_renameRuns hr (isRuns_runsOf Piece.isSolid ps) false hstart
  rwa [flatten_runsOf] at h

/-- A name that stands between pieces of code other than identifier characters and, before it,
dots. -/
structure StandsBetween (before after : List Piece) : Prop where
  before_solid : endsIn Piece.isSolid before = false
  before_dot : endsIn Piece.isDot before = false
  after_solid : startsIn Piece.isSolid after = false

/-- A name stands free among pieces: its characters are code, nothing that shows as part of a name
touches them, and no dot comes before them. -/
def StandsAmong (n : Text) (ps : List Piece) : Prop :=
  ∃ before after, ps = before ++ spelled n ++ after ∧ StandsBetween before after

/-- A name stands free among pieces exactly when it stands among their runs. -/
theorem standsAmong_iff {n : Text} (hn : IsName n) (ps : List Piece) :
    StandsAmong n ps ↔ Stands Piece.isDot false (spelled n) (pieceRuns ps) := by
  rw [stands_runsOf_iff (spelled_ne_nil hn) fun p => isSolid_of_mem_spelled hn]
  constructor
  · rintro ⟨before, after, hps, hsolid, hdot, hafter⟩
    exact ⟨before, after, hps, hsolid, hdot, hafter⟩
  · rintro ⟨before, after, hps, hsolid, hdot, hafter⟩
    exact ⟨before, after, hps, hsolid, hdot, hafter⟩

/-- Pieces spell one name only. -/
theorem spelled_injective {n m : Text} (h : spelled n = spelled m) : n = m := by
  rw [← sources_spelled n, h, sources_spelled]

/-- A spelled name does not end in a dot. -/
theorem endsIn_dot_spelled {n : Text} (hn : IsName n) : endsIn Piece.isDot (spelled n) = false := by
  rw [← endsIn_dot_assemble (fun p => isWhole_of_mem_spelled) 0, assemble_spelled, hn.endsIn_dot]

/-- The names that stand free after a renaming are those that stood free before it, renamed. -/
theorem standsAmong_renameFree_iff (hr : IsRenaming rename) {n : Text} (hn : IsName n)
    (ps : List Piece) :
    StandsAmong n (renameFree rename ps) ↔
      ∃ w, IsName w ∧ StandsAmong w ps ∧ (rename w).getD w = n := by
  have hdot : ∀ w v, respell rename w = some v →
      endsIn Piece.isDot v = endsIn Piece.isDot w := by
    intro w v hwv
    obtain ⟨a, b, rfl, hab, rfl⟩ := respell_eq_some_iff.mp hwv
    rw [endsIn_dot_spelled (hr.old hab), endsIn_dot_spelled (hr.new hab)]
  have hsolid : ∀ w v, respell rename w = some v → v ≠ [] ∧
      (∀ p ∈ w, p.isSolid = true) ∧ ∀ p ∈ v, p.isSolid = true := by
    intro w v hwv
    obtain ⟨a, b, rfl, hab, rfl⟩ := respell_eq_some_iff.mp hwv
    exact ⟨spelled_ne_nil (hr.new hab), fun p => isSolid_of_mem_spelled (hr.old hab),
      fun p => isSolid_of_mem_spelled (hr.new hab)⟩
  have hruns : pieceRuns (renameFree rename ps) =
      renameRuns Piece.isDot (respell rename) false (pieceRuns ps) :=
    (isRuns_renameRuns hsolid (isRuns_runsOf _ ps) false).1.runsOf_flatten
  rw [standsAmong_iff hn, hruns, stands_renameRuns_iff hdot]
  constructor
  · rintro ⟨v, hv, hvn⟩
    cases hrv : respell rename v with
    | none =>
      rw [hrv, Option.getD_none] at hvn
      subst hvn
      rw [respell_spelled, Option.map_eq_none_iff] at hrv
      exact ⟨n, hn, (standsAmong_iff hn ps).mpr hv, by rw [hrv, Option.getD_none]⟩
    | some u =>
      rw [hrv, Option.getD_some] at hvn
      obtain ⟨a, b, rfl, hab, rfl⟩ := respell_eq_some_iff.mp hrv
      have hbn : b = n := spelled_injective hvn
      exact ⟨a, hr.old hab, (standsAmong_iff (hr.old hab) ps).mpr hv,
        by rw [hab, Option.getD_some, hbn]⟩
  · rintro ⟨w, hw, hs, rfl⟩
    refine ⟨spelled w, (standsAmong_iff hw ps).mp hs, ?_⟩
    rw [respell_spelled]
    cases rename w <;> rfl

/-- A name that stands free gets its new name, and the parts around it are renamed on their own. -/
theorem renameFree_append_append (hr : IsRenaming rename) {n m : Text} (hnm : rename n = some m)
    {before after : List Piece} (h : StandsBetween before after) :
    renameFree rename (before ++ spelled n ++ after) =
      renameFree rename before ++ spelled m ++ renameFree rename after := by
  have hn := hr.old hnm
  have hrespell : respell rename (spelled n) = some (spelled m) :=
    respell_eq_some_iff.mpr ⟨n, m, rfl, hnm, rfl⟩
  have hdot := endsIn_dot_spelled hn
  have hruns : pieceRuns (before ++ spelled n ++ after) =
      pieceRuns before ++ spelled n :: pieceRuns after :=
    runsOf_append_append (spelled_ne_nil hn) (fun p => isSolid_of_mem_spelled hn) h.before_solid
      h.after_solid
  have hbehind : behindRuns Piece.isDot false (pieceRuns before) = false :=
    (behindRuns_runsOf _ _ before).trans h.before_dot
  rw [renameFree, hruns, renameRuns_append, hbehind, renameRuns, renameRun, hrespell, hdot]
  simp [renameFree]

/-- Renaming in the shown text of a script is renaming in its pieces. -/
theorem renameRuns_text (hr : IsRenaming rename) (code : Text) :
    (renameRuns (· == '.') rename false (textRuns (mask .all code).text)).flatten =
      (Piece.assemble 0 (renameFree rename (cut [] code))).1 := by
  have hw := fun p (hp : p ∈ cut [] code) => isWhole_of_mem_cut hp
  have hruns : ∀ w ∈ pieceRuns (cut [] code), ∀ p ∈ w, p.IsWhole :=
    fun w hw' p hp => hw p (mem_of_mem_runsOf hw' hp)
  have hruns' : ∀ w ∈ renameRuns Piece.isDot (respell rename) false (pieceRuns (cut [] code)),
      ∀ p ∈ w, p.IsWhole := fun w hw' p hp =>
    (renamed_renameFree hr (cut [] code)).isWhole hw p (List.mem_flatten.mpr ⟨w, hw', hp⟩)
  rw [mask_eq, pieces_all, textRuns_assemble hw,
    ← showRuns_renameRuns (fun n v => hr.old_unmarked) false hruns, flatten_showRuns 0 hruns',
    renameFree]

/-- Restoring a masked script after a renaming in the shown text gives the renamed script. -/
theorem restoreText_renameRuns (hr : IsRenaming rename) {code : Text} (hu : Unmarked code)
    (hlen : code.length ≤ 10 ^ Number.digitLimit) :
    (mask .all code).restoreText
        (renameRuns (· == '.') rename false (textRuns (mask .all code).text)).flatten =
      .ok (sources (renameFree rename (cut [] code))) := by
  have hw := fun p (hp : p ∈ cut [] code) => isWhole_of_mem_cut hp
  have h := renamed_renameFree hr (cut [] code)
  rw [renameRuns_text hr]
  exact restoreText_assemble (h.isWhole hw) h.spansOf_eq (h.unmarked hr hw (by rwa [sources_cut]))
    hlen

end HostScript.Script
