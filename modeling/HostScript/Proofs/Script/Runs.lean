import HostScript.Proofs.Pattern.Plain
import HostScript.Script.Masked
import Mathlib.Data.List.SplitBy

/-!
# Runs of a text

A text falls into runs: the longest stretches of identifier characters, and every other character
on its own. A name occurs freely in a text exactly when it is one of the runs and the run before it
is not a dot, and replacing its free occurrences replaces exactly those runs.
-/

namespace HostScript.Script

variable {α : Type}

/-- Lists that divide their concatenation into the longest stretches of solid elements and single
other elements. -/
structure IsRuns (solid : α → Bool) (ws : List (List α)) : Prop where
  /-- No run is empty. -/
  nil_notMem : [] ∉ ws
  /-- Inside a run, neighbours are solid. -/
  chain : ∀ w ∈ ws, w.IsChain fun a b => (solid a && solid b) = true
  /-- Where two runs meet, one side is not solid. -/
  apart : ws.IsChain fun v w => ∃ hv hw, (solid (v.getLast hv) && solid (w.head hw)) = false

/-- The runs of a list. -/
def runsOf (solid : α → Bool) (l : List α) : List (List α) :=
  l.splitBy fun a b => solid a && solid b

/-- The runs of a list are runs. -/
theorem isRuns_runsOf (solid : α → Bool) (l : List α) : IsRuns solid (runsOf solid l) where
  nil_notMem := List.nil_notMem_splitBy _ _
  chain := fun _ => List.isChain_of_mem_splitBy
  apart := List.isChain_getLast_head_splitBy (fun a b => solid a && solid b) l

@[simp] theorem flatten_runsOf (solid : α → Bool) (l : List α) : (runsOf solid l).flatten = l :=
  List.flatten_splitBy _ _

/-- A list has no other runs than its own. -/
theorem IsRuns.runsOf_flatten {solid : α → Bool} {ws : List (List α)} (h : IsRuns solid ws) :
    runsOf solid ws.flatten = ws :=
  List.splitBy_flatten h.nil_notMem h.chain h.apart

/-- Whether a list ends in an element of a kind. -/
def endsIn (isDot : α → Bool) (w : List α) : Bool := w.getLast?.any isDot

/-- Whether a list starts with an element of a kind. -/
def startsIn (isDot : α → Bool) (w : List α) : Bool := w.head?.any isDot

theorem endsIn_eq (f : α → Bool) {w : List α} (hw : w ≠ []) : endsIn f w = f (w.getLast hw) := by
  rw [endsIn, List.getLast?_eq_getLast_of_ne_nil hw, Option.any_some]

theorem startsIn_eq (f : α → Bool) {w : List α} (hw : w ≠ []) : startsIn f w = f (w.head hw) := by
  rw [startsIn, List.head?_eq_some_head hw, Option.any_some]

theorem startsIn_append (f : α → Bool) {w : List α} (hw : w ≠ []) (l : List α) :
    startsIn f (w ++ l) = f (w.head hw) := by
  rw [startsIn, List.head?_append_of_ne_nil w hw, ← startsIn, startsIn_eq f hw]

theorem startsIn_append_left (f : α → Bool) {w : List α} (hw : w ≠ []) (l : List α) :
    startsIn f (w ++ l) = startsIn f w := by
  rw [startsIn, startsIn, List.head?_append_of_ne_nil w hw]

theorem endsIn_append (f : α → Bool) {w : List α} (hw : w ≠ []) (l : List α) :
    endsIn f (l ++ w) = endsIn f w := by
  rw [endsIn, endsIn, List.getLast?_append_of_ne_nil l hw]

/-- A list that may be one run: solid throughout, or a single element. -/
structure IsRun (solid : α → Bool) (w : List α) : Prop where
  ne_nil : w ≠ []
  solid_or_single : (∀ a ∈ w, solid a = true) ∨ ∃ a, w = [a]

/-- Neighbours are solid exactly in the lists that are solid throughout or too short. -/
theorem isChain_solid_iff {solid : α → Bool} {w : List α} (hw : w ≠ []) :
    (w.IsChain fun a b => (solid a && solid b) = true) ↔
      (∀ a ∈ w, solid a = true) ∨ ∃ a, w = [a] := by
  induction w with
  | nil => exact absurd rfl hw
  | cons a w ih =>
    cases w with
    | nil => simp
    | cons b w =>
      rw [List.isChain_cons_cons, ih (List.cons_ne_nil b w)]
      simp only [Bool.and_eq_true, List.mem_cons, forall_eq_or_imp, List.cons.injEq]
      constructor
      · rintro ⟨⟨ha, hb⟩, h | ⟨c, rfl, rfl⟩⟩
        · exact Or.inl ⟨ha, h⟩
        · exact Or.inl ⟨ha, hb, by simp⟩
      · rintro (⟨ha, hb, h⟩ | ⟨c, -, h⟩)
        · exact ⟨⟨ha, hb⟩, Or.inl ⟨hb, h⟩⟩
        · simp at h

/-- Runs are taken apart and put together at the front. -/
theorem isRuns_cons_iff {solid : α → Bool} {w : List α} {ws : List (List α)} :
    IsRuns solid (w :: ws) ↔
      IsRun solid w ∧ (endsIn solid w && startsIn solid ws.flatten) = false ∧
        IsRuns solid ws := by
  constructor
  · intro h
    have hne : w ≠ [] := fun hw => h.nil_notMem (hw ▸ List.mem_cons_self ..)
    have hrun := (isChain_solid_iff hne).mp (h.chain w (List.mem_cons_self ..))
    refine ⟨⟨hne, hrun⟩, ?_, fun hn => h.nil_notMem (List.mem_cons_of_mem _ hn),
      fun v hv => h.chain v (List.mem_cons_of_mem _ hv), h.apart.tail⟩
    cases ws with
    | nil => simp [startsIn]
    | cons v ws =>
      obtain ⟨hw, hv, hs⟩ := (List.isChain_cons_cons.mp h.apart).1
      rw [List.flatten_cons, startsIn_append solid hv, endsIn_eq solid hw]
      exact hs
  · rintro ⟨⟨hne, hrun⟩, hs, hws⟩
    refine ⟨?_, ?_, ?_⟩
    · rw [List.mem_cons, not_or]
      exact ⟨hne.symm, hws.nil_notMem⟩
    · intro v hv
      rcases List.mem_cons.mp hv with rfl | hv
      · exact (isChain_solid_iff hne).mpr hrun
      · exact hws.chain v hv
    · cases ws with
      | nil => exact List.isChain_singleton w
      | cons v ws =>
        have hv : v ≠ [] := fun hv => hws.nil_notMem (hv ▸ List.mem_cons_self ..)
        rw [List.flatten_cons, startsIn_append solid hv, endsIn_eq solid hne] at hs
        exact List.isChain_cons_cons.mpr ⟨⟨hne, hv, hs⟩, hws.apart⟩

theorem isRuns_nil (solid : α → Bool) : IsRuns solid [] :=
  ⟨List.not_mem_nil, fun _ h => absurd h List.not_mem_nil, List.isChain_nil⟩

/-- The end of what runs make up is the end of the last one. -/
theorem endsIn_flatten (f : α → Bool) {ws : List (List α)} (h : [] ∉ ws) :
    endsIn f ws.flatten = ws.getLast?.any (endsIn f) := by
  induction ws using List.reverseRecOn with
  | nil => rfl
  | append_singleton ws w _ =>
    have hw : w ≠ [] := fun hw => h (by simp [hw])
    simp [endsIn_append f hw]

/-- Runs are put together from runs that meet where one side is not solid. -/
theorem isRuns_append_iff {solid : α → Bool} {vs ws : List (List α)} :
    IsRuns solid (vs ++ ws) ↔ IsRuns solid vs ∧
      (endsIn solid vs.flatten && startsIn solid ws.flatten) = false ∧ IsRuns solid ws := by
  induction vs with
  | nil => simp [isRuns_nil, endsIn]
  | cons v vs ih =>
    rw [List.cons_append, isRuns_cons_iff, isRuns_cons_iff, ih, List.flatten_append]
    cases vs with
    | nil => simp [isRuns_nil, endsIn, startsIn]
    | cons u vs =>
      by_cases hvs : IsRuns solid (u :: vs)
      · have hne : (u :: vs).flatten ≠ [] := by
          simp [(isRuns_cons_iff.mp hvs).1.ne_nil]
        have hend : endsIn solid (v :: u :: vs).flatten = endsIn solid (u :: vs).flatten := by
          rw [List.flatten_cons, endsIn_append _ hne]
        rw [startsIn_append_left _ hne, hend]
        tauto
      · tauto

/-- A solid list that nothing solid touches is a run. -/
theorem runsOf_append_append {solid : α → Bool} {w before after : List α} (hne : w ≠ [])
    (hw : ∀ a ∈ w, solid a = true) (hbefore : endsIn solid before = false)
    (hafter : startsIn solid after = false) :
    runsOf solid (before ++ w ++ after) = runsOf solid before ++ w :: runsOf solid after := by
  have hruns : IsRuns solid (runsOf solid before ++ w :: runsOf solid after) := by
    refine isRuns_append_iff.mpr ⟨isRuns_runsOf solid before, ?_,
      isRuns_cons_iff.mpr ⟨⟨hne, Or.inl hw⟩, ?_, isRuns_runsOf solid after⟩⟩
    · rw [flatten_runsOf, hbefore, Bool.false_and]
    · rw [flatten_runsOf, hafter, Bool.and_false]
  have heq := hruns.runsOf_flatten
  rwa [List.flatten_append, List.flatten_cons, flatten_runsOf, flatten_runsOf,
    ← List.append_assoc] at heq

/-- A run under its new name, if it has one and does not stand behind a dot. -/
def renameRun (rename : List α → Option (List α)) (behind : Bool) (w : List α) : List α :=
  if behind then w else (rename w).getD w

/-- The runs with some of them renamed, except behind a dot; `behind` tells whether a dot stands
before the first. -/
def renameRuns (isDot : α → Bool) (rename : List α → Option (List α)) :
    (behind : Bool) → List (List α) → List (List α)
  | _, [] => []
  | behind, w :: ws => renameRun rename behind w :: renameRuns isDot rename (endsIn isDot w) ws

/-- Whether a dot stands behind some runs, given whether one stands before them. -/
def behindRuns (isDot : α → Bool) (behind : Bool) (vs : List (List α)) : Bool :=
  (vs.getLast?.map (endsIn isDot)).getD behind

theorem behindRuns_cons (isDot : α → Bool) (behind : Bool) (v : List α) (vs : List (List α)) :
    behindRuns isDot behind (v :: vs) = behindRuns isDot (endsIn isDot v) vs := by
  rw [behindRuns, behindRuns, List.getLast?_cons]
  cases vs.getLast? <;> rfl

/-- At the start of a text a dot stands behind runs exactly when they end in one. -/
theorem behindRuns_runsOf (isDot solid : α → Bool) (l : List α) :
    behindRuns isDot false (runsOf solid l) = endsIn isDot l := by
  have hend := endsIn_flatten isDot (isRuns_runsOf solid l).nil_notMem
  rw [flatten_runsOf] at hend
  rw [hend, behindRuns]
  cases (runsOf solid l).getLast? <;> rfl

/-- Runs are renamed one part after the other. -/
theorem renameRuns_append (isDot : α → Bool) (rename : List α → Option (List α)) (behind : Bool)
    (vs ws : List (List α)) :
    renameRuns isDot rename behind (vs ++ ws) =
      renameRuns isDot rename behind vs ++
        renameRuns isDot rename (behindRuns isDot behind vs) ws := by
  induction vs generalizing behind with
  | nil => rfl
  | cons v vs ih => rw [List.cons_append, renameRuns, renameRuns, ih, behindRuns_cons,
      List.cons_append]

/-- A run that stands somewhere in a list of runs, not behind a dot. -/
def Stands (isDot : α → Bool) (behind : Bool) (w : List α) (ws : List (List α)) : Prop :=
  ∃ before after, ws = before ++ w :: after ∧ behindRuns isDot behind before = false

/-- A run stands first, unless a dot comes before, or among the runs after the first. -/
theorem stands_cons_iff {isDot : α → Bool} {behind : Bool} {w v : List α} {ws : List (List α)} :
    Stands isDot behind w (v :: ws) ↔
      (behind = false ∧ v = w) ∨ Stands isDot (endsIn isDot v) w ws := by
  constructor
  · rintro ⟨before, after, hws, hdot⟩
    cases before with
    | nil =>
      obtain ⟨rfl, rfl⟩ := List.cons.inj hws
      exact Or.inl ⟨hdot, rfl⟩
    | cons u before =>
      obtain ⟨rfl, rfl⟩ := List.cons.inj hws
      exact Or.inr ⟨before, after, rfl, behindRuns_cons isDot behind _ _ ▸ hdot⟩
  · rintro (⟨hdot, rfl⟩ | ⟨before, after, rfl, hdot⟩)
    · exact ⟨[], ws, rfl, hdot⟩
    · exact ⟨v :: before, after, rfl, by rwa [behindRuns_cons]⟩

theorem not_stands_nil {isDot : α → Bool} {behind : Bool} {w : List α} :
    ¬ Stands isDot behind w [] := by
  rintro ⟨before, after, h, -⟩
  simp at h

/-- A run stands among runs in two parts exactly when it stands in one of them. -/
theorem stands_append_iff {isDot : α → Bool} {behind : Bool} {w : List α}
    {vs ws : List (List α)} :
    Stands isDot behind w (vs ++ ws) ↔
      Stands isDot behind w vs ∨ Stands isDot (behindRuns isDot behind vs) w ws := by
  induction vs generalizing behind with
  | nil => exact (or_iff_right not_stands_nil).symm
  | cons v vs ih =>
    rw [List.cons_append, stands_cons_iff, stands_cons_iff, ih, behindRuns_cons, or_assoc]

/-- A dot before runs has no bearing on the runs behind the first. -/
theorem stands_iff_of_ne_head {isDot : α → Bool} {behind : Bool} {w : List α}
    {ws : List (List α)} (h : ws.head? ≠ some w) :
    Stands isDot behind w ws ↔ Stands isDot false w ws := by
  cases ws with
  | nil => exact iff_of_false not_stands_nil not_stands_nil
  | cons v ws =>
    have hv : v ≠ w := fun hvw => h (by rw [hvw]; rfl)
    rw [stands_cons_iff, stands_cons_iff, or_iff_right fun hs => hv hs.2,
      or_iff_right fun hs => hv hs.2]

/-- A solid list stands among the runs of a list exactly when nothing solid touches it and no dot
comes before it. -/
theorem stands_runsOf_iff {solid isDot : α → Bool} {w l : List α} (hne : w ≠ [])
    (hw : ∀ a ∈ w, solid a = true) :
    Stands isDot false w (runsOf solid l) ↔
      ∃ before after, l = before ++ w ++ after ∧ endsIn solid before = false ∧
        endsIn isDot before = false ∧ startsIn solid after = false := by
  constructor
  · rintro ⟨vs, ws, hruns, hdot⟩
    have h := isRuns_runsOf solid l
    have hl := flatten_runsOf solid l
    rw [hruns] at h hl
    obtain ⟨hvs, hmeet, hws⟩ := isRuns_append_iff.mp h
    obtain ⟨-, hrest, -⟩ := isRuns_cons_iff.mp hws
    rw [List.flatten_cons, startsIn_append _ hne, hw _ (List.head_mem hne), Bool.and_true] at hmeet
    rw [endsIn_eq _ hne, hw _ (List.getLast_mem hne), Bool.true_and] at hrest
    refine ⟨vs.flatten, ws.flatten, ?_, hmeet, ?_, hrest⟩
    · rw [← hl]
      simp
    · rw [← behindRuns_runsOf isDot solid, hvs.runsOf_flatten]
      exact hdot
  · rintro ⟨before, after, rfl, hbefore, hdot, hafter⟩
    refine ⟨_, _, runsOf_append_append hne hw hbefore hafter, ?_⟩
    rw [behindRuns_runsOf, hdot]

/-- A renaming that keeps dots keeps whether a run is one. -/
theorem endsIn_renameRun {isDot : α → Bool} {rename : List α → Option (List α)}
    (hdot : ∀ w v, rename w = some v → endsIn isDot v = endsIn isDot w) (behind : Bool)
    (w : List α) : endsIn isDot (renameRun rename behind w) = endsIn isDot w := by
  cases behind with
  | true => rfl
  | false =>
    cases hr : rename w with
    | none => simp [renameRun, hr]
    | some v => simpa [renameRun, hr] using hdot w v hr

/-- After a renaming that keeps dots, exactly the renamed forms of the standing runs stand. -/
theorem stands_renameRuns_iff {isDot : α → Bool} {rename : List α → Option (List α)}
    (hdot : ∀ w v, rename w = some v → endsIn isDot v = endsIn isDot w) {behind : Bool}
    {w : List α} {ws : List (List α)} :
    Stands isDot behind w (renameRuns isDot rename behind ws) ↔
      ∃ v, Stands isDot behind v ws ∧ (rename v).getD v = w := by
  induction ws generalizing behind with
  | nil => simp [renameRuns, not_stands_nil]
  | cons u ws ih =>
    rw [renameRuns, stands_cons_iff, endsIn_renameRun hdot, ih]
    simp only [stands_cons_iff]
    cases behind <;> grind [renameRun]

/-- Two renamings that keep dots, one after the other, make one. -/
theorem renameRuns_renameRuns {isDot : α → Bool} {first second : List α → Option (List α)}
    (hdot : ∀ w v, first w = some v → endsIn isDot v = endsIn isDot w) (behind : Bool)
    (ws : List (List α)) :
    renameRuns isDot second behind (renameRuns isDot first behind ws) =
      renameRuns isDot (fun w => (first w).elim (second w) fun v => some ((second v).getD v))
        behind ws := by
  induction ws generalizing behind with
  | nil => rfl
  | cons u ws ih =>
    rw [renameRuns, renameRuns, renameRuns, endsIn_renameRun hdot, ih]
    congr 1
    cases behind with
    | true => rfl
    | false => cases hf : first u <;> simp [renameRun, hf]

/-- Renamings that agree on the standing runs have the same result. -/
theorem renameRuns_congr {isDot : α → Bool} {first second : List α → Option (List α)}
    {behind : Bool} {ws : List (List α)}
    (h : ∀ w, Stands isDot behind w ws → first w = second w) :
    renameRuns isDot first behind ws = renameRuns isDot second behind ws := by
  induction ws generalizing behind with
  | nil => rfl
  | cons u ws ih =>
    have htail := ih fun w hw => h w (stands_cons_iff.mpr (Or.inr hw))
    rw [renameRuns, renameRuns, htail]
    cases behind with
    | true => rfl
    | false =>
      rw [renameRun, renameRun, h u (stands_cons_iff.mpr (Or.inl ⟨rfl, rfl⟩))]

/-- A renaming without names changes nothing. -/
theorem renameRuns_none (isDot : α → Bool) (behind : Bool) (ws : List (List α)) :
    renameRuns isDot (fun _ => none) behind ws = ws := by
  induction ws generalizing behind with
  | nil => rfl
  | cons u ws ih => simp [renameRuns, renameRun, ih]

/-- Renaming solid runs to solid runs changes neither whether a run is one nor whether its ends are
solid. -/
theorem isRun_renameRun {solid : α → Bool} {rename : List α → Option (List α)}
    (hsolid : ∀ w v, rename w = some v →
      v ≠ [] ∧ (∀ a ∈ w, solid a = true) ∧ ∀ a ∈ v, solid a = true)
    {w : List α} (hw : IsRun solid w) (behind : Bool) :
    IsRun solid (renameRun rename behind w) ∧
      endsIn solid (renameRun rename behind w) = endsIn solid w ∧
      ∀ l l', startsIn solid (renameRun rename behind w ++ l) = startsIn solid (w ++ l') := by
  have hsame : IsRun solid w ∧ endsIn solid w = endsIn solid w ∧
      ∀ l l', startsIn solid (w ++ l) = startsIn solid (w ++ l') :=
    ⟨hw, rfl, fun l l' => by rw [startsIn_append solid hw.1, startsIn_append solid hw.1]⟩
  cases behind with
  | true => exact hsame
  | false =>
    cases hr : rename w with
    | none => simpa [renameRun, hr] using hsame
    | some v =>
      obtain ⟨hv, hws, hvs⟩ := hsolid w v hr
      have hrun : renameRun rename false w = v := by simp [renameRun, hr]
      rw [hrun]
      refine ⟨⟨hv, Or.inl hvs⟩, ?_, fun l l' => ?_⟩
      · rw [endsIn_eq solid hv, endsIn_eq solid hw.1, hvs _ (List.getLast_mem hv),
          hws _ (List.getLast_mem hw.1)]
      · rw [startsIn_append solid hv, startsIn_append solid hw.1, hvs _ (List.head_mem hv),
          hws _ (List.head_mem hw.1)]

/-- Renaming solid runs to solid runs keeps the division into runs. -/
theorem isRuns_renameRuns {solid isDot : α → Bool} {rename : List α → Option (List α)}
    (hsolid : ∀ w v, rename w = some v →
      v ≠ [] ∧ (∀ a ∈ w, solid a = true) ∧ ∀ a ∈ v, solid a = true)
    {ws : List (List α)} (h : IsRuns solid ws) (behind : Bool) :
    IsRuns solid (renameRuns isDot rename behind ws) ∧
      startsIn solid (renameRuns isDot rename behind ws).flatten = startsIn solid ws.flatten := by
  induction ws generalizing behind with
  | nil => exact ⟨isRuns_nil solid, rfl⟩
  | cons w ws ih =>
    obtain ⟨hrun, hs, hws⟩ := isRuns_cons_iff.mp h
    obtain ⟨ihr, ihs⟩ := ih hws (endsIn isDot w)
    obtain ⟨hrun', hend, hstart⟩ := isRun_renameRun hsolid hrun behind
    rw [renameRuns]
    refine ⟨isRuns_cons_iff.mpr ⟨hrun', ?_, ihr⟩, hstart _ _⟩
    rw [ihs]
    exact hend ▸ hs

end HostScript.Script
