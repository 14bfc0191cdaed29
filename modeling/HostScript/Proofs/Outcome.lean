import HostScript.Fault
import HostScript.Pattern.Match

/-!
# Outcomes of steps in sequence

A computation in steps has a result exactly when each of its steps has one.
-/

namespace HostScript.Outcome

variable {α β : Type}

/-- Two steps in sequence succeed exactly when the first does and the second does on its result. -/
theorem bind_eq_ok_iff {x : Outcome α} {f : α → Outcome β} {b : β} :
    x >>= f = .ok b ↔ ∃ a, x = .ok a ∧ f a = .ok b := by
  constructor
  · intro h
    cases x with
    | ok a => exact ⟨a, rfl, h⟩
    | error e => cases h
  · rintro ⟨a, rfl, h⟩
    exact h

/-- A result that is changed afterwards is a changed result. -/
theorem map_eq_ok_iff {x : Outcome α} {f : α → β} {b : β} :
    f <$> x = .ok b ↔ ∃ a, x = .ok a ∧ f a = b := by
  constructor
  · intro h
    cases x with
    | ok a => exact ⟨a, rfl, Except.ok.inj h⟩
    | error e => cases h
  · rintro ⟨a, rfl, rfl⟩
    rfl

/-- Each result of steps in a row is the result of one of them. -/
theorem exists_of_mem_mapM {f : α → Outcome β} {xs : List α} {ys : List β}
    (h : xs.mapM f = .ok ys) {y : β} (hy : y ∈ ys) : ∃ x ∈ xs, f x = .ok y := by
  induction xs generalizing ys with
  | nil =>
    obtain rfl := Except.ok.inj h
    simp at hy
  | cons x xs ih =>
    rw [List.mapM_cons] at h
    obtain ⟨z, hz, hrest⟩ := bind_eq_ok_iff.mp h
    obtain ⟨zs, hzs, hys⟩ := bind_eq_ok_iff.mp hrest
    obtain rfl := Except.ok.inj hys
    rcases List.mem_cons.mp hy with rfl | hy
    · exact ⟨x, List.mem_cons_self .., hz⟩
    · obtain ⟨u, hu, hfu⟩ := ih hzs hy
      exact ⟨u, List.mem_cons_of_mem _ hu, hfu⟩

/-- A step succeeds with a result exactly when it has that result, causes of failure aside. -/
theorem toOption_eq_some_iff {x : Outcome α} {a : α} : x.toOption = some a ↔ x = .ok a := by
  cases x with
  | ok b => exact ⟨fun h => congrArg _ (Option.some.inj h), fun h => congrArg _ (Except.ok.inj h)⟩
  | error e => simp [Except.toOption]

end HostScript.Outcome

/-!
## The faults that computations fail with

A request is refused for its size, its format or its profile. Work on a request fails for other
reasons. Which faults a computation can fail with follows from its steps: the simplifier takes it
apart by the lemmas here, down to lemmas about the functions it calls.
-/

namespace HostScript

namespace Fault

/-- Whether a fault refuses a request: for its size, its format or its profile. -/
def isRefusal : Fault → Bool
  | .unsupportedFormat .. | .sizeLimit .. | .unknownProfile .. => true
  | _ => false

/-- A fault of the work on a request. -/
def IsOfWork (f : Fault) : Prop := f.isRefusal = false

@[simp]
theorem isOfWork_badValue (message : Text) : IsOfWork (.badValue message) := rfl

@[simp]
theorem isOfWork_outOfRange : IsOfWork .outOfRange := rfl

@[simp]
theorem isOfWork_misplaced : IsOfWork .misplaced := rfl

@[simp]
theorem isOfWork_wrongShape : IsOfWork .wrongShape := rfl

end Fault

namespace Outcome

variable {α β : Type} {P : Fault → Prop}

/-- A computation that fails only with faults of one sort. -/
def FailsOnly (P : Fault → Prop) (x : Outcome α) : Prop := ∀ f, x = .error f → P f

/-- A computation that does not fail with a refusal. -/
abbrev NeverRefuses (x : Outcome α) : Prop := FailsOnly Fault.IsOfWork x

/-- A result is no failure. -/
@[simp]
theorem failsOnly_ok (a : α) : FailsOnly P (.ok a) := nofun

/-- A computation without steps has a result. -/
@[simp]
theorem failsOnly_pure (a : α) : FailsOnly P (pure a : Outcome α) := nofun

/-- A failure is one with its own fault. -/
@[simp]
theorem failsOnly_error_iff {f : Fault} : FailsOnly P (.error f : Outcome α) ↔ P f :=
  ⟨fun h => h f rfl, fun h _ hg => Except.error.inj hg ▸ h⟩

/-- A failure does not bear on the type of the result that is missing. -/
theorem FailsOnly.of_error {e : Fault} (h : FailsOnly P (.error e : Outcome α)) :
    FailsOnly P (.error e : Outcome β) :=
  failsOnly_error_iff.mpr (failsOnly_error_iff.mp h)

/-- Two steps fail as the first does, or as the second does on a result of the first. -/
@[simp]
theorem failsOnly_bind_iff {x : Outcome α} {f : α → Outcome β} :
    FailsOnly P (x >>= f) ↔ FailsOnly P x ∧ ∀ a, x = .ok a → FailsOnly P (f a) := by
  cases x with
  | ok a => exact ⟨fun h => ⟨nofun, fun b hb => Except.ok.inj hb ▸ h⟩, fun h => h.2 a rfl⟩
  | error e =>
    exact ⟨fun h => ⟨fun g hg => h g (Except.error.inj hg ▸ rfl), nofun⟩,
      fun h g hg => h.1 g (Except.error.inj hg ▸ rfl)⟩

/-- A change of the result does not bear on failure. -/
@[simp]
theorem failsOnly_map_iff {x : Outcome α} {g : α → β} : FailsOnly P (g <$> x) ↔ FailsOnly P x := by
  cases x with
  | ok a => exact iff_of_true nofun nofun
  | error e => exact ⟨FailsOnly.of_error, FailsOnly.of_error⟩

/-- A choice fails as the side that is taken. -/
@[simp]
theorem failsOnly_ite_iff {c : Prop} [Decidable c] {x y : Outcome α} :
    FailsOnly P (if c then x else y) ↔ (c → FailsOnly P x) ∧ (¬c → FailsOnly P y) := by
  split
  · rename_i hc
    exact ⟨fun h => ⟨fun _ => h, fun hn => absurd hc hn⟩, fun h => h.1 hc⟩
  · rename_i hc
    exact ⟨fun h => ⟨fun hn => absurd hn hc, fun _ => h⟩, fun h => h.2 hc⟩

/-- Steps on the members of a list fail as one of them does. -/
theorem failsOnly_mapM {f : α → Outcome β} (xs : List α) (h : ∀ x ∈ xs, FailsOnly P (f x)) :
    FailsOnly P (xs.mapM f) := by
  induction xs with
  | nil => exact failsOnly_pure _
  | cons x xs ih =>
    have hx := h x (List.mem_cons_self ..)
    have hxs := ih fun y hy => h y (List.mem_cons_of_mem _ hy)
    simp [List.mapM_cons, hx, hxs]

/-- A fold over a list fails as one of its steps does. -/
theorem failsOnly_foldlM {f : β → α → Outcome β} {xs : List α}
    (h : ∀ b, ∀ x ∈ xs, FailsOnly P (f b x)) (b : β) : FailsOnly P (xs.foldlM f b) := by
  induction xs generalizing b with
  | nil => exact failsOnly_pure _
  | cons x xs ih =>
    have hx := fun b => h b x (List.mem_cons_self ..)
    have hxs := ih fun b y hy => h b y (List.mem_cons_of_mem _ hy)
    simp [List.foldlM_cons, hx, hxs]

/-- A replacement fails as one of the new texts does. -/
theorem failsOnly_replaceM {f : Match → Outcome Text} {p : Pattern} {t : Text}
    (h : ∀ m ∈ p.allIn t, FailsOnly P (f m)) : FailsOnly P (p.replaceM f t) := by
  rw [Pattern.replaceM]
  generalize 0 = pos
  generalize p.allIn t = ms at h
  induction ms generalizing pos with
  | nil => exact failsOnly_pure _
  | cons m ms ih =>
    rw [List.forall_mem_cons] at h
    simp [Pattern.spliceM, h.1, ih _ h.2]

/-- A computation that cannot fail has a result. -/
theorem FailsOnly.exists_ok {x : Outcome α} (h : FailsOnly (fun _ => False) x) :
    ∃ a, x = .ok a := by
  cases x with
  | ok a => exact ⟨a, rfl⟩
  | error f => exact (h f rfl).elim

end Outcome

end HostScript
