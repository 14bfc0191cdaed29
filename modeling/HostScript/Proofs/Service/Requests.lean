import HostScript.Proofs.Outcome
import HostScript.Proofs.Refusal
import HostScript.Service.Basic
import HostScript.Service.Compile

/-!
# Requests to a service

A listing can be compiled, or converted and adapted. Both ways lower it, optimize it and adapt it,
and both warn of the same. They differ at level zero, where converting leaves the optimizer out: but
there the optimizer gives back the script that it accepts. A request that is rejected before any
work leaves the service as it was.
-/

/-!
## Actions of a service in sequence

An action has a result or fails, and in both cases leaves a service behind. Asking a cache counts
one hit or one miss, and a cache that has kept nothing gives what is computed.
-/

namespace HostScript

namespace Cache

variable {τ κ α ε : Type} [BEq κ]

/-- A cache without entries is missed. -/
theorem request_of_entries_eq_nil {c : Cache τ κ α} (h : c.entries = []) (now : τ) (key : κ) :
    c.request now key = (none, { c with misses := c.misses + 1 }) := by
  have hnone : Cache.entry? c key = none := by
    rw [Cache.entry?, h]
    rfl
  rw [request, lookup, hnone]

/-- A cache without entries computes what it is asked for. -/
theorem getOrCompute_of_entries_eq_nil {c : Cache τ κ α} (h : c.entries = []) (now : τ) (key : κ)
    (compute : Unit → Except ε α) :
    (c.getOrCompute now key compute).1 = (compute ()).map (·, false) := by
  rw [getOrCompute, getOrComputeM, request_of_entries_eq_nil h]
  cases compute () <;> rfl

/-- A request fails as its computation does. -/
theorem failsOnly_getOrCompute {P : Fault → Prop} {compute : Unit → Outcome α}
    (h : Outcome.FailsOnly P (compute ())) (c : Cache τ κ α) (now : τ) (key : κ) :
    Outcome.FailsOnly P (c.getOrCompute now key compute).1 := by
  rw [getOrCompute, getOrComputeM]
  cases c.request now key with
  | mk found d =>
    cases found with
    | some v => exact Outcome.failsOnly_ok _
    | none =>
      cases hc : compute () with
      | ok v => exact Outcome.failsOnly_ok _
      | error e =>
        rw [hc] at h
        exact h.of_error

/-- A look at a key counts nothing. -/
theorem counts_lookup (c : Cache τ κ α) (now : τ) (key : κ) :
    (c.lookup now key).2.hits = c.hits ∧ (c.lookup now key).2.misses = c.misses := by
  rw [lookup]
  split
  · exact ⟨rfl, rfl⟩
  · split <;> exact ⟨rfl, rfl⟩

/-- A request counts as a hit or as a miss. -/
theorem counts_getOrCompute (c : Cache τ κ α) (now : τ) (key : κ)
    (compute : Unit → Except ε α) :
    (c.getOrCompute now key compute).2.hits + (c.getOrCompute now key compute).2.misses =
      c.hits + c.misses + 1 := by
  obtain ⟨hhits, hmisses⟩ := c.counts_lookup now key
  rw [getOrCompute, getOrComputeM, request]
  cases hfound : c.lookup now key with
  | mk found d =>
    rw [hfound] at hhits hmisses
    dsimp only at hhits hmisses
    cases found with
    | some v =>
      change d.hits + 1 + d.misses = _
      omega
    | none =>
      cases compute () with
      | ok v =>
        change d.hits + (d.misses + 1) = _
        omega
      | error e =>
        change d.hits + (d.misses + 1) = _
        omega

end Cache

namespace Service.Action

variable {α β : Type} {x : Action α} {f : α → Action β} {s s' : Service}

/-- Two actions in sequence: the second acts on what the first leaves behind, and only if the first
has a result. -/
theorem bind_apply (x : Action α) (f : α → Action β) (s : Service) :
    (x >>= f) s = match x s with
      | (.ok a, s₁) => f a s₁
      | (.error e, s₁) => (.error e, s₁) := by
  change (match (x s).1, (x s).2 with | r, s₁ => ExceptT.bindCont f r s₁) = _
  rcases x s with ⟨_ | _, s₁⟩ <;> rfl

/-- An action that only gives a result. -/
@[simp]
theorem pure_apply (a : α) (s : Service) : (pure a : Action α) s = (.ok a, s) := rfl

/-- An action that only looks at the service. -/
@[simp]
theorem get_apply (s : Service) : (get : Action Service) s = (.ok s, s) := rfl

/-- A computation without state leaves the service alone. -/
@[simp]
theorem lift_apply (r : Outcome α) (s : Service) : lift r s = (r, s) := rfl

/-- An action whose result is changed afterwards. -/
theorem map_apply (g : α → β) (x : Action α) (s : Service) :
    (g <$> x) s = ((x s).1.map g, (x s).2) := by
  change (x >>= fun a => pure (g a)) s = _
  rw [bind_apply]
  rcases x s with ⟨_ | _, s₁⟩ <;> rfl

/-- An action that looks at the service first acts on what it finds. -/
@[simp]
theorem get_bind_apply (f : Service → Action β) (s : Service) : (get >>= f) s = f s s := by
  rw [bind_apply, get_apply]

/-- Two actions in sequence fail as the first does, or as the second does on what the first gives
and leaves behind. -/
theorem failsOnly_bind {P : Fault → Prop} (hx : Outcome.FailsOnly P (x s).1)
    (hf : ∀ a s₁, x s = (.ok a, s₁) → Outcome.FailsOnly P (f a s₁).1) :
    Outcome.FailsOnly P ((x >>= f) s).1 := by
  rw [bind_apply]
  rcases hxs : x s with ⟨e | a, s₁⟩
  · rw [hxs] at hx
    exact hx.of_error
  · exact hf a s₁ hxs

/-- Two actions in sequence have a result exactly when both have one. -/
theorem bind_eq_ok_iff {b : β} :
    (x >>= f) s = (.ok b, s') ↔ ∃ a s₁, x s = (.ok a, s₁) ∧ f a s₁ = (.ok b, s') := by
  rw [bind_apply]
  constructor
  · intro h
    rcases hx : x s with ⟨_ | a, s₁⟩
    · rw [hx] at h
      cases h
    · rw [hx] at h
      exact ⟨a, s₁, rfl, h⟩
  · rintro ⟨a, s₁, hx, hf⟩
    rw [hx]
    exact hf

/-- Two actions in sequence fail exactly when the first fails, or the second on its result. -/
theorem bind_eq_error_iff {e : Fault} :
    (x >>= f) s = (.error e, s') ↔
      x s = (.error e, s') ∨ ∃ a s₁, x s = (.ok a, s₁) ∧ f a s₁ = (.error e, s') := by
  rw [bind_apply]
  constructor
  · intro h
    rcases hx : x s with ⟨e₁ | a, s₁⟩
    · rw [hx] at h
      cases h
      exact Or.inl rfl
    · rw [hx] at h
      exact Or.inr ⟨a, s₁, rfl, h⟩
  · rintro (hx | ⟨a, s₁, hx, hf⟩)
    · rw [hx]
    · rw [hx]
      exact hf

/-- A computation without state before an action fails and leaves the service alone, or it has a
result and the action fails. -/
theorem lift_bind_eq_error_iff {r : Outcome α} {e : Fault} :
    (lift r >>= f) s = (.error e, s') ↔
      r = .error e ∧ s' = s ∨ ∃ a, r = .ok a ∧ f a s = (.error e, s') := by
  rw [bind_apply, lift_apply]
  cases r with
  | ok a => simp
  | error e' =>
    constructor
    · intro h
      cases h
      exact Or.inl ⟨rfl, rfl⟩
    · rintro (⟨he, rfl⟩ | ⟨a, ha, -⟩)
      · cases he
        rfl
      · cases ha

end Service.Action

end HostScript

/-! ## Compiling and converting -/

namespace HostScript

/-- At level zero, the optimizer gives back the script that it accepts. -/
theorem Optimize.code_of_optimize_zero {accepts : Acceptance} {code : Text} {a : Artifact}
    (h : Optimize.optimize accepts 0 code = .ok a) : a.code = code := by
  change (accepts code >>= fun _ => .ok ⟨code, 0, [], []⟩) = .ok a at h
  obtain ⟨-, -, ha⟩ := Outcome.bind_eq_ok_iff.mp h
  rw [← Except.ok.inj ha]

/-- The tags of formats are no tags of dialects. -/
theorem Dialect.ofTag?_eq_none_of_format? {tag : Text} (h : (Listing.format? tag).isSome) :
    Dialect.ofTag? tag = none := by
  have hnone : ∀ f ∈ Listing.formats, Dialect.ofTag? f.tag.toList = none := by decide
  obtain ⟨f, hf⟩ := Option.isSome_iff_exists.mp h
  rw [Listing.format?] at hf
  have htag := List.find?_some hf
  obtain rfl : f.tag.toList = tag := eq_of_beq htag
  exact hnone f (List.mem_of_find?_eq_some hf)

namespace Service

variable {s s' : Service}

/-- Whether a service has kept nothing yet. -/
structure IsFresh (s : Service) : Prop where
  compiles : s.compiles.entries = []
  optimizer : s.optimizer.entries = []
  adapter : s.adapter.entries = []

/-- A service with empty caches is fresh. -/
theorem isFresh_of_ofSettings {settings : Settings} {registry : Registry}
    (h : ofSettings settings registry = .ok s) : s.IsFresh := by
  obtain ⟨policy, -, hs⟩ := Outcome.bind_eq_ok_iff.mp h
  obtain rfl := Except.ok.inj hs
  exact ⟨rfl, rfl, rfl⟩

/-- A result comes back from the mark whether it was found. -/
theorem map_fst_map_found {α : Type} (x : Outcome α) : (x.map (·, false)).map (·.1) = x := by
  cases x <;> rfl

/-- With nothing kept, a script is optimized afresh, and only the optimizer changes. -/
theorem exists_optimize_eq (h : s.optimizer.entries = []) (level : Int) (code : Text) :
    ∃ optimizer, optimize level code s =
      (Optimize.optimize s.accepts level code, { s with optimizer }) := by
  refine ⟨(s.optimizer.optimize s.accepts s.now level code).2, Prod.ext ?_ rfl⟩
  change (s.optimizer.optimize s.accepts s.now level code).1.map (·.1) = _
  rw [Optimize.Pipeline.optimize, Optimize.optimize]
  cases Optimize.passesFor level with
  | error f => rfl
  | ok ps =>
    change (s.optimizer.getOrCompute _ _ _).1.map (·.1) = Optimize.runPasses s.accepts ps level code
    rw [Cache.getOrCompute_of_entries_eq_nil h, map_fst_map_found]

/-- With nothing kept, a script is adapted afresh, and only the adapter changes. -/
theorem exists_adapt_eq_fresh (h : s.adapter.entries = []) (p : Profile) (o : Adapt.Options)
    (code : Text) :
    ∃ adapter, adapt p o code s = (Adapt.adapt p o code, { s with adapter }) := by
  refine ⟨(s.adapter.adapt s.now p o code).2, Prod.ext ?_ rfl⟩
  change (s.adapter.adapt s.now p o code).1.map (·.1) = _
  rw [Adapt.Adapter.adapt, Cache.getOrCompute_of_entries_eq_nil h, map_fst_map_found]

/-- What a fresh service compiles is drafted, optimized and adapted. -/
theorem exists_of_compileFresh_eq {r : CompileRequest} {key : Text} {origin : Origin} {p : Profile}
    {c : Compiled} (hoptimizer : s.optimizer.entries = []) (hadapter : s.adapter.entries = [])
    (h : compileFresh r key origin p s = (.ok c, s')) :
    ∃ d o a, draft r.source r.dialect origin = .ok d ∧
      Optimize.optimize s.accepts r.level d.code = .ok o ∧
      Adapt.adapt p ⟨r.polyfills, r.forSize, r.level⟩ o.code = .ok a ∧
      c.code = a.code ∧ c.adaptations = a.applied ∧ c.verdict = a.verdict ∧
      c.warnings = d.warnings ++ a.warnings ∧ c.routines = d.routines := by
  obtain ⟨d, s₁, hdrafted, h⟩ := Action.bind_eq_ok_iff.mp h
  obtain ⟨hd, rfl⟩ := Prod.mk.inj hdrafted
  obtain ⟨o, s₂, hoptimized, h⟩ := Action.bind_eq_ok_iff.mp h
  obtain ⟨optimizer, hoptimize⟩ := exists_optimize_eq hoptimizer r.level d.code
  obtain ⟨ho, rfl⟩ := Prod.mk.inj (hoptimize.symm.trans hoptimized)
  obtain ⟨a, s₃, hadapted, h⟩ := Action.bind_eq_ok_iff.mp h
  obtain ⟨adapter, hadapt⟩ := exists_adapt_eq_fresh (s := { s with optimizer }) hadapter p
    ⟨r.polyfills, r.forSize, r.level⟩ o.code
  obtain ⟨ha, rfl⟩ := Prod.mk.inj (hadapt.symm.trans hadapted)
  rw [Action.pure_apply] at h
  cases h
  exact ⟨d, o, a, hd, ho, ha, rfl, rfl, rfl, rfl, rfl⟩

/-- A fresh service compiles what passes the checks, without finding it. -/
theorem exists_of_compile_eq {r : CompileRequest} {x : CompileResponse} (hs : s.IsFresh)
    (h : compile r s = (.ok x, s')) :
    ∃ p origin key compiles s₁, checkRequest s r = .ok (p, origin) ∧
      compileFresh r key origin p { s with compiles } = (.ok x.compiled, s₁) := by
  rw [compile, Action.get_bind_apply, Action.bind_eq_ok_iff] at h
  obtain ⟨⟨p, origin⟩, s₁, hchecked, h⟩ := h
  obtain ⟨hcheck, rfl⟩ := Prod.mk.inj hchecked
  obtain ⟨⟨c, hit⟩, s₂, hc, hx⟩ := Action.bind_eq_ok_iff.mp h
  dsimp only at hx
  rw [Action.pure_apply] at hx
  cases hx
  rw [compileCached, Cache.request_of_entries_eq_nil hs.compiles] at hc
  dsimp only at hc
  split at hc
  · rename_i c' s₃ hfresh
    cases hc
    exact ⟨p, origin, _, _, s₃, hcheck, hfresh⟩
  · cases hc

/-- What a listing is drafted from. -/
theorem draft_listing_eq_ok_iff {source tag : Text} {d : Draft} :
    draft source tag .listing = .ok d ↔ ∃ routines, Listing.lower source tag = .ok routines ∧
      d = { code := Routine.scriptOf tag routines, warnings := listingWarnings tag routines,
            stages := ["lower"], routines := some routines } := by
  rw [draft, Outcome.bind_eq_ok_iff]
  refine exists_congr fun routines => and_congr_right fun _ => ?_
  exact ⟨fun h => (Except.ok.inj h).symm, fun h => congrArg _ h.symm⟩

/-- What a request that passes the checks fulfils. -/
theorem of_checkRequest_eq {r : CompileRequest} {p : Profile} {origin : Origin}
    (h : checkRequest s r = .ok (p, origin)) :
    s.checkSize r.source = .ok () ∧ checkLevel r.level = .ok () ∧ s.profile r.profile = .ok p ∧
      originOf r.dialect = .ok origin := by
  obtain ⟨⟨⟩, hsize, h⟩ := Outcome.bind_eq_ok_iff.mp h
  obtain ⟨⟨⟩, hlevel, h⟩ := Outcome.bind_eq_ok_iff.mp h
  obtain ⟨p', hprofile, h⟩ := Outcome.bind_eq_ok_iff.mp h
  obtain ⟨origin', horigin, h⟩ := Outcome.bind_eq_ok_iff.mp h
  cases h
  exact ⟨hsize, hlevel, hprofile, horigin⟩

/-- The tag of a format names listings. -/
theorem originOf_eq_listing {tag : Text} (h : (Listing.format? tag).isSome) :
    originOf tag = .ok .listing := by
  rw [originOf, Dialect.ofTag?_eq_none_of_format? h]
  exact if_pos h

/-- Whether the optimizer is left out or not, its code is what it would give. -/
theorem exists_optimizeIf_eq (hs : s.optimizer.entries = []) {level : Int} {code : Text}
    {o : Optimize.Artifact} (ho : Optimize.optimize s.accepts level code = .ok o) :
    ∃ optimized optimizer, optimizeIf level code s = (.ok optimized, { s with optimizer }) ∧
      (optimized.map (·.code)).getD code = o.code := by
  by_cases hlevel : level = 0
  · subst hlevel
    exact ⟨none, s.optimizer, rfl, (Optimize.code_of_optimize_zero ho).symm⟩
  · obtain ⟨optimizer, hoptimize⟩ := exists_optimize_eq hs level code
    refine ⟨some o, optimizer, ?_, rfl⟩
    rw [optimizeIf, if_neg (by simpa using hlevel), Action.map_apply, hoptimize, ho]
    rfl

/-- A script is adapted if its profile is known and it can be adapted. -/
theorem exists_adaptIf_eq (hs : s.adapter.entries = []) {r : ConvertRequest} {p : Profile}
    {code : Text} {a : Adapt.Adaptation} (hr : r.adapt = true) (hp : s.profile r.profile = .ok p)
    (ha : Adapt.adapt p { level := r.level } code = .ok a) :
    ∃ adapter, adaptIf r code s = (.ok (some a), { s with adapter }) := by
  obtain ⟨adapter, hadapt⟩ := exists_adapt_eq_fresh hs p { level := r.level } code
  refine ⟨adapter, ?_⟩
  rw [adaptIf, if_pos hr, Action.get_bind_apply, Action.bind_apply, Action.lift_apply, hp]
  dsimp only
  rw [Action.map_apply, hadapt, ha]
  rfl

/-- A listing that is lowered, optimized and adapted is converted. -/
theorem exists_convert_eq {r : ConvertRequest} {routines : List Routine}
    {optimized : Option Optimize.Artifact} {adapted : Option Adapt.Adaptation} {s₁ s₂ : Service}
    (hsize : s.checkSize r.instructions = .ok ()) (hlevel : checkLevel r.level = .ok ())
    (hlower : Listing.lower r.instructions r.format = .ok routines)
    (hoptimize : optimizeIf r.level (Routine.scriptOf r.format routines) s = (.ok optimized, s₁))
    (hadapt : adaptIf r ((optimized.map (·.code)).getD (Routine.scriptOf r.format routines)) s₁ =
      (.ok adapted, s₂)) :
    ∃ y, convert r s = (.ok y, s₂) ∧
      y.code = (adapted.map (·.code)).getD
        ((optimized.map (·.code)).getD (Routine.scriptOf r.format routines)) ∧
      y.routines = routines ∧
      y.warnings = listingWarnings r.format routines ++ (adapted.map (·.warnings)).getD [] ∧
      y.adaptation = adapted := by
  rw [convert, Action.get_bind_apply, Action.bind_apply, Action.lift_apply, hsize]
  dsimp only
  rw [Action.bind_apply, Action.lift_apply, hlevel]
  dsimp only
  rw [Action.bind_apply, Action.lift_apply, hlower]
  dsimp only
  rw [Action.bind_apply, hoptimize]
  dsimp only
  rw [Action.bind_apply, hadapt]
  exact ⟨_, rfl, rfl, rfl, rfl, rfl⟩

/-- If a fresh service compiles a listing with the default options, then a fresh service converts
and adapts it, with the same code, the same warnings in the same order, the same routines, the same
adaptations and the same verdict. -/
theorem convert_of_compile (hs : s.IsFresh) {r : CompileRequest}
    (hformat : (Listing.format? r.dialect).isSome) (hpolyfills : r.polyfills = true)
    (hsize : r.forSize = false) {x : CompileResponse} (h : compile r s = (.ok x, s')) :
    ∃ y s'', convert ⟨r.source, r.dialect, r.profile, r.level, true⟩ s = (.ok y, s'') ∧
      y.code = x.compiled.code ∧ y.warnings = x.compiled.warnings ∧
      x.compiled.routines = some y.routines ∧
      ∃ a, y.adaptation = some a ∧ a.applied = x.compiled.adaptations ∧
        a.verdict = x.compiled.verdict := by
  obtain ⟨p, origin, key, compiles, s₁, hcheck, hfresh⟩ := exists_of_compile_eq hs h
  obtain ⟨hlength, hlevel, hprofile, horigin⟩ := of_checkRequest_eq hcheck
  obtain rfl := Except.ok.inj ((originOf_eq_listing hformat).symm.trans horigin)
  obtain ⟨d, o, a, hd, ho, ha, hcode, happlied, hverdict, hwarnings, hroutines⟩ :=
    exists_of_compileFresh_eq (s := { s with compiles }) hs.optimizer hs.adapter hfresh
  obtain ⟨routines, hlower, rfl⟩ := draft_listing_eq_ok_iff.mp hd
  rw [hpolyfills, hsize] at ha
  obtain ⟨optimized, optimizer, hoptimize, hsame⟩ := exists_optimizeIf_eq hs.optimizer ho
  rw [← hsame] at ha
  obtain ⟨adapter, hadapt⟩ := exists_adaptIf_eq (s := { s with optimizer }) hs.adapter
    (r := ⟨r.source, r.dialect, r.profile, r.level, true⟩) rfl hprofile ha
  obtain ⟨y, hy, hycode, hyroutines, hywarnings, hyadaptation⟩ :=
    exists_convert_eq (r := ⟨r.source, r.dialect, r.profile, r.level, true⟩) hlength hlevel hlower
      hoptimize hadapt
  refine ⟨y, _, hy, ?_, ?_, ?_, a, hyadaptation, happlied.symm, hverdict.symm⟩
  · rw [hycode, hcode]
    rfl
  · rw [hywarnings, hwarnings]
    rfl
  · rw [hyroutines, hroutines]

/-- An action that has a result has it together with what it leaves behind. -/
theorem exists_eq_ok_of_isSome {α : Type} {z : Outcome α × Service}
    (h : z.1.toOption.isSome) : ∃ a s', z = (.ok a, s') := by
  obtain ⟨_ | a, s'⟩ := z
  · cases h
  · exact ⟨a, s', rfl⟩

/-- A host that forbids nothing and lacks nothing. -/
def bareHost : Profile where
  name := "bare"
  harness := "script"
  bridgeApi := "print"

/-- A service that knows one host and has done nothing yet. -/
def bareService : Service where
  settings := {}
  registry := .ofProfiles [bareHost]
  compiles := { name := "compile", policy := .unbounded }
  optimizer := { name := "optimize", policy := .unbounded }
  adapter := { name := "adapt", policy := .unbounded }

/-- The listing of a function that gives back what it gets. -/
def identityRequest : CompileRequest where
  source := "define i32 @f(i32 %x) \x7b\n  ret i32 %x\n\x7d"
  dialect := "ios-llvm"
  profile := "bare"
  level := 1

/-- The listing of the identity is compiled, and converted to the same script. -/
theorem convert_of_compile_identity :
    bareService.IsFresh ∧ (Listing.format? identityRequest.dialect).isSome ∧
      ∃ x s' y s'', compile identityRequest bareService = (.ok x, s') ∧
        convert ⟨identityRequest.source, identityRequest.dialect, identityRequest.profile,
          identityRequest.level, true⟩ bareService = (.ok y, s'') ∧
        y.code = x.compiled.code ∧ y.warnings = x.compiled.warnings := by
  have hs : bareService.IsFresh := ⟨rfl, rfl, rfl⟩
  have hformat : (Listing.format? identityRequest.dialect).isSome := by decide
  have hsome : (compile identityRequest bareService).1.toOption.isSome := by decide +kernel
  obtain ⟨x, s', hcompile⟩ := exists_eq_ok_of_isSome hsome
  obtain ⟨y, s'', hconvert, hcode, hwarnings, -⟩ :=
    convert_of_compile hs hformat rfl rfl hcompile
  exact ⟨hs, hformat, x, s', y, s'', hcompile, hconvert, hcode, hwarnings⟩

end Service

end HostScript

/-!
## Rejected requests

A request is rejected for its size, its format, its profile or its level. To compile, all of these
are checked before any work is done, so a rejected request leaves the service as it was. To convert,
the profile is looked up last: by then the listing is lowered, and at all levels but zero it is
optimized, which the cache of the optimizer has counted.
-/

namespace HostScript.Service

open Outcome

variable {s s' : Service} {f : Fault}

/-- A fault that rejects a request at a level: for its size, its format, its profile or the level
itself. -/
def Rejects (level : Int) (f : Fault) : Prop := f.isRefusal = true ∨ checkLevel level = .error f

/-- At a level that exists, no fault of the work on a request rejects it. -/
theorem not_rejects {level : Int} (hlevel : checkLevel level = .ok ()) (hf : f.IsOfWork) :
    ¬ Rejects level f := by
  rintro (h | h)
  · rw [hf] at h
    cases h
  · rw [hlevel] at h
    cases h

/-- Lowering a listing does not fail for a profile. -/
theorem ne_unknownProfile_of_lower {t tag name : Text} {available : List Text}
    (h : Listing.lower t tag = .error f) : f ≠ .unknownProfile name available := by
  rintro rfl
  cases hformat : Listing.format? tag with
  | none =>
    rw [Listing.lower, Listing.format, hformat] at h
    cases h
  | some g => cases Listing.neverRefuses_lower (hformat ▸ rfl) t _ h

/-- A service whose test of scripts fails only for what is wrong with a script. -/
def TestsScripts (s : Service) : Prop := ∀ code, NeverRefuses (s.accepts code)

section Work

variable (hs : s.TestsScripts)

include hs

/-- Optimizing refuses no request. -/
theorem neverRefuses_optimize (level : Int) (code : Text) :
    NeverRefuses (optimize level code s).1 := by
  change NeverRefuses ((s.optimizer.optimize s.accepts s.now level code).1.map (·.1))
  refine failsOnly_map_iff.mpr ?_
  rw [Optimize.Pipeline.optimize]
  have hpasses := Optimize.neverRefuses_passesFor level
  cases hps : Optimize.passesFor level with
  | error e =>
    rw [hps] at hpasses
    exact hpasses.of_error
  | ok ps =>
    exact Cache.failsOnly_getOrCompute (Optimize.neverRefuses_runPasses hs
      (Optimize.subset_passes_of_passesFor_eq hps) level code) _ _ _

omit hs in
/-- Adapting refuses no request. -/
theorem neverRefuses_adapt (p : Profile) (o : Adapt.Options) (code : Text) :
    NeverRefuses (adapt p o code s).1 := by
  change NeverRefuses ((s.adapter.adapt s.now p o code).1.map (·.1))
  exact failsOnly_map_iff.mpr
    (Cache.failsOnly_getOrCompute (Adapt.neverRefuses_adapt p o code) _ _ _)

omit hs in
/-- The draft of a source whose tag names something refuses no request. -/
theorem neverRefuses_draft {tag : Text} {origin : Origin} (h : originOf tag = .ok origin)
    (source : Text) : NeverRefuses (draft source tag origin) := by
  rw [originOf] at h
  split at h
  · obtain rfl := Except.ok.inj h
    rename_i d _
    have hread : ∀ d, NeverRefuses (Declaration.read source d) :=
      Declaration.neverRefuses_read source
    cases d with
    | javascript => exact failsOnly_pure _
    | objc | swift =>
      exact failsOnly_bind_iff.mpr ⟨hread _, fun m _ =>
        failsOnly_bind_iff.mpr ⟨Render.neverRefuses_render _ m, fun _ _ => failsOnly_pure _⟩⟩
  · split at h
    · obtain rfl := Except.ok.inj h
      rename_i hformat
      exact failsOnly_bind_iff.mpr ⟨Listing.neverRefuses_lower hformat source, fun _ _ =>
        failsOnly_pure _⟩
    · cases h

/-- Compiling what has passed the checks refuses no request. -/
theorem neverRefuses_compileCached {r : CompileRequest} {origin : Origin}
    (h : originOf r.dialect = .ok origin) (p : Profile) :
    NeverRefuses (compileCached r origin p s).1 := by
  have hfresh : ∀ key compiles,
      NeverRefuses (compileFresh r key origin p { s with compiles }).1 := by
    intro key compiles
    refine Action.failsOnly_bind (neverRefuses_draft h r.source) fun d s₁ hd => ?_
    obtain ⟨-, rfl⟩ := Prod.mk.inj hd
    refine Action.failsOnly_bind (neverRefuses_optimize hs _ _) fun o s₂ _ => ?_
    exact Action.failsOnly_bind (neverRefuses_adapt _ _ _) fun _ _ _ => failsOnly_pure _
  unfold compileCached
  dsimp only
  split
  · exact failsOnly_ok _
  · rename_i compiles _
    have h := hfresh (r.key p) compiles
    split
    · exact failsOnly_ok _
    · rename_i heq
      rw [heq] at h
      exact h.of_error

/-- A request to compile that is rejected leaves the service as it was. -/
theorem eq_of_compile_eq_error {r : CompileRequest} (h : compile r s = (.error f, s'))
    (hf : Rejects r.level f) : s' = s := by
  rw [compile, Action.get_bind_apply] at h
  rcases Action.lift_bind_eq_error_iff.mp h with ⟨-, hsame⟩ | ⟨⟨p, origin⟩, hcheck, h⟩
  · exact hsame
  -- Behind the checks, nothing rejects the request.
  obtain ⟨-, hlevel, -, horigin⟩ := of_checkRequest_eq hcheck
  rcases Action.bind_eq_error_iff.mp h with hcompile | ⟨_, s₁, -, hpure⟩
  · have hwork := neverRefuses_compileCached hs horigin p
    rw [hcompile] at hwork
    exact absurd hf (not_rejects hlevel (failsOnly_error_iff.mp hwork))
  · cases hpure

/-- Optimizing, or leaving it out, refuses no request. -/
theorem neverRefuses_optimizeIf (level : Int) (code : Text) :
    NeverRefuses (optimizeIf level code s).1 := by
  rw [optimizeIf]
  split
  · exact failsOnly_pure _
  · rw [Action.map_apply]
    exact failsOnly_map_iff.mpr (neverRefuses_optimize hs level code)

omit hs in
/-- Adapting a script on request fails with the profile, or with a fault of the work. -/
theorem of_adaptIf_eq_error {r : ConvertRequest} {code : Text}
    (h : adaptIf r code s = (.error f, s')) :
    s.profile r.profile = .error f ∧ s' = s ∨ f.IsOfWork := by
  rw [adaptIf] at h
  split at h
  · rw [Action.get_bind_apply] at h
    rcases Action.lift_bind_eq_error_iff.mp h with hprofile | ⟨p, -, hadapt⟩
    · exact Or.inl hprofile
    · rw [Action.map_apply] at hadapt
      have hwork : NeverRefuses (some <$> (adapt p { level := r.level } code s).1) :=
        failsOnly_map_iff.mpr (neverRefuses_adapt p _ code)
      exact Or.inr (hwork f (Prod.mk.inj hadapt).1)
  · cases h

/-- A request to convert that is rejected is rejected before any work, which leaves the service as
it was, or for its profile, which is looked up when the optimizer has run or was left out. -/
theorem of_convert_eq_error {r : ConvertRequest} (h : convert r s = (.error f, s'))
    (hf : Rejects r.level f) :
    (s' = s ∧ ∀ name available, f ≠ .unknownProfile name available) ∨
      ∃ code optimized, optimizeIf r.level code s = (.ok optimized, s') ∧
        s'.profile r.profile = .error f := by
  rw [convert, Action.get_bind_apply] at h
  rcases Action.lift_bind_eq_error_iff.mp h with ⟨hsize, hsame⟩ | ⟨_, -, h⟩
  · refine Or.inl ⟨hsame, ?_⟩
    rintro name available rfl
    rw [checkSize] at hsize
    split at hsize <;> cases hsize
  rcases Action.lift_bind_eq_error_iff.mp h with ⟨hlevel, hsame⟩ | ⟨⟨⟩, hlevel, h⟩
  · refine Or.inl ⟨hsame, ?_⟩
    rintro name available rfl
    rw [checkLevel] at hlevel
    split at hlevel <;> cases hlevel
  rcases Action.lift_bind_eq_error_iff.mp h with ⟨hlower, hsame⟩ | ⟨routines, -, h⟩
  · refine Or.inl ⟨hsame, ?_⟩
    rintro name available rfl
    exact ne_unknownProfile_of_lower hlower rfl
  rcases Action.bind_eq_error_iff.mp h with hoptimize | ⟨optimized, s₁, hoptimize, h⟩
  · have hwork := neverRefuses_optimizeIf hs r.level (Routine.scriptOf r.format routines)
    rw [hoptimize] at hwork
    exact absurd hf (not_rejects hlevel (failsOnly_error_iff.mp hwork))
  rcases Action.bind_eq_error_iff.mp h with hadapt | ⟨_, s₂, -, hpure⟩
  · rcases of_adaptIf_eq_error hadapt with ⟨hprofile, rfl⟩ | hwork
    · exact Or.inr ⟨_, optimized, hoptimize, hprofile⟩
    · exact absurd hf (not_rejects hlevel hwork)
  · cases hpure

end Work

/-- What the optimizer leaves behind in a conversion: at level zero all as it was, and otherwise one
more request counted in its own cache. -/
theorem of_optimizeIf_eq_ok {level : Int} {code : Text} {optimized : Option Optimize.Artifact}
    (h : optimizeIf level code s = (.ok optimized, s')) :
    level = 0 ∧ s' = s ∨ level ≠ 0 ∧ s'.compiles = s.compiles ∧ s'.adapter = s.adapter ∧
      s'.optimizer.hits + s'.optimizer.misses = s.optimizer.hits + s.optimizer.misses + 1 := by
  rw [optimizeIf] at h
  split at h
  · rename_i hlevel
    exact Or.inl ⟨by simpa using hlevel, (Prod.mk.inj h).2.symm⟩
  · rename_i hlevel
    rw [Action.map_apply] at h
    obtain ⟨hresult, rfl⟩ := Prod.mk.inj h
    refine Or.inr ⟨by simpa using hlevel, rfl, rfl, ?_⟩
    change (s.optimizer.optimize s.accepts s.now level code).2.hits +
      (s.optimizer.optimize s.accepts s.now level code).2.misses = _
    have hok : ∃ ps, Optimize.passesFor level = .ok ps := by
      cases hps : Optimize.passesFor level with
      | ok ps => exact ⟨ps, rfl⟩
      | error e =>
        simp [optimize, Optimize.Pipeline.optimize, hps, Except.map] at hresult
    obtain ⟨ps, hps⟩ := hok
    rw [Optimize.Pipeline.optimize, hps]
    exact s.optimizer.counts_getOrCompute _ _ _

/-- Requests that are rejected do no work, but for one kind: a request to convert whose profile is
not known, at a level other than zero. The optimizer has then counted one more request, and only its
cache is touched. -/
theorem unchanged_of_rejected (hs : s.TestsScripts) :
    (∀ r f s', compile r s = (.error f, s') → Rejects r.level f → s' = s) ∧
      ∀ r f s', convert r s = (.error f, s') → Rejects r.level f →
        (s' = s ↔ r.level = 0 ∨ ∀ name available, f ≠ .unknownProfile name available) ∧
          s'.compiles = s.compiles ∧ s'.adapter = s.adapter ∧
          (s' ≠ s → s'.optimizer.hits + s'.optimizer.misses =
            s.optimizer.hits + s.optimizer.misses + 1) := by
  refine ⟨fun r f s' h hf => eq_of_compile_eq_error hs h hf, fun r f s' h hf => ?_⟩
  rcases of_convert_eq_error hs h hf with ⟨rfl, hf⟩ | ⟨code, optimized, hoptimize, hprofile⟩
  · exact ⟨iff_of_true rfl (Or.inr hf), rfl, rfl, fun hne => absurd rfl hne⟩
  have hunknown : ∃ name available, f = .unknownProfile name available := by
    rw [profile, Registry.get] at hprofile
    split at hprofile
    · cases hprofile
    · exact ⟨_, _, (Except.error.inj hprofile).symm⟩
  rcases of_optimizeIf_eq_ok hoptimize with ⟨hlevel, rfl⟩ | ⟨hlevel, hcompiles, hadapter, hcounts⟩
  · exact ⟨iff_of_true rfl (Or.inl hlevel), rfl, rfl, fun hne => absurd rfl hne⟩
  · refine ⟨iff_of_false ?_ ?_, hcompiles, hadapter, fun _ => hcounts⟩
    · rintro rfl
      omega
    · rintro (hzero | hother)
      · exact hlevel hzero
      · obtain ⟨name, available, rfl⟩ := hunknown
        exact hother name available rfl

/-- The listing of the identity, to be converted and adapted to a host that nobody knows. -/
def unknownHostRequest : ConvertRequest where
  instructions := identityRequest.source
  format := identityRequest.dialect
  profile := "nope"
  level := 1
  adapt := true

/-- Whether an action failed because its profile is not known. -/
def failsForProfile {α : Type} : Outcome α × Service → Bool
  | (.error (.unknownProfile ..), _) => true
  | _ => false

/-- What fails for its profile has a fault that says so. -/
theorem exists_of_failsForProfile {α : Type} {z : Outcome α × Service} (h : failsForProfile z) :
    ∃ name available s', z = (.error (.unknownProfile name available), s') := by
  unfold failsForProfile at h
  split at h
  · exact ⟨_, _, _, rfl⟩
  · cases h

/-- A conversion for an unknown host is rejected, and the optimizer has counted it. -/
theorem counted_of_unknownHost :
    ∃ name available s', convert unknownHostRequest bareService =
        (.error (.unknownProfile name available), s') ∧
      bareService.optimizer.misses = 0 ∧ s'.optimizer.misses = 1 := by
  obtain ⟨hfails, hmisses⟩ : failsForProfile (convert unknownHostRequest bareService) ∧
      (convert unknownHostRequest bareService).2.optimizer.misses = 1 := by
    decide +kernel
  obtain ⟨name, available, s', h⟩ := exists_of_failsForProfile hfails
  rw [h] at hmisses
  exact ⟨name, available, s', h, rfl, hmisses⟩

/-- A service that takes every text for a script. -/
def lenientService : Service := { bareService with accepts := fun _ => .ok () }

/-- The same conversion at level zero is rejected as well, and nothing has changed. -/
theorem unchanged_of_rejected_unknownHost :
    lenientService.TestsScripts ∧ ∃ name available,
      convert { unknownHostRequest with level := 0 } lenientService =
          (.error (.unknownProfile name available), lenientService) ∧
        Rejects 0 (.unknownProfile name available) := by
  have hs : lenientService.TestsScripts := fun _ => failsOnly_ok ()
  have hfails :
      failsForProfile (convert { unknownHostRequest with level := 0 } lenientService) := by
    decide +kernel
  obtain ⟨name, available, s', h⟩ := exists_of_failsForProfile hfails
  have hrejects : Rejects 0 (.unknownProfile name available) := Or.inl rfl
  have hsame := ((unchanged_of_rejected hs).2 _ _ s' h hrejects).1.mpr (Or.inl rfl)
  exact ⟨hs, name, available, hsame ▸ h, hrejects⟩

end HostScript.Service
