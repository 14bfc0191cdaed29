import HostScript.Adapt.Cached
import HostScript.Declaration.Reading
import HostScript.Grammar
import HostScript.Listing
import HostScript.Optimize.Cached
import HostScript.Profile.Bundled
import HostScript.Settings

/-!
# The service and its state

A service keeps settings, profiles and three caches. A request runs as an action on the service:
what it did to the caches stays, even if it fails later on.
-/

namespace HostScript

/-- A compiled source as it is kept. -/
structure Compiled where
  fingerprint : Text
  code : Text
  /-- The optimizer passes that changed something. -/
  optimizations : List String
  adaptations : List Text
  verdict : Adapt.Verdict
  warnings : List Text
  /-- The stages that ran. -/
  stages : List String
  /-- The routines of a listing. -/
  routines : Option (List Routine)
  /-- The counts of declarations of a source. -/
  declarations : Option (List (String × Nat))
  /-- The optimizer passes of the level. -/
  passes : List String
  impact : Float
  requirements : List (Text × Json)
  truncated : Bool

/-- A service. -/
structure Service where
  settings : Settings
  registry : Registry
  compiles : Cache Scalar Text Compiled
  optimizer : Optimize.Pipeline
  adapter : Adapt.Adapter
  /-- Which scripts are well formed. -/
  accepts : Optimize.Acceptance := Grammar.check
  /-- The time on the clock of the caches. -/
  now : Scalar := .int 0

namespace Service

/-- A request on a service: a result or a fault, and what became of the service. -/
abbrev Action := ExceptT Fault (StateM Service)

/-- A service with empty caches. -/
def ofSettings (settings : Settings) (registry : Registry := Profile.bundledRegistry) :
    Outcome Service := do
  let policy ← CachePolicy.ofSettings settings.cacheEntries settings.cacheSeconds
  let compiles : Cache Scalar Text Compiled := { name := "compile", policy := policy }
  let optimizer : Optimize.Pipeline := { name := "optimize", policy := policy }
  let adapter : Adapt.Adapter := { name := "adapt", policy := policy }
  pure { settings, registry, compiles, optimizer, adapter }

/-- A computation that needs no state. -/
def lift {α : Type} (r : Outcome α) : Action α := ExceptT.mk (pure r)

/-- Refuses a text that is too long. -/
def checkSize (s : Service) (t : Text) : Outcome Unit :=
  if (t.length : Int) > s.settings.maxInputSize then
    .error (.sizeLimit t.length s.settings.maxInputSize)
  else .ok ()

/-- Refuses a level that does not exist. -/
def checkLevel (level : Int) : Outcome Unit :=
  if 0 ≤ level ∧ level ≤ 3 then .ok ()
  else .error (.badValue ("optimization_level must be between 0 and 3, got " ++ Text.ofInt level))

/-- The profile with a name; without a name it is the default one. -/
def profile (s : Service) (name : Text) : Outcome Profile :=
  s.registry.get (if name.isEmpty then s.settings.defaultProfile else name)

/-- Optimizes a script. -/
def optimize (level : Int) (code : Text) : Action Optimize.Artifact := fun s =>
  let (r, optimizer) := s.optimizer.optimize s.accepts s.now level code
  (r.map (·.1), { s with optimizer })

/-- Adapts a script. -/
def adapt (p : Profile) (o : Adapt.Options) (code : Text) : Action Adapt.Adaptation := fun s =>
  let (r, adapter) := s.adapter.adapt s.now p o code
  (r.map (·.1), { s with adapter })

/-- What is wrong with the routines of a listing: nothing was read, or some instructions are not
supported. -/
def listingWarnings (tag : Text) (routines : List Routine) : List Text :=
  let stub : List Text := match Listing.format? tag with
    | some f =>
      if f.isImplemented then []
      else ["Format '" ++ tag ++ "' is registered but has no lowering; nothing was converted"]
    | none => []
  stub ++ (routines.filter (·.unknownCount != 0)).map fun r =>
    r.name ++ ": " ++ Text.ofNat r.unknownCount ++ " unsupported instruction(s)"

/-- A routine in brief. -/
def routineSummary (r : Routine) : Json :=
  .ofPairs [("name", .str r.name), ("params", .ofTexts r.params),
    ("instructions", .int r.instructions.length), ("unknown_instructions", .int r.unknownCount),
    ("optimization_tags", .ofTexts r.tags)]

/-- Names as a value. -/
def namesJson (ns : List String) : Json := .ofTexts (ns.map String.toList)

end Service

end HostScript
