import HostScript.Analysis
import HostScript.Sandbox
import HostScript.Service.Compile

/-!
# The other requests of a service

Running and analyzing scripts, looking at sources and listings, and looking at the service itself.
-/

namespace HostScript.Service

/-- A request to run a script. -/
structure ExecuteRequest where
  code : Text
  input : Json := .null
  timeout : Option Scalar := none

/-- The limits of the sandbox of a service. -/
def limits (s : Service) : Sandbox.Limits :=
  ⟨s.settings.executionTimeout, s.settings.maxExecutionTimeout⟩

/-- Runs a script on an engine. -/
def execute {m : Type → Type} [Monad m] (s : Service)
    (engine : Sandbox.Run → m Sandbox.EngineAnswer) (r : ExecuteRequest) :
    m (Outcome Sandbox.Execution) :=
  match s.checkSize r.code with
  | .error f => pure (.error f)
  | .ok _ => Sandbox.execute s.limits engine r.code r.input r.timeout

/-- Analyzes a script against a profile. -/
def analyze (s : Service) (code profile : Text) : Outcome Analysis.Report := do
  s.checkSize code
  Analysis.analyze (← s.profile profile) code

/-- The routines of a listing. -/
def lower (s : Service) (instructions tag : Text) : Outcome (List Routine) := do
  s.checkSize instructions
  Listing.lower instructions tag

/-- The declarations of a source. -/
def declarations (s : Service) (source tag : Text) : Outcome Declaration.Module :=
  Declaration.readTagged s.settings.maxInputSize source tag

/-- The tags of the dialects, in order. -/
def dialectTags : List Text := (Dialect.tags.map (·.1.toList)).mergeSort Text.le

/-- What sources and listings are accepted. -/
def formatsJson : Json :=
  .ofPairs [("dialects", .ofTexts dialectTags),
    ("instruction_formats", .arr (Listing.formats.map fun f =>
      .ofPairs [("tag", f.tag), ("description", f.description),
        ("implemented", .bool f.isImplemented)]))]

/-- The profiles of a service. -/
def profilesJson (s : Service) : Json := .arr (s.registry.profiles.map Profile.toJson)

/-- The state of a cache. -/
def cacheJson (s : CacheStats) : Json :=
  .ofPairs [("name", s.name), ("hits", .int s.hits), ("misses", .int s.misses),
    ("size", .int s.size), ("hit_rate", .float (Number.roundTo 4 s.hitRate))]

/-- The state of the caches and the settings. -/
def statsJson (s : Service) : Json :=
  .ofPairs [("caches", .arr
    [cacheJson s.compiles.stats, cacheJson s.optimizer.stats, cacheJson s.adapter.stats]),
    ("settings", s.settings.toJson)]

/-- The service with empty caches. -/
def clear (s : Service) : Service :=
  { s with
    compiles := s.compiles.clear
    optimizer := s.optimizer.clear
    adapter := s.adapter.clear }

end HostScript.Service
