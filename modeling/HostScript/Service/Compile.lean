import HostScript.Render
import HostScript.Routine
import HostScript.Service.Basic

/-!
# Compiling a source, converting a listing

A source, a listing or a script becomes a script that a host runs. The result is kept under the
fingerprint of the source and of all options.
-/

namespace HostScript.Service

/-- A request to compile. -/
structure CompileRequest where
  source : Text
  dialect : Text
  level : Int := 2
  profile : Text := []
  polyfills : Bool := true
  forSize : Bool := false
  /-- Kept for the record. -/
  preserveSemantics : Bool := true

/-- The key of a request for a profile. -/
def CompileRequest.key (r : CompileRequest) (p : Profile) : Text :=
  fingerprint r.source (.ofPairs [("dialect", .str r.dialect), ("optimization_level", .int r.level),
    ("target_profile", .str p.name), ("enable_polyfills", .bool r.polyfills),
    ("optimize_for_size", .bool r.forSize), ("preserve_semantics", .bool r.preserveSemantics)])

/-- What a tag names: a dialect, or a format of listings. -/
inductive Origin where
  | dialect (d : Dialect)
  | listing

/-- All tags. -/
def tags : List Text :=
  (Dialect.tags.map (·.1.toList)).mergeSort Text.le ++ Listing.formatTags

/-- What a tag names, or the fault that it names nothing. -/
def originOf (tag : Text) : Outcome Origin :=
  match Dialect.ofTag? tag with
  | some d => .ok (.dialect d)
  | none =>
    if (Listing.format? tag).isSome then .ok .listing else .error (.unsupportedFormat tag tags)

/-- A script before it is optimized, with what is known of where it comes from. -/
structure Draft where
  code : Text
  warnings : List Text := []
  stages : List String := []
  routines : Option (List Routine) := none
  declarations : Option (List (String × Nat)) := none

/-- The script of a source. -/
def draft (source tag : Text) : Origin → Outcome Draft
  | .listing => do
    let routines ← Listing.lower source tag
    pure { code := Routine.scriptOf tag routines
           warnings := listingWarnings tag routines
           stages := ["lower"]
           routines := some routines }
  | .dialect .javascript => pure { code := source }
  | .dialect d => do
    let m ← Declaration.read source d
    let code ← Render.render {} m
    pure { code := code
           warnings := m.warnings.map (·.describe)
           stages := ["parse", "generate"]
           declarations := some m.summary }

/-- Compiles without looking for an earlier result. -/
def compileFresh (r : CompileRequest) (key : Text) (origin : Origin) (p : Profile) :
    Action Compiled := do
  let d ← lift (draft r.source r.dialect origin)
  let optimized ← optimize r.level d.code
  let adapted ← adapt p ⟨r.polyfills, r.forSize, r.level⟩ optimized.code
  pure {
    fingerprint := key
    code := adapted.code
    optimizations := optimized.changed
    adaptations := adapted.applied
    verdict := adapted.verdict
    warnings := d.warnings ++ adapted.warnings
    stages := d.stages ++ ["optimize", "adapt"]
    routines := d.routines
    declarations := d.declarations
    passes := optimized.applied
    impact := adapted.impact
    requirements := adapted.requirements
    truncated := adapted.truncated }

/-- The answer to a request to compile. -/
structure CompileResponse where
  request : CompileRequest
  profile : Text
  compiled : Compiled
  hit : Bool

/-- What a request has to fulfil before any work is done, and what it then asks for. -/
def checkRequest (s : Service) (r : CompileRequest) : Outcome (Profile × Origin) := do
  s.checkSize r.source
  checkLevel r.level
  let p ← s.profile r.profile
  let origin ← originOf r.dialect
  pure (p, origin)

/-- Finds a compiled source, or compiles it and keeps the result; tells whether it was found. -/
def compileCached (r : CompileRequest) (origin : Origin) (p : Profile) :
    Action (Compiled × Bool) := fun s =>
  let key := r.key p
  match s.compiles.request s.now key with
  | (some c, compiles) => (.ok (c, true), { s with compiles })
  | (none, compiles) =>
    match compileFresh r key origin p { s with compiles } with
    | (.ok c, s) => (.ok (c, false), { s with compiles := s.compiles.store s.now key c })
    | (.error f, s) => (.error f, s)

/-- Compiles a source. -/
def compile (r : CompileRequest) : Action CompileResponse := do
  let (p, origin) ← lift (checkRequest (← get) r)
  let (compiled, hit) ← compileCached r origin p
  pure ⟨r, p.name, compiled, hit⟩

/-- What is told about a compiled source besides its code. -/
def CompileResponse.metadata (x : CompileResponse) : Json :=
  let c := x.compiled
  let routines := match c.routines with
    | some rs => [("functions", Json.arr (rs.map routineSummary))]
    | none => []
  let declarations := match c.declarations with
    | some counts => [("ir", Json.ofPairs (counts.map fun (n, k) => (n, .int k)))]
    | none => []
  .ofPairs ([("original_size", .int x.request.source.length),
    ("generated_size", .int c.code.length), ("timings", namesJson c.stages),
    ("cache_hit", .bool x.hit), ("fingerprint", .str c.fingerprint),
    ("dialect", .str x.request.dialect), ("target_profile", .str x.profile),
    ("optimization_level", .int x.request.level)] ++ routines ++ declarations
    ++ [("enabled_passes", namesJson c.passes), ("performance_impact", .float c.impact),
      ("requirements", .obj c.requirements), ("truncated", .bool c.truncated)])

/-- The answer as a value. -/
def CompileResponse.toJson (x : CompileResponse) : Json :=
  let c := x.compiled
  .ofPairs [("success", .bool true), ("generated_code", .str c.code),
    ("applied_optimizations", namesJson c.optimizations),
    ("applied_adaptations", .ofTexts c.adaptations),
    ("compatibility_verdict", c.verdict.toJson), ("metadata", x.metadata),
    ("warnings", .ofTexts c.warnings)]

/-!
## Converting

A listing becomes a script that is optimized and adapted only on request.
-/

/-- A request to convert. -/
structure ConvertRequest where
  instructions : Text
  format : Text
  profile : Text := []
  level : Int := 0
  /-- Whether the script is adapted to a host. -/
  adapt : Bool := false

/-- The answer to a request to convert. -/
structure ConvertResponse where
  request : ConvertRequest
  code : Text
  routines : List Routine
  warnings : List Text
  stages : List String
  /-- The optimizer passes that changed something, if the optimizer ran. -/
  optimizations : Option (List String)
  /-- The profile and what was done for it, if the script was adapted. -/
  adaptation : Option Adapt.Adaptation

/-- Optimizes a script unless the level is zero. -/
def optimizeIf (level : Int) (code : Text) : Action (Option Optimize.Artifact) :=
  if level == 0 then pure none else some <$> optimize level code

/-- Adapts a script if asked to. -/
def adaptIf (r : ConvertRequest) (code : Text) : Action (Option Adapt.Adaptation) := do
  if r.adapt then
    let p ← lift ((← get).profile r.profile)
    some <$> Service.adapt p { level := r.level } code
  else pure none

/-- Converts a listing. -/
def convert (r : ConvertRequest) : Action ConvertResponse := do
  lift ((← get).checkSize r.instructions)
  lift (checkLevel r.level)
  let routines ← lift (Listing.lower r.instructions r.format)
  let plain := Routine.scriptOf r.format routines
  let optimized ← optimizeIf r.level plain
  let code := (optimized.map (·.code)).getD plain
  let adapted ← adaptIf r code
  let stage (ran : Bool) (name : String) : List String := if ran then [name] else []
  pure {
    request := r
    code := (adapted.map (·.code)).getD code
    routines := routines
    warnings := listingWarnings r.format routines ++ (adapted.map (·.warnings)).getD []
    stages := "lower" :: stage optimized.isSome "optimize" ++ stage adapted.isSome "adapt"
    optimizations := optimized.map (·.changed)
    adaptation := adapted }

/-- What is told about a converted listing besides its code. -/
def ConvertResponse.metadata (x : ConvertResponse) : Json :=
  let optimized := match x.optimizations with
    | some passes => [("applied_optimizations", namesJson passes)]
    | none => []
  let adapted := match x.adaptation with
    | some a => [("target_profile", Json.str a.profile),
        ("applied_adaptations", .ofTexts a.applied), ("compatibility_verdict", a.verdict.toJson)]
    | none => []
  .ofPairs ([("source_format", .str x.request.format),
    ("original_size", .int x.request.instructions.length)] ++ optimized ++ adapted
    ++ [("generated_size", .int x.code.length), ("timings", namesJson x.stages)])

/-- The answer as a value. -/
def ConvertResponse.toJson (x : ConvertResponse) : Json :=
  .ofPairs [("success", .bool true), ("generated_code", .str x.code),
    ("functions", .arr (x.routines.map routineSummary)), ("metadata", x.metadata),
    ("warnings", .ofTexts x.warnings)]

end HostScript.Service
