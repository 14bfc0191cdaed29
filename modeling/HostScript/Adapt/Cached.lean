import HostScript.Adapt
import HostScript.Cache

/-!
# Adapted scripts

The steps of an adaptation in their order, and what it tells about the script that comes out.
Adapted scripts are kept in a cache.
-/

namespace HostScript.Adapt

/-- An adapted script. -/
structure Adaptation where
  code : Text
  profile : Text
  verdict : Verdict
  /-- What was done, in order. -/
  applied : List Text
  impact : Float
  requirements : List (Text × Json)
  warnings : List Text
  sourceSize : Nat
  truncated : Bool

namespace Adaptation

/-- The length of the adapted script. -/
def size (a : Adaptation) : Nat := a.code.length

/-- A short account for people. -/
def summary (a : Adaptation) : Text :=
  let status : Text := if a.verdict.compatible then "compatible" else "INCOMPATIBLE"
  let applied : Text := if a.applied.isEmpty then "none" else Text.join ", " a.applied
  Text.unlines ([
    "Profile: " ++ a.profile ++ " (" ++ status ++ ", confidence "
      ++ Number.fixedText 1 a.verdict.confidence ++ ")",
    "Size: " ++ Text.ofNat a.sourceSize ++ " -> " ++ Text.ofNat a.size,
    "Adaptations: " ++ applied] ++ a.verdict.issues.map fun (i : Text) => "  ! " ++ i)

end Adaptation

/-- An adapted script as a value. -/
def Adaptation.members (a : Adaptation) : List (String × Json) :=
  [("code", .str a.code), ("profile", .str a.profile), ("verdict", a.verdict.toJson),
    ("applied_adaptations", .ofTexts a.applied), ("performance_impact", .float a.impact),
    ("requirements", .obj a.requirements), ("warnings", .ofTexts a.warnings),
    ("original_size", .int a.sourceSize), ("adapted_size", .int a.size),
    ("truncated", .bool a.truncated)]

/-- The labels of what a step did, if it did something. -/
private def labelIf (b : Bool) (label : Text) : List Text := if b then [label] else []

/-- Guards and supplies what the host forbids and lacks, or warns of what it forbids. Gives the
script, what was done, and the warnings. -/
def supply (p : Profile) (polyfills : Bool) (code : Text) :
    Outcome (Text × List Text × List Text) := do
  if polyfills then
    let (code, guarded) ← guardIdentifiers p.disallowed code
    pure (Polyfill.preamble p.missing guarded ++ code,
      labelIf (!guarded.isEmpty) "guard-identifiers" ++ labelIf true "polyfills", [])
  else
    let warnings := (disallowedIn p.disallowed code).map fun (name : Text) =>
      "'" ++ name ++ "' is not available on " ++ p.name ++ " and polyfills are disabled"
    pure (code, [], warnings)

/-- Shrinks a script if asked to. Gives the script, what was done, the warnings, and whether it
was cut. -/
def fit (p : Profile) (forSize : Bool) (code : Text) :
    Outcome (Text × List Text × List Text × Bool) := do
  if forSize then
    let (code, truncated) ← shrink p.maxPayload code
    let warning : Text := "Output truncated to " ++ Text.ofInt p.maxPayload ++ " characters"
    pure (code, labelIf true "size-optimization" ++ labelIf truncated "truncation",
      labelIf truncated warning, truncated)
  else pure (code, [], [], false)

/-- Adapts a script to a host. -/
def adapt (p : Profile) (o : Options) (code : Text) : Outcome Adaptation := do
  let bare := Optimize.stripHints code
  let (supplied, supplying, missing) ← supply p o.polyfills bare
  let (older, steps) ← downlevel supplied
  let wrapped ← Harness.wrap p older
  let (final, fitting, cut, truncated) ← fit p o.forSize wrapped
  pure {
    code := final
    profile := p.name
    verdict := verdict p final
    applied := labelIf (bare != code) "strip-hints" ++ supplying
      ++ steps.map (fun s => ("downlevel:" ++ s : String).toList)
      ++ labelIf true ("harness:" ++ p.harness) ++ fitting
    impact := impact o.level p o.polyfills
    requirements := p.requirements
    warnings := missing ++ cut
    sourceSize := code.length
    truncated := truncated }

/-!
### Cached adaptation

Adapted scripts are kept under the fingerprint of the script, the profile and the options.
-/

/-- The cache of adapted scripts. -/
abbrev Adapter := Cache Scalar Text Adaptation

/-- The key of a script, a profile and options. -/
def cacheKey (p : Profile) (o : Options) (code : Text) : Text :=
  fingerprint code (.ofPairs (("stage", "adapt") :: ("profile", p.toJson) :: o.members))

/-- Adapts a script, or finds the result of an earlier time; tells whether it was found. -/
def Adapter.adapt (a : Adapter) (now : Scalar) (p : Profile) (o : Options) (code : Text) :
    Outcome (Adaptation × Bool) × Adapter :=
  a.getOrCompute now (cacheKey p o code) fun _ => Adapt.adapt p o code

end HostScript.Adapt
