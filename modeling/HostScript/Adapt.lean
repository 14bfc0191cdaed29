import HostScript.Downlevel
import HostScript.Harness
import HostScript.Optimize
import HostScript.Pattern.Match
import HostScript.Polyfill
import HostScript.Script.Masked

/-!
# Adaptation to a host

A script is made fit for a host: hints go, forbidden names are guarded, missing features are
supplied, modern constructs are expressed in older ones, and the harness is put around it. On
request the result is shrunk to the length that the host takes. A verdict on the final text says
whether the host will accept it.
-/

namespace HostScript.Adapt

open Script

/-!
### Forbidden names

A forbidden name counts where it stands on its own in the code of a script: outside literals and
comments, not behind a dot and not inside a longer name.
-/

/-- The forbidden names that a script uses. -/
def disallowedIn (identifiers : List Text) (code : Text) : List Text :=
  let text := (mask .all code).text
  identifiers.filter fun name => (freeName name).occursIn text

/-- Replaces names in masked text by their guarded names; tells which ones occurred. -/
def guardText : (identifiers : List Text) → Text → Text × List Text
  | [], text => (text, [])
  | name :: rest, text =>
    if (freeName name).occursIn text then
      let (text, guarded) := guardText rest
        ((freeName name).replace (fun _ => Polyfill.guardName name) text)
      (text, name :: guarded)
    else guardText rest text

/-- Replaces names in a script by their guarded names; tells which ones occurred. -/
def guardIdentifiers (identifiers : List Text) (code : Text) : Outcome (Text × List Text) := do
  let masked := mask .all code
  let (text, guarded) := guardText identifiers masked.text
  let code ← masked.restoreText text
  pure (code, guarded)

/-! ### Options and verdicts -/

/-- What an adaptation is asked to do. -/
structure Options where
  polyfills : Bool := true
  /-- Whether the result is shrunk. -/
  forSize : Bool := false
  /-- The level at which the script was optimized; it bears on the estimate only. -/
  level : Int := 0

/-- Options as a value. -/
def Options.members (o : Options) : List (String × Json) :=
  [("enable_polyfills", .bool o.polyfills), ("optimize_for_size", .bool o.forSize),
    ("optimization_level", .int o.level)]

/-- Whether a host accepts a script. -/
structure Verdict where
  compatible : Bool
  issues : List Text
  confidence : Float
  /-- Forbidden names that are left. -/
  unguarded : List Text

/-- A verdict as a value. -/
def Verdict.toJson (v : Verdict) : Json :=
  .ofPairs [("compatible", .bool v.compatible), ("issues", .ofTexts v.issues),
    ("confidence", .float v.confidence), ("unguarded_identifiers", .ofTexts v.unguarded)]

/-- The remark that a script is too long. -/
def payloadIssue (p : Profile) (code : Text) : List Text :=
  if (code.length : Int) > p.maxPayload then
    ["Payload size " ++ Text.ofNat code.length ++ " exceeds the " ++ Text.ofInt p.maxPayload
      ++ " character limit"]
  else []

/-- The number rounded to four places, or zero if it is negative. -/
def confidence (x : Float) : Float := Number.roundTo 4 (if x > 0 then x else 0)

/-- The verdict on a script. Each issue costs a fifth of the confidence. -/
def verdict (p : Profile) (code : Text) : Verdict :=
  let remaining := disallowedIn p.disallowed code
  let issues := remaining.map (fun (name : Text) =>
    "Disallowed identifier '" ++ name ++ "' is not guarded") ++ payloadIssue p code
  ⟨issues.isEmpty, issues, confidence (1.0 - 0.2 * Number.ofNat issues.length), remaining⟩

/-- The estimated slowdown of an adapted script. -/
def impact (level : Int) (p : Profile) (polyfills : Bool) : Float :=
  let speedup := if level > 0 then 2.0 else 1.0
  let polyfill := if polyfills then 1.2 else 1.0
  Number.roundTo 4 (speedup * p.overhead * polyfill - 1.0)

/-- What a cut script ends with. -/
def truncationMark : Text := "\n/* [jitphone: truncated] */"

/-- A script without comments and idle white space, cut if it is still longer than a limit; tells
whether it was cut. -/
def shrink (limit : Int) (code : Text) : Outcome (Text × Bool) := do
  let code ← Script.collapseWhitespace (← Script.stripComments code)
  if (code.length : Int) ≤ limit then pure (code, false)
  else pure (code.upTo (limit - truncationMark.length).toNat ++ truncationMark, true)

end HostScript.Adapt
