import HostScript.Analysis.Section

/-!
# Analysis of a script

The four sections of an analysis together with the suggestions that follow from them.
-/

namespace HostScript.Analysis

/-- Advice that follows from an analysis. -/
structure Suggestion where
  kind : String
  message : String
  severity : String
  details : List Text := []

/-- An analysis of a script against a profile. -/
structure Report where
  complexity : Complexity
  compatibility : Compatibility
  performance : Performance
  security : Security

/-- Advice as a value. -/
def Suggestion.toJson (s : Suggestion) : Json :=
  .ofPairs [("kind", s.kind), ("message", s.message), ("severity", s.severity),
    ("details", .ofTexts s.details)]

/-- The greatest complexity that calls for no advice. -/
def highComplexity : Nat := 10

/-- The longest estimated time that calls for no advice. -/
def slowEstimate : Float := 100.0

private def adviceIf (b : Bool) (s : Suggestion) : List Suggestion := if b then [s] else []

namespace Report

/-- The suggestions that follow from an analysis. -/
def suggestions (r : Report) : List Suggestion :=
  let spots := r.performance.hotspots
  adviceIf (r.complexity.cyclomatic > highComplexity)
      ⟨"complexity", "Consider breaking down complex functions", "medium", []⟩
    ++ adviceIf (!r.compatibility.issues.isEmpty)
      ⟨"compatibility", "Compatibility issues detected", "high", r.compatibility.issues⟩
    ++ adviceIf (!r.compatibility.warnings.isEmpty)
      ⟨"syntax", "Enable adaptation to downlevel modern syntax", "low", r.compatibility.warnings⟩
    ++ adviceIf (r.performance.milliseconds > slowEstimate || !spots.isEmpty)
      ⟨"performance", "Consider optimizing hot paths", "medium",
        spots.map fun h => h.kind.toList ++ " at line " ++ Text.ofNat h.line⟩
    ++ adviceIf (!r.security.safe)
      ⟨"security", "Remove dynamic code evaluation", "high", []⟩

/-- A line of advice with its severity. -/
def adviceLine (s : Suggestion) : Text :=
  "  - [" ++ s.severity.toList ++ "] " ++ s.message.toList

/-- A short account for people. -/
def summary (r : Report) : Text :=
  let c := r.complexity
  let verdict : Text := if r.compatibility.compatible then "yes" else "no"
  Text.unlines ([
    "Lines: " ++ Text.ofNat c.lines ++ ", functions: " ++ Text.ofNat c.functions ++ ", loops: "
      ++ Text.ofNat c.loops ++ ", conditionals: " ++ Text.ofNat c.conditionals,
    "Cyclomatic complexity: " ++ Text.ofNat c.cyclomatic ++ ", maintainability: "
      ++ Number.fixedText 1 c.maintainability,
    "Compatible with " ++ r.compatibility.profile ++ ": " ++ verdict,
    "Security score: " ++ Text.ofNat r.security.score] ++ r.suggestions.map adviceLine)

/-- An analysis as a value. -/
def members (r : Report) : List (String × Json) :=
  [("complexity", r.complexity.toJson), ("compatibility", r.compatibility.toJson),
    ("performance", r.performance.toJson), ("security", r.security.toJson),
    ("suggestions", .arr (r.suggestions.map Suggestion.toJson))]

end Report

/-- Analyzes a script against a profile. -/
def analyze (p : Profile) (code : Text) : Outcome Report := do
  let text := codeOf code
  let bodies ← functionBodies text
  let c := complexity code text bodies
  pure ⟨c, compatibility p code text, performance code text bodies c, security text⟩

/-- The profile to analyze against: the one with a name, or else the first one. -/
def profileFor (r : Registry) : Option Text → Outcome Profile
  | some name => r.get name
  | none =>
    match r.profiles with
    | p :: _ => .ok p
    | [] => .error .outOfRange

end HostScript.Analysis
