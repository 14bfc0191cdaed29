import HostScript.Cache
import HostScript.Optimize

/-!
# Optimization by levels

Levels are cumulative. The steps of a level run in rounds until the script settles; the marks of
hot loops go in last, so that no other step sees them. A script must be well formed before any
step runs. Whether it is, is a parameter here. Optimized scripts are kept in a cache.
-/

namespace HostScript.Optimize

/-- A step with the lowest level that runs it. -/
structure Pass where
  step : ScriptStep
  level : Nat

/-- All steps in order. -/
def passes : List Pass := [
  ⟨⟨"inline-small-functions", inlineSmallFunctions⟩, 1⟩,
  ⟨⟨"constant-folding", constantFolding⟩, 1⟩,
  ⟨⟨"dead-code-elimination", deadCodeElimination⟩, 2⟩,
  ⟨⟨"loop-recognition", loopRecognition⟩, 2⟩,
  ⟨⟨"vectorization", vectorization⟩, 3⟩]

/-- The highest level. -/
def maxLevel : Nat := 3

/-- The most rounds in which a script is given time to settle. -/
def maxRounds : Nat := 8

/-- The steps of a level. -/
def passesFor (level : Int) : Outcome (List Pass) :=
  if 0 ≤ level && level ≤ maxLevel then .ok (passes.filter fun p => p.level ≤ level)
  else .error (.badValue ("Optimization level must be between 0 and " ++ Text.ofNat maxLevel
    ++ ", got " ++ Text.ofInt level))

/-- An optimized script: the steps of its level, and those that changed it. -/
structure Artifact where
  code : Text
  level : Int
  applied : List String
  changed : List String

/-- A test of scripts, which fails for a script that is not well formed. -/
abbrev Acceptance := Text → Outcome Unit

/-- Runs steps in rounds until the script settles; tells which of them changed it. -/
def settle (steps : List ScriptStep) : (rounds : Nat) → Text → Outcome (Text × List String)
  | 0, t => .ok (t, [])
  | rounds + 1, t => do
    let (new, changed) ← ScriptStep.applyAll steps t
    if new == t then pure (new, changed)
    else
      let (last, more) ← settle steps rounds new
      pure (last, changed ++ more)

/-- How often a text occurs in another, without overlap. -/
def occurrences (needle t : Text) : Nat := (Text.splitOnText needle t).length - 1

/-- Optimizes a script at a level whose steps are given. -/
def runPasses (accepts : Acceptance) (ps : List Pass) (level : Int) (code : Text) :
    Outcome Artifact := do
  accepts code
  if level == 0 then pure ⟨code, 0, [], []⟩
  else
    let names := ps.map (·.step.name)
    let isMarking (p : Pass) : Bool := p.step.name == "loop-recognition"
    let working := (ps.filter (!isMarking ·)).map (·.step)
    let (text, changed) ← settle working maxRounds (stripHints code)
    let (text, changed) ← (if ps.any isMarking then do
        let marked ← loopRecognition text
        let more := occurrences hotLoopMark marked > occurrences hotLoopMark code
        pure (marked, if more then "loop-recognition" :: changed else changed)
      else pure (text, changed) : Outcome (Text × List String))
    pure ⟨hintsHeader level ++ text, level, names, names.filter (changed.contains ·)⟩

/-- Optimizes a script. -/
def optimize (accepts : Acceptance) (level : Int) (code : Text) : Outcome Artifact := do
  let ps ← passesFor level
  runPasses accepts ps level code

/-!
## Cached optimization

Optimized scripts are kept under the fingerprint of the script and the level.
-/

/-- The cache of optimized scripts. -/
abbrev Pipeline := Cache Scalar Text Artifact

/-- The key of a script and a level. -/
def cacheKey (code : Text) (level : Int) : Text :=
  fingerprint code (.ofPairs [("stage", "optimize"), ("level", .int level)])

/-- Optimizes a script, or finds the result of an earlier time; tells whether it was found. -/
def Pipeline.optimize (p : Pipeline) (accepts : Acceptance) (now : Scalar) (level : Int)
    (code : Text) : Outcome (Artifact × Bool) × Pipeline :=
  match passesFor level with
  | .error f => (.error f, p)
  | .ok ps =>
    p.getOrCompute now (cacheKey code level) fun _ => runPasses accepts ps level code

end HostScript.Optimize
