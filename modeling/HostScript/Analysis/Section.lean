import HostScript.Adapt
import HostScript.Pattern.Match
import HostScript.Script.Masked
import HostScript.Source.Bracket

/-!
# Functions and loops of a script

The named functions, the loops and the branches of a script, found in its masked text.
-/

namespace HostScript.Analysis

open Pattern

/-- The line of an offset, counted from one. -/
def lineOf (text : Text) (offset : Nat) : Nat := Text.count '\n' (text.upTo offset) + 1

/-- The head of a named function up to the parenthesis of its parameters. -/
def functionHead : Pattern :=
  edge ++ "function" ++ blanks ++ (lit "*").opt ++ blanks ++ cap 1 ident ++ blanks ++ "("

/-- The head of a method at the start of a line, up to its brace. -/
def methodHead : Pattern :=
  lineStart ++ blanks ++ ("static" ++ gap <|> "async" ++ gap).star ++ cap 1 ident ++ blanks ++ "("
    ++ (noneOf (among "()")).star ++ ")" ++ blanks ++ "\x7b"

/-- The head of a loop up to its parenthesis or brace. -/
def loopHead : Pattern :=
  edge ++ choice ["for", "while"] ++ blanks ++ "(" <|> edge ++ "do" ++ blanks ++ "\x7b"

/-- A branch. -/
def conditional : Pattern :=
  edge ++ choice ["if", "switch"] ++ blanks ++ "(" <|> "?" ++ notAhead (oneOf (among ".?"))

/-- Words that look like the name of a method and are none. -/
def notMethods : List String :=
  ["if", "for", "while", "switch", "catch", "function", "return", "with"]

/-- A named function with the offsets of its braces. -/
structure FunctionBody where
  name : Text
  start : Nat
  stop : Nat

/-- The names of functions and methods, each with the offset where its parameters or its body
start. -/
def functionStarts (text : Text) : List (Text × Nat) :=
  let functions := (functionHead.allIn text).map fun m => (m.group 1, m.stop)
  let methods := (methodHead.allIn text).filter fun m =>
    !(notMethods.any (·.toList == m.group 1))
  functions ++ methods.map fun m => (m.group 1, m.stop - 1)

/-- The offset of the brace that opens the body of a function. -/
def bodyStart? (text : Text) (start : Nat) : Outcome (Option Nat) :=
  match text[start]? with
  | none => .error .outOfRange
  | some c =>
    if c == '\x7b' then .ok (some start)
    else .ok ((Source.blockEnd? text (start - 1)).bind fun close =>
      Text.indexFrom? ['\x7b'] text close)

/-- The named functions of a masked text. -/
def functionBodies (text : Text) : Outcome (List FunctionBody) := do
  let found ← (functionStarts text).mapM fun (name, start) => do
    let brace ← bodyStart? text start
    pure (brace.bind fun brace =>
      (Source.blockEnd? text brace).map fun stop => FunctionBody.mk name brace stop)
  pure (found.filterMap id)

/-- A call of a function. -/
def callOf (name : Text) : Pattern := notAfter isIdentPart ++ Pattern.text name ++ blanks ++ "("

/-- Whether a function calls itself. -/
def FunctionBody.isRecursive (text : Text) (b : FunctionBody) : Bool :=
  (callOf b.name).occursIn (text.slice (b.start + 1) b.stop)

/-- The heads of loops that have another loop inside. -/
def nestedLoops (text : Text) : List Match :=
  (loopHead.allIn text).filter fun m =>
    match Text.indexFrom? ['\x7b'] text (m.stop - 1) with
    | none => false
    | some brace =>
      match Source.blockEnd? text brace with
      | none => false
      | some stop => loopHead.occursIn (text.slice (brace + 1) stop)

end HostScript.Analysis

/-!
## Sections of an analysis

Four views of a script: how complex it is, whether a host accepts it, how it may perform, and what
in it is dangerous. All of them look at the masked text, where literals and comments do not count
as code.
-/

namespace HostScript.Analysis

open Pattern

/-- The text of a script without what is inside literals and comments. -/
def codeOf (code : Text) : Text := (Script.mask .all code).text

/-- How complex a script is. -/
structure Complexity where
  lines : Nat
  functions : Nat
  loops : Nat
  conditionals : Nat
  recursion : Bool
  cyclomatic : Nat
  maintainability : Float

/-- Complexity as a value. -/
def Complexity.toJson (c : Complexity) : Json :=
  .ofPairs [("lines", .int c.lines), ("functions", .int c.functions), ("loops", .int c.loops),
    ("conditionals", .int c.conditionals), ("recursion", .bool c.recursion),
    ("cyclomatic_complexity", .int c.cyclomatic),
    ("maintainability_index", .float c.maintainability)]

/-- The maintainability index of a count of lines, decisions and functions. -/
def maintainability (lines cyclomatic functions : Nat) : Float :=
  let functions := if functions == 0 then 1 else functions
  let x := 171.0 - 5.2 * Float.log (Number.ofNat lines) - 0.23 * Number.ofNat cyclomatic
    - 16.2 * Float.log (Number.ofNat functions)
  Number.roundTo 2 (if x > 0 then x else 0)

/-- The complexity of a script with the given functions. -/
def complexity (code text : Text) (bodies : List FunctionBody) : Complexity :=
  let lines := Text.count '\n' code + 1
  let functions := (bodies.map fun b => (b.name, b.start)).eraseDups.length
  let loops := (loopHead.allIn text).length
  let conditionals := (conditional.allIn text).length
  let logical := ((choice ["&&", "||"]).allIn text).length
  let catches := ((edge ++ "catch" ++ edge).allIn text).length
  let cyclomatic := 1 + loops + conditionals + logical + catches
  { lines, functions, loops, conditionals
    recursion := bodies.any (·.isRecursive text)
    cyclomatic
    maintainability := maintainability lines cyclomatic functions }

/-- Whether a host accepts a script as it is. -/
structure Compatibility where
  profile : Text
  compatible : Bool
  issues : List Text
  warnings : List Text
  confidence : Float

/-- Compatibility as a value. -/
def Compatibility.toJson (c : Compatibility) : Json :=
  .ofPairs [("profile", .str c.profile), ("compatible", .bool c.compatible),
    ("issues", .ofTexts c.issues), ("warnings", .ofTexts c.warnings),
    ("confidence", .float c.confidence)]

/-- Modern constructs with the warning that each one calls for. -/
def modernConstructs : List (Pattern × String) := [
  ("=>", "Arrow functions need downleveling for older runtimes"),
  (edge ++ choice ["let", "const"] ++ blank, "let/const need downleveling for older runtimes"),
  (edge ++ "class" ++ gap ++ oneOf isIdentStart,
    "Class syntax is not available on older runtimes"),
  ("\x60", "Template literals need downleveling for older runtimes"),
  (edge ++ "async" ++ edge <|> edge ++ "await" ++ edge,
    "async/await is not available on older runtimes")]

/-- Whether a host accepts a script. -/
def compatibility (p : Profile) (code text : Text) : Compatibility :=
  let issues := (Adapt.disallowedIn p.disallowed code).map (fun (name : Text) =>
    "Disallowed identifier: " ++ name) ++ Adapt.payloadIssue p code
  let warnings := (modernConstructs.filter fun (pattern, _) => pattern.occursIn text).map
    (·.2.toList)
  ⟨p.name, issues.isEmpty, issues, warnings,
    Adapt.confidence (1.0 - 0.3 * Number.ofNat issues.length
      - 0.1 * Number.ofNat warnings.length)⟩

/-- A place where a script may spend its time. -/
structure Hotspot where
  kind : String
  line : Nat
  impact : String
  detail : Text := []

/-- How a script may perform. -/
structure Performance where
  milliseconds : Float
  bytes : Nat
  jitFriendly : Bool
  hotspots : List Hotspot

/-- A place as a value. -/
def Hotspot.toJson (h : Hotspot) : Json :=
  .ofPairs [("kind", h.kind), ("line", .int h.line), ("impact", h.impact),
    ("detail", .str h.detail)]

/-- An estimate as a value. -/
def Performance.toJson (p : Performance) : Json :=
  .ofPairs [("estimated_time_ms", .float p.milliseconds), ("memory_bytes", .int p.bytes),
    ("jit_friendly", .bool p.jitFriendly), ("hotspots", .arr (p.hotspots.map Hotspot.toJson))]

/-- What keeps an engine from compiling a script ahead. -/
def dynamicScope : Pattern := edge ++ "eval" ++ edge <|> edge ++ "with" ++ blanks ++ "("

/-- The places where a script may spend its time: nested loops, then recursion. -/
def hotspots (text : Text) (bodies : List FunctionBody) : List Hotspot :=
  (nestedLoops text).map (fun m => ⟨"nested-loops", lineOf text m.start, "high", []⟩)
    ++ (bodies.filter (·.isRecursive text)).map fun b =>
      ⟨"recursion", lineOf text b.start, "medium", b.name⟩

/-- An estimate of how a script performs. -/
def performance (code text : Text) (bodies : List FunctionBody) (c : Complexity) : Performance :=
  let spots := hotspots text bodies
  let factor : Float := if spots.isEmpty then 1 else 10
  ⟨Number.roundTo 3 (Number.ofNat c.cyclomatic * 0.1 * factor), code.length * 2,
    !dynamicScope.occursIn text, spots⟩

/-- Something dangerous in a script. -/
structure Finding where
  kind : String
  severity : String
  description : String
  line : Nat

/-- What in a script is dangerous. -/
structure Security where
  vulnerabilities : List Finding
  warnings : List Finding

namespace Security

/-- Whether nothing is a vulnerability. -/
def safe (s : Security) : Bool := s.vulnerabilities.isEmpty

/-- One hundred, less thirty for a vulnerability and ten for a warning, but not below zero. -/
def score (s : Security) : Nat := 100 - (30 * s.vulnerabilities.length + 10 * s.warnings.length)

end Security

/-- A finding as a value. -/
def Finding.toJson (f : Finding) : Json :=
  .ofPairs [("kind", f.kind), ("severity", f.severity), ("description", f.description),
    ("line", .int f.line)]

/-- The dangers as a value. -/
def Security.toJson (s : Security) : Json :=
  .ofPairs [("safe", .bool s.safe), ("score", .int s.score),
    ("vulnerabilities", .arr (s.vulnerabilities.map Finding.toJson)),
    ("warnings", .arr (s.warnings.map Finding.toJson))]

/-- A kind of danger with the pattern that shows it. -/
structure Danger where
  pattern : Pattern
  kind : String
  severity : String
  description : String

/-- The findings of a kind of danger in a masked text. -/
def Danger.findings (d : Danger) (text : Text) : List Finding :=
  (d.pattern.allIn text).map fun m => ⟨d.kind, d.severity, d.description, lineOf text m.start⟩

/-- Dangers that make a script unsafe. -/
def vulnerabilities : List Danger := [
  ⟨fresh ++ "eval" ++ blanks ++ "(", "code-injection", "high", "eval() usage detected"⟩,
  ⟨edge ++ "new" ++ gap ++ "Function" ++ blanks ++ "(", "code-injection", "high",
    "Function constructor usage detected"⟩]

/-- Dangers that call for a warning. -/
def hazards : List Danger := [
  ⟨"." ++ choice ["innerHTML", "outerHTML"] ++ blanks ++ "=", "xss", "medium",
    "innerHTML assignment detected"⟩,
  ⟨edge ++ "document.write" ++ blanks ++ "(", "xss", "medium", "document.write usage detected"⟩]

/-- What in a script is dangerous. -/
def security (text : Text) : Security :=
  ⟨vulnerabilities.flatMap (·.findings text), hazards.flatMap (·.findings text)⟩

end HostScript.Analysis
