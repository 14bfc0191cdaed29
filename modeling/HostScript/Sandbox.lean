import HostScript.Fault
import HostScript.Json
import HostScript.Json.Reader
import HostScript.Number.Shortest

/-!
# Running code in a sandbox

The sandbox hands a script and a time budget to an engine and reads what comes back. Whatever the
engine does, the outcome is a value or a fault, together with the lines that were logged.
-/

/-!
## The script that a sandbox runs

A prelude removes every global that is not allowed and records what is logged. Then the code runs
as the body of a function of its input, and the whole evaluates to the outcome as JSON.
-/

namespace HostScript.Sandbox

/-- The globals that code may use. -/
def allowedGlobals : List String :=
  ["Math", "Date", "JSON", "Array", "Object", "String", "Number", "Boolean", "parseInt",
    "parseFloat", "isNaN", "isFinite", "Error", "TypeError", "RangeError", "SyntaxError",
    "ReferenceError", "EvalError", "URIError", "undefined", "NaN", "Infinity"]

/-- The prelude up to the allowed globals. -/
def preludeHead : List String := [
  "",
  "(function (global, allowed) \x7b",
  "  var keep = \x7b\x7d;",
  "  for (var i = 0; i < allowed.length; i++) \x7b keep[allowed[i]] = true; \x7d",
  "  var names = Object.getOwnPropertyNames(global);",
  "  for (var j = 0; j < names.length; j++) \x7b",
  "    if (!keep[names[j]]) \x7b",
  "      try \x7b delete global[names[j]]; \x7d catch (e) \x7b /* non-configurable */ \x7d",
  "    \x7d",
  "  \x7d",
  "\x7d)(this, "]

/-- The prelude after the allowed globals. -/
def preludeTail : List String := [
  ");",
  "var __jitphone_logs = [];",
  "var console = (function (logs) \x7b",
  "  function record(level) \x7b",
  "    return function () \x7b",
  "      var parts = [];",
  "      for (var i = 0; i < arguments.length; i++) \x7b",
  "        var value = arguments[i];",
  "        parts.push(typeof value === 'string' ? value : JSON.stringify(value));",
  "      \x7d",
  "      logs.push((level === 'log' ? '' : '[' + level + '] ') + parts.join(' '));",
  "    \x7d;",
  "  \x7d",
  "  return \x7b log: record('log'), info: record('info'), warn: record('warn'), "
    ++ "error: record('error') \x7d;",
  "\x7d)(__jitphone_logs);",
  ""]

/-- The part of the script before the code. -/
def runnerHead : List String := [
  "",
  "(function (input, stringify) \x7b",
  "  var outcome;",
  "  try \x7b",
  "    var value = (function (input) \x7b",
  "      'use strict';",
  ""]

/-- The part of the script between the code and the input. -/
def runnerMiddle : List String := [
  "",
  "    \x7d)(input);",
  "    outcome = \x7b ok: true, value: value === undefined ? null : value \x7d;",
  "  \x7d catch (e) \x7b",
  "    outcome = \x7b ok: false, error: (e && e.message) ? String(e.message) : String(e) \x7d;",
  "  \x7d",
  "  outcome.logs = __jitphone_logs;",
  "  return stringify(outcome);",
  "\x7d)(JSON.parse("]

/-- The part of the script after the input. -/
def runnerTail : List String := [
  "), JSON.stringify);",
  ""]

private def block (lines : List String) : Text := Text.unlines (lines.map String.toList)

/-- The script that runs code with an input; without an input it is an empty object. -/
def script (code : Text) (input : Json) : Text :=
  let input : Json := match input with
    | .null => .obj []
    | v => v
  let allowed := Json.ofTexts (allowedGlobals.map String.toList)
  block preludeHead ++ allowed.line ++ block preludeTail ++ block runnerHead ++ code
    ++ block runnerMiddle ++ Json.quote input.line ++ block runnerTail

end HostScript.Sandbox

/-! ## Running a script -/

namespace HostScript.Sandbox

/-- The limits of a sandbox, in seconds. -/
structure Limits where
  /-- The time for code that asks for none. -/
  defaultTimeout : Scalar := .float 10.0
  /-- The most time that code gets. -/
  maxTimeout : Scalar := .float 30.0

/-- The time that code gets: what it asks for, if that is positive, within the limits. -/
def Limits.budget (l : Limits) (timeout : Option Scalar) : Outcome Scalar := do
  let asked := match timeout with
    | some t => if (Scalar.int 0).lt t then t else if t.toFloat.isNaN then t else l.defaultTimeout
    | none => l.defaultTimeout
  let seconds ← (Json.ofScalar asked).asFloat
  pure (Scalar.min (.float seconds) l.maxTimeout)

/-- What an engine is asked to run. -/
structure Run where
  script : Text
  budget : Scalar

/-- What an engine answers. -/
inductive EngineAnswer where
  /-- The script evaluated to a text. -/
  | returned (text : Text)
  /-- The time was over. -/
  | timedOut
  /-- The script failed. -/
  | threw (message : Text)

/-- What became of the code: its value or a fault, and what it logged. -/
structure Execution where
  outcome : Outcome Json
  logs : List Text := []

namespace Execution

/-- Whether the code gave a value. -/
def success (e : Execution) : Bool :=
  match e.outcome with
  | .ok _ => true
  | .error _ => false

/-- A fault as a value. -/
def faultJson (f : Fault) : Json :=
  .ofPairs [("kind", .str (f.kind?.getD "error").toList), ("message", .str f.message)]

/-- An execution as a value. -/
def members (e : Execution) : List (String × Json) :=
  match e.outcome with
  | .ok v => [("success", .bool true), ("result", v), ("error", .null), ("logs", .ofTexts e.logs)]
  | .error f =>
    [("success", .bool false), ("result", .null), ("error", faultJson f),
      ("logs", .ofTexts e.logs)]

end Execution

/-- An execution that failed without a log. -/
def failed (message : Text) : Execution := ⟨.error (.execution message), []⟩

/-- An execution whose outcome cannot be read. -/
def unreadable (why : Text) : Execution :=
  failed ("Execution produced an unreadable result: " ++ why)

/-- Why a value that is no object has no members. -/
def noMembers : Json → Text
  | .arr _ => "list indices must be integers or slices, not str"
  | .str _ => "string indices must be integers, not 'str'"
  | .int _ => "'int' object is not subscriptable"
  | .float _ => "'float' object is not subscriptable"
  | .bool _ => "'bool' object is not subscriptable"
  | .null => "'NoneType' object is not subscriptable"
  | .obj _ => []

/-- The lines that were logged. -/
def logsOf (outcome : Json) : List Text :=
  match outcome.get? "logs" with
  | some (.arr lines) => lines.map Json.plain
  | _ => []

/-- Reads the outcome that a script evaluated to. -/
def readOutcome (outcome : Json) : Execution :=
  match outcome with
  | .obj _ =>
    let logs := logsOf outcome
    match outcome.get? "ok" with
    | none => unreadable "'ok'"
    | some ok =>
      if ok.truthy then
        match outcome.get? "value" with
        | some v => ⟨.ok v, logs⟩
        | none => unreadable "'value'"
      else
        let detail := (outcome.get? "error").getD .null
        ⟨.error (.execution ("Execution failed: " ++ detail.plain)), logs⟩
  | v => unreadable (noMembers v)

/-- Reads what an engine answered within a budget. -/
def readAnswer (budget : Scalar) : EngineAnswer → Execution
  | .timedOut =>
    ⟨.error (.timeout ("Execution exceeded " ++ Number.significantText budget.toFloat ++ "s")), []⟩
  | .threw message => failed ("Execution failed: " ++ message)
  | .returned text =>
    match Json.read text with
    | .ok outcome => readOutcome outcome
    | .error e => unreadable (e.message text)

/-- Executes code on an engine. -/
def execute {m : Type → Type} [Monad m] (limits : Limits) (engine : Run → m EngineAnswer)
    (code : Text) (input : Json) (timeout : Option Scalar) : m (Outcome Execution) :=
  match limits.budget timeout with
  | .error f => pure (.error f)
  | .ok budget => do
    let answer ← engine ⟨script code input, budget⟩
    pure (.ok (readAnswer budget answer))

end HostScript.Sandbox
