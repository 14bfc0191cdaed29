import HostScript.Profile

/-!
# Harnesses

A harness is the script around a script: it gives access to the host, runs the script inside, and
evaluates to the result or the error in the form that the host expects.
-/

namespace HostScript.Harness

/-- Where the script goes. -/
def codeMark : Text := "/*@@code@@*/"

/-- Where the name of the profile goes. -/
def profileMark : Text := "@@profile@@"

/-- The harness of automation apps. -/
def automation : List String := [
  "(function () \x7b",
  "  'use strict';",
  "  var shortcuts = \x7b",
  "    run: function (name, input) \x7b return \x7b success: true, shortcut: name, "
    ++ "result: input \x7d; \x7d,",
  "    ask: function (question) \x7b return \"\"; \x7d,",
  "    choose: function (options) \x7b return options && options.length ? options[0] "
    ++ ": null; \x7d",
  "  \x7d;",
  "  var __host_Promise = typeof Promise === \"undefined\" ? undefined : Promise;",
  "  var result = null;",
  "  var error = null;",
  "  try \x7b",
  "    (function () \x7b",
  "/*@@code@@*/",
  "    \x7d)();",
  "  \x7d catch (e) \x7b",
  "    error = \x7b name: e.name, message: e.message \x7d;",
  "  \x7d",
  "  return \x7b success: error === null, result: result, error: error, target: "
    ++ "\"@@profile@@\" \x7d;",
  "\x7d)();"]

/-- The harness of web views. -/
def webview : List String := [
  "(function () \x7b",
  "  'use strict';",
  "  var __host_Promise = typeof Promise === \"undefined\" ? undefined : Promise;",
  "  var result = null;",
  "  var error = null;",
  "  try \x7b",
  "    (function () \x7b",
  "/*@@code@@*/",
  "    \x7d)();",
  "  \x7d catch (e) \x7b",
  "    error = \x7b name: e.name, message: e.message \x7d;",
  "  \x7d",
  "  var envelope = \x7b type: \"execution_complete\", success: error === null, "
    ++ "result: result, error: error, timestamp: Date.now() \x7d;",
  "  if (typeof window !== \"undefined\" && window.webkit && "
    ++ "window.webkit.messageHandlers && window.webkit.messageHandlers.jitphone) \x7b",
  "    window.webkit.messageHandlers.jitphone.postMessage(envelope);",
  "  \x7d",
  "  return envelope;",
  "\x7d)();"]

/-- The harness of bare engines. -/
def script : List String := [
  "(function (host) \x7b",
  "  'use strict';",
  "  function emit(prefix, args) \x7b",
  "    if (typeof print === \"function\") \x7b print(prefix + \" \" + "
    ++ "Array.prototype.slice.call(args).join(\" \")); \x7d",
  "  \x7d",
  "  var console = (host && host.console) || \x7b",
  "    log: function () \x7b emit(\"[LOG]\", arguments); \x7d,",
  "    error: function () \x7b emit(\"[ERROR]\", arguments); \x7d",
  "  \x7d;",
  "  var __host_Promise = typeof Promise === \"undefined\" ? undefined : Promise;",
  "  var result = null;",
  "  var error = null;",
  "  try \x7b",
  "    (function () \x7b",
  "/*@@code@@*/",
  "    \x7d)();",
  "  \x7d catch (e) \x7b",
  "    error = e.message;",
  "  \x7d",
  "  return \x7b ok: error === null, value: result, error: error \x7d;",
  "\x7d)(this);"]

/-- The harnesses by name. -/
def all : List (String × List String) := [
  ("automation", automation), ("webview", webview), ("script", script)]

/-- The text of a harness. -/
def find? (name : Text) : Option Text :=
  (all.find? (·.1.toList == name)).map fun (_, ls) => Text.unlines (ls.map String.toList)

/-- A script inside the harness of a profile. -/
def wrap (p : Profile) (code : Text) : Outcome Text :=
  match find? p.harness with
  | some harness =>
    .ok (Text.replaceAll codeMark code (Text.replaceAll profileMark p.name harness))
  | none =>
    .error (.badValue ("Profile '" ++ p.name ++ "' names unknown harness '" ++ p.harness ++ "'"))

end HostScript.Harness
