import HostScript.Profile

/-!
# Bundled profiles

The hosts that are known without any configuration.
-/

namespace HostScript.Profile

private def texts (names : List String) : List Text := names.map String.toList

private def needs (minimumOs hostApp : String) (capabilities : List String) :
    List (Text × Json) :=
  [("minimum_os", minimumOs), ("host_app", hostApp),
    ("capabilities", .ofTexts (texts capabilities))]

/-- A scripting action inside a mobile automation app. -/
def automationHost : Profile where
  name := "embedded-automation-host"
  harness := "automation"
  bridgeApi := "shortcuts"
  description := "Scripting action inside a mobile automation app"
  aliases := texts ["shortcuts"]
  envelope := texts ["success", "result", "error", "target"]
  disallowed := texts
    ["eval", "Function", "setTimeout", "setInterval", "XMLHttpRequest", "fetch", "WebSocket"]
  missing := texts
    ["Promise", "Object.assign", "Array.prototype.includes", "Array.prototype.find"]
  requirements :=
    needs "12.0" "automation" ["http_requests", "user_interaction", "file_system"]

/-- An embedded web view. -/
def webHost : Profile where
  name := "web-rendering-host"
  harness := "webview"
  bridgeApi := "window.webkit.messageHandlers.jitphone"
  description := "Embedded web view that posts results to native code"
  aliases := texts ["webview"]
  envelope := texts ["type", "success", "result", "error", "timestamp"]
  disallowed := texts ["eval", "Function", "XMLHttpRequest", "WebSocket"]
  missing := texts ["Object.assign", "Array.prototype.includes"]
  maxPayload := 2097152
  requirements := needs "9.0" "webkit" ["dom_access", "local_storage", "http_requests"]

/-- A bare script engine. -/
def scriptHost : Profile where
  name := "minimal-script-host"
  harness := "script"
  bridgeApi := "print"
  description := "Bare script engine with no DOM and a print() bridge"
  aliases := texts ["jsc"]
  envelope := texts ["ok", "value", "error"]
  disallowed := texts ["eval", "Function", "setTimeout", "setInterval", "XMLHttpRequest", "fetch",
    "WebSocket", "document", "window"]
  missing := texts ["Promise", "Object.assign", "Array.prototype.includes",
    "Array.prototype.find", "String.prototype.includes"]
  maxPayload := 524288
  requirements := needs "8.0" "none" ["pure_javascript"]

/-- The bundled profiles. -/
def bundled : List Profile := [automationHost, webHost, scriptHost]

/-- The registry of the bundled profiles. -/
def bundledRegistry : Registry := .ofProfiles bundled

end HostScript.Profile
