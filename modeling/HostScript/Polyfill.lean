import HostScript.Text.Basic

/-!
# Polyfills

Stand-ins for what a host forbids or lacks. A forbidden name is replaced by a guarded one, which
is defined at the head of the script; definitions of missing features follow.
-/

namespace HostScript.Polyfill

/-- What the guarded name of an identifier starts with. -/
def guardMark : Text := "__guarded_"

/-- The guarded name of an identifier. -/
def guardName (identifier : Text) : Text := guardMark ++ identifier

/-- Definitions of guarded names that do something harmless. -/
def mildGuards : List (String × String) := [
  ("setTimeout", "var __guarded_setTimeout = function (callback) \x7b if (typeof callback === "
    ++ "\"function\") \x7b callback(); \x7d return 0; \x7d;"),
  ("setInterval", "var __guarded_setInterval = function () \x7b return 0; \x7d;"),
  ("document", "var __guarded_document = \x7b\x7d;"),
  ("window", "var __guarded_window = \x7b\x7d;")]

/-- The definition of the guarded name of an identifier. Where nothing milder is known it throws. -/
def guardDefinition (identifier : Text) : Text :=
  match mildGuards.find? (·.1.toList == identifier) with
  | some (_, definition) => definition
  | none =>
    "var " ++ guardName identifier ++ " = function () \x7b throw new Error(\"" ++ identifier
      ++ " is not available on this host\"); \x7d;"

/-- Promises that settle at once, unless the host has its own. -/
def promisePolyfill : List String := [
  "var Promise = __host_Promise || (function () \x7b",
  "  var Promise = function (executor) \x7b",
  "    var self = this;",
  "    self.state = \"pending\";",
  "    self.value = undefined;",
  "    self.handlers = [];",
  "    function settle(state, value) \x7b",
  "      if (self.state !== \"pending\") \x7b return; \x7d",
  "      self.state = state;",
  "      self.value = value;",
  "      for (var i = 0; i < self.handlers.length; i++) \x7b self.handlers[i](); \x7d",
  "    \x7d",
  "    try \x7b",
  "      executor(function (v) \x7b settle(\"fulfilled\", v); \x7d, function (e) "
    ++ "\x7b settle(\"rejected\", e); \x7d);",
  "    \x7d catch (e) \x7b",
  "      settle(\"rejected\", e);",
  "    \x7d",
  "  \x7d;",
  "  Promise.prototype.then = function (onFulfilled, onRejected) \x7b",
  "    var self = this;",
  "    return new Promise(function (resolve, reject) \x7b",
  "      function run() \x7b",
  "        var handler = self.state === \"fulfilled\" ? onFulfilled : onRejected;",
  "        if (typeof handler !== \"function\") \x7b",
  "          (self.state === \"fulfilled\" ? resolve : reject)(self.value);",
  "          return;",
  "        \x7d",
  "        try \x7b resolve(handler(self.value)); \x7d catch (e) \x7b reject(e); \x7d",
  "      \x7d",
  "      if (self.state === \"pending\") \x7b self.handlers.push(run); \x7d else "
    ++ "\x7b run(); \x7d",
  "    \x7d);",
  "  \x7d;",
  "  Promise.resolve = function (v) \x7b return new Promise(function (resolve) \x7b "
    ++ "resolve(v); \x7d); \x7d;",
  "  Promise.reject = function (e) \x7b return new Promise(function (resolve, "
    ++ "reject) \x7b reject(e); \x7d); \x7d;",
  "  return Promise;",
  "\x7d)();"]

/-- Copying of members from one object to another. -/
def assignPolyfill : List String := [
  "if (typeof Object.assign !== \"function\") \x7b",
  "  Object.assign = function (target) \x7b",
  "    for (var i = 1; i < arguments.length; i++) \x7b",
  "      var source = arguments[i];",
  "      if (source == null) \x7b continue; \x7d",
  "      for (var key in source) \x7b",
  "        if (Object.prototype.hasOwnProperty.call(source, key)) \x7b target[key] = "
    ++ "source[key]; \x7d",
  "      \x7d",
  "    \x7d",
  "    return target;",
  "  \x7d;",
  "\x7d"]

/-- The test for an item of an array. -/
def includesPolyfill : List String := [
  "if (!Array.prototype.includes) \x7b",
  "  Array.prototype.includes = function (item) \x7b return this.indexOf(item) !== -1; \x7d;",
  "\x7d"]

/-- The search for an item of an array. -/
def findPolyfill : List String := [
  "if (!Array.prototype.find) \x7b",
  "  Array.prototype.find = function (predicate) \x7b",
  "    for (var i = 0; i < this.length; i++) \x7b",
  "      if (predicate(this[i], i, this)) \x7b return this[i]; \x7d",
  "    \x7d",
  "    return undefined;",
  "  \x7d;",
  "\x7d"]

/-- The test for a part of a text. -/
def textIncludesPolyfill : List String := [
  "if (!String.prototype.includes) \x7b",
  "  String.prototype.includes = function (part) \x7b return this.indexOf(part) !== -1; \x7d;",
  "\x7d"]

/-- The features that can be supplied, each with the lines that do so. -/
def features : List (String × List String) := [
  ("Promise", promisePolyfill),
  ("Object.assign", assignPolyfill),
  ("Array.prototype.includes", includesPolyfill),
  ("Array.prototype.find", findPolyfill),
  ("String.prototype.includes", textIncludesPolyfill)]

/-- The definition of a feature. -/
def feature? (name : Text) : Option Text :=
  (features.find? (·.1.toList == name)).map fun (_, ls) => Text.unlines (ls.map String.toList)

/-- The head of a script: the guarded names, then the missing features that can be supplied. -/
def preamble (missing guarded : List Text) : Text :=
  let head : Text := "/* jitphone polyfills */"
  Text.unlines (head :: guarded.map guardDefinition ++ missing.filterMap feature?) ++ "\n"

end HostScript.Polyfill
