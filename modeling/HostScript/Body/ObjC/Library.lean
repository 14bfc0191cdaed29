import HostScript.Body.Scope
import HostScript.Body.Statement
import HostScript.Source.Bracket
import HostScript.Text.Case

/-!
# Constants, members and functions of the platform

Constants, logging, selectors as values, the receiver and instance variables, and mathematical
functions.
-/

namespace HostScript.Body.ObjC

open Pattern

private def selectorValue : Edit :=
  ⟨"@selector(" ++ blanks ++ cap 1 (oneOf (isWord ||| among ":")).plus ++ blanks ++ ")", fun m =>
    "\"" ++ Selector.methodName (((m.group 1).splitOn ':').filter (!·.isEmpty)) ++ "\""⟩

private def constant (names : List String) (value : String) : Edit :=
  .const (edge ++ choice names ++ edge) value

/-- Constants and selector values. -/
def constantEdits : List Edit := [
  selectorValue,
  constant ["YES"] "true",
  constant ["NO"] "false",
  constant ["nil", "Nil", "NULL"] "null",
  constant ["NSNotFound"] "-1",
  constant ["NSIntegerMax"] "Number.MAX_SAFE_INTEGER",
  constant ["NSIntegerMin"] "Number.MIN_SAFE_INTEGER",
  constant ["M_PI"] "Math.PI",
  constant ["M_E"] "Math.E"]

/-- Calls that a pattern opens, from an offset on, with `before` and `after` around their
arguments. A call that does not close ends the search. -/
def wrapCalls (callOpen : Pattern) (before after : String) : (fuel pos : Nat) → Text → Text
  | 0, _, t => t
  | fuel + 1, pos, t =>
    match callOpen.searchAt? t pos with
    | none => t
    | some m =>
      match Source.closing? t (m.stop - 1) with
      | none => t
      | some close =>
        let new := before.toList ++ t.slice m.stop close ++ after.toList
        wrapCalls callOpen before after fuel (m.start + new.length)
          (m.before ++ new ++ t.drop (close + 1))

/-- Rephrases constants and logging. -/
def foundation (_ : Scope) (t : Text) : Text :=
  let t := Edit.applyAll constantEdits t
  wrapCalls (fresh ++ "NSLog(") "console.log(String.format(" "))" (t.length + 1) 0 t

private def instanceVariable : Pattern :=
  fresh ++ "_" ++ cap 1 (oneOf isAsciiLetter ++ word.star) ++ edge

/-- Rephrases the receiver, and instance variables that back a property. -/
def selfAndIvars (scope : Scope) (t : Text) : Text :=
  instanceVariable.replace (fun m =>
    let name := m.group 1
    if scope.properties.contains ('_' :: name) || !scope.properties.contains name then m.text
    else "this." ++ name) ((edge ++ "self" ++ edge).replace (fun _ => "this") t)

/-- Mathematical functions with their script form. -/
def mathNames : List (String × String) := [
  ("sqrt", "sqrt"), ("sqrtf", "sqrt"), ("pow", "pow"), ("powf", "pow"), ("fabs", "abs"),
  ("fabsf", "abs"), ("abs", "abs"), ("floor", "floor"), ("floorf", "floor"), ("ceil", "ceil"),
  ("ceilf", "ceil"), ("round", "round"), ("roundf", "round"), ("sin", "sin"), ("cos", "cos"),
  ("tan", "tan"), ("atan2", "atan2"), ("exp", "exp"), ("log", "log"), ("fmax", "max"),
  ("fmin", "min"), ("MAX", "max"), ("MIN", "min")]

private def mathCall : Edit :=
  ⟨fresh ++ cap 1 (choice (mathNames.map (·.1))) ++ blanks ++ "(", fun m =>
    let form := (mathNames.find? fun (n, _) => n.toList == m.group 1).map (·.2)
    "Math." ++ (form.getD "").toList ++ "("⟩

/-- Rephrases random numbers and mathematical functions. -/
def mathFunctions (_ : Scope) (t : Text) : Text :=
  let t := wrapCalls (fresh ++ "arc4random_uniform(") "Math.floor(Math.random() * (" "))"
    (t.length + 1) 0 t
  let t := (fresh ++ "arc4random()").replace
    (fun _ => "Math.floor(Math.random() * 4294967296)") t
  mathCall.apply t

/-!
## Literals and blocks

String, number and collection literals lose their at sign, and blocks become functions.
-/

/-- String literals without the at sign; the strings themselves are hidden. -/
def stringEdits : List Edit :=
  [⟨"@" ++ cap 1 ("__JSLIT_" ++ digit.plus ++ "__"), fun m => m.group 1⟩]

/-- Boxed values and collections without the at sign. -/
def boxedEdits : List Edit := [
  .const (lit "@[") "[",
  .const (lit "@\x7b") "\x7b",
  .const (lit "@(") "(",
  ⟨"@" ++ cap 1 (choice ["YES", "NO", "true", "false"]) ++ edge, fun m => m.group 1⟩,
  ⟨"@" ++ cap 1 ((lit "-").opt ++ digit.plus ++ ("." ++ digit.plus).opt)
      ++ (oneOf (among "fFlLuU")).star ++ edge, fun m => m.group 1⟩]

private def blockWithParameters : Pattern :=
  "^" ++ blanks ++ (name ++ blanks ++ (lit "*").star ++ blanks).opt ++ "("
    ++ cap 1 (noneOf (among "()")).star ++ ")" ++ blanks ++ "\x7b"

/-- Blocks as functions without parameter types. -/
def blockLiterals (_ : Scope) (t : Text) : Outcome Text := do
  let t ← blockWithParameters.replaceM (fun m => do
    let params ← stripTypes (m.group 1)
    pure ("function (" ++ params ++ ") \x7b")) t
  pure (("^" ++ blanks ++ "\x7b").replace (fun _ => "function () \x7b") t)

end HostScript.Body.ObjC
