import HostScript.Body.Scope
import HostScript.Body.Swift.Binding

/-!
# Library members

Members and functions of the standard library in their script form. A member that the enclosing
type declares itself is left alone.
-/

namespace HostScript.Body.Swift

open Pattern

/-- The end of a name that is not called. -/
def notCalled : Pattern := edge ++ notAhead (blanks ++ "(")

/-- One argument or more, up to one of the stops. -/
def argument (stops : String) : Pattern := (noneOf (among stops)).plus

/-- Library members with their script form, in the order in which they are rephrased. -/
def memberEdits : List (String × Edit) := [
  ("count", .const (".count" ++ notCalled) ".length"),
  ("append", .const (".append(contentsOf:" ++ blanks) ".push(..."),
  ("append", .const (lit ".append(") ".push("),
  ("insert", ⟨".insert(" ++ cap 1 (argument ",()") ++ "," ++ blanks ++ "at:" ++ blanks
      ++ cap 2 (argument "()") ++ ")",
    fun m => ".splice(" ++ m.group 2 ++ ", 0, " ++ m.group 1 ++ ")"⟩),
  ("remove", ⟨".remove(at:" ++ blanks ++ cap 1 (argument "()") ++ ")",
    fun m => ".splice(" ++ m.group 1 ++ ", 1)[0]"⟩),
  ("removeLast", .const (lit ".removeLast()") ".pop()"),
  ("removeFirst", .const (lit ".removeFirst()") ".shift()"),
  ("removeAll", .const (lit ".removeAll()") ".splice(0)"),
  ("contains", .const (lit ".contains(") ".includes("),
  ("first", .const (".first" ++ notCalled) "[0]"),
  ("last", .const (".last" ++ notCalled) ".slice(-1)[0]"),
  ("uppercased", .const (lit ".uppercased()") ".toUpperCase()"),
  ("lowercased", .const (lit ".lowercased()") ".toLowerCase()"),
  ("hasPrefix", .const (lit ".hasPrefix(") ".startsWith("),
  ("hasSuffix", .const (lit ".hasSuffix(") ".endsWith("),
  ("joined", .const (".joined(separator:" ++ blanks) ".join("),
  ("joined", .const (lit ".joined()") ".join(\"\")"),
  ("sorted", .const (lit ".sorted()")
    ".slice().sort((__a, __b) => (__a < __b ? -1 : (__b < __a ? 1 : 0)))"),
  ("reversed", .const (lit ".reversed()") ".slice().reverse()"),
  ("components", .const (".components(separatedBy:" ++ blanks) ".split("),
  ("split", .const (".split(separator:" ++ blanks) ".split("),
  ("trimmingCharacters", .const
    (".trimmingCharacters(in:" ++ blanks ++ (noneOf (among "()")).star ++ ")") ".trim()"),
  ("description", .const (".description" ++ notCalled) ".toString()"),
  ("rawValue", .const (".rawValue" ++ edge) "")]

/-- Free functions with their script form. -/
def functionEdits : List Edit := [
  .const (fresh ++ "print(") "console.log(",
  .const (fresh ++ "fatalError(") "throw new Error(",
  .const (fresh ++ choice ["assert", "precondition"] ++ "(") "console.assert(",
  ⟨fresh ++ cap 1 (choice ["sqrt", "pow", "abs", "floor", "ceil", "round", "sin", "cos", "tan",
      "atan2", "exp", "log", "min", "max"]) ++ blanks ++ "(",
    fun m => "Math." ++ m.group 1 ++ "("⟩]

/-- Rephrases one test for emptiness after another. -/
def emptinessTests : (turns : Nat) → Text → Text
  | 0, t => t
  | turns + 1, t =>
    match (".isEmpty" ++ edge).search? t with
    | none => t
    | some m =>
      let start := operandStart t m.start
      emptinessTests turns
        (t.take start ++ "(" ++ t.slice start m.start ++ ".length === 0)" ++ m.after)

/-- Rephrases the members and functions of the library. -/
def libraryApi (scope : Scope) (t : Text) : Text :=
  let own (member : String) : Bool :=
    scope.properties.contains member.toList || scope.methods.contains member.toList
  let t := Edit.applyAll functionEdits t
  let t := if own "isEmpty" then t else emptinessTests operatorRounds t
  memberEdits.foldl (fun t (member, edit) => if own member then t else edit.apply t) t

/-!
## Argument labels and implicit members

Labels of call arguments go, and a member written without its enumeration is completed.
-/

/-- The innermost bracket that is open before each character. -/
def openBrackets : (stack : List Char) → Text → List (Option Char)
  | _, [] => []
  | stack, c :: rest =>
    let next :=
      if c == '(' || c == '[' || c == '\x7b' then c :: stack
      else if c == ')' || c == ']' || c == '\x7d' then stack.tail
      else stack
    stack.head? :: openBrackets next rest

/-- A label of an argument. -/
def labelBefore : Pattern :=
  after (among "(,") ++ cap 1 blanks ++ cName ++ blanks ++ ":" ++ notAhead (lit ":") ++ blanks

/-- Drops the labels of call arguments; keys of object literals stay. -/
def argumentLabels (_ : Scope) (t : Text) : Text :=
  let brackets := openBrackets [] t
  labelBefore.replace (fun m =>
    let inCall := (brackets[m.start]?).join == some '('
    let opensCall := m.start > 0 && t[m.start - 1]? == some '('
    if inCall || opensCall then m.group 1 else m.text) t

/-- A member without its owner that is not called. -/
def implicitMember : Pattern :=
  notAfter (isWord ||| among "$)].") ++ "." ++ cap 1 cName ++ edge ++ notAhead (blanks ++ "(")

/-- Completes members written without their enumeration. -/
def implicitMembers (scope : Scope) (t : Text) : Text :=
  if scope.enumCases.isEmpty then t
  else implicitMember.replace (fun m =>
    match scope.enumCases.lookup (m.group 1) with
    | some owner => if owner.isEmpty then m.text else owner ++ "." ++ m.group 1
    | none => m.text) t

end HostScript.Body.Swift
