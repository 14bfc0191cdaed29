import HostScript.Body.ObjC
import HostScript.Body.Swift
import HostScript.Declaration
import HostScript.Script.Masked

/-!
# Rendering in the context of a module

Bodies and expressions are rendered in a scope that knows the members of the type around them and
the names that the whole module declares.

Lines are indented by the braces and square brackets that are open before them, literals and
comments left out. A line that starts with a closing bracket stands one step further out.
-/

namespace HostScript.Render

open Declaration Pattern Script

/-! ### Layout -/

/-- A text repeated, nothing for a negative count. -/
def repeated (n : Int) (unit : Text) : Text := Text.times n.toNat unit

/-- The brackets that a masked line opens less those that it closes. -/
def bracketBalance (masked : Text) : Int :=
  masked.count '\x7b' + masked.count '[' - masked.count '\x7d' - masked.count ']'

/-- Indents trimmed lines, with `depth` brackets open before the first. -/
def indentLines (level : Int) (unit : Text) : (depth : Int) → List Text → List Text
  | _, [] => []
  | depth, line :: rest =>
    let masked := (mask .all line).text
    let closes := masked.head?.any fun c => c == '\x7d' || c == ']'
    let here := max (if closes then depth - 1 else depth) 0
    (repeated (level + here) unit ++ line)
      :: indentLines level unit (max (depth + bracketBalance masked) 0) rest

/-- The lines that hold more than white space, trimmed. -/
def solidLines (code : Text) : List Text := (code.lines.map Text.trim).filter (!·.isEmpty)

/-- The code with its lines indented by bracket depth, from a level on. -/
def reindent (level : Int) (unit : Text) (code : Text) : Text :=
  Text.unlines (indentLines level unit 0 (solidLines code))

/-- A head with an indented body in braces. -/
def block (unit : Text) (level : Nat) (head body : Text) : Text :=
  let pad := Text.times level unit
  if body.trim.isEmpty then pad ++ head ++ " \x7b\n" ++ pad ++ "\x7d"
  else pad ++ head ++ " \x7b\n" ++ reindent (level + 1) unit body ++ "\n" ++ pad ++ "\x7d"

/-! ### A module and its options -/

/-- What happens to source text that could not be classified. -/
inductive UnknownPolicy where
  | comment
  | omit_
  | passthrough
  deriving DecidableEq

/-- The policy with a given name. -/
def UnknownPolicy.ofName (n : Text) : Outcome UnknownPolicy :=
  if n == "comment".toList then .ok .comment
  else if n == "omit".toList then .ok .omit_
  else if n == "passthrough".toList then .ok .passthrough
  else .error (.badValue "unknown_policy must be one of comment, omit, passthrough")

/-- How a module is rendered. -/
structure Options where
  /-- Whether the support code is there even if nothing refers to it. -/
  support : Bool := false
  unknowns : UnknownPolicy := .comment
  /-- One step of indentation. -/
  indent : Text := "  "

/-- A module and how it is rendered. -/
structure Context where
  module : Module
  options : Options

private def numericTypes : List String :=
  ["Int", "UInt", "Int8", "Int16", "Int32", "Int64", "Double", "Float", "CGFloat", "int", "float",
    "double", "long", "short", "NSInteger", "NSUInteger", "NSTimeInterval", "size_t"]

private def booleanTypes : List String := ["Bool", "BOOL", "bool"]

private def stringTypes : List String := ["String", "Character"]

/-- Whether a text is one of some strings. -/
def oneAmong (names : List String) (t : Text) : Bool := names.any (·.toList == t)

private def genericList : Pattern := choice ["Array", "Set"] ++ "<"

/-- What a variable of a type holds before it is given a value. -/
def defaultValue (dialect : Dialect) (typeName : Text) : Text :=
  let t := typeName.trim
  let base := (Text.replaceAll "*" "" t).trim
  if t.isEmpty || t.endsWith "?" || t.endsWith "!" then "null"
  else if oneAmong numericTypes base then "0"
  else if oneAmong booleanTypes base then "false"
  else if oneAmong stringTypes base then "\x22\x22"
  else if dialect == .swift && t.startsWith "[" then
    if t.contains ':' then "\x7b\x7d" else "[]"
  else if dialect == .swift && genericList.fits t then "[]"
  else if dialect == .swift && t.startsWith "Dictionary<" then "\x7b\x7d"
  else "null"

/-- Whether a function with this return type gives a value. -/
def givesValue (returnType : Text) : Bool :=
  !oneAmong ["", "Void", "()", "void", "IBAction"] returnType.trim

private def statementStart : Pattern :=
  choice ["return", "let", "var", "const", "if", "for", "while", "switch", "guard", "throw", "do",
    "repeat", "print", "fatalError", "precondition", "assert"] ++ edge

private def plainAssignment : Pattern :=
  notAfter (among "=!<>+-*/") ++ "=" ++ notAhead "="

/-- A body that is a single expression gives the value of the expression. -/
def implicitReturn (body : Text) : Text :=
  match solidLines body with
  | [line] =>
    if statementStart.fits line || plainAssignment.occursIn (mask .all line).text then body
    else "return " ++ line
  | _ => body

namespace Context

/-- The instance properties of the types and extensions with a name. -/
def propertiesOf (x : Context) (typeName : Text) : List Text :=
  ((x.module.classes.filter (·.name == typeName)).flatMap (·.properties)
    ++ (x.module.structs.filter (·.name == typeName)).flatMap (·.properties)
    ++ (x.module.extensions.filter (·.extendedType == typeName)).flatMap (·.properties)).filterMap
      fun p => if p.isStatic then none else some p.name

/-- The instance methods of the types and extensions with a name. -/
def methodsOf (x : Context) (typeName : Text) : List Text :=
  ((x.module.classes.filter (·.name == typeName)).flatMap (·.methods)
    ++ (x.module.structs.filter (·.name == typeName)).flatMap (·.methods)
    ++ (x.module.extensions.filter (·.extendedType == typeName)).flatMap (·.methods)).filterMap
      fun m => if m.isStatic then none else some m.name

/-- The instance properties of all types and extensions. -/
def allProperties (x : Context) : List Text :=
  (x.module.classes.flatMap (·.properties) ++ x.module.structs.flatMap (·.properties)
    ++ x.module.extensions.flatMap (·.properties)).filterMap
      fun p => if p.isStatic then none else some p.name

/-- The cases of all enumerations, each with the enumeration that declares it. -/
def caseOwners (x : Context) : List (Text × Text) :=
  x.module.enums.flatMap fun e => e.cases.map fun c => (c.name, e.name)

/-- The cases that are declared once. -/
def enumCases (x : Context) : List (Text × Text) :=
  let owners := x.caseOwners
  owners.filter fun (c, _) => (owners.filter (·.1 == c)).length == 1

/-- The scope outside all types. -/
def scope (x : Context) : Body.Scope :=
  { Body.Scope.nothing with
    enumCases := x.enumCases
    knownProperties := x.allProperties
    constructible := x.module.classes.map (·.name) ++ x.module.structs.map (·.name) }

/-- The scope inside a type. -/
def scopeIn (x : Context) (typeName : Text) (isStatic : Bool := false) : Body.Scope :=
  { x.scope with
    properties := x.propertiesOf typeName
    methods := x.methodsOf typeName
    typeName := typeName
    isStatic := isStatic }

/-- A piece of source code in a scope. -/
def rephrase (x : Context) (scope : Body.Scope) (body : Text) : Outcome Text :=
  let idioms := if x.module.dialect == .swift then Body.swiftIdioms else Body.objcIdioms
  Body.applyAll scope idioms body

/-- The body of a function. -/
def body (x : Context) (scope : Body.Scope) (returnsValue : Bool) (t : Text) : Outcome Text :=
  if t.trim.isEmpty then .ok []
  else x.rephrase scope (if returnsValue && x.module.dialect == .swift then implicitReturn t else t)

/-- An expression, without the semicolons of a statement. -/
def expression (x : Context) (scope : Body.Scope) (t : Text) : Outcome Text :=
  if t.trim.isEmpty then .ok []
  else (fun r : Text => Text.trimEndOf (among ";") r.trim) <$> x.rephrase scope t.trim

/-- The initial value of a property: as written, or what its type implies. -/
def initialValue (x : Context) (scope : Body.Scope) (p : Property) : Outcome Text := do
  let value ← x.expression scope p.initialValue
  pure (if value.isEmpty then defaultValue x.module.dialect p.typeName else value)

/-- A parameter in the list of a function. -/
def parameter (x : Context) (scope : Body.Scope) (p : Parameter) : Outcome Text :=
  if p.defaultValue.isEmpty then .ok p.name
  else (fun v => p.name ++ " = " ++ v) <$> x.expression scope p.defaultValue

/-- The parameter list of a function. -/
def parameters (x : Context) (scope : Body.Scope) (ps : List Parameter) : Outcome Text :=
  Text.join ", " <$> ps.mapM (x.parameter scope)

/-- A head with an indented body in braces. -/
def block (x : Context) (level : Nat) (head body : Text) : Text :=
  Render.block x.options.indent level head body

/-- The names of parameters. -/
def names (ps : List Parameter) : List Text := ps.map (·.name)

end Context

end HostScript.Render
