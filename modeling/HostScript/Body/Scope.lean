import HostScript.Pattern.Match
import HostScript.Script.Masked

/-!
# Idioms of a body

The body of a method or function becomes script text by a fixed sequence of idioms, each of which
rephrases one feature of the source dialect. An idiom knows the scope in which the body stands.
What no idiom recognises stays as it is.
-/

namespace HostScript.Body

open Pattern Script

/-- What is known where a body stands. -/
structure Scope where
  /-- Properties that can be named without a receiver. -/
  properties : List Text
  /-- Methods that can be called without a receiver. -/
  methods : List Text
  /-- The parameters of the body. -/
  parameters : List Text
  /-- The enumeration that declares a case, for cases that only one declares. -/
  enumCases : List (Text × Text)
  /-- Properties declared anywhere in the module. -/
  knownProperties : List Text
  /-- Classes and structures, whose names are called to build a value. -/
  constructible : List Text
  /-- The enclosing type. -/
  typeName : Text
  isStatic : Bool
  inInitializer : Bool

/-- The scope in which nothing is known. -/
def Scope.nothing : Scope := ⟨[], [], [], [], [], [], [], false, false⟩

/-- A named step that rephrases one feature. -/
structure Idiom where
  name : String
  apply : Scope → Text → Outcome Text

/-- Applies idioms in order, each to what the one before it gave. -/
def applyAll (scope : Scope) : List Idiom → Text → Outcome Text
  | [], body => .ok body
  | idiom :: rest, body => do
    let body ← idiom.apply scope body
    applyAll scope rest body

/-- A pattern and what takes the place of each of its fits. -/
structure Edit where
  pattern : Pattern
  replacement : Match → Text

/-- An edit that puts a fixed text in place of each fit. -/
def Edit.const (pattern : Pattern) (new : String) : Edit := ⟨pattern, fun _ => new.toList⟩

/-- Makes an edit everywhere in a text. -/
def Edit.apply (e : Edit) (t : Text) : Text := e.pattern.replace e.replacement t

/-- Makes edits in order. -/
def Edit.applyAll (edits : List Edit) (t : Text) : Text := edits.foldl (fun t e => e.apply t) t

/-- The step on the text outside literals and comments. -/
def outsideLiterals (o : MaskOptions) (f : Scope → Text → Outcome Text) (scope : Scope)
    (body : Text) : Outcome Text := do
  let m := mask o body
  let edited ← f scope m.text
  m.restoreText edited

/-- A step that cannot fail. -/
def always (f : Scope → Text → Text) (scope : Scope) (body : Text) : Outcome Text :=
  .ok (f scope body)

/-- The step on each line. -/
def perLine (f : Scope → Text → Text) (scope : Scope) (body : Text) : Text :=
  Text.unlines (body.lines.map (f scope))

/-- An idiom that edits the text outside literals and comments. -/
def Idiom.ofEdits (name : String) (o : MaskOptions) (edits : List Edit) : Idiom :=
  ⟨name, outsideLiterals o (always fun _ => Edit.applyAll edits)⟩

/-- An idiom on the text outside literals and comments. -/
def Idiom.masked (name : String) (o : MaskOptions) (f : Scope → Text → Text) : Idiom :=
  ⟨name, outsideLiterals o (always f)⟩

/-!
### Names in a body

The names that a body declares itself, and the qualification of bare member names by a receiver.
-/

/-- The trimmed parts of a list of names, without empty ones. -/
def commaNames (t : Text) : List Text :=
  ((t.splitOn ',').map Text.trim).filter (!·.isEmpty)

private def declaredName : Pattern :=
  edge ++ choice ["let", "const", "var"] ++ gap ++ cap 1 name

private def destructuredNames : Pattern :=
  edge ++ choice ["let", "const", "var"] ++ gap ++ oneOf (among "[\x7b")
    ++ cap 1 (noneOf (among "]\x7d")).star ++ oneOf (among "]\x7d")

private def arrowParameters : Pattern :=
  "(" ++ cap 1 (oneOf (isWord ||| isBlank ||| among "$,")).star ++ ")" ++ blanks ++ "=>"

private def arrowParameter : Pattern := edge ++ cap 1 (oneOf isIdentPart).plus ++ blanks ++ "=>"

private def caughtName : Pattern :=
  edge ++ "catch" ++ blanks ++ "(" ++ blanks ++ cap 1 name ++ blanks ++ ")"

/-- The names that a body declares: variables, loop variables, arrow parameters, caught errors. -/
def localNames (t : Text) : List Text :=
  (declaredName.allIn t).map (·.group 1)
    ++ (destructuredNames.allIn t).flatMap (fun m => commaNames (m.group 1))
    ++ (arrowParameters.allIn t).flatMap (fun m => commaNames (m.group 1))
    ++ (arrowParameter.allIn t).map (·.group 1)
    ++ (caughtName.allIn t).map (·.group 1)

/-- A bare name that is not called. -/
def bareProperty (member : Text) : Pattern :=
  fresh ++ Pattern.text member ++ edge ++ notAhead (blanks ++ "(")

/-- A bare name that is called. -/
def bareMethod (member : Text) : Pattern :=
  fresh ++ Pattern.text member ++ isAhead (blanks ++ "(")

/-- Puts the receiver before bare members. Members that a parameter or a local name shadows
anywhere in the body stay bare, and so do all members in a static body. -/
def qualifyMembers (scope : Scope) (t : Text) : Text :=
  if scope.isStatic || (scope.properties.isEmpty && scope.methods.isEmpty) then t
  else
    let shadowed := scope.parameters ++ localNames t
    let visible (names : List Text) : List Text := Text.sorted (names.filter (!shadowed.contains ·))
    let qualify (pattern : Text → Pattern) (t : Text) (member : Text) : Text :=
      (pattern member).replace (fun _ => "this." ++ member) t
    let t := (visible scope.properties).foldl (qualify bareProperty) t
    (visible scope.methods).foldl (qualify bareMethod) t

end HostScript.Body
