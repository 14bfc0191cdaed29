import HostScript.Render.Context
import HostScript.Text.Case

/-!
# Classes and structures

Both become classes. Stored properties get their values in the constructor, where the call of the
superclass comes first; initializers that do not become the constructor become methods.
-/

namespace HostScript.Render

open Declaration Pattern

/-- The start of a call of an initializer of the superclass. -/
def superInit : Pattern := edge ++ "super.init" ++ blanks ++ "("

/-- The start of a line that calls the superclass. -/
def superCall : Pattern := blanks ++ "super" ++ blanks ++ "("

private def returnsThis : Pattern :=
  edge ++ "return" ++ gap ++ "this" ++ blanks ++ (lit ";").opt ++ blanks ++ textEnd

/-- The word before a member of the class itself. -/
def staticWord (isStatic : Bool) : Text := if isStatic then "static " else []

namespace Context

/-- The assignments that give stored properties their initial values. -/
def defaults (x : Context) (typeName : Text) (stored : List Property) : Outcome (List Text) :=
  let scope := { x.scopeIn typeName with inInitializer := true }
  stored.mapM fun p => do
    let value ← x.initialValue scope p
    pure ("this." ++ p.name ++ " = " ++ value ++ ";")

/-- The body of an initializer that becomes a constructor. -/
def constructorBody (x : Context) (typeName : Text) : Option Initializer → Outcome Text
  | none => .ok []
  | some i =>
    let scope := { x.scopeIn typeName with parameters := names i.parameters, inInitializer := true }
    x.body scope false (superInit.replace (fun _ => "super(") i.body)

/-- A constructor: the call of the superclass, the initial values, the rest of the body. -/
def constructor (x : Context) (typeName : Text) (stored : List Property) (init : Option Initializer)
    (derived : Bool) : Outcome Text := do
  let params := (init.map (·.parameters)).getD []
  let body ← x.constructorBody typeName init
  let calls := body.lines.filter superCall.fits
  let rest := Text.unlines (body.lines.filter (!superCall.fits ·))
  let first : List Text :=
    if derived then [(calls.head?.map Text.trim).getD "super();".toList] else []
  let values ← x.defaults typeName stored
  let scope := { x.scopeIn typeName with parameters := names params }
  let head ← x.parameters scope params
  let lines := first ++ values ++ (if rest.trim.isEmpty then [] else [rest])
  pure (x.block 1 ("constructor(" ++ head ++ ")") (Text.unlines lines))

/-- What a constructor with a parameter for each stored property does with one property: whether
it takes a parameter, and the assignment. -/
def memberwise (x : Context) (scope : Body.Scope) (p : Property) : Outcome (Bool × Text) := do
  let value ← x.expression scope p.initialValue
  let assign (v : Text) : Text := "this." ++ p.name ++ " = " ++ v ++ ";"
  pure (if p.isConstant && !value.isEmpty then (false, assign value)
    else if value.isEmpty then (true, assign p.name)
    else (true, assign (p.name ++ " === undefined ? " ++ value ++ " : " ++ p.name)))

/-- A constructor with a parameter for each stored property. -/
def memberwiseConstructor (x : Context) (typeName : Text) (stored : List Property) :
    Outcome Text := do
  let scope := { x.scopeIn typeName with inInitializer := true }
  let parts ← stored.mapM fun p => do
    let (takes, line) ← x.memberwise scope p
    pure (p.name, takes, line)
  let params := parts.filterMap fun (n, takes, _) => if takes then some n else none
  pure (x.block 1 ("constructor(" ++ Text.join ", " params ++ ")")
    (Text.unlines (parts.map fun (_, _, line) => line)))

/-- The method name of an initializer. -/
def initializerName (i : Initializer) : Text :=
  if i.name != "init".toList then i.name
  else "init" ++ i.parameters.flatMap fun p =>
    capitalizeFirst (if p.label.isEmpty then p.name else p.label)

/-- An initializer as a method that gives the receiver back. -/
def initMethod (x : Context) (typeName : Text) (i : Initializer) : Outcome Text := do
  let scope := { x.scopeIn typeName with parameters := names i.parameters, inInitializer := true }
  let body ← x.body scope false i.body
  let body :=
    if returnsThis.occursIn body.trim then body
    else if body.isEmpty then "return this;".toList
    else body ++ "\nreturn this;"
  let params ← x.parameters scope i.parameters
  pure (x.block 1 (initializerName i ++ "(" ++ params ++ ")") body)

/-- The accessors of a computed property. -/
def accessors (x : Context) (typeName : Text) (p : Property) : Outcome (List Text) := do
  let scope := x.scopeIn typeName p.isStatic
  let getter ← if p.getter.isEmpty then pure [] else do
    let body ← x.body scope true p.getter
    pure [x.block 1 (staticWord p.isStatic ++ "get " ++ p.name ++ "()") body]
  let setter ← if p.setter.isEmpty then pure [] else do
    let body ← x.body { scope with parameters := [p.setterParam] } false p.setter
    pure [x.block 1 (staticWord p.isStatic ++ "set " ++ p.name ++ "(" ++ p.setterParam ++ ")") body]
  pure (getter ++ setter)

/-- A method of a class. -/
def method (x : Context) (typeName : Text) (m : Method) : Outcome Text := do
  let scope := { x.scopeIn typeName m.isStatic with parameters := names m.parameters }
  let body ← x.body scope (givesValue m.returnType) m.body
  let params ← x.parameters scope m.parameters
  pure (x.block 1 (staticWord m.isStatic ++ m.name ++ "(" ++ params ++ ")") body)

/-- The computed properties and the methods of a type. -/
def members (x : Context) (typeName : Text) (ps : List Property) (ms : List Method) :
    Outcome (List Text) := do
  let accessors ← (ps.filter (·.isComputed)).mapM (x.accessors typeName)
  let methods ← (ms.filter (!·.isDeclaration)).mapM (x.method typeName)
  pure (accessors.flatten ++ methods)

/-- The position of the initializer that becomes the constructor: one without parameters named
`init`, or for types that can have several, the first that is not a convenience. -/
def primaryInitializer? (x : Context) (inits : List Initializer) : Option Nat :=
  if x.module.dialect == .objc then
    inits.findIdx? fun i => i.name == "init".toList && i.parameters.isEmpty
  else
    match inits.findIdx? (!·.isConvenience) with
    | some k => some k
    | none => if inits.isEmpty then none else some 0

/-- The initializer that becomes the constructor, and the others. -/
def splitInitializers (x : Context) (inits : List Initializer) :
    Option Initializer × List Initializer :=
  match x.primaryInitializer? inits with
  | none => (none, inits)
  | some k => (inits[k]?, inits.eraseIdx k)

/-- A class with its members, followed by the values of its static properties. -/
def typeText (x : Context) (head : Text) (members : List Text) (typeName : Text)
    (ps : List Property) : Outcome Text := do
  let statics ← (ps.filter fun p => p.isStatic && !p.isComputed).mapM fun p => do
    let value ← x.initialValue (x.scopeIn typeName true) p
    pure (typeName ++ "." ++ p.name ++ " = " ++ value ++ ";")
  let body := Text.join "\n\n" (members.filter (!·.isEmpty))
  pure (head ++ " \x7b\n" ++ body ++ "\n\x7d" ++ statics.flatMap fun (s : Text) => '\n' :: s)

/-- Whether the superclass of a class is one that scripts leave out. -/
def isRootless (c : ClassType) : Bool := c.superclass.isEmpty || c.superclass == "NSObject".toList

/-- The superclass of a class, if the module declares it. -/
def superclass? (x : Context) (c : ClassType) : Option Text :=
  if !isRootless c && x.module.typeNames.contains c.superclass then some c.superclass else none

/-- The remark about a superclass that the module does not declare. -/
def superclassRemark? (x : Context) (c : ClassType) : Option Text :=
  if isRootless c || x.module.typeNames.contains c.superclass then none
  else some ("superclass '" ++ c.superclass ++ "' of '" ++ c.name
    ++ "' is not defined in this unit; emitted without extends")

/-- A class. -/
def classDefinition (x : Context) (c : ClassType) : Outcome Text := do
  let parent := x.superclass? c
  let head : Text := "class " ++ c.name ++ (match parent with
    | some p => " extends " ++ p
    | none => [])
  let stored := c.properties.filter fun p => !p.isComputed && !p.isStatic
  let (primary, others) := x.splitInitializers c.initializers
  let constructor ← x.constructor c.name stored primary parent.isSome
  let inits ← others.mapM (x.initMethod c.name)
  let members ← x.members c.name c.properties c.methods
  x.typeText head (constructor :: inits ++ members) c.name c.properties

/-- A structure: a class with a method that copies it. -/
def struct (x : Context) (s : Struct) : Outcome Text := do
  let (primary, others) := x.splitInitializers s.initializers
  let constructor ← match primary with
    | none => x.memberwiseConstructor s.name s.storedProperties
    | some _ => x.constructor s.name s.storedProperties primary false
  let inits ← others.mapM (x.initMethod s.name)
  let members ← x.members s.name s.properties s.methods
  let copy := x.block 1 "copy()"
    ("return Object.assign(Object.create(" ++ s.name ++ ".prototype), this);")
  x.typeText ("class " ++ s.name) (constructor :: inits ++ members ++ [copy]) s.name s.properties

end Context

/-- The last class with a name. -/
def classNamed? (classes : List ClassType) (name : Text) : Option ClassType :=
  classes.reverse.find? (·.name == name)

/-- Places a class behind its superclass; `trail` holds the classes whose superclass is looked
for. A class that is placed already, or that is its own ancestor, changes nothing. -/
def placeClass (classes : List ClassType) : (fuel : Nat) → (trail : List Text) →
    (ordered : List ClassType) → ClassType → List ClassType
  | 0, _, ordered, _ => ordered
  | fuel + 1, trail, ordered, c =>
    if ordered.any (·.name == c.name) || trail.contains c.name then ordered
    else
      let ordered := match classNamed? classes c.superclass with
        | some parent => placeClass classes fuel (c.name :: trail) ordered parent
        | none => ordered
      ordered ++ [c]

/-- The classes in order of inheritance: each after its superclass, otherwise as they stand. The
trail never repeats a name, so it is no longer than the list. -/
def inheritanceOrder (classes : List ClassType) : List ClassType :=
  classes.foldl (fun ordered c => placeClass classes (classes.length + 1) [] ordered c) []

end HostScript.Render
