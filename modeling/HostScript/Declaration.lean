import HostScript.Text.Basic

/-!
# Declarations

What a source unit declares, in a form that no longer depends on the dialect it was written in.
Declarations own their members; source text that could not be classified is kept beside them.
-/

namespace HostScript

/-- The dialects of source text. -/
inductive Dialect where
  | objc
  | swift
  | javascript
  deriving DecidableEq

/-- The name of a dialect. -/
def Dialect.name : Dialect → String
  | .objc => "objc"
  | .swift => "swift"
  | .javascript => "javascript"

namespace Declaration

/-- A parameter: `label` is what a caller writes, `name` what the body uses. -/
structure Parameter where
  name : Text
  typeName : Text := []
  label : Text := []
  defaultValue : Text := []
  deriving DecidableEq

/-- A stored or computed property. -/
structure Property where
  name : Text
  typeName : Text := []
  initialValue : Text := []
  isConstant : Bool := false
  isStatic : Bool := false
  attributes : List Text := []
  /-- The body of a computed value. -/
  getter : Text := []
  /-- The body of a computed assignment. -/
  setter : Text := []
  setterParam : Text := "newValue"
  line : Nat := 0
  deriving DecidableEq

/-- Whether a property is computed. -/
def Property.isComputed (p : Property) : Bool := !p.getter.isEmpty || !p.setter.isEmpty

/-- A method, possibly a signature without a body. -/
structure Method where
  name : Text
  parameters : List Parameter := []
  returnType : Text := []
  body : Text := []
  isStatic : Bool := false
  isDeclaration : Bool := false
  isMutating : Bool := false
  throws : Bool := false
  line : Nat := 0
  deriving DecidableEq

/-- The selector of a method: its name, or a label with a colon for each parameter. -/
def Method.selector (m : Method) : Text :=
  if m.parameters.isEmpty then m.name
  else m.parameters.flatMap fun p => (if p.label.isEmpty then m.name else p.label) ++ [':']

/-- An initializer. -/
structure Initializer where
  parameters : List Parameter := []
  body : Text := []
  name : Text := "init"
  isConvenience : Bool := false
  line : Nat := 0
  deriving DecidableEq

/-- A case of an enumeration. -/
structure EnumCase where
  name : Text
  rawValue : Text := []
  deriving DecidableEq

/-- A class. -/
structure ClassType where
  name : Text
  superclass : Text := []
  protocols : List Text := []
  properties : List Property := []
  methods : List Method := []
  initializers : List Initializer := []
  line : Nat := 0

/-- A structure. -/
structure Struct where
  name : Text
  protocols : List Text := []
  properties : List Property := []
  methods : List Method := []
  initializers : List Initializer := []
  line : Nat := 0

/-- The properties that an instance stores. -/
def Struct.storedProperties (s : Struct) : List Property :=
  s.properties.filter fun p => !p.isComputed && !p.isStatic

/-- An enumeration. -/
structure Enum where
  name : Text
  rawType : Text := []
  cases : List EnumCase := []
  methods : List Method := []
  line : Nat := 0

/-- A protocol. -/
structure Protocol where
  name : Text
  inherited : List Text := []
  requirements : List Method := []
  properties : List Property := []
  line : Nat := 0

/-- An extension of a type, or a category of a class. -/
structure Extension where
  extendedType : Text
  category : Text := []
  protocols : List Text := []
  properties : List Property := []
  methods : List Method := []
  line : Nat := 0

/-- A free function. -/
structure Function where
  name : Text
  parameters : List Parameter := []
  returnType : Text := []
  body : Text := []
  throws : Bool := false
  line : Nat := 0

/-- A global variable. -/
structure Variable where
  name : Text
  typeName : Text := []
  initialValue : Text := []
  isConstant : Bool := false
  line : Nat := 0

/-- Source text that could not be classified, and what it was taken for. -/
structure Unknown where
  text : Text
  line : Nat
  reason : Text

/-- A remark about a line of the source. -/
structure Warning where
  line : Nat
  message : Text
  text : Text := []

/-- A remark as callers read it. -/
def Warning.describe (w : Warning) : Text :=
  "line " ++ Text.ofNat w.line ++ ": " ++ w.message

/-- Everything that a source unit declares. -/
structure Module where
  dialect : Dialect
  imports : List Text := []
  classes : List ClassType := []
  structs : List Struct := []
  enums : List Enum := []
  protocols : List Protocol := []
  extensions : List Extension := []
  functions : List Function := []
  globals : List Variable := []
  unknowns : List Unknown := []
  warnings : List Warning := []

namespace Module

/-- The module with one more remark. -/
def warn (m : Module) (line : Nat) (message text : Text) : Module :=
  { m with warnings := m.warnings ++ [⟨line, message, text⟩] }

/-- The module with one more piece of unclassified text. -/
def keep (m : Module) (text : Text) (line : Nat) (reason : Text) : Module :=
  { m with unknowns := m.unknowns ++ [⟨text, line, reason⟩] }

/-- The number of declarations. -/
def declarationCount (m : Module) : Nat :=
  m.classes.length + m.structs.length + m.enums.length + m.protocols.length + m.extensions.length
    + m.functions.length + m.globals.length

/-- The names of classes, structures and enumerations. -/
def typeNames (m : Module) : List Text :=
  Text.sorted (m.classes.map (·.name) ++ m.structs.map (·.name) ++ m.enums.map (·.name))

/-- How many declarations of each kind there are. -/
def summary (m : Module) : List (String × Nat) :=
  [("classes", m.classes.length), ("structs", m.structs.length), ("enums", m.enums.length),
    ("protocols", m.protocols.length), ("extensions", m.extensions.length),
    ("functions", m.functions.length), ("variables", m.globals.length),
    ("unknowns", m.unknowns.length), ("warnings", m.warnings.length)]

end Module

end Declaration

end HostScript
