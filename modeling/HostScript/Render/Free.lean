import HostScript.Json
import HostScript.Number.Reading
import HostScript.Render.Context

/-!
# Enumerations, protocols, extensions and free declarations

An enumeration becomes an object of its values, a protocol an object whose methods fail, and an
extension assigns to the prototype of the type that it extends.
-/

namespace HostScript.Render

open Declaration Pattern

/-- Decimal digits with an optional minus sign. -/
def integerLiteral : Pattern := (lit "-").opt ++ digit.plus

private def selfWord : Pattern := edge ++ "self" ++ edge

/-- The script types that stand for types of the source library. -/
def builtinTypes : List (String × String) := [
  ("Int", "Number"), ("Double", "Number"), ("Float", "Number"), ("CGFloat", "Number"),
  ("String", "String"), ("NSString", "String"), ("NSMutableString", "String"),
  ("Bool", "Boolean"), ("Array", "Array"), ("NSArray", "Array"), ("NSMutableArray", "Array"),
  ("Dictionary", "Object"), ("NSDictionary", "Object"), ("NSMutableDictionary", "Object")]

/-- The script type that stands for a type of the source library. -/
def builtinType? (typeName : Text) : Option Text :=
  (builtinTypes.find? (·.1.toList == typeName)).map (·.2.toList)

namespace Context

/-- The value of a case, and the integer that the next case without a value counts from. -/
def caseValue (x : Context) (e : Enum) (next : Int) (c : EnumCase) : Outcome (Text × Int) :=
  if !c.rawValue.isEmpty then do
    let value ← x.expression (x.scopeIn e.name true) c.rawValue
    if integerLiteral.fitsAll value then pure (value, (← Number.readSigned value) + 1)
    else pure (value, next)
  else if oneAmong ["Int", "UInt"] e.rawType then do
    pure (← Number.writeInt next, next + 1)
  else .ok (Json.quote c.name, next)

/-- The values of cases in order. -/
def caseValues (x : Context) (e : Enum) : (next : Int) → List EnumCase → Outcome (List Text)
  | _, [] => .ok []
  | next, c :: rest => do
    let (value, next) ← x.caseValue e next c
    let values ← x.caseValues e next rest
    pure (value :: values)

/-- A method of an enumeration. Values carry no methods, so the value is a leading argument. -/
def enumMethod (x : Context) (e : Enum) (m : Method) : Outcome Text := do
  let scope := { x.scopeIn e.name true with parameters := names m.parameters ++ ["value".toList] }
  let source := if m.isStatic then m.body else selfWord.replace (fun _ => "value") m.body
  let body ← x.body scope (givesValue m.returnType) source
  let params ← x.parameters scope m.parameters
  let others : Text := if params.isEmpty then [] else ", " ++ params
  let params : Text := if m.isStatic then params else "value" ++ others
  pure (x.block 1 (m.name ++ "(" ++ params ++ ")") body)

/-- The reading of a raw value. -/
def fromRawValue (x : Context) : Text :=
  x.block 1 "fromRawValue(value)" "return this.allCases.indexOf(value) === -1 ? null : value;"

/-- An enumeration. -/
def enum (x : Context) (e : Enum) : Outcome Text := do
  let values ← x.caseValues e 0 e.cases
  let entries := (e.cases.zip values).map fun (c, v) => c.name ++ ": " ++ v
  let entries := entries ++ ["allCases: [" ++ Text.join ", " values ++ "]"]
  let methods ← (e.methods.filter (!·.isDeclaration)).mapM (x.enumMethod e)
  let body := Text.join ",\n" entries
  pure ("const " ++ e.name ++ " = \x7b\n"
    ++ Text.unlines (body.lines.map fun (l : Text) => x.options.indent ++ l) ++ ",\n"
    ++ Text.join ",\n" (x.fromRawValue :: methods) ++ "\n\x7d;")

/-- A protocol. -/
def protocol (x : Context) (p : Protocol) : Text :=
  let methods := p.requirements.map fun r =>
    x.block 1 (r.name ++ "()")
      ("throw new Error(" ++ Json.quote (p.name ++ "." ++ r.name ++ " is not implemented") ++ ");")
  if methods.isEmpty then "const " ++ p.name ++ "Protocol = \x7b\x7d;"
  else "const " ++ p.name ++ "Protocol = \x7b\n" ++ Text.join ",\n" methods ++ "\n\x7d;"

/-- The script type that an extension extends. -/
def extensionTarget (x : Context) (e : Extension) : Text :=
  if x.module.typeNames.contains e.extendedType then e.extendedType
  else (builtinType? e.extendedType).getD e.extendedType

/-- The owner of a member of an extension. -/
def memberOwner (target : Text) (isStatic : Bool) : Text :=
  if isStatic then target else target ++ ".prototype"

/-- A method of an extension. -/
def extensionMethod (x : Context) (target : Text) (e : Extension) (m : Method) : Outcome Text := do
  let scope := { x.scopeIn e.extendedType m.isStatic with parameters := names m.parameters }
  let body ← x.body scope (givesValue m.returnType) m.body
  let params ← x.parameters scope m.parameters
  let head := memberOwner target m.isStatic ++ "." ++ m.name ++ " = function (" ++ params ++ ")"
  pure (x.block 0 head body ++ ";")

/-- A computed property of an extension. -/
def definedProperty (x : Context) (target : Text) (e : Extension) (p : Property) :
    Outcome Text := do
  let scope := x.scopeIn e.extendedType p.isStatic
  let getter ← if p.getter.isEmpty then pure [] else do
    let body ← x.body scope true p.getter
    pure [x.block 1 "get: function ()" body]
  let setter ← if p.setter.isEmpty then pure [] else do
    let body ← x.body { scope with parameters := [p.setterParam] } false p.setter
    pure [x.block 1 ("set: function (" ++ p.setterParam ++ ")") body]
  let parts := getter ++ setter ++ [x.options.indent ++ "configurable: true"]
  pure ("Object.defineProperty(" ++ memberOwner target p.isStatic ++ ", " ++ Json.quote p.name
    ++ ", \x7b\n" ++ Text.join ",\n" parts ++ "\n\x7d);")

/-- A property of an extension. There is no place for a stored one. -/
def extensionProperty (x : Context) (target : Text) (e : Extension) (p : Property) :
    Outcome (Option Text) :=
  if p.isComputed then some <$> x.definedProperty target e p
  else if p.isStatic then do
    let value ← x.initialValue (x.scopeIn e.extendedType true) p
    pure (some (target ++ "." ++ p.name ++ " = " ++ value ++ ";"))
  else .ok none

/-- An extension. -/
def extension (x : Context) (e : Extension) : Outcome Text := do
  let target := x.extensionTarget e
  let methods ← (e.methods.filter (!·.isDeclaration)).mapM (x.extensionMethod target e)
  let properties ← e.properties.mapM (x.extensionProperty target e)
  pure (Text.join "\n\n" (methods ++ properties.filterMap id))

/-- The remarks about an extension. -/
def extensionRemarks (x : Context) (e : Extension) : List Text :=
  let known := x.module.typeNames.contains e.extendedType || (builtinType? e.extendedType).isSome
  let target : List Text :=
    if known then []
    else ["extension target '" ++ e.extendedType ++ "' is not defined in this unit"]
  let stored := e.properties.filter fun p => !p.isComputed && !p.isStatic
  target ++ stored.map fun p =>
    "stored property '" ++ p.name ++ "' in extension of '" ++ e.extendedType ++ "' ignored"

/-- A free function. -/
def function (x : Context) (f : Function) : Outcome Text := do
  let scope := { x.scopeIn [] with parameters := names f.parameters }
  let body ← x.body scope (givesValue f.returnType) f.body
  let params ← x.parameters scope f.parameters
  pure (x.block 0 ("function " ++ f.name ++ "(" ++ params ++ ")") body)

/-- A global variable. -/
def globalVariable (x : Context) (v : Variable) : Outcome Text := do
  let value ← x.expression (x.scopeIn []) v.initialValue
  pure (if value.isEmpty then "let " ++ v.name ++ ";"
    else (if v.isConstant then "const ".toList else "let ".toList)
      ++ v.name ++ " = " ++ value ++ ";")

/-- Unclassified source text. -/
def unknown (x : Context) (u : Unknown) : Outcome Text :=
  let commented := Text.unlines (u.text.lines.map fun (l : Text) => "// [unparsed] " ++ l)
  match x.options.unknowns with
  | .omit_ => .ok []
  | .comment => .ok commented
  | .passthrough =>
    if u.reason == "top-level statement".toList then
      (fun t => reindent 0 x.options.indent t) <$> x.rephrase (x.scopeIn []) u.text
    else .ok commented

end Context

end HostScript.Render
