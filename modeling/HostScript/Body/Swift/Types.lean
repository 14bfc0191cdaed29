import HostScript.Body.Scope
import HostScript.Source.Bracket

/-!
# Type names

Type members, empty collections, conversions, constructor calls and dictionary literals in their
script form.
-/

namespace HostScript.Body.Swift

open Pattern

/-- The name of a floating point type. -/
def numericType : Pattern := choice ["Double", "Float", "CGFloat"]

/-- The name of a floating point type with limits. -/
def floatType : Pattern := choice ["Double", "Float"]

/-- Type arguments before an empty call. -/
def typeArguments : Pattern := "<" ++ (noneOf (among ">")).plus ++ ">()"

/-- Type members and constructors with a fixed script form. -/
def typeEdits : List Edit := [
  .const (edge ++ "nil" ++ edge) "null",
  .const (edge ++ "Int.max" ++ edge) "Number.MAX_SAFE_INTEGER",
  .const (edge ++ "Int.min" ++ edge) "Number.MIN_SAFE_INTEGER",
  .const (edge ++ numericType ++ ".pi" ++ edge) "Math.PI",
  .const (edge ++ floatType ++ ".infinity" ++ edge) "Infinity",
  .const (edge ++ floatType ++ ".greatestFiniteMagnitude" ++ edge) "Number.MAX_VALUE",
  ⟨edge ++ "Array(repeating:" ++ blanks ++ cap 1 (noneOf (among ",")).plusLazy ++ "," ++ blanks
      ++ "count:" ++ blanks ++ cap 2 (noneOf (among ")")).plus ++ ")",
    fun m => "new Array(" ++ m.group 2 ++ ").fill(" ++ m.group 1 ++ ")"⟩,
  .const ("[" ++ dotted ++ blanks ++ ":" ++ blanks ++ dotted ++ "]()") "\x7b\x7d",
  .const ("[" ++ dotted ++ "]()") "[]",
  .const (lit "[:]") "\x7b\x7d",
  .const (edge ++ "Dictionary" ++ typeArguments) "\x7b\x7d",
  .const (edge ++ "Array" ++ typeArguments) "[]",
  .const (edge ++ "Set" ++ typeArguments) "new Set()",
  .const (notAfterText "new " ++ fresh ++ "Set(") "new Set(",
  .const (edge ++ "String(describing:" ++ blanks) "String(",
  .const (edge ++ "String(format:" ++ blanks) "String.format("]

/-- An enumeration built from a raw value. -/
def rawValueInit : Edit :=
  ⟨fresh ++ cap 1 upperName ++ "(rawValue:" ++ blanks,
    fun m => m.group 1 ++ ".fromRawValue("⟩

/-- A call that builds a value of a type. -/
def constructorCall (type : Text) : Edit :=
  ⟨fresh ++ notAfterText "new " ++ Pattern.text type ++ (lit ".init").opt ++ "(",
    fun _ => "new " ++ type ++ "("⟩

/-- Whether the inside of square brackets is a list of entries with a key and a value each. -/
def isDictionaryBody (inside : Text) : Bool :=
  let entries := Source.splitTopLevel .conditions inside
  !entries.isEmpty && entries.all fun e =>
    (Source.splitTopLevel .entries e).length == 2 && !e.contains '?'

/-- Whether square brackets after the given text are a subscript. -/
def isSubscript (before : Text) : Bool :=
  match before.trimEnd.getLast? with
  | none => false
  | some c => isAlnum c || c == '_' || c == '$' || c == ')' || c == ']'

/-- Dictionary literals from an offset on, in curly brackets; subscripts stay. -/
def dictionaryLiterals : (fuel pos : Nat) → Text → Text
  | 0, _, t => t
  | fuel + 1, pos, t =>
    match Text.indexFrom? "[" t pos with
    | none => t
    | some open_ =>
      let new :=
        if isSubscript (t.take open_) then t
        else match Source.closing? t open_ with
          | none => t
          | some close =>
            let inside := t.slice (open_ + 1) close
            if isDictionaryBody inside then
              t.take open_ ++ "\x7b" ++ inside ++ "\x7d" ++ t.drop (close + 1)
            else t
      dictionaryLiterals fuel (open_ + 1) new

/-- The start of a conversion to a type. -/
def conversion : Pattern :=
  fresh ++ cap 1 (choice ["Int", "Double", "Float", "CGFloat", "Bool"]) ++ "("

/-- The script form of a conversion of a value to a type. -/
def convertedValue (type inner : Text) : Text :=
  if type == "Int".toList then "Math.trunc(Number(" ++ inner ++ "))"
  else if type == "Bool".toList then "Boolean(" ++ inner ++ ")"
  else "Number(" ++ inner ++ ")"

/-- Conversions from an offset on. -/
def conversionCalls : (fuel pos : Nat) → Text → Text
  | 0, _, t => t
  | fuel + 1, pos, t =>
    match conversion.searchAt? t pos with
    | none => t
    | some m =>
      let open_ := m.stop - 1
      match Source.closing? t open_ with
      | none => conversionCalls fuel m.stop t
      | some close =>
        let new := convertedValue (m.group 1) (t.slice (open_ + 1) close)
        conversionCalls fuel (m.start + new.length) (m.before ++ new ++ t.drop (close + 1))

/-- Rephrases everything that names a type. -/
def typeNames (scope : Scope) (t : Text) : Text :=
  let t := Edit.applyAll typeEdits t
  let t :=
    if scope.typeName.isEmpty then t
    else (edge ++ "Self" ++ edge).replace (fun _ => scope.typeName) t
  let t := rawValueInit.apply t
  let t := (Text.sorted scope.constructible).foldl (fun t type => (constructorCall type).apply t) t
  let t := dictionaryLiterals (t.length + 1) 0 t
  conversionCalls (t.length + 1) 0 t

end HostScript.Body.Swift
