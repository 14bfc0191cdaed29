import HostScript.Number.Reading
import HostScript.Number.Scalar
import HostScript.Text.Quoted

/-!
# JSON values

Values as they are exchanged with callers. Whole numbers and fractional numbers are kept apart,
and objects keep the order in which their members were put in, with one member per name.
-/

namespace HostScript

/-- A JSON value. -/
inductive Json where
  | null
  | bool (b : Bool)
  | int (n : Int)
  | float (x : Float)
  | str (s : Text)
  | arr (items : List Json)
  | obj (members : List (Text × Json))
  deriving Inhabited

namespace Json

/-- A string stands for the value that holds it. -/
instance : Coe String Json := ⟨fun s => .str s.toList⟩

/-- The members with one replaced, or put last if the name is new. -/
def put (members : List (Text × Json)) (name : Text) (v : Json) : List (Text × Json) :=
  if members.any (·.1 == name) then members.map fun m => if m.1 == name then (name, v) else m
  else members ++ [(name, v)]

/-- A member of an object. -/
def get? (j : Json) (name : String) : Option Json :=
  match j with
  | .obj members => members.lookup name.toList
  | _ => none

/-- An object from names and values. -/
def ofPairs (pairs : List (String × Json)) : Json := .obj (pairs.map fun (n, v) => (n.toList, v))

/-- An array of texts. -/
def ofTexts (ts : List Text) : Json := .arr (ts.map .str)

/-- An absent value is null. -/
def ofOption {α : Type} (f : α → Json) : Option α → Json
  | some a => f a
  | none => .null

/-- The text of a text value. -/
def text? : Json → Option Text
  | .str s => some s
  | _ => none

/-- The items of an array. -/
def items? : Json → Option (List Json)
  | .arr xs => some xs
  | _ => none

/-- A number as a value. -/
def ofScalar : Scalar → Json
  | .int n => .int n
  | .float x => .float x

/-- The number of a value; true and false count as one and zero. -/
def scalar? : Json → Option Scalar
  | .int n => some (.int n)
  | .float x => some (.float x)
  | .bool b => some (.int (if b then 1 else 0))
  | _ => none

/-- Whether a value counts as true: everything but false, null, zero and what is empty. -/
def truthy : Json → Bool
  | .null => false
  | .bool b => b
  | .int n => n != 0
  | .float x => !(x == 0)
  | .str s => !s.isEmpty
  | .arr xs => !xs.isEmpty
  | .obj ms => !ms.isEmpty

/-- Four hexadecimal digits. -/
def hex4 (n : Nat) : Text :=
  [n / 4096 % 16, n / 256 % 16, n / 16 % 16, n % 16].map Nat.digitChar

/-- The escape of a code point beyond plain ASCII: one unit, or a pair of surrogate units. -/
def escapeUnits (n : Nat) : Text :=
  if n < 0x10000 then '\\' :: 'u' :: hex4 n
  else
    let m := n - 0x10000
    '\\' :: 'u' :: hex4 (0xD800 + m / 1024) ++ '\\' :: 'u' :: hex4 (0xDC00 + m % 1024)

/-- A character as it stands in a quoted text. -/
def quoteChar (c : Char) : Text :=
  if c == '\x22' then ['\\', '\x22']
  else if c == '\\' then ['\\', '\\']
  else if c == '\n' then ['\\', 'n']
  else if c == '\r' then ['\\', 'r']
  else if c == '\t' then ['\\', 't']
  else if c == '\x0c' then ['\\', 'f']
  else if c == '\x08' then ['\\', 'b']
  else if 32 ≤ c.toNat && c.toNat < 127 then [c]
  else escapeUnits ((Text.half? c).getD c.toNat)

/-- A text in quotes, in plain ASCII. -/
def quote (t : Text) : Text := '\x22' :: t.flatMap quoteChar ++ ['\x22']

/-- The text of a number: not a number and the infinities have names of their own. -/
def numberText (x : Float) : Text :=
  if x.isNaN then "NaN"
  else if x.isInf then (if x < 0 then "-Infinity" else "Infinity")
  else Number.floatText x

mutual

/-- The value with the members of every object in ascending order of their names. -/
def sortNames : Json → Json
  | .arr xs => .arr (sortNamesAll xs)
  | .obj ms => .obj ((sortNamesMembers ms).mergeSort fun a b => Text.le a.1 b.1)
  | v => v

/-- `sortNames` of each item. -/
def sortNamesAll : List Json → List Json
  | [] => []
  | x :: rest => sortNames x :: sortNamesAll rest

/-- `sortNames` of each member. -/
def sortNamesMembers : List (Text × Json) → List (Text × Json)
  | [] => []
  | (n, v) :: rest => (n, sortNames v) :: sortNamesMembers rest

end

mutual

/-- The value on one line, with a space after each comma and colon. -/
def line : Json → Text
  | .null => "null"
  | .bool b => if b then "true" else "false"
  | .int n => Text.ofInt n
  | .float x => numberText x
  | .str s => quote s
  | .arr xs => '[' :: Text.join ", " (lineItems xs) ++ [']']
  | .obj ms => '\x7b' :: Text.join ", " (lineMembers ms) ++ ['\x7d']

/-- The items of an array on one line. -/
def lineItems : List Json → List Text
  | [] => []
  | x :: rest => line x :: lineItems rest

/-- The members of an object on one line. -/
def lineMembers : List (Text × Json) → List Text
  | [] => []
  | (n, v) :: rest => (quote n ++ ": " ++ line v) :: lineMembers rest

end

end Json

end HostScript

/-!
## Views of values

A JSON value as a number, in a message, and as a document for reading.
-/

/-!
### Values as numbers

A value stands for a number where one is asked for: a number for itself, true and false for one
and zero, and a text for the number it spells.
-/

namespace HostScript.Json

/-- The whole number that a value stands for; a fraction loses what is behind the point. -/
def asInt : Json → Outcome Int
  | .int n => .ok n
  | .bool b => .ok (if b then 1 else 0)
  | .float x =>
    match Number.truncate? x with
    | some n => .ok n
    | none =>
      if x.isNaN then .error (.badValue "cannot convert float NaN to integer")
      else .error .tooLarge
  | .str s => Number.readInt s
  | .null | .arr _ | .obj _ => .error .wrongShape

/-- The fraction that a value stands for. -/
def asFloat : Json → Outcome Float
  | .int n => let x := Number.ofInt n; if x.isInf then .error .tooLarge else .ok x
  | .bool b => .ok (if b then 1 else 0)
  | .float x => .ok x
  | .str s => Number.readFloat s
  | .null | .arr _ | .obj _ => .error .wrongShape

/-!
### Values in messages

How a value reads in a message. Texts inside it are quoted; a text of its own reads as it is where
only its content matters.
-/

mutual

/-- A value as messages show it. -/
def display : Json → Text
  | .null => "None"
  | .bool b => if b then "True" else "False"
  | .int n => Text.ofInt n
  | .float x => Number.floatText x
  | .str s => Text.quoted s
  | .arr xs => '[' :: Text.join ", " (displayItems xs) ++ [']']
  | .obj ms => '\x7b' :: Text.join ", " (displayMembers ms) ++ ['\x7d']

/-- The items of an array as messages show them. -/
def displayItems : List Json → List Text
  | [] => []
  | x :: rest => display x :: displayItems rest

/-- The members of an object as messages show them. -/
def displayMembers : List (Text × Json) → List Text
  | [] => []
  | (n, v) :: rest => (Text.quoted n ++ ": " ++ display v) :: displayMembers rest

end

/-- A value as text: a text stands for itself. -/
def plain : Json → Text
  | .str s => s
  | v => display v

/-!
### JSON documents for reading

A document with one item or member on a line, two columns further in than what holds it.
-/

/-- The start of a line inside `depth` brackets. -/
def margin (depth : Nat) : Text := List.replicate (2 * depth) ' '

/-- Lines between two brackets; nothing but the brackets if there are none. -/
def bracketed (depth : Nat) (left right : Char) (items : List Text) : Text :=
  if items.isEmpty then [left, right]
  else
    left :: '\n' :: Text.join ",\n" (items.map (margin (depth + 1) ++ ·))
      ++ '\n' :: margin depth ++ [right]

mutual

/-- The value over several lines, inside `depth` brackets. -/
def indented (depth : Nat) : Json → Text
  | .arr xs => bracketed depth '[' ']' (indentedItems (depth + 1) xs)
  | .obj ms => bracketed depth '\x7b' '\x7d' (indentedMembers (depth + 1) ms)
  | v => v.line

/-- The items of an array, each over several lines. -/
def indentedItems (depth : Nat) : List Json → List Text
  | [] => []
  | x :: rest => indented depth x :: indentedItems depth rest

/-- The members of an object, each over several lines. -/
def indentedMembers (depth : Nat) : List (Text × Json) → List Text
  | [] => []
  | (n, v) :: rest => (quote n ++ ": " ++ indented depth v) :: indentedMembers depth rest

end

end HostScript.Json
