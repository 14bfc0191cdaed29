import HostScript.Json
import HostScript.Text.Quoted
import HostScript.Yaml.Moment

/-!
# Values of documents

Bytes as documents write them, and what a document stands for.
-/

/-!
## Bytes in base sixty-four

Four letters of an alphabet of sixty-four stand for three bytes. Characters outside the alphabet are
skipped, and padding ends a group that is not full.
-/

namespace HostScript.Base64

/-- The letters in the order of their values. -/
def alphabet : Text := "ABCDEFGHIJKLMNOPQRSTUVWXYZabcdefghijklmnopqrstuvwxyz0123456789+/"

/-- The bytes of a text from a character on. `letters` is the number of letters of the open group,
`left` the bits of them that are in no byte yet, and `pads` the padding after them. None if the last
group is not full. -/
def decodeFrom? : (letters left pads : Nat) → Text → Option (List Nat)
  | letters, _, _, [] => if letters == 0 then some [] else none
  | letters, left, pads, c :: rest =>
    if c == '=' then
      if letters < 2 then decodeFrom? letters left pads rest
      else if letters + pads + 1 ≥ 4 then some []
      else decodeFrom? letters left (pads + 1) rest
    else match alphabet.idxOf? c with
      | none => decodeFrom? letters left pads rest
      | some n =>
        match letters with
        | 0 => decodeFrom? 1 n 0 rest
        | 1 => (decodeFrom? 2 (n % 16) 0 rest).map ((4 * left + n / 16) :: ·)
        | 2 => (decodeFrom? 3 (n % 4) 0 rest).map ((16 * left + n / 4) :: ·)
        | _ => (decodeFrom? 0 0 0 rest).map ((64 * left + n) :: ·)

/-- The bytes that a text stands for. -/
def decode? (t : Text) : Option (List Nat) :=
  if t.all (·.toNat < 128) then decodeFrom? 0 0 0 t else none

/-- A byte between the given quotes, as messages show it. -/
def showByte (quote : Char) (n : Nat) : Text :=
  if n < 128 then Text.showChar quote (Char.ofNat n) else "\\x" ++ Text.hexDigits 2 n

/-- Bytes as messages show them. -/
def display (bytes : List Nat) : Text :=
  let quote := Text.quoteFor (bytes.map Char.ofNat)
  'b' :: quote :: bytes.flatMap (showByte quote) ++ [quote]

end HostScript.Base64

/-!
## Values of documents

What a document stands for. Other than in JSON, there are dates and times, bytes, sets and lists of
pairs, and every value can be a key, except for those that hold others.
-/

namespace HostScript.Yaml

/-- A value of a document. -/
inductive Value where
  | null
  | bool (b : Bool)
  | int (n : Int)
  | float (x : Float)
  | str (s : Text)
  | date (d : Date)
  | moment (m : Moment)
  | bytes (bs : List Nat)
  | seq (items : List Value)
  | map (members : List (Value × Value))
  | set (items : List Value)
  | pairs (members : List (Value × Value))
  deriving Inhabited

namespace Value

/-- The number of a value; true and false count as one and zero. -/
def scalar? : Value → Option Scalar
  | .int n => some (.int n)
  | .float x => some (.float x)
  | .bool b => some (.int (if b then 1 else 0))
  | _ => none

/-- Whether two values are the same key. Numbers are the same by their value. -/
def isKey (a b : Value) : Bool :=
  match a.scalar?, b.scalar? with
  | some x, some y => !x.lt y && !y.lt x && x.toFloat == y.toFloat
  | none, none =>
    (match a, b with
    | .null, .null => true
    | .str s, .str t => s == t
    | .date d, .date e => d == e
    | .moment m, .moment n => m == n
    | .bytes b, .bytes c => b == c
    | _, _ => false)
  | _, _ => false

/-- Whether a value is a text. -/
def isText : Value → Bool
  | .str _ => true
  | _ => false

/-- Whether a value can be a key. -/
def canBeKey : Value → Bool
  | .seq _ | .map _ | .set _ | .pairs _ => false
  | _ => true

/-- The members with one put in: in the place of an earlier one with its key, or last. -/
def put (members : List (Value × Value)) (key v : Value) : List (Value × Value) :=
  if members.any (·.1.isKey key) then
    members.map fun m => if m.1.isKey key then (m.1, v) else m
  else members ++ [(key, v)]

mutual

/-- A value as messages show it. -/
def display : Value → Text
  | .null => Json.display .null
  | .bool b => Json.display (.bool b)
  | .int n => Json.display (.int n)
  | .float x => Json.display (.float x)
  | .str s => Json.display (.str s)
  | .date d => d.display
  | .moment m => m.display
  | .bytes bs => Base64.display bs
  | .seq xs => '[' :: Text.join ", " (displayItems xs) ++ [']']
  | .map ms => '\x7b' :: Text.join ", " (displayMembers ms) ++ ['\x7d']
  | .set [] => "set()"
  | .set xs => '\x7b' :: Text.join ", " (displayItems xs) ++ ['\x7d']
  | .pairs ms => '[' :: Text.join ", " (displayPairs ms) ++ [']']

/-- The items of a sequence as messages show them. -/
def displayItems : List Value → List Text
  | [] => []
  | x :: rest => display x :: displayItems rest

/-- The members of a mapping as messages show them. -/
def displayMembers : List (Value × Value) → List Text
  | [] => []
  | (k, v) :: rest => (display k ++ ": " ++ display v) :: displayMembers rest

/-- Pairs as messages show them. -/
def displayPairs : List (Value × Value) → List Text
  | [] => []
  | (k, v) :: rest => ('(' :: display k ++ ", " ++ display v ++ ")") :: displayPairs rest

end

/-- A value as text: a text stands for itself, and a date or time for how it is written. -/
def plain : Value → Text
  | .str s => s
  | .date d => d.text
  | .moment m => m.text
  | v => v.display

mutual

/-- A value as JSON: dates, times and bytes are texts, and so are keys, as JSON writes them. -/
def toJson : Value → Json
  | .null => .null
  | .bool b => .bool b
  | .int n => .int n
  | .float x => .float x
  | .str s => .str s
  | .date d => .str d.text
  | .moment m => .str m.text
  | .bytes bs => .str (Base64.display bs)
  | .seq xs | .set xs => .arr (toJsonItems xs)
  | .map ms => .obj (toJsonMembers ms)
  | .pairs ms => .arr (toJsonPairs ms)

/-- The items of a sequence as JSON. -/
def toJsonItems : List Value → List Json
  | [] => []
  | x :: rest => toJson x :: toJsonItems rest

/-- The members of a mapping as JSON. -/
def toJsonMembers : List (Value × Value) → List (Text × Json)
  | [] => []
  | (.str s, v) :: rest => (s, toJson v) :: toJsonMembers rest
  | (.date d, v) :: rest => (d.text, toJson v) :: toJsonMembers rest
  | (.moment m, v) :: rest => (m.text, toJson v) :: toJsonMembers rest
  | (k, v) :: rest => ((toJson k).line, toJson v) :: toJsonMembers rest

/-- Pairs as JSON. -/
def toJsonPairs : List (Value × Value) → List Json
  | [] => []
  | (k, v) :: rest => .arr [toJson k, toJson v] :: toJsonPairs rest

end

mutual

/-- The value of JSON. -/
def ofJson : Json → Value
  | .null => .null
  | .bool b => .bool b
  | .int n => .int n
  | .float x => .float x
  | .str s => .str s
  | .arr xs => .seq (ofJsonItems xs)
  | .obj ms => .map (ofJsonMembers ms)

/-- The values of items. -/
def ofJsonItems : List Json → List Value
  | [] => []
  | x :: rest => ofJson x :: ofJsonItems rest

/-- The values of members. -/
def ofJsonMembers : List (Text × Json) → List (Value × Value)
  | [] => []
  | (n, v) :: rest => (.str n, ofJson v) :: ofJsonMembers rest

end

/-- A value as JSON where a number is wanted: bytes below 128 are the text of a numeral. -/
def numeral : Value → Json
  | .bytes bs => .str (if bs.all (· < 128) then bs.map Char.ofNat else Base64.display bs)
  | v => v.toJson

/-- A member of a mapping by its name. -/
def get? (v : Value) (name : String) : Option Value :=
  match v with
  | .map members => (members.find? (·.1.isKey (.str name.toList))).map (·.2)
  | _ => none

/-- Whether a value counts as true: everything but false, null, zero and what is empty. -/
def truthy : Value → Bool
  | .bytes bs => !bs.isEmpty
  | v => v.toJson.truthy

end Value

end HostScript.Yaml
