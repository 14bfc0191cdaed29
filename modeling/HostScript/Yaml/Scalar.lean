import HostScript.Pattern.Match
import HostScript.Yaml.Value

/-!
# Words of documents

What a word of a document stands for. A word without a tag gets the tag of the first form that it
has: a truth value, a fraction, a whole number, and so on; a word of no such form is a text.
-/

namespace HostScript.Yaml

open Pattern

/-- The tags that a value can have. -/
inductive Tag where
  | null
  | bool
  | int
  | float
  | timestamp
  | str
  | binary
  | seq
  | map
  | set
  /-- A list of pairs. -/
  | pairs
  /-- The key of a mapping whose members are taken over. -/
  | merge
  /-- The key of a default value. -/
  | default
  | unknown
  deriving DecidableEq

/-- How the tags of this language start when they are written out. -/
def Tag.start : Text := "tag:yaml.org,2002:"

/-- The tag that is written out as a text. -/
def Tag.ofText (t : Text) : Tag :=
  if !Tag.start.isPrefixOf t then .unknown
  else match Text.toStr (t.drop Tag.start.length) with
    | "null" => .null
    | "bool" => .bool
    | "int" => .int
    | "float" => .float
    | "timestamp" => .timestamp
    | "str" => .str
    | "binary" => .binary
    | "seq" => .seq
    | "map" => .map
    | "set" => .set
    | "omap" | "pairs" => .pairs
    | "merge" => .merge
    | "value" => .default
    | _ => .unknown

/-! ## Forms -/

/-- Words for nothing. -/
def nullWords : List String := ["", "~", "null", "Null", "NULL"]

/-- Words for true. -/
def trueWords : List String :=
  ["yes", "Yes", "YES", "true", "True", "TRUE", "on", "On", "ON"]

/-- Words for false. -/
def falseWords : List String :=
  ["no", "No", "NO", "false", "False", "FALSE", "off", "Off", "OFF"]

private def sign : Pattern := (oneOf (among "-+")).opt

private def decimalPart : Pattern := (oneOf (between '0' '9' ||| among "_")).star

private def sixtieths : Pattern :=
  (":" ++ (oneOf (between '0' '5')).opt ++ oneOf (between '0' '9')).plus

private def exponentPart : Pattern :=
  (oneOf (among "eE") ++ oneOf (among "-+") ++ (oneOf (between '0' '9')).plus).opt

/-- Whole numbers in base two, eight, ten, sixteen and sixty. -/
def intForms : List Pattern := [
  sign ++ "0b" ++ (oneOf (among "01_")).plus,
  sign ++ "0" ++ (oneOf (isOctalDigit ||| among "_")).plus,
  sign ++ (lit "0" <|> oneOf (between '1' '9') ++ decimalPart),
  sign ++ "0x" ++ (oneOf (isHexDigit ||| among "_")).plus,
  sign ++ oneOf (between '1' '9') ++ decimalPart ++ sixtieths]

/-- Fractions in base ten and sixty, the infinities and the undefined number. -/
def floatForms : List Pattern := [
  sign ++ oneOf (between '0' '9') ++ decimalPart ++ "." ++ decimalPart ++ exponentPart,
  "." ++ oneOf (between '0' '9') ++ decimalPart ++ exponentPart,
  sign ++ oneOf (between '0' '9') ++ decimalPart ++ sixtieths ++ "." ++ decimalPart,
  sign ++ "." ++ choice ["inf", "Inf", "INF"],
  "." ++ choice ["nan", "NaN", "NAN"]]

/-- Whether a word is written as a date of full width, or as a date with a time. -/
def isTimestamp (t : Text) : Bool :=
  match dateAt? t with
  | some (d, rest) => if rest.isEmpty then t.length == 10 else (timeOn? d rest).isSome
  | none => false

/-- The tag of a word that has none. -/
def tagOf (word : Text) : Tag :=
  let t := if word.getLast? == some '\n' then word.dropLast else word
  let isOne (words : List String) : Bool := words.any (·.toList == t)
  if isOne trueWords || isOne falseWords then .bool
  else if floatForms.any (·.fitsAll t) then .float
  else if intForms.any (·.fitsAll t) then .int
  else if isOne ["<<"] then .merge
  else if isOne nullWords then .null
  else if isTimestamp t then .timestamp
  else if isOne ["="] then .default
  else .str

/-! ## Numbers -/

/-- The number that digits write in a base. -/
def inBase (base : Nat) (digits : Text) : Outcome Int :=
  let isDigit (c : Char) : Bool := isHexDigit c && basedDigit c < base
  if !digits.isEmpty && digits.all isDigit then .ok (basedValue base digits)
  else .error (.badValue ("invalid literal for int() with base " ++ Text.ofNat base ++ ": "
    ++ Text.quoted digits))

/-- The sum of places in base sixty, the last place first. -/
def inSixties {α : Type} (add : α → Nat → α → α) (zero : α) (places : List α) : α :=
  (places.reverse.foldl (fun (sum, weight) x => (add sum weight x, weight * 60)) (zero, 1)).1

/-- The whole number that a word writes. -/
def readInt (word : Text) : Outcome Int := do
  let t := word.filter (· != '_')
  if t.isEmpty then .error .outOfRange
  let (negative, body) := Number.takeSign t
  let n ← if body == ['0'] then pure 0
    else if body.startsWith "0b" then inBase 2 (body.drop 2)
    else if body.startsWith "0x" then inBase 16 (body.drop 2)
    else match body with
      | [] => .error .outOfRange
      | '0' :: _ => inBase 8 body
      | _ =>
        if body.contains ':' then do
          let places ← (Text.splitOn ':' body).mapM Number.readInt
          pure (inSixties (fun sum weight x => sum + x * weight) 0 places)
        else Number.readInt body
  pure (if negative then -n else n)

/-- The fraction that a word writes. -/
def readFloat (word : Text) : Outcome Float := do
  let t := (word.filter (· != '_')).map Char.toLower
  if t.isEmpty then .error .outOfRange
  let (negative, body) := Number.takeSign t
  let x ← if body == ".inf".toList then pure (1.0 / 0.0)
    else if body == ".nan".toList then pure (0.0 / 0.0)
    else if body.contains ':' then do
      let places ← (Text.splitOn ':' body).mapM Number.readFloat
      pure (inSixties (fun sum weight x => sum + x * Number.ofInt weight) 0.0 places)
    else Number.readFloat body
  pure (if negative then -x else x)

/-- The date, or date and time, that a word writes. -/
def readTimestamp (word : Text) : Outcome Value :=
  let t := if word.getLast? == some '\n' then word.dropLast else word
  match dateAt? t with
  | none => .error .misplaced
  | some (d, rest) =>
    if rest.isEmpty then do
      d.check
      pure (.date d)
    else match timeOn? d rest with
      | none => .error .misplaced
      | some m => do
        m.check
        pure (.moment m)

/-- The value of a word with a tag. -/
def wordValue (tag : Tag) (word : Text) : Outcome Value :=
  match tag with
  | .null => .ok .null
  | .bool =>
    let lower := word.map Char.toLower
    if trueWords.any (·.toList == lower) then .ok (.bool true)
    else if falseWords.any (·.toList == lower) then .ok (.bool false)
    else .error .missingKey
  | .int => .int <$> readInt word
  | .float => .float <$> readFloat word
  | .timestamp => readTimestamp word
  | .str => .ok (.str word)
  | .binary =>
    match Base64.decode? word with
    | some bs => .ok (.bytes bs)
    | none => .error (.malformed .value)
  | .seq | .map | .set | .pairs | .merge | .default | .unknown => .error (.malformed .value)

end HostScript.Yaml
