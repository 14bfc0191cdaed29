import HostScript.Json
import HostScript.Number.Reading

/-!
# Fields of requests

Numbers that a text field writes, and the rules that the fields of a body are read by.
-/

/-!
## Numbers in text fields

A text field can write a number: with white space around it, with underscores inside, and a whole
number also with zeros in front and with zeros behind a point.
-/

namespace HostScript.Api.Numeral

/-- White space that may stand around a number. -/
def isBlank : CharSet := fun c =>
  [9, 10, 11, 12, 13, 32, 0x85, 0xA0, 0x1680, 0x2028, 0x2029, 0x202F, 0x205F, 0x3000].contains
    c.toNat || (0x2000 ≤ c.toNat && c.toNat ≤ 0x200A)

/-- Whether underscores stand alone, and neither first nor last. -/
def hasLoneUnderscores : Text → Bool
  | [] => true
  | '_' :: _ => false
  | _ :: '_' :: rest => hasLoneUnderscores rest && !rest.isEmpty
  | _ :: rest => hasLoneUnderscores rest

/-- A text without its underscores, if it has some and they stand alone. -/
def dropUnderscores? (t : Text) : Option Text :=
  if t.contains '_' && hasLoneUnderscores t then some (t.filter (· != '_')) else none

/-- The whole number that a text writes in its shortest form. -/
def shortest? (t : Text) : Option Int :=
  let (negative, digits) := match t with
    | '-' :: rest => (true, rest)
    | _ => (false, t)
  let isShort := digits.head? != some '0' || digits.length == 1
  if digits.isEmpty || !digits.all Char.isDigit || !isShort
      || digits.length > Number.digitLimit then none
  else
    let n : Int := Number.ofDigits digits
    some (if negative then -n else n)

/-- A text behind the zeros at its start, among which underscores may stand. One zero is kept
before a point or at the end. None if the text starts with something else than a number. -/
def dropZeros? : Text → Option Text
  | [] => none
  | '0' :: rest =>
    let zeros := rest.takeWhile (among "0_")
    match rest.drop zeros.length with
    | [] => some [(zeros.getLast?).getD '0']
    | '.' :: more => some ((zeros.getLast?).getD '0' :: '.' :: more)
    | c :: more => if c.isDigit || c == '-' then some (c :: more) else none
  | c :: rest => if c.isDigit || c == '-' then some (c :: rest) else none

/-- A text without the point and the zeros behind it. -/
def dropPlaces (t : Text) : Text :=
  match t.cutAt '.' with
  | (whole, some zeros) => if !zeros.isEmpty && zeros.all (· == '0') then whole else t
  | _ => t

/-- A text without what a whole number may have besides its digits. -/
def tidy? (t : Text) : Option Text := do
  let t := Text.trimOf isBlank t
  let t ← match t with
    | '+' :: '-' :: _ => none
    | '+' :: rest => some rest
    | _ => some t
  let t := dropPlaces (← dropZeros? t)
  some ((dropUnderscores? t).getD t)

/-- The whole number that a text writes. -/
def int? (t : Text) : Option Int := (shortest? t).orElse fun _ => (tidy? t).bind shortest?

/-- The fraction that a text writes without white space and underscores. -/
def fraction? (t : Text) : Option Float :=
  if t.all fun c => c.toNat < 127 && ' ' < c && c != '_' then Number.typedFloat? t else none

/-- The fraction that a text writes. -/
def float? (t : Text) : Option Float :=
  (fraction? (Text.trimOf isBlank t)).orElse fun _ => (dropUnderscores? t).bind fraction?

end HostScript.Api.Numeral

/-!
## Fields of a request body

The rules for the fields of a request body. A field may come in a neighbouring type: a number or a
truth value as text, a whole number as a fraction without a fractional part.
-/

namespace HostScript.Api

/-- The text of a field. -/
def textField? : Json → Option Text
  | .str s => some s
  | _ => none

/-- The whole number of a field. A fraction has to be one that a machine word holds. -/
def intField? : Json → Option Int
  | .int n => some n
  | .bool b => some (if b then 1 else 0)
  | .float x =>
    if Number.isIntegral x && x.abs < 9223372036854775808.0 then Number.truncate? x else none
  | .str s => Numeral.int? s
  | .null | .arr _ | .obj _ => none

/-- The fraction of a field. -/
def floatField? : Json → Option Float
  | .int n =>
    let x := Number.ofInt n
    if x.isInf then none else some x
  | .bool b => some (if b then 1 else 0)
  | .float x => some x
  | .str s => Numeral.float? s
  | .null | .arr _ | .obj _ => none

/-- Words for true in a field. -/
def trueWords : List String := ["1", "on", "t", "true", "y", "yes"]

/-- Words for false in a field. -/
def falseWords : List String := ["0", "off", "f", "false", "n", "no"]

/-- The truth value of a field. -/
def boolField? : Json → Option Bool
  | .bool b => some b
  | .int n => if n == 0 then some false else if n == 1 then some true else none
  | .float x => if x == 0 then some false else if x == 1 then some true else none
  | .str s =>
    let word := Text.toStr (s.map Char.toLower)
    if trueWords.contains word then some true
    else if falseWords.contains word then some false
    else none
  | .null | .arr _ | .obj _ => none

/-- A rule for a field. -/
structure FieldRule where
  name : String
  required : Bool
  valid : Json → Bool

namespace FieldRule

/-- A field that has to be a text. -/
def text (name : String) (required : Bool) : FieldRule :=
  ⟨name, required, fun v => (textField? v).isSome⟩

/-- An optional truth value. -/
def flag (name : String) : FieldRule := ⟨name, false, fun v => (boolField? v).isSome⟩

/-- An optional level of optimization. -/
def level (name : String) : FieldRule :=
  ⟨name, false, fun v => (intField? v).any fun n => 0 ≤ n && n ≤ 3⟩

/-- An optional positive fraction, which may be null. -/
def positive (name : String) : FieldRule := ⟨name, false, fun v => match v with
  | .null => true
  | v => (floatField? v).any (· > 0)⟩

/-- An optional positive whole number, which may be null. -/
def positiveInt (name : String) : FieldRule := ⟨name, false, fun v => match v with
  | .null => true
  | v => (intField? v).any (· > 0)⟩

/-- Whether a body keeps a rule. -/
def holds (r : FieldRule) (body : Json) : Bool :=
  match body.get? r.name with
  | none => !r.required
  | some v => r.valid v

end FieldRule

/-- The places where a body breaks the rules. -/
def invalidPlaces (rules : List FieldRule) : Option Json → List (List String)
  | some (.obj ms) => (rules.filter (!·.holds (.obj ms))).map fun r => ["body", r.name]
  | _ => [["body"]]

/-- A field read in a given way, or its default. -/
def fieldOr {α : Type} (read : Json → Option α) (body : Json) (name : String) (default : α) : α :=
  ((body.get? name).bind read).getD default

end HostScript.Api
