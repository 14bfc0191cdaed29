import HostScript.Fault
import HostScript.Number.Binary
import HostScript.Text.Quoted
import HostScript.Text.WordChar

/-!
# Reading numbers

Numerals of whole numbers, and numbers as a person types them.
-/

/-!
## Integer numerals

Integers are written with the decimal digits of any script. A numeral with more digits than the
limit is refused, whether it is read or written.
-/

namespace HostScript.Number

/-- The most digits of a numeral. -/
def digitLimit : Nat := 4300

/-- The number that decimal digits denote. -/
def ofDigits (digits : Text) : Nat := digits.foldl (fun n c => 10 * n + digitValue c) 0

/-- The fault of a numeral with too many digits. -/
def tooManyDigits (count : Nat) : Fault :=
  .badValue ("Exceeds the limit (4300 digits) for integer string conversion: value has "
    ++ Text.ofNat count ++ " digits; use sys.set_int_max_str_digits() to increase the limit")

/-- Reads digits as a number, unless there are too many. -/
def readDigits (digits : Text) : Outcome Nat :=
  if digits.length > digitLimit then .error (tooManyDigits digits.length)
  else .ok (ofDigits digits)

/-- Reads digits behind an optional minus sign. -/
def readSigned (t : Text) : Outcome Int :=
  match t with
  | '-' :: digits => (fun n : Nat => -(n : Int)) <$> readDigits digits
  | digits => (fun n : Nat => (n : Int)) <$> readDigits digits

/-- Writes an integer, unless it has too many digits. -/
def writeInt (n : Int) : Outcome Text :=
  if (Text.ofNat n.natAbs).length > digitLimit then
    .error (.badValue ("Exceeds the limit (4300 digits) for integer string conversion; "
      ++ "use sys.set_int_max_str_digits() to increase the limit"))
  else .ok (Text.ofInt n)

/-!
## Numbers as they are typed

A number that a person typed may have blanks around it, a sign, the digits of any script, and
single underscores between digits.
-/

/-- The value `digits * 10 ^ (exponent - places)`. -/
def scientific (negative : Bool) (digits places : Nat) (exponent : Int) : Float :=
  let e : Int := exponent - places
  -- Far outside the range of finite numbers the exponent itself decides.
  let size : Int := e + (Text.ofNat digits).length
  let x :=
    if digits == 0 || size < -400 then 0.0
    else if size > 400 then 1.0 / 0.0
    else Float.ofScientific digits (e < 0) e.natAbs
  if negative then -x else x

/-- Blanks that may stand around a number. -/
def isNumberBlank : CharSet := fun c =>
  if c.toNat < 128 then among " \t\n\r\x0b\x0c" c else isBlank c

/-- The text with the digits of every script as those of ASCII. -/
def plainDigits (t : Text) : Text :=
  t.map fun c => if isDigit c then Char.ofNat (48 + digitValue c) else c

/-- The text without underscores, if each one stands between two digits. -/
def ungroup? : Text → Option Text
  | [] => some []
  | ['_'] => none
  | c :: '_' :: d :: rest =>
    if c.isDigit && d.isDigit then (ungroup? (d :: rest)).map (c :: ·) else none
  | c :: rest => if c == '_' then none else (ungroup? rest).map (c :: ·)

/-- A text without the blanks around it and the underscores inside, with ASCII digits. -/
def typed? (t : Text) : Option Text := ungroup? (Text.trimOf isNumberBlank (plainDigits t))

/-- Takes a sign off a text; tells whether it was a minus sign. -/
def takeSign : Text → Bool × Text
  | '-' :: rest => (true, rest)
  | '+' :: rest => (false, rest)
  | t => (false, t)

/-- The digits of a typed integer with its sign. -/
def typedInt? (t : Text) : Option (Bool × Text) :=
  (typed? t).bind fun body =>
    let (negative, digits) := takeSign body
    if !digits.isEmpty && digits.all Char.isDigit then some (negative, digits) else none

/-- Reads a typed integer. -/
def readInt (t : Text) : Outcome Int :=
  match typedInt? t with
  | none =>
    .error (.badValue ("invalid literal for int() with base 10: " ++ (Text.quoted t).upTo 200))
  | some (negative, digits) =>
    (fun n : Nat => if negative then -(n : Int) else n) <$> readDigits digits

/-- The exponent after a typed fraction: nothing, or a mark, a sign and digits. -/
def exponent? : Text → Option Int
  | [] => some 0
  | e :: rest =>
    let (negative, digits) := takeSign rest
    if (e == 'e' || e == 'E') && !digits.isEmpty && digits.all Char.isDigit then
      let n : Int := ofDigits digits
      some (if negative then -n else n)
    else none

/-- The typed fraction without a sign: digits, a point among them, and an exponent. -/
def typedFraction? (negative : Bool) (t : Text) : Option Float :=
  let whole := t.takeWhile Char.isDigit
  let rest := t.drop whole.length
  let (places, rest) := match rest with
    | '.' :: more => (more.takeWhile Char.isDigit, more.dropWhile Char.isDigit)
    | _ => ([], rest)
  if whole.isEmpty && places.isEmpty then none
  else (exponent? rest).map fun e =>
    scientific negative (ofDigits (whole ++ places)) places.length e

/-- The value of a typed fraction; infinities and the undefined number have names. -/
def typedFloat? (t : Text) : Option Float :=
  (typed? t).bind fun body =>
    let (negative, body) := takeSign body
    let name := Text.toStr (body.map Char.toLower)
    if name == "inf" || name == "infinity" then some (if negative then -1.0 / 0.0 else 1.0 / 0.0)
    else if name == "nan" then some (0.0 / 0.0)
    else typedFraction? negative body

/-- Reads a typed fraction. -/
def readFloat (t : Text) : Outcome Float :=
  match typedFloat? t with
  | none => .error (.badValue ("could not convert string to float: " ++ Text.quoted t))
  | some x => .ok x

end HostScript.Number
