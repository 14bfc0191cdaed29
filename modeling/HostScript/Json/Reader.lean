import HostScript.Json
import HostScript.Number.Reading

/-!
# Reading JSON

A value is read from the start of a text. A failure says what was expected and where, as line,
column and offset. The reader also takes the names of the infinities and of the undefined number.
-/

namespace HostScript.Json

/-- A failure to read: what is wrong, and how many characters follow the place, if it has one. -/
structure ReadError where
  what : Text
  remaining : Option Nat

private def failAt {α : Type} (what : String) (t : Text) : Except ReadError α :=
  .error ⟨what, some t.length⟩

/-- The text after leading blanks. -/
def skipBlanks (t : Text) : Text := t.dropWhile (among " \t\n\r")

/-- The value of a hexadecimal digit. -/
def hexValue? (c : Char) : Option Nat :=
  if '0' ≤ c && c ≤ '9' then some (c.toNat - 48)
  else if 'a' ≤ c && c ≤ 'f' then some (c.toNat - 87)
  else if 'A' ≤ c && c ≤ 'F' then some (c.toNat - 55)
  else none

/-- The value of four hexadecimal digits at the start of a text that goes on after them. -/
def hexUnit? : Text → Option (Nat × Text)
  | a :: b :: c :: d :: rest => do
    if rest.isEmpty then none else
    let a ← hexValue? a
    let b ← hexValue? b
    let c ← hexValue? c
    let d ← hexValue? d
    some (4096 * a + 256 * b + 16 * c + d, rest)
  | _ => none

/-- The character that a one-letter escape stands for. -/
def escapeOf? (c : Char) : Option Char :=
  if c == '\x22' || c == '\\' || c == '/' then some c
  else if c == 'b' then some '\x08'
  else if c == 'f' then some '\x0c'
  else if c == 'n' then some '\n'
  else if c == 'r' then some '\r'
  else if c == 't' then some '\t'
  else none

/-- Reads a quoted text after its opening quote; `start` is the text at that quote. -/
def stringBody (start : Text) : (fuel : Nat) → (acc : Text) → Text →
    Except ReadError (Text × Text)
  | 0, _, _ => failAt "Unterminated string starting at" start
  | _ + 1, _, [] => failAt "Unterminated string starting at" start
  | fuel + 1, acc, c :: rest =>
    if c == '\x22' then .ok (acc.reverse, rest)
    else if c == '\\' then
      match rest with
      | [] => failAt "Unterminated string starting at" start
      | 'u' :: more =>
        match hexUnit? more with
        | none => failAt "Invalid \\uXXXX escape" rest
        | some (hi, tail) =>
          let pair := match tail with
            | '\\' :: 'u' :: low =>
              if Text.isHighHalf hi then
                match hexUnit? low with
                | some (lo, tail') =>
                  if Text.isLowHalf lo then some (Text.charOfPair hi lo, tail') else none
                | none => none
              else none
            | _ => none
          match pair with
          | some (c, tail') => stringBody start fuel (c :: acc) tail'
          | none => stringBody start fuel (Text.charOf hi :: acc) tail
      | d :: more =>
        match escapeOf? d with
        | some e => stringBody start fuel (e :: acc) more
        | none => failAt "Invalid \\escape" (c :: rest)
    else if c.toNat < 32 then failAt "Invalid control character at" (c :: rest)
    else stringBody start fuel (c :: acc) rest

/-- Reads a quoted text at its opening quote. -/
def quoted (t : Text) : Except ReadError (Text × Text) := stringBody t t.length [] (t.drop 1)

/-- The natural number that ASCII digits write. -/
def digitsValue (ds : Text) : Nat := ds.foldl (fun n c => 10 * n + (c.toNat - 48)) 0

/-- Reads a number; none if there is no number at the start of the text. -/
def number? (t : Text) : Option (Json × Text) :=
  let (negative, body) := match t with
    | '-' :: rest => (true, rest)
    | _ => (false, t)
  let whole := match body with
    | '0' :: _ => ['0']
    | _ => body.takeWhile Char.isDigit
  if whole.isEmpty then none else
  let rest := body.drop whole.length
  let fraction := match rest with
    | '.' :: more => more.takeWhile Char.isDigit
    | _ => []
  let rest := if fraction.isEmpty then rest else rest.drop (fraction.length + 1)
  let exponent : Option (Bool × Text × Text) := match rest with
    | e :: more =>
      if e == 'e' || e == 'E' then
        let (neg, digits) := match more with
          | '-' :: ds => (true, ds)
          | '+' :: ds => (false, ds)
          | _ => (false, more)
        let ds := digits.takeWhile Char.isDigit
        if ds.isEmpty then none else some (neg, ds, digits.drop ds.length)
      else none
    | [] => none
  match exponent with
  | some (neg, ds, tail) =>
    let e : Int := digitsValue ds
    some (.float (Number.scientific negative (digitsValue (whole ++ fraction)) fraction.length
      (if neg then -e else e)), tail)
  | none =>
    if fraction.isEmpty then
      let n : Int := digitsValue whole
      some (.int (if negative then -n else n), rest)
    else
      let digits := digitsValue (whole ++ fraction)
      some (.float (Number.scientific negative digits fraction.length 0), rest)

/-- Reads a value that has a name or is a number. -/
def scalar (t : Text) : Except ReadError (Json × Text) :=
  let names : List (String × Json) :=
    [("null", .null), ("true", .bool true), ("false", .bool false), ("NaN", .float (0.0 / 0.0)),
      ("Infinity", .float (1.0 / 0.0)), ("-Infinity", .float (-1.0 / 0.0))]
  match names.find? fun (n, _) => n.toList.isPrefixOf t with
  | some (n, v) => .ok (v, t.drop n.length)
  | none =>
    match number? t with
    | some (.int n, rest) =>
      let digits := (t.upTo (t.length - rest.length)).filter Char.isDigit
      if digits.length > Number.digitLimit then
        .error ⟨(Number.tooManyDigits digits.length).message, none⟩
      else .ok (.int n, rest)
    | some r => .ok r
    | none => failAt "Expecting value" t

mutual

/-- Reads a value at the start of a text. -/
def value : (fuel : Nat) → Text → Except ReadError (Json × Text)
  | 0, t => failAt "Expecting value" t
  | fuel + 1, t =>
    match t with
    | '\x22' :: _ => do
      let (s, rest) ← quoted t
      pure (.str s, rest)
    | '[' :: rest =>
      match skipBlanks rest with
      | ']' :: rest => .ok (.arr [], rest)
      | rest => items fuel [] rest
    | '\x7b' :: rest =>
      match skipBlanks rest with
      | '\x7d' :: rest => .ok (.obj [], rest)
      | rest => members fuel [] rest
    | _ => scalar t

/-- Reads the items of an array up to its end; `acc` holds those before, latest first. -/
def items : (fuel : Nat) → (acc : List Json) → Text →
    Except ReadError (Json × Text)
  | 0, _, t => failAt "Expecting value" t
  | fuel + 1, acc, t => do
    let (v, rest) ← value fuel t
    match skipBlanks rest with
    | ']' :: rest => .ok (.arr (v :: acc).reverse, rest)
    | ',' :: rest => items fuel (v :: acc) (skipBlanks rest)
    | rest => failAt "Expecting ',' delimiter" rest

/-- Reads the members of an object up to its end. -/
def members : (fuel : Nat) → (acc : List (Text × Json)) → Text →
    Except ReadError (Json × Text)
  | 0, _, t => failAt "Expecting property name enclosed in double quotes" t
  | fuel + 1, acc, t =>
    match t with
    | '\x22' :: _ => do
      let (name, rest) ← quoted t
      match skipBlanks rest with
      | ':' :: rest =>
        let (v, rest) ← value fuel (skipBlanks rest)
        let acc := put acc name v
        match skipBlanks rest with
        | '\x7d' :: rest => .ok (.obj acc, rest)
        | ',' :: rest => members fuel acc (skipBlanks rest)
        | rest => failAt "Expecting ',' delimiter" rest
      | rest => failAt "Expecting ':' delimiter" rest
    | _ => failAt "Expecting property name enclosed in double quotes" t

end

/-- Where a place is: its line, column and offset, counted from the start of the text. -/
def placeText (t : Text) (offset : Nat) : Text :=
  let before := t.take offset
  let line := before.count '\n' + 1
  let column := (before.reverse.takeWhile (· != '\n')).length + 1
  "line " ++ Text.ofNat line ++ " column " ++ Text.ofNat column ++ " (char " ++ Text.ofNat offset
    ++ ")"

/-- What a caller reads about a failure to read a text. -/
def ReadError.message (e : ReadError) (t : Text) : Text :=
  match e.remaining with
  | none => e.what
  | some n => e.what ++ ": " ++ placeText t (t.length - n)

/-- Reads a whole text as one value. -/
def read (t : Text) : Except ReadError Json := do
  if t.head? == some '\ufeff' then failAt "Unexpected UTF-8 BOM (decode using utf-8-sig)" t else
  let (v, rest) ← value (2 * t.length + 2) (skipBlanks t)
  let rest := skipBlanks rest
  if rest.isEmpty then pure v else failAt "Extra data" rest

end HostScript.Json
