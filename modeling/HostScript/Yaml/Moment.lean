import HostScript.Fault

/-!
# Dates and times

Days of the calendar, and moments: a day with the time on it and, if it is known, the distance from
universal time.
-/

namespace HostScript.Yaml

/-- A day. -/
structure Date where
  year : Nat
  month : Nat
  day : Nat
  deriving DecidableEq

/-- A moment of a day. -/
structure Moment where
  date : Date
  hour : Nat
  minute : Nat
  second : Nat
  microsecond : Nat
  /-- The minutes that the clock is ahead of universal time. -/
  offset : Option Int
  deriving DecidableEq

/-- Decimal digits of a number, padded with zeros to a width. -/
def padded (width n : Nat) : Text :=
  let digits := Text.ofNat n
  List.replicate (width - digits.length) '0' ++ digits

/-! ## Spans of time -/

/-- A span of minutes as whole days, which may be negative, and the seconds of the day that is
left. -/
def spanParts (minutes : Int) : Int × Int :=
  (Int.fdiv minutes 1440, Int.fmod minutes 1440 * 60)

/-- A span of minutes as messages show it. -/
def spanDisplay (minutes : Int) : Text :=
  let (days, seconds) := spanParts minutes
  let part (name : Text) (n : Int) : List Text :=
    if n == 0 then [] else [name ++ '=' :: Text.ofInt n]
  let parts := part "days" days ++ part "seconds" seconds
  "datetime.timedelta(" ++ (if parts.isEmpty then ['0'] else Text.join ", " parts) ++ ")"

/-! ## Days -/

namespace Date

/-- Whether a year has a day more. -/
def isLeap (year : Nat) : Bool := year % 4 == 0 && (year % 100 != 0 || year % 400 == 0)

/-- The number of days of a month. -/
def daysIn (year month : Nat) : Nat :=
  if month == 2 then (if isLeap year then 29 else 28)
  else if [4, 6, 9, 11].contains month then 30
  else 31

/-- Makes sure that a day is one of the calendar. -/
def check (d : Date) : Outcome Unit :=
  if d.year == 0 then .error (.badValue "year 0 is out of range")
  else if d.month == 0 || d.month > 12 then .error (.badValue "month must be in 1..12")
  else if d.day == 0 || d.day > daysIn d.year d.month then
    .error (.badValue "day is out of range for month")
  else .ok ()

/-- A day as text. -/
def text (d : Date) : Text :=
  Text.join "-" [padded 4 d.year, padded 2 d.month, padded 2 d.day]

/-- The numbers of a day. -/
def numbers (d : Date) : List Nat := [d.year, d.month, d.day]

/-- A day as messages show it. -/
def display (d : Date) : Text :=
  "datetime.date(" ++ Text.join ", " (d.numbers.map Text.ofNat) ++ ")"

end Date

/-! ## Moments -/

namespace Moment

/-- Makes sure that a moment is one of the calendar and the clock. -/
def check (m : Moment) : Outcome Unit := do
  match m.offset with
  | some minutes =>
    if minutes.natAbs ≥ 1440 then
      .error (.badValue ("offset must be a timedelta strictly between -timedelta(hours=24) and "
        ++ "timedelta(hours=24), not " ++ spanDisplay minutes ++ "."))
  | none => pure ()
  m.date.check
  if m.hour > 23 then .error (.badValue "hour must be in 0..23")
  else if m.minute > 59 then .error (.badValue "minute must be in 0..59")
  else if m.second > 59 then .error (.badValue "second must be in 0..59")
  else pure ()

/-- The distance from universal time as text. -/
def offsetText (minutes : Int) : Text :=
  let n := minutes.natAbs
  (if minutes < 0 then '-' else '+') :: padded 2 (n / 60) ++ ':' :: padded 2 (n % 60)

/-- A moment as text. -/
def text (m : Moment) : Text :=
  let clock := Text.join ":" [padded 2 m.hour, padded 2 m.minute, padded 2 m.second]
  let fraction : Text := if m.microsecond == 0 then [] else '.' :: padded 6 m.microsecond
  m.date.text ++ ' ' :: clock ++ fraction ++ ((m.offset.map offsetText).getD [])

/-- The distance from universal time as messages show it. -/
def offsetDisplay (minutes : Int) : Text :=
  if minutes == 0 then "datetime.timezone.utc"
  else "datetime.timezone(" ++ spanDisplay minutes ++ ")"

/-- A moment as messages show it; seconds without a value are left out. -/
def display (m : Moment) : Text :=
  let small := if m.microsecond != 0 then [m.second, m.microsecond]
    else if m.second != 0 then [m.second]
    else []
  let numbers := (m.date.numbers ++ [m.hour, m.minute] ++ small).map Text.ofNat
  let zone := match m.offset with
    | some minutes => ["tzinfo=" ++ offsetDisplay minutes]
    | none => []
  "datetime.datetime(" ++ Text.join ", " (numbers ++ zone) ++ ")"

end Moment

/-! ## Reading -/

/-- A number of `least` to `most` digits at the start of a text, and what follows. -/
def digitsAt? (least most : Nat) (t : Text) : Option (Nat × Text) :=
  let digits := (t.take most).takeWhile Char.isDigit
  if digits.length < least then none else some (basedValue 10 digits, t.drop digits.length)

/-- What follows a character that has to come first. -/
def after? (c : Char) : Text → Option Text
  | d :: rest => if c == d then some rest else none
  | [] => none

/-- A day at the start of a text, and what follows; month and day may have one digit. -/
def dateAt? (t : Text) : Option (Date × Text) := do
  let (year, t) ← digitsAt? 4 4 t
  let (month, t) ← digitsAt? 1 2 (← after? '-' t)
  let (day, t) ← digitsAt? 1 2 (← after? '-' t)
  some (⟨year, month, day⟩, t)

/-- The distance from universal time that a whole text writes; none if it is left out. -/
def offset? (t : Text) : Option (Option Int) :=
  match t.dropWhile (among " \t") with
  | [] => if t.isEmpty then some none else none
  | ['Z'] => some (some 0)
  | sign :: rest => do
    if sign != '+' && sign != '-' then none else
    let (hours, rest) ← digitsAt? 1 2 rest
    let minutes ← match rest with
      | [] => some 0
      | ':' :: rest => do
        let (n, rest) ← digitsAt? 2 2 rest
        if rest.isEmpty then some n else none
      | _ => none
    let distance : Int := hours * 60 + minutes
    some (some (if sign == '-' then -distance else distance))

/-- The microseconds of the digits behind a point. -/
def microseconds (digits : Text) : Nat :=
  let shown := digits.take 6
  basedValue 10 (shown ++ List.replicate (6 - shown.length) '0')

/-- The time of a day that a whole text writes, behind the day. -/
def timeOn? (d : Date) (t : Text) : Option Moment := do
  let t ← match t with
    | 'T' :: rest | 't' :: rest => some rest
    | _ =>
      let rest := t.dropWhile (among " \t")
      if rest.length < t.length then some rest else none
  let (hour, t) ← digitsAt? 1 2 t
  let (minute, t) ← digitsAt? 2 2 (← after? ':' t)
  let (second, t) ← digitsAt? 2 2 (← after? ':' t)
  let (fraction, t) := match t with
    | '.' :: rest => (rest.takeWhile Char.isDigit, rest.dropWhile Char.isDigit)
    | _ => ([], t)
  some ⟨d, hour, minute, second, microseconds fraction, ← offset? t⟩

end HostScript.Yaml
