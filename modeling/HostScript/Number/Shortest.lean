import HostScript.Number.Binary
import HostScript.Text.Basic

/-!
# Shortest decimal text of a number

The text of a number has the fewest digits that read back as that number, and of those texts the
nearest one. A decimal reads back when it lies in the interval of values that round to the number,
so for 1, 2, … 17 digits the two neighbours of the value on that decimal grid are tested with
exact arithmetic.
-/

namespace HostScript.Number

/-- A decimal `digits * 10 ^ scale`. -/
structure Decimal where
  digits : Nat
  scale : Int

/-- The interval of values that round to a positive number, in units of a quarter of its last
place, with the value itself in the middle. -/
structure Rounding where
  low : Nat
  value : Nat
  high : Nat
  /-- Whether the ends round to the number as well. -/
  closed : Bool
  /-- A unit is `2 ^ unit`. -/
  unit : Int

/-- The rounding interval of a positive number. Just above a power of two the lower neighbour is
only half as far away. -/
def Binary.rounding (b : Binary) : Rounding :=
  let m := b.significand
  let narrow := m == Nat.pow 2 52 && b.exponent > leastExponent
  ⟨if narrow then 4 * m - 1 else 4 * m - 2, 4 * m, 4 * m + 2, m % 2 == 0, b.exponent - 2⟩

/-- `n * 2 ^ unit` and `10 ^ scale` over a common denominator. -/
def commonScale (unit scale : Int) (n : Nat) : Nat × Nat :=
  let (a, b) := if unit ≥ 0 then (n * Nat.pow 2 unit.toNat, 1) else (n, Nat.pow 2 (-unit).toNat)
  if scale ≥ 0 then (a, b * Nat.pow 10 scale.toNat) else (a * Nat.pow 10 (-scale).toNat, b)

/-- Whether `digits * 10 ^ scale` lies in the interval. -/
def Rounding.holds (r : Rounding) (digits : Nat) (scale : Int) : Bool :=
  let (low, step) := commonScale r.unit scale r.low
  let (high, _) := commonScale r.unit scale r.high
  let x := digits * step
  if r.closed then low ≤ x && x ≤ high else low < x && x < high

/-- The decimal with grid width `10 ^ scale` that reads back and is nearest to the value. -/
def Rounding.onGrid? (r : Rounding) (scale : Int) : Option Decimal :=
  let (v, step) := commonScale r.unit scale r.value
  let below := v / step
  let above := below + 1
  match r.holds below scale && below > 0, r.holds above scale with
  | true, true =>
    let gapBelow := v - below * step
    let gapAbove := above * step - v
    let pickBelow := gapBelow < gapAbove || (gapBelow == gapAbove && below % 2 == 0)
    some ⟨if pickBelow then below else above, scale⟩
  | true, false => some ⟨below, scale⟩
  | false, true => some ⟨above, scale⟩
  | false, false => none

/-- The number of digits before the decimal point of a quotient, negative for small ones. -/
def magnitude (num den : Nat) : Int :=
  if num ≥ den then ((Text.ofNat (num / den)).length : Int)
  else 1 - ((Text.ofNat (den / num)).length : Int)

/-- The first grid, from `digits` digits on, with a decimal that reads back. -/
def Rounding.firstGrid (r : Rounding) (top : Int) : (more : Nat) → (digits : Nat) → Decimal
  | 0, _ => ⟨0, 0⟩
  | more + 1, digits =>
    match r.onGrid? (top - digits) with
    | some d => d
    | none => r.firstGrid top more (digits + 1)

/-- The decimal without trailing zeros. -/
def Decimal.dropZeros : (fuel : Nat) → Decimal → Decimal
  | 0, d => d
  | fuel + 1, d =>
    if d.digits != 0 && d.digits % 10 == 0 then dropZeros fuel ⟨d.digits / 10, d.scale + 1⟩ else d

/-- The shortest decimal that reads back as a positive number. -/
def Binary.shortest (b : Binary) : Decimal :=
  let (num, den) := b.ratio
  ((b.rounding.firstGrid (magnitude num den) 19 1)).dropZeros 20

/-- How a number is written: from which power of ten on, and below which, an exponent is used. -/
structure NumberStyle where
  /-- A decimal point further right than this many digits is written with an exponent. -/
  widest : Int
  /-- A decimal point further left than this is written with an exponent. -/
  narrowest : Int
  /-- Whether a whole number ends in a point and a zero. -/
  pointZero : Bool

/-- Numbers up to sixteen digits are positional, small ones down to `0.0001`, and a whole number
shows that it is no integer. -/
def plainStyle : NumberStyle := ⟨16, -3, true⟩

/-- The text of a decimal. -/
def Decimal.write (style : NumberStyle) (d : Decimal) : Text :=
  let ds := Text.ofNat d.digits
  let point : Int := ds.length + d.scale
  if point > style.widest || point < style.narrowest then
    let e := point - 1
    let mantissa := match ds with
      | [c] => [c]
      | c :: rest => c :: '.' :: rest
      | [] => []
    let eText := Text.ofNat e.natAbs
    mantissa ++ ['e', if e < 0 then '-' else '+']
      ++ (if eText.length < 2 then '0' :: eText else eText)
  else if d.scale ≥ 0 then
    ds ++ List.replicate d.scale.toNat '0' ++ (if style.pointZero then ".0".toList else [])
  else if point > 0 then ds.take point.toNat ++ '.' :: ds.drop point.toNat
  else "0.".toList ++ List.replicate (-point).toNat '0' ++ ds

/-- The text of a finite number. -/
def Binary.text (b : Binary) : Text :=
  let body : Text :=
    if b.significand == 0 then "0.0" else b.shortest.write plainStyle
  if b.negative then '-' :: body else body

/-- The text of a number. -/
def floatText (x : Float) : Text :=
  match Binary.ofFloat? x with
  | none => if x.isNaN then "nan" else if x < 0 then "-inf" else "inf"
  | some b => b.text

/-- The text of a number with a fixed count of decimal places, halves to even. -/
def fixedText (places : Nat) (x : Float) : Text :=
  match Binary.ofFloat? x with
  | none => floatText x
  | some b =>
    let ds := Text.ofNat (b.scaled places)
    let ds := List.replicate (places + 1 - ds.length) '0' ++ ds
    let whole := ds.take (ds.length - places)
    let body := if places == 0 then whole else whole ++ '.' :: ds.drop (ds.length - places)
    if b.negative then '-' :: body else body

/-!
## Numbers to a few significant digits

A number rounded to a count of significant digits, written without idle zeros.
-/

/-- A quotient in units of a power of ten, rounded; a half goes to the even neighbour. -/
def roundAt (num den : Nat) (scale : Int) : Nat :=
  if scale ≥ 0 then divRound num (den * Nat.pow 10 scale.toNat)
  else divRound (num * Nat.pow 10 (-scale).toNat) den

/-- A positive number rounded to a count of significant digits. -/
def Binary.significant (b : Binary) (count : Nat) : Decimal :=
  let (num, den) := b.ratio
  let scale : Int := magnitude num den - count
  let digits := roundAt num den scale
  -- The magnitude is exact or one too small, and rounding may carry into a new digit.
  let scale :=
    if digits ≥ Nat.pow 10 count then scale + 1
    else if digits < Nat.pow 10 (count - 1) then scale - 1
    else scale
  ⟨roundAt num den scale, scale⟩

/-- Numbers up to six digits are positional, small ones down to `0.0001`. -/
def shortStyle : NumberStyle := ⟨6, -3, false⟩

/-- The text of a number to six significant digits. -/
def significantText (x : Float) : Text :=
  match Binary.ofFloat? x with
  | none => floatText x
  | some b =>
    let body : Text :=
      if b.significand == 0 then "0" else ((b.significant 6).dropZeros 6).write shortStyle
    if b.negative then '-' :: body else body

end HostScript.Number
