/-!
# Binary floating point numbers as exact values

A finite number is a sign, a significand and a power of two. Everything that has to be exact about
a number, its digits and its rounding, is computed on these natural numbers.
-/

namespace HostScript.Number

/-- A finite number: its sign and the value `significand * 2 ^ exponent`. -/
structure Binary where
  negative : Bool
  significand : Nat
  exponent : Int

/-- The least exponent of a finite number. -/
def leastExponent : Int := -1074

/-- The parts of a number, none for infinities and undefined values. -/
def Binary.ofFloat? (x : Float) : Option Binary :=
  let bits : Nat := x.toBits.toNat
  let fraction : Nat := bits % Nat.pow 2 52
  let power : Nat := bits / Nat.pow 2 52 % Nat.pow 2 11
  let negative := bits / Nat.pow 2 63 == 1
  if power == 2047 then none
  else if power == 0 then some ⟨negative, fraction, leastExponent⟩
  else some ⟨negative, fraction + Nat.pow 2 52, (power : Int) - 1075⟩

/-- The magnitude as a quotient of natural numbers. -/
def Binary.ratio (b : Binary) : Nat × Nat :=
  if b.exponent ≥ 0 then (b.significand * Nat.pow 2 b.exponent.toNat, 1)
  else (b.significand, Nat.pow 2 (-b.exponent).toNat)

/-- The number nearest to `digits / 10 ^ places`. -/
def ofDecimal (negative : Bool) (digits places : Nat) : Float :=
  let x := Float.ofScientific digits true places
  if negative then -x else x

/-- The nearest integer to a quotient; a half goes to the even neighbour. -/
def divRound (num den : Nat) : Nat :=
  let q := num / den
  let r := num % den
  if 2 * r < den then q else if 2 * r > den then q + 1 else if q % 2 == 0 then q else q + 1

/-- The magnitude in units of `10 ^ -places`, rounded; a half goes to the even neighbour. -/
def Binary.scaled (b : Binary) (places : Nat) : Nat :=
  let (num, den) := b.ratio
  divRound (num * Nat.pow 10 places) den

/-- The number rounded to a count of decimal places, halves of the exact value to even. -/
def roundTo (places : Nat) (x : Float) : Float :=
  match Binary.ofFloat? x with
  | none => x
  | some b => ofDecimal b.negative (b.scaled places) places

/-- The number nearest to a natural number. -/
def ofNat (n : Nat) : Float := Float.ofScientific n false 0

/-- The number nearest to an integer. -/
def ofInt : Int → Float
  | .ofNat n => ofNat n
  | .negSucc n => -(ofNat (n + 1))

/-- The integer part of a finite number, toward zero. -/
def truncate? (x : Float) : Option Int :=
  (Binary.ofFloat? x).map fun b =>
    let (num, den) := b.ratio
    if b.negative then -((num / den : Nat) : Int) else ((num / den : Nat) : Int)

/-- Whether a number is finite and has no fraction. -/
def isIntegral (x : Float) : Bool :=
  match Binary.ofFloat? x with
  | none => false
  | some b => let (num, den) := b.ratio; num % den == 0

/-!
## Arithmetic of double precision

The result of an operation is the exact one, rounded once to the nearest number; a half goes to the
even neighbour. What is too large becomes infinite.
-/

/-- A number of double precision. -/
inductive Double where
  | finite (b : Binary)
  | infinite (negative : Bool)
  /-- The result of an operation that has none. -/
  | undefined

/-- The greatest exponent of a finite number. -/
def greatestExponent : Int := 971

/-- The greatest power of two that is not above a quotient of positive numbers. -/
def powerBelow (num den : Nat) : Int :=
  if num ≥ den then Nat.log2 (num / den)
  else
    let k := Nat.log2 (den / num)
    if num * Nat.pow 2 k == den then -(k : Int) else -(k : Int) - 1

/-- A quotient in units of a power of two, rounded; a half goes to the even neighbour. -/
def roundUnits (num den : Nat) (exponent : Int) : Nat :=
  if exponent ≥ 0 then divRound num (den * Nat.pow 2 exponent.toNat)
  else divRound (num * Nat.pow 2 (-exponent).toNat) den

/-- A finite number, unless its exponent is too great. -/
def Double.ofParts (negative : Bool) (significand : Nat) (exponent : Int) : Double :=
  if exponent > greatestExponent then .infinite negative
  else .finite ⟨negative, significand, exponent⟩

/-- The number nearest to a quotient with a sign. -/
def Double.round (negative : Bool) (num den : Nat) : Double :=
  if num == 0 then .finite ⟨negative, 0, leastExponent⟩
  else
    let exponent := max (powerBelow num den - 52) leastExponent
    let significand := roundUnits num den exponent
    -- Rounding may carry into a new digit.
    if significand == Nat.pow 2 53 then .ofParts negative (Nat.pow 2 52) (exponent + 1)
    else .ofParts negative significand exponent

namespace Double

/-- Whether a number is finite. -/
def isFinite : Double → Bool
  | .finite _ => true
  | _ => false

/-- Whether a number is zero. -/
def isZero : Double → Bool
  | .finite b => b.significand == 0
  | _ => false

/-- The number with the other sign. -/
def neg : Double → Double
  | .finite b => .finite { b with negative := !b.negative }
  | .infinite negative => .infinite !negative
  | .undefined => .undefined

/-- The sum of finite numbers; zeros of different signs add up to the positive one. -/
def addFinite (a b : Binary) : Double :=
  let (m, d) := a.ratio
  let (n, e) := b.ratio
  let signed (negative : Bool) (k : Nat) : Int := if negative then -(k : Int) else k
  let total := signed a.negative (m * e) + signed b.negative (n * d)
  round (if total == 0 then a.negative && b.negative else total < 0) total.natAbs (d * e)

/-- The sum of two numbers. -/
def add : Double → Double → Double
  | .finite a, .finite b => addFinite a b
  | .finite _, .infinite t => .infinite t
  | .infinite s, .finite _ => .infinite s
  | .infinite s, .infinite t => if s == t then .infinite s else .undefined
  | _, _ => .undefined

/-- The difference of two numbers. -/
def sub (x y : Double) : Double := x.add y.neg

/-- The product of two numbers. -/
def mul : Double → Double → Double
  | .finite a, .finite b =>
    let (m, d) := a.ratio
    let (n, e) := b.ratio
    round (a.negative != b.negative) (m * n) (d * e)
  | .finite a, .infinite t =>
    if a.significand == 0 then .undefined else .infinite (a.negative != t)
  | .infinite s, .finite b =>
    if b.significand == 0 then .undefined else .infinite (s != b.negative)
  | .infinite s, .infinite t => .infinite (s != t)
  | _, _ => .undefined

/-- The quotient by a number that is not zero. -/
def div : Double → Double → Double
  | .finite a, .finite b =>
    let (m, d) := a.ratio
    let (n, e) := b.ratio
    round (a.negative != b.negative) (m * e) (d * n)
  | .finite a, .infinite t => round (a.negative != t) 0 1
  | .infinite s, .finite b => .infinite (s != b.negative)
  | _, _ => .undefined

end Double

/-- The remainder of finite numbers, with the sign of the first. It is a multiple of the smaller
unit of the two numbers and smaller than the divisor, so it is exact. -/
def Binary.rem (a b : Binary) : Binary :=
  let unit := min a.exponent b.exponent
  let scaled (c : Binary) : Nat := c.significand * Nat.pow 2 (c.exponent - unit).toNat
  ⟨a.negative, scaled a % scaled b, unit⟩

/-- The remainder by a divisor that is not zero, where the quotient is rounded toward zero; an
infinite divisor leaves the number, and an infinite number has no remainder. -/
def Double.remainder? : Double → Double → Option Double
  | .finite a, .finite b =>
    let r := a.rem b
    some (.round r.negative r.ratio.1 r.ratio.2)
  | .finite a, .infinite _ => some (.finite a)
  | .infinite _, .undefined => some .undefined
  | .infinite _, _ => none
  | _, _ => some .undefined

end HostScript.Number
