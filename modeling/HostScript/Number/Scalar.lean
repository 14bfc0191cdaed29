import HostScript.Number.Shortest

/-!
# Whole and fractional numbers together

Settings and clocks give whole numbers and fractions alike. Whole numbers are exact, and a
comparison of the two kinds is exact as well.
-/

namespace HostScript

/-- A whole number or a fraction. -/
inductive Scalar where
  | int (n : Int)
  | float (x : Float)

namespace Scalar

/-- The nearest fraction. -/
def toFloat : Scalar → Float
  | .int n => Number.ofInt n
  | .float x => x

/-- Whether a number is zero. -/
def isZero : Scalar → Bool
  | .int n => n == 0
  | .float x => x == 0

/-- The difference, exact for whole numbers. -/
def sub : Scalar → Scalar → Scalar
  | .int a, .int b => .int (a - b)
  | a, b => .float (a.toFloat - b.toFloat)

/-- Whether a whole number is less than the value of a finite binary number. -/
def intLtBinary (n : Int) (b : Number.Binary) : Bool :=
  let (num, den) := b.ratio
  n * den < (if b.negative then -(num : Int) else num)

/-- Whether the value of a finite binary number is less than a whole number. -/
def binaryLtInt (b : Number.Binary) (n : Int) : Bool :=
  let (num, den) := b.ratio
  (if b.negative then -(num : Int) else num) < n * den

/-- Whether one number is less than another. -/
def lt : Scalar → Scalar → Bool
  | .int a, .int b => a < b
  | .float x, .float y => x < y
  | .int a, .float y =>
    match Number.Binary.ofFloat? y with
    | some b => intLtBinary a b
    | none => y > 0
  | .float x, .int b =>
    match Number.Binary.ofFloat? x with
    | some a => binaryLtInt a b
    | none => x < 0

/-- The smaller of two numbers, the first if neither is smaller. -/
def min (a b : Scalar) : Scalar := if b.lt a then b else a

/-- The text of a number. -/
def text : Scalar → Text
  | .int n => Text.ofInt n
  | .float x => Number.floatText x

end Scalar

end HostScript
