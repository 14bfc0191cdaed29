import HostScript.Number.Binary
import HostScript.Number.Reading
import HostScript.Number.Shortest
import HostScript.Pattern.Match
import HostScript.Script.Masked

/-!
# Constant folding

Arithmetic on number literals is computed in advance. A run of literals is folded as a whole only
if nothing next to it binds tighter; otherwise only its complete products are. Parentheses around
a single number go where they only group. Both steps repeat until nothing changes.
-/

namespace HostScript.Optimize

open Pattern Script

/-- A number literal. -/
def numberLiteral : Pattern :=
  ((lit "0" <|> oneOf (between '1' '9') ++ digit.star) ++ ("." ++ digit.star).opt
      <|> "." ++ digit.plus)
    ++ (oneOf (among "eE") ++ (oneOf (among "+-")).opt ++ digit.plus).opt

/-- An operator of arithmetic. -/
def operator : Pattern := oneOf (among "-+*/%")

/-- A run of number literals joined by operators. -/
def literalRun : Pattern :=
  fresh ++ numberLiteral ++ (blanks ++ operator ++ blanks ++ numberLiteral).plus
    ++ notAhead (oneOf (isWord ||| among "$."))

/-- A number literal of a run with the operator before it. -/
def runToken : Pattern := blanks ++ (cap 1 operator).opt ++ blanks ++ cap 2 numberLiteral

/-- A number literal in parentheses of its own. -/
def wrappedNumber : Pattern := "(" ++ blanks ++ cap 1 numberLiteral ++ blanks ++ ")"

/-- The value of a number literal. -/
def literalValue (t : Text) : Number.Double :=
  let whole := t.takeWhile isDigit
  let rest := t.drop whole.length
  let fraction := match rest with
    | '.' :: more => more.takeWhile isDigit
    | _ => []
  let rest := match rest with
    | '.' :: more => more.drop fraction.length
    | _ => rest
  let exponent : Int := match rest with
    | _ :: '-' :: ds => -(Number.ofDigits ds : Int)
    | _ :: '+' :: ds => Number.ofDigits ds
    | _ :: ds => Number.ofDigits ds
    | [] => 0
  let digits := Number.ofDigits (whole ++ fraction)
  let scale : Int := exponent - fraction.length
  let size : Int := scale + (Text.ofNat digits).length
  -- Far outside the range of finite numbers the exponent itself decides.
  if digits == 0 || size < -400 then .round false 0 1
  else if size > 400 then .infinite false
  else if scale < 0 then .round false digits (Nat.pow 10 scale.natAbs)
  else .round false (digits * Nat.pow 10 scale.natAbs) 1

/-- A literal in a run: the operator before it, its text, and where it starts and stops. -/
structure RunToken where
  operator : Option Char
  number : Text
  start : Nat
  stop : Nat

/-- The tokens of a run. -/
def runTokens (run : Text) : List RunToken :=
  (runToken.allIn run).map fun m =>
    ⟨(m.group? 1).bind (·.head?), m.group 2, m.groupStart 2, m.groupStart 2 + (m.group 2).length⟩

/-- A product in a run: its first literal and the factors after it. -/
structure Product where
  first : RunToken
  factors : List RunToken

/-- Whether a token goes on with the product before it. -/
def RunToken.isFactor (t : RunToken) : Bool :=
  t.operator == some '*' || t.operator == some '/' || t.operator == some '%'

/-- The factors at the start of a list of tokens, and the products after them. -/
def splitFactors : List RunToken → List RunToken × List Product
  | [] => ([], [])
  | token :: rest =>
    let (factors, more) := splitFactors rest
    if token.isFactor then (token :: factors, more) else ([], ⟨token, factors⟩ :: more)

/-- The products of a run; a token after a sign, or without an operator, starts a new one. -/
def products : List RunToken → List Product
  | [] => []
  | token :: rest =>
    let (factors, more) := splitFactors rest
    ⟨token, factors⟩ :: more

/-- The value after one more factor, none after a division by zero. -/
def applyFactor (value : Option Number.Double) (token : RunToken) :
    Outcome (Option Number.Double) :=
  match value with
  | none => .ok none
  | some v =>
    let operand := literalValue token.number
    if token.operator == some '*' then .ok (some (v.mul operand))
    else if operand.isZero then .ok none
    else if token.operator == some '/' then .ok (some (v.div operand))
    else match v.remainder? operand with
      | some r => .ok (some r)
      | none => .error (.badValue "math domain error")

/-- The value of a product, none if it is not finite. -/
def Product.value? (p : Product) : Outcome (Option Number.Double) := do
  let v ← p.factors.foldlM applyFactor (some (literalValue p.first.number))
  pure (v.filter (·.isFinite))

/-- The sum of products, none if one of them has no value. -/
def runTotal : (total : Option Number.Double) → List Product → Outcome (Option Number.Double)
  | total, [] => .ok total
  | total, p :: rest => do
    match ← p.value? with
    | none => pure none
    | some v =>
      let next := match total with
        | none => v
        | some t => if p.first.operator == some '-' then t.sub v else t.add v
      runTotal (some next) rest

/-- The text of a computed number, none if it would need an exponent. -/
def foldedText? : Number.Double → Option Text
  | .finite b =>
    let (num, den) := b.ratio
    if num % den == 0 && num / den < Nat.pow 10 21 then
      let whole : Int := (num / den : Nat)
      some (Text.ofInt (if b.negative then -whole else whole))
    else
      let t := b.text
      if t.contains 'e' then none else some t
  | _ => none

/-- What stands next to a run: whether it stands alone on each side, and whether its first and last
product do. -/
structure RunContext where
  leftFree : Bool
  rightFree : Bool
  firstFree : Bool
  lastFree : Bool

/-- A run with each complete product in place of its factors, from the last to the first. -/
def foldProducts (ctx : RunContext) (count : Nat) : (index : Nat) → List Product → Text →
    Outcome Text
  | _, [], run => .ok run
  | index, p :: rest, run => do
    let run ← foldProducts ctx count (index + 1) rest run
    if p.factors.isEmpty || (index == 0 && !ctx.firstFree)
        || (index + 1 == count && !ctx.lastFree) then pure run
    else match (← p.value?).bind foldedText? with
      | none => pure run
      | some new =>
        let stop := (p.factors.getLast?.map (·.stop)).getD p.first.stop
        pure (run.take p.first.start ++ new ++ run.drop stop)

/-- A run folded as far as its neighbours allow. -/
def foldRun (ctx : RunContext) (run : Text) : Outcome Text := do
  let ps := products (runTokens run)
  let total ← (if ctx.leftFree && ctx.rightFree then runTotal none ps else pure none)
  match total.bind foldedText? with
  | some new => pure new
  | none => foldProducts ctx ps.length 0 ps run

/-- Characters before a run after which it stands alone. -/
def isLeftFree : CharSet := among "([,=?:;\x7b\x7d<>&|^"

/-- Characters after a run before which it stands alone. -/
def isRightFree : CharSet := among ")],;:?\x7d<>=&|^!"

private def leftKeyword : Pattern :=
  (textStart <|> noneOf (isWord ||| among "$.")) ++ choice ["return", "case", "throw"] ++ blanks
    ++ textEnd

/-- What stands next to a run in a text. -/
def runContext (t : Text) (m : Match) : RunContext :=
  let prev := charBefore? t m.start
  let next := charAfter? t m.stop
  ⟨prev.all isLeftFree || leftKeyword.occursIn (t.slice (m.start - 16) m.start),
    next.all isRightFree, !prev.any (among "*/%"), next != some '*'⟩

/-- Folds every run once. -/
def foldOnce (t : Text) : Outcome Text :=
  literalRun.replaceM (fun m => foldRun (runContext t m) m.text) t

/-- Characters before a parenthesis that then only groups. -/
def isGroupPreceder : CharSet := among "-+*/%=(,[:?<>&|^!~"

/-- Removes parentheses around single numbers where they only group. -/
def unwrapNumbers (t : Text) : Text :=
  wrappedNumber.replace (fun m =>
    let groups := (charBefore? t m.start).any isGroupPreceder
    let after := Text.trimStart (m.after.take 64)
    if !groups || after.startsWith "**" || after.head?.any (among ".[(") then m.text
    else m.group 1) t

/-- Folds and unwraps until nothing changes. Every change leaves fewer numbers or parentheses, so
the length of the text bounds the rounds. -/
def foldAll : (fuel : Nat) → Text → Outcome Text
  | 0, t => .ok t
  | fuel + 1, t => do
    let folded ← foldOnce t
    let new := unwrapNumbers folded
    if new == t then pure t else foldAll fuel new

/-- Arithmetic on literals, computed in advance. -/
def constantFolding (code : Text) : Outcome Text := do
  let m := mask .all code
  let text ← foldAll (m.text.length + 1) m.text
  m.restoreText text

end HostScript.Optimize
