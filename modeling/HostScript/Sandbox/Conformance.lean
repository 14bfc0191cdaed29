import HostScript.Pattern.Match
import HostScript.Sandbox

/-!
# Conformance of code with a reference

Code is run over a list of inputs and compared with a reference that is run over the same ones.
Fractions may differ within a relative tolerance. Inputs where the two differ are reported.
-/

namespace HostScript.Sandbox

open Pattern

/-- Whether two numbers are equal, exactly. -/
def sameNumber : Scalar → Scalar → Bool
  | .int a, .int b => a == b
  | .float x, .float y => x == y
  | a, b => !(a.lt b) && !(b.lt a) && !a.toFloat.isNaN && !b.toFloat.isNaN

/-- Whether two fractions are close: their distance is within the tolerance of either. -/
def close (tolerance x y : Float) : Bool :=
  if x == y then true
  else if x.isInf || y.isInf then false
  else
    let distance := (y - x).abs
    distance ≤ (tolerance * y).abs || distance ≤ (tolerance * x).abs || distance ≤ 0

/-- Whether two numbers match. -/
def numbersMatch (tolerance : Float) (a b : Scalar) : Outcome Bool := do
  let x ← (Json.ofScalar a).asFloat
  let y ← (Json.ofScalar b).asFloat
  if tolerance < 0 then .error (.badValue "tolerances must be non-negative")
  else pure (close tolerance x y || sameNumber a b)

mutual

/-- Whether a value matches an expected one. -/
def valuesMatch (tolerance : Float) : (expected actual : Json) → Outcome Bool
  | .bool a, .bool b => .ok (a == b)
  | .bool _, _ => .ok false
  | _, .bool _ => .ok false
  | .int a, .int b => numbersMatch tolerance (.int a) (.int b)
  | .int a, .float b => numbersMatch tolerance (.int a) (.float b)
  | .float a, .int b => numbersMatch tolerance (.float a) (.int b)
  | .float a, .float b => numbersMatch tolerance (.float a) (.float b)
  | .arr as, .arr bs => if as.length == bs.length then itemsMatch tolerance as bs else .ok false
  | .obj as, .obj bs =>
    if as.length == bs.length && as.all (fun m => (bs.lookup m.1).isSome) then
      membersMatch tolerance bs as
    else .ok false
  | .str a, .str b => .ok (a == b)
  | .null, .null => .ok true
  | _, _ => .ok false

/-- Whether items match one by one. -/
def itemsMatch (tolerance : Float) : (expected actual : List Json) → Outcome Bool
  | a :: as, b :: bs => do
    if ← valuesMatch tolerance a b then itemsMatch tolerance as bs else pure false
  | _, _ => .ok true

/-- Whether the members of an object match those with the same names. -/
def membersMatch (tolerance : Float) (actual : List (Text × Json)) :
    (expected : List (Text × Json)) → Outcome Bool
  | [] => .ok true
  | (name, a) :: rest =>
    match actual.lookup name with
    | none => .ok false
    | some b => do
      if ← valuesMatch tolerance a b then membersMatch tolerance actual rest else pure false

end

/-- A name, or names with dots between them, up to the end or a line feed that ends the text. -/
def entryName : Pattern := textStart ++ ident ++ ("." ++ ident).star ++ textEnd

/-- The code with a call of an entry behind it. A name is called with the inputs as arguments;
anything else is an expression over the inputs. -/
def probe (code entry : Text) : Text :=
  if entryName.fits entry then code ++ "\nreturn " ++ entry ++ ".apply(null, input);"
  else code ++ "\nreturn (" ++ entry ++ ");"

/-- An input where code and reference differ. -/
structure Divergence where
  input : List Json
  expected : Json := .null
  actual : Json := .null
  error : Text := []

/-- A divergence as a value. -/
def Divergence.toJson (d : Divergence) : Json :=
  .ofPairs [("input", .arr d.input), ("expected", d.expected), ("actual", d.actual),
    ("error", .str d.error)]

/-- What a comparison found. -/
structure Conformance where
  entry : Text
  total : Nat := 0
  matched : Nat := 0
  divergences : List Divergence := []

namespace Conformance

/-- A short account for people. -/
def summary (c : Conformance) : Text :=
  c.entry ++ ": " ++ Text.ofNat c.matched ++ "/" ++ Text.ofNat c.total ++ " inputs agree"

/-- A comparison as a value. -/
def members (c : Conformance) : List (String × Json) :=
  [("entry", .str c.entry), ("total", .int c.total), ("matches", .int c.matched),
    ("consistent", .bool c.divergences.isEmpty),
    ("divergences", .arr (c.divergences.map Divergence.toJson))]

/-- The comparison with one more input that matched. -/
def addMatch (c : Conformance) : Conformance :=
  { c with total := c.total + 1, matched := c.matched + 1 }

/-- The comparison with one more input that did not match. -/
def addDivergence (c : Conformance) (d : Divergence) : Conformance :=
  { c with total := c.total + 1, divergences := c.divergences ++ [d] }

/-- The comparison with the result of one more input. -/
def judge (c : Conformance) (tolerance : Float) (input : List Json) (expected : Json)
    (e : Execution) : Outcome Conformance :=
  match e.outcome with
  | .error f => .ok (c.addDivergence ⟨input, expected, .null, f.message⟩)
  | .ok actual => do
    if ← valuesMatch tolerance expected actual then pure c.addMatch
    else pure (c.addDivergence ⟨input, expected, actual, []⟩)

end Conformance

/-- Compares code with a reference over a list of inputs. `reference` gives the expected value of
an input, or the fault that there is none. -/
def compare {m : Type → Type} [Monad m] (limits : Limits) (engine : Run → m EngineAnswer)
    (reference : List Json → m (Outcome Execution)) (tolerance : Float) (code entry : Text)
    (timeout : Option Scalar) (inputs : List (List Json)) : m (Outcome Conformance) :=
  go { entry := entry } inputs
where
  /-- Compares the remaining inputs. -/
  go (c : Conformance) : List (List Json) → m (Outcome Conformance)
    | [] => pure (.ok c)
    | input :: rest => do
      match ← reference input with
      | .error f => pure (.error f)
      | .ok ⟨.error f, _⟩ =>
        go (c.addDivergence ⟨input, .null, .null, "reference: " ++ f.message⟩) rest
      | .ok ⟨.ok expected, _⟩ =>
        match ← execute limits engine (probe code entry) (.arr input) timeout with
        | .error f => pure (.error f)
        | .ok e =>
          match c.judge tolerance input expected e with
          | .error f => pure (.error f)
          | .ok c => go c rest

/-- The reference that runs code of its own. -/
def codeReference {m : Type → Type} [Monad m] (limits : Limits) (engine : Run → m EngineAnswer)
    (code entry : Text) (input : List Json) : m (Outcome Execution) :=
  execute limits engine (probe code entry) (.arr input) none

end HostScript.Sandbox
