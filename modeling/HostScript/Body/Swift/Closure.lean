import HostScript.Body.Statement
import HostScript.Number.Reading
import HostScript.Source.Bracket

/-!
# Closures

Trailing closures of collection methods and closure literals become arrow functions. A closure
names its parameters before `in`, or numbers them with a dollar sign. A brace after a call is a
closure only if its inside looks like one; otherwise it opens a block.
-/

namespace HostScript.Body.Swift

open Pattern

/-- The collection methods that take a closure, with the method that takes the callback. -/
def closureMethods : List (String × String) :=
  [("map", "map"), ("filter", "filter"), ("reduce", "reduce"), ("forEach", "forEach"),
    ("sorted", "sort"), ("sort", "sort"), ("compactMap", "map"), ("flatMap", "flatMap"),
    ("first", "find"), ("contains", "some"), ("allSatisfy", "every"), ("firstIndex", "findIndex")]

/-- The callback method for a collection method that takes a closure. -/
def callbackMethod? (method : Text) : Option Text :=
  (closureMethods.find? fun (m, _) => m.toList == method).map fun (_, js) => js.toList

/-- Words that start a statement and so name no closure parameter. -/
def statementWords : List String :=
  ["for", "if", "while", "let", "var", "return", "guard", "switch", "else"]

/-- The parameters of a closure up to `in`: group 1. -/
def closureHead : Pattern :=
  cap 1 ("(" ++ (noneOf (among "()")).star ++ ")"
      <|> (oneOf (isWord ||| isBlank ||| among ",")).plusLazy)
    ++ blanks ++ ("->" ++ blanks ++ (noneOf (among "\x7b\x7d")).plusLazy).opt ++ gap ++ "in" ++ edge

/-- The parameters and the statements of a closure. -/
def closureParts : Pattern := closureHead ++ blanks ++ cap 2 anything.star ++ textEnd

private def numberedParameter : Pattern := "$" ++ cap 1 digit.plus

/-- Whether a parameter list holds no word that starts a statement. -/
def namesParameters (params : Text) : Bool :=
  let words := Text.words (params.map fun c => if c == '(' || c == ',' then ' ' else c)
  !(words.any fun w => statementWords.any fun s => s.toList == w)

/-- Whether the inside of a pair of braces is a closure. -/
def looksLikeClosure (body : Text) : Bool :=
  let body := body.trim
  ("$" ++ digit).occursIn body ||
    match closureHead.match? body with
    | some m => namesParameters (m.group 1)
    | none => false

/-- The parameter list and the statements of a closure that numbers its parameters, or has none. -/
def numberedSignature (body : Text) : Outcome (Text × Text) := do
  let numbers ← (numberedParameter.allIn body).mapM fun m => Number.readDigits (m.group 1)
  let params := match numbers.max? with
    | some n => Text.join ", " ((List.range (n + 1)).map fun i => '$' :: Text.ofNat i)
    | none => []
  pure (params, body)

/-- The parameter list and the statements of a closure. -/
def closureSignature (body : Text) : Outcome (Text × Text) :=
  match closureParts.match? body with
  | some m =>
    if namesParameters (m.group 1) then do
      let params ← stripTypes (m.group 1)
      pure (params, Text.trim (m.group 2))
    else numberedSignature body
  | none => numberedSignature body

/-- The arrow function of a closure, whose statements `convert` has rephrased. -/
def arrowText (params statements : Text) : Text :=
  if !statements.contains '\n' && !statements.contains ';' then
    let expression :=
      if statements.startsWith "return " then statements.drop 7 else statements
    "(" ++ params ++ ") => " ++ expression
  else "(" ++ params ++ ") => \x7b\n" ++ statements ++ "\n\x7d"

/-- The call of a collection method with its callback. Sorting compares both ways round. -/
def closureCall (method args arrow : Text) (js : Text) : Text :=
  if method == "reduce".toList then
    if args.isEmpty then ".reduce(" ++ arrow ++ ")" else ".reduce(" ++ arrow ++ ", " ++ args ++ ")"
  else if method == "sorted".toList || method == "sort".toList then
    let comparator := "(__a, __b) => ((" ++ arrow ++ ")(__a, __b) ? -1 : ((" ++ arrow
      ++ ")(__b, __a) ? 1 : 0))"
    (if method == "sorted".toList then ".slice()".toList else []) ++ ".sort(" ++ comparator ++ ")"
  else if method == "compactMap".toList then
    ".map(" ++ arrow ++ ").filter((__v) => __v != null)"
  else if args.isEmpty then "." ++ js ++ "(" ++ arrow ++ ")"
  else "." ++ js ++ "(" ++ args ++ ", " ++ arrow ++ ")"

/-- A call by its name, perhaps with arguments, before a brace. -/
def trailingClosure : Pattern :=
  "." ++ cap 1 name ++ blanks ++ (cap 2 ("(" ++ cap 3 (noneOf (among "()")).star ++ ")")).opt
    ++ blanks ++ "\x7b"

/-- A brace where a value is expected. -/
def closureLiteral : Pattern := after (among "(,=:") ++ blanks ++ "\x7b"

/-- A closure as an arrow function; `convert` rephrases the closures inside it. -/
def closureToArrow (convert : Text → Outcome Text) (body : Text) : Outcome Text := do
  let (params, statements) ← closureSignature body.trim
  let statements ← convert statements
  pure (arrowText params statements)

/-- Rephrases trailing closures from an offset on. -/
def convertTrailing (convert : Text → Outcome Text) : (fuel pos : Nat) → Text → Outcome Text
  | 0, _, t => .ok t
  | fuel + 1, pos, t =>
    match trailingClosure.searchAt? t pos with
    | none => .ok t
    | some m =>
      let open_ := m.stop - 1
      match callbackMethod? (m.group 1), Source.closing? t open_ with
      | some js, some close =>
        let inside := t.slice (open_ + 1) close
        let isBlock := (m.group? 2).isSome && m.group 1 != "reduce".toList
          && !looksLikeClosure inside
        if isBlock then convertTrailing convert fuel m.stop t
        else do
          let arrow ← closureToArrow convert inside
          let call := closureCall (m.group 1) (Text.trim (m.group 3)) arrow js
          convertTrailing convert fuel (m.start + 1) (m.before ++ call ++ t.drop (close + 1))
      | _, _ => convertTrailing convert fuel m.stop t

/-- Rephrases closure literals from an offset on. -/
def convertLiterals (convert : Text → Outcome Text) : (fuel pos : Nat) → Text → Outcome Text
  | 0, _, t => .ok t
  | fuel + 1, pos, t =>
    match closureLiteral.searchAt? t pos with
    | none => .ok t
    | some m =>
      let open_ := m.stop - 1
      match Source.closing? t open_ with
      | some close =>
        let inside := t.slice (open_ + 1) close
        if looksLikeClosure inside then do
          let arrow ← closureToArrow convert inside
          convertLiterals convert fuel (open_ + 1) (t.take open_ ++ arrow ++ t.drop (close + 1))
        else convertLiterals convert fuel m.stop t
      | none => convertLiterals convert fuel m.stop t

/-- Rephrases closures that nest at most `depth` deep. Sorting writes a closure twice, so the
number of rounds is bounded by a power of two. -/
def convertWithin : (depth : Nat) → Text → Outcome Text
  | 0, t => .ok t
  | depth + 1, t => do
    let t ← convertTrailing (convertWithin depth) (Nat.pow 2 t.length) 0 t
    convertLiterals (convertWithin depth) (Nat.pow 2 t.length) 0 t

/-- Rephrases all closures as arrow functions. -/
def convertClosures (t : Text) : Outcome Text := convertWithin (t.length + 1) t

end HostScript.Body.Swift
