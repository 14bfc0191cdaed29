import HostScript.Body.Scope

/-!
# String interpolation

A string with interpolated expressions becomes a template literal. Strings and interpolations
nest, so one scanner with a stack of open frames finds their ends. A string ends before the end of
its line at the latest; an interpolation may run over lines.
-/

namespace HostScript.Body.Swift

/-- What is open at a place: a string, or an interpolation with parentheses open inside it. -/
inductive StringFrame where
  | text
  | hole (depth : Nat)
  deriving DecidableEq

/-- The number of characters up to the place where the last frame closes, or to the end. -/
def stringSpan : List StringFrame → Text → Nat
  | [], _ => 0
  | _ :: _, [] => 0
  | .text :: below, '\\' :: '(' :: rest => 2 + stringSpan (.hole 0 :: .text :: below) rest
  | .text :: below, '\\' :: _ :: rest => 2 + stringSpan (.text :: below) rest
  | .text :: _, ['\\'] => 1
  | .text :: below, c :: rest =>
    if c == '\x22' then 1 + stringSpan below rest
    else if c == '\n' then
      -- The line break belongs to what is around the string.
      (match below with
      | [] => 0
      | _ => 1 + stringSpan below rest)
    else 1 + stringSpan (.text :: below) rest
  | .hole d :: below, c :: rest =>
    if c == '\x22' then 1 + stringSpan (.text :: .hole d :: below) rest
    else if c == '(' then 1 + stringSpan (.hole (d + 1) :: below) rest
    else if c == ')' then
      (match d with
      | 0 => 1 + stringSpan below rest
      | d + 1 => 1 + stringSpan (.hole d :: below) rest)
    else 1 + stringSpan (.hole d :: below) rest

/-- The literal text and the expressions of a template from the inside of a string; `inner`
rephrases the strings in an expression. The first `skip` characters are already written. -/
def templateBody (inner : Text → Text) : (skip : Nat) → Text → Text
  | _, [] => []
  | skip + 1, _ :: rest => templateBody inner skip rest
  | 0, '\\' :: '(' :: rest =>
    let length := stringSpan [.hole 0] rest
    "$\x7b" ++ inner (rest.take (length - 1)) ++ "\x7d" ++ templateBody inner length rest
  | 0, '\\' :: c :: rest =>
    (if c == '\x22' then [c] else ['\\', c]) ++ templateBody inner 0 rest
  | 0, '$' :: '\x7b' :: rest => '\\' :: '$' :: '\x7b' :: templateBody inner 0 rest
  | 0, c :: rest =>
    (if c == '\x60' then ['\\', c] else [c]) ++ templateBody inner 0 rest

/-- A string literal as a template literal. -/
def toTemplate (inner : Text → Text) (literal : Text) : Text :=
  let content :=
    if literal.getLast? == some '\x22' && literal.length > 1 then (literal.drop 1).dropLast
    else literal.drop 1
  '\x60' :: templateBody inner 0 content ++ ['\x60']

/-- Rephrases the strings of a text, the first `skip` characters already written. -/
def interpolateText (inner : Text → Text) : (skip : Nat) → Text → Text
  | _, [] => []
  | skip + 1, _ :: rest => interpolateText inner skip rest
  | 0, c :: rest =>
    if c == '\x22' then
      let length := stringSpan [.text] rest
      let literal := c :: rest.take length
      (if Text.hasInfix "\\(" literal then toTemplate inner literal else literal)
        ++ interpolateText inner length rest
    else c :: interpolateText inner 0 rest

/-- Rephrases strings whose interpolations nest at most `depth` deep. -/
def interpolateWithin : (depth : Nat) → Text → Text
  | 0, t => t
  | depth + 1, t => interpolateText (interpolateWithin depth) 0 t

/-- Strings with interpolations as template literals; other strings stay. -/
def interpolate (t : Text) : Text := interpolateWithin (t.length + 1) t

end HostScript.Body.Swift
