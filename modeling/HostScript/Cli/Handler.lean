import HostScript.Pattern.Match

/-!
# Handlers in tags

A tag may name a handler for clicks, with arguments in parentheses. The arguments are literals:
numbers with a sign, complex numbers, quoted texts, constants, and tuples, sets and maps of them.
Whether they can be read is all that counts here.
-/

namespace HostScript.Cli

open Pattern

/-- What a literal is, as far as it matters where it may stand. -/
inductive Literal where
  /-- A number on the real line, without a sign. -/
  | real
  /-- A number on the real line with a sign. -/
  | signedReal
  /-- A number on the imaginary line, without a sign. -/
  | imaginary
  /-- A text. -/
  | quoted
  /-- A text of bytes. -/
  | bytes
  /-- Anything else that can be a member of a set. -/
  | fixed
  /-- A set or a map, or something that holds one. -/
  | changing

namespace Literal

/-- Whether a literal can be a member of a set or a key of a map. -/
def canBeKey : Literal → Bool
  | .changing => false
  | _ => true

/-- A tuple of literals. -/
def tuple (ls : List Literal) : Literal := if ls.all canBeKey then .fixed else .changing

/-- What is left of a text after the blanks and remarks at its start; `remark` tells whether a
remark is open. -/
def skipFrom : (remark : Bool) → Text → Text
  | _, [] => []
  | remark, c :: rest =>
    if remark then skipFrom (c != '\n') rest
    else if among " \t\n\x0c" c then skipFrom false rest
    else if c == '#' then skipFrom true rest
    else c :: rest

/-- What is left of a text after the blanks and remarks at its start. -/
def skip (t : Text) : Text := skipFrom false t

/-- Digits of a set, with single underscores between them. -/
private def digitRun (s : CharSet) : Pattern := oneOf s ++ ((lit "_").opt ++ oneOf s).star

/-- Digits after the mark of a base. -/
private def basedRun (marks : String) (s : CharSet) : Pattern :=
  "0" ++ oneOf (among marks) ++ ((lit "_").opt ++ oneOf s).plus

private def decimals : Pattern := digitRun Char.isDigit

private def exponent : Pattern := oneOf (among "eE") ++ (oneOf (among "+-")).opt ++ decimals

private def fraction : Pattern :=
  .either (.either (decimals.opt ++ "." ++ decimals) (decimals ++ ".") ++ exponent.opt)
    (decimals ++ exponent)

private def whole : Pattern :=
  .either (basedRun "xX" isHexDigit) <| .either (basedRun "oO" isOctalDigit) <|
    .either (basedRun "bB" (among "01")) <|
    .either (oneOf (between '1' '9') ++ ((lit "_").opt ++ oneOf Char.isDigit).star)
      (digitRun (· == '0'))

/-- A number; the group covers the mark of one on the imaginary line. No name follows it. -/
private def number : Pattern :=
  .either (.either fraction decimals ++ cap 1 (oneOf (among "jJ"))) (.either fraction whole)
    ++ notAhead word

/-- The marks before a quoted text: whether it is raw and whether it is of bytes. -/
private def marks : List (String × Bool × Bool) := [
  ("br", true, true), ("rb", true, true), ("b", false, true), ("r", true, false),
  ("u", false, false), ("", false, false)]

/-- How many hexadecimal digits follow an escape. -/
private def escapeDigits (ofBytes : Bool) (c : Char) : Nat :=
  if c == 'x' then 2 else if ofBytes then 0 else if c == 'u' then 4 else if c == 'U' then 8 else 0

/-- Whether an escape with digits names a character. -/
private def namesCharacter (digits : Text) : Bool :=
  digits.all isHexDigit && basedValue 16 digits ≤ 0x10FFFF

/-- What is left after the quoted text that a text starts with, given what closes it. -/
def body? (raw ofBytes : Bool) (close : Text) : Text → Option Text
  | [] => none
  | c :: rest =>
    if close.isPrefixOf (c :: rest) then some (rest.drop (close.length - 1))
    else if c == '\n' && close.length == 1 then none
    else if ofBytes && c.toNat ≥ 128 then none
    else if c != '\\' then body? raw ofBytes close rest
    else
      match rest with
      | [] => none
      | d :: tail =>
        let digits := tail.take (escapeDigits ofBytes d)
        if raw || (digits.length == escapeDigits ofBytes d && namesCharacter digits) then
          body? raw ofBytes close tail
        else none

/-- Reads one quoted text. -/
def quotedText? (t : Text) : Option (Literal × Text) :=
  marks.findSome? fun (mark, raw, ofBytes) =>
    let start := t.take mark.length
    if start.map Char.toLower != mark.toList then none
    else match t.drop mark.length with
      | q :: rest =>
        if q != '\x22' && q != '\x27' then none
        else
          let close := if [q, q].isPrefixOf rest then [q, q, q] else [q]
          (body? raw ofBytes close (rest.drop (close.length - 1))).map fun tail =>
            (if ofBytes then .bytes else .quoted, tail)
      | [] => none

/-- Reads quoted texts that stand side by side; all or none of them are of bytes. -/
def quotedTexts? : (fuel : Nat) → Text → Option (Literal × Text)
  | 0, _ => none
  | fuel + 1, t => do
    let (first, rest) ← quotedText? t
    match first, quotedText? (skip rest) with
    | _, none => some (first, rest)
    | .bytes, some (.bytes, _) | .quoted, some (.quoted, _) => quotedTexts? fuel (skip rest)
    | _, some _ => none

/-- Reads a constant. -/
def constant? (t : Text) : Option (Literal × Text) :=
  if t.startsWith "..." then some (.fixed, t.drop 3)
  else
    let name := t.takeWhile isWord
    let rest := t.drop name.length
    if ["True", "False", "None"].any (·.toList == name) then some (.fixed, rest)
    else if name == "set".toList then
      match skip rest with
      | '(' :: rest =>
        (match skip rest with
        | ')' :: rest => some (.changing, rest)
        | _ => none)
      | _ => none
    else none

/-- Reads a number. -/
def number? (t : Text) : Option (Literal × Text) :=
  (number.match? t).map fun m => (if (m.group? 1).isSome then .imaginary else .real, m.after)

/-- What is left after a character, if a text starts with it. -/
def after? (c : Char) (t : Text) : Option Text :=
  match skip t with
  | d :: rest => if d == c then some rest else none
  | [] => none

mutual

/-- Reads something that is no sum and has no sign. -/
def atom? : (fuel : Nat) → Text → Option (Literal × Text)
  | 0, _ => none
  | fuel + 1, t =>
    match t with
    | '(' :: rest => tuple? fuel rest
    | '\x7b' :: rest => braced? fuel rest
    | _ => (quotedTexts? t.length t).orElse fun _ => (number? t).orElse fun _ => constant? t

/-- Reads a literal: something with or without a sign, or the sum of a real and an imaginary
number. -/
def value? : (fuel : Nat) → Text → Option (Literal × Text)
  | 0, _ => none
  | fuel + 1, t => do
    let t := skip t
    let (first, rest) ← signed? fuel t
    match first, skip rest with
    | .real, s :: tail | .signedReal, s :: tail =>
      if s == '+' || s == '-' then
        match ← atom? fuel (skip tail) with
        | (.imaginary, rest) => some (.fixed, rest)
        | _ => none
      else some (first, rest)
    | _, _ => some (first, rest)

/-- Reads something with or without a sign. -/
def signed? : (fuel : Nat) → Text → Option (Literal × Text)
  | 0, _ => none
  | fuel + 1, t =>
    match t with
    | s :: tail =>
      if s == '+' || s == '-' then
        match atom? fuel (skip tail) with
        | some (.real, rest) => some (.signedReal, rest)
        | some (.imaginary, rest) => some (.fixed, rest)
        | _ => none
      else atom? fuel t
    | [] => none

/-- Reads literals between commas up to a closing character; a comma may follow the last one. The
answer tells whether there was a comma. -/
def items? (close : Char) : (fuel : Nat) → Text → Option (List Literal × Bool × Text)
  | 0, _ => none
  | fuel + 1, t =>
    match after? close t with
    | some rest => some ([], false, rest)
    | none => do
      let (first, rest) ← value? fuel t
      match after? close rest with
      | some rest => some ([first], false, rest)
      | none => do
        let rest ← after? ',' rest
        let (more, _, rest) ← items? close fuel rest
        some (first :: more, true, rest)

/-- Reads what follows an opening parenthesis. -/
def tuple? : (fuel : Nat) → Text → Option (Literal × Text)
  | 0, _ => none
  | fuel + 1, t => do
    match ← items? ')' fuel t with
    | ([single], false, rest) => some (single, rest)
    | (items, _, rest) => some (tuple items, rest)

/-- Reads what follows an opening brace. -/
def braced? : (fuel : Nat) → Text → Option (Literal × Text)
  | 0, _ => none
  | fuel + 1, t =>
    match items? '\x7d' fuel t with
    | some (items, _, rest) => if items.all canBeKey then some (.changing, rest) else none
    | none => (members? fuel t).map fun rest => (.changing, rest)

/-- Reads the members of a map up to its end. -/
def members? : (fuel : Nat) → Text → Option Text
  | 0, _ => none
  | fuel + 1, t =>
    match after? '\x7d' t with
    | some rest => some rest
    | none => do
      let (key, rest) ← value? fuel t
      if !key.canBeKey then none
      let (_, rest) ← value? fuel (← after? ':' rest)
      match after? '\x7d' rest with
      | some rest => some rest
      | none => members? fuel (← after? ',' rest)

end

/-- Whether a text is a literal, or literals between commas. -/
def fits (t : Text) : Bool :=
  match tuple? (8 * t.length + 8) (t ++ "\n)") with
  | some (_, rest) => rest.isEmpty && !(skip t).isEmpty
  | none => false

end Literal

/-- The name of a handler and its arguments. -/
private def handlerCall : Pattern :=
  (oneOf (isWord ||| among ".")).starLazy ++ (cap 1 ("(" ++ any.starLazy ++ ")")).opt

/-- Whether what stands behind the name of a handler tag can be read. -/
def isHandler (t : Text) : Bool :=
  if t.isEmpty then true
  else match handlerCall.matchAll? t.trim with
    | some m => Literal.fits ((m.group? 1).getD "()")
    | none => Literal.fits t.trim

end HostScript.Cli
