import HostScript.Pattern.Match
import HostScript.Script.Masked
import HostScript.Source.Bracket

/-!
# Older forms of the language

One step for each newer form, and the steps together.
-/

namespace HostScript.Downlevel

open Pattern Script

/-!
## Parameters and declarations

Default values of parameters become tests at the head of the body, declarations by pattern become
declarations one by one, and block scoped declarations become plain ones.
-/

private def parameterList : Pattern :=
  (fresh ++ "function" ++ edge ++ blanks ++ ident.opt <|> fresh ++ cap 1 ident) ++ blanks ++ "("

private def defaultForm : Pattern :=
  cap 1 ident ++ blanks ++ "=" ++ notAhead (oneOf (among "=>")) ++ blanks ++ cap 2 anything.plus
    ++ textEnd

/-- Words before a parenthesis that opens no parameter list. -/
def controlWords : List String :=
  ["if", "for", "while", "switch", "catch", "with", "function", "return", "typeof", "new"]

/-- A parameter: its name, and the test that gives it its default value. -/
def parameterParts (param : Text) : Text × Option Text :=
  match defaultForm.match? param with
  | some m =>
    let name := m.group 1
    (name, some (" if (" ++ name ++ " === undefined) \x7b " ++ name ++ " = "
      ++ Text.trim (m.group 2) ++ "; \x7d"))
  | none => (param, none)

/-- Rephrases default values from an offset on. -/
def defaultsFrom : (fuel pos : Nat) → Text → Text
  | 0, _, t => t
  | fuel + 1, pos, t =>
    match parameterList.searchAt? t pos with
    | none => t
    | some m =>
      let open_ := m.stop - 1
      let skip := defaultsFrom fuel m.stop t
      if controlWords.any (fun w => m.group? 1 == some w.toList) then skip
      else match Source.blockEnd? t open_ with
        | none => skip
        | some close =>
          let brace := skipBlanks t (close + 1)
          if t[brace]? != some '\x7b' then skip
          else
            let parts := (Source.splitTopLevel .conditions (t.slice (open_ + 1) close)).map
              parameterParts
            let defaults := parts.filterMap (·.2)
            if defaults.isEmpty then skip
            else
              let new := "(" ++ Text.join ", " (parts.map (·.1)) ++ ")"
                ++ t.slice (close + 1) (brace + 1) ++ defaults.flatten
              defaultsFrom fuel (open_ + new.length) (t.take open_ ++ new ++ t.drop (brace + 1))

/-- Rephrases default values of parameters. -/
def defaultParameters (code : Text) : Outcome Text :=
  let m := mask .all code
  m.restoreText (defaultsFrom (m.text.length + 1) 0 m.text)

private def patternDeclaration : Pattern :=
  fresh ++ cap 1 (choice ["var", "let", "const"]) ++ blanks ++ cap 2 (oneOf (among "[\x7b"))

/-- The first name of the form `__ref` with a number from `n` on that does not occur in a text, and
the number after it. -/
def freshName (t : Text) : (fuel n : Nat) → Text × Nat
  | 0, n => ("__ref" ++ Text.ofNat n, n + 1)
  | fuel + 1, n =>
    let name := "__ref" ++ Text.ofNat n
    if Text.hasInfix name t then freshName t fuel (n + 1) else (name, n + 1)

private def hasHole : Pattern := textStart ++ blanks ++ "," <|> "," ++ blanks ++ ","

private def entryForm : Pattern := cap 1 ident ++ (blanks ++ ":" ++ blanks ++ cap 2 ident).opt

/-- The declarations of an array pattern's entries. -/
def arrayBindings (ref : Text) : (index : Nat) → List Text → Option (List Text)
  | _, [] => some []
  | index, entry :: rest =>
    if ident.fitsAll entry then
      (arrayBindings ref (index + 1) rest).map
        ((entry ++ " = " ++ ref ++ "[" ++ Text.ofNat index ++ "]") :: ·)
    else none

/-- The declaration of one entry of an object pattern. -/
def objectBinding? (ref entry : Text) : Option Text :=
  (entryForm.matchAll? entry).map fun m =>
    (m.group? 2).getD (m.group 1) ++ " = " ++ ref ++ "." ++ m.group 1

/-- The declarations of a pattern, none if it has a hole, a rest or a nested pattern. -/
def patternBindings? (pattern : Text) (ref : Text) : Option (List Text) :=
  let inner : Text := (pattern.drop 1).dropLast
  if inner.trim.isEmpty || Text.hasInfix "..." inner || hasHole.occursIn inner then none
  else
    let entries := Source.splitTopLevel .conditions inner
    if pattern.head? == some '[' then arrayBindings ref 0 entries
    else entries.mapM (objectBinding? ref)

/-- Rephrases declarations by pattern from an offset on; `n` numbers the next fresh name. -/
def patternsFrom : (fuel n pos : Nat) → Text → Text
  | 0, _, _, t => t
  | fuel + 1, n, pos, t =>
    match patternDeclaration.searchAt? t pos with
    | none => t
    | some m =>
      let start := m.groupStart 2
      match Source.blockEnd? t start with
      | none => patternsFrom fuel n m.stop t
      | some close =>
        let equals := skipBlanks t (close + 1)
        let sign := t.drop equals
        if !(['='].isPrefixOf sign) || ['=', '='].isPrefixOf sign || ['=', '>'].isPrefixOf sign then
          patternsFrom fuel n m.stop t
        else
          let valueStart := skipBlanks t (equals + 1)
          let tail := t.since valueStart
          let value := (tail.upTo (expressionLength 0 tail)).trimEnd
          let (ref, n) := freshName t (t.length + 1) n
          match patternBindings? (t.slice start (close + 1)) ref with
          | none => patternsFrom fuel n m.stop t
          | some bindings =>
            if value.isEmpty then patternsFrom fuel n m.stop t
            else
              let new := m.group 1 ++ " " ++ ref ++ " = " ++ value ++ ", "
                ++ Text.join ", " bindings
              patternsFrom fuel n (m.start + new.length)
                (m.before ++ new ++ t.drop (valueStart + value.length))

/-- Rephrases declarations by pattern. -/
def destructuring (code : Text) : Outcome Text :=
  let m := mask .all code
  m.restoreText (patternsFrom (m.text.length + 1) 0 0 m.text)

/-- A word that declares block scoped names, before one of them. -/
def blockScoped : Pattern :=
  fresh ++ choice ["let", "const"] ++ isAhead (gap ++ oneOf (isAsciiLetter ||| among "_$[\x7b"))

/-- Rephrases block scoped declarations. -/
def blockScope (code : Text) : Outcome Text :=
  let m := mask .all code
  m.restoreText (blockScoped.replace (fun _ => "var") m.text)

/-!
## Arrow functions as functions

Arrows are rephrased from right to left, so an arrow inside another comes first. A function whose
body uses the receiver is bound to it.
-/

/-- The offset of the last arrow that ends at or before an offset. -/
def lastArrow? (t : Text) (stop : Nat) : Option Nat := go 0 none (t.take stop)
where
  /-- The last arrow from an offset on, or the one found before. -/
  go (pos : Nat) (found : Option Nat) : Text → Option Nat
    | '=' :: '>' :: rest => go (pos + 1) (some pos) ('>' :: rest)
    | _ :: rest => go (pos + 1) found rest
    | [] => found

/-- How many characters back the parenthesis opens that the last character of a text closes, the
text given in reverse. -/
def openParenBack? : (depth : Nat) → Text → Option Nat
  | _, [] => none
  | depth, c :: rest =>
    if c == ')' then (openParenBack? (depth + 1) rest).map (· + 1)
    else if c == '(' then
      if depth - 1 == 0 then some 0 else (openParenBack? (depth - 1) rest).map (· + 1)
    else (openParenBack? depth rest).map (· + 1)

private def asyncEnd : Pattern := fresh ++ "async" ++ blanks ++ textEnd

/-- Where the parameters of the arrow at an offset start, and their text. Asynchronous arrows and
what is no parameter list have none. -/
def arrowParams? (t : Text) (arrow : Nat) : Option (Nat × Text) :=
  match solidBefore? t arrow with
  | none => none
  | some pos =>
    if t[pos]? == some ')' then
      match openParenBack? 0 (t.take (pos + 1)).reverse with
      | none => none
      | some back =>
        let open_ := pos - back
        if (fresh ++ "async" ++ textEnd).occursIn (t.upTo open_).trimEnd then none
        else some (open_, (t.slice (open_ + 1) pos).trim)
    else
      match (fresh ++ cap 1 ident ++ blanks ++ textEnd).search? (t.take arrow) with
      | none => none
      | some m =>
        if m.group 1 == "async".toList || asyncEnd.occursIn (t.take (m.groupStart 1)) then none
        else some (m.groupStart 1, m.group 1)

/-- The statements of the arrow body that starts at an offset, and where it stops. -/
def arrowBody? (t : Text) (start : Nat) : Option (Text × Nat) :=
  if t[start]? == some '\x7b' then
    (Source.blockEnd? t start).map fun close => (t.slice start (close + 1), close + 1)
  else
    let rest := t.since start
    let expression := (rest.upTo (expressionLength 0 rest)).trimEnd
    if expression.isEmpty then none
    else some ("\x7b return " ++ expression ++ "; \x7d", start + expression.length)

private def receiverUse : Pattern := fresh ++ "this" ++ nameEnds

/-- A function with the given parameters and body, bound to the receiver if the body uses it. -/
def functionText (params body : Text) : Text :=
  let function := "function (" ++ params ++ ") " ++ body
  if receiverUse.occursIn body then "(" ++ function ++ ").bind(this)" else function

/-- Rephrases the arrows before an offset, from right to left. -/
def arrowsBefore : (fuel stop : Nat) → Text → Text
  | 0, _, t => t
  | fuel + 1, stop, t =>
    match lastArrow? t stop with
    | none => t
    | some arrow =>
      match arrowParams? t arrow with
      | none => arrowsBefore fuel arrow t
      | some (start, params) =>
        match arrowBody? t (skipBlanks t (arrow + 2)) with
        | none => arrowsBefore fuel arrow t
        | some (body, bodyEnd) =>
          arrowsBefore fuel start (t.take start ++ functionText params body ++ t.drop bodyEnd)

/-- Rephrases all arrow functions. -/
def arrows (code : Text) : Outcome Text :=
  let m := mask .all code
  m.restoreText (arrowsBefore (m.text.length + 1) m.text.length m.text)

/-!
## Templates as concatenations

A template literal becomes a concatenation of strings and parenthesised expressions. Tagged
templates are calls and stay.
-/

/-- A character of template text as it stands in a string. -/
def stringChar (c : Char) : Text :=
  if c == '\x22' then ['\\', '\x22']
  else if c == '\n' then ['\\', 'n']
  else if c == '\r' then ['\\', 'r']
  else [c]

/-- A string with the given content. -/
def quoteChunk (chunk : Text) : Text := '\x22' :: chunk ++ ['\x22']

/-- The operands of a concatenation from inside a template on; `chunk` is the open string,
reversed. The last character is the backtick that closes the template. -/
def operands (inner : Text → Outcome Text) : (chunk : Text) → (skip : Nat) → Text →
    Outcome (List Text)
  | chunk, _, [] => .ok [quoteChunk chunk.reverse]
  | chunk, skip + 1, _ :: rest => operands inner chunk skip rest
  | chunk, 0, [_] => .ok [quoteChunk chunk.reverse]
  | chunk, 0, '\\' :: c :: rest =>
    operands inner (if c == '\x60' || c == '$' then c :: chunk else c :: '\\' :: chunk) 0 rest
  | chunk, 0, '$' :: '\x7b' :: rest => do
    let length := holeRest rest
    let expression ← inner (rest.take (length - 1))
    let more ← operands inner [] length rest
    pure (quoteChunk chunk.reverse :: ("(" ++ expression.trim ++ ")") :: more)
  | chunk, 0, c :: rest => operands inner ((stringChar c).reverse ++ chunk) 0 rest

/-- The concatenation of operands: empty strings after the first are left out. -/
def concatenation : List Text → Text
  | [] => []
  | first :: rest =>
    match rest.filter (· != quoteChunk []) with
    | [] => first
    | kept => "(" ++ Text.join " + " (first :: kept) ++ ")"

/-- A template as a concatenation; a template that does not close stays. -/
def templateToConcatenation (inner : Text → Outcome Text) (template : Text) : Outcome Text :=
  if template.length < 2 || template.getLast? != some '\x60' then .ok template
  else concatenation <$> operands inner [] 0 (template.drop 1)

/-- Words after which a template is an operand. -/
def operandWords : List String :=
  ["return", "typeof", "case", "in", "of", "void", "yield", "await", "delete", "throw",
    "instanceof", "else", "do"]

/-- Whether a template that follows the given text is tagged. -/
def isTagged (before : Text) : Bool :=
  let before := before.trimEnd
  match before.getLast? with
  | none => false
  | some c =>
    if c == ')' || c == ']' then true
    else if !isIdentPart c then false
    else match (fresh ++ ident ++ textEnd).search? before with
      | some m => !(operandWords.any fun w => w.toList == m.text)
      | none => true

/-- Rephrases the templates of a text without strings and comments; `before` is the text read so
far, reversed, and the first `skip` characters are already written. -/
def templatesFrom (inner : Text → Outcome Text) : (before : Text) → (skip : Nat) → Text →
    Outcome Text
  | _, _, [] => .ok []
  | before, skip + 1, c :: rest => templatesFrom inner (c :: before) skip rest
  | before, 0, c :: rest =>
    if c == '\x60' then do
      let length := templateRest rest
      let template := c :: rest.take length
      let new ← (if isTagged before.reverse then pure template
        else templateToConcatenation inner template)
      let tail ← templatesFrom inner (c :: before) length rest
      pure (new ++ tail)
    else (c :: ·) <$> templatesFrom inner (c :: before) 0 rest

/-- Rephrases templates that nest at most `depth` deep. -/
def templatesWithin : (depth : Nat) → Text → Outcome Text
  | 0, code => .ok code
  | depth + 1, code => do
    let m := mask ⟨true, .shown, true⟩ code
    let text ← templatesFrom (templatesWithin depth) [] 0 m.text
    m.restoreText text

/-- Rephrases all templates. -/
def templates (code : Text) : Outcome Text := templatesWithin (code.length + 1) code

end HostScript.Downlevel

/-!
## Older forms of the language

Steps that replace newer forms of the script language by older ones, for hosts that lack the newer
ones. Each step works outside literals and comments and keeps what it does not recognise.
-/

namespace HostScript

/-- A named step from script to script. -/
structure ScriptStep where
  name : String
  apply : Text → Outcome Text

namespace ScriptStep

/-- Applies steps in order; tells which of them changed the script. -/
def applyAll : List ScriptStep → Text → Outcome (Text × List String)
  | [], code => .ok (code, [])
  | step :: rest, code => do
    let new ← step.apply code
    let (last, changed) ← applyAll rest new
    pure (last, if new == code then changed else step.name :: changed)

end ScriptStep

/-- The steps toward the older language, in order. -/
def downlevelSteps : List ScriptStep := [
  ⟨"templates", Downlevel.templates⟩,
  ⟨"arrow-functions", Downlevel.arrows⟩,
  ⟨"default-parameters", Downlevel.defaultParameters⟩,
  ⟨"destructuring", Downlevel.destructuring⟩,
  ⟨"block-scope", Downlevel.blockScope⟩]

/-- The script in the older language, and the steps that changed it. -/
def downlevel (code : Text) : Outcome (Text × List String) :=
  ScriptStep.applyAll downlevelSteps code

end HostScript
