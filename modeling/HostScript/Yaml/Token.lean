import HostScript.Yaml.Written

/-!
# Tokens of documents

The units that the structure of a document is made of. Indentation counts as tokens that open and
close blocks, and what precedes a colon as a key, even though only the colon shows that it is one.
So a lexer keeps the places that may turn out to be keys, and hands tokens out once no such place is
among them. It reads no further than it is asked to, so that the first fault of a document is the
one that shows.
-/

namespace HostScript.Yaml

/-- What a line that starts with a percent sign says. -/
inductive Directive where
  | version (major : Nat)
  /-- A handle of tags and what it stands for. -/
  | handle (name start : Text)
  | other

/-- A token. -/
inductive Token where
  | streamEnd
  | directive (d : Directive)
  | documentStart
  | documentEnd
  | blockSequence
  | blockMapping
  | blockEnd
  | flowSequence
  | flowSequenceEnd
  | flowMapping
  | flowMappingEnd
  | blockEntry
  | flowEntry
  | key
  | value
  | alias (name : Text)
  | anchor (name : Text)
  /-- A tag: its handle, if it has one, and what follows. -/
  | tag (handle : Option Text) (suffix : Text)
  /-- A text, and whether it is written as plain words. -/
  | scalar (plain : Bool) (text : Text)

/-- A place that may turn out to be the start of a key. -/
structure PossibleKey where
  /-- The depth of brackets around it. -/
  flow : Int
  /-- The number of the token that it starts with. -/
  number : Nat
  /-- Whether nothing but a key can stand there. -/
  required : Bool
  place : Place

/-- A lexer between two tokens. -/
structure Lexer where
  place : Place
  /-- The tokens that are read and not handed out. -/
  queue : List Token := []
  /-- How many tokens were handed out. -/
  taken : Nat := 0
  /-- The indentation of the innermost block. -/
  indent : Int := -1
  /-- The indentations of the blocks around it. -/
  outer : List Int := []
  /-- Whether a key can start here. -/
  keysAllowed : Bool := true
  keys : List PossibleKey := []
  /-- The depth of brackets. -/
  flow : Int := 0
  done : Bool := false

/-- A step of a lexer. -/
abbrev Lexing := StateT Lexer Outcome

namespace Lexing

/-- Fails where no token can be read. -/
def fail {α : Type} : Lexing α := throw noToken

/-- The place of the lexer. -/
def place : Lexing Place := return (← get).place

/-- Moves the lexer to a place. -/
def moveTo (p : Place) : Lexing Unit := modify fun x => { x with place := p }

/-- Whether brackets are open. -/
def inFlow : Lexing Bool := return (← get).flow != 0

/-- Puts a token last. -/
def push (t : Token) : Lexing Unit := modify fun x => { x with queue := x.queue ++ [t] }

/-- Puts a token at a number. -/
def insertAt (number : Nat) (t : Token) : Lexing Unit :=
  modify fun x =>
    let i := number - x.taken
    { x with queue := x.queue.take i ++ t :: x.queue.drop i }

/-- Says whether a key can start next. -/
def allowKeys (b : Bool) : Lexing Unit := modify fun x => { x with keysAllowed := b }

/-- Passes over some characters that are a token. -/
def pushOver (length : Nat) (t : Token) : Lexing Unit := do
  modify fun x => { x with place := x.place.move length }
  push t

/-! ## Keys -/

/-- How far a key can be behind its colon. -/
def keyReach : Nat := 1024

/-- Gives up the places that can no longer be keys: those on another line, and those too far
behind. -/
def dropStale : Lexing Unit := do
  let x ← get
  let isStale (k : PossibleKey) : Bool :=
    k.place.line != x.place.line || x.place.index - k.place.index > keyReach
  if x.keys.any fun k => isStale k && k.required then fail
  else set { x with keys := x.keys.filter (!isStale ·) }

/-- Gives up the place that may be a key at this depth of brackets. -/
def dropKey : Lexing Unit := do
  let x ← get
  if x.keys.any fun k => k.flow == x.flow && k.required then fail
  else set { x with keys := x.keys.filter (·.flow != x.flow) }

/-- Keeps the place, which may be a key. -/
def saveKey : Lexing Unit := do
  let x ← get
  if x.keysAllowed then
    dropKey
    let required := x.flow == 0 && x.indent == x.place.column
    let key : PossibleKey := ⟨x.flow, x.taken + x.queue.length, required, x.place⟩
    modify fun x => { x with keys := x.keys ++ [key] }

/-! ## Blocks -/

/-- Closes the blocks that are indented by more than a column. -/
def unwind (column : Int) : Lexing Unit := do
  let x ← get
  if x.flow == 0 then
    let all := x.indent :: x.outer
    let closed := all.takeWhile (column < ·)
    match all.drop closed.length with
    | indent :: outer =>
      set { x with
        indent := indent
        outer := outer
        queue := x.queue ++ closed.map fun _ => Token.blockEnd }
    | [] => pure ()

/-- Opens a block at a column, if it is deeper than the innermost one; tells whether it is. -/
def openBlock (column : Nat) : Lexing Bool := do
  let x ← get
  if x.indent < column then
    set { x with indent := column, outer := x.indent :: x.outer }
    pure true
  else pure false

/-- Starts an entry of a block outside of brackets, which may open the block. -/
def startEntry (block : Token) : Lexing Unit := do
  if !(← inFlow) then
    let x ← get
    if !x.keysAllowed then fail
    if ← openBlock x.place.column then push block

/-! ## Tokens -/

/-- Reads the end of the document. -/
def streamEnd : Lexing Unit := do
  unwind (-1)
  dropKey
  modify fun x => { x with keysAllowed := false, keys := [], done := true }
  push .streamEnd

/-- Reads a mark between documents. -/
def documentMark (t : Token) : Lexing Unit := do
  unwind (-1)
  dropKey
  allowKeys false
  pushOver 3 t

/-- Reads an opening bracket, which may start a key. -/
def openBracket (t : Token) : Lexing Unit := do
  saveKey
  modify fun x => { x with flow := x.flow + 1, keysAllowed := true }
  pushOver 1 t

/-- Reads a closing bracket. -/
def closeBracket (t : Token) : Lexing Unit := do
  dropKey
  modify fun x => { x with flow := x.flow - 1, keysAllowed := false }
  pushOver 1 t

/-- Reads the comma between entries in brackets. -/
def flowEntry : Lexing Unit := do
  allowKeys true
  dropKey
  pushOver 1 .flowEntry

/-- Reads the dash of an entry. -/
def blockEntry : Lexing Unit := do
  startEntry .blockSequence
  allowKeys true
  dropKey
  pushOver 1 .blockEntry

/-- Reads the question mark of a key. -/
def explicitKey : Lexing Unit := do
  startEntry .blockMapping
  allowKeys !(← inFlow)
  dropKey
  pushOver 1 .key

/-- Reads the colon of a value. What may have been a key before it is one. -/
def colon : Lexing Unit := do
  let x ← get
  match x.keys.find? (·.flow == x.flow) with
  | some k =>
    set { x with keys := x.keys.filter (·.flow != x.flow) }
    insertAt k.number .key
    if x.flow == 0 then
      if ← openBlock k.place.column then insertAt k.number .blockMapping
    allowKeys false
  | none =>
    startEntry .blockMapping
    allowKeys !(← inFlow)
    dropKey
  pushOver 1 .value

/-- The characters of names and handles. -/
def isNameChar : CharSet := fun c => c.isAlphanum || c == '-' || c == '_'

/-- Reads a name that is not empty. -/
def name (p : Place) : Lexing (Text × Place) := do
  let (found, p) := p.span isNameChar
  if found.isEmpty then fail else pure (found, p)

/-- Reads an anchor or a reference to one, behind its sign. -/
def anchor (make : Text → Token) : Lexing Unit := do
  saveKey
  allowKeys false
  let (found, p) ← name (← place).step
  if p.gapAt 0 || p.seesAny (among "?:,]\x7d%@\x60") then
    moveTo p
    push (make found)
  else fail

/-! ## Tags and directives -/

/-- The text of bytes in UTF-8. -/
def decode? (bytes : List Nat) : Option Text :=
  (String.fromUTF8? (bytes.map Nat.toUInt8).toByteArray).map String.toList

/-- The bytes of the escapes at the start of a text, each a percent sign with two digits; none if
one is malformed. -/
def percentBytes : Text → Option (List Nat × Text)
  | '%' :: a :: b :: rest =>
    if isHexDigit a && isHexDigit b then
      (percentBytes rest).map fun (bytes, rest) => (basedValue 16 [a, b] :: bytes, rest)
    else none
  | '%' :: _ => none
  | rest => some ([], rest)

/-- The characters of addresses besides percent signs. -/
def isAddressChar : CharSet := fun c =>
  c.isAlphanum || among "-;/?:@&=+$,_.!~*\x27()[]" c

/-- Reads an address that is not empty. -/
def address : (fuel : Nat) → Place → Lexing (Text × Place)
  | 0, p => pure ([], p)
  | fuel + 1, p => do
    let (found, p) := p.span isAddressChar
    if p.sees '%' then
      match percentBytes p.rest with
      | some (bytes, rest) =>
        match decode? bytes with
        | some chars =>
          let (more, p) ← address fuel (p.move (p.rest.length - rest.length))
          pure (found ++ chars ++ more, p)
        | none => fail
      | none => fail
    else pure (found, p)

/-- Reads an address, which must not be empty. -/
def wholeAddress (p : Place) : Lexing (Text × Place) := do
  let (found, after) ← address (p.rest.length + 1) p
  if after.index == p.index then fail else pure (found, after)

/-- Reads the handle of a tag. -/
def tagHandle (p : Place) : Lexing (Text × Place) := do
  if !p.sees '!' then fail
  else if p.rest[1]? == some ' ' then pure (['!'], p.step)
  else
    let (found, after) := p.step.span isNameChar
    if after.sees '!' then pure ('!' :: found ++ ['!'], after.step) else fail

/-- Reads a tag. -/
def tag : Lexing Unit := do
  saveKey
  allowKeys false
  let p ← place
  let (handle, suffix, p) ← if p.rest[1]? == some '<' then do
      let (found, p) ← wholeAddress (p.move 2)
      if !p.sees '>' then fail
      pure (none, found, p.step)
    else if p.gapAt 1 then pure (none, ['!'], p.step)
    else do
      let word := (p.rest.drop 1).takeWhile fun c => c != ' ' && !endsLine c
      let (handle, p) ← if word.contains '!' then tagHandle p else pure (['!'], p.step)
      let (found, p) ← wholeAddress p
      pure (some handle, found, p)
  if p.atSpaceOrEnd then
    moveTo p
    push (.tag handle suffix)
  else fail

/-- Reads the number of a version. -/
def versionNumber (p : Place) : Lexing (Nat × Place) := do
  let (digits, p) := p.span Char.isDigit
  if digits.isEmpty then fail else pure (basedValue 10 digits, p)

/-- Reads a directive. -/
def directive : Lexing Unit := do
  unwind (-1)
  dropKey
  allowKeys false
  let (found, p) ← name (← place).step
  if !p.atSpaceOrEnd then fail
  let (d, p) ← if found == "YAML".toList then do
      let (major, p) ← versionNumber (p.skip (· == ' '))
      if !p.sees '.' then fail
      let (_, p) ← versionNumber p.step
      if !p.atSpaceOrEnd then fail
      pure (Directive.version major, p)
    else if found == "TAG".toList then do
      let (handle, p) ← tagHandle (p.skip (· == ' '))
      if !p.sees ' ' then fail
      let (start, p) ← wholeAddress (p.skip (· == ' '))
      if !p.atSpaceOrEnd then fail
      pure (Directive.handle handle start, p)
    else pure (Directive.other, p.skip fun c => !endsLine c)
  moveTo (← p.restOfLine)
  push (.directive d)

/-! ## Texts -/

/-- Reads a quoted text. -/
def quotedScalar (quote : Char) : Lexing Unit := do
  saveKey
  allowKeys false
  let (text, p) ← quoted quote (← place)
  moveTo p
  push (.scalar false text)

/-- Reads an indented block, behind which a key may follow. -/
def blockScalar : Lexing Unit := do
  allowKeys true
  dropKey
  let x ← get
  let (text, p) ← blockText x.indent x.place
  moveTo p
  push (.scalar false text)

/-- Reads plain words. -/
def plainScalar : Lexing Unit := do
  saveKey
  let x ← get
  let words := plainWords (x.flow != 0) (x.indent + 1) (x.place.rest.length + 1) [] [] false x.place
  modify fun x => { x with place := words.place, keysAllowed := words.keysAllowed }
  push (.scalar true words.text)

/-- Whether plain words can start here. -/
def startsPlain (x : Lexer) (c : Char) : Bool :=
  !(isSpace c || endsLine c || among "-?:,[]\x7b\x7d#&*!|>\x27\x22%@\x60" c)
    || (!x.place.gapAt 1 && (c == '-' || (x.flow == 0 && (c == '?' || c == ':'))))

/-- Passes over spaces, comments and line breaks. A key can start on a new line. -/
def skipToToken : (fuel : Nat) → Lexing Unit
  | 0 => pure ()
  | fuel + 1 => do
    let x ← get
    let p := (x.place.skip (· == ' ')).skipComment
    if p.seesAny endsLine then
      set { x with place := p.lineBreak.2, keysAllowed := x.keysAllowed || x.flow == 0 }
      skipToToken fuel
    else moveTo p

/-- Reads the next token. -/
def fetch : Lexing Unit := do
  let p ← place
  if p.index == 0 && p.sees byteOrderMark then moveTo p.step
  skipToToken (p.rest.length + 1)
  dropStale
  unwind (← place).column
  let x ← get
  let p := x.place
  let flow := x.flow != 0
  match p.next? with
  | none => streamEnd
  | some c =>
    if c == '%' && p.column == 0 then directive
    else if p.column == 0 && p.seesMark "---" then documentMark .documentStart
    else if p.column == 0 && p.seesMark "..." then documentMark .documentEnd
    else if c == '[' then openBracket .flowSequence
    else if c == '\x7b' then openBracket .flowMapping
    else if c == ']' then closeBracket .flowSequenceEnd
    else if c == '\x7d' then closeBracket .flowMappingEnd
    else if c == ',' then flowEntry
    else if c == '-' && p.gapAt 1 then blockEntry
    else if c == '?' && (flow || p.gapAt 1) then explicitKey
    else if c == ':' && (flow || p.gapAt 1) then colon
    else if c == '*' then anchor .alias
    else if c == '&' then anchor .anchor
    else if c == '!' then tag
    else if (c == '|' || c == '>') && !flow then blockScalar
    else if c == '\x27' || c == '\x22' then quotedScalar c
    else if startsPlain x c then plainScalar
    else fail

/-- Whether the first token of the queue may still turn out to be a key. -/
def needsMore : Lexing Bool := do
  let x ← get
  if x.done then pure false
  else if x.queue.isEmpty then pure true
  else
    dropStale
    let x ← get
    pure (x.keys.any fun k => k.number == x.taken && x.keys.all (k.number ≤ ·.number))

/-- Reads tokens until the first one is sure. -/
def settle : (fuel : Nat) → Lexing Unit
  | 0 => pure ()
  | fuel + 1 => do
    if ← needsMore then
      fetch
      settle fuel

/-- The next token, not yet handed out. -/
def peek : Lexing Token := do
  settle ((← place).rest.length + 2)
  pure ((← get).queue.head?.getD .streamEnd)

/-- Hands out the next token. -/
def take : Lexing Token := do
  let t ← peek
  modify fun x => { x with queue := x.queue.drop 1, taken := x.taken + 1 }
  pure t

end Lexing

end HostScript.Yaml
