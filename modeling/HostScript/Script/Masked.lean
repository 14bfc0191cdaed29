import HostScript.Number.Reading
import HostScript.Pattern.Match
import HostScript.Text.Basic
import HostScript.Text.WordChar

/-!
# Masked scripts

The code of a script without its literals and comments, and what stands around a place in it.
-/

/-!
## Spans of a script that are not code

Strings, templates with their substitutions, and regular expression literals. Strings, templates
and substitutions nest, so one scanner with a stack of open frames measures all three. It ends
when the stack is empty or the text is; a span that is not closed runs to the end of the text.
-/

namespace HostScript.Script

/-- What is open at a place inside a literal, innermost first in a stack of frames. -/
inductive Frame where
  /-- A string that ends at the given quote or at the end of its line. -/
  | quoted (quote : Char)
  /-- A template literal. -/
  | template
  /-- A substitution of a template, with the number of braces open inside it. -/
  | hole (depth : Nat)
  deriving DecidableEq

/-- The stack after one character that does not start an escape or a substitution. -/
def Frame.step (frame : Frame) (below : List Frame) (c : Char) : List Frame :=
  match frame with
  | .quoted q => if c == q || c == '\n' then below else frame :: below
  | .template => if c == '\x60' then below else frame :: below
  | .hole d =>
    if c == '\x22' || c == '\x27' then .quoted c :: frame :: below
    else if c == '\x60' then .template :: frame :: below
    else if c == '\x7b' then .hole (d + 1) :: below
    else if c == '\x7d' then (match d with | 0 => below | d + 1 => .hole d :: below)
    else frame :: below

/-- Whether a backslash hides the next character in a frame. -/
def Frame.escapes : Frame → Bool
  | .hole _ => false
  | _ => true

/-- The number of characters up to the place where the last frame closes, or to the end. -/
def spanLength : List Frame → Text → Nat
  | [], _ => 0
  | _ :: _, [] => 0
  | frame :: below, [c] =>
    if frame.escapes && c == '\\' then 1 else 1 + spanLength (frame.step below c) []
  | frame :: below, c :: d :: rest =>
    if frame.escapes && c == '\\' then 2 + spanLength (frame :: below) rest
    else if frame == .template && c == '$' && d == '\x7b' then
      2 + spanLength (.hole 0 :: frame :: below) rest
    else 1 + spanLength (frame.step below c) (d :: rest)

/-- The length of the rest of a string after its opening quote. -/
def stringRest (quote : Char) (rest : Text) : Nat := spanLength [.quoted quote] rest

/-- The length of the rest of a template after its opening backtick. -/
def templateRest (rest : Text) : Nat := spanLength [.template] rest

/-- The length of the rest of a substitution after its opening brace. -/
def holeRest (rest : Text) : Nat := spanLength [.hole 0] rest

/-- The offset just past the template that starts at an offset. -/
def templateEnd (code : Text) (i : Nat) : Nat := i + 1 + templateRest (code.drop (i + 1))

/-- The offset just past the substitution whose inside starts at an offset. -/
def holeEnd (code : Text) (j : Nat) : Nat := j + holeRest (code.drop j)

/-- The length of the rest of a regular expression literal after its opening slash, flags
included; there is none if the line ends first. -/
def regexRest (rest : Text) : Option Nat := go false rest
where
  /-- Scans on, inside or outside a character class. -/
  go (inClass : Bool) : Text → Option Nat
    | [] => none
    | '\n' :: _ => none
    | ['\\'] => none
    | '\\' :: _ :: rest => (go inClass rest).map (· + 2)
    | c :: rest =>
      if c == '[' then (go true rest).map (· + 1)
      else if c == ']' then (go false rest).map (· + 1)
      else if c == '/' && !inClass then some (1 + (rest.takeWhile isIdentPart).length)
      else (go inClass rest).map (· + 1)

/-- The length of a line comment, from its slashes up to the end of its line. -/
def lineCommentLength (code : Text) : Nat := (code.takeWhile (· != '\n')).length

/-- The length of a block comment, from its opening to its closing mark or the end. -/
def blockCommentLength (code : Text) : Nat :=
  match Text.indexFrom? "*/" code 2 with
  | some close => close + 2
  | none => code.length

end HostScript.Script

namespace HostScript.Script

/-!
## Neighbours of a place

What stands before and after a place in a script, white space left out, and the ends of
expressions and blocks that contain the place.
-/

/-- The offset of the last character before a place that is not white space. -/
def solidBefore? (t : Text) (i : Nat) : Option Nat :=
  let kept := Text.trimEnd (t.take i)
  if kept.isEmpty then none else some (kept.length - 1)

/-- The last character before a place that is not white space. -/
def charBefore? (t : Text) (i : Nat) : Option Char := (Text.trimEnd (t.take i)).getLast?

/-- The offset of the first character from a place on that is not white space. -/
def skipBlanks (t : Text) (i : Nat) : Nat := i + ((t.drop i).takeWhile isBlank).length

/-- The first character from a place on that is not white space. -/
def charAfter? (t : Text) (i : Nat) : Option Char := ((t.drop i).dropWhile isBlank).head?

/-- Whether a place is the start of a statement. -/
def atStatementStart (t : Text) (i : Nat) : Bool :=
  match charBefore? t i with
  | none => true
  | some c => c == ';' || c == '\x7b' || c == '\x7d'

/-- The length of an expression: up to a separator or a closing bracket outside its own brackets. -/
def expressionLength : (depth : Nat) → Text → Nat
  | _, [] => 0
  | depth, c :: rest =>
    if c == '(' || c == '[' || c == '\x7b' then 1 + expressionLength (depth + 1) rest
    else if c == ')' || c == ']' || c == '\x7d' then
      (match depth with
      | 0 => 0
      | depth + 1 => 1 + expressionLength depth rest)
    else if depth == 0 && (c == ',' || c == ';' || c == '\n') then 0
    else 1 + expressionLength depth rest

/-- The length of the rest of a block: up to the brace that closes it. -/
def blockRestLength : (depth : Nat) → Text → Nat
  | _, [] => 0
  | depth, c :: rest =>
    if c == '\x7b' then 1 + blockRestLength (depth + 1) rest
    else if c == '\x7d' then
      (match depth with
      | 0 => 0
      | depth + 1 => 1 + blockRestLength depth rest)
    else 1 + blockRestLength depth rest

/-- A name that does not go on behind the place. -/
def nameEnds : Pattern := .notAhead (.oneOf isIdentPart)

/-- A free occurrence of a name: neither inside a longer name nor behind a dot. -/
def freeName (name : Text) : Pattern := Pattern.fresh ++ Pattern.text name ++ nameEnds

/-!
## Masked scripts

A masked script shows its code and hides literals and comments behind numbered marks, so that an
edit of the shown text cannot touch what is hidden. Masking first cuts the script into pieces,
whose sources concatenate to the script; the shown text and the hidden spans are read off the
pieces. Restoring replaces every mark by the span of its number.
-/

/-- What a hidden span is: a string, regular expression or whole template; a comment; or a stretch
of the literal text of a template. -/
inductive SpanKind where
  | literal
  | comment
  | chunk
  deriving DecidableEq

namespace SpanKind

/-- What stands before the number in a mark. -/
def markStart : SpanKind → Text
  | .literal => "__JSLIT_"
  | .comment => "__JSCOM_"
  | .chunk => "\x03TPL"

/-- What stands after the number in a mark. Chunks are marked with characters that are no part of
a word, so that names next to them keep their edges. -/
def markStop : SpanKind → Text
  | .literal => "__"
  | .comment => "__"
  | .chunk => "\x04"

/-- The mark of a hidden span. -/
def mark (kind : SpanKind) (index : Nat) : Text :=
  kind.markStart ++ Text.ofNat index ++ kind.markStop

end SpanKind

/-- A mark found in a text: its kind, the digits of its number and its length. -/
structure Mark where
  kind : SpanKind
  digits : Text
  length : Nat

namespace Mark

/-- The number that a mark carries. -/
def index (m : Mark) : Nat := Number.ofDigits m.digits

/-- Reads a mark of one kind at the start of a text. -/
def readKind? (kind : SpanKind) (t : Text) : Option Mark :=
  if kind.markStart.isPrefixOf t then
    let rest := t.drop kind.markStart.length
    let digits := rest.takeWhile isDigit
    if !digits.isEmpty && kind.markStop.isPrefixOf (rest.drop digits.length) then
      some ⟨kind, digits, kind.markStart.length + digits.length + kind.markStop.length⟩
    else none
  else none

/-- Reads a mark at the start of a text. -/
def read? (t : Text) : Option Mark :=
  readKind? .literal t <|> readKind? .comment t <|> readKind? .chunk t

end Mark

/-- The text with every number in a mark raised by an offset. -/
def raiseMarks (offset : Nat) (t : Text) : Text := go 0 t
where
  /-- Copies the text, first passing over `skip` characters of a mark. -/
  go : (skip : Nat) → Text → Text
    | _, [] => []
    | skip + 1, _ :: rest => go skip rest
    | 0, c :: rest =>
      match Mark.read? (c :: rest) with
      | some m => m.kind.mark (m.index + offset) ++ go (m.length - 1) rest
      | none => c :: go 0 rest

/-- A script with hidden spans. -/
structure Masked where
  /-- The code, with a mark in place of each hidden span. -/
  text : Text
  /-- The hidden spans by number. -/
  spans : List Text

namespace Masked

/-- What stands in place of a mark: its span, or for a dropped comment a line break if it held
one and a space otherwise. -/
def fill (spans : List Text) (dropComments : Bool) (m : Mark) : Outcome Text :=
  Number.readDigits m.digits >>= fun index =>
    match spans[index]? with
    | none => .error .outOfRange
    | some span =>
      if dropComments && m.kind == .comment then
        .ok (if span.contains '\n' then ['\n'] else [' '])
      else .ok span

/-- A text with every mark filled in. -/
def fillAll (spans : List Text) (dropComments : Bool) : (skip : Nat) → Text → Outcome Text
  | _, [] => .ok []
  | skip + 1, _ :: rest => fillAll spans dropComments skip rest
  | 0, c :: rest =>
    match Mark.read? (c :: rest) with
    | some m => do
      let span ← fill spans dropComments m
      let tail ← fillAll spans dropComments (m.length - 1) rest
      pure (span ++ tail)
    | none => (c :: ·) <$> fillAll spans dropComments 0 rest

/-- A shown text, edited or not, with the hidden spans back in their places. -/
def restoreText (m : Masked) (t : Text) : Outcome Text := fillAll m.spans false 0 t

/-- The masked script with the hidden spans back in their places. -/
def restore (m : Masked) : Outcome Text := m.restoreText m.text

/-- The masked script with the literals back in their places and the comments dropped. -/
def restoreDropping (m : Masked) : Outcome Text := fillAll m.spans true 0 m.text

end Masked

/-- What happens to template literals: they stay, are hidden whole, or only their literal text is
hidden and the substitutions stay open to edits. -/
inductive TemplateMode where
  | shown
  | hidden
  | chunked
  deriving DecidableEq

/-- Which spans are hidden. -/
structure MaskOptions where
  strings : Bool
  templates : TemplateMode
  comments : Bool

/-- Hides strings, whole templates and comments. -/
def MaskOptions.all : MaskOptions := ⟨true, .hidden, true⟩

/-- Hides strings, the literal text of templates, and comments. -/
def MaskOptions.chunked : MaskOptions := ⟨true, .chunked, true⟩

/-- A piece of a script: one character of code, a span that stays, a hidden span, or the inside of
a substitution, masked on its own. -/
inductive Piece where
  | code (c : Char)
  | shown (span : Text)
  | hidden (kind : SpanKind) (span : Text)
  | inner (m : Masked)

namespace Piece

/-- The piece in a masked text, up to the number in its marks. -/
def look : Piece → Text
  | .code c => [c]
  | .shown span => span
  | .hidden kind _ => kind.mark 0
  | .inner m => m.text

/-- A span that is hidden or stays. -/
def ofSpan (hide : Bool) (kind : SpanKind) (span : Text) : Piece :=
  if hide then .hidden kind span else .shown span

/-- The shown text and the hidden spans of pieces, numbered from `index`. -/
def assemble : (index : Nat) → List Piece → Text × List Text
  | _, [] => ([], [])
  | index, .code c :: rest =>
    let (text, spans) := assemble index rest
    (c :: text, spans)
  | index, .shown span :: rest =>
    let (text, spans) := assemble index rest
    (span ++ text, spans)
  | index, .hidden kind span :: rest =>
    let (text, spans) := assemble (index + 1) rest
    (kind.mark index ++ text, span :: spans)
  | index, .inner m :: rest =>
    -- The spans of a substitution follow those before it.
    let (text, spans) := assemble (index + m.spans.length) rest
    (raiseMarks index m.text ++ text, m.spans ++ spans)

end Piece

/-- The characters after which a slash starts a regular expression. -/
def isRegexPreceder : CharSet := among "(,=:[!&|?\x7b\x7d;+-*%<>~^"

/-- A word after which a slash starts a regular expression. -/
def regexKeyword : Pattern :=
  .notAfter (isWord ||| among "$.")
    ++ Pattern.choice ["return", "typeof", "case", "in", "of", "void", "yield", "await", "delete",
      "throw", "instanceof", "new", "else", "do"]
    ++ .textEnd

/-- Whether a slash after the given text starts a regular expression rather than a division. -/
def regexAllowed (before : Text) : Bool :=
  let before := before.trimEnd
  match before.getLast? with
  | none => true
  | some c => isRegexPreceder c || regexKeyword.occursIn before

/-- How many pieces before a slash are looked at. -/
def lookBack : Nat := 24

/-- The end of the text that stands before a slash, from the pieces before it, nearest first. -/
def nearby (window : List Piece) : Text := ((window.take lookBack).reverse.map Piece.look).flatten

/-- The pieces of a template from inside its literal text on: a chunk up to and including each
opening of a substitution, then the substitution, and a last chunk. `chunk` is the open chunk,
reversed. -/
def templatePieces (inner : Text → Masked) : (chunk : Text) → (skip : Nat) → Text → List Piece
  | chunk, _, [] => [.hidden .chunk chunk.reverse]
  | chunk, skip + 1, _ :: rest => templatePieces inner chunk skip rest
  | chunk, 0, '\\' :: [] => [.hidden .chunk (('\\' :: chunk).reverse)]
  | chunk, 0, '\\' :: c :: rest => templatePieces inner (c :: '\\' :: chunk) 0 rest
  | chunk, 0, '$' :: '\x7b' :: rest =>
    let length := holeRest rest
    let close := (rest.take length).getLast?.getD '\x7b'
    .hidden .chunk (('\x7b' :: '$' :: chunk).reverse)
      :: .inner (inner (rest.take (length - 1)))
      :: templatePieces inner [close] length rest
  | chunk, 0, c :: rest => templatePieces inner (c :: chunk) 0 rest

/-- The pieces that start at a character, and how many characters after it they cover. -/
def headPieces (o : MaskOptions) (inner : Text → Masked) (window : List Piece) (c : Char)
    (rest : Text) : List Piece × Nat :=
  let span (hide : Bool) (kind : SpanKind) (length : Nat) : List Piece × Nat :=
    ([Piece.ofSpan hide kind (c :: rest.take length)], length)
  if c == '\x22' || c == '\x27' then span o.strings .literal (stringRest c rest)
  else if c == '\x60' then
    let length := templateRest rest
    match o.templates with
    | .chunked => (templatePieces inner [c] 0 (rest.take length), length)
    | .hidden => span true .literal length
    | .shown => span false .literal length
  else if c == '/' then
    match rest with
    | '/' :: _ => span o.comments .comment (lineCommentLength rest)
    | '*' :: _ => span o.comments .comment (blockCommentLength (c :: rest) - 1)
    | _ =>
      match regexRest rest with
      | some length =>
        if regexAllowed (nearby window) then span o.strings .literal length else ([.code c], 0)
      | none => ([.code c], 0)
  else ([.code c], 0)

/-- The pieces of a script; `window` holds the pieces before, nearest first, and the first `skip`
characters are already covered. -/
def scanPieces (o : MaskOptions) (inner : Text → Masked) :
    (window : List Piece) → (skip : Nat) → Text → List Piece
  | _, _, [] => []
  | window, skip + 1, _ :: rest => scanPieces o inner window skip rest
  | window, 0, c :: rest =>
    let (new, covered) := headPieces o inner window c rest
    new ++ scanPieces o inner (new.reverse ++ window) covered rest

/-- Masks a script whose templates nest at most `depth` deep; deeper ones stay as they are. -/
def maskWithin (o : MaskOptions) : (depth : Nat) → Text → Masked
  | 0, code => ⟨code, []⟩
  | depth + 1, code =>
    let (text, spans) := Piece.assemble 0 (scanPieces o (maskWithin o depth) [] 0 code)
    ⟨text, spans⟩

/-- Hides the spans that the options name. Every template inside a substitution is shorter than
the script, so the length of the script bounds the nesting. -/
def mask (o : MaskOptions) (code : Text) : Masked := maskWithin o (code.length + 1) code

/-- The script without its comments. -/
def stripComments (code : Text) : Outcome Text := (mask .all code).restoreDropping

/-- The line with every run of spaces and tabs squeezed to one space. -/
def squeeze : Text → Text
  | [] => []
  | c :: rest =>
    if c == ' ' || c == '\t' then
      match squeeze rest with
      | ' ' :: tail => ' ' :: tail
      | tail => ' ' :: tail
    else c :: squeeze rest

/-- The script without blank lines, indentation and runs of spaces. Line breaks stay, because they
may end statements; literals are not touched. -/
def collapseWhitespace (code : Text) : Outcome Text :=
  let m := mask ⟨true, .hidden, false⟩ code
  let kept := (m.text.lines.map fun l => (squeeze l).trim).filter (!·.isEmpty)
  m.restoreText (Text.unlines kept)

end HostScript.Script
