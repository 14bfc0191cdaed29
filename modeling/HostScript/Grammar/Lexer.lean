import HostScript.Grammar.Regex
import HostScript.Text.Basic

/-!
# Tokens of a script

The units that the grammar of scripts speaks about, each with the line on which it ends.
-/

namespace HostScript.Grammar

/-- The kinds of tokens. -/
inductive TokenKind where
  | boolean
  | eof
  | identifier
  | keyword
  | null
  | number
  | punctuator
  | string
  | regex
  | template
  deriving DecidableEq

/-- A token. -/
structure Token where
  kind : TokenKind
  /-- The text of a word or punctuator, what a string stands for, and a piece of a template as
  written. -/
  value : Text
  /-- The line on which the token ends. -/
  line : Nat
  /-- Whether a number or string uses the old octal notation. -/
  octal : Bool := false
  /-- Whether a piece of a template is its first. -/
  head : Bool := false
  /-- Whether a piece of a template is its last. -/
  tail : Bool := false
  /-- A string as written between its quotes. -/
  written : Text := []

/-- The words that cannot be identifiers. -/
def keywords : List String :=
  ["if", "in", "do", "var", "for", "new", "try", "let", "this", "else", "case", "void", "with",
    "enum", "while", "break", "catch", "throw", "const", "yield", "class", "super", "return",
    "typeof", "delete", "switch", "export", "import", "default", "finally", "extends", "function",
    "continue", "debugger", "instanceof"]

/-- The words that cannot be identifiers in strict code. -/
def strictWords : List String :=
  ["implements", "interface", "package", "private", "protected", "public", "static", "yield",
    "let"]

/-- Whether a text is one of some words. -/
def isOneOf (words : List String) (t : Text) : Bool := words.any (·.toList == t)

/-- Whether strict code reserves a word. -/
def isStrictWord (t : Text) : Bool := isOneOf strictWords t

/-- Whether strict code protects a name from being bound. -/
def isRestricted (t : Text) : Bool := isOneOf ["eval", "arguments"] t

/-- The kind of a word. -/
def wordKind (t : Text) : TokenKind :=
  if isOneOf keywords t then .keyword
  else if t == "null".toList then .null
  else if isOneOf ["true", "false"] t then .boolean
  else .identifier

namespace Token

/-- A token without any of the marks. -/
def of (kind : TokenKind) (value : Text) (line : Nat) : Token :=
  { kind := kind, value := value, line := line }

/-- Whether a token is a given punctuator. -/
def isPunctuator (t : Token) (s : String) : Bool := t.kind == .punctuator && t.value == s.toList

/-- Whether a token is a given keyword. -/
def isKeyword (t : Token) (s : String) : Bool := t.kind == .keyword && t.value == s.toList

/-- Whether a token is an identifier that has a meaning in its place. -/
def isWord (t : Token) (s : String) : Bool := t.kind == .identifier && t.value == s.toList

/-- Whether a token can name a member. -/
def isName (t : Token) : Bool :=
  t.kind == .identifier || t.kind == .keyword || t.kind == .boolean || t.kind == .null

/-- Whether a token can start the key of a property. -/
def isPropertyKey (t : Token) : Bool :=
  t.isName || t.kind == .string || t.kind == .number || t.isPunctuator "["

end Token

end HostScript.Grammar

/-!
## Cutting a script into tokens

A lexer stands at a place of a script. It passes over white space and comments, and reads one
token. Whether a slash starts a regular expression is for the grammar to say, so those have a
reader of their own. A malformed token is reported by its line.
-/

namespace HostScript.Grammar

/-- A place in a script. -/
structure Lexer where
  rest : Text
  /-- Whether nothing was read before. -/
  atStart : Bool
  line : Nat
  /-- The open braces, innermost first: whether each opens a substitution of a template. -/
  braces : List Bool

/-- What kind of text is passed over. -/
inductive Trivia where
  | blank
  /-- A comment up to the end of its line, and whether a line counts as fresh after it. -/
  | line (fresh : Bool)
  | block

/-- Passes over white space and comments. A line is fresh while it holds nothing else; only there
an arrow `-->` starts a comment. -/
def skipTrivia (braces : List Bool) : Trivia → (fresh : Bool) → (line : Nat) → Text →
    Except Nat Lexer
  | .block, _, line, [] => .error line
  | _, _, line, [] => .ok ⟨[], false, line, braces⟩
  | .blank, _, line, '\r' :: '\n' :: rest => skipTrivia braces .blank true (line + 1) rest
  | .blank, _, line, '/' :: '/' :: rest => skipTrivia braces (.line true) false line rest
  | .blank, fresh, line, '/' :: '*' :: rest => skipTrivia braces .block fresh line rest
  | .blank, fresh, line, '<' :: '!' :: '-' :: '-' :: rest =>
    skipTrivia braces (.line fresh) fresh line rest
  | .blank, true, line, '-' :: '-' :: '>' :: rest => skipTrivia braces (.line true) true line rest
  | .blank, fresh, line, c :: rest =>
    if separatesTokens c then skipTrivia braces .blank fresh line rest
    else if breaksLine c then skipTrivia braces .blank true (line + 1) rest
    else .ok ⟨c :: rest, false, line, braces⟩
  | .line after, _, line, '\r' :: '\n' :: rest => skipTrivia braces .blank after (line + 1) rest
  | .line after, fresh, line, c :: rest =>
    if breaksLine c then skipTrivia braces .blank after (line + 1) rest
    else skipTrivia braces (.line after) fresh line rest
  | .block, fresh, line, '*' :: '/' :: rest => skipTrivia braces .blank fresh line rest
  | .block, fresh, line, '\r' :: '\n' :: rest => skipTrivia braces .block fresh (line + 1) rest
  | .block, fresh, line, c :: rest =>
    skipTrivia braces .block fresh (if breaksLine c then line + 1 else line) rest

/-- The place after white space and comments. -/
def Lexer.skip (x : Lexer) : Except Nat Lexer :=
  skipTrivia x.braces .blank x.atStart x.line x.rest

/-- The length of the escape of a code point after its opening brace: some digits and a closing
brace. -/
def bracedEscape? (t : Text) : Option (Nat × Nat) :=
  let digits := t.takeWhile isHexDigit
  if digits.isEmpty || basedValue 16 digits > 0x10FFFF then none
  else match t.drop digits.length with
    | '\x7d' :: _ => some (basedValue 16 digits, digits.length + 1)
    | _ => none

/-- The code point and length of an escape after its backslash and letter. -/
def unicodeEscape? : Text → Option (Nat × Nat)
  | '\x7b' :: rest => (bracedEscape? rest).map fun (n, k) => (n, k + 1)
  | rest =>
    let digits := rest.take 4
    if digits.length == 4 && digits.all isHexDigit then some (basedValue 16 digits, 4) else none

/-- Whether two hexadecimal digits come first. -/
def startsHexPair : Text → Bool
  | a :: b :: _ => isHexDigit a && isHexDigit b
  | _ => false

/-- The rest of an identifier with escapes: its text and what follows. The first character has to
start an identifier; a code point in braces is taken as it is. -/
def escapedName (first : Bool) : (fuel : Nat) → Text → Option (Text × Text)
  | 0, _ => none
  | fuel + 1, '\\' :: 'u' :: rest =>
    match unicodeEscape? rest with
    | none => none
    | some (n, k) =>
      let c := Char.ofNat n
      let braced := rest.head? == some '\x7b'
      if braced || (if first then startsIdentifier c else continuesIdentifier c) then
        (escapedName false fuel (rest.drop k)).map fun (name, after) => (c :: name, after)
      else none
  | _ + 1, '\\' :: _ => none
  | _ + 1, [] => some ([], [])
  | fuel + 1, c :: rest =>
    if continuesIdentifier c then
      (escapedName false fuel rest).map fun (name, after) => (c :: name, after)
    else some ([], c :: rest)

/-- Reads a word. A keyword may not be written with escapes. -/
def Lexer.word (x : Lexer) : Except Nat (Token × Lexer) :=
  let plain := x.rest.takeWhile continuesIdentifier
  match x.rest.drop plain.length with
  | '\\' :: _ =>
    match escapedName true (x.rest.length + 1) x.rest with
    | none => .error x.line
    | some (name, after) =>
      if wordKind name == .identifier then
        .ok (.of .identifier name x.line, { x with rest := after })
      else .error x.line
  | after => .ok (.of (wordKind plain) plain x.line, { x with rest := after })

/-- What follows the digits of a number must not run on into a word. -/
def endsNumber (stop : CharSet) (t : Text) : Bool :=
  !t.head?.any fun c => startsIdentifier c || c == '\\' || stop c

/-- The number of characters of a number in a base with digits of its own, marked by a letter. -/
def basedNumber? (digit stop : CharSet) (t : Text) : Option Text :=
  let digits := (t.drop 2).takeWhile digit
  let after := (t.drop 2).drop digits.length
  if !digits.isEmpty && endsNumber stop after then some after else none

/-- What follows the exponent of a number, if it has digits. -/
def afterExponent? (t : Text) : Option Text :=
  match t with
  | c :: rest =>
    if c == 'e' || c == 'E' then
      let rest := match rest with
        | s :: more => if s == '+' || s == '-' then more else rest
        | [] => rest
      if rest.head?.any Char.isDigit then some (rest.dropWhile Char.isDigit) else none
    else some t
  | [] => some t

/-- What follows a decimal number. -/
def decimalNumber? (t : Text) : Option Text :=
  let t := t.dropWhile Char.isDigit
  let t := match t with
    | '.' :: rest => rest.dropWhile Char.isDigit
    | _ => t
  match afterExponent? t with
  | some after => if endsNumber (fun _ => false) after then some after else none
  | none => none

/-- Whether digits after a leading zero make an octal number: none of them is an eight or nine. -/
def isOldOctal (t : Text) : Bool :=
  t.head?.any isOctalDigit && !((t.dropWhile isOctalDigit).head?.any fun c => c == '8' || c == '9')

/-- What follows a number, and whether it uses the old octal notation. -/
def number? (t : Text) : Option (Text × Bool) :=
  match t with
  | '0' :: c :: rest =>
    if c == 'x' || c == 'X' then (basedNumber? isHexDigit (fun _ => false) t).map (·, false)
    else if c == 'b' || c == 'B' then
      (basedNumber? (between '0' '1') Char.isDigit t).map (·, false)
    else if c == 'o' || c == 'O' then (basedNumber? isOctalDigit Char.isDigit t).map (·, false)
    else if isOldOctal (c :: rest) then
      let after := (c :: rest).dropWhile isOctalDigit
      if endsNumber Char.isDigit after then some (after, true) else none
    else (decimalNumber? t).map (·, false)
  | _ => (decimalNumber? t).map (·, false)

/-- Reads a number. -/
def Lexer.number (x : Lexer) : Except Nat (Token × Lexer) :=
  match number? x.rest with
  | some (after, octal) =>
    .ok ({ Token.of .number [] x.line with octal := octal }, { x with rest := after })
  | none => .error x.line

/-- The progress of a string literal: what it stands for and its text as written so far, both
reversed, whether an octal escape occurred, and the line. -/
structure StringScan where
  value : Text
  written : Text
  octal : Bool
  line : Nat

/-- Takes an escape into a string literal: what it stands for and how it is written. -/
def StringScan.add (s : StringScan) (value written : Text) : StringScan :=
  { s with value := value.reverse ++ s.value, written := written.reverse ++ s.written }

/-- The character that a letter stands for behind a backslash. -/
def escapedLetter (c : Char) : Char :=
  match c with
  | 'n' => '\n'
  | 'r' => '\r'
  | 't' => '\t'
  | 'b' => '\x08'
  | 'v' => '\x0b'
  | 'f' => '\x0c'
  | _ => c

/-- The octal digits of an escape: three if the first is at most three, otherwise two. -/
def octalDigits (t : Text) : Text :=
  let most := if t.head?.any (· ≤ '3') then 3 else 2
  (t.take most).takeWhile isOctalDigit

/-- What the escape at the start of a text stands for, behind its backslash, and its length; none
if it is malformed. -/
def stringEscape? (t : Text) : Option (Text × Nat) :=
  match t with
  | [] => none
  | 'u' :: rest => (unicodeEscape? rest).map fun (n, length) => ([Char.ofNat n], length + 1)
  | 'x' :: rest =>
    if startsHexPair rest then some ([Char.ofNat (basedValue 16 (rest.take 2))], 3) else none
  | '\r' :: '\n' :: _ => some ([], 2)
  | c :: _ =>
    if c == '8' || c == '9' then none
    else if isOctalDigit c then
      let digits := octalDigits t
      some ([Char.ofNat (basedValue 8 digits)], digits.length)
    else if breaksLine c then some ([], 1)
    else some ([escapedLetter c], 1)

/-- Whether the escape at the start of a text uses the old octal notation. -/
def isOctalEscape (t : Text) : Bool :=
  let digits := octalDigits t
  !digits.isEmpty && digits != ['0']

/-- Reads a string literal after its opening quote; the first `skip` characters belong to an
escape. -/
def stringBody (quote : Char) : (skip : Nat) → StringScan → Text → Except Nat (StringScan × Text)
  | _, s, [] => .error s.line
  | skip + 1, s, _ :: rest => stringBody quote skip s rest
  | 0, s, '\\' :: rest =>
    match stringEscape? rest with
    | some (value, length) =>
      let s := { s with
        octal := s.octal || isOctalEscape rest
        line := if rest.head?.any breaksLine then s.line + 1 else s.line }
      stringBody quote length (s.add value ('\\' :: rest.take length)) rest
    | none => .error s.line
  | 0, s, c :: rest =>
    if c == quote then .ok (s, rest)
    else if breaksLine c then .error s.line
    else stringBody quote 0 (s.add [c] [c]) rest

/-- Reads a string literal. -/
def Lexer.string (x : Lexer) (quote : Char) (rest : Text) : Except Nat (Token × Lexer) := do
  let (s, after) ← stringBody quote 0 ⟨[], [], false, x.line⟩ rest
  let t := Token.of .string s.value.reverse s.line
  pure ({ t with octal := s.octal, written := s.written.reverse },
    { x with rest := after, line := s.line })

/-- Reads a piece of a template after its opening backtick or brace: its line, whether it is the
last piece, and what follows. -/
def templateBody : (skip : Nat) → (line : Nat) → Text → Except Nat (Nat × Bool × Text)
  | _, line, [] => .error line
  | skip + 1, line, _ :: rest => templateBody skip line rest
  | 0, line, '\\' :: '\r' :: '\n' :: rest => templateBody 0 (line + 1) rest
  | 0, line, '\\' :: c :: rest =>
    if c == 'u' then
      match unicodeEscape? rest with
      | some (_, k) => templateBody k line rest
      | none => if rest.head? == some '\x7b' then .error line else templateBody 0 line rest
    else if c == 'x' then
      if startsHexPair rest then templateBody 0 line rest else .error line
    else if c == '0' then
      if rest.head?.any Char.isDigit then .error line else templateBody 0 line rest
    else if isOctalDigit c then .error line
    else templateBody 0 (if breaksLine c then line + 1 else line) rest
  | 0, line, '$' :: '\x7b' :: rest => .ok (line, false, rest)
  | 0, line, '\r' :: '\n' :: rest => templateBody 0 (line + 1) rest
  | 0, line, c :: rest =>
    if c == '\x60' then .ok (line, true, rest)
    else templateBody 0 (if breaksLine c then line + 1 else line) rest

/-- Reads a piece of a template. -/
def Lexer.template (x : Lexer) (head : Bool) (rest : Text) : Except Nat (Token × Lexer) := do
  let (line, tail, after) ← templateBody 0 x.line rest
  let below := if head then x.braces else x.braces.drop 1
  let written := rest.take (rest.length - after.length - (if tail then 1 else 2))
  pure ({ Token.of .template written line with head := head, tail := tail },
    ⟨after, false, line, if tail then below else true :: below⟩)

/-- The punctuators of more than one character, the longer ones first. -/
def longPunctuators : List String :=
  [">>>=", "...", "===", "!==", ">>>", "<<=", ">>=", "**=", "&&", "||", "==", "!=", "+=", "-=",
    "*=", "/=", "++", "--", "<<", ">>", "&=", "|=", "^=", "%=", "<=", ">=", "=>", "**"]

/-- Reads a punctuator. -/
def Lexer.punctuator (x : Lexer) : Except Nat (Token × Lexer) :=
  match longPunctuators.find? fun s => s.toList.isPrefixOf x.rest with
  | some s =>
    .ok (.of .punctuator s.toList x.line, { x with rest := x.rest.drop s.length })
  | none =>
    match x.rest with
    | c :: rest =>
      let braces :=
        if c == '\x7b' then false :: x.braces else if c == '\x7d' then x.braces.drop 1 else x.braces
      if among "()\x7b\x7d.;,[]:?~<>=!+-*%&|^/" c then
        .ok (.of .punctuator [c] x.line, ⟨rest, false, x.line, braces⟩)
      else .error x.line
    | [] => .error x.line

/-- Reads a token. -/
def Lexer.token (x : Lexer) : Except Nat (Token × Lexer) :=
  match x.rest with
  | [] => .ok (.of .eof [] x.line, x)
  | c :: rest =>
    if startsIdentifier c || c == '\\' then x.word
    else if c == '\x22' || c == '\x27' then x.string c rest
    else if c.isDigit || (c == '.' && rest.head?.any Char.isDigit) then x.number
    else if c == '\x60' then x.template true rest
    else if c == '\x7d' && x.braces.head? == some true then x.template false rest
    else x.punctuator

/-- The body of a regular expression after its opening slash, and what follows it. -/
def regexBody (inClass : Bool) : Text → Option (Text × Text)
  | [] => none
  | '\\' :: c :: rest =>
    if breaksLine c then none
    else (regexBody inClass rest).map fun (body, after) => ('\\' :: c :: body, after)
  | c :: rest =>
    if breaksLine c then none
    else if c == '/' && !inClass then some ([], rest)
    else
      let inClass := if c == ']' then false else inClass || c == '['
      (regexBody inClass rest).map fun (body, after) => (c :: body, after)

/-- Reads a regular expression. -/
def Lexer.regex (x : Lexer) : Except Nat (Token × Lexer) :=
  match regexBody false (x.rest.drop 1) with
  | none => .error x.line
  | some (body, after) =>
    match after.dropWhile continuesIdentifier with
    | '\\' :: _ => .error x.line
    | rest =>
      if Regex.isWellFormed body then
        .ok (.of .regex [] x.line, { x with rest := rest })
      else .error x.line

/-- The first place of a script. -/
def Lexer.start (code : Text) : Lexer := ⟨code, true, 1, []⟩

end HostScript.Grammar
