import HostScript.Number.Reading
import HostScript.Text.ScriptChar

/-!
# Regular expressions

Which texts between the slashes of a script are regular expressions. Escapes of code points count
as the characters that they stand for. The expression is then read once, symbol by symbol, keeping
what a later symbol depends on: the groups so far, what can be repeated, and the width of what was
read, since a look behind has to know how far to go back.
-/

namespace HostScript.Grammar.Regex

/-- Whether a code point is a character of a set. -/
def isIn (s : CharSet) (n : Nat) : Bool := n.isValidChar && s (Char.ofNat n)

/-! ## Symbols -/

/-- The code point and length of the escape of a code point, behind its backslash. -/
def codeEscape? : Text → Option (Nat × Nat)
  | 'u' :: '\x7b' :: rest =>
    let digits := rest.takeWhile isHexDigit
    match digits, rest.drop digits.length with
    | _ :: _, '\x7d' :: _ =>
      some (basedValue 16 digits, digits.length + 3)
    | _, _ => none
  | 'u' :: rest =>
    let digits := rest.take 4
    if digits.length == 4 && digits.all isHexDigit then
      some (basedValue 16 digits, 5)
    else none
  | _ => none

/-- The code point that stands for all those beyond the first plane. -/
def farPoint : Nat := 0xFFFF

/-- The code points of an expression; its first `skip` characters belong to an escape. None if an
escape is beyond the last code point. -/
def points? : (skip : Nat) → Text → Option (List Nat)
  | _, [] => some []
  | skip + 1, _ :: rest => points? skip rest
  | 0, c :: rest =>
    match if c == '\\' then codeEscape? rest else none with
    | some (n, length) =>
      if n > 0x10FFFF then none
      else (points? length rest).map ((if n > farPoint then farPoint else n) :: ·)
    | none => (points? 0 rest).map (c.toNat :: ·)

/-- The code points with each pair of surrogates as one. -/
def joinPairs : List Nat → List Nat
  | high :: low :: rest =>
    if 0xD800 ≤ high && high < 0xDC00 && 0xDC00 ≤ low && low < 0xE000 then
      farPoint :: joinPairs rest
    else high :: joinPairs (low :: rest)
  | rest => rest

/-- A symbol of an expression: a code point that is plain, or one behind a backslash. -/
structure Symbol where
  escaped : Bool
  point : Nat
  deriving DecidableEq

/-- The plain symbol of a character. -/
def Symbol.of (c : Char) : Symbol := ⟨false, c.toNat⟩

/-- Whether a symbol is a plain character of a set. -/
def Symbol.isIn (s : Symbol) (set : CharSet) : Bool := !s.escaped && Regex.isIn set s.point

/-- The symbols of code points; none if a backslash is the last of them. -/
def symbols? : List Nat → Option (List Symbol)
  | [] => some []
  | [n] => if n == '\\'.toNat then none else some [⟨false, n⟩]
  | n :: m :: rest =>
    if n == '\\'.toNat then (symbols? rest).map (⟨true, m⟩ :: ·)
    else (symbols? (m :: rest)).map (⟨false, n⟩ :: ·)

/-! ## Widths and items -/

/-- How many characters a part can match: at least, and at most if there is a bound. -/
structure Width where
  least : Nat
  most : Option Nat

namespace Width

/-- The width of what matches no character. -/
def zero : Width := ⟨0, some 0⟩

/-- The width of one character. -/
def one : Width := ⟨1, some 1⟩

/-- The width of two parts in a row. -/
def append (a b : Width) : Width :=
  ⟨a.least + b.least, match a.most, b.most with
    | some m, some n => some (m + n)
    | _, _ => none⟩

/-- The width of one of two parts. -/
def either (a b : Width) : Width :=
  ⟨min a.least b.least, match a.most, b.most with
    | some m, some n => some (max m n)
    | _, _ => none⟩

/-- The width of a part that is repeated. -/
def times (a : Width) (least : Nat) (most : Option Nat) : Width :=
  ⟨a.least * least, match a.most, most with
    | some 0, _ => some 0
    | _, some 0 => some 0
    | some m, some n => some (m * n)
    | _, _ => none⟩

/-- Whether a look behind can go back by a width: it is fixed and below a bound. -/
def isFixed (a : Width) : Bool := a.most == some a.least && a.least < 0x80000000

end Width

/-- An item of an expression, as far as a quantifier behind it depends on it. -/
inductive Item where
  /-- A place between characters. -/
  | place
  | repeated (width : Width)
  | part (width : Width)

/-- The width of an item. -/
def Item.width : Item → Width
  | .place => .zero
  | .repeated w => w
  | .part w => w

/-- Items in a row: the width of all but the last, and the last. -/
structure Row where
  before : Width := .zero
  last : Option Item := none

/-- The width of a row. -/
def Row.width (r : Row) : Width := r.before.append ((r.last.map Item.width).getD .zero)

/-- A row with one more item. -/
def Row.add (r : Row) (item : Item) : Row := ⟨r.width, some item⟩

/-- A row whose last item is replaced. -/
def Row.replaceLast (r : Row) (item : Item) : Row := { r with last := some item }

/-! ## Reading -/

/-- How far an expression is read. -/
structure Progress where
  rest : List Symbol
  /-- The widths of the groups in order; an open group has none yet. -/
  groups : List (Option Width) := []
  names : List (List Nat × Nat) := []
  /-- The number of groups before the outermost look behind around the place. -/
  behind : Option Nat := none
  /-- The numbers of groups that conditions ask for. -/
  asked : List Nat := []
  /-- The flags of the whole expression. -/
  flags : Text := []

/-- A reading step; it fails where the expression is malformed. -/
abbrev Reader := StateT Progress Option

/-- The next symbol. -/
def next? : Reader (Option Symbol) := return (← get).rest.head?

/-- Passes over the next symbol and gives it. -/
def take? : Reader (Option Symbol) := do
  let p ← get
  set { p with rest := p.rest.tail }
  pure p.rest.head?

/-- Passes over the next symbol, which must exist, and gives it. -/
def take : Reader Symbol := do
  match ← take? with
  | some s => pure s
  | none => failure

/-- Passes over a plain character if it is next; tells whether it was. -/
def accept (c : Char) : Reader Bool := do
  if (← next?) == some (.of c) then
    let _ ← take?
    pure true
  else pure false

/-- Passes over a plain character, which must be next. -/
def expect (c : Char) : Reader Unit := do
  if ← accept c then pure () else failure

/-- Fails unless a condition holds. -/
def need (b : Bool) : Reader Unit := if b then pure () else failure

/-- Passes over plain characters of a set, at most `limit`, and gives them. -/
def takeSome (set : CharSet) (limit : Nat) : Reader Text := do
  let p ← get
  let found := (p.rest.take limit).takeWhile (·.isIn set)
  modify fun p => { p with rest := p.rest.drop found.length }
  pure (found.map fun s => Char.ofNat s.point)

/-- Passes over all plain characters of a set that come next, and gives them. -/
def takeAll (set : CharSet) : Reader Text := do takeSome set (← get).rest.length

/-- Reads a code point in an exact number of hexadecimal digits. -/
def hexPoint (count : Nat) : Reader Nat := do
  let digits ← takeSome isHexDigit count
  need (digits.length == count)
  let n := basedValue 16 digits
  need (n ≤ 0x10FFFF)
  pure n

/-- Reads a name up to a plain character. -/
def nameUpTo (c : Char) : Reader (List Nat) := do
  let p ← get
  let found := p.rest.takeWhile (· != .of c)
  need (!found.isEmpty && found.all (!·.escaped) && found.length < p.rest.length)
  set { p with rest := p.rest.drop (found.length + 1) }
  pure (found.map (·.point))

/-- Whether code points make an identifier. -/
def isIdentifier : List Nat → Bool
  | [] => false
  | n :: rest =>
    let plain (s : CharSet) : CharSet := fun c => c != '$' && s c
    isIn (plain startsIdentifier) n && rest.all (isIn (plain continuesIdentifier))

/-- Reads the name of a group up to a plain character. -/
def groupName (c : Char) : Reader (List Nat) := do
  let name ← nameUpTo c
  need (isIdentifier name)
  pure name

/-! ## Groups -/

/-- The number of a group by its name. -/
def groupNamed (name : List Nat) : Reader Nat := do
  match (← get).names.find? (·.1 == name) with
  | some (_, number) => pure number
  | none => failure

/-- The width of a group that is closed. -/
def closedWidth (number : Nat) : Reader Width := do
  match (← get).groups[number - 1]? with
  | some (some w) => pure w
  | _ => failure

/-- Fails if a look behind around the place forbids to ask for a group: the group is open, or
inside the look behind as well. -/
def needOutside (number : Nat) : Reader Unit := do
  match (← get).behind with
  | some first =>
    let _ ← closedWidth number
    need (number ≤ first)
  | none => pure ()

/-- Refers to a group. -/
def backreference (number : Nat) : Reader Item := do
  let w ← closedWidth number
  needOutside number
  pure (.part w)

/-- Opens a group and gives its number. -/
def openGroup (name : Option (List Nat)) : Reader Nat := do
  let p ← get
  let number := p.groups.length + 1
  match name with
  | some n =>
    need (p.names.all (·.1 != n))
    set { p with groups := p.groups ++ [none], names := (n, number) :: p.names }
  | none => set { p with groups := p.groups ++ [none] }
  pure number

/-- Closes a group. -/
def closeGroup (number : Nat) (w : Width) : Reader Unit :=
  modify fun p => { p with groups := p.groups.set (number - 1) (some w) }

/-! ## Characters and classes -/

/-- Reads the rest of a numbered reference or octal escape that starts with a digit other than
zero. -/
def numbered (first : Nat) : Reader Item := do
  let second ← takeSome Char.isDigit 1
  let digits := Char.ofNat first :: second
  let third ← if digits.length == 2 && digits.all isOctalDigit then takeSome isOctalDigit 1
    else pure []
  if third.isEmpty then backreference (basedValue 10 digits)
  else
    need (basedValue 8 (digits ++ third) ≤ 255)
    pure (.part .one)

/-- The code point of an escape that means the same everywhere; none if the escape has another
meaning. A letter without a meaning is malformed. -/
def commonEscape (n : Nat) : Reader (Option Nat) := do
  if isIn (among "afnrtv") n then pure (some 0)
  else if n == 'x'.toNat then some <$> hexPoint 2
  else if n == 'u'.toNat then some <$> hexPoint 4
  else if n == 'U'.toNat then some <$> hexPoint 8
  else if isIn isAsciiLetter n then failure
  else if isIn Char.isDigit n then pure none
  else pure (some n)

/-- The control character that a letter stands for; other code points stand for themselves. -/
def controlPoint (n : Nat) : Nat :=
  match "abfnrtv".toList.zip [7, 8, 12, 10, 13, 9, 11] |>.find? (·.1.toNat == n) with
  | some (_, point) => point
  | none => n

/-- Reads the rest of an escape outside of a class. -/
def escape (n : Nat) : Reader Item := do
  if isIn (among "AbBZ") n then pure .place
  else if isIn (among "dDsSwW") n then pure (.part .one)
  else match ← commonEscape n with
    | some _ => pure (.part .one)
    | none =>
      if n == '0'.toNat then
        let _ ← takeSome isOctalDigit 2
        pure (.part .one)
      else numbered n

/-- Reads a member of a class that starts with a symbol: its code point, or none for a category. -/
def classMember (s : Symbol) : Reader (Option Nat) := do
  if !s.escaped then pure (some s.point)
  else if isIn (among "dDsSwW") s.point then pure none
  else if isIn (among "abfnrtv") s.point then pure (some (controlPoint s.point))
  else match ← commonEscape s.point with
    | some n => pure (some n)
    | none =>
      need (isIn isOctalDigit s.point)
      let more ← takeSome isOctalDigit 2
      let n := basedValue 8 (Char.ofNat s.point :: more)
      need (n ≤ 255)
      pure (some n)

/-- Reads the members of a class up to its closing bracket, which cannot be the first member. -/
def classMembers : (fuel : Nat) → (first : Bool) → Reader Unit
  | 0, _ => failure
  | fuel + 1, first => do
    let s ← take
    if s == .of ']' && !first then pure ()
    else
      let low ← classMember s
      if ← accept '-' then
        let t ← take
        if t == .of ']' then pure ()
        else
          let high ← classMember t
          match low, high with
          | some l, some h =>
            need (l ≤ h)
            classMembers fuel false
          | _, _ => failure
      else classMembers fuel false

/-- Reads a class after its opening bracket. -/
def characterClass : Reader Item := do
  let _ ← accept '^'
  classMembers ((← get).rest.length + 1) true
  pure (.part .one)

/-! ## Quantifiers -/

/-- The bound below which a count of repetitions has to stay. -/
def maxCount : Nat := 0xFFFFFFFF

/-- Reads a bound of a quantifier; none if it is left out. -/
def bound : Reader (Option Nat) := do
  let digits ← takeAll Char.isDigit
  if digits.isEmpty then pure none else pure (some (basedValue 10 digits))

/-- Reads bounds in braces after the opening brace; none if the brace stands for itself. -/
def bounds? : Reader (Option (Nat × Option Nat)) := do
  let start ← get
  if (← next?) == some (.of '\x7d') then pure none
  else
    let low ← bound
    let high ← if ← accept ',' then bound else pure low
    if ← accept '\x7d' then
      need ((low.getD 0) < maxCount && (high.getD 0) < maxCount)
      need (high.all (low.getD 0 ≤ ·))
      pure (some (low.getD 0, high))
    else
      set start
      pure none

/-- Repeats the last item of a row. An item can be repeated once, and a place not at all. -/
def quantify (row : Row) (least : Nat) (most : Option Nat) : Reader Row := do
  match row.last with
  | some (.part w) =>
    need (!(← get).flags.contains 't')
    if !(← accept '?') then
      let _ ← accept '+'
    pure (row.replaceLast (.repeated (w.times least most)))
  | _ => failure

/-! ## Parentheses -/

/-- What an opening parenthesis starts. -/
inductive Opening where
  /-- A comment, which is complete. -/
  | comment
  /-- Flags of the whole expression, which are complete. -/
  | flags
  /-- A reference to a group by its name, which is complete. -/
  | reference (item : Item)
  | group (name : Option (List Nat)) (captures : Bool) (verbose : Bool)
  | look (behind : Bool)
  /-- A choice that depends on whether a group took part. -/
  | choice

/-- The letters of flags. -/
def isFlag : CharSet := among "imsxatuL"

/-- Reads letters of flags up to one of some plain characters; gives the letters and the
character. -/
def flagLetters (ends : CharSet) : Reader (Text × Char) := do
  let letters ← takeAll isFlag
  let s ← take
  need (!letters.isEmpty && s.isIn ends)
  pure (letters, Char.ofNat s.point)

/-- Whether flags say twice which characters are letters, or say it in a way that is not
supported. -/
def conflicts (flags : Text) : Bool :=
  flags.contains 'L' || (flags.contains 'a' && flags.contains 'u')

/-- Reads flags after a question mark: of the whole expression, or of a group. -/
def flagOpening (verbose : Bool) : Reader Opening := do
  let (on, mark) ← if ← accept '-' then pure ([], '-')
    else flagLetters (among ")-:")
  need (!conflicts on)
  if mark == ')' then
    modify fun p => { p with flags := p.flags ++ on }
    pure .flags
  else
    let (off, _) ← if mark == '-' then flagLetters (among ":") else pure ([], ':')
    need (!on.contains 't' && !off.any (among "tauL"))
    need (!on.any (off.contains ·))
    pure (.group none false ((verbose || on.contains 'x') && !off.contains 'x'))

/-- Asks for the group of a choice, by its name or number. -/
def choiceGroup : Reader Unit := do
  let name ← nameUpTo ')'
  if isIdentifier name then needOutside (← groupNamed name)
  else
    need (name.all Nat.isValidChar)
    match Number.readInt (name.map Char.ofNat) with
    | .ok n =>
      need (0 < n)
      modify fun p => { p with asked := n.toNat :: p.asked }
      needOutside n.toNat
    | .error _ => failure

/-- Passes over a comment up to its closing parenthesis. -/
def comment : Reader Unit := do
  let p ← get
  let text := p.rest.takeWhile (· != .of ')')
  need (text.length < p.rest.length)
  set { p with rest := p.rest.drop (text.length + 1) }

/-- Reads what an opening parenthesis starts, up to the contents. -/
def opening (verbose : Bool) : Reader Opening := do
  if !(← accept '?') then pure (.group none true verbose)
  else if ← accept 'P' then
    if ← accept '<' then
      let name ← groupName '>'
      pure (.group (some name) true verbose)
    else
      expect '='
      let name ← groupName ')'
      .reference <$> backreference (← groupNamed name)
  else if (← accept ':') || (← accept '>') then pure (.group none false verbose)
  else if ← accept '#' then
    comment
    pure .comment
  else if (← accept '=') || (← accept '!') then pure (.look false)
  else if ← accept '<' then
    if !(← accept '=') then expect '!'
    pure (.look true)
  else if ← accept '(' then
    choiceGroup
    pure .choice
  else flagOpening verbose

/-- Reads a part inside a look behind. -/
def inLookBehind (behind : Bool) (p : Reader Width) : Reader Width := do
  let before ← get
  if behind && before.behind.isNone then
    modify fun s => { s with behind := some s.groups.length }
  let w ← p
  modify fun s => { s with behind := before.behind }
  need (!behind || w.isFixed)
  pure w

/-! ## The expression -/

/-- Passes over a comment that runs up to the end of its line. -/
def lineComment : Reader Unit := do
  let p ← get
  set { p with rest := (p.rest.dropWhile (· != Symbol.of '\n')).tail }

/-- Whether a symbol is a blank between the items of a verbose expression. -/
def isLayout (s : Symbol) : Bool := s.isIn fun c => [9, 10, 11, 12, 13, 32].contains c.toNat

mutual

/-- Reads alternatives up to a closing parenthesis or the end. -/
def alternatives : (fuel : Nat) → (verbose top first : Bool) → Reader Width
  | 0, _, _, _ => failure
  | fuel + 1, verbose, top, first => do
    let row ← items fuel verbose (top && first) {}
    if ← accept '|' then
      let flags := (← get).flags
      let verbose := if top then flags.contains 'x' else verbose
      let others ← alternatives fuel verbose top false
      pure (row.width.either others)
    else pure row.width

/-- Reads items behind those of a row, up to a bar, a closing parenthesis or the end; flags of the
whole expression may stand only at its start. -/
def items : (fuel : Nat) → (verbose first : Bool) → Row → Reader Row
  | 0, _, _, _ => failure
  | fuel + 1, verbose, first, row => do
    match ← next? with
    | none => pure row
    | some s =>
      if s == .of '|' || s == .of ')' then pure row
      else
        let _ ← take
        let continue_ (item : Item) : Reader Row := items fuel verbose first (row.add item)
        let repeat_ (least : Nat) (most : Option Nat) : Reader Row := do
          items fuel verbose first (← quantify row least most)
        if verbose && isLayout s then items fuel verbose first row
        else if verbose && s == .of '#' then
          lineComment
          items fuel verbose first row
        else if s.escaped then continue_ (← escape s.point)
        else if s == .of '[' then continue_ (← characterClass)
        else if s == .of '?' then repeat_ 0 (some 1)
        else if s == .of '*' then repeat_ 0 none
        else if s == .of '+' then repeat_ 1 none
        else if s == .of '\x7b' then
          match ← bounds? with
          | some (least, most) => repeat_ least most
          | none => continue_ (.part .one)
        else if s == .of '^' || s == .of '$' then continue_ .place
        else if s == .of '(' then
          match ← opening verbose with
          | .comment => items fuel verbose first row
          | .flags =>
            need (first && row.last.isNone)
            items fuel ((← get).flags.contains 'x') first row
          | .reference item => continue_ item
          | .group name captures inner =>
            let number ← if captures then openGroup name else pure 0
            let w ← alternatives fuel inner false false
            expect ')'
            if captures then closeGroup number w
            continue_ (.part w)
          | .look behind =>
            let _ ← inLookBehind behind (alternatives fuel verbose false false)
            expect ')'
            continue_ (.part .zero)
          | .choice =>
            let yes ← items fuel verbose false {}
            let no ← if ← accept '|' then items fuel verbose false {} else pure {}
            expect ')'
            continue_ (.part (yes.width.either no.width))
        else continue_ (.part .one)

end

/-- Reads a whole expression. -/
def expression : Reader Unit := do
  let _ ← alternatives (3 * (← get).rest.length + 3) false true true
  let p ← get
  need (p.rest.isEmpty && p.asked.all (· ≤ p.groups.length) && !conflicts p.flags)

/-- Whether a text is a regular expression. -/
def isWellFormed (body : Text) : Bool :=
  match (points? 0 body).bind fun ps => symbols? (joinPairs ps) with
  | some symbols => (expression.run { rest := symbols }).isSome
  | none => false

end HostScript.Grammar.Regex
