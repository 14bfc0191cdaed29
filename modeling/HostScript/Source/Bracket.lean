import HostScript.Fault

/-!
# Brackets outside string literals

Counting and matching of brackets, and splitting at separators that no bracket encloses. Only
characters outside string literals count.
-/

namespace HostScript.Source

/-- Whether a character opens a string literal. -/
def isStringQuote : CharSet := fun c => c == '\x22' || c == '\x27' || c == '\x60'

/-- The characters outside string literals with their offsets, from a place inside or outside a
literal on. -/
def codeCharsFrom : (pos : Nat) → (quote : Option Char) → Text → List (Nat × Char)
  | _, _, [] => []
  | pos, none, c :: rest =>
    if isStringQuote c then codeCharsFrom (pos + 1) (some c) rest
    else (pos, c) :: codeCharsFrom (pos + 1) none rest
  | _, some _, ['\\'] => []
  | pos, some q, '\\' :: _ :: rest => codeCharsFrom (pos + 2) (some q) rest
  | pos, some q, c :: rest => codeCharsFrom (pos + 1) (if c == q then none else some q) rest

/-- The characters outside string literals with their offsets. -/
def codeChars (t : Text) : List (Nat × Char) := codeCharsFrom 0 none t

/-- The opening braces less the closing ones, outside string literals. -/
def braceDelta (t : Text) : Int :=
  (codeChars t).foldl
    (fun n (_, c) => if c == '\x7b' then n + 1 else if c == '\x7d' then n - 1 else n) 0

/-- The bracket that closes another. -/
def closerOf? (c : Char) : Option Char :=
  if c == '(' then some ')' else if c == '[' then some ']' else if c == '\x7b' then some '\x7d'
  else none

/-- The offset of the first place where `closer` brings the count of open brackets to zero. -/
def balanceAt? (opener closer : Char) : (depth : Int) → List (Nat × Char) → Option Nat
  | _, [] => none
  | depth, (pos, c) :: rest =>
    if c == opener then balanceAt? opener closer (depth + 1) rest
    else if c == closer then
      if depth - 1 == 0 then some pos else balanceAt? opener closer (depth - 1) rest
    else balanceAt? opener closer depth rest

/-- The offset of the bracket that closes the one at an offset, strings left out. -/
def closing? (t : Text) (open_ : Nat) : Option Nat :=
  match t.drop open_ with
  | [] => none
  | c :: rest =>
    (closerOf? c).bind fun closer =>
      (balanceAt? c closer 0 (codeChars (c :: rest))).map (open_ + ·)

/-- The characters of a text with their offsets. -/
def indexed (pos : Nat) : Text → List (Nat × Char)
  | [] => []
  | c :: rest => (pos, c) :: indexed (pos + 1) rest

/-- The offset of the bracket that closes the one at an offset, in a text without strings. -/
def blockEnd? (t : Text) (open_ : Nat) : Option Nat :=
  match t.drop open_ with
  | [] => none
  | c :: rest =>
    (closerOf? c).bind fun closer => balanceAt? c closer 0 (indexed open_ (c :: rest))

/-- The character at an offset that may count from the end. -/
def charAt? (t : Text) (i : Int) : Option Char :=
  if i < 0 then (if i + t.length < 0 then none else t[(i + t.length).toNat]?) else t[i.toNat]?

/-- The opening bracket at an offset that may count from the end, with its partner. -/
def bracketAt (t : Text) (i : Int) : Outcome (Char × Char) :=
  match charAt? t i with
  | none => .error .outOfRange
  | some c =>
    match closerOf? c with
    | none => .error .missingKey
    | some closer => .ok (c, closer)

/-- `closing?` for an offset that may count from the end, in the same count; -1 if there is no
closing bracket. -/
def closingFrom (t : Text) (i : Int) : Outcome Int := do
  let (opener, closer) ← bracketAt t i
  let tail := t.drop (if i < 0 then (i + t.length).toNat else i.toNat)
  match balanceAt? opener closer 0 (codeChars tail) with
  | some pos => pure (i + pos)
  | none => pure (-1)

/-- `blockEnd?` for an offset that may count from the end. The search then reads the text from
there to its end and once more from its start; -1 if there is no closing bracket. -/
def blockEndFrom (t : Text) (i : Int) : Outcome Int := do
  let (opener, closer) ← bracketAt t i
  let tail := if i < 0 then t.drop (i + t.length).toNat ++ t else t.drop i.toNat
  match balanceAt? opener closer 0 (indexed 0 tail) with
  | some pos => pure (i + pos)
  | none => pure (-1)

/-- How a text is split: the separator and the brackets inside which it does not count. -/
structure SplitRule where
  separator : Text
  openers : Text
  closers : Text

namespace SplitRule

/-- Every other character of a text. -/
def alternate : Text → Text
  | [] => []
  | [c] => [c]
  | c :: _ :: rest => c :: alternate rest

/-- Splitting at a separator, with brackets given as pairs. -/
def ofPairs (separator pairs : Text) : SplitRule :=
  ⟨separator, alternate pairs, alternate (pairs.drop 1)⟩

/-- Splitting at commas outside round, square, curly and angle brackets. -/
def arguments : SplitRule := ofPairs "," "()[]\x7b\x7d<>"

/-- Splitting at commas outside round, square and curly brackets. -/
def conditions : SplitRule := ofPairs "," "()[]\x7b\x7d"

/-- Splitting at colons outside round, square and curly brackets. -/
def entries : SplitRule := ofPairs ":" "()[]\x7b\x7d"

end SplitRule

/-- The offsets of the separators that no bracket encloses. An arrow `->` closes no bracket. -/
def topLevel (rule : SplitRule) (t : Text) : (depth : Nat) → List (Nat × Char) → List Nat
  | _, [] => []
  | depth, (pos, c) :: rest =>
    if rule.openers.contains c then topLevel rule t (depth + 1) rest
    else if rule.closers.contains c && depth > 0 then
      let arrow := c == '>' && pos > 0 && t[pos - 1]? == some '-'
      topLevel rule t (if arrow then depth else depth - 1) rest
    else if [c] == rule.separator && depth == 0 then pos :: topLevel rule t depth rest
    else topLevel rule t depth rest

/-- The trimmed parts between the given offsets; `start` is where the next part starts. -/
def partsAt (t : Text) : (start : Nat) → List Nat → List Text
  | start, [] => [(t.since start).trim]
  | start, pos :: rest => (t.slice start pos).trim :: partsAt t (pos + 1) rest

/-- The trimmed parts of a text between separators that no bracket encloses, without empty ones. -/
def splitTopLevel (rule : SplitRule) (t : Text) : List Text :=
  (partsAt t 0 (topLevel rule t 0 (codeChars t))).filter (!·.isEmpty)

end HostScript.Source
