/-!
# Sets of characters

A set of characters is its membership test. Large sets are given by a table of the code points at
which membership changes: a code point is a member when an odd number of changes lies at or
below it.
-/

namespace HostScript

/-- A set of characters, as its membership test. -/
abbrev CharSet := Char → Bool

/-- The union of two sets. -/
instance : OrOp CharSet := ⟨fun a b c => a c || b c⟩

/-- Membership in the set that changes exactly at the given ascending points. -/
def flipsAt (points : List Nat) (n : Nat) : Bool :=
  (points.takeWhile (· ≤ n)).length % 2 == 1

/-- The last change at or below a point, zero when there is none. -/
def lastFlip (points : List Nat) (n : Nat) : Nat :=
  (points.takeWhile (· ≤ n)).getLast?.getD 0

/-- The characters of a text. -/
def among (s : String) : CharSet := fun c => s.toList.contains c

/-- The characters from one to another, both included. -/
def between (first last : Char) : CharSet := fun c => first ≤ c && c ≤ last

/-- The hexadecimal digits. -/
def isHexDigit : CharSet := fun c =>
  c.isDigit || ('a' ≤ c && c ≤ 'f') || ('A' ≤ c && c ≤ 'F')

/-- The octal digits. -/
def isOctalDigit : CharSet := between '0' '7'

/-- The value of a digit in a base of at most sixteen. -/
def basedDigit (c : Char) : Nat :=
  if c.isDigit then c.toNat - 48 else if 'a' ≤ c then c.toNat - 87 else c.toNat - 55

/-- The value of digits in a base of at most sixteen. -/
def basedValue (base : Nat) (digits : List Char) : Nat :=
  digits.foldl (fun n c => base * n + basedDigit c) 0

/-- All characters that a set does not hold. -/
def outside (s : CharSet) : CharSet := fun c => !s c

/-- The letters of the ASCII alphabet. -/
def isAsciiLetter : CharSet := fun c => c.isAlpha

/-- The characters that may start a name: ASCII letters and the underscore. -/
def isNameStart : CharSet := fun c => c.isAlpha || c == '_'

/-- The characters that may start a script identifier. -/
def isIdentStart : CharSet := fun c => c.isAlpha || c == '_' || c == '$'

/-- The code points at which being white space changes. -/
def blankFlips : List Nat :=
  [9, 14, 28, 33, 133, 134, 160, 161, 5760, 5761, 8192, 8203, 8232, 8234, 8239, 8240, 8287, 8288,
    12288, 12289]

/-- White space of every kind: spaces, tabs, line breaks and information separators. -/
def isBlank : CharSet := fun c => flipsAt blankFlips c.toNat

end HostScript

/-!
## Text

A text is the list of its characters, so that every length, offset and cut counts characters. The
operations here are the plain ones: trimming, cutting, splitting, joining, searching and numerals.
-/

namespace HostScript

/-- A text, as the list of its characters. -/
abbrev Text := List Char

/-- A string stands for its list of characters. -/
instance : Coe String Text := ⟨String.toList⟩

namespace Text

/-- The characters of a literal, which come from unification: to find them so is much cheaper than
to decode the literal. -/
theorem toList_eq {s : String} {t : Text} (h : s = String.ofList t) : s.toList = t := by
  rw [h, String.toList_ofList]

/-- The characters of two literals, one behind the other. -/
theorem toList_append_toList_eq {s s' : String} {t t' : Text} (h : s = String.ofList t)
    (h' : s' = String.ofList t') : s.toList ++ s'.toList = t ++ t' := by
  rw [toList_eq h, toList_eq h']

/-- What holds of the characters of a literal holds of it. -/
theorem of_toList {P : Text → Prop} {s : String} {t : Text} (h : s = String.ofList t) (ht : P t) :
    P s.toList := by
  rwa [toList_eq h]

/-- What comes of the characters of a literal comes of it. -/
theorem apply_toList_eq {α : Type} {f : Text → α} {a : α} {s : String} {t : Text}
    (h : s = String.ofList t) (ht : f t = a) : f s.toList = a := by
  rwa [toList_eq h]

/-- What holds of the characters of two literals holds of the one behind the other. -/
theorem of_toList_append {P : Text → Prop} {s s' : String} {t t' : Text} (h : s = String.ofList t)
    (h' : s' = String.ofList t') (ht : P (t ++ t')) : P (s.toList ++ s'.toList) := by
  rwa [toList_append_toList_eq h h']

/-- What holds of every character of a text is decided character by character. -/
instance (priority := 1100) decidableForallMem (t : Text) (p : Char → Prop) [DecidablePred p] :
    Decidable (∀ c ∈ t, p c) :=
  List.decidableBAll p t

/-- Whether code points begin with those of a text. -/
def startsWithCodes : Text → List Nat → Bool
  | [], _ => true
  | _ :: _, [] => false
  | c :: t, k :: ks => bif Nat.beq c.toNat k then startsWithCodes t ks else false

/-- Whether the code points of a character and a text behind it stand among code points. -/
def hasCodes (c : Char) (t : Text) : List Nat → Bool
  | [] => false
  | k :: ks =>
    bif Nat.beq c.toNat k then startsWithCodes t ks || hasCodes c t ks else hasCodes c t ks

theorem beq_toNat (c d : Char) : Nat.beq c.toNat d.toNat = (c == d) := by
  rw [Bool.eq_iff_iff, Nat.beq_eq, Char.toNat_inj, beq_iff_eq]

theorem startsWithCodes_iff (t u : Text) :
    startsWithCodes t (u.map Char.toNat) = true ↔ t <+: u := by
  induction t generalizing u with
  | nil => simp [startsWithCodes]
  | cons c t ih =>
    cases u with
    | nil => simp [startsWithCodes]
    | cons d u =>
      rw [List.map_cons, startsWithCodes, beq_toNat, List.cons_prefix_cons, ← ih u]
      by_cases hcd : c = d <;> simp [hcd]

theorem hasCodes_iff (c : Char) (t u : Text) :
    hasCodes c t (u.map Char.toNat) = true ↔ c :: t <:+: u := by
  induction u with
  | nil => simp [hasCodes]
  | cons d u ih =>
    rw [List.map_cons, hasCodes, beq_toNat, List.infix_cons_iff, List.cons_prefix_cons, ← ih,
      ← startsWithCodes_iff]
    by_cases hcd : c = d <;> simp [hcd]

/-- Whether one text stands in another is decided by their code points, which is much cheaper than
by their characters. -/
instance (priority := 1100) decidableIsInfix : (t u : Text) → Decidable (t <:+: u)
  | [], _ => isTrue List.nil_infix
  | c :: t, u => decidable_of_iff _ (hasCodes_iff c t u)
/-- Whether the text begins with another one. -/
def startsWith (t start : Text) : Bool := start.isPrefixOf t

/-- Whether the text ends with another one. -/
def endsWith (t tail : Text) : Bool := tail.isSuffixOf t

/-- The characters at the offsets from `start` up to, but not including, `stop`. -/
def slice (t : Text) (start stop : Nat) : Text := (t.take stop).drop start

/-- The characters before an offset. -/
def upTo (t : Text) (stop : Nat) : Text := t.take stop

/-- The characters from an offset on. -/
def since (t : Text) (start : Nat) : Text := t.drop start

/-- The text without leading characters of a set. -/
def trimStartOf (s : CharSet) (t : Text) : Text := t.dropWhile s

/-- The text without trailing characters of a set. -/
def trimEndOf (s : CharSet) (t : Text) : Text := (t.reverse.dropWhile s).reverse

/-- The text without leading and trailing characters of a set. -/
def trimOf (s : CharSet) (t : Text) : Text := trimEndOf s (trimStartOf s t)

/-- The text without leading white space. -/
def trimStart (t : Text) : Text := trimStartOf isBlank t

/-- The text without trailing white space. -/
def trimEnd (t : Text) : Text := trimEndOf isBlank t

/-- The text without leading and trailing white space. -/
def trim (t : Text) : Text := trimOf isBlank t

/-- The parts between the occurrences of a character; one part more than occurrences. -/
def splitOn (sep : Char) : Text → List Text
  | [] => [[]]
  | c :: t =>
    if c == sep then [] :: splitOn sep t
    else match splitOn sep t with
      | [] => [[c]]
      | part :: parts => (c :: part) :: parts

/-- The lines of a text, divided by line feeds. -/
def lines (t : Text) : List Text := splitOn '\n' t

/-- The texts one after another, with `sep` between neighbours. -/
def join (sep : Text) : List Text → Text
  | [] => []
  | [t] => t
  | t :: ts => t ++ sep ++ join sep ts

/-- Lines put back together. -/
def unlines (ts : List Text) : Text := join ['\n'] ts

/-- The offset of the first occurrence of a text. -/
def indexOf? (needle : Text) : Text → Option Nat
  | [] => if needle.isEmpty then some 0 else none
  | c :: t => if needle.isPrefixOf (c :: t) then some 0 else (indexOf? needle t).map (· + 1)

/-- The offset of the first occurrence at or after `start`. -/
def indexFrom? (needle : Text) (t : Text) (start : Nat) : Option Nat :=
  (indexOf? needle (t.drop start)).map (· + start)

/-- Whether a text occurs in another. -/
def hasInfix (needle t : Text) : Bool := (indexOf? needle t).isSome

/-- The part before the first occurrence of a character, and the part after it when it occurs. -/
def cutAt (sep : Char) : Text → Text × Option Text
  | [] => ([], none)
  | c :: t =>
    if c == sep then ([], some t)
    else let (before, after) := cutAt sep t; (c :: before, after)

/-- Every occurrence of `old`, read from the left without overlap, replaced by `new`. -/
def replaceAll (old new : Text) (t : Text) : Text := go 0 t
where
  /-- Copies the text, first passing over `skip` characters of an occurrence. -/
  go (skip : Nat) : Text → Text
    | [] => []
    | c :: t =>
      if skip > 0 then go (skip - 1) t
      else if old.isPrefixOf (c :: t) then new ++ go (old.length - 1) t
      else c :: go 0 t

/-- The parts between the occurrences of a non-empty text, read from the left. -/
def splitOnText (sep : Text) (t : Text) : List Text := go 0 t
where
  /-- Splits the text, first passing over `skip` characters of a separator. -/
  go (skip : Nat) : Text → List Text
    | [] => [[]]
    | c :: t =>
      if skip > 0 then go (skip - 1) t
      else if sep.isPrefixOf (c :: t) then [] :: go (sep.length - 1) t
      else match go 0 t with
        | [] => [[c]]
        | part :: parts => (c :: part) :: parts

/-- The maximal runs of characters that are not white space. -/
def words (t : Text) : List Text := (go t).filter (!·.isEmpty)
where
  /-- The parts between single white space characters. -/
  go : Text → List Text
    | [] => [[]]
    | c :: t =>
      if isBlank c then [] :: go t
      else match go t with
        | [] => [[c]]
        | part :: parts => (c :: part) :: parts

/-- The characters besides the pair carriage return and line feed that end a line. -/
def isLineEnd : CharSet := fun c =>
  [10, 11, 12, 13, 28, 29, 30, 133, 8232, 8233].contains c.toNat

/-- The lines of a text, ended by any line end; a line end at the very end opens no further line. -/
def anyLines (t : Text) : List Text := go [] t
where
  /-- Collects the lines; `current` is the open line, reversed. -/
  go (current : Text) : Text → List Text
    | [] => if current.isEmpty then [] else [current.reverse]
    | '\r' :: '\n' :: t => current.reverse :: go [] t
    | c :: t => if isLineEnd c then current.reverse :: go [] t else go (c :: current) t

/-- The text with line feeds as its only line ends. -/
def unifyBreaks : Text → Text
  | [] => []
  | '\r' :: '\n' :: rest => '\n' :: unifyBreaks rest
  | c :: rest => (if c == '\r' then '\n' else c) :: unifyBreaks rest

/-- The decimal numeral of a natural number. -/
def ofNat (n : Nat) : Text := Nat.toDigits 10 n

/-- The decimal numeral of an integer. -/
def ofInt : Int → Text
  | .ofNat n => ofNat n
  | .negSucc n => '-' :: ofNat (n + 1)

/-- How often a character occurs. -/
def count (c : Char) (t : Text) : Nat := List.count c t

/-- The text repeated `n` times. -/
def times (n : Nat) (t : Text) : Text := (List.replicate n t).flatten

/-- The text as a string. -/
def toStr (t : Text) : String := String.ofList t

/-- The order of texts by code point, used wherever names are listed in order. -/
def le : Text → Text → Bool
  | [], _ => true
  | _ :: _, [] => false
  | a :: s, b :: t =>
    if a.toNat < b.toNat then true else if b.toNat < a.toNat then false else le s t

/-- Distinct texts in ascending order. -/
def sorted (ts : List Text) : List Text := ts.eraseDups.mergeSort le

end Text

end HostScript
