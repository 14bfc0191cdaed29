import HostScript.Text.Basic
import HostScript.Text.WordChar

/-!
# Text patterns

A pattern describes a piece of text by what it is made of: characters of a set, sequences, ordered
alternatives, repetitions, numbered groups, and conditions on what stands before or after. Of all
ways in which a pattern fits, the first in its order of preference counts, so alternatives are
tried from left to right, and a repetition says whether it prefers more or fewer rounds.
-/

namespace HostScript

/-- A pattern of text with an order of preference among its fits. -/
inductive Pattern where
  /-- Fits the empty text. -/
  | empty
  /-- Fits one character of a set. -/
  | one (accepts : CharSet)
  /-- Fits two patterns one after the other. -/
  | seq (first second : Pattern)
  /-- Fits the first pattern or, failing that, the second. -/
  | either (first second : Pattern)
  /-- Fits from `least` to `most` rounds of a pattern, preferring more rounds if `greedy`. -/
  | rounds (greedy : Bool) (least : Nat) (most : Option Nat) (body : Pattern)
  /-- Fits a pattern and remembers the text it covers under a number. -/
  | group (index : Nat) (body : Pattern)
  /-- Fits the empty text where the pattern fits, or does not fit, ahead. -/
  | ahead (wanted : Bool) (body : Pattern)
  /-- Fits the empty text where the pattern fits, or does not fit, the `width` characters before. -/
  | behind (wanted : Bool) (width : Nat) (body : Pattern)
  /-- Fits the empty text between a word character and anything else. -/
  | edge
  /-- Fits the empty text at the start of the text. -/
  | textStart
  /-- Fits the empty text at the start of a line. -/
  | lineStart
  /-- Fits the empty text at the end of the text, and before a line feed that ends it. -/
  | textEnd
  /-- Fits another copy of the text that a group covers. -/
  | same (index : Nat)

namespace Pattern

/-- Fits exactly the given text. -/
def text : Text → Pattern
  | [] => .empty
  | [c] => .one (· == c)
  | c :: t => .seq (.one (· == c)) (text t)

/-- Fits exactly the given string. -/
def lit (s : String) : Pattern := text s.toList

/-- A string stands for the pattern that fits exactly it. -/
instance : Coe String Pattern := ⟨lit⟩

/-- Patterns one after the other. -/
instance : Append Pattern := ⟨.seq⟩

/-- Ordered alternatives. -/
instance : OrElse Pattern := ⟨fun p q => .either p (q ())⟩

/-- Fits one of several strings, the earlier ones preferred. -/
def choice : List String → Pattern
  | [] => .empty
  | [s] => lit s
  | s :: rest => .either (lit s) (choice rest)

/-- One character of a set. -/
def oneOf (s : CharSet) : Pattern := .one s

/-- One character outside a set. -/
def noneOf (s : CharSet) : Pattern := .one (outside s)

/-- One word character. -/
def word : Pattern := .one isWord

/-- One decimal digit. -/
def digit : Pattern := .one isDigit

/-- One white space character. -/
def blank : Pattern := .one isBlank

/-- One character that is not a line feed. -/
def any : Pattern := .one (· != '\n')

/-- One character. -/
def anything : Pattern := .one (fun _ => true)

/-- Any number of rounds, as many as possible. -/
def star (p : Pattern) : Pattern := .rounds true 0 none p

/-- At least one round, as many as possible. -/
def plus (p : Pattern) : Pattern := .rounds true 1 none p

/-- The pattern or nothing, preferably the pattern. -/
def opt (p : Pattern) : Pattern := .rounds true 0 (some 1) p

/-- Any number of rounds, as few as possible. -/
def starLazy (p : Pattern) : Pattern := .rounds false 0 none p

/-- At least one round, as few as possible. -/
def plusLazy (p : Pattern) : Pattern := .rounds false 1 none p

/-- A number of rounds within bounds, as many as possible. -/
def times (p : Pattern) (least : Nat) (most : Option Nat) : Pattern := .rounds true least most p

/-- A numbered group. -/
def cap (index : Nat) (p : Pattern) : Pattern := .group index p

/-- The pattern does not fit ahead. -/
def notAhead (p : Pattern) : Pattern := .ahead false p

/-- The pattern fits ahead. -/
def isAhead (p : Pattern) : Pattern := .ahead true p

/-- The character before belongs to a set. -/
def after (s : CharSet) : Pattern := .behind true 1 (.one s)

/-- No character of a set stands right before. -/
def notAfter (s : CharSet) : Pattern := .behind false 1 (.one s)

/-- The given string does not stand right before. -/
def notAfterText (s : String) : Pattern := .behind false s.toList.length (lit s)

/-- White space, or nothing. -/
def blanks : Pattern := star blank

/-- White space, at least one character. -/
def gap : Pattern := plus blank

/-- A run of word characters. -/
def name : Pattern := plus word

/-- A run of word characters and dots. -/
def dotted : Pattern := plus (.one (isWord ||| among "."))

/-- Not inside a longer name and not behind a dot. -/
def fresh : Pattern := notAfter (isWord ||| among "$.")

/-- A name that starts with an ASCII letter or underscore. -/
def cName : Pattern := .seq (.one isNameStart) (star word)

/-- A name that starts with an ASCII capital. -/
def upperName : Pattern := .seq (.one (between 'A' 'Z')) (star word)

/-- A script identifier that starts with an ASCII letter, underscore or dollar sign. -/
def ident : Pattern := .seq (.one isIdentStart) (star (.one isIdentPart))

end Pattern

end HostScript
