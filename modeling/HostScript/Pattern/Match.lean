import HostScript.Pattern

/-!
# Fitting a pattern

A cursor is a place in a text together with what the groups cover so far. A pattern is run as a
function on continuations: it hands each place where it can end to the continuation, in its order
of preference, and takes the first answer. Repetition is bounded by the text ahead, because a
round that covers nothing is not repeated.
-/

namespace HostScript

/-- What a group covers: its offset and its text. -/
structure Capture where
  start : Nat
  text : Text

/-- A place in a text: the characters before it, nearest first, those after it, its offset and
the groups that are filled, latest first. -/
structure Cursor where
  before : Text
  after : Text
  pos : Nat
  groups : List (Nat × Capture)

namespace Cursor

/-- The start of a text. -/
def start (t : Text) : Cursor := ⟨[], t, 0, []⟩

/-- The place `n` characters back. -/
def back : Nat → Cursor → Option Cursor
  | 0, c => some c
  | n + 1, c =>
    match c.before with
    | [] => none
    | x :: rest => back n ⟨rest, x :: c.after, c.pos - 1, c.groups⟩

/-- The place at an offset, or at the end of a shorter text. -/
def atOffset (t : Text) (pos : Nat) : Cursor :=
  ⟨(t.take pos).reverse, t.drop pos, min pos t.length, []⟩

/-- Passes over one character of a set. -/
def accept (s : CharSet) (c : Cursor) : Option Cursor :=
  match c.after with
  | [] => none
  | x :: rest => if s x then some ⟨x :: c.before, rest, c.pos + 1, c.groups⟩ else none

/-- Passes over a text. -/
def acceptText : Text → Cursor → Option Cursor
  | [], c => some c
  | x :: t, c => (c.accept (· == x)).bind (acceptText t)

/-- Whether exactly one side of the place is a word character. -/
def onEdge (c : Cursor) : Bool :=
  c.before.head?.any isWord != c.after.head?.any isWord

/-- Whether the place is the end of the text or right before its final line feed. -/
def onEnd (c : Cursor) : Bool := c.after.isEmpty || c.after == ['\n']

/-- The text from a place up to a later one. -/
def textTo (c d : Cursor) : Text := c.after.take (d.pos - c.pos)

/-- The text that a group covers. -/
def group? (c : Cursor) (index : Nat) : Option Text := (c.groups.lookup index).map (·.text)

end Cursor

/-- A way to fit: from a place, hand every possible end to the continuation, best first, and give
its first answer. -/
abbrev Fit := (Cursor → Option Cursor) → Cursor → Option Cursor

namespace Fit

/-- The first answer of two. -/
@[inline] def orTry (first : Option Cursor) (second : Unit → Option Cursor) : Option Cursor :=
  match first with
  | some c => some c
  | none => second ()

/-- Optional rounds of `body`, at most as many as `spare` is long. Each must cover something. -/
def furtherRounds (body : Fit) (greedy : Bool) : (spare : Text) → Fit
  | [], k, c => k c
  | _ :: spare, k, c =>
    let further := fun _ : Unit => body
      (fun d => if d.pos == c.pos then none else furtherRounds body greedy spare k d) c
    if greedy then orTry (further ()) (fun _ => k c) else orTry (k c) further

/-- Repeated rounds of `body`: `least` compulsory ones, then optional ones, at most as many as
`spare` is long. -/
def rounds (body : Fit) (greedy : Bool) (spare : Text) : (least : Nat) → Fit
  | 0 => furtherRounds body greedy spare
  | least + 1 => fun k c => body (rounds body greedy spare least k) c

end Fit

namespace Pattern

/-- Runs a pattern. -/
def run : Pattern → Fit
  | .empty => fun k c => k c
  | .one s => fun k c => (c.accept s).bind k
  | .seq p q => fun k => p.run (q.run k)
  | .either p q => fun k c => Fit.orTry (p.run k c) (fun _ => q.run k c)
  | .rounds greedy least most body => fun k c =>
    let spare := match most with
      | some n => List.replicate (n - least) ' '
      | none => c.after
    Fit.rounds body.run greedy spare least k c
  | .group i body => fun k c =>
    body.run (fun d => k { d with groups := (i, ⟨c.pos, c.textTo d⟩) :: d.groups }) c
  | .ahead wanted body => fun k c =>
    match body.run some c with
    | some d => if wanted then k { c with groups := d.groups } else none
    | none => if wanted then none else k c
  | .behind wanted width body => fun k c =>
    if ((c.back width).bind (body.run some)).isSome == wanted then k c else none
  | .edge => fun k c => if c.onEdge then k c else none
  | .textStart => fun k c => if c.before.isEmpty then k c else none
  | .lineStart => fun k c => if c.before.head?.all (· == '\n') then k c else none
  | .textEnd => fun k c => if c.onEnd then k c else none
  | .same i => fun k c =>
    match c.group? i with
    | some t => (c.acceptText t).bind k
    | none => none

end Pattern

/-- A fit of a pattern in a text. -/
structure Match where
  /-- The text that was searched. -/
  subject : Text
  /-- The offset where the fit starts. -/
  start : Nat
  /-- The offset just past the fit. -/
  stop : Nat
  /-- The groups that are filled, latest first. -/
  groups : List (Nat × Capture)

namespace Match

/-- The fit between two places of a text. -/
def ofCursors (t : Text) (c d : Cursor) : Match := ⟨t, c.pos, d.pos, d.groups⟩

/-- The text of the whole fit. -/
def text (m : Match) : Text := m.subject.slice m.start m.stop

/-- The text before the fit. -/
def before (m : Match) : Text := m.subject.take m.start

/-- The text after the fit. -/
def after (m : Match) : Text := m.subject.drop m.stop

/-- What a group covers, if it took part in the fit. -/
def group? (m : Match) (index : Nat) : Option Text := (m.groups.lookup index).map (·.text)

/-- What a group covers, empty if it took no part in the fit. -/
def group (m : Match) (index : Nat) : Text := (m.group? index).getD []

/-- The offset where a group starts. -/
def groupStart (m : Match) (index : Nat) : Nat := ((m.groups.lookup index).map (·.start)).getD 0

end Match

namespace Pattern

/-- The best fit that starts at an offset. -/
def matchAt? (p : Pattern) (t : Text) (pos : Nat) : Option Match :=
  let c := Cursor.atOffset t pos
  (p.run some c).map (Match.ofCursors t c)

/-- The best fit that starts at the start of the text. -/
def match? (p : Pattern) (t : Text) : Option Match := p.matchAt? t 0

/-- The best fit that covers the whole text. -/
def matchAll? (p : Pattern) (t : Text) : Option Match :=
  let c := Cursor.start t
  (p.run (fun d => if d.after.isEmpty then some d else none) c).map (Match.ofCursors t c)

/-- Whether a fit starts at the start of the text. -/
def fits (p : Pattern) (t : Text) : Bool := (p.match? t).isSome

/-- Whether a fit covers the whole text. -/
def fitsAll (p : Pattern) (t : Text) : Bool := (p.matchAll? t).isSome

/-- Tries each place from the given one on; `mustMove` refuses an empty fit at the first place. -/
def searchFrom (p : Pattern) (before : Text) (pos : Nat) (mustMove : Bool) :
    Text → Option (Cursor × Cursor)
  | [] =>
    let c : Cursor := ⟨before, [], pos, []⟩
    (p.run (fun d => if mustMove && d.pos == pos then none else some d) c).map (c, ·)
  | x :: rest =>
    let c : Cursor := ⟨before, x :: rest, pos, []⟩
    match p.run (fun d => if mustMove && d.pos == pos then none else some d) c with
    | some d => some (c, d)
    | none => searchFrom p (x :: before) (pos + 1) false rest

/-- The first fit at or after an offset. -/
def searchAt? (p : Pattern) (t : Text) (pos : Nat) : Option Match :=
  let c := Cursor.atOffset t pos
  (p.searchFrom c.before c.pos false c.after).map fun (c, d) => Match.ofCursors t c d

/-- The first fit in a text. -/
def search? (p : Pattern) (t : Text) : Option Match := p.searchAt? t 0

/-- Whether a pattern fits anywhere in a text. -/
def occursIn (p : Pattern) (t : Text) : Bool := (p.search? t).isSome

/-- The fits from a place on, at most `fuel` of them. -/
def matchesFrom (p : Pattern) (t : Text) : (fuel : Nat) → (mustMove : Bool) → Cursor → List Match
  | 0, _, _ => []
  | fuel + 1, mustMove, c =>
    match p.searchFrom c.before c.pos mustMove c.after with
    | none => []
    | some (a, b) => Match.ofCursors t a b :: matchesFrom p t fuel (b.pos == a.pos) b

/-- All fits from left to right, none overlapping an earlier one. Two fits never cover the same
stretch, and each place starts at most one empty and one other fit, so their number is bounded by
twice the number of places. -/
def allIn (p : Pattern) (t : Text) : List Match :=
  p.matchesFrom t (2 * t.length + 2) false (Cursor.start t)

/-!
### Replacing and splitting

The fits of a pattern divide a text into fits and the gaps between them. Replacement keeps the gaps
and exchanges the fits; splitting keeps the gaps alone.
-/

/-- The text with each listed fit replaced; `pos` is where the text not yet copied starts. -/
def spliceM {m : Type → Type} [Monad m] (t : Text) (f : Match → m Text) :
    (pos : Nat) → List Match → m Text
  | pos, [] => pure (t.drop pos)
  | pos, x :: rest => do
    let new ← f x
    let tail ← spliceM t f x.stop rest
    pure (t.slice pos x.start ++ new ++ tail)

/-- Every fit replaced by what `f` makes of it, where `f` may fail. -/
def replaceM {m : Type → Type} [Monad m] (p : Pattern) (f : Match → m Text) (t : Text) : m Text :=
  spliceM t f 0 (p.allIn t)

/-- The text with each listed fit replaced; `pos` is where the text not yet copied starts. -/
def splice (t : Text) (f : Match → Text) : (pos : Nat) → List Match → Text
  | pos, [] => t.drop pos
  | pos, x :: rest => t.slice pos x.start ++ f x ++ splice t f x.stop rest

/-- Every fit replaced by what `f` makes of it. -/
def replace (p : Pattern) (f : Match → Text) (t : Text) : Text := splice t f 0 (p.allIn t)

/-- Every fit removed. -/
def erase (p : Pattern) (t : Text) : Text := p.replace (fun _ => []) t

/-- The gaps between the listed fits. -/
def gaps (t : Text) : (pos : Nat) → List Match → List Text
  | pos, [] => [t.drop pos]
  | pos, x :: rest => t.slice pos x.start :: gaps t x.stop rest

/-- The gaps between all fits. -/
def split (p : Pattern) (t : Text) : List Text := gaps t 0 (p.allIn t)

end Pattern

end HostScript
