import HostScript.Listing.Symbolic
import HostScript.Pattern.Match
import HostScript.Routine

/-!
# The WebAssembly text format

Expressions of the format, and the functions that they describe.
-/

/-!
## Expressions of the WebAssembly text format

A text is a forest of lists and atoms. Reading never fails: a list that is not closed ends with
the text, and a closing bracket too many is passed over.
-/

namespace HostScript.Listing.Wat

open Pattern

/-- An atom or a list. -/
inductive Expr where
  | atom (t : Text)
  | list (items : List Expr)

namespace Expr

/-- The text of an atom. -/
def atom? : Expr → Option Text
  | .atom t => some t
  | .list _ => none

/-- Whether an expression is the given atom. -/
def isAtom (s : String) : Expr → Bool
  | .atom t => t == s.toList
  | .list _ => false

end Expr

/-- A comment up to the end of its line. -/
def lineComment : Pattern := ";;" ++ (noneOf (among "\n")).star

/-- A comment between brackets. -/
def blockComment : Pattern := "(;" ++ anything.starLazy ++ ";)"

/-- A bracket, a string or a run of other characters. -/
def token : Pattern :=
  choice ["(", ")"]
    <|> "\x22" ++ ("\\" ++ any <|> noneOf (among "\x22\\")).star ++ "\x22"
    <|> (noneOf (isBlank ||| among "()\x22")).plus

/-- The tokens of a text without its comments. -/
def tokens (t : Text) : List Text :=
  (token.allIn (blockComment.erase (lineComment.erase t))).map (·.text)

/-- Closes lists that are open at the end of the text; `items` and `outer` are reversed. -/
def closeAll (items : List Expr) : (outer : List (List Expr)) → List Expr
  | [] => items.reverse
  | next :: outer => closeAll (.list items.reverse :: next) outer

/-- Reads tokens into a forest. `items` is the open list, reversed, `outer` the lists around it. -/
def forest : (items : List Expr) → (outer : List (List Expr)) → List Text → List Expr
  | items, outer, [] => closeAll items outer
  | items, outer, t :: rest =>
    if t == ['('] then forest [] (items :: outer) rest
    else if t == [')'] then
      match outer with
      | next :: outer => forest (.list items.reverse :: next) outer rest
      | [] => forest items [] rest
    else forest (.atom t :: items) outer rest

/-- The expressions of a text. -/
def parse (t : Text) : List Expr := forest [] [] (tokens t)

/-- An instruction: its head, which should be an atom, and its immediate arguments. -/
structure Step where
  head : Expr
  immediates : List Text

/-- An immediate argument: a name, a string, a number or a setting. -/
def immediate : Pattern :=
  "$" ++ (noneOf isBlank).star
    <|> "\x22" ++ any.star ++ "\x22"
    <|> (lit "-").opt
      ++ ("0x" ++ (oneOf (between '0' '9' ||| between 'a' 'f' ||| between 'A' 'F')).plus
        <|> digit ++ (oneOf (isDigit ||| among "._")).star
          ++ (oneOf (among "eE") ++ (oneOf (among "+-")).opt ++ digit.plus).opt
        <|> choice ["inf", "nan"])
    <|> name ++ "=" ++ (noneOf isBlank).plus

/-- Whether an atom is an immediate argument of the instruction before it. -/
def isImmediate (t : Text) : Bool := immediate.fitsAll t

mutual

/-- The steps of a sequence of instructions in the order in which they run. `pending` is a flat
instruction whose immediate arguments may still follow. -/
def flattenFrom (pending : Option Step) : List Expr → List Step
  | [] => pending.toList
  | .list items :: rest => pending.toList ++ flattenNode items ++ flattenFrom none rest
  | .atom t :: rest =>
    match pending with
    | some step =>
      if isImmediate t then flattenFrom (some ⟨step.head, step.immediates ++ [t]⟩) rest
      else step :: flattenFrom (some ⟨.atom t, []⟩) rest
    | none => flattenFrom (some ⟨.atom t, []⟩) rest

/-- The steps of a folded instruction: its operands, then itself. -/
def flattenNode : List Expr → List Step
  | [] => []
  | head :: args => flattenOperands args ++ [⟨head, args.filterMap Expr.atom?⟩]

/-- The steps of the operands of a folded instruction. -/
def flattenOperands : List Expr → List Step
  | [] => []
  | .list items :: rest => flattenNode items ++ flattenOperands rest
  | .atom _ :: rest => flattenOperands rest

end

/-- The steps of a sequence of instructions, flat or folded, in the order in which they run. -/
def flatten (items : List Expr) : List Step := flattenFrom none items

/-!
## WebAssembly text listings

Functions are lowered by a symbolic run of their body. Locals and functions are known by name and
by number.
-/

/-- The script form of a `$` name; none for anything else. -/
def dollarName? : Text → Option Text
  | '$' :: rest => some (Routine.identifierChars rest)
  | _ => none

/-- A function before it is lowered. -/
structure Func where
  name : Text
  params : List Text := []
  /-- Script names by source name or number; a later entry counts before an earlier one. -/
  locals : List (Text × Text) := []
  /-- The number of locals declared. -/
  count : Nat := 0
  hasResult : Bool := false
  body : List Expr := []

namespace Func

/-- Declares a local variable. -/
def declare (f : Func) (source : Option Text) (script : Text) (isParam : Bool) : Func :=
  let named : List (Text × Text) := match source with
    | some n => if n.isEmpty then [] else [(n, script)]
    | none => []
  { f with
    locals := (Text.ofNat f.count, script) :: named ++ f.locals
    params := if isParam then f.params ++ [script] else f.params
    count := f.count + 1 }

/-- Declares one unnamed local for each entry. -/
def declareUnnamed (f : Func) (isParam : Bool) : List Expr → Func
  | [] => f
  | _ :: rest =>
    (f.declare none ((if isParam then 'p' else 'l') :: Text.ofNat f.count) isParam).declareUnnamed
      isParam rest

/-- Declares the locals of a `param` or `local` list. -/
def declareEntries (f : Func) (isParam : Bool) : List Expr → Outcome Func
  | [] => .ok f
  | .list _ :: _ => .error .misplaced
  | .atom t :: rest =>
    match dollarName? t with
    | some script => .ok (f.declare (some t) script isParam)
    | none => .ok (f.declareUnnamed isParam (.atom t :: rest))

/-- Takes in one item of a function. -/
def item (f : Func) (e : Expr) : Outcome Func :=
  match e with
  | .list (head :: rest) =>
    if head.isAtom "param" || head.isAtom "local" then f.declareEntries (head.isAtom "param") rest
    else if head.isAtom "result" then .ok { f with hasResult := true }
    else if head.isAtom "export" || head.isAtom "type" || head.isAtom "import" then .ok f
    else .ok { f with body := f.body ++ [e] }
  | _ => .ok { f with body := f.body ++ [e] }

/-- A function from the items after its head and its number. -/
def ofItems (items : List Expr) (index : Nat) : Outcome Func :=
  let fallback : Text := "func" ++ Text.ofNat index
  match items with
  | .atom t :: rest =>
    match dollarName? t with
    | some n => rest.foldlM item { name := n }
    | none => items.foldlM item { name := fallback }
  | _ => items.foldlM item { name := fallback }

/-- The script name of a local. -/
def localName (f : Func) (token : Text) : Text :=
  (f.locals.lookup token).getD (Routine.identifierChars (Text.trimStartOf (among "$") token))

end Func

/-- What a call needs to know about its target. -/
structure Signature where
  name : Text
  arity : Nat
  returns : Bool

/-- The signature of a function. -/
def Func.signature (f : Func) : Signature := ⟨f.name, f.params.length, f.hasResult⟩

/-- Signatures by name and by number: a name replaces what was there, a number does not. A later
entry counts before an earlier one. -/
def signaturesFrom (known : List (Text × Signature)) : (index : Nat) → List Func →
    List (Text × Signature)
  | _, [] => known
  | index, f :: rest =>
    let known := (f.name, f.signature) :: known
    let number := Text.ofNat index
    let known :=
      if (known.lookup number).isSome then known else (number, f.signature) :: known
    signaturesFrom known (index + 1) rest

/-- The signatures of all functions. -/
def signatures (fs : List Func) : List (Text × Signature) := signaturesFrom [] 0 fs

/-- Whether a text is made of digits of any kind. -/
def isNumeral (t : Text) : Bool := !t.isEmpty && t.all isDigitLike

/-- The target of a call. -/
def callTarget (known : List (Text × Signature)) (token : Text) : Signature :=
  let key := (dollarName? token).getD token
  match known.lookup key with
  | some s => s
  | none => ⟨if isNumeral key then "func" ++ key else key, 0, false⟩

/-- An arithmetic operation; the operator is group 1. -/
def arithmeticOp : Pattern :=
  oneOf (among "if") ++ choice ["32", "64"] ++ "." ++ cap 1 (choice ["add", "sub", "mul", "div"])
    ++ ("_" ++ oneOf (among "su")).opt ++ textEnd

/-- An operation of a function body. -/
inductive Op where
  | arithmetic (opcode : Opcode)
  | const (token : Text)
  | get (token : Text)
  | set (token : Text)
  | tee (token : Text)
  | call (token : Text)
  | return_
  | drop
  | nop
  | other (raw : Text)

/-- The operation that a head and its immediate arguments stand for. -/
def Op.ofStep (head : Text) (immediates : List Text) : Op :=
  match arithmeticOp.match? head with
  | some m => .arithmetic (.arithmetic (m.group 1))
  | none =>
    match immediates with
    | first :: _ =>
      if head.endsWith ".const" then .const first
      else if head == "local.get".toList then .get first
      else if head == "local.set".toList then .set first
      else if head == "local.tee".toList then .tee first
      else if head == "call".toList then .call first
      else plain
    | [] => plain
where
  /-- The operations without an argument. -/
  plain : Op :=
    if head == "return".toList then .return_
    else if head == "drop".toList then .drop
    else if head == "nop".toList then .nop
    else .other (Text.join " " (head :: immediates))

/-- Runs an operation symbolically. -/
def run (f : Func) (known : List (Text × Signature)) (s : Symbolic) : Op → Symbolic
  | .arithmetic opcode => s.arithmetic opcode
  | .const token => s.push (literal token)
  | .get token => s.push (f.localName token)
  | .set token =>
    let (value, s) := s.pop
    s.emit .store [f.localName token, value]
  | .tee token =>
    let (value, s) := s.pop
    (s.emit .store [f.localName token, value]).push (f.localName token)
  | .call token =>
    let target := callTarget known token
    let (args, s) := s.popMany target.arity
    s.call target.name args target.returns
  | .return_ =>
    if f.hasResult then
      let (value, s) := s.pop
      s.emit .return_ [value]
    else s.emit .return_ []
  | .drop => s.pop.2
  | .nop => s
  | .other raw => s.emitUnknown raw

/-- Runs a step symbolically. The head of a step has to be an atom. -/
def runStep (f : Func) (known : List (Text × Signature)) (s : Symbolic) (step : Step) :
    Outcome Symbolic :=
  match step.head with
  | .atom head => .ok (run f known s (.ofStep head step.immediates))
  | .list _ => .error .wrongShape

/-- Lowers a function. A value that is left at the end is its result. -/
def lower (known : List (Text × Signature)) (tags : List Text) (f : Func) : Outcome Routine := do
  let s ← (flatten f.body).foldlM (runStep f known) {}
  let s := match f.hasResult, s.stack with
    | true, value :: _ => s.emit .return_ [value]
    | _, _ => s
  pure ⟨f.name, f.params, s.code, tags⟩

mutual

/-- The functions of a forest, each as the items after its head; modules are looked into. -/
def functions : List Expr → List (List Expr)
  | [] => []
  | .list items :: rest => functionsOf items ++ functions rest
  | .atom _ :: rest => functions rest

/-- The functions of a list. -/
def functionsOf : List Expr → List (List Expr)
  | [] => []
  | head :: rest =>
    if head.isAtom "func" then [rest] else if head.isAtom "module" then functions rest else []

end

private def threadWord : Pattern := edge ++ "atomic" <|> edge ++ "shared" ++ edge

/-- The tags of all functions of a listing. -/
def tags (t : Text) : List Text :=
  (if Text.hasInfix "v128" t then ["wasm-simd".toList] else [])
    ++ (if threadWord.occursIn t then ["wasm-threads".toList] else [])

/-- The functions of a listing before they are lowered. -/
def readFuncs (index : Nat) : List (List Expr) → Outcome (List Func)
  | [] => .ok []
  | items :: rest => do
    let f ← Func.ofItems items index
    let fs ← readFuncs (index + 1) rest
    pure (f :: fs)

/-- The routines of a listing. -/
def read (t : Text) : Outcome (List Routine) := do
  let fs ← readFuncs 0 (functions (parse t))
  fs.mapM (lower (signatures fs) (tags t))

end HostScript.Listing.Wat
