import HostScript.Grammar.Statement

/-!
# The grammar of scripts

A script fits the grammar of the 2017 edition of the language, as a script rather than a module.
The productions are closed by depth: one production inside another is one level down. Between two
tokens only a few productions follow one another, so the length of the script bounds the depth.
-/

namespace HostScript.Grammar

/-- Productions that always fail. -/
def Productions.none : Productions :=
  ⟨Parser.failHere, Parser.failHere, Parser.failHere, Parser.failHere, fun _ => Parser.failHere,
    Parser.failHere, Parser.failHere⟩

/-- The productions with at most `depth` levels inside one another. -/
def productions : (depth : Nat) → Productions
  | 0 => .none
  | depth + 1 =>
    -- The level below is looked up when a production runs, so levels are built as they are used.
    ⟨fun s => Parser.assignment (productions depth) s,
      fun s => Parser.exponentiation (productions depth) s,
      fun s => Parser.unary (productions depth) s,
      fun s => Parser.calleeExpression (productions depth)
        (Parser.leftHandSide (productions depth)) s,
      fun kind s => Parser.pattern (productions depth) kind s,
      fun s => Parser.statement (productions depth) s,
      fun s => Parser.item (productions depth) s⟩

/-- Reads a whole script. -/
def script (k : Productions) : Parser Unit := do
  Parser.directives k
  Parser.loop do
    if (← Parser.ahead).kind == .eof then pure false
    else
      k.item
      pure true

/-- The state before the first token of a script. -/
def State.initial (code : Text) : State :=
  let x := Lexer.start code
  let nothing : Token := .of .eof [] 1
  ⟨x, x, nothing, false, 1, {}, code.length + 2⟩

/-- Reads the first token, and then the script. -/
def wholeScript (depth : Nat) : Parser Unit := do
  let _ ← Parser.advance
  modify fun s => { s with lastLine := s.lexer.line }
  script (productions depth)

/-- Makes sure that a script fits the grammar. -/
def check (code : Text) : Outcome Unit := do
  let _ ← (wholeScript (8 * code.length + 16)).run (State.initial code)

end HostScript.Grammar
