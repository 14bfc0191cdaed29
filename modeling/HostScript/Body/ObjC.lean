import HostScript.Body.ObjC.Library
import HostScript.Body.ObjC.Send
import HostScript.Body.Scope

/-!
# Bodies in Objective-C

The idioms that rewrite types in statements, and all idioms of a body in their order.
-/

/-!
## Types in statements

Loop headers, initializer chaining, allocation, casts and local declarations: places where a type
or a type's initializer is written and the script has none.
-/

namespace HostScript.Body.ObjC

open Pattern

/-- A primitive type. -/
def primitive : Pattern :=
  ("unsigned" ++ gap <|> "signed" ++ gap <|> "long" ++ gap <|> "short" ++ gap).star
    ++ (choice ["int", "float", "double", "long", "short", "char", "BOOL", "bool", "NSInteger",
          "NSUInteger", "CGFloat", "size_t"]
      <|> "uint" ++ digit.plus ++ "_t" <|> "int" ++ digit.plus ++ "_t")

private def forOpen : Pattern := edge ++ "for" ++ blanks ++ "(" ++ blanks

/-- Loop headers without types. -/
def loopEdits : List Edit := [
  ⟨forOpen ++ ("__" ++ name ++ gap).opt
      ++ ("id" ++ gap <|> cName ++ blanks ++ (lit "*").plus ++ blanks <|> cName ++ gap)
      ++ cap 1 name ++ gap ++ "in" ++ gap,
    fun m => "for (const " ++ m.group 1 ++ " of "⟩,
  ⟨forOpen ++ primitive ++ gap ++ cap 1 name ++ blanks ++ "=",
    fun m => "for (let " ++ m.group 1 ++ " ="⟩]

private def superInit : Pattern :=
  "[" ++ blanks ++ "super" ++ gap ++ "init" ++ word.star ++ (noneOf (among "]")).star ++ "]"

private def selfAssign : Pattern := "self" ++ blanks ++ "=" ++ blanks

/-- Calls of the initializer above go: the script makes them itself. -/
def initChainEdits : List Edit := [
  .const (lineStart ++ blanks ++ selfAssign.opt ++ superInit ++ blanks ++ ";"
    ++ (oneOf (among " \t")).star ++ (lit "\n").opt) "",
  .const ("(" ++ blanks ++ (lit "(").opt ++ blanks ++ selfAssign ++ superInit ++ blanks
    ++ (lit ")").opt ++ blanks ++ ")") "(this)"]

/-- Allocation as construction. -/
def allocEdits : List Edit := [
  ⟨"[" ++ blanks ++ "[" ++ blanks ++ cap 1 name ++ gap ++ "alloc" ++ blanks ++ "]" ++ gap ++ "init"
      ++ blanks ++ "]", fun m => "new " ++ m.group 1 ++ "()"⟩,
  ⟨"[" ++ blanks ++ cap 1 name ++ gap ++ "alloc" ++ blanks ++ "]",
    fun m => "(new " ++ m.group 1 ++ "())"⟩,
  ⟨"[" ++ blanks ++ cap 1 upperName ++ gap ++ "new" ++ blanks ++ "]",
    fun m => "new " ++ m.group 1 ++ "()"⟩]

private def castOpen : Pattern := "(" ++ blanks ++ ("const" ++ gap).opt

private def castClose : Pattern := blanks ++ ")" ++ blanks

/-- Casts: of an expression to an integer by truncation, all others without effect. -/
def castEdits : List Edit := [
  .const (castOpen ++ choice ["int", "NSInteger", "long", "short"] ++ castClose
    ++ isAhead (lit "(")) "Math.trunc",
  .const (castOpen ++ primitive ++ castClose ++ isAhead (oneOf (isWord ||| among "$(-"))) "",
  .const (castOpen
    ++ (upperName ++ blanks ++ (lit "*").plus <|> choice ["id", "void", "instancetype"])
    ++ castClose ++ isAhead (oneOf (isWord ||| among "$([-"))) ""]

private def typedDeclaration : Pattern :=
  cap 1 blanks ++ (choice ["static", "const", "__block", "__weak", "__strong"] ++ gap).star
    ++ (primitive <|> lit "id" <|> upperName) ++ edge
    ++ (blanks ++ (lit "*").plus ++ blanks <|> gap) ++ ("const" ++ gap).opt ++ cap 2 name ++ blanks
    ++ cap 3 ("=" ++ notAhead (lit "=") <|> choice [";", ","])

/-- Rephrases a line that declares a variable. -/
def localDeclarations (_ : Scope) (line : Text) : Text :=
  match typedDeclaration.match? line with
  | none => line
  | some m =>
    if m.group 2 == "in".toList || m.group 2 == "return".toList then line
    else m.group 1 ++ "let " ++ m.group 2 ++ (if m.group 3 == ['='] then " " else "") ++ m.group 3
      ++ m.after

end HostScript.Body.ObjC

/-!
## Idioms of Objective-C bodies

The idioms in the order in which they apply. Literals come first, so that the brackets of boxed
collections are plain when message sends are looked for.
-/

namespace HostScript.Body

/-- The idioms of Objective-C bodies, in order. -/
def objcIdioms : List Idiom := [
  .ofEdits "string-literals" .all ObjC.stringEdits,
  .ofEdits "boxed-literals" .all ObjC.boxedEdits,
  ⟨"block-literals", outsideLiterals .all ObjC.blockLiterals⟩,
  .ofEdits "loops" .all ObjC.loopEdits,
  .ofEdits "init-chain" .all ObjC.initChainEdits,
  .ofEdits "alloc-init" .all ObjC.allocEdits,
  .masked "message-sends" .all ObjC.messageSends,
  .ofEdits "casts" .all ObjC.castEdits,
  .masked "local-declarations" .all (perLine ObjC.localDeclarations),
  .masked "foundation" .all ObjC.foundation,
  .masked "self-ivars" .all ObjC.selfAndIvars,
  .masked "implicit-self" .all qualifyMembers,
  .masked "math-functions" .all ObjC.mathFunctions]

end HostScript.Body
