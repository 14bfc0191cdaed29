import HostScript.Render.Free
import HostScript.Render.TypeMembers

/-!
# Rendering a module as a script

Declarations are rendered kind by kind, in an order in which what is extended comes before what
extends it. Variables and unclassified text follow in the order of their lines, because they may
be statements.
-/

namespace HostScript.Render

open Declaration

/-- The support code for formatted strings. -/
def supportCode : Text :=
  "// jitphone runtime support
if (typeof String.format !== \x22function\x22) \x7b
  String.format = function (format) \x7b
    var args = Array.prototype.slice.call(arguments, 1);
    var index = 0;
    return String(format).replace(/%(\\.\\d+)?(?:l\x7b0,2\x7d|z)?([@difsuxX%])/g, function (match, precision, spec) \x7b
      if (spec === \x22%\x22) \x7b
        return \x22%\x22;
      \x7d
      var value = args[index++];
      if (spec === \x22f\x22) \x7b
        return Number(value).toFixed(precision ? Number(precision.slice(1)) : 6);
      \x7d
      if (spec === \x22d\x22 || spec === \x22i\x22 || spec === \x22u\x22) \x7b
        return String(value < 0 ? Math.ceil(value) : Math.floor(value));
      \x7d
      if (spec === \x22x\x22 || spec === \x22X\x22) \x7b
        var hex = Number(value).toString(16);
        return spec === \x22X\x22 ? hex.toUpperCase() : hex;
      \x7d
      return String(value);
    \x7d);
  \x7d;
\x7d"

namespace Context

/-- Variables and unclassified text in the order of their lines. -/
def tail (x : Context) : Outcome Text := do
  let globals ← x.module.globals.mapM fun v => (v.line, ·) <$> x.globalVariable v
  let unknowns ← x.module.unknowns.mapM fun u => (u.line, ·) <$> x.unknown u
  let inOrder := (globals ++ unknowns).mergeSort fun a b => a.1 ≤ b.1
  pure (Text.unlines ((inOrder.map (·.2)).filter (!·.isEmpty)))

/-- The sections of the script. -/
def sections (x : Context) : Outcome (List Text) := do
  let protocols := x.module.protocols.map x.protocol
  let enums ← x.module.enums.mapM x.enum
  let classes ← (inheritanceOrder x.module.classes).mapM x.classDefinition
  let structs ← x.module.structs.mapM x.struct
  let extensions ← x.module.extensions.mapM x.extension
  let functions ← x.module.functions.mapM x.function
  let tail ← x.tail
  pure ((protocols ++ enums ++ classes ++ structs ++ extensions ++ functions ++ [tail]).filter
    (!·.isEmpty))

/-- The remarks made while rendering. -/
def remarks (x : Context) : List Text :=
  (inheritanceOrder x.module.classes).filterMap x.superclassRemark?
    ++ x.module.extensions.flatMap x.extensionRemarks

end Context

/-- A module as a script, with the support code if it is asked for or referred to. -/
def render (options : Options) (m : Module) : Outcome Text := do
  let sections ← (Context.mk m options).sections
  let code := Text.join "\n\n" sections
  let code : Text :=
    if options.support || Text.hasInfix "String.format(" code then supportCode ++ "\n\n" ++ code
    else code
  pure (if code.isEmpty then [] else code ++ "\n")

end HostScript.Render
