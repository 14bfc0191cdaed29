import HostScript.Listing.Jvm
import HostScript.Listing.Llvm
import HostScript.Listing.Wat

/-!
# Listing formats

A format is known by its tag. Some formats are registered without a reader: they are accepted and
give no routines.
-/

namespace HostScript.Listing

/-- A registered format. -/
structure Format where
  tag : String
  description : String
  /-- The reader, for formats that have one. -/
  reader : Option (Text → Outcome (List Routine))

/-- Whether a format has a reader. -/
def Format.isImplemented (f : Format) : Bool := f.reader.isSome

/-- All formats. -/
def formats : List Format := [
  ⟨"ios-llvm", "LLVM IR text (define/load/store/arith/call/br/ret)",
    some fun t => .ok (Llvm.read t)⟩,
  ⟨"android-art", "Dalvik/ART smali listings (.method ... .end method)",
    some fun t => .ok (Smali.read t)⟩,
  ⟨"wasm", "WebAssembly text format, flat or folded", some Wat.read⟩,
  ⟨"java-hotspot", "JVM bytecode as printed by javap -c", some fun t => .ok (Jvm.read t)⟩,
  ⟨"dotnet-clr", ".NET CIL", none⟩,
  ⟨"v8-bytecode", "V8 Ignition bytecode", none⟩,
  ⟨"spidermonkey", "SpiderMonkey bytecode", none⟩,
  ⟨"chakra", "Chakra bytecode", none⟩,
  ⟨"assembly", "Native assembly", none⟩]

/-- The tags of all formats. -/
def formatTags : List Text := formats.map (·.tag.toList)

/-- The format with a tag. -/
def format? (tag : Text) : Option Format := formats.find? (·.tag.toList == tag)

/-- The format with a tag, or the fault that there is none. -/
def format (tag : Text) : Outcome Format :=
  match format? tag with
  | some f => .ok f
  | none => .error (.unsupportedFormat tag formatTags)

/-- The routines of a listing. -/
def lower (t tag : Text) : Outcome (List Routine) := do
  let f ← format tag
  match f.reader with
  | some read => read t
  | none => pure []

end HostScript.Listing
