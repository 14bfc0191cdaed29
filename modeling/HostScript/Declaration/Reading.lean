import HostScript.Declaration.ObjC
import HostScript.Declaration.Swift
import HostScript.Fault
import HostScript.Text.Case
import HostScript.Text.Quoted

/-!
# Reading a source by its dialect

Requests name a dialect by one of several tags, in any case. Scripts have a tag as well, but they
are not read into declarations.
-/

namespace HostScript

/-- The tags of the dialects. -/
def Dialect.tags : List (String × Dialect) :=
  [("objc", .objc), ("objectivec", .objc), ("objective-c", .objc), ("swift", .swift),
    ("javascript", .javascript), ("js", .javascript)]

/-- The dialect that a tag names. -/
def Dialect.ofTag? (tag : Text) : Option Dialect :=
  let tag := lower tag.trim
  (Dialect.tags.find? fun (t, _) => t.toList == tag).map (·.2)

/-- The tags of the dialects that declare something. -/
def Dialect.sourceTags : List Text :=
  (Dialect.tags.filter fun (_, d) => d != .javascript).map (·.1.toList)

/-- The dialect with a given name. -/
def Dialect.ofName (n : Text) : Outcome Dialect :=
  match [Dialect.objc, .swift, .javascript].find? (·.name.toList == n) with
  | some d => .ok d
  | none => .error (.badValue (Text.quoted n ++ " is not a valid Dialect"))

namespace Declaration

/-- The declarations of a source. -/
def read (source : Text) : Dialect → Outcome Module
  | .objc => .ok (ObjC.read source)
  | .swift => .ok (Swift.read source)
  | .javascript => .error (.badValue "No parser for dialect 'javascript'")

/-- The declarations of a source whose dialect is given by a tag, within a limit of size. -/
def readTagged (limit : Int) (source tag : Text) : Outcome Module :=
  if source.length > limit then .error (.sizeLimit source.length limit)
  else match Dialect.ofTag? tag with
    | some .objc => read source .objc
    | some .swift => read source .swift
    | _ => .error (.unsupportedFormat tag Dialect.sourceTags)

end Declaration

end HostScript
