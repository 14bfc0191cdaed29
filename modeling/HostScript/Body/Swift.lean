import HostScript.Body.Statement
import HostScript.Body.Swift.Binding
import HostScript.Body.Swift.Closure
import HostScript.Body.Swift.Control
import HostScript.Body.Swift.Interpolation
import HostScript.Body.Swift.Library
import HostScript.Body.Swift.Types

/-!
# Idioms of Swift bodies

The idioms in the order in which they apply. The order matters: strings become templates before
type names are looked for in substitutions, and optional values are dealt with before the receiver
changes its name.
-/

namespace HostScript.Body

open Script Pattern

/-- The idioms of Swift bodies, in order. -/
def swiftIdioms : List Idiom := [
  ⟨"closures", fun _ => Swift.convertClosures⟩,
  ⟨"string-interpolation", always fun _ => Swift.interpolate⟩,
  ⟨"range-loops", always (perLine Swift.rangeLoops)⟩,
  .masked "error-handling" .all Swift.errorHandling,
  ⟨"optional-binding", always Swift.optionalBinding⟩,
  ⟨"declarations", always (perLine Swift.declarations)⟩,
  .masked "optionals" .all Swift.optionals,
  .ofEdits "self-this" .chunked [.const (edge ++ "self" ++ edge) "this"],
  .masked "type-names" .chunked Swift.typeNames,
  .masked "library-api" .chunked Swift.libraryApi,
  .masked "argument-labels" .all Swift.argumentLabels,
  .masked "implicit-self" .chunked qualifyMembers,
  .masked "implicit-members" .chunked Swift.implicitMembers,
  .masked "control-parentheses" .all (perLine parenthesizeControl),
  ⟨"switch-cases", outsideLiterals .all Swift.switchCases⟩,
  ⟨"statement-termination", always terminateStatements⟩]

end HostScript.Body
