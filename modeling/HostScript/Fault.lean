import HostScript.Text.Quoted

/-!
# Faults

Every way in which a request can fail, as its cause. The wording of the faults that callers read
stands in one place.
-/

namespace HostScript

/-- What is wrong with a document of settings or profiles. -/
inductive Flaw where
  /-- A character that cannot be printed. -/
  | character
  /-- A place where no token can be read. -/
  | token
  /-- Tokens in an order that makes no sense. -/
  | order
  /-- A reference to nothing, or a second document. -/
  | reference
  /-- A tag or key for which there is no value. -/
  | value

/-- A cause of failure. -/
inductive Fault where
  /-- The dialect or listing format is not registered. -/
  | unsupportedFormat (tag : Text) (supported : List Text)
  /-- The input is longer than allowed. -/
  | sizeLimit (size : Nat) (limit : Int)
  /-- No profile has the requested name. -/
  | unknownProfile (name : Text) (available : List Text)
  /-- The script is not well formed; the line where that shows. -/
  | invalidScript (line : Nat)
  /-- A piece that continues a template stands where an expression has to start. -/
  | strayPiece
  /-- The script failed while it ran. -/
  | execution (message : Text)
  /-- The script ran for too long. -/
  | timeout (message : Text)
  /-- A value is not acceptable. -/
  | badValue (message : Text)
  /-- A position or a numbered span lies outside its text or list. -/
  | outOfRange
  /-- A name is not one of those that are known. -/
  | missingKey
  /-- A value has the wrong shape for its place. -/
  | wrongShape
  /-- A value stands where one of another kind belongs. -/
  | misplaced
  /-- A number is beyond the range of its place. -/
  | tooLarge
  /-- No file of settings has the given name. -/
  | missingFile (name : Text)
  /-- No folder holds a file of the given name. -/
  | missingFolder (name : Text)
  /-- A folder stands where a file belongs. -/
  | isFolder (name : Text)
  /-- A file stands where a folder belongs. -/
  | isNoFolder (name : Text)
  /-- A document cannot be read at all. -/
  | malformed (flaw : Flaw)
  /-- The markup of a line of output closes what it does not open, or what cannot be read. -/
  | unbalancedMarkup

namespace Fault

/-- What a caller reads about the fault. -/
def message : Fault → Text
  | .unsupportedFormat tag supported =>
    "Unsupported source format '" ++ tag ++ "'. Supported formats: "
      ++ Text.join ", " (supported.mergeSort Text.le)
  | .sizeLimit size limit =>
    "Input size " ++ Text.ofNat size ++ " exceeds maximum of " ++ Text.ofInt limit
      ++ " characters"
  | .unknownProfile name available =>
    "Unknown target profile '" ++ name ++ "'. Available: "
      ++ Text.join ", " (available.mergeSort Text.le)
  | .execution m | .timeout m | .badValue m => m
  | .missingFile name => "Config file not found: " ++ name
  | .missingFolder name => "[Errno 2] No such file or directory: " ++ Text.quoted name
  | .isFolder name => "[Errno 21] Is a directory: " ++ Text.quoted name
  | .isNoFolder name => "[Errno 20] Not a directory: " ++ Text.quoted name
  | .invalidScript _ | .strayPiece | .outOfRange | .missingKey | .wrongShape | .misplaced
  | .tooLarge | .malformed _ | .unbalancedMarkup => []

/-- The short name of a fault that callers may act on. -/
def kind? : Fault → Option String
  | .unsupportedFormat .. => some "unsupported_format"
  | .sizeLimit .. => some "size_limit"
  | .unknownProfile .. => some "unknown_profile"
  | .invalidScript _ => some "syntax"
  | .execution _ => some "execution"
  | .timeout _ => some "timeout"
  | .strayPiece | .badValue _ | .outOfRange | .missingKey | .wrongShape | .misplaced | .tooLarge
  | .missingFile _ | .missingFolder _ | .isFolder _ | .isNoFolder _ | .malformed _
  | .unbalancedMarkup => none

end Fault

/-- A result or the cause of its absence. -/
abbrev Outcome := Except Fault

end HostScript
