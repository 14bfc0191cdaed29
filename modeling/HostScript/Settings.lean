import HostScript.Text.Case
import HostScript.Yaml

/-!
# Settings

Settings come in three layers, the later ones winning: defaults, a file, and the environment.
-/

/-!
## Names of files

Names are compared and shown without idle slashes and dots. A name leads from folder to folder; what
stands at its end is a file, a folder, or nothing.
-/

namespace HostScript.Path

/-- The folders and the name of a path. -/
def parts (path : Text) : List Text :=
  (Text.splitOn '/' path).filter fun p => !p.isEmpty && p != ['.']

/-- The root of a path; two slashes at the start, and not more, are kept. -/
def root (path : Text) : Text :=
  match path with
  | '/' :: '/' :: '/' :: _ => ['/']
  | '/' :: '/' :: _ => ['/', '/']
  | '/' :: _ => ['/']
  | _ => []

/-- A path without idle slashes and dots. -/
def tidy (path : Text) : Text :=
  let whole := root path ++ Text.join "/" (parts path)
  if whole.isEmpty then ['.'] else whole

/-- The last name of a path. -/
def name (path : Text) : Text := (parts path).getLast?.getD []

/-- The end of a name from its last dot on. A name does not start with it, and it is more than the
dot. -/
def suffix (path : Text) : Text :=
  let n := name path
  let tail := (n.reverse.takeWhile (· != '.')).reverse
  if tail.isEmpty || tail.length + 1 ≥ n.length then [] else '.' :: tail

/-- The folder of a path; empty for a bare name. -/
def folder (path : Text) : Text :=
  let ps := parts path
  root path ++ Text.join "/" ps.dropLast

/-- What stands at a path. -/
inductive Place where
  | file (text : Text)
  | folder
  /-- The path leads through a file. -/
  | underFile
  | nothing

/-- The folder above one; above the outermost one there are folders of which nothing is known. -/
def above (here : List Text) : List Text :=
  match here.getLast? with
  | none => [['.', '.']]
  | some last => if last == ['.', '.'] then here ++ [['.', '.']] else here.dropLast

/-- What a path leads to from a folder, given what stands at a path without detours. -/
def follow (place : List Text → Place) (here : List Text) : List Text → Place
  | [] => .folder
  | name :: rest =>
    if name.isEmpty || name == ['.'] then follow place here rest
    else if name == ['.', '.'] then follow place (above here) rest
    else
      match place (here ++ [name]) with
      | .folder => follow place (here ++ [name]) rest
      | .file text => if rest.isEmpty then .file text else .underFile
      | other => other

/-- The names on the way to the end of a path without detours. -/
def straight (path : Text) : List Text :=
  (parts path).foldl (fun here p => if p == ['.', '.'] then above here else here ++ [p]) []

/-- A path without detours. -/
def resolved (path : Text) : Text :=
  let whole := root path ++ Text.join "/" (straight path)
  if whole.isEmpty then ['.'] else whole

/-- The folders that a path leads through, from the outermost to the innermost. -/
def folders (path : Text) : List Text :=
  let ps := (parts path).dropLast
  (List.range ps.length).map fun k => root path ++ Text.join "/" (ps.take (k + 1))

end HostScript.Path

/-! ## Layers of settings -/

namespace HostScript

/-- The settings of a service. -/
structure Settings where
  /-- The length of the longest input. -/
  maxInputSize : Int := 1048576
  /-- The profile of requests that name none. -/
  defaultProfile : Text := "embedded-automation-host"
  /-- The level of requests that name none. -/
  defaultLevel : Int := 2
  /-- The seconds that a script gets if it asks for none. -/
  executionTimeout : Scalar := .float 10.0
  /-- The most seconds that a script gets. -/
  maxExecutionTimeout : Scalar := .float 30.0
  memoryLimit : Int := 128
  /-- The most entries of a cache; zero stands for no bound. -/
  cacheEntries : Int := 0
  /-- The seconds that a cache keeps an entry; zero stands for no limit. -/
  cacheSeconds : Scalar := .float 0.0
  logLevel : Text := "WARNING"

namespace Settings

/-- Settings as a value. -/
def toJson (s : Settings) : Json :=
  .ofPairs [("max_input_size", .int s.maxInputSize), ("default_profile", .str s.defaultProfile),
    ("default_optimization_level", .int s.defaultLevel),
    ("execution_timeout", .ofScalar s.executionTimeout),
    ("max_execution_timeout", .ofScalar s.maxExecutionTimeout),
    ("memory_limit_mb", .int s.memoryLimit), ("cache_max_entries", .int s.cacheEntries),
    ("cache_ttl_seconds", .ofScalar s.cacheSeconds), ("log_level", .str s.logLevel)]

/-- The names of the settings, in order. -/
def names : List String :=
  ["max_input_size", "default_profile", "default_optimization_level", "execution_timeout",
    "max_execution_timeout", "memory_limit_mb", "cache_max_entries", "cache_ttl_seconds",
    "log_level"]

/-- The settings with one of them replaced; none if there is no setting of that name. -/
def set? (s : Settings) (name : Text) (v : Yaml.Value) : Option (Outcome Settings) :=
  match name.toStr with
  | "max_input_size" => some (return { s with maxInputSize := ← v.numeral.asInt })
  | "default_profile" => some (pure { s with defaultProfile := v.plain })
  | "default_optimization_level" => some (return { s with defaultLevel := ← v.numeral.asInt })
  | "execution_timeout" => some (return { s with executionTimeout := .float (← v.numeral.asFloat) })
  | "max_execution_timeout" =>
    some (return { s with maxExecutionTimeout := .float (← v.numeral.asFloat) })
  | "memory_limit_mb" => some (return { s with memoryLimit := ← v.numeral.asInt })
  | "cache_max_entries" => some (return { s with cacheEntries := ← v.numeral.asInt })
  | "cache_ttl_seconds" => some (return { s with cacheSeconds := .float (← v.numeral.asFloat) })
  | "log_level" => some (pure { s with logLevel := v.plain })
  | _ => none

/-- The fault of a value that a setting cannot have. -/
def invalid (name : Text) (source : Text) (v : Yaml.Value) : Fault :=
  .badValue ("Invalid value for '" ++ name ++ "' in " ++ source ++ ": " ++ v.display)

/-- The settings with one of them replaced by a value from a source. -/
def set (source : Text) (s : Settings) (entry : Yaml.Value × Yaml.Value) : Outcome Settings :=
  let name := entry.1.plain
  let v := entry.2
  match if entry.1.isText then s.set? name v else none with
  | none => .error (.badValue ("Unknown setting '" ++ name ++ "' in " ++ source))
  | some (.ok s) => .ok s
  | some (.error .tooLarge) => .error .tooLarge
  | some (.error _) => .error (invalid name source v)

/-- The settings with those of a layer put over them. -/
def apply (s : Settings) (source : Text) (layer : List (Yaml.Value × Yaml.Value)) :
    Outcome Settings :=
  layer.foldlM (set source) s

/-- A file of settings: its name, and what stands there. -/
structure File where
  name : Text
  place : Path.Place

/-- The variable that names the file of settings. -/
def fileVariable : Text := "JITPHONE_CONFIG"

/-- The name of the file of settings: the one asked for, or that of the environment. -/
def fileName? (asked : Option Text) (environment : List (Text × Text)) : Option Text :=
  let given (name : Option Text) : Option Text := name.filter (!·.isEmpty)
  (given asked).orElse fun _ => given (environment.lookup fileVariable)

/-- The settings with those of a file put over them. -/
def applyFile (s : Settings) (f : File) : Outcome Settings := do
  let name := Path.tidy f.name
  match f.place with
  | .nothing | .underFile => .error (.missingFile name)
  | .folder => .error (.isFolder name)
  | .file text =>
    let document ← Yaml.read text
    if !document.truthy then pure s
    else match document with
      | .map layer => s.apply name layer
      | _ => .error (.badValue ("Config file " ++ name ++ " must contain a mapping"))

/-- The variable of a setting. -/
def variableOf (name : String) : Text := "JITPHONE_" ++ (name.toList.map Char.toUpper)

/-- The layer that the environment gives. -/
def environmentLayer (environment : List (Text × Text)) : List (Yaml.Value × Yaml.Value) :=
  names.filterMap fun name =>
    (environment.lookup (variableOf name)).map fun v => (.str name.toList, .str v)

/-- The settings from a file, if there is one, and the environment. -/
def load (file : Option File) (environment : List (Text × Text)) : Outcome Settings := do
  let s : Settings := {}
  let s ← match file with
    | some f => s.applyFile f
    | none => pure s
  s.apply "environment" (environmentLayer environment)

end Settings

end HostScript
