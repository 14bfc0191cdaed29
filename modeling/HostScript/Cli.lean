import HostScript.Cli.Arguments
import HostScript.Cli.Screen
import HostScript.Service

/-!
# Commands

The commands of the command line: each one reads a file, asks the service, and shows the answer.
-/

namespace HostScript.Cli

/-- What commands can see of the world. -/
structure World where
  /-- The files by name. -/
  files : List (Text × Text)
  /-- The folders that files can be written to, apart from the one that commands run in. -/
  folders : List Text
  /-- The variables of the environment by name. -/
  environment : List (Text × Text)

namespace World

/-- What stands at a path without detours below a root; all line breaks of files are line feeds. -/
def known (w : World) (root : Text) (names : List Text) : Path.Place :=
  let here (n : Text) : Bool := Path.root n == root && Path.straight n == names
  match w.files.find? fun (n, _) => here n with
  | some (_, t) => .file t.unifyBreaks
  | none => if w.folders.any here then .folder else .nothing

/-- What stands at a path. -/
def place (w : World) (path : Text) : Path.Place :=
  if path.isEmpty then .nothing
  else Path.follow (w.known (Path.root path)) [] (Text.splitOn '/' path)

/-- The text of a file. -/
def read? (w : World) (path : Text) : Option Text :=
  match w.place path with
  | .file t => some t
  | _ => none

/-- Refuses a path that no file can be written to. -/
def checkWritable (w : World) (path : Text) : Outcome Unit :=
  match w.place path with
  | .file _ => .ok ()
  | .folder => .error (.isFolder path)
  | .underFile => .error (.isNoFolder path)
  | .nothing =>
    let folder := Path.folder path
    match folder.isEmpty, w.place folder with
    | true, _ | _, .folder => .ok ()
    | _, _ => .error (.missingFolder path)

/-- A world with some files, in which just the folders of these files exist. -/
def ofFiles (files environment : List (Text × Text)) : World :=
  ⟨files, files.flatMap fun (n, _) => Path.folders n, environment⟩

end World

/-- A command. -/
inductive Command where
  | compile
  | convert
  | execute
  | analyze
  | ir
  | formats
  | profiles

/-- The commands by name. -/
def commands : List (String × Command) := [
  ("compile", .compile), ("convert", .convert), ("execute", .execute), ("analyze", .analyze),
  ("ir", .ir), ("formats", .formats), ("profiles", .profiles)]

/-- What a command is for. -/
def Command.help : Command → String
  | .compile => "Compile SOURCE into code adapted for a target profile."
  | .convert => "Convert an instruction listing in SOURCE to JavaScript."
  | .execute => "Run the code in SOURCE in the sandbox and print its return value."
  | .analyze => "Static analysis report for the code in SOURCE."
  | .ir => "Show the intermediate representation recovered from SOURCE."
  | .formats => "List accepted dialects and instruction formats."
  | .profiles => "List target profiles."

/-- What the commands are for. -/
def about : List Text := [
  "jitphone -- source dialects and engine instructions to adapted JavaScript.",
  "Compile Objective-C or Swift style sources, convert instruction listings, optimize and adapt "
    ++ "the result for a target profile, and run it in a sandbox."]

/-- What stands before a command. -/
def globalGrammar : Grammar where
  options := [
    { key := "version", long := "--version", flag := some "yes"
      help := "Show the version and exit." },
    { key := "config", long := "--config", short := some 'c'
      help := "YAML settings file (default: $JITPHONE_CONFIG)" },
    { key := "log-level", long := "--log-level"
      help := "Logging level (default: the log_level setting)" }]
  interspersed := false

private def dialectOption (help : String) : Opt :=
  { key := "dialect", long := "--dialect", short := some 'd', help }

private def levelOption : Opt :=
  { key := "level", long := "--level", short := some 'O', value := "INTEGER RANGE"
    help := "Optimization level  [0<=x<=3]" }

private def profileOption (help : String) : Opt :=
  { key := "profile", long := "--profile", short := some 'p', help }

private def outputOption : Opt :=
  { key := "output", long := "--output", short := some 'o'
    help := "Write the generated code to a file" }

private def jsonOption (help : String) : Opt :=
  { key := "json", long := "--json", flag := some "yes", help }

/-- What a command takes. -/
def Command.grammar : Command → Grammar
  | .compile => { options := [
      dialectOption "Source dialect (default: from the file extension)", levelOption,
      profileOption "Target profile",
      { key := "polyfills", long := "--polyfills", flag := some "yes"
        opposite := some "--no-polyfills"
        help := "Guard disallowed identifiers and add polyfills" },
      { key := "for-size", long := "--optimize-for-size", flag := some "yes"
        help := "Shrink and truncate to the profile payload limit" },
      outputOption, jsonOption "Print the full response as JSON"] }
  | .convert => { options := [
      { key := "format", long := "--format", short := some 'f'
        help := "Instruction format tag  [required]" },
      levelOption,
      { key := "adapt", long := "--adapt", flag := some "yes"
        help := "Also adapt the result for a profile" },
      profileOption "Target profile (with --adapt)", outputOption,
      jsonOption "Print the full response as JSON"] }
  | .execute => { options := [
      { key := "input", long := "--input", short := some 'i'
        help := "JSON value passed to the code as \x60input\x60" },
      { key := "timeout", long := "--timeout", short := some 't', value := "FLOAT"
        help := "Wall-clock budget in seconds" }] }
  | .analyze => { options := [
      profileOption "Profile to check compatibility against",
      jsonOption "Print the report as JSON"] }
  | .ir => { options := [dialectOption "Dialect or instruction format tag"] }
  | .formats | .profiles => { options := [] }

/-- Whether a command reads a file. -/
def Command.readsFile : Command → Bool
  | .formats | .profiles => false
  | _ => true

/-- A level that was given; none if it is no level. -/
def level? (t : Text) : Option Int :=
  match Number.readInt t with
  | .ok n => if 0 ≤ n && n ≤ 3 then some n else none
  | .error _ => none

/-- Whether the values of options fit their types. -/
def Arguments.fits (a : Arguments) (c : Command) : Bool :=
  (a.value? "level").all (fun t => (level? t).isSome)
    && (a.value? "timeout").all (fun t => (Number.typedFloat? t).isSome)
    && (match c with
      | .convert => (a.value? "format").isSome
      | _ => true)

/-- A call of a command: its options, the name of its file and the text of it. -/
structure Call where
  arguments : Arguments
  path : Text := []
  text : Text := []

/-- Reads the arguments of a command; none if they do not fit. -/
def Command.call? (c : Command) (w : World) (a : Arguments) : Option Call :=
  if !a.fits c then none
  else if !c.readsFile then (if a.rest.isEmpty then some { arguments := a } else none)
  else match a.rest with
    | [path] => (w.read? path).map fun text => ⟨a, path, text⟩
    | _ => none

/-- The dialects of files by the end of their names. -/
def dialectOf? (path : Text) : Option String :=
  match (lower (Path.suffix path)).toStr with
  | ".swift" => some "swift"
  | ".m" | ".mm" | ".h" => some "objc"
  | ".js" => some "javascript"
  | _ => none

/-- The dialect of a call: the one that is given, or that of the file. -/
def Call.dialect (x : Call) : Except Result Text :=
  match (x.arguments.value? "dialect").filter (!·.isEmpty) with
  | some d => .ok d
  | none =>
    match dialectOf? x.path with
    | some d => .ok d.toList
    | none => .error (misused ("Error: Cannot tell the dialect of '" ++ x.path
        ++ "'; pass --dialect"))

/-- Shows code, or writes it to a file. -/
def showCode (w : World) (x : Call) (code : Text) : Result :=
  match (x.arguments.value? "output").filter (!·.isEmpty) with
  | none => Result.print {} [.verbatim (if code.endsWith "\n" then code else code ++ "\n")]
  | some output =>
    match w.checkWritable (Path.tidy output) with
    | .error f => escapes f
    | .ok _ =>
      let written : Result := { written := [(Path.resolved output, code)] }
      written.print [.line ("[green]Written to:[/] " ++ output)]

/-- Goes on printing unless a fault escaped. -/
def Result.andPrint (r : Result) (pieces : List Piece) : Result :=
  if r.escaped.isSome then r else r.print pieces

private def listed (ts : List Text) : Text := if ts.isEmpty then "none" else Text.join ", " ts

private def warningPiece (w : Text) : Piece := .line ("  [yellow]![/] " ++ w)

/-- What is shown about a compiled source. -/
def compilePieces (x : Service.CompileResponse) : List Piece :=
  let c := x.compiled
  let status : Text :=
    if c.verdict.compatible then "[green]compatible[/]" else "[red]incompatible[/]"
  .panel "jitphone compile" (Text.unlines [
      "Profile: " ++ x.profile ++ " (" ++ status ++ ")",
      "Optimizations: " ++ listed (c.optimizations.map String.toList),
      "Adaptations: " ++ listed c.adaptations,
      "Size: " ++ Text.ofNat x.request.source.length ++ " -> " ++ Text.ofNat c.code.length])
    :: c.verdict.issues.map (fun (i : Text) => .line ("  [red]x[/] " ++ i))
    ++ c.warnings.map warningPiece

/-- Compiles a file. -/
def runCompile (w : World) (s : Service) (x : Call) : Result :=
  match x.dialect with
  | .error r => r
  | .ok dialect =>
    let a := x.arguments
    let request : Service.CompileRequest := {
      source := x.text
      dialect := dialect
      level := ((a.value? "level").bind level?).getD s.settings.defaultLevel
      profile := (a.value? "profile").getD []
      polyfills := a.value? "polyfills" != some "no".toList
      forSize := a.isSet "for-size" }
    match ((Service.compile request).run s).1 with
    | .error f => failed f
    | .ok r =>
      if a.isSet "json" then { document := some r.toJson }
      else (showCode w x r.compiled.code).andPrint (compilePieces r)

/-- Converts a file. -/
def runConvert (w : World) (s : Service) (x : Call) : Result :=
  let a := x.arguments
  let request : Service.ConvertRequest := {
    instructions := x.text
    format := (a.value? "format").getD []
    profile := (a.value? "profile").getD []
    level := ((a.value? "level").bind level?).getD 0
    adapt := a.isSet "adapt" }
  match ((Service.convert request).run s).1 with
  | .error f => failed f
  | .ok r =>
    if a.isSet "json" then { document := some r.toJson }
    else (showCode w x r.code).andPrint (r.warnings.map warningPiece)

/-- What stands for the time that a script took: runs are not timed. -/
def untimed : Text := "<ms>"

/-- What is shown about a script that ran. -/
def showExecution (e : Sandbox.Execution) : Result :=
  let logs := e.logs.map fun (l : Text) => Piece.line ("[dim]log:[/] " ++ l)
  match e.outcome with
  | .ok v =>
    Result.print {} (logs ++ [.verbatim (v.line ++ "\n"), .line ("[green]ok[/] in " ++ untimed)])
  | .error f =>
    let r := Result.print {} (logs ++ [faultPiece f .line])
    { r with exitCode := 1 }

/-- The input of a script; a usage fault if it is no JSON. -/
def Call.input (x : Call) : Except Result Json :=
  match (x.arguments.value? "input").filter (!·.isEmpty) with
  | none => .ok .null
  | some t =>
    match Json.read t with
    | .ok v => .ok v
    | .error e =>
      match e.remaining with
      | some _ => .error (misused [])
      | none => .error (escapes (.badValue e.what))

/-- Runs the script in a file. -/
def runExecute {m : Type → Type} [Monad m] (engine : Sandbox.Run → m Sandbox.EngineAnswer)
    (s : Service) (x : Call) (input : Json) : m Result := do
  let timeout := ((x.arguments.value? "timeout").bind Number.typedFloat?).map Scalar.float
  match ← s.execute engine ⟨x.text, input, timeout⟩ with
  | .error f => pure (failed f)
  | .ok e => pure (showExecution e)

/-- Analyzes a file. -/
def runAnalyze (s : Service) (x : Call) : Result :=
  match s.analyze x.text ((x.arguments.value? "profile").getD []) with
  | .error f => failed f
  | .ok r =>
    if x.arguments.isSet "json" then { document := some (.ofPairs r.members) }
    else Result.print {} [.panel ("Analysis: " ++ x.path) r.summary]

/-- The table of the routines of a listing. -/
def routinesTable (rs : List Routine) : Piece :=
  .table ("Lowered functions (" ++ Text.ofNat rs.length ++ ")")
    ["Function", "Params", "Instructions", "Unsupported", "Tags"]
    (rs.map fun r => [r.name, Text.join ", " r.params, Text.ofNat r.instructions.length,
      Text.ofNat r.unknownCount, Text.join ", " r.tags])

/-- What is shown about the declarations of a source. -/
def modulePieces (m : Declaration.Module) : List Piece :=
  .table ("IR module (" ++ m.dialect.name.toList ++ ")") ["Kind", "Count"]
      (m.summary.map fun (kind, count) => [kind.toList, Text.ofNat count])
    :: m.warnings.map fun w => .trimmed ("  [yellow]![/] " ++ w.describe)

/-- Shows what a file declares. -/
def runIr (s : Service) (x : Call) : Result :=
  match x.dialect with
  | .error r => r
  | .ok tag =>
    if (Listing.format? tag).isSome then
      match s.lower x.text tag with
      | .error f => failed f .trimmed
      | .ok rs => Result.print {} [routinesTable rs]
    else
      match s.declarations x.text tag with
      | .error f => failed f .trimmed
      | .ok m => Result.print {} (modulePieces m)

/-- Shows what sources and listings are accepted. -/
def runFormats : Result :=
  Result.print {} [.line ("Dialects: " ++ Text.join ", " Service.dialectTags),
    .table "Instruction formats" ["Tag", "Implemented", "Description"]
      (Listing.formats.map fun f => [f.tag.toList,
        if f.isImplemented then "yes" else "[dim]stub[/]", f.description.toList])]

/-- Shows the profiles. -/
def runProfiles (s : Service) : Result :=
  Result.print {} [.table "Target profiles"
    ["Name", "Aliases", "Harness", "Max payload", "Disallowed"]
    (s.registry.profiles.map fun p => [p.name, Text.join ", " p.aliases, p.harness,
      Text.ofInt p.maxPayload, Text.join ", " p.disallowed])]

/-- Runs a command on a service. -/
def Command.run {m : Type → Type} [Monad m] (engine : Sandbox.Run → m Sandbox.EngineAnswer)
    (w : World) (s : Service) (x : Call) : Command → m Result
  | .compile => pure (runCompile w s x)
  | .convert => pure (runConvert w s x)
  | .execute =>
    match x.input with
    | .error r => pure r
    | .ok input => runExecute engine s x input
  | .analyze => pure (runAnalyze s x)
  | .ir => pure (runIr s x)
  | .formats => pure runFormats
  | .profiles => pure (runProfiles s)

/-- The settings that commands use; a fault in them ends the command. -/
def settings (w : World) (asked : Option Text) : Except Result Settings :=
  let file := (Settings.fileName? asked w.environment).map fun n =>
    Settings.File.mk n (w.place (Path.tidy n))
  match Settings.load file w.environment with
  | .ok s => .ok s
  | .error (.badValue m) => .error (refused m)
  | .error (.missingFile n) => .error (refused (Fault.missingFile n).message)
  | .error (.isFolder n) => .error (refused (Fault.isFolder n).message)
  | .error f => .error (escapes f)

/-- The levels of the log. -/
def logLevels : List String :=
  ["CRITICAL", "FATAL", "ERROR", "WARN", "WARNING", "INFO", "DEBUG", "NOTSET"]

/-- Refuses a level of the log that does not exist. -/
def checkLogLevel (level : Text) : Except Result Unit :=
  let name := upper level
  if logLevels.any (·.toList == name) then .ok ()
  else .error (escapes (.badValue ("Unknown level: " ++ Text.quoted name)))

/-- What happens before a command: the level of the log is given, or that of the settings. -/
def prepare (w : World) (globals : Arguments) : Except Result Unit := do
  match (globals.value? "log-level").filter (!·.isEmpty) with
  | some level => checkLogLevel level
  | none => checkLogLevel (← settings w (globals.value? "config")).logLevel

/-- The service of a command. -/
def serviceFor (w : World) (globals : Arguments) : Except Result Service := do
  let s ← settings w (globals.value? "config")
  match Service.ofSettings s Profile.bundledRegistry with
  | .ok s => .ok s
  | .error f => .error (escapes f)

/-- The help page of the commands. -/
def helpPage : Text :=
  Help.page "[OPTIONS] COMMAND [ARGS]..." about globalGrammar
    ((commands.map fun (n, c) => (n.toList, c.help.toList)).mergeSort
      fun a b => Text.le a.1 b.1)

/-- Whether the lines that a command shows have no blanks at their ends. -/
def Command.trimsLines : Command → Bool
  | .ir | .formats | .profiles => true
  | _ => false

/-- The help page of a command. -/
def Command.helpPage (name : Text) (c : Command) : Text :=
  let page := Help.page (name ++ " [OPTIONS]" ++ (if c.readsFile then " SOURCE" else ""))
    [c.help.toList] c.grammar []
  if c.trimsLines then Text.unlines ((Text.lines page).map Text.trim) else page

/-- Runs a command with its arguments. -/
def runCommand {m : Type → Type} [Monad m] (engine : Sandbox.Run → m Sandbox.EngineAnswer)
    (w : World) (globals : Arguments) (name : Text) (c : Command) (args : List Text) : m Result :=
  match prepare w globals with
  | .error r => pure r
  | .ok _ =>
    match c.grammar.read? none args with
    | none => pure (misused [])
    | some a =>
      if a.isSet "help" then pure { stdout := c.helpPage name }
      else match c.call? w a with
        | none => pure (misused [])
        | some x =>
          -- A script's input is read before the settings are.
          match c, x.input with
          | .execute, .error r => pure r
          | _, _ =>
            match serviceFor w globals with
            | .error r => pure r
            | .ok s => c.run engine w s x

/-- The arguments of the command that is called, if they can be read. -/
def commandArguments? (args : List Text) : Option Arguments := do
  let globals ← globalGrammar.read? none args
  let name ← globals.rest.head?
  let (_, c) ← commands.find? (·.1.toList == name)
  c.grammar.read? none globals.rest.tail

/-- The names of the files that a run may read: that of the settings and that of the command. -/
def filesRead (environment : List (Text × Text)) (args : List Text) : List Text :=
  let config := (globalGrammar.read? none args).bind (·.value? "config")
  (Settings.fileName? config environment).toList
    ++ ((commandArguments? args).map (·.rest)).getD []

/-- The name of the file that a run may write. -/
def fileWritten? (args : List Text) : Option Text :=
  (commandArguments? args).bind (·.value? "output")

/-- What is shown about the version. -/
def version : Text := "main, version 0.1.0\n"

/-- Runs the command line. Of the questions for help and for the version the first is answered. -/
def run {m : Type → Type} [Monad m] (engine : Sandbox.Run → m Sandbox.EngineAnswer) (w : World)
    (args : List Text) : m Result :=
  match globalGrammar.read? none args with
  | none => pure (misused [])
  | some globals =>
    match globals.values.find? fun (key, _) => key == "help" || key == "version" with
    | some (key, _) => pure { stdout := if key == "help" then helpPage else version }
    | none =>
      match globals.rest with
      | [] => pure (misused [])
      | name :: rest =>
        match commands.find? (·.1.toList == name) with
        | none => pure (misused [])
        | some (_, c) => runCommand engine w globals name c rest

end HostScript.Cli
