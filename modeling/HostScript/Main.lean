import HostScript.Cli
import HostScript.Json

/-!
# The program

Reads what the commands may see, runs the one that is asked for, and shows what became of it. No
script engine is built in, so scripts that are to be executed fail.
-/

open HostScript

/-- The variables that commands look at, with their values. -/
def readEnvironment : IO (List (Text × Text)) :=
  (Settings.fileVariable :: Settings.names.map Settings.variableOf).filterMapM fun name => do
    pure ((← IO.getEnv name.toStr).map fun v => (name, v.toList))

/-- The text of a file; none if it cannot be read. -/
def readText? (name : Text) : IO (Option Text) := do
  try
    pure (some (← IO.FS.readFile name.toStr).toList)
  catch _ => pure none

/-- What the commands may see when they are called with some arguments. Whether the folder of the
output exists comes out when the output is written. -/
def readWorld (args : List Text) : IO Cli.World := do
  let environment ← readEnvironment
  let files ← (Cli.filesRead environment args).filterMapM fun n => do
    pure ((← readText? n).map fun t => (n, t))
  let names := files.map (·.1) ++ (Cli.fileWritten? args).toList
  pure ⟨files, names.flatMap Path.folders, environment⟩

/-- The engine that refuses every script. -/
def noEngine (_ : Sandbox.Run) : IO Sandbox.EngineAnswer :=
  pure (.threw "no script engine is built in")

/-- Shows what became of a command. -/
def showResult (r : Cli.Result) : IO UInt32 := do
  for (name, text) in r.written do
    IO.FS.writeFile name.toStr text.toStr
  match r.document with
  | some d => IO.println (d.indented 0).toStr
  | none => IO.print r.stdout.toStr
  IO.eprint r.stderr.toStr
  if let some f := r.escaped then
    IO.eprintln f.message.toStr
  pure r.exitCode.toUInt32

/-- Runs a command of the command line. -/
def main (args : List String) : IO UInt32 := do
  let args := args.map String.toList
  showResult (← Cli.run noEngine (← readWorld args) args)
