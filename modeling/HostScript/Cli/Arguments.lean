import HostScript.Text.Basic
import HostScript.Text.Wrap

/-!
# Command line arguments

Options have long names with two dashes and short names with one. A value follows its option, or
stands behind an equals sign after a long name, or directly behind a short name. Short names of
flags may share a dash.
-/

namespace HostScript.Cli

/-- An option. -/
structure Opt where
  /-- The name without dashes under which its value is kept. -/
  key : String
  long : String
  short : Option Char := none
  /-- The value that a flag stands for; none if the option takes a value. -/
  flag : Option String := none
  /-- Another long name, which gives the flag the value `no`. -/
  opposite : Option String := none
  /-- What its value is called. -/
  value : String := "TEXT"
  /-- What it is for. -/
  help : String

/-- What a command takes. -/
structure Grammar where
  options : List Opt
  /-- Whether options may follow other arguments. -/
  interspersed : Bool := true

/-- The option that every command has. -/
def helpOption : Opt :=
  { key := "help", long := "--help", flag := some "yes", help := "Show this message and exit." }

/-- Arguments that were read: the values of options in order, and the other arguments. -/
structure Arguments where
  values : List (String × Text) := []
  rest : List Text := []

namespace Arguments

/-- The last value of an option. -/
def value? (a : Arguments) (key : String) : Option Text := a.values.reverse.lookup key

/-- Whether a flag is set. -/
def isSet (a : Arguments) (key : String) : Bool := a.value? key == some "yes".toList

/-- The arguments with one more value in front. -/
def withValue (key : String) (v : Text) (a : Arguments) : Arguments :=
  { a with values := (key, v) :: a.values }

end Arguments

/-- The option with a long name, and the value that the name gives to a flag. -/
def Grammar.long? (g : Grammar) (name : Text) : Option (Opt × Option String) :=
  (helpOption :: g.options).findSome? fun o =>
    if o.long.toList == name then some (o, o.flag)
    else if (o.opposite.map String.toList) == some name then some (o, some "no")
    else none

/-- The option with a short name. -/
def Grammar.short? (g : Grammar) (c : Char) : Option Opt :=
  g.options.find? (·.short == some c)

/-- Reads short names that share a dash: the values they give, and the option that still waits for
its value. -/
def Grammar.cluster? (g : Grammar) : Text → Option (List (String × Text) × Option String)
  | [] => some ([], none)
  | c :: rest =>
    match g.short? c with
    | none => none
    | some o =>
      match o.flag with
      | some v => (g.cluster? rest).map fun (vs, waiting) => ((o.key, v.toList) :: vs, waiting)
      | none => if rest.isEmpty then some ([], some o.key) else some ([(o.key, rest)], none)

/-- Reads one argument that starts with a dash. -/
def Grammar.option? (g : Grammar) (arg : Text) : Option (List (String × Text) × Option String) :=
  let (name, explicit) := arg.cutAt '='
  match g.long? name with
  | some (o, flag) =>
    (match flag, explicit with
    | some v, none => some ([(o.key, v.toList)], none)
    | some _, some _ => none
    | none, some v => some ([(o.key, v)], none)
    | none, none => some ([], some o.key))
  | none => if arg.startsWith "--" then none else g.cluster? (arg.drop 1)

/-- Reads arguments; `waiting` is the option whose value comes next. None if they do not fit. -/
def Grammar.read? (g : Grammar) : (waiting : Option String) → List Text → Option Arguments
  | none, [] => some {}
  | some _, [] => none
  | some key, v :: rest => (g.read? none rest).map (Arguments.withValue key v)
  | none, arg :: rest =>
    if arg == "--".toList then some { rest := rest }
    else if arg.startsWith "-" && arg.length > 1 then
      match g.option? arg with
      | none => none
      | some (values, waiting) =>
        (g.read? waiting rest).map fun a => { a with values := values ++ a.values }
    else if g.interspersed then
      (g.read? none rest).map fun a => { a with rest := arg :: a.rest }
    else some { rest := arg :: rest }

end HostScript.Cli

/-!
## Help pages

A help page tells how a command is called, what it is for, and what each of its options does. It is
no wider than 78 characters.
-/

namespace HostScript.Cli.Help

/-- The width of a page. -/
def pageWidth : Nat := 78

/-- The lines of a text that fit a width, without blanks at their ends. -/
def paragraphLines (width : Nat) (t : Text) : List Text :=
  (Text.wrap .fold width t).map Text.trimEnd

/-- Lines that are set in by some blanks. -/
def setIn (n : Nat) (ls : List Text) : List Text :=
  ls.map fun (l : Text) => List.replicate n ' ' ++ l

/-- How an option is written. -/
def spelled (o : Opt) : Text :=
  let names : Text := match o.short, o.opposite with
    | some c, _ => '-' :: c :: ", " ++ o.long
    | none, some opposite => o.long ++ " / " ++ opposite
    | none, none => o.long
  if o.flag.isSome then names else names ++ " " ++ o.value

/-- Terms with their meanings in two columns; a term that is too wide has a line of its own. -/
def definitionLines (rows : List (Text × Text)) : List Text :=
  let column := min ((rows.map (·.1.length)).foldl max 0) 30 + 2
  rows.flatMap fun (term, meaning) =>
    let meanings := paragraphLines (pageWidth - column - 2) meaning
    let under := setIn (column + 2) meanings
    if term.length + 2 ≤ column then
      let gap := List.replicate (column - term.length) ' '
      ("  " ++ term ++ gap ++ meanings.headD []) :: under.tail
    else ("  " ++ term) :: under

/-- The start of a sentence that fits some characters; an ellipsis tells that it goes on. -/
def shortened (room : Nat) (t : Text) : Text :=
  if t.length ≤ room then t
  else Text.trimEnd (Text.trimEndOf (!isBlank ·) (t.upTo (room - 2))) ++ "..."

/-- A page: the call, the paragraphs on what the command does, its options and its commands. -/
def page (call : Text) (paragraphs : List Text) (g : Grammar) (commands : List (Text × Text)) :
    Text :=
  let about := paragraphs.flatMap fun (p : Text) => [] :: setIn 2 (paragraphLines 74 p)
  let options := (g.options ++ [helpOption]).map fun o => (spelled o, o.help.toList)
  let longest := (commands.map (·.1.length)).foldl max 0
  let rows := commands.map fun (n, t) => (n, shortened (pageWidth - 6 - longest) t)
  Text.unlines (("Usage: main " ++ call) :: about
      ++ [[], "Options:".toList] ++ definitionLines options
      ++ (if rows.isEmpty then [] else [[], "Commands:".toList] ++ definitionLines rows))
    ++ "\n"

end HostScript.Cli.Help
