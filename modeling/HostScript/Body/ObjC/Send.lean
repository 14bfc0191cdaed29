import HostScript.Body.Scope
import HostScript.Text.Case
import HostScript.Source.Bracket

/-!
# Message sends

Message sends become method calls, innermost first. Brackets that are no send are parked behind
characters of their own while the sends around them are rephrased. Some selectors have a script
form that is no call.
-/

namespace HostScript.Body.ObjC

open Pattern

/-- Stands for an opening bracket that is no send. -/
def parkedOpen : Char := '\x01'

/-- Stands for a closing bracket that is no send. -/
def parkedClose : Char := '\x02'

/-- Whether a character opens a group. -/
def opensGroup : CharSet := fun c => c == '(' || c == '[' || c == '\x7b' || c == parkedOpen

/-- Whether a character closes a group. -/
def closesGroup : CharSet := fun c => c == ')' || c == ']' || c == '\x7d' || c == parkedClose

/-- The number of groups open before each character. -/
def groupDepths : (depth : Int) → Text → List Int
  | _, [] => []
  | depth, c :: rest =>
    depth :: groupDepths
      (if opensGroup c then depth + 1 else if closesGroup c then depth - 1 else depth) rest

/-- The length of the receiver at the start of a send: up to white space outside groups. -/
def receiverLength : (depth : Int) → Text → Nat
  | _, [] => 0
  | depth, c :: rest =>
    if opensGroup c then 1 + receiverLength (depth + 1) rest
    else if closesGroup c then 1 + receiverLength (depth - 1) rest
    else if isBlank c && depth == 0 then 0
    else 1 + receiverLength depth rest

/-- A message send: its receiver, the labels of its selector and its arguments. A selector
without arguments has one label. -/
structure Send where
  receiver : Text
  labels : List Text
  args : List Text

/-- The texts that a send can go to: a name with the properties, calls and sends behind it, or a
group in parentheses. -/
def receiverForm : Pattern :=
  ("new" ++ gap).opt ++ oneOf isIdentPart ++ (oneOf (isWord ||| among "$.")).star
      ++ (oneOf (among "(\x01") ++ anything.star).opt
    <|> "(" ++ anything.star ++ ")"

/-- A label of a selector with its colon, at the start of a text or behind white space. -/
def keywordLabel : Pattern :=
  (textStart <|> after isBlank) ++ cap 1 cName ++ blanks ++ ":" ++ notAhead (lit ":")

/-- The labels of a send among all that look like one: those outside groups with no question mark
since the label before. -/
def keepLabels (rest : Text) (depths : List Int) : (kept : List Match) → List Match → List Match
  | kept, [] => kept
  | kept, m :: more =>
    let pending : Text := match kept.getLast? with
      | some last => rest.slice last.stop m.start
      | none => []
    if (depths[m.start]?).getD 0 != 0 || pending.contains '?' then keepLabels rest depths kept more
    else keepLabels rest depths (kept ++ [m]) more

/-- The trimmed arguments between the labels. -/
def labelArguments (rest : Text) : List Match → List Text
  | [] => []
  | [m] => [(rest.since m.stop).trim]
  | m :: next :: more => (rest.slice m.stop next.start).trim :: labelArguments rest (next :: more)

namespace Send

/-- The send inside a pair of brackets, none if they hold no send. -/
def parse? (inner : Text) : Option Send :=
  let s := inner.trim
  let skip := if s.startsWith "new " then 4 else 0
  let stop := skip + receiverLength 0 (s.drop skip)
  let receiver := s.take stop
  let rest := (s.since stop).trim
  if receiver.isEmpty || rest.isEmpty || !receiverForm.fitsAll receiver
      || receiver.head?.any isDigitLike then none
  else if cName.fitsAll rest then some ⟨receiver, [rest], []⟩
  else
    let marks := keepLabels rest (groupDepths 0 rest) [] (keywordLabel.allIn rest)
    match marks with
    | [] => none
    | first :: _ =>
      let args := labelArguments rest marks
      if first.start != 0 || args.any (·.isEmpty) then none
      else some ⟨receiver, marks.map (·.group 1), args⟩

/-- The selector: the label alone, or every label with its colon. -/
def selector (s : Send) : Text :=
  if s.args.isEmpty then s.labels.headD [] else s.labels.flatMap (· ++ [':'])

/-- The first argument. -/
def arg0 (s : Send) : Text := s.args.headD []

/-- The second argument. -/
def arg1 (s : Send) : Text := (s.args.drop 1).headD []

end Send

private def subscripted (s : Send) (index : Text) : Text := s.receiver ++ "[" ++ index ++ "]"

private def called (method : String) (s : Send) : Text :=
  s.receiver ++ "." ++ method.toList ++ "(" ++ s.arg0 ++ ")"

private def around (before : String) (after : String) (s : Send) : Text :=
  before.toList ++ s.receiver ++ after.toList

private def equalTo (s : Send) : Text := "(" ++ s.receiver ++ " === " ++ s.arg0 ++ ")"

private def formatCall (s : Send) : Text := "String.format(" ++ Text.join ", " s.args ++ ")"

private def arrayOf (s : Send) : Text :=
  let items := (Source.splitTopLevel .arguments (Text.join ", " s.args)).filter fun a =>
    a != "nil".toList && a != "NULL".toList
  "[" ++ Text.join ", " items ++ "]"

private def ofFoundation (form : String) (s : Send) : Option Text :=
  if s.receiver.startsWith "NS" then some form.toList else none

/-- A script form for the sends of a selector; some have it only for some receivers. -/
abbrev SelectorForm := String × (Send → Option Text)

/-- Selectors without arguments that have a script form of their own. -/
def unaryForms : List SelectorForm := [
  ("count", fun s => some (s.receiver ++ ".length")),
  ("length", fun s => some (s.receiver ++ ".length")),
  ("intValue", fun s => some (around "parseInt(" ", 10)" s)),
  ("integerValue", fun s => some (around "parseInt(" ", 10)" s)),
  ("floatValue", fun s => some (around "parseFloat(" ")" s)),
  ("doubleValue", fun s => some (around "parseFloat(" ")" s)),
  ("boolValue", fun s => some (around "Boolean(" ")" s)),
  ("stringValue", fun s => some (around "String(" ")" s)),
  ("description", fun s => some (around "String(" ")" s)),
  ("firstObject", fun s => some (subscripted s "0")),
  ("lastObject", fun s => some (subscripted s (s.receiver ++ ".length - 1"))),
  ("uppercaseString", fun s => some (s.receiver ++ ".toUpperCase()")),
  ("lowercaseString", fun s => some (s.receiver ++ ".toLowerCase()")),
  ("allKeys", fun s => some (around "Object.keys(" ")" s)),
  ("allValues", fun s => some (around "Object.values(" ")" s)),
  ("removeLastObject", fun s => some (s.receiver ++ ".pop()")),
  ("removeAllObjects", fun s => some (s.receiver ++ ".splice(0)")),
  ("class", fun s => some s.receiver),
  ("retain", fun s => some s.receiver),
  ("autorelease", fun s => some s.receiver),
  ("array", ofFoundation "[]"),
  ("dictionary", ofFoundation "\x7b\x7d"),
  ("string", ofFoundation "\"\"")]

/-- Selectors of strings, collections and objects that have a script form of their own. -/
def objectForms : List SelectorForm := [
  ("objectAtIndex:", fun s => some (subscripted s s.arg0)),
  ("objectAtIndexedSubscript:", fun s => some (subscripted s s.arg0)),
  ("objectForKey:", fun s => some (subscripted s s.arg0)),
  ("objectForKeyedSubscript:", fun s => some (subscripted s s.arg0)),
  ("valueForKey:", fun s => some (subscripted s s.arg0)),
  ("setObject:forKey:", fun s => some (subscripted s s.arg1 ++ " = " ++ s.arg0)),
  ("setValue:forKey:", fun s => some (subscripted s s.arg1 ++ " = " ++ s.arg0)),
  ("removeObjectForKey:", fun s => some ("delete " ++ subscripted s s.arg0)),
  ("addObject:", fun s => some (called "push" s)),
  ("addObjectsFromArray:", fun s => some (s.receiver ++ ".push(..." ++ s.arg0 ++ ")")),
  ("insertObject:atIndex:", fun s =>
    some (s.receiver ++ ".splice(" ++ s.arg1 ++ ", 0, " ++ s.arg0 ++ ")")),
  ("removeObjectAtIndex:", fun s => some (s.receiver ++ ".splice(" ++ s.arg0 ++ ", 1)")),
  ("containsObject:", fun s => some (called "includes" s)),
  ("indexOfObject:", fun s => some (called "indexOf" s)),
  ("isEqual:", fun s => some (equalTo s)),
  ("isEqualToString:", fun s => some (equalTo s)),
  ("isEqualToNumber:", fun s => some (equalTo s)),
  ("stringByAppendingString:", fun s => some ("(" ++ s.receiver ++ " + " ++ s.arg0 ++ ")")),
  ("componentsSeparatedByString:", fun s => some (called "split" s)),
  ("componentsJoinedByString:", fun s => some (called "join" s)),
  ("hasPrefix:", fun s => some (called "startsWith" s)),
  ("hasSuffix:", fun s => some (called "endsWith" s)),
  ("substringFromIndex:", fun s => some (called "substring" s)),
  ("substringToIndex:", fun s => some (s.receiver ++ ".substring(0, " ++ s.arg0 ++ ")")),
  ("characterAtIndex:", fun s => some (called "charAt" s)),
  ("appendString:", fun s => some (s.receiver ++ " += " ++ s.arg0)),
  ("appendFormat:", fun s => some (s.receiver ++ " += " ++ formatCall s)),
  ("isKindOfClass:", fun s => some ("(" ++ s.receiver ++ " instanceof " ++ s.arg0 ++ ")")),
  ("isMemberOfClass:", fun s =>
    some ("(" ++ s.receiver ++ ".constructor === " ++ s.arg0 ++ ")")),
  ("respondsToSelector:", fun s =>
    some ("(typeof " ++ subscripted s s.arg0 ++ " === \"function\")")),
  ("enumerateObjectsUsingBlock:", fun s => some (called "forEach" s))]

/-- Selectors that build a value and have a script form of their own. -/
def factoryForms : List SelectorForm := [
  ("stringWithFormat:", fun s => some (formatCall s)),
  ("initWithFormat:", fun s => some (formatCall s)),
  ("stringWithString:", fun s => some ("String(" ++ s.arg0 ++ ")")),
  ("arrayWithObjects:", fun s => some (arrayOf s)),
  ("arrayWithArray:", fun s => some (s.arg0 ++ ".slice()")),
  ("arrayWithCapacity:", fun _ => some "[]"),
  ("dictionaryWithCapacity:", fun _ => some "\x7b\x7d"),
  ("numberWithInt:", fun s => some s.arg0),
  ("numberWithInteger:", fun s => some s.arg0),
  ("numberWithUnsignedInteger:", fun s => some s.arg0),
  ("numberWithLong:", fun s => some s.arg0),
  ("numberWithFloat:", fun s => some s.arg0),
  ("numberWithDouble:", fun s => some s.arg0),
  ("numberWithBool:", fun s => some s.arg0)]

/-- All selectors with a script form of their own. -/
def selectorForms : List SelectorForm := unaryForms ++ objectForms ++ factoryForms

private def setterLabel : Pattern := "set" ++ cap 1 upperName

namespace Send

/-- The script form that the selector has of its own, unless the enclosing type declares a method
of that name. -/
def special? (scope : Scope) (s : Send) : Option Text :=
  if scope.methods.contains (Selector.methodName s.labels) then none
  else ((selectorForms.find? fun (sel, _) => sel.toList == s.selector).map (·.2)).bind (· s)

/-- The property that a setter send assigns. -/
def assigned? (s : Send) : Option Text :=
  if s.args.length != 1 then none
  else (setterLabel.matchAll? (s.labels.headD [])).map fun m =>
    match m.group 1 with
    | [] => []
    | c :: rest => lowerChar c ++ rest

/-- A send as a method call or property access. -/
def plain (scope : Scope) (s : Send) : Text :=
  let name := Selector.methodName s.labels
  let isProperty (n : Text) : Bool :=
    scope.knownProperties.contains n || scope.properties.contains n
  if s.args.isEmpty then
    if isProperty name && !scope.methods.contains name then s.receiver ++ "." ++ name
    else s.receiver ++ "." ++ name ++ "()"
  else
    let call := s.receiver ++ "." ++ name ++ "(" ++ Text.join ", " s.args ++ ")"
    match s.assigned? with
    | some prop =>
      if isProperty prop then s.receiver ++ "." ++ prop ++ " = " ++ s.arg0 else call
    | none => call

/-- A send in script form. -/
def write (scope : Scope) (s : Send) : Text :=
  let unary (label : String) : Bool := s.args.isEmpty && s.labels.head? == some label.toList
  if unary "new" then "new " ++ s.receiver ++ "()"
  else if unary "init" && s.receiver.startsWith "(new " then (s.receiver.drop 1).dropLast
  else (s.special? scope).getD (s.plain scope)

end Send

/-- A pair of brackets with none inside. -/
def innermostBrackets : Pattern := "[" ++ cap 1 (noneOf (among "[]")).star ++ "]"

/-- Rephrases one innermost pair of brackets after another. -/
def sendRounds (scope : Scope) : (budget : Nat) → Text → Text
  | 0, t => t
  | budget + 1, t =>
    match innermostBrackets.search? t with
    | none => t
    | some m =>
      let new : Text := match Send.parse? (m.group 1) with
        | some s => s.write scope
        | none => parkedOpen :: m.group 1 ++ [parkedClose]
      sendRounds scope budget (m.before ++ new ++ m.after)

/-- Rephrases all message sends. -/
def messageSends (scope : Scope) (t : Text) : Text :=
  (sendRounds scope (3 * t.count '[' + 10) t).map fun c =>
    if c == parkedOpen then '[' else if c == parkedClose then ']' else c

end HostScript.Body.ObjC
