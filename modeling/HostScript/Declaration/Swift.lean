import HostScript.Declaration
import HostScript.Pattern.Match
import HostScript.Source.Block

/-!
# Reading Swift sources

Each line is matched against the heads of declarations; bodies are captured by braces, and the
members of a type are read like the lines of a source of their own. Reading never fails: what
cannot be classified is kept with a remark.
-/

namespace HostScript.Declaration.Swift

open Pattern Source

/-- Modifiers and attributes, each with white space behind it. -/
def modifiers : Pattern :=
  ((choice ["public", "private", "internal", "fileprivate", "open", "final", "override", "required",
        "convenience", "mutating", "nonmutating", "static", "class", "lazy", "weak", "unowned",
        "indirect", "dynamic"]
      <|> "@" ++ name ++ ("(" ++ (noneOf (among ")")).star ++ ")").opt) ++ gap).star

/-- The parameters of a generic declaration. -/
def genericPart : Pattern := ("<" ++ (noneOf (among ">")).star ++ ">").opt

/-- The head of a type: its kind is the second group, its name the third, what it inherits from the
fourth. -/
def typeHead : Pattern :=
  cap 1 modifiers ++ cap 2 (choice ["class", "struct", "enum", "protocol", "extension"]) ++ gap
    ++ cap 3 dotted ++ blanks ++ genericPart ++ blanks
    ++ (":" ++ blanks ++ cap 4 (noneOf (among "\x7b")).plusLazy).opt ++ blanks
    ++ ("where" ++ gap ++ (noneOf (among "\x7b")).plusLazy).opt ++ blanks
    ++ (cap 5 ("\x7b" ++ any.star)).opt ++ textEnd

/-- The head of a function up to its parameter list. -/
def funcHead : Pattern :=
  cap 1 modifiers ++ "func" ++ gap ++ cap 2 (name <|> (noneOf (isBlank ||| among "(")).plus)
    ++ blanks ++ genericPart ++ blanks ++ "("

/-- The head of an initializer up to its parameter list. -/
def initHead : Pattern :=
  cap 1 modifiers ++ "init" ++ (oneOf (among "?!")).opt ++ blanks ++ "("

/-- The head of a property: its value is the fifth group, its block the sixth. -/
def propertyHead : Pattern :=
  cap 1 modifiers ++ cap 2 (choice ["let", "var"]) ++ gap ++ cap 3 name ++ blanks
    ++ (":" ++ blanks ++ cap 4 (noneOf (among "=\x7b")).plusLazy).opt ++ blanks
    ++ ("=" ++ blanks ++ cap 5 any.plusLazy).opt ++ blanks ++ (cap 6 ("\x7b" ++ any.star)).opt
    ++ textEnd

/-- The cases on a line of an enumeration. -/
def caseHead : Pattern :=
  ("indirect" ++ gap).opt ++ "case" ++ gap ++ cap 1 any.plus ++ textEnd

/-- An import. -/
def importHead : Pattern := "import" ++ gap ++ (name ++ gap).opt ++ cap 1 dotted

private def parameterForm : Pattern :=
  (cap 1 name ++ gap).opt ++ cap 2 name ++ blanks ++ ":" ++ blanks ++ cap 3 any.plusLazy
    ++ (blanks ++ "=" ++ blanks ++ cap 4 any.plus).opt ++ textEnd

/-- The head of an accessor: its word, and the name of what it is given. -/
def accessorHead : Pattern :=
  cap 1 (choice ["get", "set", "willSet", "didSet"]) ++ blanks ++ ("(" ++ cap 2 name ++ ")").opt
    ++ blanks ++ "\x7b"

private def caseForm : Pattern :=
  cap 1 name ++ blanks ++ (cap 2 ("(" ++ any.star ++ ")")).opt ++ blanks
    ++ ("=" ++ blanks ++ cap 3 any.plus).opt ++ textEnd

private def throwsHead : Pattern :=
  ("async" ++ gap).opt ++ choice ["throws", "rethrows"] ++ edge

private def returnPart : Pattern :=
  "->" ++ blanks ++ cap 1 (noneOf (among "\x7b")).plusLazy ++ blanks ++ (lit "\x7b" <|> textEnd)

private def typeLevel : Pattern := edge ++ choice ["static", "class"] ++ blank

private def parameterAttribute : Pattern := "@" ++ name ++ gap <|> edge ++ "inout" ++ gap

/-- Protocols of the standard library, which are never a superclass. -/
def libraryProtocols : List String :=
  ["Equatable", "Hashable", "Comparable", "Codable", "Encodable", "Decodable",
    "CustomStringConvertible", "CustomDebugStringConvertible", "Identifiable", "CaseIterable",
    "Error", "Sendable"]

/-- Types that the values of an enumeration can have. -/
def rawTypes : List String := ["Int", "String", "Double", "Character", "UInt"]

/-- The index of the last line of the statement that starts on the first line. -/
def statementEnd (line : Line) (rest : List Line) : Nat :=
  if braceDelta line.text > 0 then (captureBlock (line :: rest) 0).last else 0

/-- The parameters of a list. -/
def parameters (raw : Text) : List Parameter :=
  (splitTopLevel .arguments raw).map fun part =>
    let part := (parameterAttribute.erase part).trim
    match parameterForm.match? part with
    | none =>
      let plain := part.map fun c => if isWord c then c else '_'
      { name := if plain.isEmpty then "arg" else plain }
    | some m =>
      { name := m.group 2, typeName := Text.trim (m.group 3),
        label := (m.group? 1).getD (m.group 2), defaultValue := Text.trim (m.group 4) }

/-- The head of a declaration, joined from several lines if its parameter list spans them, and the
number of further lines joined. -/
def joinHead (text : Text) (depth : Int) (joined : Nat) : List Line → Text × Nat
  | [] => (text, joined)
  | line :: rest =>
    if depth > 0 then
      joinHead (text ++ " " ++ line.text)
        (depth + (line.text.count '(' : Int) - (line.text.count ')' : Int)) (joined + 1) rest
    else (text, joined)

/-- The head that starts on a line. -/
def headFrom (line : Line) (rest : List Line) : Text × Nat :=
  joinHead line.text ((line.text.count '(' : Int) - (line.text.count ')' : Int)) 0 rest

/-- A head cut at its parameter list: the parameters, what follows them, and whether the list is
closed. -/
def cutSignature (head : Text) (open_ : Nat) : Text × Text × Bool :=
  match closing? head open_ with
  | none => (head.drop (open_ + 1), [], false)
  | some close => (head.slice (open_ + 1) close, (head.since (close + 1)).trim, true)

/-- Whether a body follows: a brace after the parameters or at the start of the next line. -/
def hasBody (tail : Text) (after : List Line) : Bool :=
  tail.contains '\x7b' || after.head?.any (·.text.startsWith "\x7b")

/-- The text between the first brace of the tail and the last brace of a head. -/
def bodyOnHead (head tail : Text) : Text :=
  let from_ := (Text.indexOf? tail head).getD 0
  let start := ((Text.indexFrom? "\x7b" head from_).map (· + 1)).getD 0
  let stop := head.length - 1 - (head.reverse.takeWhile (· != '\x7d')).length
  (head.slice start stop).trim

/-- Reads a function; gives the module, the function and the number of further lines read. -/
def readFunc (m : Module) (line : Line) (rest : List Line) (requirement : Bool) :
    Module × Option Method × Nat :=
  let (head, joined) := headFrom line rest
  match funcHead.match? head with
  | none => (m, none, joined)
  | some f =>
    let funcName := f.group 2
    let modifierText := f.group 1
    let (raw, tail, closed) := cutSignature head (f.stop - 1)
    let m := if closed then m else
      m.warn line.number ("func '" ++ funcName ++ "': unterminated parameter list") head
    let method : Method :=
      { name := funcName, parameters := parameters raw,
        returnType := ((returnPart.search? tail).map fun r => Text.trim (r.group 1)).getD [],
        isStatic := typeLevel.occursIn modifierText,
        isMutating := Text.hasInfix "mutating" modifierText, throws := throwsHead.fits tail,
        line := line.number }
    if !hasBody tail (rest.drop joined) then
      let m := if requirement then m else
        m.warn line.number ("func '" ++ funcName ++ "' has no body") head
      (m, some { method with isDeclaration := true }, joined)
    else
      let block := captureBlock ((line :: rest).drop joined) 0
      let body := if tail.contains '\x7b' && block.last == 0 && block.closed then
          bodyOnHead head tail
        else block.body
      let m := if block.closed then m else
        m.warn line.number ("unterminated body of func '" ++ funcName ++ "'") head
      (m, some { method with body := body }, joined + block.last)

/-- Reads an initializer; gives the module, the initializer and the number of further lines
read. -/
def readInit (m : Module) (line : Line) (rest : List Line) (requirement : Bool) :
    Module × Option Initializer × Nat :=
  let (head, joined) := headFrom line rest
  match initHead.match? head with
  | none => (m, none, joined)
  | some f =>
    let (raw, tail, closed) := cutSignature head (f.stop - 1)
    let m := if closed then m else
      m.warn line.number "init: unterminated parameter list" head
    let init : Initializer :=
      { parameters := parameters raw, isConvenience := Text.hasInfix "convenience" (f.group 1),
        line := line.number }
    if !hasBody tail (rest.drop joined) then
      let m := if requirement then m else m.warn line.number "initializer has no body" head
      (m, some init, joined)
    else
      let block := captureBlock ((line :: rest).drop joined) 0
      let body := if block.last == 0 && block.closed then bodyOnHead head tail else block.body
      let m := if block.closed then m else
        m.warn line.number "unterminated initializer body" head
      (m, some { init with body := body }, joined + block.last)

/-- Reads the accessors of a property from the lines of its block. -/
def readAccessors (number : Nat) (m : Module) (p : Property) : List Line → Module × Property
  | [] => (m, p)
  | line :: rest =>
    match accessorHead.match? line.text with
    | none =>
      readAccessors number
        (m.warn number ("unexpected text in accessors of '" ++ p.name ++ "'") line.text) p rest
    | some a =>
      let block := captureBlock (line :: rest) 0
      let (m, p) : Module × Property :=
        if a.group 1 == "get".toList then
          (m, { p with getter := if block.body.isEmpty then "return undefined" else block.body })
        else if a.group 1 == "set".toList then
          (m, { p with setter := block.body, setterParam := (a.group? 2).getD p.setterParam })
        else
          (m.warn number (a.group 1 ++ " observer on '" ++ p.name ++ "' is not supported")
            line.text, p)
      readAccessors number m p (rest.drop block.last)
termination_by lines => lines.length
decreasing_by all_goals (simp only [List.length_drop, List.length_cons]; omega)

/-- The property with the accessors of its block; a block without accessors is its value. -/
def withAccessors (m : Module) (p : Property) (number : Nat) (body : Text) : Module × Property :=
  let lines := significantLines body
  match lines with
  | first :: _ =>
    if accessorHead.fits first.text then readAccessors number m p lines
    else (m, { p with getter := body })
  | [] => (m, { p with getter := body })

/-- Reads a property; gives the module, the property and the number of further lines read. -/
def readProperty (m : Module) (f : Match) (line : Line) (rest : List Line) (requirement : Bool) :
    Module × Property × Nat :=
  let modifierText := f.group 1
  let attributes := (["lazy", "weak", "unowned"].filter fun w =>
    (edge ++ lit w ++ blank).occursIn modifierText).map String.toList
  let p : Property :=
    { name := f.group 3, typeName := Text.trim (f.group 4), initialValue := Text.trim (f.group 5),
      isConstant := f.group 2 == "let".toList, isStatic := typeLevel.occursIn modifierText,
      attributes := attributes, line := line.number }
  let block := captureBlock (line :: rest) 0
  if (f.group? 6).isNone then
    if !p.initialValue.isEmpty && braceDelta p.initialValue > 0 then
      let whole := Text.unlines (((line :: rest).take (block.last + 1)).map (·.text))
      let value : Text := (whole.cutAt '=').2.getD []
      (m, { p with initialValue := value.trim }, block.last)
    else (m, p, 0)
  else
    let m := if block.closed then m else
      m.warn line.number ("unterminated accessor block for '" ++ p.name ++ "'") line.text
    if requirement then (m, p, block.last)
    else
      let (m, p) := withAccessors m p line.number block.body
      (m, p, block.last)

/-- The kinds of types. -/
inductive TypeKind where
  | ofClass
  | ofStruct
  | ofEnum
  | ofProtocol
  | ofExtension
  deriving DecidableEq

/-- The kind that a word opens. -/
def TypeKind.ofWord (word : Text) : TypeKind :=
  if word == "class".toList then .ofClass
  else if word == "struct".toList then .ofStruct
  else if word == "enum".toList then .ofEnum
  else if word == "protocol".toList then .ofProtocol
  else .ofExtension

/-- The members of a type. -/
structure Members where
  cases : List EnumCase := []
  properties : List Property := []
  methods : List Method := []
  initializers : List Initializer := []

/-- The lines between the braces of the type that starts on the first line; `last` is the index of
the line where it ends. -/
def bodyLines (line : Line) (rest : List Line) (last : Nat) (closed : Bool) : List Line :=
  let lines := line :: rest
  let isSolid (l : Line) : Bool := !l.text.isEmpty
  let upToLastBrace (t : Text) : Text :=
    ((t.reverse.dropWhile (· != '\x7d')).drop 1).reverse
  if last == 0 && closed then
    let inner := (upToLastBrace line.text).since
      (((Text.indexOf? "\x7b" line.text).map (· + 1)).getD 0)
    ((inner.trim.splitOn ';').map fun p => (⟨line.number, p.trim⟩ : Line)).filter isSolid
  else
    -- The brace may stand on the line after the head.
    let start := if (Text.indexOf? "\x7b" line.text).isNone && !rest.isEmpty then 1 else 0
    let first := (lines[start]?).getD line
    let after := first.text.since (((Text.indexOf? "\x7b" first.text).map (· + 1)).getD 0)
    let stop := if closed then last else last + 1
    let middle := (lines.take stop).drop (start + 1)
    let final := match lines[last]? with
      | some l => if closed then [(⟨l.number, Text.trim (upToLastBrace l.text)⟩ : Line)] else []
      | none => []
    ([(⟨first.number, after.trim⟩ : Line)].filter isSolid) ++ middle ++ final.filter isSolid

/-- Adds a type with its members to a module. -/
def addType (m : Module) (kind : TypeKind) (typeName : Text) (inherits : List Text)
    (superclass : Text) (line : Nat) (b : Members) : Module :=
  match kind with
  | .ofClass =>
    let d : ClassType :=
      { name := typeName, superclass := superclass,
        protocols := if superclass.isEmpty then inherits else inherits.drop 1,
        properties := b.properties, methods := b.methods, initializers := b.initializers,
        line := line }
    { m with classes := m.classes ++ [d] }
  | .ofStruct =>
    let d : Struct :=
      { name := typeName, protocols := inherits, properties := b.properties, methods := b.methods,
        initializers := b.initializers, line := line }
    { m with structs := m.structs ++ [d] }
  | .ofEnum =>
    let raw := (inherits.head?.filter fun t => rawTypes.any (·.toList == t)).getD []
    let d : Enum :=
      { name := typeName, rawType := raw, cases := b.cases, methods := b.methods, line := line }
    { m with enums := m.enums ++ [d] }
  | .ofProtocol =>
    let d : Protocol :=
      { name := typeName, inherited := inherits, requirements := b.methods,
        properties := b.properties, line := line }
    { m with protocols := m.protocols ++ [d] }
  | .ofExtension =>
    let d : Extension :=
      { extendedType := typeName, protocols := inherits, properties := b.properties,
        methods := b.methods, line := line }
    { m with extensions := m.extensions ++ [d] }

/-- Reads a type, whose members `members` reads; gives the module and the number of further lines
read. The first inherited name of a class is its superclass unless it is a known protocol. -/
def readType (members : TypeKind → Module → List Line → Module × Members) (m : Module) (h : Match)
    (line : Line) (rest : List Line) : Module × Nat :=
  let word := h.group 2
  let typeName := h.group 3
  let kind := TypeKind.ofWord word
  let inherits := splitTopLevel .arguments (h.group 4)
  let block := captureBlock (line :: rest) 0
  if !block.opened then
    let m := m.warn line.number (word ++ " '" ++ typeName ++ "' has no body") line.text
    (m.keep line.text line.number (word ++ " without body"), 0)
  else
    let m := if block.closed then m else
      m.warn line.number ("unterminated " ++ word ++ " '" ++ typeName ++ "'") line.text
    let isProtocol (t : Text) : Bool :=
      libraryProtocols.any (·.toList == t) || m.protocols.any (·.name == t)
    let superclass := (inherits.head?.filter (!isProtocol ·)).getD []
    let (m, b) := members kind m (bodyLines line rest block.last block.closed)
    (addType m kind typeName inherits superclass line.number b, block.last)

/-- Reads the cases on a line. -/
def readCases (m : Module) (b : Members) (raw : Text) (line : Line) : Module × Members :=
  (splitTopLevel .arguments raw).foldl (fun (m, b) part =>
    match caseForm.match? part with
    | none => (m.warn line.number ("unrecognized enum case '" ++ part ++ "'") line.text, b)
    | some c =>
      let m := if (c.group? 2).isNone then m else
        m.warn line.number ("associated values of case '" ++ c.group 1 ++ "' are dropped") line.text
      let new : EnumCase := { name := c.group 1, rawValue := Text.trim (c.group 3) }
      (m, { b with cases := b.cases ++ [new] }))
    (m, b)

/-- Adds a property to the members of a type. An enumeration stores nothing; what it computes is a
method. -/
def addPropertyMember (kind : TypeKind) (m : Module) (b : Members) (p : Property) (line : Line) :
    Module × Members :=
  if kind == .ofEnum then
    if p.isComputed then
      let method : Method :=
        { name := p.name, returnType := p.typeName, body := p.getter, line := p.line }
      (m, { b with methods := b.methods ++ [method] })
    else (m.warn line.number ("stored property '" ++ p.name ++ "' in enum ignored") line.text, b)
  else (m, { b with properties := b.properties ++ [p] })

/-- The first word of a line, up to a parenthesis. -/
def leadingWord (text : Text) : Text := (((Text.words text).headD []).cutAt '(').1

/-- Reads a member that is no case and no type. -/
def readPlainMember (kind : TypeKind) (m : Module) (b : Members) (line : Line) (rest : List Line) :
    Module × Members × Nat :=
  let text := line.text
  let requirement := kind == .ofProtocol
  if funcHead.fits text then
    let (m, method, last) := readFunc m line rest requirement
    (m, { b with methods := b.methods ++ method.toList }, last)
  else if initHead.fits text then
    let (m, init, last) := readInit m line rest requirement
    if kind == .ofClass || kind == .ofStruct then
      (m, { b with initializers := b.initializers ++ init.toList }, last)
    else if requirement then (m, b, last)
    else (m.warn line.number "initializer outside a class or struct ignored" text, b, last)
  else if text.startsWith "deinit" || text.startsWith "subscript" then
    (m.warn line.number ("'" ++ leadingWord text ++ "' is not supported and was skipped") text, b,
      statementEnd line rest)
  else match propertyHead.match? text with
    | some f =>
      let (m, p, last) := readProperty m f line rest requirement
      let (m, b) := addPropertyMember kind m b p line
      (m, b, last)
    | none =>
      let m := m.warn line.number "unrecognized member declaration" text
      (m.keep text line.number "member", b, statementEnd line rest)

/-- Reads one member; gives the module, the members and the number of further lines read. -/
def readMember (inner : TypeKind → Module → List Line → Module × Members) (kind : TypeKind)
    (m : Module) (b : Members) (line : Line) (rest : List Line) : Module × Members × Nat :=
  let text := line.text
  if text == ['\x7d'] || text == ['\x7b'] then (m, b, 0)
  else match (caseHead.match? text).filter fun _ => kind == .ofEnum with
    | some c =>
      let (m, b) := readCases m b (c.group 1) line
      (m, b, 0)
    | none =>
      match typeHead.match? text with
      | some h =>
        let (m, last) := readType inner m h line rest
        (m, b, last)
      | none => readPlainMember kind m b line rest

/-- Reads the members of a type. -/
def readMembers : (fuel : Nat) → TypeKind → Module → Members → List Line → Module × Members
  | 0, _, m, b, _ => (m, b)
  | _ + 1, _, m, b, [] => (m, b)
  | fuel + 1, kind, m, b, line :: rest =>
    let (m, b, last) :=
      readMember (fun k m ls => readMembers fuel k m {} ls) kind m b line rest
    readMembers fuel kind m b (rest.drop last)

/-- A bound on the steps that reading takes. The members of a type come from its lines by cutting
each into shorter ones, at most two of which share characters, so powers of two of the lengths
add up to less. -/
def weight (lines : List Line) : Nat :=
  lines.foldr (fun l n => Nat.pow 2 l.text.length + n) 1

/-- Reads one declaration of a source; gives the module and the number of further lines read. -/
def readTop (inner : TypeKind → Module → List Line → Module × Members) (m : Module) (line : Line)
    (rest : List Line) : Module × Nat :=
  let text := line.text
  match importHead.match? text with
  | some i => ({ m with imports := m.imports ++ [i.group 1] }, 0)
  | none =>
    match typeHead.match? text with
    | some h => readType inner m h line rest
    | none =>
      if funcHead.fits text then
        let (m, method, last) := readFunc m line rest false
        let new := method.toList.map fun f =>
          ({ name := f.name, parameters := f.parameters, returnType := f.returnType,
             body := f.body, throws := f.throws, line := f.line } : Function)
        ({ m with functions := m.functions ++ new }, last)
      else match propertyHead.match? text with
        | some f =>
          let (m, p, last) := readProperty m f line rest false
          if p.isComputed then
            let function : Function :=
              { name := p.name, returnType := p.typeName, body := p.getter, line := p.line }
            let m := { m with functions := m.functions ++ [function] }
            (m.warn line.number
              ("top-level computed variable '" ++ p.name ++ "' lowered to a function") text, last)
          else
            let new : Variable :=
              { name := p.name, typeName := p.typeName, initialValue := p.initialValue,
                isConstant := p.isConstant, line := p.line }
            ({ m with globals := m.globals ++ [new] }, last)
        | none =>
          if text == ['\x7d'] then (m.warn line.number "unbalanced closing brace" text, 0)
          else
            let last := statementEnd line rest
            let statement := Text.unlines (((line :: rest).take (last + 1)).map (·.text))
            let m := m.keep statement line.number "top-level statement"
            (m.warn line.number "unrecognized top-level statement" text, last)

/-- Reads the declarations of a source. -/
def readLines (fuel : Nat) (m : Module) : List Line → Module
  | [] => m
  | line :: rest =>
    let step := readTop (fun k m ls => readMembers fuel k m {} ls) m line rest
    readLines fuel step.1 (rest.drop step.2)
termination_by lines => lines.length
decreasing_by simp only [List.length_drop, List.length_cons]; omega

/-- Reads a Swift source. -/
def read (source : Text) : Module :=
  let lines := significantLines source
  readLines (weight lines) { dialect := .swift } lines

end HostScript.Declaration.Swift
