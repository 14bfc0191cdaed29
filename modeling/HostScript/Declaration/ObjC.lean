import HostScript.Declaration
import HostScript.Pattern.Match
import HostScript.Text.Case
import HostScript.Source.Block

/-!
# Reading Objective-C sources

Sections for interfaces, implementations and protocols form a stack that `@end` closes; the bodies
of methods, functions and types are captured by braces. Reading never fails: what cannot be
classified is kept with a remark. Each class and each category is one declaration, however many
sections add to it.
-/

namespace HostScript.Declaration.ObjC

open Pattern Source

private def angleList (index : Nat) : Pattern :=
  ("<" ++ cap index (noneOf (among ">")).star ++ ">").opt

private def openBody (index : Nat) : Pattern := (cap index ("\x7b" ++ any.star)).opt ++ textEnd

/-- The line that imports a header. -/
def importLine : Pattern :=
  "#" ++ blanks ++ choice ["import", "include"] ++ gap ++ oneOf (among "<\"")
    ++ cap 1 (noneOf (among ">\"")).plus ++ oneOf (among ">\"")

/-- Any other line of the preprocessor. -/
def directiveLine : Pattern := "#" ++ blanks ++ name

/-- The line that announces classes or protocols. -/
def forwardLine : Pattern :=
  "@" ++ choice ["class", "protocol"] ++ gap ++ (oneOf (isWord ||| isBlank ||| among ",")).plus
    ++ ";" ++ textEnd

/-- The line that opens a protocol. -/
def protocolLine : Pattern :=
  "@protocol" ++ gap ++ cap 1 name ++ blanks ++ angleList 2 ++ blanks ++ textEnd

/-- The line that opens the interface of a category. -/
def categoryLine : Pattern :=
  "@interface" ++ gap ++ cap 1 name ++ blanks ++ "(" ++ blanks ++ cap 2 word.star ++ blanks ++ ")"
    ++ blanks ++ angleList 3 ++ blanks ++ openBody 4

/-- The line that opens the interface of a class. -/
def interfaceLine : Pattern :=
  "@interface" ++ gap ++ cap 1 name ++ blanks ++ ("(" ++ blanks ++ ")").opt ++ blanks
    ++ (":" ++ blanks ++ cap 2 name).opt ++ blanks ++ angleList 3 ++ blanks ++ openBody 4

/-- The line that opens an implementation, of a class or of a category. -/
def implementationLine : Pattern :=
  "@implementation" ++ gap ++ cap 1 name ++ blanks
    ++ ("(" ++ blanks ++ cap 2 word.star ++ blanks ++ ")").opt ++ blanks ++ openBody 3

/-- The line of a property. -/
def propertyLine : Pattern :=
  "@property" ++ blanks ++ ("(" ++ cap 1 (noneOf (among ")")).star ++ ")").opt ++ blanks
    ++ cap 2 any.plusLazy ++ blanks ++ cap 3 (lit "*").star ++ blanks ++ cap 4 name ++ blanks ++ ";"
    ++ textEnd

/-- The line of a method: its kind, the type of its result, its selector and what ends the line. -/
def methodLine : Pattern :=
  cap 1 (oneOf (among "-+")) ++ blanks ++ "(" ++ cap 2 (noneOf (among ")")).star ++ ")" ++ blanks
    ++ cap 3 any.plusLazy ++ blanks ++ (cap 4 (lit ";" <|> "\x7b" ++ any.star)).opt ++ textEnd

/-- One part of a selector: a label, a type and the name of a parameter. -/
def selectorPart : Pattern :=
  cap 1 name ++ blanks ++ ":" ++ blanks ++ "(" ++ cap 2 (noneOf (among ")")).star ++ ")" ++ blanks
    ++ cap 3 name

private def namedEnumLine : Pattern :=
  "typedef" ++ gap ++ "NS_" ++ choice ["ENUM", "OPTIONS"] ++ blanks ++ "(" ++ blanks ++ cap 1 name
    ++ blanks ++ "," ++ blanks ++ cap 2 name ++ blanks ++ ")" ++ blanks ++ openBody 3

private def typedefLine : Pattern :=
  "typedef" ++ gap ++ cap 1 (choice ["enum", "struct"]) ++ blanks ++ cap 2 word.star ++ blanks
    ++ openBody 3

private def typeText : Pattern := (oneOf (isWord ||| isBlank ||| among "*")).plusLazy

private def blockVariable : Pattern :=
  ("static" ++ gap).opt ++ cap 1 typeText ++ blanks ++ "(" ++ blanks ++ "^" ++ blanks ++ cap 2 name
    ++ blanks ++ ")" ++ blanks ++ "(" ++ cap 3 (noneOf (among ")")).star ++ ")" ++ blanks ++ "="
    ++ blanks ++ "^" ++ blanks ++ typeText.opt ++ blanks
    ++ ("(" ++ cap 4 (noneOf (among ")")).star ++ ")").opt ++ blanks ++ "\x7b"

private def functionLine : Pattern :=
  (choice ["static", "inline", "extern"] ++ gap).star
    ++ cap 1 (name ++ (blanks ++ (lit "*").plus).opt) ++ blanks ++ after (isBlank ||| among "*")
    ++ cap 2 name ++ blanks ++ "(" ++ cap 3 (noneOf (among ")")).star ++ ")" ++ blanks ++ openBody 4

private def variableLine : Pattern :=
  (choice ["static", "extern", "const", "__block"] ++ gap).star ++ cap 1 name ++ blanks
    ++ cap 2 (lit "*").star ++ blanks ++ ("const" ++ gap).opt ++ cap 3 name ++ blanks
    ++ ("=" ++ blanks ++ cap 4 any.plusLazy).opt ++ blanks ++ ";" ++ textEnd

private def ivarLine : Pattern :=
  ("@" ++ name ++ gap).opt ++ ("__" ++ name ++ gap).opt ++ cap 1 name ++ blanks
    ++ cap 2 (lit "*").star ++ blanks ++ cap 3 name ++ blanks ++ ";" ++ textEnd

private def lastName : Pattern := cap 1 any.starLazy ++ cap 2 name ++ blanks ++ textEnd

private def enumEntry : Pattern :=
  cap 1 name ++ blanks ++ ("=" ++ blanks ++ cap 2 any.plus).opt ++ textEnd

private def structFields : Pattern :=
  cap 1 name ++ blanks ++ cap 2 (lit "*").star ++ blanks
    ++ cap 3 (oneOf (isWord ||| isBlank ||| among ",")).plus ++ textEnd

/-- Words that are neither a type nor the name of a function. -/
def controlKeywords : List String :=
  ["return", "if", "else", "while", "for", "switch", "do", "case", "goto", "sizeof", "typedef"]

private def isControl (t : Text) : Bool := controlKeywords.any (·.toList == t)

/-- What a section is about. -/
inductive Owner where
  | ofClass (name : Text)
  | ofExtension (extendedType category : Text)
  | ofProtocol (index : Nat)

/-- What a section is. -/
inductive SectionKind where
  | interface
  | implementation
  | protocol
  deriving DecidableEq

/-- The word that opens a section. -/
def SectionKind.name : SectionKind → Text
  | .interface => "interface"
  | .implementation => "implementation"
  | .protocol => "protocol"

/-- An open section. -/
structure Section where
  kind : SectionKind
  owner : Owner
  line : Nat

/-- What has been read so far: the module and the open sections, innermost first. -/
structure State where
  module : Module
  sections : List Section

/-- The trimmed names of a list. -/
def nameList (raw : Text) : List Text := ((raw.splitOn ',').map Text.trim).filter (!·.isEmpty)

/-- The text without asterisks, trimmed. -/
def withoutStars (t : Text) : Text := Text.trim (t.filter (· != '*'))

/-- The names with those of a second list that are new, each once. -/
def addNames (names new : List Text) : List Text :=
  new.foldl (fun names n => if names.contains n then names else names ++ [n]) names

/-- The module with a class of the given name, new if there was none. -/
def ensureClass (m : Module) (name : Text) (line : Nat) : Module :=
  if m.classes.any (·.name == name) then m
  else { m with classes := m.classes ++ [{ name := name, line := line }] }

/-- The module with a category of a class, new if there was none. -/
def ensureExtension (m : Module) (type category : Text) (line : Nat) : Module :=
  if m.extensions.any fun e => e.extendedType == type && e.category == category then m
  else { m with extensions :=
    m.extensions ++ [{ extendedType := type, category := category, line := line }] }

/-- Changes the first member of a list that a test picks. -/
def modifyFirst {α : Type} (test : α → Bool) (f : α → α) : List α → List α
  | [] => []
  | a :: rest => if test a then f a :: rest else a :: modifyFirst test f rest

/-- Changes the class of a name. -/
def modifyClass (m : Module) (name : Text) (f : ClassType → ClassType) : Module :=
  { m with classes := modifyFirst (·.name == name) f m.classes }

/-- Changes a category. -/
def modifyExtension (m : Module) (type category : Text) (f : Extension → Extension) : Module :=
  { m with extensions :=
    modifyFirst (fun e => e.extendedType == type && e.category == category) f m.extensions }

/-- Changes the protocol with an index. -/
def modifyProtocol (m : Module) (index : Nat) (f : Protocol → Protocol) : Module :=
  { m with protocols := m.protocols.modify index f }

/-- The properties with one more, unless one of its name is there. -/
def addProperty (ps : List Property) (p : Property) : List Property :=
  if ps.any (·.name == p.name) then ps else ps ++ [p]

/-- Adds a property to what a section is about. -/
def addPropertyTo (m : Module) (owner : Owner) (p : Property) : Module :=
  match owner with
  | .ofClass n => modifyClass m n fun c => { c with properties := addProperty c.properties p }
  | .ofExtension t c =>
    modifyExtension m t c fun e => { e with properties := addProperty e.properties p }
  | .ofProtocol i =>
    modifyProtocol m i fun d => { d with properties := addProperty d.properties p }

/-- The methods with one more. A method with a body takes the place of one of its name and kind; a
signature only takes the place of another signature. -/
def addMethod (ms : List Method) (m : Method) : List Method :=
  let sameAs (x : Method) : Bool := x.name == m.name && x.isStatic == m.isStatic
  if ms.any sameAs then
    modifyFirst sameAs (fun x => if !m.isDeclaration || x.isDeclaration then m else x) ms
  else ms ++ [m]

/-- The initializers with one more in place of any of its name. -/
def addInitializer (is : List Initializer) (i : Initializer) : List Initializer :=
  is.filter (·.name != i.name) ++ [i]

/-- Whether a line or the start of the next opens a block. -/
def opensBlock (line : Line) (rest : List Line) : Bool :=
  line.text.contains '\x7b' || rest.head?.any (·.text.startsWith "\x7b")

/-- The instance variables of a block become properties; backing variables carry the name of their
property. Gives the module and the number of further lines read. -/
def readIvars (m : Module) (owner : Owner) (line : Line) (rest : List Line) : Module × Nat :=
  let block := captureBlock (line :: rest) 0
  let add (m : Module) (raw : Text) : Module :=
    let raw := raw.trim
    if raw.isEmpty || raw.startsWith "@" then m
    else match ivarLine.match? raw with
      | none => m.warn line.number "unrecognized instance variable" raw
      | some v => addPropertyTo m owner
          { name := Text.trimStartOf (· == '_') (v.group 3), typeName := v.group 1,
            line := line.number }
  let m := block.body.lines.foldl add m
  let m := if block.closed then m
    else m.warn line.number "unterminated instance variable block" line.text
  (m, block.last)

/-- One parameter of a C parameter list; one without a name is numbered. -/
def cParameter (index : Nat) (part : Text) : Parameter :=
  let part := part.trim
  let unnamed : Parameter := { name := "arg" ++ Text.ofNat index, typeName := part }
  match lastName.match? part with
  | none => unnamed
  | some m =>
    if (Text.trim (m.group 1)).isEmpty then unnamed
    else { name := m.group 2, typeName := withoutStars (m.group 1) }

/-- The parameters of a C parameter list. -/
def cParameters (raw : Text) : List Parameter :=
  let raw := raw.trim
  if raw.isEmpty || raw == "void".toList then []
  else (splitTopLevel .arguments raw).mapIdx cParameter

/-- The name and the parameters of a method signature, none if it has no proper name. -/
def readSelector? (signature : Text) : Option (Text × List Parameter) :=
  let parts := selectorPart.allIn signature
  let methodName : Text :=
    if parts.isEmpty then (signature.trim.trimEndOf (among ";\x7b")).trim
    else Selector.methodName (parts.map (·.group 1))
  let params := parts.map fun p =>
    ({ name := p.group 3, typeName := withoutStars (p.group 2), label := p.group 1 } : Parameter)
  if name.fitsAll methodName then some (methodName, params) else none

/-- Whether a method of a class is an initializer. -/
def isInitName (t : Text) : Bool :=
  ("init" ++ (oneOf (between 'A' 'Z') <|> textEnd)).fits t

/-- Adds a method to what a section is about. -/
def addMethodTo (m : Module) (s : Section) (line : Line) (hasBody : Bool) (method : Method) :
    Module :=
  let bodiless (m : Module) : Module :=
    if !hasBody && s.kind == .implementation then
      m.warn line.number ("method '" ++ method.name ++ "' has no body") line.text
    else m
  match s.owner with
  | .ofProtocol i => modifyProtocol m i fun d => { d with requirements := d.requirements ++
      [{ method with body := [], isDeclaration := true }] }
  | .ofExtension t c =>
    bodiless (modifyExtension m t c fun e => { e with methods := addMethod e.methods method })
  | .ofClass n =>
    if !method.isStatic && isInitName method.name then
      let init : Initializer :=
        { parameters := method.parameters, body := method.body, name := method.name,
          line := method.line }
      if hasBody then
        modifyClass m n fun c => { c with initializers := addInitializer c.initializers init }
      else m
    else bodiless (modifyClass m n fun c => { c with methods := addMethod c.methods method })

/-- Reads a method; gives the module and the number of further lines read. -/
def readMethod (st : State) (f : Match) (line : Line) (rest : List Line) : Module × Nat :=
  let m := st.module
  match readSelector? (f.group 3) with
  | none =>
    let m := m.warn line.number "unrecognized method signature" line.text
    let last := if opensBlock line rest then (captureBlock (line :: rest) 0).last else 0
    (m.keep line.text line.number "method", last)
  | some (methodName, params) =>
    let hasBody := match f.group? 4 with
      | some terminator => terminator.startsWith "\x7b"
      | none => opensBlock line rest
    let block := captureBlock (line :: rest) 0
    let last := if hasBody then block.last else 0
    let m := if hasBody && !block.closed then
        m.warn line.number ("unterminated body of method '" ++ methodName ++ "'") line.text
      else m
    match st.sections with
    | [] =>
      let m := m.warn line.number ("method '" ++ methodName ++ "' outside of @implementation")
        line.text
      (m.keep line.text line.number "method", last)
    | s :: _ =>
      let method : Method :=
        { name := methodName, parameters := params, returnType := withoutStars (f.group 2),
          body := if hasBody then block.body else [], isStatic := f.group 1 == ['+'],
          isDeclaration := !hasBody, line := line.number }
      (addMethodTo m s line hasBody method, last)

/-- The name after the closing brace of a type. -/
def trailingName (block : Block) : Text := (block.trailing.trimEndOf (· == ';')).trim

/-- Reads an enumeration; gives the module and the number of further lines read. -/
def readEnum (m : Module) (line : Line) (rest : List Line) (enumName : Text) : Module × Nat :=
  let block := captureBlock (line :: rest) 0
  let add (state : Module × List EnumCase) (part : Text) : Module × List EnumCase :=
    match enumEntry.match? part.trim with
    | none =>
      (state.1.warn line.number ("unrecognized enum case '" ++ part ++ "'") line.text, state.2)
    | some e =>
      (state.1, state.2 ++ [{ name := e.group 1, rawValue := Text.trim (e.group 2) }])
  let flat := block.body.map fun c => if c == '\n' then ' ' else c
  let (m, cases) := (splitTopLevel .arguments flat).foldl add (m, [])
  let enumName : Text :=
    if !enumName.isEmpty then enumName
    else if (trailingName block).isEmpty then "AnonymousEnum" ++ Text.ofNat line.number
    else trailingName block
  let m := if block.closed then m
    else m.warn line.number ("unterminated enum '" ++ enumName ++ "'") line.text
  ({ m with enums := m.enums ++
    [{ name := enumName, rawType := "Int", cases := cases, line := line.number }] }, block.last)

/-- Reads a structure; gives the module and the number of further lines read. -/
def readStruct (m : Module) (line : Line) (rest : List Line) (structName : Text) : Module × Nat :=
  let block := captureBlock (line :: rest) 0
  let addField (raw : Text) (state : Module × List Property) (field : Text) :
      Module × List Property :=
    let field := field.trim
    if field.isEmpty then state
    else match structFields.match? field with
      | none =>
        (state.1.warn line.number ("unrecognized struct field '" ++ field ++ "'") raw, state.2)
      | some f =>
        let new := ((f.group 3).splitOn ',').map fun n =>
          ({ name := Text.trim n, typeName := f.group 1, line := line.number } : Property)
        (state.1, state.2 ++ new)
  let (m, properties) := block.body.lines.foldl
    (fun state raw => (raw.splitOn ';').foldl (addField raw) state) (m, [])
  let given := if (trailingName block).isEmpty then structName else trailingName block
  let structName : Text :=
    if given.isEmpty then "AnonymousStruct" ++ Text.ofNat line.number else given
  let m := if block.closed then m
    else m.warn line.number ("unterminated struct '" ++ structName ++ "'") line.text
  ({ m with structs := m.structs ++
    [{ name := structName, properties := properties, line := line.number }] }, block.last)

/-- Reads a function or block with a body; gives the module and the number of further lines
read. -/
def readFunction (m : Module) (line : Line) (rest : List Line) (what : String)
    (f : Function) : Module × Nat :=
  let block := captureBlock (line :: rest) 0
  let f := { f with body := block.body, line := line.number }
  let m := { m with functions := m.functions ++ [f] }
  let m := if block.closed then m
    else m.warn line.number ("unterminated " ++ what.toList ++ " '" ++ f.name ++ "'") line.text
  (m, block.last)

/-- Reads a line that no section or type begins. -/
def readOther (st : State) (line : Line) (rest : List Line) : Module × Nat :=
  let m := st.module
  let text := line.text
  let unrecognized : Module × Nat :=
    let last := if braceDelta text > 0 then (captureBlock (line :: rest) 0).last else 0
    let m := m.warn line.number "unrecognized declaration" text
    (m.keep (Text.unlines (((line :: rest).take (last + 1)).map (·.text))) line.number
      "declaration", last)
  let global : Module × Nat :=
    match variableLine.match? text with
    | some v =>
      if st.sections.isEmpty && !isControl (v.group 1) then
        ({ m with globals := m.globals ++
          [{ name := v.group 3, typeName := v.group 1, initialValue := Text.trim (v.group 4),
             isConstant := Text.hasInfix "const" (text.cutAt '=').1, line := line.number }] }, 0)
      else unrecognized
    | none => unrecognized
  match functionLine.match? text with
  | some f =>
    if !isControl ((Text.words (f.group 1)).headD []) && !isControl (f.group 2) then
      if opensBlock line rest then
        let function : Function :=
          { name := f.group 2, parameters := cParameters (f.group 3),
            returnType := withoutStars (f.group 1) }
        readFunction m line rest "function" function
      else (m, 0)
    else global
  | none => global

/-- Reads a property, a method, a type or anything else inside or outside a section. -/
def readMember (st : State) (line : Line) (rest : List Line) : Module × Nat :=
  let m := st.module
  let text := line.text
  match propertyLine.match? text with
  | some p =>
    match st.sections with
    | [] => (m.warn line.number "@property outside of an @interface or @protocol" text, 0)
    | s :: _ =>
      let attributes := nameList (p.group 1)
      let property : Property :=
        { name := p.group 4, typeName := Text.trim (p.group 2), attributes := attributes,
          isConstant := attributes.contains "readonly".toList, line := line.number }
      (addPropertyTo m s.owner property, 0)
  | none =>
    if text.startsWith "@property" then
      let m := m.warn line.number "unrecognized @property declaration" text
      (m.keep text line.number "property", 0)
    else match methodLine.match? text with
      | some f => readMethod st f line rest
      | none =>
        match namedEnumLine.match? text with
        | some e => readEnum m line rest (e.group 2)
        | none =>
          match typedefLine.match? text with
          | some d =>
            if d.group 1 == "enum".toList then readEnum m line rest (d.group 2)
            else readStruct m line rest (d.group 2)
          | none =>
            match blockVariable.match? text with
            | some b =>
              let function : Function :=
                { name := b.group 2, parameters := cParameters (b.group 4),
                  returnType := Text.trim (b.group 1) }
              readFunction m line rest "block literal" function
            | none => readOther st line rest

/-- Opens a section, with the instance variables that follow its head. -/
def openSection (m : Module) (sections : List Section) (s : Section) (line : Line)
    (rest : List Line) : State × Nat :=
  let (m, last) := if opensBlock line rest then readIvars m s.owner line rest else (m, 0)
  (⟨m, s :: sections⟩, last)

/-- Reads the section that a line opens, none if it opens none. -/
def readSection? (st : State) (line : Line) (rest : List Line) : Option (State × Nat) :=
  let m := st.module
  let open_ (kind : SectionKind) (owner : Owner) : Section := ⟨kind, owner, line.number⟩
  match protocolLine.match? line.text with
  | some p =>
    let m' := { m with protocols := m.protocols ++
      [{ name := p.group 1, inherited := nameList (p.group 2), line := line.number }] }
    some (⟨m', open_ .protocol (.ofProtocol m.protocols.length) :: st.sections⟩, 0)
  | none =>
    match (categoryLine.match? line.text).filter fun c => !(c.group 2).isEmpty with
    | some c =>
      let m := ensureExtension m (c.group 1) (c.group 2) line.number
      let m := modifyExtension m (c.group 1) (c.group 2) fun e =>
        { e with protocols := addNames e.protocols (nameList (c.group 3)) }
      some (⟨m, open_ .interface (.ofExtension (c.group 1) (c.group 2)) :: st.sections⟩, 0)
    | none =>
      match interfaceLine.match? line.text with
      | some i =>
        let m := ensureClass m (i.group 1) line.number
        let m := modifyClass m (i.group 1) fun c =>
          { c with superclass := (i.group? 2).getD c.superclass,
                   protocols := addNames c.protocols (nameList (i.group 3)) }
        some (openSection m st.sections (open_ .interface (.ofClass (i.group 1))) line rest)
      | none =>
        (implementationLine.match? line.text).map fun i =>
          let owner : Owner :=
            if (i.group 2).isEmpty then .ofClass (i.group 1)
            else .ofExtension (i.group 1) (i.group 2)
          let m := match owner with
            | .ofExtension t c => ensureExtension m t c line.number
            | _ => ensureClass m (i.group 1) line.number
          openSection m st.sections (open_ .implementation owner) line rest

/-- Reads one line; gives the new state and the number of further lines read with it. -/
def readLine (st : State) (line : Line) (rest : List Line) : State × Nat :=
  let m := st.module
  let text := line.text
  let skips := text == "@optional".toList || text == "@required".toList
    || text.startsWith "@synthesize" || text.startsWith "@dynamic" || forwardLine.fits text
  match importLine.match? text with
  | some i => (⟨{ m with imports := m.imports ++ [i.group 1] }, st.sections⟩, 0)
  | none =>
    if directiveLine.fits text then
      (⟨m.warn line.number "preprocessor directive ignored" text, st.sections⟩, 0)
    else if text.startsWith "@end" then
      match st.sections with
      | _ :: outer => (⟨m, outer⟩, 0)
      | [] => (⟨m.warn line.number "@end without an open declaration" text, []⟩, 0)
    else if skips then (st, 0)
    else match readSection? st line rest with
      | some result => result
      | none =>
        let (m, last) := readMember st line rest
        (⟨m, st.sections⟩, last)

/-- Reads all lines. -/
def readLines (st : State) : List Line → State
  | [] => st
  | line :: rest =>
    let step := readLine st line rest
    readLines step.1 (rest.drop step.2)
termination_by lines => lines.length
decreasing_by simp only [List.length_drop, List.length_cons]; omega

/-- The name of what a section is about. -/
def ownerName (m : Module) : Owner → Text
  | .ofClass n => n
  | .ofExtension t _ => t
  | .ofProtocol i => ((m.protocols[i]?).map (·.name)).getD []

/-- Reads an Objective-C source. Sections that are still open at the end get a remark each. -/
def read (source : Text) : Module :=
  let st := readLines ⟨{ dialect := .objc }, []⟩ (significantLines source)
  st.sections.foldl (fun m s => m.warn s.line
    ("missing @end for @" ++ s.kind.name ++ " " ++ ownerName m s.owner) []) st.module

end HostScript.Declaration.ObjC
