import HostScript.Yaml.Scalar
import HostScript.Yaml.Token

/-!
# Nodes of documents

A document as a tree: words, sequences and mappings, each with its tag. A reference stands for a
copy of the node that it names.
-/

namespace HostScript.Yaml

/-- A node of a document. -/
inductive Node where
  | word (tag : Tag) (text : Text)
  | sequence (tag : Tag) (items : List Node)
  | mapping (tag : Tag) (members : List (Node × Node))

/-- The node where nothing is written. -/
def Node.empty : Node := .word .null []

/-- A reader of nodes. -/
structure Reader where
  lexer : Lexer
  /-- The names of nodes so far; a node that is not complete has none yet. -/
  anchors : List (Text × Option Node) := []
  /-- The handles of tags and what they stand for. -/
  handles : List (Text × Text) := []

/-- A reading step. -/
abbrev Reading := StateT Reader Outcome

namespace Reading

/-- Fails because of what is wrong with the document. -/
def fail {α : Type} (flaw : Flaw) : Reading α := throw (.malformed flaw)

/-- A step of the lexer. -/
def lexing {α : Type} (step : Lexing α) : Reading α := do
  let r ← get
  let (a, lexer) ← step.run r.lexer
  set { r with lexer := lexer }
  pure a

/-- The next token. -/
def peek : Reading Token := lexing Lexing.peek

/-- Passes over the next token. -/
def skip : Reading Unit := do
  let _ ← lexing Lexing.take

/-- Passes over the next token if it fits; tells whether it did. -/
def accept (fits : Token → Bool) : Reading Bool := do
  if fits (← peek) then
    skip
    pure true
  else pure false

end Reading

namespace Token

/-- Whether a token opens a key. -/
def isKey : Token → Bool
  | .key => true
  | _ => false

/-- Whether a token opens a value. -/
def isValue : Token → Bool
  | .value => true
  | _ => false

/-- Whether a token opens a sequence by its indentation. -/
def isBlockSequence : Token → Bool
  | .blockSequence => true
  | _ => false

/-- Whether a token opens a mapping by its indentation. -/
def isBlockMapping : Token → Bool
  | .blockMapping => true
  | _ => false

/-- Whether a token closes a block. -/
def isBlockEnd : Token → Bool
  | .blockEnd => true
  | _ => false

/-- Whether a token opens an entry of a block. -/
def isBlockEntry : Token → Bool
  | .blockEntry => true
  | _ => false

/-- Whether a token separates entries in brackets. -/
def isFlowEntry : Token → Bool
  | .flowEntry => true
  | _ => false

/-- Whether a token closes a sequence in brackets. -/
def isSequenceEnd : Token → Bool
  | .flowSequenceEnd => true
  | _ => false

/-- Whether a token closes a mapping in brackets. -/
def isMappingEnd : Token → Bool
  | .flowMappingEnd => true
  | _ => false

/-- Whether a token starts a document. -/
def isDocumentStart : Token → Bool
  | .documentStart => true
  | _ => false

/-- Whether a token ends a document. -/
def isDocumentEnd : Token → Bool
  | .documentEnd => true
  | _ => false

/-- Whether a token is a directive. -/
def isDirective : Token → Bool
  | .directive _ => true
  | _ => false

/-- Whether a token ends the stream of documents. -/
def isStreamEnd : Token → Bool
  | .streamEnd => true
  | _ => false

end Token

namespace Reading

/-! ## Anchors and tags -/

/-- What may precede the content of a node: its name, and its tag with its handle. -/
structure Properties where
  anchor : Option Text := none
  tag : Option (Option Text × Text) := none

/-- Reads an anchor and a tag, in either order. -/
def properties : Reading Properties := do
  match ← peek with
  | .anchor name =>
    skip
    match ← peek with
    | .tag handle suffix =>
      skip
      pure ⟨some name, some (handle, suffix)⟩
    | _ => pure ⟨some name, none⟩
  | .tag handle suffix =>
    skip
    match ← peek with
    | .anchor name =>
      skip
      pure ⟨some name, some (handle, suffix)⟩
    | _ => pure ⟨none, some (handle, suffix)⟩
  | _ => pure {}

/-- The text of a tag: its handle stands for what the document says. A sign on its own is no
tag. -/
def tagText (tag : Option (Option Text × Text)) : Reading (Option Text) := do
  match tag with
  | none => pure none
  | some (none, suffix) => pure (some suffix)
  | some (some handle, suffix) =>
    match (← get).handles.lookup handle with
    | some start => pure (some (start ++ suffix))
    | none => fail .order

/-- The tag of a node: the one that is written, or the usual one where there is none. -/
def tagOr (written : Option Text) (usual : Tag) : Tag :=
  match written with
  | none | some ['!'] => usual
  | some t => .ofText t

/-- The tag of a word, which may depend on the word. -/
def wordTag (written : Option Text) (plain : Bool) (text : Text) : Tag :=
  tagOr written (if plain || written.isSome then tagOf text else .str)

/-- Notes a name for a node that is yet to be read. -/
def announce (anchor : Option Text) : Reading Unit := do
  match anchor with
  | none => pure ()
  | some name =>
    let r ← get
    if (r.anchors.lookup name).isSome then fail .reference
    else set { r with anchors := (name, none) :: r.anchors }

/-- Notes the node of a name. -/
def name (anchor : Option Text) (node : Node) : Reading Node := do
  match anchor with
  | none => pure node
  | some name =>
    modify fun r =>
      { r with anchors := r.anchors.map fun a => if a.1 == name then (name, some node) else a }
    pure node

/-- The node that a name stands for. A node cannot be part of itself. -/
def named (name : Text) : Reading Node := do
  match (← get).anchors.lookup name with
  | some (some node) => pure node
  | some none => fail .value
  | none => fail .reference

/-! ## Content -/

mutual

/-- Reads a node. Outside of brackets it can be a block, and behind a key also a sequence whose
dashes are not indented. -/
def node : (fuel : Nat) → (block loose : Bool) → Reading Node
  | 0, _, _ => fail .order
  | fuel + 1, block, loose => do
    match ← peek with
    | .alias name =>
      skip
      named name
    | _ =>
      let ps ← properties
      let written ← tagText ps.tag
      let start ← peek
      let sequence (items : Reading (List Node)) : Reading Node := do
        announce ps.anchor
        name ps.anchor (.sequence (tagOr written .seq) (← items))
      let mapping (members : Reading (List (Node × Node))) : Reading Node := do
        announce ps.anchor
        name ps.anchor (.mapping (tagOr written .map) (← members))
      match start with
      | .scalar plain text =>
        skip
        announce ps.anchor
        name ps.anchor (.word (wordTag written plain text) text)
      | .flowSequence => sequence do
        skip
        flowItems fuel true []
      | .flowMapping => mapping do
        skip
        flowMembers fuel true []
      | t =>
        if loose && t.isBlockEntry then sequence (looseItems fuel [])
        else if block && t.isBlockSequence then sequence do
          skip
          blockItems fuel []
        else if block && t.isBlockMapping then mapping do
          skip
          blockMembers fuel []
        else if ps.anchor.isSome || written.isSome then
          announce ps.anchor
          name ps.anchor (.word (wordTag written true []) [])
        else fail .order

/-- Reads a node, unless a token ends it before it starts. -/
def nodeOr : (fuel : Nat) → (block loose : Bool) → (ends : Token → Bool) → Reading Node
  | 0, _, _, _ => fail .order
  | fuel + 1, block, loose, ends => do
    if ends (← peek) then pure .empty else node fuel block loose

/-- Reads the entries of a block sequence. -/
def blockItems : (fuel : Nat) → List Node → Reading (List Node)
  | 0, _ => fail .order
  | fuel + 1, items => do
    if ← accept Token.isBlockEntry then
      let item ← nodeOr fuel true false fun t => t.isBlockEntry || t.isBlockEnd
      blockItems fuel (items ++ [item])
    else if ← accept Token.isBlockEnd then pure items
    else fail .order

/-- Reads the entries of a sequence whose dashes are not indented. -/
def looseItems : (fuel : Nat) → List Node → Reading (List Node)
  | 0, _ => fail .order
  | fuel + 1, items => do
    if ← accept Token.isBlockEntry then
      let item ← nodeOr fuel true false fun t =>
        t.isBlockEntry || t.isKey || t.isValue || t.isBlockEnd
      looseItems fuel (items ++ [item])
    else pure items

/-- Reads the members of a block mapping. -/
def blockMembers : (fuel : Nat) → List (Node × Node) → Reading (List (Node × Node))
  | 0, _ => fail .order
  | fuel + 1, members => do
    let ends (t : Token) : Bool := t.isKey || t.isValue || t.isBlockEnd
    if ← accept Token.isKey then
      let key ← nodeOr fuel true true ends
      let value ← if ← accept Token.isValue then nodeOr fuel true true ends else pure .empty
      blockMembers fuel (members ++ [(key, value)])
    else if ← accept Token.isBlockEnd then pure members
    else fail .order

/-- Reads the entries of a sequence in brackets; a key with its value is a mapping of its own. -/
def flowItems : (fuel : Nat) → (first : Bool) → List Node → Reading (List Node)
  | 0, _, _ => fail .order
  | fuel + 1, first, items => do
    if ← accept Token.isSequenceEnd then pure items
    else
      if !first then
        if !(← accept Token.isFlowEntry) then fail .order
      let ends (t : Token) : Bool := t.isFlowEntry || t.isSequenceEnd
      if ← accept Token.isKey then
        let key ← nodeOr fuel false false fun t => t.isValue || ends t
        let value ← if ← accept Token.isValue then nodeOr fuel false false ends else pure .empty
        flowItems fuel false (items ++ [.mapping .map [(key, value)]])
      else if ← accept Token.isSequenceEnd then pure items
      else
        let item ← node fuel false false
        flowItems fuel false (items ++ [item])

/-- Reads the members of a mapping in brackets. -/
def flowMembers : (fuel : Nat) → (first : Bool) → List (Node × Node) →
    Reading (List (Node × Node))
  | 0, _, _ => fail .order
  | fuel + 1, first, members => do
    if ← accept Token.isMappingEnd then pure members
    else
      if !first then
        if !(← accept Token.isFlowEntry) then fail .order
      let ends (t : Token) : Bool := t.isFlowEntry || t.isMappingEnd
      if ← accept Token.isKey then
        let key ← nodeOr fuel false false fun t => t.isValue || ends t
        let value ← if ← accept Token.isValue then nodeOr fuel false false ends else pure .empty
        flowMembers fuel false (members ++ [(key, value)])
      else if ← accept Token.isMappingEnd then pure members
      else
        let key ← node fuel false false
        flowMembers fuel false (members ++ [(key, .empty)])

end

/-! ## Documents -/

/-- The handles of tags that every document has. -/
def usualHandles : List (Text × Text) := [("!", "!"), ("!!", Tag.start)]

/-- Reads directives; `versioned` tells whether a version was read. -/
def directives : (fuel : Nat) → (versioned : Bool) → Reading Unit
  | 0, _ => pure ()
  | fuel + 1, versioned => do
    match ← peek with
    | .directive (.version major) =>
      skip
      if versioned || major != 1 then fail .order
      directives fuel true
    | .directive (.handle name start) =>
      skip
      let r ← get
      if (r.handles.lookup name).isSome then fail .order
      set { r with handles := (name, start) :: r.handles }
      directives fuel versioned
    | .directive .other =>
      skip
      directives fuel versioned
    | _ => pure ()

/-- Reads what may stand before a document, and the mark that starts it. -/
def documentStart : Reading Unit := do
  modify fun r => { r with handles := [] }
  directives (← get).lexer.place.rest.length false
  if !(← accept Token.isDocumentStart) then fail .order
  modify fun r =>
    { r with handles := r.handles ++ usualHandles.filter fun h => (r.handles.lookup h.1).isNone }

/-- Passes over marks that end documents. -/
def skipEnds : (fuel : Nat) → Reading Unit
  | 0 => pure ()
  | fuel + 1 => do
    if ← accept Token.isDocumentEnd then skipEnds fuel

/-- Reads the document of a stream that holds at most one. -/
def document : Reading (Option Node) := do
  let fuel := 4 * (← get).lexer.place.rest.length + 16
  let start ← peek
  if start.isStreamEnd then pure none
  else
    let explicit := start.isDirective || start.isDocumentStart
    if explicit then documentStart
    else modify fun r => { r with handles := usualHandles }
    let root ← if explicit then
        nodeOr fuel true false fun t =>
          t.isDirective || t.isDocumentStart || t.isDocumentEnd || t.isStreamEnd
      else node fuel true false
    skipEnds fuel
    if (← peek).isStreamEnd then pure (some root)
    else
      documentStart
      fail .reference

end Reading

end HostScript.Yaml
