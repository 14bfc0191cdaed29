import HostScript.Profile
import HostScript.Yaml.Value

/-!
# Profiles of documents

A document can describe a profile by values of any kind. A sheet keeps them as they are, except for
the numbers, and a catalog finds sheets by name or alias. A sheet whose names are texts describes a
host.
-/

namespace HostScript.Profile

open Yaml (Value)

/-- A profile as a document describes it. -/
structure Sheet where
  name : Value
  harness : Value
  bridgeApi : Value
  description : Value
  aliases : List Value
  envelope : List Value
  disallowed : List Value
  missing : List Value
  overhead : Float
  maxPayload : Int
  maxTime : Float
  requirements : List (Value × Value)

/-- The values that a value holds: the items of a sequence, the characters of a text, the keys of a
mapping. -/
def valuesIn : Value → Outcome (List Value)
  | .seq xs => .ok xs
  | .str s => .ok (s.map fun c => .str [c])
  | .map ms => .ok (ms.map (·.1))
  | _ => .error .wrongShape

/-- The members with the pair of a value put in; `index` is its place among the pairs. -/
def putPair (members : List (Value × Value)) (v : Value) (index : Nat) :
    Outcome (List (Value × Value)) := do
  match ← valuesIn v with
  | [key, value] => if key.canBeKey then pure (Value.put members key value) else .error .wrongShape
  | vs =>
    .error (.badValue ("dictionary update sequence element #" ++ Text.ofNat index ++ " has length "
      ++ Text.ofNat vs.length ++ "; 2 is required"))

/-- The members that a value holds: those of a mapping, or the pairs of a sequence. -/
def membersIn (v : Value) : Outcome (List (Value × Value)) := do
  match v with
  | .map ms => pure ms
  | _ => (← valuesIn v).zipIdx.foldlM (fun ms (pair, i) => putPair ms pair i) []

namespace Sheet

/-- Reads a sheet. Only the name has to be there. -/
def ofValue (v : Value) : Outcome Sheet := do
  let name ← match v with
    | .map _ => (match v.get? "name" with
      | some name => pure name
      | none => .error .missingKey)
    | _ => .error .wrongShape
  let member (field : String) (usual : Value) : Value := (v.get? field).getD usual
  let listed (field : String) : Outcome (List Value) := valuesIn (member field (.seq []))
  let aliases ← listed "aliases"
  let envelope ← listed "result_envelope"
  let disallowed ← listed "disallowed_identifiers"
  let missing ← listed "missing_features"
  let overhead ← (member "platform_overhead" (.float 1.3)).toJson.asFloat
  let maxPayload ← (member "max_payload_size" (.int 1048576)).toJson.asInt
  let maxTime ← (member "max_execution_time" (.float 30.0)).toJson.asFloat
  let requirements ← membersIn (member "requirements" (.map []))
  pure ⟨name, member "harness" (.str "automation"), member "bridge_api" (.str []),
    member "description" (.str []), aliases, envelope, disallowed, missing, overhead, maxPayload,
    maxTime, requirements⟩

/-- A sheet as a value. -/
def toJson (s : Sheet) : Json :=
  let list (vs : List Value) : Json := (Value.seq vs).toJson
  .ofPairs [("name", s.name.toJson), ("aliases", list s.aliases),
    ("description", s.description.toJson), ("harness", s.harness.toJson),
    ("bridge_api", s.bridgeApi.toJson), ("result_envelope", list s.envelope),
    ("disallowed_identifiers", list s.disallowed), ("missing_features", list s.missing),
    ("platform_overhead", .float s.overhead), ("max_payload_size", .int s.maxPayload),
    ("max_execution_time", .float s.maxTime), ("requirements", (Value.map s.requirements).toJson)]

/-- The sheet of a host. -/
def ofProfile (p : Profile) : Sheet :=
  let texts (ts : List Text) : List Value := ts.map .str
  ⟨.str p.name, .str p.harness, .str p.bridgeApi, .str p.description, texts p.aliases,
    texts p.envelope, texts p.disallowed, texts p.missing, p.overhead, p.maxPayload, p.maxTime,
    p.requirements.map fun (n, v) => (.str n, .ofJson v)⟩

/-- The text of a value that has to be one. -/
def text : Value → Outcome Text
  | .str s => .ok s
  | _ => .error .wrongShape

/-- The host that a sheet describes. -/
def toProfile (s : Sheet) : Outcome Profile := do
  pure ⟨← text s.name, s.harness.plain, s.bridgeApi.plain, s.description.plain,
    ← s.aliases.mapM text, s.envelope.map Value.plain, ← s.disallowed.mapM text,
    s.missing.map Value.plain, s.overhead, s.maxPayload, s.maxTime,
    Value.toJsonMembers s.requirements⟩

/-- The sheets that a document lists. -/
def ofDocument (v : Value) : Outcome (List Sheet) :=
  if !v.truthy then .ok []
  else match v with
    | .map _ => do (← valuesIn ((v.get? "profiles").getD (.seq []))).mapM ofValue
    | _ => .error .misplaced

end Sheet

/-- Sheets by name, in the order in which the names came up. -/
structure Catalog where
  sheets : List (Value × Sheet) := []
  /-- Each alias with the name it stands for. -/
  aliases : List (Value × Value) := []

namespace Catalog

/-- A value that can be looked up. -/
def key (v : Value) : Outcome Value := if v.canBeKey then .ok v else .error .wrongShape

/-- The catalog with one more sheet. A later sheet takes names and aliases over. -/
def add (c : Catalog) (s : Sheet) : Outcome Catalog := do
  let name ← key s.name
  let sheets := if c.sheets.any (·.1.isKey name) then
      c.sheets.map fun e => if e.1.isKey name then (e.1, s) else e
    else c.sheets ++ [(name, s)]
  let aliases ← s.aliases.foldlM (fun as a => return Value.put as (← key a) name) c.aliases
  pure ⟨sheets, aliases⟩

/-- The catalog of a list of sheets. -/
def ofSheets (ss : List Sheet) : Outcome Catalog := ss.foldlM add {}

/-- The names of the sheets. -/
def names (c : Catalog) : List Value := c.sheets.map (·.1)

/-- The sheet with a name or alias; aliases go before names. -/
def get? (c : Catalog) (name : Value) : Outcome (Option Sheet) := do
  let name ← key name
  let canonical := ((c.aliases.find? (·.1.isKey name)).map (·.2)).getD name
  pure ((c.sheets.find? (·.1.isKey canonical)).map (·.2))

/-- The sheet with a name or alias, or the fault that there is none. -/
def get (c : Catalog) (name : Value) : Outcome Sheet := do
  match ← c.get? name with
  | some s => pure s
  | none =>
    let known ← (c.names ++ c.aliases.map (·.1)).mapM Sheet.text
    .error (.unknownProfile name.plain known)

/-- Whether a name or alias is known. -/
def contains (c : Catalog) (name : Value) : Outcome Bool := return (← c.get? name).isSome

end Catalog

end HostScript.Profile
