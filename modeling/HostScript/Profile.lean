import HostScript.Fault
import HostScript.Json

/-!
# Execution profiles

A profile describes a host that runs scripts: what it forbids, what it lacks and how much it takes.
A registry finds profiles by name or alias.
-/

namespace HostScript

/-- A host that runs scripts. -/
structure Profile where
  name : Text
  /-- The harness that scripts are wrapped in. -/
  harness : Text := "automation"
  /-- The interface through which scripts reach the host. -/
  bridgeApi : Text := []
  description : Text := []
  aliases : List Text := []
  /-- The fields of what a wrapped script evaluates to. -/
  envelope : List Text := []
  /-- Global names that the host forbids. -/
  disallowed : List Text := []
  /-- Features that the host lacks. -/
  missing : List Text := []
  /-- How much slower the host is than a bare engine. -/
  overhead : Float := 1.3
  /-- The length of the longest script that the host takes. -/
  maxPayload : Int := 1048576
  /-- The seconds that a script may run. -/
  maxTime : Float := 30.0
  /-- What else the host asks for. -/
  requirements : List (Text × Json) := []

namespace Profile

/-- A profile as a value. -/
def toJson (p : Profile) : Json :=
  .ofPairs [("name", .str p.name), ("aliases", .ofTexts p.aliases),
    ("description", .str p.description), ("harness", .str p.harness),
    ("bridge_api", .str p.bridgeApi), ("result_envelope", .ofTexts p.envelope),
    ("disallowed_identifiers", .ofTexts p.disallowed), ("missing_features", .ofTexts p.missing),
    ("platform_overhead", .float p.overhead), ("max_payload_size", .int p.maxPayload),
    ("max_execution_time", .float p.maxTime), ("requirements", .obj p.requirements)]

end Profile

/-- Profiles by name, in the order in which the names came up. -/
structure Registry where
  profiles : List Profile
  /-- Each alias with the name it stands for. -/
  aliases : List (Text × Text)

namespace Registry

/-- The list with an entry put in: in the place of an earlier one with its key, or last. -/
def putEntry {α : Type} (key : Text) (entry : α) (keyOf : α → Text) (entries : List α) : List α :=
  if entries.any (keyOf · == key) then
    entries.map fun e => if keyOf e == key then entry else e
  else entries ++ [entry]

/-- The registry with one more profile. A later profile takes names and aliases over. -/
def add (r : Registry) (p : Profile) : Registry where
  profiles := putEntry p.name p Profile.name r.profiles
  aliases := p.aliases.foldl (fun as a => putEntry a (a, p.name) Prod.fst as) r.aliases

/-- The registry of a list of profiles. -/
def ofProfiles (ps : List Profile) : Registry := ps.foldl add ⟨[], []⟩

/-- The names of the profiles. -/
def names (r : Registry) : List Text := r.profiles.map (·.name)

/-- The name that a name or alias stands for; aliases go before names. -/
def canonical (r : Registry) (name : Text) : Text := (r.aliases.lookup name).getD name

/-- The profile with a name or alias. -/
def get? (r : Registry) (name : Text) : Option Profile :=
  r.profiles.find? (·.name == r.canonical name)

/-- The profile with a name or alias, or the fault that there is none. -/
def get (r : Registry) (name : Text) : Outcome Profile :=
  match r.get? name with
  | some p => .ok p
  | none => .error (.unknownProfile name (r.names ++ r.aliases.map (·.1)))

/-- Whether a name or alias is known. -/
def contains (r : Registry) (name : Text) : Bool := (r.get? name).isSome

end Registry

end HostScript
