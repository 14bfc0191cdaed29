import HostScript.Yaml.Node

/-!
# YAML documents

Reads a document: its text becomes tokens, the tokens a tree of nodes, and the tree a value. Every
JSON text is such a document.
-/

namespace HostScript.Yaml

/-- A value made of a node, with what is wrong below it. Values are made level by level, so each
fault has the depth of its node, and the first of the outermost ones shows. -/
structure Built (α : Type) where
  value : α
  faults : List (Nat × Fault) := []

/-- The value of a node that may be faulty. -/
def Built.ofOutcome (depth : Nat) : Outcome Value → Built Value
  | .ok v => ⟨v, []⟩
  | .error f => ⟨.null, [(depth, f)]⟩

/-- The fault of a node for which there is no value. -/
def noValue : Fault := .malformed .value

/-- The members of a mapping: those that it takes over from others, and its own. -/
structure Members where
  taken : List (Value × Value) := []
  own : List (Value × Value) := []

/-- All members of a mapping; those that it takes over come first. -/
def Members.all (m : Members) : List (Value × Value) := m.taken ++ m.own

/-- The members of a mapping by their keys; of those with one key the last one counts. -/
def Members.toMap (m : Members) : List (Value × Value) :=
  m.all.foldl (fun ms (k, v) => Value.put ms k v) []

mutual

/-- Makes the value of a node. -/
def build (depth : Nat) : Node → Built Value
  | .word tag text => .ofOutcome depth (wordValue tag text)
  | .sequence tag items =>
    if tag == .seq then
      let b := buildItems (depth + 1) items
      ⟨.seq b.value, b.faults⟩
    else if tag == .pairs then
      let b := buildPairs (depth + 1) items
      ⟨.pairs b.value, b.faults⟩
    else ⟨.null, [(if tag == .map || tag == .set then depth + 1 else depth, noValue)]⟩
  | .mapping tag members =>
    if tag == .map || tag == .set then
      let b := buildMembers (depth + 1) members
      ⟨if tag == .map then .map b.value.toMap else .set (b.value.toMap.map (·.1)), b.faults⟩
    else ⟨.null, [(if tag == .seq || tag == .pairs then depth + 1 else depth, noValue)]⟩

/-- Makes the values of items. -/
def buildItems (depth : Nat) : List Node → Built (List Value)
  | [] => ⟨[], []⟩
  | n :: rest =>
    let first := build depth n
    let more := buildItems depth rest
    ⟨first.value :: more.value, first.faults ++ more.faults⟩

/-- Makes pairs of items, which are mappings of one member. -/
def buildPairs (depth : Nat) : List Node → Built (List (Value × Value))
  | [] => ⟨[], []⟩
  | .mapping _ [(key, value)] :: rest =>
    let k := build depth key
    let v := build depth value
    let more := buildPairs depth rest
    ⟨(k.value, v.value) :: more.value, k.faults ++ v.faults ++ more.faults⟩
  | _ :: rest =>
    let more := buildPairs depth rest
    ⟨more.value, (depth, noValue) :: more.faults⟩

/-- Makes the members of a mapping. -/
def buildMembers (depth : Nat) : List (Node × Node) → Built Members
  | [] => ⟨{}, []⟩
  | (.word .merge _, value) :: rest =>
    let first := buildTaken depth value
    let more := buildMembers depth rest
    ⟨{ more.value with taken := first.value ++ more.value.taken }, first.faults ++ more.faults⟩
  | (key, value) :: rest =>
    let k : Built Value := match key with
      | .word .default text => ⟨.str text, []⟩
      | _ => build depth key
    let bad := if k.faults.isEmpty && !k.value.canBeKey then [(depth, noValue)] else []
    let v := build depth value
    let more := buildMembers depth rest
    ⟨{ more.value with own := (k.value, v.value) :: more.value.own },
      k.faults ++ bad ++ v.faults ++ more.faults⟩

/-- Makes the members that a mapping takes over from a node: a mapping, or a sequence of mappings,
of which earlier ones count. -/
def buildTaken (depth : Nat) : Node → Built (List (Value × Value))
  | .mapping _ members =>
    let b := buildMembers depth members
    ⟨b.value.all, b.faults⟩
  | .sequence _ items => buildTakenAll depth items
  | .word _ _ => ⟨[], [(depth, noValue)]⟩

/-- Makes the members that a mapping takes over from mappings, the last one first. -/
def buildTakenAll (depth : Nat) : List Node → Built (List (Value × Value))
  | [] => ⟨[], []⟩
  | .mapping _ members :: rest =>
    let b := buildMembers depth members
    let more := buildTakenAll depth rest
    ⟨more.value ++ b.value.all, b.faults ++ more.faults⟩
  | _ :: rest =>
    let more := buildTakenAll depth rest
    ⟨more.value, (depth, noValue) :: more.faults⟩

end

/-- The first fault of the outermost ones. -/
def firstFault? (faults : List (Nat × Fault)) : Option Fault :=
  (faults.find? fun f => faults.all fun g => f.1 ≤ g.1).map (·.2)

/-- The value of a whole document. -/
def valueOf (n : Node) : Outcome Value :=
  let b := build 0 n
  match firstFault? b.faults with
  | some f => .error f
  | none => .ok b.value

/-- Whether a document can hold a character. -/
def isAllowed : CharSet := fun c =>
  c == '\t' || c == '\n' || c == '\r' || (' ' ≤ c && c ≤ '~') || c.toNat == 0x85
    || (0xA0 ≤ c.toNat && c.toNat != 0xFFFE && c.toNat != 0xFFFF)

/-- Reads a document; an empty one stands for nothing. -/
def read (t : Text) : Outcome Value := do
  let t := t.unifyBreaks
  if !t.all isAllowed then .error (.malformed .character)
  let (root, _) ← Reading.document.run { lexer := { place := { rest := t } } }
  match root with
  | some n => valueOf n
  | none => pure .null

end HostScript.Yaml
