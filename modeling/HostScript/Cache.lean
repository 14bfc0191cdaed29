import HostScript.Digest.Sha256
import HostScript.Fault
import HostScript.Json
import HostScript.Number.Scalar

/-!
# Caches of computed values

A cache answers a request from an earlier one with the same key. It may be bounded: then the entry
that was used least recently goes first, and entries expire some time after they were stored.
Entries stand in order of use, the most recent last.
-/

namespace HostScript

/-- A stored value. -/
structure CacheEntry (τ κ α : Type) where
  key : κ
  storedAt : τ
  value : α

/-- When entries leave a cache on their own. -/
structure CachePolicy (τ : Type) where
  /-- The most entries; none for an unbounded cache. -/
  capacity : Option Nat
  /-- Whether what was stored at one time has expired at another. -/
  expired : (storedAt now : τ) → Bool

/-- A cache with its counters. -/
structure Cache (τ κ α : Type) where
  name : String
  policy : CachePolicy τ
  entries : List (CacheEntry τ κ α) := []
  hits : Nat := 0
  misses : Nat := 0

/-- The state of a cache as callers see it. -/
structure CacheStats where
  name : String
  hits : Nat
  misses : Nat
  size : Nat

/-- The share of requests that were answered from the cache. -/
def CacheStats.hitRate (s : CacheStats) : Float :=
  let total := s.hits + s.misses
  if total == 0 then 0 else Number.ofNat s.hits / Number.ofNat total

namespace Cache

variable {τ κ α : Type} [BEq κ]

/-- The entry with a key. -/
def entry? (c : Cache τ κ α) (key : κ) : Option (CacheEntry τ κ α) :=
  c.entries.find? (·.key == key)

/-- The entries without that of a key. -/
def others (c : Cache τ κ α) (key : κ) : List (CacheEntry τ κ α) :=
  c.entries.filter fun e => !(e.key == key)

/-- Looks for a value. An expired entry is dropped, any other becomes the most recent. -/
def lookup (c : Cache τ κ α) (now : τ) (key : κ) : Option α × Cache τ κ α :=
  match c.entry? key with
  | none => (none, c)
  | some e =>
    if c.policy.expired e.storedAt now then (none, { c with entries := c.others key })
    else (some e.value, { c with entries := c.others key ++ [e] })

/-- The most recent entries that a bound leaves room for. -/
def evict (capacity : Option Nat) (es : List (CacheEntry τ κ α)) : List (CacheEntry τ κ α) :=
  match capacity with
  | none => es
  | some n => es.drop (es.length - n)

/-- Stores a value as the most recent entry. -/
def store (c : Cache τ κ α) (now : τ) (key : κ) (value : α) : Cache τ κ α :=
  { c with entries := evict c.policy.capacity (c.others key ++ [⟨key, now, value⟩]) }

/-- Looks for a value and counts the outcome. -/
def request (c : Cache τ κ α) (now : τ) (key : κ) : Option α × Cache τ κ α :=
  match c.lookup now key with
  | (some v, c) => (some v, { c with hits := c.hits + 1 })
  | (none, c) => (none, { c with misses := c.misses + 1 })

/-- The value of a key, computed if it is not there, and whether it was there. A computation may
have effects and takes time: the cache is asked at one time, and what was computed is stored at
another. A computation that fails stores nothing. -/
def getOrComputeM {m : Type → Type} [Monad m] {ε : Type} (c : Cache τ κ α) (asked stored : τ)
    (key : κ) (compute : Unit → m (Except ε α)) : m (Except ε (α × Bool) × Cache τ κ α) :=
  match c.request asked key with
  | (some v, c) => pure (.ok (v, true), c)
  | (none, c) => do
    match ← compute () with
    | .ok v => pure (.ok (v, false), c.store stored key v)
    | .error e => pure (.error e, c)

/-- The value of a key, computed if it is not there, and whether it was there, where a computation
has no effects and takes no time. -/
def getOrCompute {ε : Type} (c : Cache τ κ α) (now : τ) (key : κ)
    (compute : Unit → Except ε α) : Except ε (α × Bool) × Cache τ κ α :=
  Id.run (c.getOrComputeM now now key fun _ => pure (compute ()))

/-- Forgets all entries and counts. -/
def clear (c : Cache τ κ α) : Cache τ κ α := { c with entries := [], hits := 0, misses := 0 }

/-- The state of a cache as callers see it. -/
def stats (c : Cache τ κ α) : CacheStats := ⟨c.name, c.hits, c.misses, c.entries.length⟩

/-- Whether a cache has a bound. -/
def isBounded (c : Cache τ κ α) : Bool := c.policy.capacity.isSome

end Cache

namespace CachePolicy

/-- Entries stay for good. -/
def unbounded {τ : Type} : CachePolicy τ := ⟨none, fun _ _ => false⟩

/-- At most `capacity` entries, each for `lifetime` at most; zero stands for no limit of time. -/
def bounded (capacity : Int) (lifetime : Scalar) : Outcome (CachePolicy Scalar) :=
  if capacity < 1 then .error (.badValue "max_entries must be at least 1")
  else .ok ⟨some capacity.toNat,
    fun storedAt now => !lifetime.isZero && lifetime.lt (now.sub storedAt)⟩

/-- The most entries of a cache that is bounded in time only. -/
def defaultCapacity : Int := 1024

/-- The policy that settings ask for: bounded if either limit is given. -/
def ofSettings (capacity : Int) (lifetime : Scalar) : Outcome (CachePolicy Scalar) :=
  if capacity == 0 && lifetime.isZero then .ok unbounded
  else bounded (if capacity == 0 then defaultCapacity else capacity) lifetime

end CachePolicy

end HostScript

/-!
## Fingerprints

The key under which a result is kept: a digest of the source without cosmetic white space and of
the options by name.
-/

namespace HostScript

/-- The text without white space at the ends of lines and without empty lines at either end. -/
def canonicalize (t : Text) : Text :=
  Text.trimOf (· == '\n') (Text.unlines (t.unifyBreaks.lines.map Text.trimEnd))

/-- The text that a fingerprint is taken of. -/
def fingerprintPayload (source : Text) (options : Json) : Text :=
  let options := if options.truthy then options else .obj []
  (Json.sortNames (.ofPairs [("source", .str (canonicalize source)), ("options", options)])).line

/-- The fingerprint of a source and options. -/
def fingerprint (source : Text) (options : Json) : Text :=
  Digest.sha256 ((fingerprintPayload source options).map fun c => UInt8.ofNat c.toNat)

end HostScript
