import HostScript.Cache
import Mathlib.Algebra.Order.Ring.Nat
import Mathlib.Data.List.Basic
import Mathlib.Data.List.Nodup

/-!
# Histories and contents of caches

What a cache holds is what its calls have put there. A cache without bounds knows a value for every
key that was stored, and forgets none. A request for a known key is answered with the known value; a
request for any other key is answered with what is computed, which is known from then on if the
computation succeeds.
-/

/-!
## Histories of caches

A session is a cache with everything that happened to it: each call, its answer, and how often it
ran a computation. What one call can do is said once, by the six moves of a cache, and whatever the
moves preserve holds after every sequence of calls. The keys of a cache are always different, and a
bounded cache keeps to its bound.
-/

namespace HostScript

/-- A bound of at least one entry makes a policy. -/
theorem CachePolicy.exists_bounded {n : Int} (h : 1 ≤ n) (lifetime : Scalar) :
    ∃ p, CachePolicy.bounded n lifetime = .ok p := by
  rw [CachePolicy.bounded, if_neg (by omega)]
  exact ⟨_, rfl⟩

/-- A bounded policy keeps at most so many entries, which is at least one, each until its lifetime
is over. -/
theorem CachePolicy.of_bounded_eq_ok {capacity : Int} {lifetime : Scalar} {p : CachePolicy Scalar}
    (h : CachePolicy.bounded capacity lifetime = .ok p) :
    1 ≤ capacity ∧ p.capacity = some capacity.toNat ∧
      ∀ r t, p.expired r t = (!lifetime.isZero && lifetime.lt (t.sub r)) := by
  rw [CachePolicy.bounded] at h
  split at h
  · cases h
  · cases h
    exact ⟨by omega, rfl, fun _ _ => rfl⟩

namespace Cache

/-- A call to a cache. -/
inductive Call (τ κ α ε : Type) where
  /-- Asks for the value of a key at one time. The outcome is what its computation gives if it runs,
  and the second time is when that computation has ended. -/
  | get (asked done : τ) (key : κ) (outcome : Except ε α)
  /-- Looks for the value of a key. -/
  | lookup (now : τ) (key : κ)
  /-- Forgets everything. -/
  | clear

/-- The answer to a call. -/
inductive Answer (α ε : Type) where
  /-- A value and whether it was stored, or the failure of its computation. -/
  | given (result : Except ε (α × Bool))
  /-- What was found. -/
  | found (value : Option α)
  /-- Everything was forgotten. -/
  | cleared

/-- A call that was answered. -/
structure Event (τ κ α ε : Type) where
  call : Call τ κ α ε
  answer : Answer α ε
  /-- How often the call ran its computation. -/
  runs : Nat

/-- A cache with all that happened to it, the latest event first. -/
structure Session (τ κ α ε : Type) where
  cache : Cache τ κ α
  past : List (Event τ κ α ε)

variable {τ κ α ε : Type}

/-- A computation that counts its runs. -/
def counted (outcome : Except ε α) : StateM Nat (Except ε α) := do
  modify (· + 1)
  pure outcome

/-- The keys of a cache in order of use, the most recent last. -/
def keys (c : Cache τ κ α) : List κ := c.entries.map (·.key)

/-- What is left after eviction was there before. -/
theorem evict_sublist (capacity : Option Nat) (es : List (CacheEntry τ κ α)) :
    (evict capacity es).Sublist es := by
  cases capacity with
  | none => exact List.Sublist.refl es
  | some n => exact List.drop_sublist _ es

/-- Eviction keeps to the bound. -/
theorem length_evict_le (n : Nat) (es : List (CacheEntry τ κ α)) :
    (evict (some n) es).length ≤ n := by
  rw [evict, List.length_drop]
  omega

/-- Whether an event forgot everything. -/
def Event.isClear (e : Event τ κ α ε) : Bool := e.call matches .clear

/-- What happened since everything was last forgotten. -/
def sinceClear (past : List (Event τ κ α ε)) : List (Event τ κ α ε) :=
  past.takeWhile (!·.isClear)

/-- Any other event adds to what happened since. -/
theorem sinceClear_cons {e : Event τ κ α ε} (h : e.isClear = false)
    (past : List (Event τ κ α ε)) : sinceClear (e :: past) = e :: sinceClear past :=
  List.takeWhile_cons_of_pos (by rw [h]; rfl)

/-- The key that a call asks for. -/
def Call.key? : Call τ κ α ε → Option κ
  | .get _ _ key _ => some key
  | .lookup _ key => some key
  | .clear => none

/-- The key, the time and the value of a call that was answered from what was stored. -/
def Event.served? (e : Event τ κ α ε) : Option (κ × τ × α) :=
  match e.call, e.answer with
  | .get asked _ key _, .given (.ok (v, true)) => some (key, asked, v)
  | .lookup now key, .found (some v) => some (key, now, v)
  | _, _ => none

variable [BEq κ]

/-- What a call comes to, and the cache after it. -/
def perform (c : Cache τ κ α) : Call τ κ α ε → Event τ κ α ε × Cache τ κ α
  | .get asked done key outcome =>
    let ((result, d), runs) := (c.getOrComputeM asked done key fun _ => counted outcome).run 0
    (⟨.get asked done key outcome, .given result, runs⟩, d)
  | .lookup now key =>
    let (value, d) := c.lookup now key
    (⟨.lookup now key, .found value, 0⟩, d)
  | .clear => (⟨.clear, .cleared, 0⟩, c.clear)

/-- The entry that a request at some time is answered from. -/
def live? (c : Cache τ κ α) (now : τ) (key : κ) : Option (CacheEntry τ κ α) :=
  (c.entry? key).filter fun e => !c.policy.expired e.storedAt now

/-- What a call can do to a cache: the answer, how often it ran its computation, and the cache after
it. -/
inductive Move (c : Cache τ κ α) : Call τ κ α ε → Answer α ε → Nat → Cache τ κ α → Prop where
  /-- A stored value is given, and its entry is the most recent one from then on. -/
  | hit {asked done key outcome e} (h : c.live? asked key = some e) :
    Move c (.get asked done key outcome) (.given (.ok (e.value, true))) 0
      { c with entries := c.others key ++ [e], hits := c.hits + 1 }
  /-- A value is computed, given and stored. -/
  | computed {asked done key v} (h : c.live? asked key = none) :
    Move c (.get asked done key (.ok v)) (.given (.ok (v, false))) 1
      { c with
        entries := evict c.policy.capacity (c.others key ++ [⟨key, done, v⟩])
        misses := c.misses + 1 }
  /-- The computation fails, and nothing is stored. -/
  | failed {asked done key x} (h : c.live? asked key = none) :
    Move c (.get asked done key (.error x)) (.given (.error x)) 1
      { c with entries := c.others key, misses := c.misses + 1 }
  /-- A stored value is found, and its entry is the most recent one from then on. -/
  | found {now key e} (h : c.live? now key = some e) :
    Move c (.lookup now key) (.found (some e.value)) 0 { c with entries := c.others key ++ [e] }
  /-- Nothing is found. -/
  | absent {now key} (h : c.live? now key = none) :
    Move c (.lookup now key) (.found none) 0 { c with entries := c.others key }
  /-- Everything is forgotten. -/
  | cleared : Move c .clear .cleared 0 c.clear

/-- The entry that answers a request is that of the key, and it has not expired. -/
theorem live?_eq_some_iff {c : Cache τ κ α} {now : τ} {key : κ} {e : CacheEntry τ κ α} :
    c.live? now key = some e ↔ c.entry? key = some e ∧ c.policy.expired e.storedAt now = false := by
  simp [live?, Option.filter_eq_some_iff]

/-- A look at a key with a living entry finds its value and makes it the most recent. -/
theorem lookup_of_live {c : Cache τ κ α} {now : τ} {key : κ} {e : CacheEntry τ κ α}
    (h : c.live? now key = some e) :
    c.lookup now key = (some e.value, { c with entries := c.others key ++ [e] }) := by
  obtain ⟨hentry, hexp⟩ := live?_eq_some_iff.mp h
  simp [lookup, hentry, hexp]

/-- Storing a value puts its entry in place of that of its key. -/
theorem store_others (c : Cache τ κ α) (now : τ) (key : κ) (v : α) (misses : Nat) :
    store { c with entries := c.others key, misses := misses } now key v =
      { c with
        entries := evict c.policy.capacity (c.others key ++ [⟨key, now, v⟩])
        misses := misses } := by
  simp [store, others]

/-- No move changes the policy of a cache. -/
theorem Move.policy_eq {c d : Cache τ κ α} {x : Call τ κ α ε} {answer : Answer α ε} {runs : Nat}
    (h : Move c x answer runs d) : d.policy = c.policy := by
  cases h <;> rfl

namespace Session

/-- A cache to which nothing has happened yet. -/
def new (name : String) (policy : CachePolicy τ) : Session τ κ α ε :=
  ⟨{ name := name, policy := policy }, []⟩

/-- The session after one more call. -/
def step (s : Session τ κ α ε) (x : Call τ κ α ε) : Session τ κ α ε :=
  ⟨(s.cache.perform x).2, (s.cache.perform x).1 :: s.past⟩

/-- The session after some more calls, made one after the other. -/
def run (s : Session τ κ α ε) (xs : List (Call τ κ α ε)) : Session τ κ α ε := xs.foldl step s

end Session

/-- Leaving out the entry of a key keeps the keys different. -/
theorem nodup_others {c : Cache τ κ α} (h : c.keys.Nodup) (key : κ) :
    ((c.others key).map (·.key)).Nodup :=
  h.sublist (List.filter_sublist.map _)

variable [LawfulBEq κ]

/-- The entry that answers a request is among the entries. -/
theorem of_live?_eq_some {c : Cache τ κ α} {now : τ} {key : κ} {e : CacheEntry τ κ α}
    (h : c.live? now key = some e) :
    e ∈ c.entries ∧ e.key = key ∧ c.policy.expired e.storedAt now = false := by
  obtain ⟨hentry, hexp⟩ := live?_eq_some_iff.mp h
  exact ⟨List.mem_of_find?_eq_some hentry, by simpa using List.find?_some hentry, hexp⟩

@[simp] theorem mem_others {c : Cache τ κ α} {key : κ} {e : CacheEntry τ κ α} :
    e ∈ c.others key ↔ e ∈ c.entries ∧ e.key ≠ key := by
  simp [others]

/-- Without an entry of the key, all entries are others. -/
theorem others_of_entry?_eq_none {c : Cache τ κ α} {key : κ} (h : c.entry? key = none) :
    c.others key = c.entries := by
  rw [others, List.filter_eq_self]
  intro e he
  have hne := List.find?_eq_none.mp h e he
  simpa using hne

/-- A look at any other key finds nothing, and drops an entry that has expired. -/
theorem lookup_of_not_live {c : Cache τ κ α} {now : τ} {key : κ} (h : c.live? now key = none) :
    c.lookup now key = (none, { c with entries := c.others key }) := by
  cases hentry : c.entry? key with
  | none => simp [lookup, hentry, others_of_entry?_eq_none hentry]
  | some e =>
    have hexp : c.policy.expired e.storedAt now = true := by
      by_contra hexp
      have hlive := live?_eq_some_iff.mpr ⟨hentry, by simpa using hexp⟩
      rw [h] at hlive
      cases hlive
    simp [lookup, hentry, hexp]

/-- Every call is one of the moves. -/
theorem exists_move (c : Cache τ κ α) (x : Call τ κ α ε) :
    ∃ answer runs d, c.perform x = (⟨x, answer, runs⟩, d) ∧ Move c x answer runs d := by
  cases x with
  | get asked done key outcome =>
    cases hlive : c.live? asked key with
    | some e =>
      refine ⟨_, _, _, ?_, .hit hlive⟩
      rw [perform, getOrComputeM, request, lookup_of_live hlive]
      rfl
    | none =>
      cases outcome with
      | ok v =>
        refine ⟨_, _, _, ?_, .computed hlive⟩
        rw [perform, getOrComputeM, request, lookup_of_not_live hlive, ← store_others]
        rfl
      | error x =>
        refine ⟨_, _, _, ?_, .failed hlive⟩
        rw [perform, getOrComputeM, request, lookup_of_not_live hlive]
        rfl
  | lookup now key =>
    cases hlive : c.live? now key with
    | some e => exact ⟨_, _, _, by rw [perform, lookup_of_live hlive], .found hlive⟩
    | none => exact ⟨_, _, _, by rw [perform, lookup_of_not_live hlive], .absent hlive⟩
  | clear => exact ⟨_, _, _, rfl, .cleared⟩

/-- What holds of a session and is kept by every move holds after every sequence of calls. -/
theorem Session.run_induction {motive : Session τ κ α ε → Prop} {s : Session τ κ α ε}
    (hs : motive s) (xs : List (Call τ κ α ε))
    (hmove : ∀ s : Session τ κ α ε, motive s → ∀ x ∈ xs, ∀ answer runs d,
      Move s.cache x answer runs d → motive ⟨d, ⟨x, answer, runs⟩ :: s.past⟩) :
    motive (s.run xs) := by
  refine List.foldlRecOn xs step hs ?_
  intro s hs x hx
  obtain ⟨answer, runs, d, hperform, hd⟩ := exists_move s.cache x
  rw [step, hperform]
  exact hmove s hs x hx answer runs d hd

/-- No sequence of calls changes the policy of a cache. -/
theorem Session.policy_run (name : String) (p : CachePolicy τ) (xs : List (Call τ κ α ε)) :
    ((new name p).run xs : Session τ κ α ε).cache.policy = p := by
  refine run_induction (motive := fun s => s.cache.policy = p) rfl xs ?_
  intro s hs x _ answer runs d hd
  rw [hd.policy_eq, hs]

/-- An entry put in place of that of its key keeps the keys different. -/
theorem nodup_others_append {c : Cache τ κ α} (h : c.keys.Nodup) {e : CacheEntry τ κ α} {key : κ}
    (he : e.key = key) : ((c.others key ++ [e]).map (·.key)).Nodup := by
  rw [List.map_append, List.nodup_append]
  refine ⟨nodup_others h key, List.pairwise_singleton .., ?_⟩
  simp only [List.mem_map, mem_others, List.map_cons, List.map_nil, List.mem_singleton]
  rintro _ ⟨d, ⟨-, hd⟩, rfl⟩ _ rfl
  rwa [he]

/-- The keys of a cache are different after every move. -/
theorem Move.nodup_keys {c d : Cache τ κ α} {x : Call τ κ α ε} {answer : Answer α ε} {runs : Nat}
    (hd : Move c x answer runs d) (h : c.keys.Nodup) : d.keys.Nodup := by
  cases hd with
  | hit hlive => exact nodup_others_append h (of_live?_eq_some hlive).2.1
  | @computed _ done key v _ =>
    have hnew : (CacheEntry.mk key done v).key = key := rfl
    exact (nodup_others_append h hnew).sublist ((evict_sublist ..).map _)
  | failed _ => exact nodup_others h _
  | found hlive => exact nodup_others_append h (of_live?_eq_some hlive).2.1
  | absent _ => exact nodup_others h _
  | cleared => exact List.nodup_nil

/-- The keys of a cache are different after every sequence of calls. -/
theorem Session.nodup_keys_run (name : String) (p : CachePolicy τ) (xs : List (Call τ κ α ε)) :
    ((new name p).run xs : Session τ κ α ε).cache.keys.Nodup := by
  have hnew : (new name p : Session τ κ α ε).cache.keys.Nodup := List.nodup_nil
  exact run_induction (motive := fun s => s.cache.keys.Nodup) hnew xs
    fun s hs x _ answer runs d hd => hd.nodup_keys hs

/-- The entries other than a stored one are fewer. -/
theorem length_others_lt {c : Cache τ κ α} {e : CacheEntry τ κ α} (he : e ∈ c.entries) :
    (c.others e.key).length < c.entries.length := by
  apply List.length_filter_lt_length_iff_exists.mpr
  exact ⟨e, he, by simp⟩

/-- A bounded cache keeps to its bound after every move. -/
theorem Move.length_entries_le {c d : Cache τ κ α} {x : Call τ κ α ε} {answer : Answer α ε}
    {runs n : Nat} (hd : Move c x answer runs d) (hn : c.policy.capacity = some n)
    (h : c.entries.length ≤ n) : d.entries.length ≤ n := by
  have hothers (key : κ) : (c.others key).length ≤ n :=
    Nat.le_trans (List.length_filter_le ..) h
  have hlast {t : τ} {key : κ} {e : CacheEntry τ κ α} (hlive : c.live? t key = some e) :
      (c.others key ++ [e]).length ≤ n := by
    obtain ⟨hmem, rfl, -⟩ := of_live?_eq_some hlive
    have hlt := length_others_lt hmem
    rw [List.length_append, List.length_singleton]
    omega
  cases hd with
  | hit hlive => exact hlast hlive
  | computed _ =>
    rw [hn]
    exact length_evict_le n _
  | failed _ => exact hothers _
  | found hlive => exact hlast hlive
  | absent _ => exact hothers _
  | cleared => exact Nat.zero_le n

/-- A bounded cache keeps to its bound after every sequence of calls. -/
theorem Session.length_entries_run_le (name : String) {p : CachePolicy τ} {n : Nat}
    (hn : p.capacity = some n) (xs : List (Call τ κ α ε)) :
    ((new name p).run xs : Session τ κ α ε).cache.entries.length ≤ n := by
  have h := run_induction
    (motive := fun s : Session τ κ α ε => s.cache.policy = p ∧ s.cache.entries.length ≤ n)
    (s := new name p) ⟨rfl, Nat.zero_le n⟩ xs ?_
  · exact h.2
  · rintro s ⟨hp, hs⟩ x _ answer runs d hd
    exact ⟨hd.policy_eq.trans hp, hd.length_entries_le (by rw [hp, hn]) hs⟩

end Cache

end HostScript

/-! ## Knowledge -/

namespace HostScript.Cache

variable {τ κ α ε : Type} [BEq κ]

/-- The value that a cache knows for a key. -/
def value? (c : Cache τ κ α) (key : κ) : Option α := (c.entry? key).map (·.value)

/-- A cache without entries knows nothing. -/
theorem value?_of_entries_eq_nil {c : Cache τ κ α} (h : c.entries = []) (key : κ) :
    c.value? key = none := by
  rw [value?, entry?, h]
  rfl

/-- Counting changes nothing that is known. -/
@[simp] theorem value?_count (c : Cache τ κ α) (hits misses : Nat) (key : κ) :
    value? { c with hits := hits, misses := misses } key = c.value? key := rfl

variable [LawfulBEq κ]

/-- An entry put last is found for its own key, and the others are found as before. -/
theorem find?_filter_append (es : List (CacheEntry τ κ α)) (e : CacheEntry τ κ α) (k : κ) :
    ((es.filter fun d => !(d.key == e.key)) ++ [e]).find? (·.key == k) =
      if k == e.key then some e else es.find? (·.key == k) := by
  rw [List.find?_append]
  by_cases hk : k = e.key
  · subst hk
    have hnone : (es.filter fun d => !(d.key == e.key)).find? (·.key == e.key) = none := by
      simp [List.find?_eq_none]
    simp [hnone]
  · have hsame : (es.filter fun d => !(d.key == e.key)).find? (·.key == k) =
        es.find? (·.key == k) := by
      rw [List.find?_filter]
      congr 1
      funext d
      by_cases hd : d.key = k
      · simp [hd, hk]
      · simp [hd]
    have hlast : [e].find? (·.key == k) = none := by
      simp [Ne.symm hk]
    simp [hsame, hlast, hk]

/-- Storing a value makes it known. -/
theorem value?_store {c : Cache τ κ α} (hc : c.policy = .unbounded) (now : τ) (key : κ) (v : α)
    (k : κ) : (c.store now key v).value? k = if k == key then some v else c.value? k := by
  have hentries : (c.store now key v).entries = c.others key ++ [⟨key, now, v⟩] := by
    rw [store, hc]
    rfl
  rw [value?, entry?, hentries, others, find?_filter_append c.entries ⟨key, now, v⟩ k]
  cases k == key <;> rfl

/-- A cache without bounds finds what it knows, and knows the same afterwards. -/
theorem lookup_spec {c : Cache τ κ α} (hc : c.policy = .unbounded) (now : τ) (key : κ) :
    ∃ d, c.lookup now key = (c.value? key, d) ∧ d.policy = .unbounded ∧
      ∀ k, d.value? k = c.value? k := by
  rw [lookup, value?]
  cases he : c.entry? key with
  | none => exact ⟨c, rfl, hc, fun _ => rfl⟩
  | some e =>
    have hkey : e.key = key := by
      simpa using List.find?_some he
    have hexp : c.policy.expired e.storedAt now = false := by
      rw [hc]
      rfl
    subst hkey
    refine ⟨{ c with entries := c.others e.key ++ [e] }, by simp [hexp], hc, ?_⟩
    intro k
    rw [value?, entry?, others, find?_filter_append c.entries e k, value?]
    by_cases hk : k = e.key
    · subst hk
      simp [he]
    · simp [hk, entry?]

/-- A known value is the answer to a request, and what is computed is the answer otherwise. What
was computed is known from then on. -/
theorem getOrCompute_spec {c : Cache τ κ α} (hc : c.policy = .unbounded) (now : τ) (key : κ)
    (compute : Unit → Except ε α) :
    ∃ d, c.getOrCompute now key compute =
        ((c.value? key).elim ((compute ()).map (·, false)) fun v => .ok (v, true), d) ∧
      d.policy = .unbounded ∧
      ∀ k, d.value? k =
        if k == key then (c.value? key).or (compute ()).toOption else c.value? k := by
  obtain ⟨d, hlookup, hpolicy, hknown⟩ := lookup_spec hc now key
  rw [getOrCompute, getOrComputeM, request, hlookup]
  cases hv : c.value? key with
  | some v =>
    refine ⟨_, rfl, hpolicy, fun k => ?_⟩
    by_cases hk : k = key
    · simp [hk, hknown, hv]
    · simp [hk, hknown]
  | none =>
    cases hr : compute () with
    | ok v =>
      have hcounted : ({ d with misses := d.misses + 1 } : Cache τ κ α).policy = .unbounded :=
        hpolicy
      refine ⟨_, rfl, hpolicy, fun k => ?_⟩
      rw [value?_store hcounted]
      simp [hknown, Except.toOption]
    | error e =>
      refine ⟨_, rfl, hpolicy, fun k => ?_⟩
      by_cases hk : k = key
      · simp [hk, hknown, hv, Except.toOption]
      · simp [hk, hknown]

end HostScript.Cache

/-!
## What a cache counts

Since everything was last forgotten, a cache has counted each request once: as a hit if it was
answered from what was stored, and as a miss if its computation ran, whether that succeeded or not.
A look at a key counts nothing. A computation that fails leaves the entries as they were, in their
order, except that one of the same key that has expired is dropped.
-/

namespace HostScript.Cache

variable {τ κ α ε : Type}

/-- Whether an event asked for the value of a key. -/
def Event.isRequest (e : Event τ κ α ε) : Bool := e.call matches .get ..

/-- Whether an event was a request that was answered as a hit. -/
def Event.isHit (e : Event τ κ α ε) : Bool := e.answer matches .given (.ok (_, true))

/-- How often computations ran in some events. -/
def totalRuns (past : List (Event τ κ α ε)) : Nat := (past.map (·.runs)).sum

/-- The counters of a cache are what happened since everything was last forgotten. -/
structure CountsRecent (s : Session τ κ α ε) : Prop where
  hits : s.cache.hits = (sinceClear s.past).countP Event.isHit
  misses : s.cache.misses = totalRuns (sinceClear s.past)
  requests : s.cache.hits + s.cache.misses = (sinceClear s.past).countP Event.isRequest

variable [BEq κ]

/-- Every move but forgetting counts its event: a hit, or the run of a computation, if it is a
request, and nothing otherwise. -/
theorem Move.counts {c d : Cache τ κ α} {x : Call τ κ α ε} {answer : Answer α ε} {runs : Nat}
    (hd : Move c x answer runs d) (hx : (Event.mk x answer runs).isClear = false) :
    d.hits = c.hits + (if (Event.mk x answer runs).isHit then 1 else 0) ∧
      d.misses = c.misses + runs ∧
      (if (Event.mk x answer runs).isRequest then 1 else 0) =
        (if (Event.mk x answer runs).isHit then 1 else 0) + runs := by
  cases hd with
  | cleared => cases hx
  | _ => exact ⟨rfl, rfl, rfl⟩

/-- The counters stay what happened since everything was last forgotten. -/
theorem CountsRecent.move {s : Session τ κ α ε} (h : CountsRecent s) {x : Call τ κ α ε}
    {answer : Answer α ε} {runs : Nat} {d : Cache τ κ α} (hd : Move s.cache x answer runs d) :
    CountsRecent ⟨d, ⟨x, answer, runs⟩ :: s.past⟩ := by
  cases hx : (Event.mk x answer runs).isClear with
  | true =>
    cases hd with
    | cleared => exact ⟨rfl, rfl, rfl⟩
    | _ => cases hx
  | false =>
    obtain ⟨hhits, hmisses, hrequest⟩ := hd.counts hx
    have hsince := sinceClear_cons hx s.past
    refine ⟨?_, ?_, ?_⟩
    · rw [hsince, List.countP_cons, hhits, h.hits]
    · rw [hsince, totalRuns, List.map_cons, List.sum_cons, hmisses, h.misses, Nat.add_comm]
      rfl
    · rw [hsince, List.countP_cons, hrequest, ← h.requests, hhits, hmisses]
      omega

variable [LawfulBEq κ]

/-- The counters are what happened after every sequence of calls. -/
theorem countsRecent_run (name : String) (p : CachePolicy τ) (xs : List (Call τ κ α ε)) :
    CountsRecent ((Session.new name p).run xs) := by
  have hnew : CountsRecent (Session.new name p : Session τ κ α ε) := ⟨rfl, rfl, rfl⟩
  exact Session.run_induction hnew xs fun s hs x _ answer runs d hd => hs.move hd

/-- With different keys, an entry is found under its key. -/
theorem entry?_eq_some {c : Cache τ κ α} (h : c.keys.Nodup) {e : CacheEntry τ κ α}
    (he : e ∈ c.entries) : c.entry? e.key = some e := by
  obtain ⟨d, hd⟩ : ∃ d, c.entry? e.key = some d :=
    Option.isSome_iff_exists.mp (List.find?_isSome.mpr ⟨e, he, beq_self_eq_true _⟩)
  have hkey : d.key = e.key := by simpa using List.find?_some hd
  rw [hd, List.inj_on_of_nodup_map h (List.mem_of_find?_eq_some hd) he hkey]

/-- With different keys, the entries other than that of a key without a living one are all that have
another key or have not expired. -/
theorem others_eq_filter {c : Cache τ κ α} (h : c.keys.Nodup) {now : τ} {key : κ}
    (hlive : c.live? now key = none) :
    c.others key =
      c.entries.filter fun e => !(e.key == key && c.policy.expired e.storedAt now) := by
  rw [others]
  apply List.filter_congr
  intro e he
  by_cases hkey : e.key = key
  · have hexpired : c.policy.expired e.storedAt now = true := by
      by_contra hexpired
      have hsome := live?_eq_some_iff.mpr ⟨entry?_eq_some h he, by simpa using hexpired⟩
      rw [hkey, hlive] at hsome
      cases hsome
    simp [hkey, hexpired]
  · simp [hkey]

/-- Whatever the policy of a cache and the calls made to it, requests since everything was last
forgotten are hits and misses; the misses are the computations that ran and the hits are the answers
from what was stored; a look at a key changes no counter; and a request whose computation fails
leaves the entries and their order, less an expired one of its key. -/
theorem counters_exact (name : String) (p : CachePolicy τ) (calls : List (Call τ κ α ε)) :
    let s := (Session.new name p).run calls
    let recent := sinceClear s.past
    s.cache.hits + s.cache.misses = recent.countP Event.isRequest ∧
    s.cache.misses = totalRuns recent ∧
    s.cache.hits = recent.countP Event.isHit ∧
    (∀ now key, (s.cache.lookup now key).2.hits = s.cache.hits ∧
      (s.cache.lookup now key).2.misses = s.cache.misses) ∧
    ∀ (asked done : τ) (key : κ) (outcome : Except ε α) (x : ε),
      (s.cache.perform (.get asked done key outcome)).1.answer = .given (.error x) →
        (s.cache.perform (.get asked done key outcome)).2.entries =
          s.cache.entries.filter fun e => !(e.key == key && p.expired e.storedAt asked) := by
  intro s recent
  obtain ⟨hhits, hmisses, hrequests⟩ := countsRecent_run name p calls
  have hpolicy : s.cache.policy = p := Session.policy_run name p calls
  refine ⟨hrequests, hmisses, hhits, fun now key => ?_, fun asked done key outcome x hfail => ?_⟩
  · cases hlive : s.cache.live? now key with
    | some e =>
      rw [lookup_of_live hlive]
      exact ⟨rfl, rfl⟩
    | none =>
      rw [lookup_of_not_live hlive]
      exact ⟨rfl, rfl⟩
  · obtain ⟨answer, runs, d, hperform, hd⟩ := exists_move s.cache (.get asked done key outcome)
    rw [hperform] at hfail ⊢
    cases hd with
    | hit _ => cases hfail
    | computed _ => cases hfail
    | failed hlive =>
      rw [← hpolicy]
      exact others_eq_filter (Session.nodup_keys_run name p calls) hlive

/-- After everything was forgotten, a value is stored and used, and another computation fails. -/
def failingCalls : List (Call Scalar Nat Nat Fault) :=
  [.get (.int 0) (.int 0) 1 (.ok 7), .clear, .get (.int 1) (.int 1) 1 (.ok 7),
    .get (.int 2) (.int 2) 1 (.error .outOfRange), .get (.int 3) (.int 3) 2 (.error .outOfRange),
    .lookup (.int 4) 2]

/-- Of the two requests whose computation would fail, one is a hit and one is a miss; a third one,
for a value that has expired, drops it. -/
theorem counters_exact_failingCalls :
    ∃ p, CachePolicy.bounded 2 (.int 10) = .ok p ∧
      let s := (Session.new "c" p).run failingCalls
      s.cache.hits + s.cache.misses = 3 ∧ s.cache.misses = 2 ∧ s.cache.hits = 1 ∧
        s.cache.keys = [1] ∧
        (s.cache.perform (.get (.int 20) (.int 20) 1 (.error .outOfRange) :
          Call Scalar Nat Nat Fault)).2.entries = [] := by
  obtain ⟨p, hp⟩ := CachePolicy.exists_bounded (n := 2) (by decide) (.int 10)
  obtain ⟨hrequests, hmisses, hhits, -, hfails⟩ := counters_exact "c" p failingCalls
  refine ⟨p, hp, ?_⟩
  have hexpired := hfails (.int 20) (.int 20) 1 (.error .outOfRange) .outOfRange
  cases hp
  exact ⟨hrequests, hmisses, hhits, rfl, hexpired rfl⟩

end HostScript.Cache
