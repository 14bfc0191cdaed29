import HostScript.Proofs.Cache
import Mathlib.Algebra.Order.Ring.Rat
import Mathlib.Data.List.Nodup
import Mathlib.Data.List.TakeWhile
import Mathlib.Data.Set.Basic

/-!
# What a cache answers from

How old a stored value can be, and which keys a bounded cache keeps.
-/

namespace HostScript

/-!
## How old a stored value can be

Whatever a cache answers from what is stored is the result of the latest computation for the key
that succeeded since everything was last forgotten. Its age is counted from the end of that
computation, however often it was used in between, and is at most the lifetime of the cache. The
clock may read anything, and need not go forward; only its numbers have to be exact.
-/

/-- Numbers with values of which comparisons and differences are exact. -/
structure Scalar.ExactOn (numbers : Set Scalar) (value : Scalar → ℚ) : Prop where
  isZero_iff : ∀ a ∈ numbers, a.isZero = true ↔ value a = 0
  lt_sub_iff : ∀ a ∈ numbers, ∀ b ∈ numbers, ∀ c ∈ numbers,
    a.lt (b.sub c) = true ↔ value a < value b - value c

/-- The value of a whole number. -/
def Scalar.wholeValue : Scalar → ℚ
  | .int n => n
  | .float _ => 0

/-- Whole numbers are exact. -/
theorem Scalar.exactOn_int : Scalar.ExactOn (Set.range Scalar.int) Scalar.wholeValue where
  isZero_iff := by
    rintro _ ⟨a, rfl⟩
    simp [isZero, wholeValue]
  lt_sub_iff := by
    rintro _ ⟨a, rfl⟩ _ ⟨b, rfl⟩ _ ⟨c, rfl⟩
    rw [wholeValue, wholeValue, wholeValue, ← Int.cast_sub, Rat.intCast_lt_intCast]
    simp [sub, lt]

namespace Cache

variable {τ κ α ε : Type}

/-- The times that a call reads. -/
def Call.times : Call τ κ α ε → List τ
  | .get asked done _ _ => [asked, done]
  | .lookup now _ => [now]
  | .clear => []

/-- The key, the time and the value of an event that stored what it computed. -/
def Event.stored? (e : Event τ κ α ε) : Option (κ × τ × α) :=
  match e.call, e.answer with
  | .get _ done key _, .given (.ok (v, false)) => some (key, done, v)
  | _, _ => none

variable [BEq κ]

/-- The time and the value of the latest computation for a key that succeeded since everything was
last forgotten. -/
def lastStored (past : List (Event τ κ α ε)) (key : κ) : Option (τ × α) :=
  ((sinceClear past).filterMap Event.stored?).lookup key

/-- The entries of a cache are what was last stored under their keys. -/
def IsCurrent (s : Session τ κ α ε) : Prop :=
  ∀ e ∈ s.cache.entries, lastStored s.past e.key = some (e.storedAt, e.value)

/-- What was last stored under the keys after one of them was stored. -/
theorem lastStored_computed (asked done : τ) (key : κ) (v : α) (runs : Nat)
    (past : List (Event τ κ α ε)) (k : κ) :
    lastStored (⟨.get asked done key (.ok v), .given (.ok (v, false)), runs⟩ :: past) k =
      if k == key then some (done, v) else lastStored past k := by
  rw [lastStored, sinceClear_cons rfl]
  simp only [List.filterMap_cons, Event.stored?, List.lookup_cons]
  cases k == key <;> rfl

variable [LawfulBEq κ]

/-- Every move leaves the entries what was last stored. -/
theorem IsCurrent.move {s : Session τ κ α ε} (h : IsCurrent s) {x : Call τ κ α ε}
    {answer : Answer α ε} {runs : Nat} {d : Cache τ κ α} (hd : Move s.cache x answer runs d) :
    IsCurrent ⟨d, ⟨x, answer, runs⟩ :: s.past⟩ := by
  have hothers {key : κ} : ∀ e ∈ s.cache.others key,
      lastStored s.past e.key = some (e.storedAt, e.value) :=
    fun e he => h e (mem_others.mp he).1
  have hlast {now : τ} {key : κ} {d : CacheEntry τ κ α} (hlive : s.cache.live? now key = some d) :
      ∀ e ∈ s.cache.others key ++ [d], lastStored s.past e.key = some (e.storedAt, e.value) := by
    rw [List.forall_mem_append, List.forall_mem_singleton]
    exact ⟨hothers, h d (of_live?_eq_some hlive).1⟩
  cases hd with
  | hit hlive => exact hlast hlive
  | @computed asked done key v _ =>
    intro e he
    rw [lastStored_computed]
    rcases List.mem_append.mp ((evict_sublist ..).subset he) with he | he
    · have hne : (e.key == key) = false := by simpa using (mem_others.mp he).2
      rw [hne]
      exact hothers e he
    · obtain rfl := List.mem_singleton.mp he
      simp
  | failed _ => exact hothers
  | found hlive => exact hlast hlive
  | absent _ => exact hothers
  | cleared => exact fun e he => absurd he List.not_mem_nil

/-- The entries are what was last stored after every sequence of calls. -/
theorem isCurrent_run (name : String) (p : CachePolicy τ) (xs : List (Call τ κ α ε)) :
    IsCurrent ((Session.new name p).run xs) := by
  have hnew : IsCurrent (Session.new name p : Session τ κ α ε) :=
    fun e he => absurd he List.not_mem_nil
  exact Session.run_induction hnew xs fun s hs x _ answer runs d hd => hs.move hd

/-- The events of a session are its calls. -/
theorem Session.map_call_run (s : Session τ κ α ε) (xs : List (Call τ κ α ε)) :
    (s.run xs).past.map (·.call) = xs.reverse ++ s.past.map (·.call) := by
  induction xs generalizing s with
  | nil => rfl
  | cons x xs ih =>
    obtain ⟨answer, runs, d, hperform, -⟩ := exists_move s.cache x
    have hstep : s.run (x :: xs) = (s.step x).run xs := rfl
    rw [hstep, ih, step, hperform]
    simp

/-- What was last stored under a key was stored at a time that one of the calls read. -/
theorem exists_time_of_lastStored {past : List (Event τ κ α ε)} {key : κ} {t : τ} {v : α}
    (h : lastStored past key = some (t, v)) : ∃ e ∈ past, t ∈ e.call.times := by
  obtain ⟨before, after, hsplit, -⟩ := List.lookup_eq_some_iff.mp h
  have hmem : (key, t, v) ∈ (sinceClear past).filterMap Event.stored? := by
    simp [hsplit]
  obtain ⟨⟨x, answer, runs⟩, he, hstored⟩ := List.mem_filterMap.mp hmem
  refine ⟨_, List.takeWhile_subset _ he, ?_⟩
  rw [Event.stored?] at hstored
  split at hstored
  · rename_i hx _
    cases hstored
    rw [hx]
    simp [Call.times]
  · cases hstored

/-- A call is answered from a living entry of its key, at a time that it reads. -/
theorem exists_live?_of_served? {c : Cache τ κ α} {x : Call τ κ α ε} {key : κ} {now : τ} {v : α}
    (h : (c.perform x).1.served? = some (key, now, v)) :
    ∃ e, c.live? now key = some e ∧ e.value = v ∧ now ∈ x.times := by
  obtain ⟨answer, runs, d, hperform, hd⟩ := exists_move c x
  rw [hperform] at h
  cases hd with
  | hit hlive =>
    cases h
    exact ⟨_, hlive, rfl, by simp [Call.times]⟩
  | computed _ => cases h
  | failed _ => cases h
  | found hlive =>
    cases h
    exact ⟨_, hlive, rfl, by simp [Call.times]⟩
  | absent _ => cases h
  | cleared => cases h

end Cache

/-- Settings ask for a policy without bounds only if they give no lifetime, and for a bounded one
otherwise. -/
theorem CachePolicy.of_ofSettings_eq_ok {capacity : Int} {lifetime : Scalar}
    {p : CachePolicy Scalar} (h : CachePolicy.ofSettings capacity lifetime = .ok p) :
    (p = .unbounded ∧ lifetime.isZero = true) ∨
      ∃ n, CachePolicy.bounded n lifetime = .ok p := by
  rw [CachePolicy.ofSettings] at h
  split at h
  · rename_i hnone
    rw [Bool.and_eq_true] at hnone
    cases h
    exact Or.inl ⟨rfl, hnone.2⟩
  · exact Or.inr ⟨_, h⟩

/-- What has not expired is no older than the lifetime. -/
theorem CachePolicy.age_le_of_not_expired {capacity : Int} {lifetime : Scalar}
    {p : CachePolicy Scalar} (hp : CachePolicy.ofSettings capacity lifetime = .ok p ∨
      CachePolicy.bounded capacity lifetime = .ok p)
    {numbers : Set Scalar} {value : Scalar → ℚ} (hexact : Scalar.ExactOn numbers value)
    {stored now : Scalar} (hlifetime : lifetime ∈ numbers) (hstored : stored ∈ numbers)
    (hnow : now ∈ numbers) (h : p.expired stored now = false) :
    value lifetime = 0 ∨ value now - value stored ≤ value lifetime := by
  have hbounded {n : Int} (hp : CachePolicy.bounded n lifetime = .ok p) :
      value lifetime = 0 ∨ value now - value stored ≤ value lifetime := by
    obtain ⟨-, -, hexpired⟩ := CachePolicy.of_bounded_eq_ok hp
    rw [hexpired, Bool.and_eq_false_iff] at h
    rcases h with h | h
    · exact Or.inl ((hexact.isZero_iff _ hlifetime).mp (by simpa using h))
    · refine Or.inr (not_lt.mp fun hlt => ?_)
      rw [(hexact.lt_sub_iff _ hlifetime _ hnow _ hstored).mpr hlt] at h
      cases h
  rcases hp with hp | hp
  · rcases CachePolicy.of_ofSettings_eq_ok hp with ⟨-, hzero⟩ | ⟨n, hp⟩
    · exact Or.inl ((hexact.isZero_iff _ hlifetime).mp hzero)
    · exact hbounded hp
  · exact hbounded hp

namespace Cache

variable {κ α ε : Type} [BEq κ] [LawfulBEq κ]

/-- After every sequence of calls, whatever a call is answered with from what is stored is the
result of the latest successful computation for its key since everything was last forgotten, and
since that computation ended no more time has passed than the lifetime. A bounded cache keeps to
its bound. -/
theorem served_eq_lastStored {capacity : Int} {lifetime : Scalar} {p : CachePolicy Scalar}
    (hp : CachePolicy.ofSettings capacity lifetime = .ok p ∨
      CachePolicy.bounded capacity lifetime = .ok p)
    {numbers : Set Scalar} {value : Scalar → ℚ} (hexact : Scalar.ExactOn numbers value)
    (hlifetime : lifetime ∈ numbers) (name : String) {calls : List (Call Scalar κ α ε)}
    (hcalls : ∀ x ∈ calls, ∀ t ∈ x.times, t ∈ numbers) :
    let s := (Session.new name p).run calls
    (∀ x : Call Scalar κ α ε, (∀ t ∈ x.times, t ∈ numbers) → ∀ key now v,
      (s.cache.perform x).1.served? = some (key, now, v) →
        ∃ stored, lastStored s.past key = some (stored, v) ∧
          (value lifetime = 0 ∨ value now - value stored ≤ value lifetime)) ∧
    ∀ n, CachePolicy.bounded n lifetime = .ok p → (s.cache.stats.size : Int) ≤ n := by
  intro s
  refine ⟨fun x hx key now v hserved => ?_, fun n hn => ?_⟩
  · obtain ⟨e, hlive, rfl, hnow⟩ := exists_live?_of_served? hserved
    obtain ⟨hmem, rfl, hexpired⟩ := of_live?_eq_some hlive
    rw [Session.policy_run] at hexpired
    have hlast := isCurrent_run name p calls e hmem
    obtain ⟨x', hx', htime⟩ := exists_time_of_lastStored hlast
    have hcall : x'.call ∈ calls := by
      have hmap := List.mem_map_of_mem (f := (·.call)) hx'
      rw [Session.map_call_run] at hmap
      simpa [Session.new] using hmap
    have hstored := hcalls _ hcall _ htime
    exact ⟨e.storedAt, hlast,
      CachePolicy.age_le_of_not_expired hp hexact hlifetime hstored (hx now hnow) hexpired⟩
  · obtain ⟨hpos, hcapacity, -⟩ := CachePolicy.of_bounded_eq_ok hn
    have hsize : s.cache.stats.size ≤ n.toNat := Session.length_entries_run_le name hcapacity calls
    omega

/-- A value is stored at the end of its computation and used once. -/
def usedOnce : List (Call Scalar Nat Nat Fault) :=
  [.get (.int 0) (.int 2) 1 (.ok 7), .lookup (.int 9) 1]

/-- Ten units of time after it was stored the value is still served; it is not after eleven, though
it was used in between. -/
theorem served_eq_lastStored_usedOnce :
    ∃ p, CachePolicy.bounded 2 (.int 10) = .ok p ∧
      let s := (Session.new "c" p).run usedOnce
      (s.cache.perform (.lookup (.int 12) 1 : Call Scalar Nat Nat Fault)).1.served? =
        some (1, .int 12, 7) ∧
      (∃ stored, lastStored s.past 1 = some (stored, 7) ∧
        ((10 : ℚ) = 0 ∨ 12 - stored.wholeValue ≤ 10)) ∧
      (s.cache.perform (.lookup (.int 13) 1 : Call Scalar Nat Nat Fault)).1.served? = none := by
  obtain ⟨p, hp⟩ := CachePolicy.exists_bounded (n := 2) (by decide) (.int 10)
  have htimes : ∀ x ∈ usedOnce, ∀ t ∈ x.times, t ∈ Set.range Scalar.int := by
    simp [usedOnce, Call.times]
  refine ⟨p, hp, ?_, ?_, ?_⟩
  · cases hp
    rfl
  · obtain ⟨hcurrent, -⟩ := served_eq_lastStored (Or.inr hp) Scalar.exactOn_int ⟨10, rfl⟩ "c" htimes
    refine hcurrent (.lookup (.int 12) 1) (by simp [Call.times]) 1 (.int 12) 7 ?_
    cases hp
    rfl
  · cases hp
    rfl

end Cache

end HostScript

/-!
## What a bounded cache keeps

A cache of `n` entries without a limit of time keeps the `n` keys that were touched last. A key is
touched when its value is found and when it is stored. So a key is there exactly if it was touched
since everything was last forgotten and fewer than `n` other keys were touched after it; this alone
decides which calls are answered from what is stored.
-/

namespace HostScript.Cache

variable {τ κ α ε : Type}

/-- The key that an event touched: one whose value was found, or computed and stored. -/
def Event.touched? (e : Event τ κ α ε) : Option κ :=
  match e.call, e.answer with
  | .get _ _ key _, .given (.ok _) => some key
  | .lookup _ key, .found (some _) => some key
  | _, _ => none

/-- The keys that were touched since everything was last forgotten, the latest first. -/
def touches (past : List (Event τ κ α ε)) : List κ := (sinceClear past).filterMap Event.touched?

/-- Eviction keeps the most recent keys. -/
theorem reverse_map_evict (n : Nat) (es : List (CacheEntry τ κ α)) :
    ((evict (some n) es).map (·.key)).reverse = (es.map (·.key)).reverse.take n := by
  rw [evict, List.map_drop, List.reverse_drop, List.length_map, List.take_eq_take_iff,
    List.length_reverse, List.length_map]
  omega

variable [BEq κ]

/-- A key that was touched, and fewer than `n` different other keys after its last touch. -/
def IsRecent (n : Nat) (touched : List κ) (key : κ) : Prop :=
  key ∈ touched ∧ (touched.takeWhile (· != key)).eraseDups.length < n

instance [LawfulBEq κ] (n : Nat) (touched : List κ) (key : κ) :
    Decidable (IsRecent n touched key) :=
  inferInstanceAs (Decidable (_ ∧ _))

/-- The keys of the others are the other keys. -/
theorem map_key_others (c : Cache τ κ α) (key : κ) :
    (c.others key).map (·.key) = c.keys.filter (!· == key) := by
  rw [others, keys, List.filter_map]
  rfl

variable [LawfulBEq κ]

/-- Selecting from a list and from its distinct elements is the same. -/
theorem eraseDups_filter (keep : κ → Bool) (ks : List κ) :
    (ks.filter keep).eraseDups = ks.eraseDups.filter keep := by
  induction hlen : ks.length using Nat.strongRecOn generalizing ks with
  | _ len ih =>
    subst hlen
    cases ks with
    | nil => rfl
    | cons a ks =>
      have hrest := ih (ks.filter fun b => !b == a).length
        (Nat.lt_succ_of_le (List.length_filter_le ..)) _ rfl
      rw [List.filter_filter] at hrest
      rw [List.eraseDups_cons]
      cases ha : keep a with
      | true =>
        rw [List.filter_cons_of_pos ha, List.filter_cons_of_pos ha, List.eraseDups_cons,
          List.filter_filter, ← hrest]
        simp only [Bool.and_comm]
      | false =>
        have hsame : ks.filter keep = ks.filter fun b => keep b && !b == a := by
          apply List.filter_congr
          intro b _
          by_cases hb : b = a
          · simp [hb, ha]
          · simp [hb]
        rw [List.filter_cons_of_neg (by simp [ha]), List.filter_cons_of_neg (by simp [ha]), hsame,
          hrest]

/-- The distinct elements of a list are distinct. -/
theorem nodup_eraseDups (ks : List κ) : ks.eraseDups.Nodup := by
  induction ks with
  | nil => exact List.nodup_nil
  | cons a ks ih =>
    rw [List.eraseDups_cons, eraseDups_filter, List.nodup_cons]
    exact ⟨by simp, ih.filter _⟩

/-- One of distinct keys is among the first `n` exactly if fewer than `n` stand before it. -/
theorem mem_take_eraseDups_iff (n : Nat) (ks : List κ) (k : κ) :
    k ∈ ks.eraseDups.take n ↔ IsRecent n ks k := by
  by_cases hk : k ∈ ks
  · have hmem : k ∈ ks.eraseDups := List.mem_eraseDups.mpr hk
    obtain ⟨later, earlier, hsplit, hnot⟩ := List.eq_append_cons_of_mem hk
    have hlater : ks.takeWhile (· != k) = later := by
      rw [hsplit, List.takeWhile_append_of_pos]
      · simp
      · intro b hb
        have hne : b ≠ k := fun hbk => hnot (hbk ▸ hb)
        simpa using hne
    rw [IsRecent, and_iff_right hk, List.mem_take_iff_idxOf_lt hmem, hlater]
    have hkeep : (k :: earlier).removeAll later = k :: earlier.removeAll later := by
      simp [List.removeAll, hnot]
    have hnot' : k ∉ later.eraseDups := fun h => hnot (List.mem_eraseDups.mp h)
    rw [hsplit, List.eraseDups_append, hkeep, List.eraseDups_cons,
      List.idxOf_append_of_notMem hnot', List.idxOf_cons_self, Nat.add_zero]
  · refine iff_of_false (fun h => hk ?_) (fun h => hk h.1)
    exact List.mem_eraseDups.mp (List.mem_of_mem_take h)

/-- Of distinct keys, all but one of the first `m + 1` are the first `m` of all but that one. -/
theorem take_filter_take {ks : List κ} (h : ks.Nodup) (m : Nat) (k : κ) :
    ((ks.take (m + 1)).filter (!· == k)).take m = (ks.filter (!· == k)).take m := by
  induction m generalizing ks with
  | zero => rfl
  | succ m ih =>
    cases ks with
    | nil => rfl
    | cons a ks =>
      obtain ⟨ha, hks⟩ := List.nodup_cons.mp h
      by_cases hak : a = k
      · subst hak
        have hsame (l : List κ) (hl : a ∉ l) : l.filter (!· == a) = l := by
          rw [List.filter_eq_self]
          rintro b hb
          have hne : b ≠ a := fun hba => hl (hba ▸ hb)
          simpa using hne
        have htake : a ∉ ks.take (m + 1) := fun hmem => ha (List.mem_of_mem_take hmem)
        rw [List.take_succ_cons, List.filter_cons_of_neg (by simp),
          List.filter_cons_of_neg (by simp), hsame _ htake, hsame _ ha, List.take_take,
          Nat.min_self]
      · have hpos : (!a == k) = true := by simpa using hak
        have hcons (l : List κ) : (a :: l).filter (!· == k) = a :: l.filter (!· == k) :=
          List.filter_cons_of_pos hpos
        rw [List.take_succ_cons, hcons, hcons, List.take_succ_cons, List.take_succ_cons, ih hks]

/-- The distinct touched keys after one more touch. -/
theorem take_eraseDups_cons (m : Nat) (k : κ) (ks : List κ) :
    (k :: ks).eraseDups.take (m + 1) =
      k :: ((ks.eraseDups.take (m + 1)).filter (!· == k)).take m := by
  rw [List.eraseDups_cons, eraseDups_filter, List.take_succ_cons,
    take_filter_take (nodup_eraseDups ks)]

/-- The state of a bounded cache without a limit of time: its keys are the last ones touched. -/
structure KeepsRecent (n : Nat) (s : Session τ κ α ε) : Prop where
  capacity : s.cache.policy.capacity = some n
  unlimited : ∀ r t, s.cache.policy.expired r t = false
  keys : s.cache.keys.reverse = (touches s.past).eraseDups.take n

/-- Without a limit of time, a request is answered exactly if there is an entry of its key. -/
theorem live?_eq_none_iff_of_unlimited {c : Cache τ κ α}
    (h : ∀ r t, c.policy.expired r t = false) {now : τ} {key : κ} :
    c.live? now key = none ↔ key ∉ c.keys := by
  have hlive : c.live? now key = c.entry? key := by
    rw [live?]
    cases c.entry? key <;> simp [h]
  rw [hlive, entry?, List.find?_eq_none, keys]
  simp

/-- What makes a key the most recent of `m + 1` makes it the last one touched. -/
theorem KeepsRecent.reverse_touch {m : Nat} {s : Session τ κ α ε} (h : KeepsRecent (m + 1) s)
    {key : κ} (e : CacheEntry τ κ α) (he : e.key = key) :
    ((s.cache.others key ++ [e]).map (·.key)).reverse.take (m + 1) =
      (key :: touches s.past).eraseDups.take (m + 1) := by
  rw [take_eraseDups_cons, ← h.keys, List.map_append, map_key_others, List.reverse_append,
    List.filter_reverse]
  simp [he]

/-- Where the key was there, nothing has to go. -/
theorem KeepsRecent.reverse_renew {m : Nat} {s : Session τ κ α ε} (h : KeepsRecent (m + 1) s)
    {now : τ} {key : κ} {e : CacheEntry τ κ α} (hlive : s.cache.live? now key = some e) :
    ((s.cache.others key ++ [e]).map (·.key)).reverse =
      (key :: touches s.past).eraseDups.take (m + 1) := by
  obtain ⟨hmem, rfl, -⟩ := of_live?_eq_some hlive
  have hsize : s.cache.entries.length ≤ m + 1 := by
    have hlen := congrArg List.length h.keys
    rw [Cache.keys, List.length_reverse, List.length_map, List.length_take] at hlen
    omega
  have hlt := length_others_lt hmem
  rw [← h.reverse_touch e rfl, List.take_of_length_le]
  rw [List.length_reverse, List.length_map, List.length_append, List.length_singleton]
  omega

/-- Every move keeps the last keys touched. -/
theorem KeepsRecent.move {m : Nat} {s : Session τ κ α ε} (h : KeepsRecent (m + 1) s)
    {x : Call τ κ α ε} {answer : Answer α ε} {runs : Nat} {d : Cache τ κ α}
    (hd : Move s.cache x answer runs d) : KeepsRecent (m + 1) ⟨d, ⟨x, answer, runs⟩ :: s.past⟩ := by
  refine ⟨by rw [hd.policy_eq, h.capacity], by rw [hd.policy_eq]; exact h.unlimited, ?_⟩
  have hothers {now : τ} {key : κ} (hlive : s.cache.live? now key = none) :
      ((s.cache.others key).map (·.key)).reverse = s.cache.keys.reverse := by
    rw [live?_eq_none_iff_of_unlimited h.unlimited] at hlive
    rw [map_key_others, List.filter_eq_self.mpr]
    intro k hk
    have hne : k ≠ key := fun hkey => hlive (hkey ▸ hk)
    simpa using hne
  cases hd with
  | hit hlive => exact h.reverse_renew hlive
  | @computed _ done key v hlive =>
    refine Eq.trans ?_ (h.reverse_touch ⟨key, done, v⟩ rfl)
    rw [← reverse_map_evict, ← h.capacity]
    rfl
  | failed hlive => exact (hothers hlive).trans h.keys
  | found hlive => exact h.reverse_renew hlive
  | absent hlive => exact (hothers hlive).trans h.keys
  | cleared => rfl

/-- The last keys touched are kept by every sequence of calls. -/
theorem keepsRecent_run (name : String) {p : CachePolicy τ} {m : Nat}
    (hcapacity : p.capacity = some (m + 1)) (hunlimited : ∀ r t, p.expired r t = false)
    (xs : List (Call τ κ α ε)) : KeepsRecent (m + 1) ((Session.new name p).run xs) := by
  have hnew : KeepsRecent (m + 1) (Session.new name p : Session τ κ α ε) :=
    ⟨hcapacity, hunlimited, rfl⟩
  exact Session.run_induction hnew xs fun s hs x _ answer runs d hd => hs.move hd

/-- The keys that are there are the last ones touched. -/
theorem KeepsRecent.mem_keys_iff {n : Nat} {s : Session τ κ α ε} (h : KeepsRecent n s) (key : κ) :
    key ∈ s.cache.keys ↔ IsRecent n (touches s.past) key := by
  rw [← mem_take_eraseDups_iff, ← h.keys, List.mem_reverse]

/-- A call is answered from what is stored exactly if its key is there. -/
theorem isSome_served?_iff {c : Cache τ κ α} (hunlimited : ∀ r t, c.policy.expired r t = false)
    {x : Call τ κ α ε} {key : κ} (hkey : x.key? = some key) :
    (c.perform x).1.served?.isSome = true ↔ key ∈ c.keys := by
  obtain ⟨answer, runs, d, hperform, hd⟩ := exists_move c x
  have hlive {now : τ} {e : CacheEntry τ κ α} (he : c.live? now key = some e) : key ∈ c.keys := by
    obtain ⟨hmem, rfl, -⟩ := of_live?_eq_some he
    exact List.mem_map_of_mem hmem
  rw [hperform]
  cases hd with
  | hit he =>
    cases hkey
    exact iff_of_true rfl (hlive he)
  | computed he =>
    cases hkey
    exact iff_of_false Bool.false_ne_true ((live?_eq_none_iff_of_unlimited hunlimited).mp he)
  | failed he =>
    cases hkey
    exact iff_of_false Bool.false_ne_true ((live?_eq_none_iff_of_unlimited hunlimited).mp he)
  | found he =>
    cases hkey
    exact iff_of_true rfl (hlive he)
  | absent he =>
    cases hkey
    exact iff_of_false Bool.false_ne_true ((live?_eq_none_iff_of_unlimited hunlimited).mp he)
  | cleared => cases hkey

/-- A cache of `n` entries without a limit of time keeps exactly the recent keys, after every
sequence of calls, and a call is answered from what is stored exactly if its key is recent. It never
has more than `n` entries, and their keys are different. -/
theorem mem_keys_iff_isRecent {n : Nat} (hn : 1 ≤ n) {lifetime : Scalar}
    (hlifetime : lifetime.isZero = true) (name : String) :
    ∃ p, CachePolicy.bounded n lifetime = .ok p ∧ ∀ calls : List (Call Scalar κ α ε),
      let s := (Session.new name p).run calls
      (∀ key, key ∈ s.cache.keys ↔ IsRecent n (touches s.past) key) ∧
      (∀ (x : Call Scalar κ α ε) key, x.key? = some key →
        ((s.cache.perform x).1.served?.isSome = true ↔ IsRecent n (touches s.past) key)) ∧
      s.cache.stats.size ≤ n ∧ s.cache.keys.Nodup := by
  obtain ⟨m, rfl⟩ : ∃ m, n = m + 1 := ⟨n - 1, by omega⟩
  obtain ⟨p, hp⟩ := CachePolicy.exists_bounded (n := (m + 1 : Nat)) (by omega) lifetime
  obtain ⟨-, hcapacity, hexpired⟩ := CachePolicy.of_bounded_eq_ok hp
  rw [Int.toNat_natCast] at hcapacity
  have hunlimited : ∀ r t, p.expired r t = false := by
    intro r t
    rw [hexpired, hlifetime]
    rfl
  refine ⟨p, hp, fun calls => ?_⟩
  have hs := keepsRecent_run name hcapacity hunlimited calls
  refine ⟨hs.mem_keys_iff, fun x key hkey => ?_, Session.length_entries_run_le name hcapacity calls,
    Session.nodup_keys_run name p calls⟩
  rw [isSome_served?_iff hs.unlimited hkey, hs.mem_keys_iff]

/-- Three values are stored where there is room for two, after the first was looked at again. -/
def threeKeys : List (Call Scalar Nat Nat Fault) :=
  [.get (.int 0) (.int 0) 1 (.ok 10), .get (.int 1) (.int 1) 2 (.ok 20), .lookup (.int 2) 1,
    .get (.int 3) (.int 4) 3 (.ok 30)]

/-- The key that was touched before all others has gone, though it was not the first one stored. -/
theorem mem_keys_iff_isRecent_threeKeys :
    ∃ p, CachePolicy.bounded 2 (.int 0) = .ok p ∧
      let s := (Session.new "c" p).run threeKeys
      touches s.past = [3, 1, 2, 1] ∧ 1 ∈ s.cache.keys ∧ 2 ∉ s.cache.keys ∧ 3 ∈ s.cache.keys := by
  obtain ⟨p, hp, h⟩ := mem_keys_iff_isRecent (κ := Nat) (α := Nat) (ε := Fault) (n := 2) (by decide)
    (show (Scalar.int 0).isZero = true from rfl) "c"
  have htouches : touches ((Session.new "c" p).run threeKeys).past = [3, 1, 2, 1] := by
    cases hp
    rfl
  refine ⟨p, hp, htouches, ?_⟩
  obtain ⟨hkeys, -⟩ := h threeKeys
  rw [hkeys, hkeys, hkeys, htouches]
  exact ⟨by decide, by decide, by decide⟩

end HostScript.Cache
