import HostScript.Proofs.Pattern.Covered
import HostScript.Proofs.Pattern.Found

/-!
# Texts that a pattern can cover

A pattern that looks neither ahead nor back covers texts of a form that can be read off the pattern,
where a copy of a group is the text that the group covers. A run ends behind a text of this form,
and where a text of this form comes next with a success behind it, some run succeeds.
-/

namespace HostScript

/-- A group is filled with the text that is passed over. -/
theorem Cursor.Passes.fill {c d : Cursor} {x : Text} {gs : GroupTexts} (h : c.Passes x gs d)
    (i : Nat) :
    c.Passes x ((i, x) :: gs) { d with groups := (i, ⟨c.pos, c.textTo d⟩) :: d.groups } := by
  refine ⟨h.after, h.pos, ?_, h.before⟩
  have hgroups := h.groupTexts
  rw [Cursor.groupTexts] at hgroups
  rw [Cursor.groupTexts, List.map_cons, hgroups, h.textTo_eq, List.cons_append]

theorem Cursor.passes_advance {c : Cursor} {x r : Text} (h : c.after = x ++ r) :
    c.Passes x [] (c.advance x.length) :=
  ⟨by simp [advance, h], rfl, rfl, by simp [advance, h]⟩

/-- A text that comes next is accepted. -/
theorem Cursor.acceptText_eq {c : Cursor} {t r : Text} (h : c.after = t ++ r) :
    c.acceptText t = some (c.advance t.length) := by
  induction t generalizing c with
  | nil => rw [acceptText, List.length_nil, advance_zero]
  | cons a t ih =>
    have haccept : c.accept (· == a) = some (c.advance 1) := by
      rw [accept, h]
      simp [advance, h]
    have hnext : (c.advance 1).after = t ++ r := by simp [advance, h]
    rw [acceptText, haccept, Option.bind_some, ih hnext, advance_advance, List.length_cons,
      Nat.add_comm]

namespace Pattern

/-- Whether a pattern looks neither ahead nor back and repeats single characters only. -/
def isSimple : Pattern → Bool
  | .empty => true
  | .one _ => true
  | .seq p q => p.isSimple && q.isSimple
  | .either p q => p.isSimple && q.isSimple
  | .rounds true _ none (.one _) => true
  | .group _ p => p.isSimple
  | .same _ => true
  | _ => false

/-- The rounds of a simple pattern pass over characters of one set. -/
theorem of_isSimple_rounds {greedy : Bool} {least : Nat} {most : Option Nat} {body : Pattern}
    (h : (rounds greedy least most body).isSimple = true) :
    greedy = true ∧ most = none ∧ ∃ s, body = .one s := by
  cases greedy with
  | false => cases h
  | true =>
    cases most with
    | some n => cases h
    | none =>
      cases body with
      | one s => exact ⟨rfl, rfl, s, rfl⟩
      | _ => cases h

/-- The texts that a simple pattern can cover where groups hold certain texts, and the groups that
are filled then. -/
def Forms : Pattern → (env : GroupTexts) → Text → GroupTexts → Prop
  | .empty, _, x, gs => x = [] ∧ gs = []
  | .one s, _, x, gs => ∃ a, s a = true ∧ x = [a] ∧ gs = []
  | .seq p q, env, x, gs => ∃ y z gs₁ gs₂, x = y ++ z ∧ gs = gs₂ ++ gs₁ ∧
      p.Forms env y gs₁ ∧ q.Forms (gs₁ ++ env) z gs₂
  | .either p q, env, x, gs => p.Forms env x gs ∨ q.Forms env x gs
  | .rounds true least none (.one s), _, x, gs =>
      least ≤ x.length ∧ (∀ a ∈ x, s a = true) ∧ gs = []
  | .group i p, env, x, gs => ∃ gs₁, gs = (i, x) :: gs₁ ∧ p.Forms env x gs₁
  | .same i, env, x, gs => env.lookup i = some x ∧ gs = []
  | _, _, _, _ => False

variable {p q : Pattern} {env : GroupTexts} {x r : Text} {gs : GroupTexts} {s : CharSet}

theorem forms_append_iff : (p ++ q).Forms env x gs ↔ ∃ y z gs₁ gs₂, x = y ++ z ∧
    gs = gs₂ ++ gs₁ ∧ p.Forms env y gs₁ ∧ q.Forms (gs₁ ++ env) z gs₂ := Iff.rfl

theorem forms_orElse_iff : (p <|> q).Forms env x gs ↔ p.Forms env x gs ∨ q.Forms env x gs := Iff.rfl

theorem forms_cap_iff {i : Nat} :
    (p.cap i).Forms env x gs ↔ ∃ gs₁, gs = (i, x) :: gs₁ ∧ p.Forms env x gs₁ := Iff.rfl

theorem forms_same_iff {i : Nat} :
    (same i).Forms env x gs ↔ env.lookup i = some x ∧ gs = [] := Iff.rfl

theorem forms_star_iff :
    (star (.one s)).Forms env x gs ↔ (∀ a ∈ x, s a = true) ∧ gs = [] := by
  change 0 ≤ x.length ∧ _ ↔ _
  simp

theorem forms_plus_iff :
    (plus (.one s)).Forms env x gs ↔ x ≠ [] ∧ (∀ a ∈ x, s a = true) ∧ gs = [] := by
  change 1 ≤ x.length ∧ _ ↔ _
  rw [Nat.one_le_iff_ne_zero, ne_eq, List.length_eq_zero_iff]

theorem forms_blanks_iff :
    blanks.Forms env x gs ↔ (∀ a ∈ x, isBlank a = true) ∧ gs = [] := forms_star_iff

theorem forms_gap_iff :
    gap.Forms env x gs ↔ x ≠ [] ∧ (∀ a ∈ x, isBlank a = true) ∧ gs = [] := forms_plus_iff

theorem forms_text_iff {t : Text} : (text t).Forms env x gs ↔ x = t ∧ gs = [] := by
  induction t generalizing env x gs with
  | nil => exact Iff.rfl
  | cons c t ih =>
    have hone {y : Text} {gs : GroupTexts} :
        (Pattern.one (· == c)).Forms env y gs ↔ y = [c] ∧ gs = [] := by
      constructor
      · rintro ⟨a, ha, rfl, rfl⟩
        exact ⟨by simpa using ha, rfl⟩
      · rintro ⟨rfl, rfl⟩
        exact ⟨c, beq_self_eq_true c, rfl, rfl⟩
    cases t with
    | nil => exact hone
    | cons d t =>
      constructor
      · rintro ⟨y, z, gs₁, gs₂, rfl, rfl, hy, hz⟩
        obtain ⟨rfl, rfl⟩ := hone.mp hy
        obtain ⟨rfl, rfl⟩ := ih.mp hz
        exact ⟨rfl, rfl⟩
      · rintro ⟨rfl, rfl⟩
        exact ⟨[c], d :: t, [], [], rfl, rfl, hone.mpr ⟨rfl, rfl⟩, ih.mpr ⟨rfl, rfl⟩⟩

theorem forms_lit_iff {w : String} : (lit w).Forms env x gs ↔ x = w.toList ∧ gs = [] :=
  forms_text_iff

theorem forms_choice_iff {ws : List String} (hws : ws ≠ []) :
    (choice ws).Forms env x gs ↔ (∃ w ∈ ws, x = w.toList) ∧ gs = [] := by
  induction ws with
  | nil => exact absurd rfl hws
  | cons w ws ih =>
    cases ws with
    | nil =>
      change (lit w).Forms env x gs ↔ _
      simpa using forms_lit_iff
    | cons w' ws =>
      change (lit w).Forms env x gs ∨ (choice (w' :: ws)).Forms env x gs ↔ _
      rw [ih (List.cons_ne_nil w' ws), forms_lit_iff, List.exists_mem_cons_iff (a := w),
        or_and_right]

/-- Whether a pattern has no groups. -/
def isGroupless : Pattern → Bool
  | .seq p q => p.isGroupless && q.isGroupless
  | .either p q => p.isGroupless && q.isGroupless
  | .group _ _ => false
  | _ => true

/-- A pattern without groups fills none. -/
theorem Forms.groups_eq_nil (h : p.Forms env x gs) (hp : p.isGroupless = true) : gs = [] := by
  induction p generalizing env x gs with
  | seq p q ihp ihq =>
    rw [isGroupless, Bool.and_eq_true] at hp
    obtain ⟨y, z, gs₁, gs₂, -, rfl, hy, hz⟩ := h
    rw [ihp hy hp.1, ihq hz hp.2, List.append_nil]
  | either p q ihp ihq =>
    rw [isGroupless, Bool.and_eq_true] at hp
    exact h.elim (fun h => ihp h hp.1) fun h => ihq h hp.2
  | rounds greedy least most body _ =>
    match greedy, most, body, h with
    | true, none, .one s, h => exact h.2.2
  | empty => exact h.2
  | one s => exact h.choose_spec.2.2
  | group i p _ => cases hp
  | same i => exact h.2
  | _ => cases h

/-- Every character of the texts of such a pattern belongs to the set that it stays within. -/
theorem Forms.mem_of_within (h : p.Forms env x gs) (hp : p.Within s) : ∀ a ∈ x, s a = true := by
  induction p generalizing env x gs with
  | empty => exact h.1 ▸ List.forall_mem_nil _
  | one accepts =>
    obtain ⟨a, ha, rfl, -⟩ := h
    exact List.forall_mem_singleton.mpr (hp a ha)
  | seq p q ihp ihq =>
    obtain ⟨y, z, gs₁, gs₂, rfl, -, hy, hz⟩ := h
    exact List.forall_mem_append.mpr ⟨ihp hy hp.1, ihq hz hp.2⟩
  | either p q ihp ihq => exact h.elim (fun h => ihp h hp.1) fun h => ihq h hp.2
  | rounds greedy least most body _ =>
    match greedy, most, body, h, hp with
    | true, none, .one accepts, h, hp => exact fun a ha => hp a (h.2.1 a ha)
  | group i p ih => exact ih h.choose_spec.2 hp
  | same i => exact hp.elim
  | _ => cases h

/-- A run of a simple pattern ends behind a text of its form. -/
theorem exists_form_of_run (hp : p.isSimple = true) {k : Cursor → Option Cursor} {c e : Cursor}
    (h : p.run k c = some e) :
    ∃ x gs d, p.Forms c.groupTexts x gs ∧ c.Passes x gs d ∧ k d = some e := by
  induction p generalizing k c e with
  | empty => exact ⟨[], [], c, ⟨rfl, rfl⟩, c.passes_self, h⟩
  | one s =>
    obtain ⟨d, hd, he⟩ := Option.bind_eq_some_iff.mp h
    obtain ⟨a, ha, hpass⟩ := Cursor.passes_of_accept hd
    exact ⟨[a], [], d, ⟨a, ha, rfl, rfl⟩, hpass, he⟩
  | seq p q ihp ihq =>
    rw [isSimple, Bool.and_eq_true] at hp
    obtain ⟨x, gs, d, hx, hcd, hd⟩ := ihp hp.1 h
    obtain ⟨y, hs, d', hy, hdd', he⟩ := ihq hp.2 hd
    rw [hcd.groupTexts] at hy
    exact ⟨x ++ y, hs ++ gs, d', ⟨x, y, gs, hs, rfl, rfl, hx, hy⟩, hcd.trans hdd', he⟩
  | either p q ihp ihq =>
    rw [isSimple, Bool.and_eq_true] at hp
    rw [run] at h
    rcases Fit.of_orTry_eq_some h with h | h
    · obtain ⟨x, gs, d, hx, hrest⟩ := ihp hp.1 h
      exact ⟨x, gs, d, Or.inl hx, hrest⟩
    · obtain ⟨x, gs, d, hx, hrest⟩ := ihq hp.2 h
      exact ⟨x, gs, d, Or.inr hx, hrest⟩
  | rounds greedy least most body _ =>
    obtain ⟨rfl, rfl, s, rfl⟩ := of_isSimple_rounds hp
    obtain ⟨x, gs, d, hx, hrest⟩ := covers_run _ k c e h
    exact ⟨x, gs, d, hx.of_rounds_one, hrest⟩
  | group i p ih =>
    obtain ⟨x, gs, d, hx, hcd, hd⟩ := ih hp h
    exact ⟨x, (i, x) :: gs, _, ⟨gs, rfl, hx⟩, hcd.fill i, hd⟩
  | same i =>
    rw [run] at h
    beta_reduce at h
    split at h
    · rename_i t ht
      obtain ⟨d, hd, he⟩ := Option.bind_eq_some_iff.mp h
      refine ⟨t, [], d, ⟨?_, rfl⟩, Cursor.passes_of_acceptText hd, he⟩
      rw [Cursor.groupTexts, lookup_map_snd]
      exact ht
    · cases h
  | _ => cases hp

/-- Rounds of a set of characters can end behind as many of them as come next. -/
theorem isSome_rounds_one {k : Cursor → Option Cursor} {c : Cursor} {least : Nat} {spare : Text}
    (hleast : least ≤ x.length) (hx : ∀ a ∈ x, s a = true) (hc : c.after = x ++ r)
    (hspare : c.after.length ≤ spare.length) (hk : (k (c.advance x.length)).isSome = true) :
    (Fit.rounds (Pattern.one s).run true spare least k c).isSome = true := by
  induction least generalizing c x with
  | zero => exact (isSome_furtherRounds_one_iff hspare).mpr ⟨x, hc ▸ List.prefix_append x r, hx, hk⟩
  | succ least ih =>
    cases x with
    | nil => simp at hleast
    | cons a x =>
      rw [List.forall_mem_cons] at hx
      have hnext : (c.advance 1).after = x ++ r := by simp [Cursor.advance, hc]
      rw [List.length_cons, Nat.add_comm, ← Cursor.advance_advance] at hk
      rw [hc, List.cons_append, List.length_cons] at hspare
      rw [List.length_cons, Nat.add_le_add_iff_right] at hleast
      refine isSome_run_one_iff.mpr ⟨a, x ++ r, hc, hx.1, ih hleast hx.2 hnext ?_ hk⟩
      rw [hnext]
      omega

/-- Where a text of the form of a simple pattern comes next, a run succeeds if one does that goes on
behind it. -/
theorem isSome_run_of_forms (hp : p.isSimple = true) {c : Cursor} (h : p.Forms c.groupTexts x gs)
    (hc : c.after = x ++ r) :
    ∃ d, c.Passes x gs d ∧ ∀ k, (k d).isSome = true → (p.run k c).isSome = true := by
  induction p generalizing c x r gs with
  | empty =>
    obtain ⟨rfl, rfl⟩ := h
    exact ⟨c, c.passes_self, fun k hk => hk⟩
  | one s =>
    obtain ⟨a, ha, rfl, rfl⟩ := h
    exact ⟨c.advance 1, Cursor.passes_advance hc,
      fun k hk => isSome_run_one_iff.mpr ⟨a, r, hc, ha, hk⟩⟩
  | seq p q ihp ihq =>
    rw [isSimple, Bool.and_eq_true] at hp
    obtain ⟨y, z, gs₁, gs₂, rfl, rfl, hy, hz⟩ := h
    rw [List.append_assoc] at hc
    obtain ⟨d, hcd, hp⟩ := ihp hp.1 hy hc
    rw [← hcd.groupTexts] at hz
    have hd : d.after = z ++ r := List.append_cancel_left (hcd.after.symm.trans hc)
    obtain ⟨e, hde, hq⟩ := ihq ‹_ ∧ _›.2 hz hd
    exact ⟨e, hcd.trans hde, fun k hk => hp _ (hq k hk)⟩
  | either p q ihp ihq =>
    rw [isSimple, Bool.and_eq_true] at hp
    rcases h with h | h
    · obtain ⟨d, hcd, hrun⟩ := ihp hp.1 h hc
      exact ⟨d, hcd, fun k hk => isSome_run_orElse_iff.mpr (Or.inl (hrun k hk))⟩
    · obtain ⟨d, hcd, hrun⟩ := ihq hp.2 h hc
      exact ⟨d, hcd, fun k hk => isSome_run_orElse_iff.mpr (Or.inr (hrun k hk))⟩
  | rounds greedy least most body _ =>
    match greedy, most, body, hp with
    | true, none, .one s, _ =>
      obtain ⟨hleast, hx, rfl⟩ := h
      refine ⟨c.advance x.length, Cursor.passes_advance hc, fun k hk => ?_⟩
      exact isSome_rounds_one hleast hx hc le_rfl hk
  | group i p ih =>
    obtain ⟨gs, rfl, hx⟩ := h
    obtain ⟨d, hcd, hrun⟩ := ih hp hx hc
    exact ⟨_, hcd.fill i, fun k hk => hrun _ hk⟩
  | same i =>
    obtain ⟨hx, rfl⟩ := h
    rw [Cursor.groupTexts, lookup_map_snd] at hx
    refine ⟨c.advance x.length, Cursor.passes_advance hc, fun k hk => ?_⟩
    have hgroup : c.group? i = some x := hx
    rw [run]
    beta_reduce
    rw [hgroup]
    change ((c.acceptText x).bind k).isSome = true
    rw [Cursor.acceptText_eq hc]
    exact hk
  | _ => cases hp

end Pattern

end HostScript

/-!
## Guarded patterns

Many patterns fit where a body does, except right behind a character of a set: behind a word
boundary or a condition on the character before, the body looks neither ahead nor back. If every
text of the body ends with the first of some closing characters, at most one text of its form
starts at a place.
-/

namespace HostScript.Pattern

variable {p q body body' : Pattern} {s closing : CharSet} {env : GroupTexts} {x y t : Text}
  {gs hs : GroupTexts}

/-- A text of a form of a pattern is one that the pattern spells. -/
theorem Forms.spells (h : p.Forms env x gs) : p.Spells x gs := by
  induction p generalizing env x gs with
  | empty =>
    obtain ⟨rfl, rfl⟩ := h
    exact .empty
  | one s =>
    obtain ⟨a, ha, rfl, rfl⟩ := h
    exact .one ha
  | seq p q ihp ihq =>
    obtain ⟨y, z, gs₁, gs₂, rfl, rfl, hy, hz⟩ := h
    exact .seq (ihp hy) (ihq hz)
  | either p q ihp ihq => exact h.elim (fun h => .left (ihp h)) fun h => .right (ihq h)
  | rounds greedy least most body _ =>
    match greedy, most, body, h with
    | true, none, .one s, h =>
      obtain ⟨hleast, hx, rfl⟩ := h
      -- each character is a round of its own
      obtain ⟨parts, hparts⟩ : ∃ parts : List (Text × GroupTexts),
          parts = x.map fun a => ([a], []) := ⟨_, rfl⟩
      have htext : parts.flatMap (·.1) = x := by
        rw [hparts, List.flatMap_map, List.flatMap_singleton']
      have hgroups : parts.reverse.flatMap (·.2) = [] := by
        rw [hparts, List.flatMap_eq_nil_iff]
        simp
      have heach : ∀ part ∈ parts, (one s).Spells part.1 part.2 := by
        intro part hpart
        obtain ⟨a, ha, rfl⟩ := List.mem_map.mp (hparts ▸ hpart)
        exact .one (hx a ha)
      rw [← htext, ← hgroups]
      exact .rounds (by rwa [hparts, List.length_map]) nofun heach
  | group i p ih =>
    obtain ⟨gs, rfl, hx⟩ := h
    exact .group (ih hx)
  | same i =>
    obtain ⟨-, rfl⟩ := h
    exact .same
  | _ => cases h

/-- A pattern that covers characters of a set covers characters of every larger one. -/
theorem Within.mono {s' : CharSet} (h : p.Within s) (hs : ∀ c, s c = true → s' c = true) :
    p.Within s' := by
  induction p with
  | one accepts => exact fun c hc => hs c (h c hc)
  | seq p q ihp ihq => exact ⟨ihp h.1, ihq h.2⟩
  | either p q ihp ihq => exact ⟨ihp h.1, ihq h.2⟩
  | rounds _ _ _ _ ih => exact ih h
  | group _ _ ih => exact ih h
  | same => exact h.elim
  | _ => trivial

/-! ### First characters -/

/-- Every text that the pattern covers starts with a character of a set. -/
def StartsWithin (s : CharSet) (p : Pattern) : Prop :=
  ∀ a, p.mayStart a = true → s a = true

theorem startsWithin_lit {w : String} (h : w.toList.head?.all s = true) :
    (lit w).StartsWithin s := by
  intro a ha
  rw [lit] at ha
  cases hw : w.toList with
  | nil =>
    rw [hw] at ha
    cases ha
  | cons c t =>
    rw [hw] at h ha
    have hc : s c = true := h
    suffices a = c by rwa [this]
    cases t with
    | nil => simpa [text, mayStart] using ha
    | cons d t => simpa [text, mayStart, advances] using ha

theorem startsWithin_choice {ws : List String} (h : ∀ w ∈ ws, w.toList.head?.all s = true) :
    (choice ws).StartsWithin s := by
  induction ws with
  | nil => nofun
  | cons w ws ih =>
    rw [List.forall_mem_cons] at h
    cases ws with
    | nil => exact startsWithin_lit h.1
    | cons w' ws =>
      intro a ha
      exact (Bool.or_eq_true_iff.mp ha).elim (startsWithin_lit h.1 a) (ih h.2 a)

theorem StartsWithin.append (h : p.StartsWithin s) (hp : p.advances = true) (q : Pattern) :
    (p ++ q).StartsWithin s := by
  intro a ha
  refine h a ((Bool.or_eq_true_iff.mp ha).resolve_right ?_)
  rw [hp]
  exact Bool.false_ne_true

theorem StartsWithin.orElse (hp : p.StartsWithin s) (hq : q.StartsWithin s) :
    (p <|> q).StartsWithin s :=
  fun a ha => (Bool.or_eq_true_iff.mp ha).elim (hp a) (hq a)

/-! ### Guards -/

/-- A pattern that fits where its body does, except right behind a character of a set. -/
def Guarded (s : CharSet) (body p : Pattern) : Prop :=
  ∀ k c, p.run k c = if c.before.head?.any s then none else body.run k c

/-- A pattern without a guard. -/
theorem guarded_self (p : Pattern) : Guarded (fun _ => false) p p := by
  intro k c
  have hnone : c.before.head?.any (fun _ => false) = false := by
    cases c.before <;> rfl
  rw [hnone]
  rfl

theorem guarded_notAfter (s : CharSet) (p : Pattern) : Guarded s p (notAfter s ++ p) :=
  fun k c => run_notAfter s (p.run k) c

/-- A pattern that starts with a word character fits at a word boundary exactly where no word
character stands before. -/
theorem guarded_edge (hp : p.advances = true) (hword : p.StartsWithin isWord) :
    Guarded isWord p (edge ++ p) := by
  intro k c
  change (if c.onEdge then p.run k c else none) = _
  cases hrun : p.run k c with
  | none => simp
  | some e =>
    obtain ⟨x, gs, d, hx, hpass, -⟩ := covers_run p k c e hrun
    obtain ⟨a, x, rfl⟩ := List.exists_cons_of_ne_nil (hx.ne_nil hp)
    have hafter : c.after.head?.any isWord = true := by
      rw [hpass.after]
      exact hword a hx.mayStart
    rw [Cursor.onEdge, hafter]
    cases c.before.head?.any isWord <;> rfl

theorem Guarded.append (h : Guarded s body p) (q : Pattern) : Guarded s (body ++ q) (p ++ q) :=
  fun k c => h (q.run k) c

theorem Guarded.orElse (hp : Guarded s body p) (hq : Guarded s body' q) :
    Guarded s (body <|> body') (p <|> q) := by
  intro k c
  rw [run_orElse, run_orElse, hp k c, hq k c]
  split <;> rfl

/-! ### Closing characters -/

/-- Every text of a form of the pattern ends with the first character of a set in it. -/
def StopsAt (s : CharSet) (p : Pattern) : Prop :=
  ∀ env x gs, p.Forms env x gs → ∃ y z, x = y ++ [z] ∧ s z = true ∧ ∀ a ∈ y, s a = false

theorem stopsAt_append_lit {w : String} {z : Char} (hw : w.toList = [z]) (hz : s z = true)
    (hp : p.Within (outside s)) : StopsAt s (p ++ lit w) := by
  intro env x gs h
  obtain ⟨y, z', gs₁, gs₂, rfl, -, hy, hlit⟩ := forms_append_iff.mp h
  obtain ⟨rfl, -⟩ := forms_lit_iff.mp hlit
  refine ⟨y, z, by rw [hw], hz, fun a ha => ?_⟩
  simpa [outside] using hy.mem_of_within hp a ha

theorem StopsAt.orElse (hp : StopsAt s p) (hq : StopsAt s q) : StopsAt s (p <|> q) := by
  intro env x gs h
  exact (forms_orElse_iff.mp h).elim (hp env x gs) (hq env x gs)

/-- At most one text of a form of such a pattern starts at a place. -/
theorem StopsAt.eq_of_isPrefix (h : StopsAt s p) {env' : GroupTexts} (hx : p.Forms env x gs)
    (hy : p.Forms env' y hs) (hxt : x <+: t) (hyt : y <+: t) : x = y := by
  have hfirst {env : GroupTexts} {x : Text} {gs : GroupTexts} (hx : p.Forms env x gs)
      (hxt : x <+: t) : x = t.take ((t.takeWhile (outside s)).length + 1) := by
    obtain ⟨u, z, rfl, hz, hu⟩ := h env x gs hx
    obtain ⟨v, rfl⟩ := hxt
    have hopen : ∀ a ∈ u, outside s a = true := fun a ha => by simp [outside, hu a ha]
    have hwhile : ((u ++ [z]) ++ v).takeWhile (outside s) = u := by
      rw [List.append_assoc, List.takeWhile_append_of_pos hopen]
      simp [outside, hz]
    have hlength : u.length + 1 = (u ++ [z]).length := by simp
    rw [hwhile, hlength, List.take_left]
  rw [hfirst hx hxt, hfirst hy hyt]

end HostScript.Pattern
