import HostScript.Fault
import HostScript.Pattern.Match
import HostScript.Proofs.Pattern.Spelled

/-!
# The fits that a search gives

A fit that a search gives covers a text that the pattern spells, and its groups are those of that
text. What a pattern can cover at all is bounded by the characters that occur in it.
-/

namespace HostScript

namespace Pattern

/-- A pattern that covers characters of a set only; another copy of a group may cover anything. -/
def Within (s : CharSet) : Pattern → Prop
  | .one accepts => ∀ c, accepts c = true → s c = true
  | .seq p q | .either p q => p.Within s ∧ q.Within s
  | .rounds _ _ _ body | .group _ body => body.Within s
  | .same _ => False
  | _ => True

section within

variable {s : CharSet} {p q : Pattern}

@[simp] theorem within_append : (p ++ q).Within s ↔ p.Within s ∧ q.Within s := Iff.rfl

@[simp] theorem within_orElse : (p <|> q).Within s ↔ p.Within s ∧ q.Within s := Iff.rfl

@[simp] theorem within_star : p.star.Within s ↔ p.Within s := Iff.rfl

@[simp] theorem within_plus : p.plus.Within s ↔ p.Within s := Iff.rfl

@[simp] theorem within_opt : p.opt.Within s ↔ p.Within s := Iff.rfl

@[simp] theorem within_cap (i : Nat) : (p.cap i).Within s ↔ p.Within s := Iff.rfl

@[simp] theorem within_oneOf {a : CharSet} :
    (oneOf a).Within s ↔ ∀ c, a c = true → s c = true := Iff.rfl

@[simp] theorem within_notAfter (a : CharSet) : (notAfter a).Within s := trivial

@[simp] theorem within_notAhead (p : Pattern) : p.notAhead.Within s := trivial

theorem within_text {t : Text} (h : ∀ c ∈ t, s c = true) : (text t).Within s := by
  induction t with
  | nil => exact trivial
  | cons a t ih =>
    rw [List.forall_mem_cons] at h
    have hone : (Pattern.one (· == a)).Within s := fun c hc => beq_iff_eq.mp hc ▸ h.1
    cases t with
    | nil => exact hone
    | cons b t => exact ⟨hone, ih h.2⟩

theorem within_choice {ss : List String} (h : ∀ w ∈ ss, ∀ c ∈ w.toList, s c = true) :
    (choice ss).Within s := by
  induction ss with
  | nil => exact trivial
  | cons w ss ih =>
    rw [List.forall_mem_cons] at h
    cases ss with
    | nil => exact within_text h.1
    | cons w' ss => exact ⟨within_text h.1, ih h.2⟩

/-- Every character that such a pattern covers belongs to the set. -/
theorem Spells.mem_of_within {x : Text} {gs : GroupTexts} (h : p.Spells x gs) (hp : p.Within s) :
    ∀ c ∈ x, s c = true := by
  induction h with
  | one ha => exact List.forall_mem_singleton.mpr (hp _ ha)
  | seq _ _ ihp ihq => exact List.forall_mem_append.mpr ⟨ihp hp.1, ihq hp.2⟩
  | left _ ih => exact ih hp.1
  | right _ ih => exact ih hp.2
  | rounds _ _ _ ih =>
    intro c hc
    obtain ⟨part, hpart, hmem⟩ := List.mem_flatMap.mp hc
    exact ih part hpart hp c hmem
  | group _ ih => exact ih hp
  | same => exact hp.elim
  | _ => exact List.forall_mem_nil _

/-- Whether a pattern covers something wherever it fits. -/
def advances : Pattern → Bool
  | .one _ => true
  | .seq p q => p.advances || q.advances
  | .either p q => p.advances && q.advances
  | .rounds _ least _ body => 0 < least && body.advances
  | .group _ body => body.advances
  | _ => false

/-- Such a pattern covers no empty text. -/
theorem Spells.ne_nil {x : Text} {gs : GroupTexts} (h : p.Spells x gs)
    (hp : p.advances = true) : x ≠ [] := by
  induction h with
  | one => exact List.cons_ne_nil _ _
  | seq _ _ ihp ihq =>
    rw [advances, Bool.or_eq_true] at hp
    rcases hp with hp | hp
    · exact List.append_ne_nil_of_left_ne_nil (ihp hp) _
    · exact List.append_ne_nil_of_right_ne_nil _ (ihq hp)
  | left _ ih => exact ih (Bool.and_eq_true_iff.mp hp).1
  | right _ ih => exact ih (Bool.and_eq_true_iff.mp hp).2
  | @rounds _ _ _ _ parts enough _ _ ih =>
    obtain ⟨hleast, hbody⟩ := Bool.and_eq_true_iff.mp hp
    have hpos : 0 < parts.length := lt_of_lt_of_le (of_decide_eq_true hleast) enough
    obtain ⟨part, parts, rfl⟩ := List.exists_cons_of_length_pos hpos
    rw [List.flatMap_cons]
    exact List.append_ne_nil_of_left_ne_nil (ih part (List.mem_cons_self ..) hbody) _
  | group _ ih => exact ih hp
  | _ => cases hp

/-- Whether a text that a pattern covers may start with a character. -/
def mayStart (a : Char) : Pattern → Bool
  | .one accepts => accepts a
  | .seq p q => p.mayStart a || (!p.advances && q.mayStart a)
  | .either p q => p.mayStart a || q.mayStart a
  | .rounds _ _ _ body | .group _ body => body.mayStart a
  | .same _ => true
  | _ => false

theorem Spells.mayStart {a : Char} {x : Text} {gs : GroupTexts} (h : p.Spells (a :: x) gs) :
    p.mayStart a = true := by
  generalize hy : a :: x = y at h
  induction h generalizing x with
  | one ha =>
    obtain rfl := (List.cons.inj hy).1
    exact ha
  | @seq p q y z _ _ hp _ ihp ihq =>
    rw [Pattern.mayStart, Bool.or_eq_true, Bool.and_eq_true, Bool.not_eq_true']
    cases y with
    | nil =>
      refine Or.inr ⟨Bool.eq_false_iff.mpr fun hadv => hp.ne_nil hadv rfl, ihq hy⟩
    | cons b y =>
      obtain rfl := (List.cons.inj hy).1
      exact Or.inl (ihp rfl)
  | left _ ih => exact Bool.or_eq_true_iff.mpr (Or.inl (ih hy))
  | right _ ih => exact Bool.or_eq_true_iff.mpr (Or.inr (ih hy))
  | @rounds _ _ _ _ parts _ _ _ ih =>
    have hhead := congrArg List.head? hy
    rw [List.head?_flatMap] at hhead
    obtain ⟨part, hpart, hstart⟩ := List.exists_of_findSome?_eq_some hhead.symm
    obtain ⟨y, hy⟩ := List.head?_eq_some_iff.mp hstart
    exact ih part hpart hy.symm
  | group _ ih => exact ih hy
  | same => rfl
  | _ => cases hy

/-- Whether a pattern looks at text ahead. -/
def looksAhead : Pattern → Bool
  | .seq p q | .either p q => p.looksAhead || q.looksAhead
  | .rounds _ _ _ body | .group _ body => body.looksAhead
  | .ahead .. => true
  | _ => false

/-- Groups of a pattern that does not look ahead hold stretches of what it covers. -/
theorem Spells.infix_of_mem_groups {x : Text} {gs : GroupTexts} (h : p.Spells x gs)
    (hp : p.looksAhead = false) : ∀ g ∈ gs, g.2 <:+: x := by
  induction h with
  | seq _ _ ihp ihq =>
    rw [looksAhead, Bool.or_eq_false_iff] at hp
    intro g hg
    rcases List.mem_append.mp hg with hg | hg
    · exact (ihq hp.2 g hg).trans (List.suffix_append _ _).isInfix
    · exact (ihp hp.1 g hg).trans (List.prefix_append _ _).isInfix
  | left _ ih => exact ih (Bool.or_eq_false_iff.mp hp).1
  | right _ ih => exact ih (Bool.or_eq_false_iff.mp hp).2
  | rounds _ _ _ ih =>
    intro g hg
    obtain ⟨part, hpart, hmem⟩ := List.mem_flatMap.mp hg
    have hpart := List.mem_reverse.mp hpart
    obtain ⟨before, after, hparts⟩ := List.append_of_mem hpart
    refine (ih part hpart hp g hmem).trans ?_
    rw [hparts, List.flatMap_append, List.flatMap_cons]
    exact (List.prefix_append _ _).isInfix.trans (List.suffix_append _ _).isInfix
  | group _ ih =>
    intro g hg
    rcases List.mem_cons.mp hg with rfl | hg
    · exact List.infix_rfl
    · exact ih hp g hg
  | ahead => cases hp
  | _ => exact fun g hg => absurd hg (List.not_mem_nil)

/-- So does the group that is looked up under a number. -/
theorem Spells.infix_of_lookup {x y : Text} {gs : GroupTexts} (h : p.Spells x gs)
    (hp : p.looksAhead = false) {i : Nat} (hi : gs.lookup i = some y) : y <:+: x := by
  obtain ⟨l, r, hgs, -⟩ := List.lookup_eq_some_iff.mp hi
  exact h.infix_of_mem_groups hp (i, y) (by rw [hgs]; simp)

/-- A pattern with groups that each cover characters of a set only. -/
def GroupsWithin (sets : Nat → CharSet) : Pattern → Prop
  | .seq p q | .either p q => p.GroupsWithin sets ∧ q.GroupsWithin sets
  | .rounds _ _ _ body | .ahead _ body => body.GroupsWithin sets
  | .group i body => body.Within (sets i) ∧ body.GroupsWithin sets
  | _ => True

@[simp] theorem groupsWithin_append {sets : Nat → CharSet} :
    (p ++ q).GroupsWithin sets ↔ p.GroupsWithin sets ∧ q.GroupsWithin sets := Iff.rfl

@[simp] theorem groupsWithin_orElse {sets : Nat → CharSet} :
    (p <|> q).GroupsWithin sets ↔ p.GroupsWithin sets ∧ q.GroupsWithin sets := Iff.rfl

@[simp] theorem groupsWithin_cap {sets : Nat → CharSet} (i : Nat) :
    (p.cap i).GroupsWithin sets ↔ p.Within (sets i) ∧ p.GroupsWithin sets := Iff.rfl

@[simp] theorem groupsWithin_text {sets : Nat → CharSet} (t : Text) :
    (text t).GroupsWithin sets := by
  induction t with
  | nil => exact trivial
  | cons a t ih =>
    cases t with
    | nil => exact trivial
    | cons b t => exact ⟨trivial, ih⟩

/-- The groups of such a pattern hold characters of their sets only. -/
theorem Spells.mem_of_groupsWithin {sets : Nat → CharSet} {x : Text} {gs : GroupTexts}
    (h : p.Spells x gs) (hp : p.GroupsWithin sets) : ∀ g ∈ gs, ∀ c ∈ g.2, sets g.1 c = true := by
  induction h with
  | seq _ _ ihp ihq => exact List.forall_mem_append.mpr ⟨ihq hp.2, ihp hp.1⟩
  | left _ ih => exact ih hp.1
  | right _ ih => exact ih hp.2
  | rounds _ _ _ ih =>
    intro g hg
    obtain ⟨part, hpart, hmem⟩ := List.mem_flatMap.mp hg
    exact ih part (List.mem_reverse.mp hpart) hp g hmem
  | group h ih => exact List.forall_mem_cons.mpr ⟨h.mem_of_within hp.1, ih hp.2⟩
  | ahead _ ih => exact ih hp
  | _ => exact List.forall_mem_nil _

end within

/-- What a search finds starts at a place ahead, behind a stretch that is passed over, and covers a
text that the pattern spells. -/
theorem passes_of_searchFrom {p : Pattern} {before after : Text} {pos : Nat} {mustMove : Bool}
    {a b : Cursor} (h : p.searchFrom before pos mustMove after = some (a, b)) :
    ∃ z x, after = z ++ a.after ∧ a.pos = pos + z.length ∧ p.Spells x b.groupTexts ∧
      a.Passes x b.groupTexts b := by
  have hfound {c d : Cursor} {mustMove : Bool} {pos : Nat} (hc : c.groups = [])
      (hd : p.run (fun d => if mustMove && d.pos == pos then none else some d) c = some d) :
      ∃ x, p.Spells x d.groupTexts ∧ c.Passes x d.groupTexts d := by
    obtain ⟨x, gs, d', hx, hpass, hd'⟩ := covers_run p _ _ _ hd
    obtain ⟨-, hd'⟩ := Option.ite_none_left_eq_some.mp hd'
    obtain rfl := Option.some.inj hd'
    have hgroups : d'.groupTexts = gs := by
      have h := hpass.groupTexts
      rwa [c.groupTexts.eq_nil_of_length_eq_zero (by simp [Cursor.groupTexts, hc]),
        List.append_nil] at h
    rw [hgroups]
    exact ⟨x, hx, hpass⟩
  induction after generalizing before pos mustMove with
  | nil =>
    rw [searchFrom] at h
    obtain ⟨d, hd, hab⟩ := Option.map_eq_some_iff.mp h
    cases hab
    obtain ⟨x, hx⟩ := hfound rfl hd
    exact ⟨[], x, rfl, rfl, hx⟩
  | cons c after ih =>
    rw [searchFrom] at h
    split at h
    · rename_i d hd
      cases h
      obtain ⟨x, hx⟩ := hfound rfl hd
      exact ⟨[], x, rfl, rfl, hx⟩
    · obtain ⟨z, x, rfl, hpos, hx⟩ := ih h
      exact ⟨c :: z, x, rfl, by rw [hpos, List.length_cons]; omega, hx⟩

/-- The fit between two places covers the text between them. -/
theorem text_ofCursors {t before z x : Text} {gs : GroupTexts} {a b : Cursor}
    (ht : t = before ++ (z ++ a.after)) (hpos : a.pos = before.length + z.length)
    (h : a.Passes x gs b) : (Match.ofCursors t a b).text = x := by
  have hstop : b.pos = (before ++ z ++ x).length := by
    rw [h.pos, hpos, List.length_append, List.length_append]
  have hstart : a.pos = (before ++ z).length := by rw [hpos, List.length_append]
  have hsplit : t = before ++ z ++ x ++ b.after := by rw [ht, h.after]; simp
  rw [Match.text, Match.ofCursors]
  dsimp only
  rw [Text.slice, hstop, hsplit, List.take_left, hstart, List.drop_left]

/-- The groups of a fit hold the texts that its last place has. -/
theorem group?_ofCursors (t : Text) (a b : Cursor) (i : Nat) :
    (Match.ofCursors t a b).group? i = b.groupTexts.lookup i :=
  (lookup_map_snd Capture.text b.groups i).symm

/-- The first fit in a text covers a part of it that the pattern spells, with the groups of that
part. -/
theorem infix_of_search? {p : Pattern} {t : Text} {m : Match} (h : p.search? t = some m) :
    ∃ u x v gs, t = u ++ x ++ v ∧ p.Spells x gs ∧ ∀ i, m.group? i = gs.lookup i := by
  rw [search?, searchAt?] at h
  obtain ⟨⟨a, b⟩, hab, rfl⟩ := Option.map_eq_some_iff.mp h
  obtain ⟨z, x, hz, -, hx, hpass⟩ := passes_of_searchFrom hab
  refine ⟨z, x, b.after, b.groupTexts, ?_, hx, group?_ofCursors t a b⟩
  have ht : t = z ++ a.after := hz
  rw [ht, hpass.after, List.append_assoc]

/-- Where the first fit at or after an offset lies, what it covers, and that the pattern runs
there. -/
theorem of_searchAt?_eq_some {p : Pattern} {t : Text} {pos : Nat} {m : Match}
    (h : p.searchAt? t pos = some m) :
    ∃ u x v gs, t = u ++ (x ++ v) ∧ m.subject = t ∧ m.start = u.length ∧
      m.stop = u.length + x.length ∧ p.Spells x gs ∧ (∀ i, m.group? i = gs.lookup i) ∧
      ∃ k e, p.run k (placeAt t u.length) = some e := by
  rw [searchAt?] at h
  obtain ⟨⟨a, b⟩, hab, rfl⟩ := Option.map_eq_some_iff.mp h
  have hpos : (Cursor.atOffset t pos).pos = (Cursor.atOffset t pos).before.length := by
    simp [Cursor.atOffset]
  have hsplit : t = (Cursor.atOffset t pos).before.reverse ++ (Cursor.atOffset t pos).after := by
    simp [Cursor.atOffset]
  rw [hpos] at hab
  obtain ⟨i, -, hi, rfl, -, hrun⟩ := of_searchFrom_eq_some hsplit hab
  obtain ⟨z, x, -, -, hx, hpass⟩ := passes_of_searchFrom hab
  have hlength : (t.take i).length = i := List.length_take_of_le hi
  have hafter : t.drop i = x ++ b.after := hpass.after
  refine ⟨t.take i, x, b.after, b.groupTexts, ?_, rfl, hlength.symm, ?_, hx,
    group?_ofCursors t _ b, ?_⟩
  · rw [← hafter, List.take_append_drop]
  · rw [hlength]
    exact hpass.pos
  · rw [hlength]
    exact hrun

/-- Every fit that a search lists covers a text that the pattern spells, with the groups of that
text. -/
theorem spells_of_mem_matchesFrom {p : Pattern} {t : Text} {fuel : Nat} {mustMove : Bool}
    {groups : List (Nat × Capture)} {before after : Text} (ht : t = before.reverse ++ after)
    {m : Match} (hm : m ∈ p.matchesFrom t fuel mustMove ⟨before, after, before.length, groups⟩) :
    ∃ gs, p.Spells m.text gs ∧ ∀ i, m.group? i = gs.lookup i := by
  induction fuel generalizing mustMove before after groups with
  | zero => simp [matchesFrom] at hm
  | succ fuel ih =>
    rw [matchesFrom] at hm
    cases hsearch : p.searchFrom before before.length mustMove after with
    | none => simp [hsearch] at hm
    | some ab =>
      obtain ⟨a, b⟩ := ab
      obtain ⟨z, x, hz, hpos, hx, hpass⟩ := passes_of_searchFrom hsearch
      obtain ⟨i, hi, hlen, rfl, ⟨n, hn, gs, rfl⟩, -⟩ := of_searchFrom_eq_some ht hsearch
      simp only [hsearch, List.mem_cons] at hm
      rcases hm with rfl | hm
      · have hfound : t = before.reverse ++ (z ++ (placeAt t i).after) := by rw [← hz, ← ht]
        have hstart : (placeAt t i).pos = before.reverse.length + z.length := by
          rw [hpos, List.length_reverse]
        have htext := text_ofCursors hfound hstart hpass
        exact ⟨_, htext ▸ hx, group?_ofCursors t _ _⟩
      · rw [placeAt, List.length_drop] at hn
        have hbefore : ((placeAt t i).advance n).pos = ((placeAt t i).advance n).before.length := by
          simp only [Cursor.advance, placeAt, List.length_append, List.length_reverse,
            List.length_take, List.length_drop]
          omega
        have hsplit : t = ((placeAt t i).advance n).before.reverse ++
            ((placeAt t i).advance n).after := by
          simp only [Cursor.advance, placeAt, List.reverse_append, List.reverse_reverse,
            List.append_assoc, List.take_append_drop]
        rw [hbefore] at hm
        exact ih hsplit hm

/-- Every fit of a pattern in a text covers a text that the pattern spells, with the groups of that
text. -/
theorem spells_of_mem_allIn {p : Pattern} {t : Text} {m : Match} (hm : m ∈ p.allIn t) :
    ∃ gs, p.Spells m.text gs ∧ ∀ i, m.group? i = gs.lookup i := by
  have ht : t = ([] : Text).reverse ++ t := rfl
  exact spells_of_mem_matchesFrom ht hm

/-- A fit among those that lie one behind the other: where it lies, and that the pattern runs
there. -/
theorem FitsFrom.of_mem {p : Pattern} {t : Text} {pos : Nat} {ms : List Match}
    (h : FitsFrom p t pos ms) {m : Match} (hm : m ∈ ms) :
    m.subject = t ∧ m.start ≤ m.stop ∧ m.stop ≤ t.length ∧
      ∃ k e, p.run k (placeAt t m.start) = some e := by
  induction h with
  | nil => cases hm
  | cons subject _ stop length runs _ ih =>
    rcases List.mem_cons.mp hm with rfl | hm
    · exact ⟨subject, stop, length, runs⟩
    · exact ih hm

/-- Putting texts in place of fits, where no step can fail. -/
theorem spliceM_ok (t : Text) (f : Match → Text) (pos : Nat) (ms : List Match) :
    spliceM t (fun m => (.ok (f m) : Outcome Text)) pos ms = .ok (splice t f pos ms) := by
  induction ms generalizing pos with
  | nil => rfl
  | cons m ms ih =>
    rw [spliceM, ih]
    rfl

/-- Replacing, where no step can fail. -/
theorem replaceM_ok (p : Pattern) (f : Match → Text) (t : Text) :
    p.replaceM (fun m => (.ok (f m) : Outcome Text)) t = .ok (p.replace f t) :=
  spliceM_ok t f 0 _

end Pattern

end HostScript
