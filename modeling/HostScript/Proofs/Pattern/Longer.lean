import HostScript.Proofs.Pattern.Covered

/-!
# Fits in a longer text

A pattern that asks nothing about what follows it fits a text whenever it fits the start of that
text.
-/

namespace HostScript

/-- Two cursors at the same place of two texts, one of which goes on with `more` where the other
ends. -/
structure Cursor.Longer (more : Text) (c d : Cursor) : Prop where
  before : d.before = c.before
  after : d.after = c.after ++ more
  pos : d.pos = c.pos

/-- Where it succeeds at a place, a fit succeeds at that place of a longer text. -/
def Fit.Extends (f : Fit) : Prop :=
  ∀ ⦃more : Text⦄ ⦃k k' : Cursor → Option Cursor⦄ ⦃c c' : Cursor⦄, c.Longer more c' →
    (∀ d d', Cursor.Longer more d d' → (k d).isSome → (k' d').isSome) →
    (f k c).isSome → (f k' c').isSome

namespace Pattern

/-- Whether a pattern asks nothing about what stands around its fit. -/
def isSelfContained : Pattern → Bool
  | .empty | .one _ => true
  | .seq p q | .either p q => p.isSelfContained && q.isSelfContained
  | .rounds _ _ _ p | .group _ p => p.isSelfContained
  | _ => false

theorem isSome_orTry (a : Option Cursor) (b : Unit → Option Cursor) :
    (Fit.orTry a b).isSome ↔ a.isSome ∨ (b ()).isSome := by
  cases a <;> simp [Fit.orTry]

/-- More spare rounds allow more. -/
theorem extends_furtherRounds {body : Fit} (hbody : body.Extends) (greedy : Bool)
    {more spare spare' : Text} (hspare : spare.length ≤ spare'.length)
    {k k' : Cursor → Option Cursor} {c c' : Cursor} (hc : c.Longer more c')
    (hk : ∀ d d', Cursor.Longer more d d' → (k d).isSome → (k' d').isSome)
    (h : (Fit.furtherRounds body greedy spare k c).isSome) :
    (Fit.furtherRounds body greedy spare' k' c').isSome := by
  induction spare generalizing spare' c c' with
  | nil =>
    have hstop : (k' c').isSome := hk c c' hc h
    cases spare' with
    | nil => exact hstop
    | cons x spare' =>
      rw [Fit.furtherRounds]
      split
      · exact (isSome_orTry ..).mpr (Or.inr hstop)
      · exact (isSome_orTry ..).mpr (Or.inl hstop)
  | cons x spare ih =>
    cases spare' with
    | nil => exact absurd hspare (Nat.not_succ_le_zero _)
    | cons y spare' =>
      have hround : (body (fun d => if d.pos == c.pos then none
            else Fit.furtherRounds body greedy spare k d) c).isSome →
          (body (fun d => if d.pos == c'.pos then none
            else Fit.furtherRounds body greedy spare' k' d) c').isSome := by
        refine hbody hc fun d d' hd hsome => ?_
        rw [hd.pos, hc.pos]
        split at hsome
        · cases hsome
        case isFalse hmoved =>
          rw [if_neg hmoved]
          exact ih (Nat.le_of_succ_le_succ hspare) hd hsome
      rw [Fit.furtherRounds] at h ⊢
      split at h
      case isTrue hgreedy =>
        rw [if_pos hgreedy]
        exact (isSome_orTry ..).mpr (((isSome_orTry ..).mp h).imp hround (hk c c' hc))
      case isFalse hlazy =>
        rw [if_neg hlazy]
        exact (isSome_orTry ..).mpr (((isSome_orTry ..).mp h).imp (hk c c' hc) hround)

theorem extends_rounds {body : Fit} (hbody : body.Extends) (greedy : Bool)
    {more spare spare' : Text} (hspare : spare.length ≤ spare'.length) (least : Nat)
    {k k' : Cursor → Option Cursor} {c c' : Cursor} (hc : c.Longer more c')
    (hk : ∀ d d', Cursor.Longer more d d' → (k d).isSome → (k' d').isSome)
    (h : (Fit.rounds body greedy spare least k c).isSome) :
    (Fit.rounds body greedy spare' least k' c').isSome := by
  induction least generalizing c c' with
  | zero => exact extends_furtherRounds hbody greedy hspare hc hk h
  | succ least ih => exact hbody hc (fun d d' hd hsome => ih hd hsome) h

/-- A character that stands ahead stands ahead in a longer text. -/
theorem longer_accept {more : Text} {c c' d : Cursor} (hc : c.Longer more c') {s : CharSet}
    (h : c.accept s = some d) : ∃ d', c'.accept s = some d' ∧ d.Longer more d' := by
  unfold Cursor.accept at h ⊢
  cases hafter : c.after with
  | nil =>
    rw [hafter] at h
    cases h
  | cons x rest =>
    rw [hafter] at h
    rw [hc.after, hafter, List.cons_append]
    simp only at h ⊢
    split at h
    case isTrue hx =>
      cases h
      rw [if_pos hx]
      refine ⟨_, rfl, ?_, rfl, ?_⟩
      · rw [hc.before]
      · rw [hc.pos]
    case isFalse => cases h

theorem extends_run {p : Pattern} (hp : p.isSelfContained = true) : Fit.Extends p.run := by
  induction p with
  | empty => exact fun _ _ _ c c' hc hk h => hk c c' hc h
  | one s =>
    intro more k k' c c' hc hk h
    simp only [run] at h ⊢
    obtain ⟨e, he⟩ := Option.isSome_iff_exists.mp h
    obtain ⟨d, hd, hkd⟩ := Option.bind_eq_some_iff.mp he
    obtain ⟨d', hd', hlonger⟩ := longer_accept hc hd
    rw [hd', Option.bind_some]
    exact hk d d' hlonger (hkd ▸ rfl)
  | seq p q ihp ihq =>
    obtain ⟨hp, hq⟩ := (Bool.and_eq_true ..).mp hp
    exact fun _ _ _ _ _ hc hk h => ihp hp hc (fun d d' hd => ihq hq hd hk) h
  | either p q ihp ihq =>
    obtain ⟨hp, hq⟩ := (Bool.and_eq_true ..).mp hp
    intro more k k' c c' hc hk h
    simp only [run, isSome_orTry] at h ⊢
    exact h.imp (ihp hp hc hk) (ihq hq hc hk)
  | rounds greedy least most body ih =>
    intro more k k' c c' hc hk h
    refine extends_rounds (ih hp) greedy ?_ least hc hk h
    cases most with
    | some n => exact Nat.le_refl _
    | none =>
      rw [hc.after, List.length_append]
      exact Nat.le_add_right ..
  | group i body ih =>
    intro more k k' c c' hc hk h
    simp only [run] at h ⊢
    refine ih hp hc (fun d d' hd hsome => ?_) h
    exact hk { d with groups := (i, ⟨c.pos, c.textTo d⟩) :: d.groups } _
      ⟨hd.before, hd.after, hd.pos⟩ hsome
  | _ => cases hp

/-- A fit of the start of a text is a fit of the text. -/
theorem fits_append {p : Pattern} (hp : p.isSelfContained = true) {t : Text} (h : p.fits t = true)
    (more : Text) : p.fits (t ++ more) = true := by
  have hstart : (Cursor.atOffset t 0).Longer more (Cursor.atOffset (t ++ more) 0) := by
    refine ⟨rfl, rfl, ?_⟩
    rw [Cursor.atOffset, Cursor.atOffset, Nat.zero_min, Nat.zero_min]
  simp only [fits, match?, matchAt?, Option.isSome_map] at h ⊢
  exact extends_run hp hstart (fun _ _ _ _ => rfl) h

/-- A fit at the start of a text covers a text that the pattern spells, with its groups. -/
theorem spells_of_match? {p : Pattern} {t : Text} {m : Match} (h : p.match? t = some m) :
    ∃ x rest gs, t = x ++ rest ∧ p.Spells x gs ∧ m.stop = x.length ∧
      ∀ i, m.group? i = gs.lookup i := by
  obtain ⟨d, hd, rfl⟩ := Option.map_eq_some_iff.mp h
  obtain ⟨x, gs, e, hx, hpass, he⟩ := covers_run p _ _ _ hd
  obtain rfl := Option.some.inj he
  refine ⟨x, e.after, gs, hpass.after, hx, ?_, fun i => ?_⟩
  · have hstop : e.pos = min 0 t.length + x.length := hpass.pos
    rw [Match.ofCursors, hstop, Nat.zero_min, Nat.zero_add]
  · have hgroups : e.groupTexts = gs ++ [] := hpass.groupTexts
    rw [group?_ofCursors, hgroups, List.append_nil]

theorem begins_of_match? {p : Pattern} {t : Text} {m : Match} (h : p.match? t = some m) :
    p.Begins t := by
  obtain ⟨x, rest, gs, rfl, hx, -⟩ := spells_of_match? h
  exact ⟨x, gs, List.prefix_append x rest, hx⟩

/-- A fit that asks for the end covers the text up to its end, or up to a line feed there. -/
theorem spells_of_match?_textEnd {p : Pattern} {t : Text} {m : Match}
    (h : (p ++ textEnd).match? t = some m) :
    ∃ x rest gs, t = x ++ rest ∧ (rest = [] ∨ rest = ['\n']) ∧ p.Spells x gs ∧
      ∀ i, m.group? i = gs.lookup i := by
  obtain ⟨d, hd, rfl⟩ := Option.map_eq_some_iff.mp h
  obtain ⟨x, gs, e, hx, hpass, he⟩ := covers_run p _ _ _ hd
  obtain ⟨hend, he⟩ := Option.ite_none_right_eq_some.mp he
  obtain rfl := Option.some.inj he
  have hrest : e.after = [] ∨ e.after = ['\n'] := by
    simpa [Cursor.onEnd] using hend
  refine ⟨x, e.after, gs, hpass.after, hrest, hx, fun i => ?_⟩
  have hgroups : e.groupTexts = gs ++ [] := hpass.groupTexts
  rw [group?_ofCursors, hgroups, List.append_nil]

/-- A pattern that ends in a character covers that character last. -/
theorem getElem?_stop_of_append {p : Pattern} {c : Char} {t : Text} {m : Match}
    (h : (p ++ text [c]).match? t = some m) : t[m.stop - 1]? = some c := by
  obtain ⟨x, rest, gs, rfl, hx, hstop, -⟩ := spells_of_match? h
  cases hx with
  | @seq _ _ x y _ _ _ hy =>
    obtain ⟨rfl, -⟩ := hy.eq_of_text
    rw [hstop, List.length_append, List.length_singleton, Nat.add_sub_cancel, List.append_assoc,
      List.getElem?_append_right (Nat.le_refl _), Nat.sub_self]
    rfl

/-- Whether a pattern can fill a group. -/
def fills (i : Nat) : Pattern → Bool
  | .seq p q | .either p q => p.fills i || q.fills i
  | .rounds _ _ _ body | .ahead _ body => body.fills i
  | .group j body => i == j || body.fills i
  | _ => false

/-- A group that a pattern cannot fill stays empty. -/
theorem Spells.lookup_eq_none {p : Pattern} {x : Text} {gs : GroupTexts} (h : p.Spells x gs)
    {i : Nat} (hp : p.fills i = false) : gs.lookup i = none := by
  rw [List.lookup_eq_none_iff]
  induction h with
  | seq _ _ ihp ihq =>
    obtain ⟨hp, hq⟩ := Bool.or_eq_false_iff.mp hp
    exact fun g hg => (List.mem_append.mp hg).elim (ihq hq g) (ihp hp g)
  | left _ ih => exact ih (Bool.or_eq_false_iff.mp hp).1
  | right _ ih => exact ih (Bool.or_eq_false_iff.mp hp).2
  | rounds _ _ _ ih =>
    intro g hg
    obtain ⟨part, hpart, hmem⟩ := List.mem_flatMap.mp hg
    exact ih part (List.mem_reverse.mp hpart) hp g hmem
  | group _ ih =>
    obtain ⟨hi, hbody⟩ := Bool.or_eq_false_iff.mp hp
    exact List.forall_mem_cons.mpr ⟨Bool.not_eq_true' _ ▸ hi, ih hbody⟩
  | ahead _ ih => exact ih hp
  | _ => exact fun g hg => nomatch hg

/-!
## Patterns that miss a text

A pattern that spells no stretch of a text fits nowhere in it, and replacing its fits then changes
nothing. A pattern whose every fit covers a given text misses each text that does not hold it.
-/

/-- No stretch of a text is spelled by the pattern. -/
def Misses (p : Pattern) (t : Text) : Prop := ∀ x gs, p.Spells x gs → ¬ x <:+: t

section misses

variable {p : Pattern} {t : Text}

theorem Misses.search?_eq_none (h : p.Misses t) : p.search? t = none := by
  rw [Option.eq_none_iff_forall_ne_some]
  intro m hm
  obtain ⟨u, x, v, gs, rfl, hx, -⟩ := infix_of_search? hm
  exact h x gs hx ⟨u, v, rfl⟩

theorem Misses.match?_eq_none (h : p.Misses t) : p.match? t = none := by
  rw [Option.eq_none_iff_forall_ne_some]
  intro m hm
  obtain ⟨x, rest, gs, rfl, hx, -, -⟩ := spells_of_match? hm
  exact h x gs hx (List.prefix_append x rest).isInfix

theorem Misses.fits_eq_false (h : p.Misses t) : p.fits t = false := by
  rw [fits, h.match?_eq_none]
  rfl

theorem Misses.searchAt?_eq_none (h : p.Misses t) (pos : Nat) : p.searchAt? t pos = none := by
  rw [searchAt?, Option.map_eq_none_iff, Option.eq_none_iff_forall_ne_some]
  rintro ⟨a, b⟩ hab
  obtain ⟨z, x, hz, -, hx, hpass⟩ := passes_of_searchFrom hab
  refine h x _ hx ?_
  have hdrop : t.drop pos = z ++ (x ++ b.after) := by rw [← hpass.after]; exact hz
  exact (List.infix_append' z x b.after).trans (hdrop ▸ (List.drop_suffix pos t).isInfix)

/-- A fit that a search lists divides the text. -/
theorem split_of_mem_allIn {m : Match} (hm : m ∈ p.allIn t) :
    t = m.before ++ (m.text ++ m.after) := by
  obtain ⟨hsubject, hstop, hlength, -⟩ := (fitsFrom_allIn p t).of_mem hm
  rw [Match.before, Match.text, Match.after, hsubject, Text.slice_append_drop hstop hlength,
    List.take_append_drop]

theorem infix_of_mem_allIn {m : Match} (hm : m ∈ p.allIn t) : m.text <:+: t :=
  split_of_mem_allIn hm ▸ List.infix_append' m.before m.text m.after

theorem Misses.allIn_eq_nil (h : p.Misses t) : p.allIn t = [] := by
  rw [List.eq_nil_iff_forall_not_mem]
  intro m hm
  obtain ⟨gs, hx, -⟩ := spells_of_mem_allIn hm
  exact h _ gs hx (infix_of_mem_allIn hm)

theorem replace_of_allIn_eq_nil (h : p.allIn t = []) (f : Match → Text) : p.replace f t = t := by
  rw [replace, h]
  rfl

theorem Misses.replace_eq (h : p.Misses t) (f : Match → Text) : p.replace f t = t :=
  replace_of_allIn_eq_nil h.allIn_eq_nil f

theorem Misses.replaceM_eq (h : p.Misses t) (f : Match → Outcome Text) :
    p.replaceM f t = .ok t := by
  rw [replaceM, h.allIn_eq_nil]
  rfl

end misses

/-- Every text that the pattern covers holds another one. -/
def Needs (w : Text) (p : Pattern) : Prop := ∀ x gs, p.Spells x gs → w <:+: x

section needs

variable {w : Text} {p q : Pattern}

theorem Needs.left (h : p.Needs w) : (p ++ q).Needs w := by
  intro _ _ hx
  cases hx with
  | seq first _ => exact (h _ _ first).trans (List.prefix_append _ _).isInfix

theorem Needs.right (h : q.Needs w) : (p ++ q).Needs w := by
  intro _ _ hx
  cases hx with
  | seq _ second => exact (h _ _ second).trans (List.suffix_append _ _).isInfix

theorem Needs.cap (h : p.Needs w) (i : Nat) : (p.cap i).Needs w := by
  intro _ _ hx
  cases hx with
  | group hx => exact h _ _ hx

theorem Needs.orElse (hp : p.Needs w) (hq : q.Needs w) : (p <|> q).Needs w := by
  intro _ _ hx
  cases hx with
  | left hx => exact hp _ _ hx
  | right hx => exact hq _ _ hx

theorem needs_text {t : Text} (h : w <:+: t) : (text t).Needs w :=
  fun _ _ hx => hx.eq_of_text.1 ▸ h

theorem needs_lit {s : String} (h : w <:+: s.toList) : (lit s).Needs w := needs_text h

variable {t : Text}

/-- A pattern misses a text without what it needs. -/
theorem Needs.misses (hp : p.Needs w) (ht : ¬ w <:+: t) : p.Misses t :=
  fun x gs hx hin => ht ((hp x gs hx).trans hin)

theorem Needs.search?_eq_none (hp : p.Needs w) (ht : ¬ w <:+: t) : p.search? t = none :=
  (hp.misses ht).search?_eq_none

theorem Needs.match?_eq_none (hp : p.Needs w) (ht : ¬ w <:+: t) : p.match? t = none :=
  (hp.misses ht).match?_eq_none

theorem Needs.fits_eq_false (hp : p.Needs w) (ht : ¬ w <:+: t) : p.fits t = false :=
  (hp.misses ht).fits_eq_false

theorem Needs.searchAt?_eq_none (hp : p.Needs w) (ht : ¬ w <:+: t) (pos : Nat) :
    p.searchAt? t pos = none := (hp.misses ht).searchAt?_eq_none pos

theorem Needs.allIn_eq_nil (hp : p.Needs w) (ht : ¬ w <:+: t) : p.allIn t = [] :=
  (hp.misses ht).allIn_eq_nil

theorem Needs.replace_eq (hp : p.Needs w) (ht : ¬ w <:+: t) (f : Match → Text) :
    p.replace f t = t := (hp.misses ht).replace_eq f

end needs

/-! ## Patterns that leave an alphabet -/

section leaves

variable {alphabet t : Text} {p : Pattern}

/-- Whether the shape of a pattern shows that each text it spells has a character outside an
alphabet. -/
def leaves (alphabet : Text) : Pattern → Bool
  | .one accepts => alphabet.all fun c => !accepts c
  | .seq p q => p.leaves alphabet || q.leaves alphabet
  | .either p q => p.leaves alphabet && q.leaves alphabet
  | .rounds _ least _ body => 0 < least && body.leaves alphabet
  | .group _ body => body.leaves alphabet
  | _ => false

/-- Then each text that it spells has one. -/
theorem Spells.exists_notMem {x : Text} {gs : GroupTexts} (h : p.Spells x gs)
    (hp : p.leaves alphabet = true) : ∃ c ∈ x, c ∉ alphabet := by
  induction h with
  | @one accepts c hc =>
    refine ⟨c, List.mem_singleton_self c, fun hmem => ?_⟩
    have hreject := List.all_eq_true.mp hp c hmem
    rw [hc] at hreject
    cases hreject
  | seq _ _ ihp ihq =>
    rw [leaves, Bool.or_eq_true] at hp
    rcases hp with hp | hp
    · exact (ihp hp).imp fun c hc => ⟨List.mem_append_left _ hc.1, hc.2⟩
    · exact (ihq hp).imp fun c hc => ⟨List.mem_append_right _ hc.1, hc.2⟩
  | left _ ih => exact ih (Bool.and_eq_true_iff.mp hp).1
  | right _ ih => exact ih (Bool.and_eq_true_iff.mp hp).2
  | @rounds _ _ _ _ parts enough _ _ ih =>
    obtain ⟨hleast, hbody⟩ := Bool.and_eq_true_iff.mp hp
    have hpos : 0 < parts.length := lt_of_lt_of_le (of_decide_eq_true hleast) enough
    obtain ⟨part, parts, rfl⟩ := List.exists_cons_of_length_pos hpos
    obtain ⟨c, hc, hout⟩ := ih part (List.mem_cons_self ..) hbody
    exact ⟨c, by simp [hc], hout⟩
  | group _ ih => exact ih hp
  | _ => cases hp

/-- Such a pattern misses the texts over the alphabet. -/
theorem misses_of_leaves (hp : p.leaves alphabet = true) (ht : ∀ c ∈ t, c ∈ alphabet) :
    p.Misses t := by
  intro x gs hx hin
  obtain ⟨c, hc, hout⟩ := hx.exists_notMem hp
  exact hout (ht c (hin.subset hc))

theorem leaves_append (p q : Pattern) :
    (p ++ q).leaves alphabet = (p.leaves alphabet || q.leaves alphabet) := rfl

end leaves

end Pattern

end HostScript
