import HostScript.Body.Scope
import HostScript.Proofs.Body.Keep
import HostScript.Proofs.Pattern.Ways
import HostScript.Proofs.Text

/-!
# Edits that keep the marks of a shown text

The mark of a literal is a word, so an edit keeps the marks of a shown text if what it exchanges
stands apart: no word reaches over its start or its end, and either it tells no mark or the marks in
it stand in its replacement, too. Patterns are shown to start and to end at such places only, put
together from their parts.
-/

namespace HostScript

open Script Pattern Body

/-- No word reaches over the place. -/
def Cursor.IsParted (c : Cursor) : Prop := Parted c.before.reverse c.after

namespace Pattern

variable {p q r s : Pattern} {t : Text}

theorem Opens.isParted (hs : s.Opens) {k : Cursor → Option Cursor} {c e : Cursor}
    (h : s.run k c = some e) : k c = some e ∧ c.IsParted := by
  obtain ⟨hk, hopen⟩ := hs h
  refine ⟨hk, ?_⟩
  rw [Cursor.IsParted, Parted, endsIn, List.getLast?_reverse, startsIn]
  cases hafter : c.after.head?.any isWord with
  | false => exact .inr rfl
  | true => exact .inl (hopen hafter)

/-- The pattern starts only at places over which no word reaches. -/
def StartsParted (p : Pattern) : Prop :=
  ∀ ⦃k : Cursor → Option Cursor⦄ ⦃c e : Cursor⦄, p.run k c = some e → c.IsParted

/-- The pattern ends only at such places, if all places ahead are taken. -/
def EndsParted (p : Pattern) : Prop :=
  ∀ ⦃k : Cursor → Option Cursor⦄ ⦃c e : Cursor⦄, (∀ d, c.pos < d.pos → k d = some d) →
    p.run k c = some e → ∃ d, k d = some e ∧ d.IsParted

theorem StartsParted.left (h : p.StartsParted) (q : Pattern) : (p ++ q).StartsParted :=
  fun _ _ _ hrun => h hrun

theorem EndsParted.right (h : q.EndsParted) (p : Pattern) : (p ++ q).EndsParted := by
  intro k c e hk hrun
  obtain ⟨x, gs, d, -, hpass, hd⟩ := covers_run p _ _ _ hrun
  exact h (fun y hy => hk y (by rw [hpass.pos] at hy; omega)) hd

theorem Opens.startsParted (h : s.Opens) : s.StartsParted := fun _ _ _ hrun => (h.isParted hrun).2

theorem Opens.endsParted (h : s.Opens) : s.EndsParted :=
  fun _ _ _ _ hrun => ⟨_, h.isParted hrun⟩

/-- What starts with a character outside words starts apart. -/
theorem startsParted_of_spells
    (h : ∀ x gs, p.Spells x gs → ∃ d y, x = d :: y ∧ isWord d = false) : p.StartsParted := by
  intro k c e hrun
  obtain ⟨x, gs, d, hx, hpass, -⟩ := covers_run p _ _ _ hrun
  obtain ⟨a, y, rfl, ha⟩ := h x gs hx
  right
  rw [hpass.after]
  exact ha

/-- What the pattern covers ends with a character outside words. -/
def EndsOutside (p : Pattern) : Prop :=
  ∀ x gs, p.Spells x gs → ∃ y d, x = y ++ [d] ∧ isWord d = false

theorem EndsOutside.endsParted (h : p.EndsOutside) : p.EndsParted := by
  intro k c e _ hrun
  obtain ⟨x, gs, d, hx, hpass, hd⟩ := covers_run p _ _ _ hrun
  obtain ⟨y, a, rfl, ha⟩ := h x gs hx
  refine ⟨d, hd, .inl ?_⟩
  rw [hpass.before, endsIn, List.reverse_append, List.reverse_reverse, ← List.append_assoc,
    List.getLast?_concat]
  exact ha

theorem EndsOutside.right (h : q.EndsOutside) (p : Pattern) : (p ++ q).EndsOutside := by
  intro x gs hx
  obtain ⟨y, z, gs₁, gs₂, rfl, -, -, hz⟩ := spells_append_iff.mp hx
  obtain ⟨z, d, rfl, hd⟩ := h z gs₂ hz
  exact ⟨y ++ z, d, (List.append_assoc ..).symm, hd⟩

/-- White space may stand behind. -/
theorem EndsOutside.blanks (h : p.EndsOutside) : (p ++ blanks).EndsOutside := by
  intro x gs hx
  obtain ⟨y, b, rfl, hb, hy⟩ := hx.of_append_blanks
  rcases List.eq_nil_or_concat' b with rfl | ⟨b, d, rfl⟩
  · obtain ⟨y, d, rfl, hd⟩ := h y gs hy
    exact ⟨y, d, List.append_nil _, hd⟩
  · exact ⟨y ++ b, d, (List.append_assoc ..).symm, isWord_of_isBlank (hb d (by simp))⟩

theorem endsOutside_lit {n : String} (hn : n.toList.getLast?.any (outside isWord) = true) :
    (lit n).EndsOutside := by
  intro x gs hx
  obtain ⟨rfl, -⟩ := spells_lit_iff.mp hx
  obtain ⟨d, hd, hout⟩ := (Option.any_eq_true _ _).mp hn
  obtain ⟨y, hy⟩ := List.getLast?_eq_some_iff.mp hd
  exact ⟨y, d, hy, by simpa [outside] using hout⟩

theorem endsOutside_gap : gap.EndsOutside := by
  intro x gs hx
  obtain ⟨hne, hblank, -⟩ := of_spells_gap hx
  obtain ⟨y, d, rfl⟩ := (List.eq_nil_or_concat' x).resolve_left hne
  exact ⟨y, d, rfl, isWord_of_isBlank (hblank d (by simp))⟩

theorem startsParted_lit {n : String} (hn : n.toList.head?.any (outside isWord) = true) :
    (lit n).StartsParted := by
  refine startsParted_of_spells fun x gs hx => ?_
  obtain ⟨rfl, -⟩ := spells_lit_iff.mp hx
  obtain ⟨d, hd, hout⟩ := (Option.any_eq_true _ _).mp hn
  obtain ⟨y, hy⟩ := List.head?_eq_some_iff.mp hd
  exact ⟨d, y, hy, by simpa [outside] using hout⟩

/-- Greedy rounds go on as far as they can, if all places ahead are taken. -/
theorem run_star_one_eq {s : CharSet} {k : Cursor → Option Cursor} {c : Cursor}
    (hk : ∀ d, c.pos ≤ d.pos → (k d).isSome = true) :
    ∃ d, c.pos ≤ d.pos ∧ d.after.head?.any s = false ∧ (star (one s)).run k c = k d := by
  induction hafter : c.after generalizing c with
  | nil => exact ⟨c, le_rfl, by rw [hafter]; rfl, run_star_one_stop (by rw [hafter]; rfl)⟩
  | cons a rest ih =>
    cases ha : s a with
    | false =>
      have hstop : c.after.head?.any s = false := by rw [hafter]; exact ha
      exact ⟨c, le_rfl, hstop, run_star_one_stop hstop⟩
    | true =>
      have hpos : (c.advance 1).pos = c.pos + 1 := by simp [Cursor.advance, hafter]
      obtain ⟨d, hd, hstop, hrun⟩ := ih (c := c.advance 1)
        (fun d hd => hk d (by omega)) (by simp [Cursor.advance, hafter])
      have hsome := hk d (by omega)
      obtain ⟨e, he⟩ := Option.isSome_iff_exists.mp hsome
      refine ⟨d, by omega, hstop, ?_⟩
      rw [run_star_one_cons hafter ha, hrun, he]
      rfl

/-- What a name is followed by may be looked at. -/
theorem Opens.append_notAhead (hs : s.Opens) (body : Pattern) : (s ++ notAhead body).Opens := by
  intro k c e h
  obtain ⟨hrest, hstart⟩ := hs h
  refine ⟨?_, hstart⟩
  rw [notAhead, run] at hrest
  beta_reduce at hrest
  split at hrest
  · cases hrest
  · exact hrest

/-- A fit of such a pattern starts and ends apart. -/
theorem parted_of_mem_allIn {m : Match} (hm : m ∈ p.allIn t) :
    (p.StartsParted → Parted m.before (m.text ++ m.after)) ∧
      (p.EndsParted → Parted (m.before ++ m.text) m.after) := by
  have ht : t = ([] : Text).reverse ++ t := rfl
  obtain ⟨hsubject, hstop, hlength, -⟩ := (fitsFrom_allIn p t).of_mem hm
  obtain ⟨k, e, hk, hmoved, hrun, hafter⟩ := run_of_mem_matchesFrom ht hm
  have hplace : (placeAt t m.start).before.reverse = m.before := by
    rw [placeAt, List.reverse_reverse, Match.before, hsubject]
  have hrest : (placeAt t m.start).after = m.text ++ m.after := by
    rw [placeAt, Match.text, Match.after, hsubject, Text.slice_append_drop hstop hlength]
  constructor
  · intro hp
    have hparted := hp hrun
    rwa [Cursor.IsParted, hplace, hrest] at hparted
  · intro hp
    obtain ⟨d, hd, hparted⟩ := hp (fun d hd => hmoved d (Nat.ne_of_gt hd)) hrun
    obtain rfl := hk d e hd
    obtain ⟨x, gs, d', -, hpass, hd'⟩ := covers_run p _ _ _ hrun
    obtain rfl := hk d' d hd'
    have hend : d'.after = m.after := by rw [hafter, Match.after, hsubject]
    have htext : x = m.text := by
      have hsplit := hpass.after
      rw [hrest, hend] at hsplit
      exact (List.append_cancel_right hsplit).symm
    rwa [Cursor.IsParted, hpass.before, List.reverse_append, List.reverse_reverse, hplace, htext,
      hend] at hparted

/-- A look ahead covers nothing. -/
theorem Spells.of_isAhead (h : (isAhead p).Spells x gs) : x = [] := by
  cases h
  rfl

/-- A pattern starts apart that asks for a character outside words before it. -/
theorem startsParted_after {s : CharSet} (hs : ∀ c, s c = true → isWord c = false) :
    (after s).StartsParted := by
  intro k c e h
  rw [run_after] at h
  obtain ⟨hbefore, -⟩ := Option.ite_none_right_eq_some.mp h
  obtain ⟨d, hd, hds⟩ := (Option.any_eq_true _ _).mp hbefore
  left
  rw [endsIn, List.getLast?_reverse, hd]
  exact hs d hds

theorem EndsOutside.append_notAhead (h : p.EndsOutside) (q : Pattern) :
    (p ++ notAhead q).EndsOutside := by
  intro x gs hx
  obtain ⟨y, z, gs₁, gs₂, rfl, -, hy, hz⟩ := spells_append_iff.mp hx
  obtain ⟨rfl, -⟩ := spells_notAhead_iff.mp hz
  rw [List.append_nil]
  exact h y gs₁ hy

end Pattern

namespace Script

variable {n : Nat} {is : List Nat} {p : Pattern} {f : Match → Text} {t : Text}

theorem Parted.of_suffix (z : Text) {x y : Text} (h : Parted (z ++ x) y) : Parted x y := by
  rcases h with h | h
  · left
    rcases List.eq_nil_or_concat' x with rfl | ⟨x, c, rfl⟩
    · rfl
    · rw [endsIn, ← List.append_assoc, List.getLast?_concat] at h
      rw [endsIn, List.getLast?_concat]
      exact h
  · exact .inr h

/-- A text with the marks of another. -/
abbrev KeepsMarks (n : Nat) (t u : Text) : Prop := Kept SpanKind.literal.mark (· < n) t u

/-- A stretch that tells no mark may become any code. -/
theorem keepsMarks_of_tell {old new : Text} (hold : ¬ tell <:+: old)
    (hnew : ∀ c ∈ new, isTameCode c = true) : KeepsMarks n old new := by
  intro is h
  obtain ⟨rfl, -⟩ := Legible.code_of_tell h hold
  exact made_code hnew

theorem keepsMarks_code {old new : Text} (hold : 'J' ∉ old)
    (hnew : ∀ c ∈ new, isTameCode c = true) : KeepsMarks n old new :=
  keepsMarks_of_tell (fun hin => hold (hin.subset (by decide))) hnew

/-- On both sides of a place over which no word reaches a text may change. -/
theorem KeepsMarks.append {x u y v : Text} (hxy : Parted x y) (hx : KeepsMarks n x u)
    (hy : KeepsMarks n y v) : KeepsMarks n (x ++ y) (u ++ v) := Kept.append hxy.separates hx hy

/-- A stretch of the fit is exchanged that stands apart from the rest of the text. -/
def Exchanged (n : Nat) (m : Match) (v : Text) : Prop :=
  ∃ k old k' new, m.text = k ++ (old ++ k') ∧ v = k ++ (new ++ k') ∧
    Parted (m.before ++ k) (old ++ (k' ++ m.after)) ∧
    Parted (m.before ++ (k ++ old)) (k' ++ m.after) ∧ KeepsMarks n old new

/-- The whole of a fit that starts and ends apart may be exchanged. -/
theorem exchanged_whole (hs : p.StartsParted) (he : p.EndsParted) {m : Match}
    (hm : m ∈ p.allIn t) {v : Text} (hv : KeepsMarks n m.text v) : Exchanged n m v := by
  obtain ⟨hstart, hend⟩ := parted_of_mem_allIn hm
  refine ⟨[], m.text, [], v, by simp, by simp, ?_, ?_, hv⟩
  · rw [List.append_nil, List.nil_append]
    exact hstart hs
  · rw [List.nil_append, List.nil_append]
    exact hend he

/-- Something may be put in front of a fit that starts apart. -/
theorem exchanged_front (hs : p.StartsParted) {m : Match} (hm : m ∈ p.allIn t) {w : Text}
    (hw : ∀ c ∈ w, isTameCode c = true) : Exchanged n m (w ++ m.text) := by
  have hstart := (parted_of_mem_allIn hm).1 hs
  refine ⟨[], [], m.text, w, rfl, rfl, ?_, ?_, keepsMarks_code List.not_mem_nil hw⟩
  · rw [List.append_nil]
    exact hstart
  · rw [List.append_nil, List.append_nil]
    exact hstart

theorem Exchanged.splice (hf : ∀ m ∈ p.allIn t, Exchanged n m (f m)) {pos : Nat} {ms : List Match}
    (hms : FitsFrom p t pos ms) (hpos : pos ≤ t.length) (hsub : ∀ m ∈ ms, m ∈ p.allIn t) {w : Text}
    (hw : w <:+ t.take pos) : KeepsMarks n (w ++ t.drop pos) (w ++ Pattern.splice t f pos ms) := by
  induction hms generalizing w with
  | nil => exact .refl _
  | @cons pos m ms hsubject hstart hstop hlength _ _ ih =>
    rw [List.forall_mem_cons] at hsub
    obtain ⟨k, old, k', new, htext, hvalue, hbefore, hafter, hkeep⟩ := hf m hsub.1
    have hmbefore : m.before = t.take m.start := by rw [Match.before, hsubject]
    have hmafter : m.after = t.drop m.stop := by rw [Match.after, hsubject]
    have hsplit : t.drop pos = t.slice pos m.start ++ (m.text ++ t.drop m.stop) := by
      rw [Match.text, hsubject, Text.slice_append_drop hstop hlength,
        Text.slice_append_drop hstart (hstop.trans hlength)]
    -- What is kept before the fit ends the text before it.
    obtain ⟨z, hz⟩ : w ++ t.slice pos m.start <:+ m.before := by
      obtain ⟨z, hz⟩ := hw
      exact ⟨z, by rw [hmbefore, Text.take_eq_append_slice hstart, ← hz, List.append_assoc]⟩
    have hrest : k' <:+ t.take m.stop := by
      refine ⟨m.before ++ (k ++ old), ?_⟩
      rw [Text.take_eq_append_slice hstop, ← hmbefore, ← hsubject, ← Match.text, htext]
      simp
    have hcut : w ++ t.drop pos =
        (w ++ t.slice pos m.start ++ k) ++ (old ++ (k' ++ t.drop m.stop)) := by
      rw [hsplit, htext]
      simp
    have hresult : w ++ Pattern.splice t f pos (m :: ms) =
        (w ++ t.slice pos m.start ++ k) ++ (new ++ (k' ++ Pattern.splice t f m.stop ms)) := by
      rw [Pattern.splice, hvalue]
      simp
    rw [hcut, hresult]
    rw [hmafter] at hbefore hafter
    refine .append (.of_suffix z (by rwa [← List.append_assoc, hz])) (.refl _)
      (.append (.of_suffix (m.before ++ k) ?_) hkeep (ih hlength hsub.2 hrest))
    rwa [List.append_assoc]

/-- Exchanging such stretches of the fits keeps the marks of a text. -/
theorem keepsMarks_replace (hf : ∀ m ∈ p.allIn t, Exchanged n m (f m)) :
    KeepsMarks n t (p.replace f t) :=
  Exchanged.splice (w := []) hf (fitsFrom_allIn p t) (Nat.zero_le _) (fun _ => id) List.nil_suffix

section blanks

variable {x y t : Text}

theorem endsIn_concat (s : CharSet) (x : Text) (c : Char) : endsIn s (x ++ [c]) = s c := by
  rw [endsIn, List.getLast?_concat]
  rfl

/-- No word reaches over white space. -/
theorem parted_blank_left (hx : ∀ c ∈ x, isBlank c = true) : Parted x y :=
  .inl (any_getLast?_of_isBlank hx)

theorem parted_blank_right (hx : ∀ c ∈ x, isBlank c = true) (hne : x ≠ [] ∨ y = []) :
    Parted t (x ++ y) := by
  right
  cases x with
  | nil =>
    obtain rfl := hne.resolve_left (not_not.mpr rfl)
    rfl
  | cons c x => exact isWord_of_isBlank (hx c (List.mem_cons_self ..))

theorem tell_notMem_blank (hx : ∀ c ∈ x, isBlank c = true) : 'J' ∉ x :=
  notMem_of_forall hx (by decide)

/-- Trimming leaves the marks. -/
theorem keepsMarks_trim (t : Text) : KeepsMarks n t t.trim := by
  obtain ⟨x, y, ht, hx, hy⟩ := Text.exists_trimOf isBlank t
  have hkept : KeepsMarks n (x ++ (t.trim ++ y)) ([] ++ (t.trim ++ [])) :=
    .append (parted_blank_left hx) (keepsMarks_code (tell_notMem_blank hx) (List.forall_mem_nil _))
      (.append (by simpa using parted_blank_right (y := []) hy (.inr rfl)) (.refl _)
        (keepsMarks_code (tell_notMem_blank hy) (List.forall_mem_nil _)))
  intro is h
  have h' := hkept (ht ▸ h)
  simpa using h'

/-- Code that tells no mark and ends outside words. -/
def StandsBefore (x : Text) : Prop := 'J' ∉ x ∧ endsIn isWord x = false

/-- Code that tells no mark and starts outside words. -/
def StandsBehind (x : Text) : Prop := 'J' ∉ x ∧ startsIn isWord x = false

instance (x : Text) : Decidable (StandsBefore x) := inferInstanceAs (Decidable (_ ∧ _))

instance (x : Text) : Decidable (StandsBehind x) := inferInstanceAs (Decidable (_ ∧ _))

theorem StandsBefore.append_blanks (hx : StandsBefore x) (hy : ∀ c ∈ y, isBlank c = true) :
    StandsBefore (x ++ y) := by
  refine ⟨by simp [hx.1, tell_notMem_blank hy], ?_⟩
  rcases List.eq_nil_or_concat' y with rfl | ⟨y, c, rfl⟩
  · rw [List.append_nil]
    exact hx.2
  · rw [← List.append_assoc, endsIn_concat]
    exact isWord_of_isBlank (hy c (by simp))

theorem StandsBefore.append_right (hx : 'J' ∉ x) (hy : StandsBefore y) (hne : y ≠ []) :
    StandsBefore (x ++ y) :=
  ⟨by simp [hx, hy.1], (endsIn_append _ hne x).trans hy.2⟩

theorem StandsBehind.append_left (hx : StandsBehind x) (hne : x ≠ []) (hy : 'J' ∉ y) :
    StandsBehind (x ++ y) := by
  refine ⟨by simp [hx.1, hy], ?_⟩
  rw [startsIn, List.head?_append_of_ne_nil _ hne]
  exact hx.2

end blanks

section around

variable {a b a' : Text} (first sep last new₁ new₂ new₃ : Text)

/-- Other code may stand around a stretch. -/
theorem keepsMarks_around (hfirst : StandsBefore first) (hlast : StandsBehind last)
    (h₁ : ∀ c ∈ new₁, isTameCode c = true) (h₂ : ∀ c ∈ new₂, isTameCode c = true)
    (ha : KeepsMarks n a a') : KeepsMarks n (first ++ (a ++ last)) (new₁ ++ (a' ++ new₂)) :=
  .append (.inl hfirst.2) (keepsMarks_code hfirst.1 h₁)
    (.append (.inr hlast.2) ha (keepsMarks_code hlast.1 h₂))

/-- Two stretches between code may change places. -/
theorem keepsMarks_swapped (hfirst : StandsBefore first) (hsep : StandsBefore sep ∧ StandsBehind sep)
    (hne : sep ≠ []) (hlast : StandsBehind last) (h₁ : ∀ c ∈ new₁, isTameCode c = true)
    (h₂ : ∀ c ∈ new₂, isTameCode c = true) (h₃ : ∀ c ∈ new₃, isTameCode c = true) :
    KeepsMarks n (first ++ (a ++ (sep ++ (b ++ last)))) (new₁ ++ (b ++ (new₂ ++ (a ++ new₃)))) := by
  refine .append (.inl hfirst.2) (keepsMarks_code hfirst.1 h₁) ?_
  have hsplit : Parted (a ++ sep) (b ++ last) := .inl ((endsIn_append _ hne a).trans hsep.1.2)
  have hswap : KeepsMarks n ((a ++ sep) ++ (b ++ last)) ((b ++ new₂) ++ (a ++ new₃)) :=
    Kept.swap hsplit.separates
    (KeepsMarks.append (.inr hsep.2.2) (.refl a) (keepsMarks_code hsep.1.1 h₃))
    (KeepsMarks.append (.inr hlast.2) (.refl b) (keepsMarks_code hlast.1 h₂))
  simpa only [List.append_assoc] using hswap

end around

end Script

namespace Body

variable {n : Nat} {t : Text} {e : Edit} {p : Pattern} {new : String}

/-- An edit that drops no mark of a text and brings in no literal. -/
def Edit.Spares (e : Edit) (t : Text) : Prop :=
  ∀ m ∈ e.pattern.allIn t, '\x22' ∉ e.replacement m ∧ (tell <:+: m.text → tell <:+: e.replacement m)

instance (e : Edit) (t : Text) : Decidable (e.Spares t) := inferInstanceAs (Decidable (∀ _ ∈ _, _))

/-- Edits each of which spares the text that it is given. -/
def Edit.SpareAll : List Edit → Text → Prop
  | [], _ => True
  | e :: edits, t => e.Spares t ∧ Edit.SpareAll edits (e.apply t)

instance Edit.decidableSpareAll :
    (edits : List Edit) → (t : Text) → Decidable (Edit.SpareAll edits t)
  | [], _ => isTrue trivial
  | e :: edits, t =>
    have := Edit.decidableSpareAll edits (e.apply t)
    inferInstanceAs (Decidable (e.Spares t ∧ _))

/-- An edit that keeps the marks of a text wherever it spares them. -/
def Edit.IsSafe (e : Edit) : Prop :=
  ∀ n t, ∀ m ∈ e.pattern.allIn t, '\x22' ∉ e.replacement m →
    (tell <:+: m.text → tell <:+: e.replacement m) → Exchanged n m (e.replacement m)

theorem Edit.IsSafe.keepsMarks (h : e.IsSafe) (ht : e.Spares t) : KeepsMarks n t (e.apply t) :=
  keepsMarks_replace fun m hm => h n t m hm (ht m hm).1 (ht m hm).2

/-- Steps that each keep the marks keep them one after the other. -/
theorem keepsMarks_foldl {α : Type} {f : Text → α → Text} {steps : List α}
    (h : ∀ a ∈ steps, ∀ t, KeepsMarks n t (f t a)) : KeepsMarks n t (steps.foldl f t) := by
  induction steps generalizing t with
  | nil => exact .refl t
  | cons a steps ih =>
    rw [List.forall_mem_cons] at h
    exact .trans (h.1 t) (ih h.2)

theorem keepsMarks_applyAll {edits : List Edit} (hedits : ∀ e ∈ edits, e.IsSafe)
    (ht : Edit.SpareAll edits t) : KeepsMarks n t (Edit.applyAll edits t) := by
  induction edits generalizing t with
  | nil => exact .refl t
  | cons e edits ih =>
    rw [List.forall_mem_cons] at hedits
    exact .trans (hedits.1.keepsMarks ht.1) (ih hedits.2 ht.2)

/-- A fixed text in place of what starts and ends apart. -/
theorem isSafe_const (hs : p.StartsParted) (he : p.EndsParted)
    (hnew : ∀ c ∈ new.toList, (isTameCode c = true ∨ c = '\x22') ∧ c ≠ 'J') :
    (Edit.const p new).IsSafe := by
  intro n t m hm hquote htell
  have hcode : ∀ c ∈ new.toList, isTameCode c = true := fun c hc =>
    (hnew c hc).1.resolve_right fun heq => hquote (heq ▸ hc)
  refine exchanged_whole hs he hm (keepsMarks_of_tell (fun hin => ?_) hcode)
  exact (hnew 'J' ((htell hin).subset (by decide))).2 rfl

/-- A character of the mark. -/
def notTell : CharSet := (· != 'J')

theorem spares_const (hp : p.Within notTell) (hnew : '\x22' ∉ new.toList) :
    (Edit.const p new).Spares t := by
  intro m hm
  obtain ⟨gs, hspells, -⟩ := spells_of_mem_allIn hm
  refine ⟨hnew, fun hin => ?_⟩
  have := hspells.mem_of_within hp 'J' (hin.subset (by decide))
  cases this

/-- So it may be put where nothing that tells a mark goes. -/
theorem keepsMarks_const (new : String) (hs : p.StartsParted) (he : p.EndsParted)
    (hp : p.Within notTell) (hnew : ∀ c ∈ new.toList, isTameCode c = true ∧ c ≠ 'J') :
    KeepsMarks n t ((Edit.const p new).apply t) :=
  (isSafe_const hs he fun c hc => ⟨.inl (hnew c hc).1, (hnew c hc).2⟩).keepsMarks
    (spares_const hp fun hmem => absurd (hnew _ hmem).1 (by decide))

end Body

end HostScript
