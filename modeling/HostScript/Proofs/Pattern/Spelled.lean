import HostScript.Proofs.Pattern.Plain

/-!
# What a fit covers

The texts that a pattern can cover, with what its groups then hold, are given by rules that follow
its shape. Running a pattern only ever hands on a place behind such a text, so the shape of a
pattern can be read off every fit that it gives.
-/

namespace HostScript

/-- The texts of groups, latest first. -/
abbrev GroupTexts := List (Nat × Text)

/-- Looking up what was changed is changing what was looked up. -/
theorem lookup_map_snd {α β : Type} (f : α → β) (l : List (Nat × α)) (i : Nat) :
    (l.map fun g => (g.1, f g.2)).lookup i = (l.lookup i).map f := by
  induction l with
  | nil => rfl
  | cons g l ih =>
    obtain ⟨j, a⟩ := g
    cases hij : i == j <;> simp [List.lookup_cons, hij, ih]

namespace Cursor

/-- The texts of the groups that are filled. -/
def groupTexts (c : Cursor) : GroupTexts := c.groups.map fun g => (g.1, g.2.text)

/-- The place behind a text, with further groups filled. -/
structure Passes (c : Cursor) (x : Text) (gs : GroupTexts) (d : Cursor) : Prop where
  after : c.after = x ++ d.after
  pos : d.pos = c.pos + x.length
  groupTexts : d.groupTexts = gs ++ c.groupTexts
  before : d.before = x.reverse ++ c.before

theorem passes_self (c : Cursor) : c.Passes [] [] c := ⟨rfl, rfl, rfl, rfl⟩

/-- Passing over two texts is passing over both at once. -/
theorem Passes.trans {c d e : Cursor} {x y : Text} {gs hs : GroupTexts} (hcd : c.Passes x gs d)
    (hde : d.Passes y hs e) : c.Passes (x ++ y) (hs ++ gs) e where
  after := by rw [hcd.after, hde.after, List.append_assoc]
  pos := by rw [hde.pos, hcd.pos, List.length_append, Nat.add_assoc]
  groupTexts := by rw [hde.groupTexts, hcd.groupTexts, List.append_assoc]
  before := by rw [hde.before, hcd.before, List.reverse_append, List.append_assoc]

/-- The text up to a place behind it. -/
theorem Passes.textTo_eq {c d : Cursor} {x : Text} {gs : GroupTexts} (h : c.Passes x gs d) :
    c.textTo d = x := by
  rw [textTo, h.after, h.pos, Nat.add_sub_cancel_left, List.take_left]

/-- A character that is accepted is passed over. -/
theorem passes_of_accept {s : CharSet} {c d : Cursor} (h : c.accept s = some d) :
    ∃ a, s a = true ∧ c.Passes [a] [] d := by
  unfold accept at h
  split at h
  · cases h
  · rename_i a rest hafter
    obtain ⟨ha, hd⟩ := Option.ite_none_right_eq_some.mp h
    obtain rfl := Option.some.inj hd
    exact ⟨a, ha, hafter, rfl, rfl, rfl⟩

/-- A text that is accepted is passed over. -/
theorem passes_of_acceptText {t : Text} {c d : Cursor} (h : c.acceptText t = some d) :
    c.Passes t [] d := by
  induction t generalizing c with
  | nil =>
    obtain rfl := Option.some.inj h
    exact c.passes_self
  | cons a t ih =>
    rw [acceptText] at h
    obtain ⟨b, hb, hd⟩ := Option.bind_eq_some_iff.mp h
    obtain ⟨a', ha, hpass⟩ := passes_of_accept hb
    obtain rfl : a' = a := by simpa using ha
    exact hpass.trans (ih hd)

end Cursor

namespace Pattern

/-- A pattern can cover a text with its groups holding the given texts. -/
inductive Spells : Pattern → Text → GroupTexts → Prop where
  | empty : Spells .empty [] []
  | one {s : CharSet} {a : Char} (h : s a = true) : Spells (.one s) [a] []
  | seq {p q : Pattern} {x y : Text} {gs hs : GroupTexts} (first : Spells p x gs)
    (second : Spells q y hs) : Spells (.seq p q) (x ++ y) (hs ++ gs)
  | left {p q : Pattern} {x : Text} {gs : GroupTexts} (h : Spells p x gs) :
    Spells (.either p q) x gs
  | right {p q : Pattern} {x : Text} {gs : GroupTexts} (h : Spells q x gs) :
    Spells (.either p q) x gs
  | rounds {greedy : Bool} {least : Nat} {most : Option Nat} {body : Pattern}
    {parts : List (Text × GroupTexts)} (enough : least ≤ parts.length)
    (bounded : ∀ n, most = some n → parts.length ≤ max least n)
    (each : ∀ part ∈ parts, Spells body part.1 part.2) :
    Spells (.rounds greedy least most body) (parts.flatMap (·.1)) (parts.reverse.flatMap (·.2))
  | group {i : Nat} {body : Pattern} {x : Text} {gs : GroupTexts} (h : Spells body x gs) :
    Spells (.group i body) x ((i, x) :: gs)
  | ahead {body : Pattern} {x : Text} {gs : GroupTexts} (h : Spells body x gs) :
    Spells (.ahead true body) [] gs
  | notAhead {body : Pattern} : Spells (.ahead false body) [] []
  | behind {wanted : Bool} {width : Nat} {body : Pattern} :
    Spells (.behind wanted width body) [] []
  | edge : Spells .edge [] []
  | textStart : Spells .textStart [] []
  | lineStart : Spells .lineStart [] []
  | textEnd : Spells .textEnd [] []
  | same {i : Nat} {x : Text} : Spells (.same i) x []

end Pattern

namespace Fit

/-- A way to fit that hands on places behind texts of a kind only. -/
def Covers (f : Fit) (kind : Text → GroupTexts → Prop) : Prop :=
  ∀ (k : Cursor → Option Cursor) (c e : Cursor), f k c = some e →
    ∃ x gs d, kind x gs ∧ c.Passes x gs d ∧ k d = some e

/-- Texts of a kind one after the other. -/
structure IsRow (kind : Text → GroupTexts → Prop) (parts : List (Text × GroupTexts)) (x : Text)
    (gs : GroupTexts) : Prop where
  each : ∀ part ∈ parts, kind part.1 part.2
  text : x = parts.flatMap (·.1)
  groups : gs = parts.reverse.flatMap (·.2)

variable {kind : Text → GroupTexts → Prop}

theorem isRow_nil : IsRow kind [] [] [] := ⟨by simp, rfl, rfl⟩

/-- A row with one more text before it. -/
theorem IsRow.cons {parts : List (Text × GroupTexts)} {x y : Text} {gs hs : GroupTexts}
    (hx : kind x gs) (h : IsRow kind parts y hs) : IsRow kind ((x, gs) :: parts) (x ++ y)
      (hs ++ gs) where
  each := by
    intro part hpart
    rcases List.mem_cons.mp hpart with rfl | hpart
    · exact hx
    · exact h.each part hpart
  text := by rw [h.text, List.flatMap_cons]
  groups := by simp [h.groups]

/-- Optional rounds cover a row that is no longer than the rounds allowed. -/
theorem covers_furtherRounds {body : Fit} (hbody : body.Covers kind) (greedy : Bool)
    (spare : Text) : Covers (furtherRounds body greedy spare) fun x gs =>
      ∃ parts, parts.length ≤ spare.length ∧ IsRow kind parts x gs := by
  have hstay {spare : Text} {k : Cursor → Option Cursor} {c e : Cursor} (h : k c = some e) :
      ∃ x gs d, (∃ parts : List (Text × GroupTexts), parts.length ≤ spare.length ∧
        IsRow kind parts x gs) ∧ c.Passes x gs d ∧ k d = some e :=
    ⟨[], [], c, ⟨[], Nat.zero_le _, isRow_nil⟩, c.passes_self, h⟩
  induction spare with
  | nil => exact fun k c e h => hstay h
  | cons a spare ih =>
    intro k c e h
    have hfurther (h : body (fun d => if d.pos == c.pos then none
        else furtherRounds body greedy spare k d) c = some e) :
        ∃ x gs d, (∃ parts : List (Text × GroupTexts), parts.length ≤ (a :: spare).length ∧
          IsRow kind parts x gs) ∧ c.Passes x gs d ∧ k d = some e := by
      obtain ⟨x, gs, d, hx, hcd, hd⟩ := hbody _ c e h
      obtain ⟨-, hd⟩ := Option.ite_none_left_eq_some.mp hd
      obtain ⟨y, hs, d', ⟨parts, hlen, hrow⟩, hdd', hd'⟩ := ih k d e hd
      exact ⟨x ++ y, hs ++ gs, d', ⟨(x, gs) :: parts, Nat.succ_le_succ hlen, hrow.cons hx⟩,
        hcd.trans hdd', hd'⟩
    rw [furtherRounds] at h
    split at h
    · rcases of_orTry_eq_some h with h | h
      · exact hfurther h
      · exact hstay h
    · rcases of_orTry_eq_some h with h | h
      · exact hstay h
      · exact hfurther h

/-- Repeated rounds cover a row with the compulsory rounds and no more than those allowed. -/
theorem covers_rounds {body : Fit} (hbody : body.Covers kind) (greedy : Bool) (spare : Text)
    (least : Nat) : Covers (rounds body greedy spare least) fun x gs =>
      ∃ parts, least ≤ parts.length ∧ parts.length ≤ least + spare.length ∧
        IsRow kind parts x gs := by
  induction least with
  | zero =>
    intro k c e h
    obtain ⟨x, gs, d, ⟨parts, hlen, hrow⟩, hcd, hd⟩ :=
      covers_furtherRounds hbody greedy spare k c e h
    exact ⟨x, gs, d, ⟨parts, Nat.zero_le _, by omega, hrow⟩, hcd, hd⟩
  | succ least ih =>
    intro k c e h
    obtain ⟨x, gs, d, hx, hcd, hd⟩ := hbody _ c e h
    obtain ⟨y, hs, d', ⟨parts, hleast, hlen, hrow⟩, hdd', hd'⟩ := ih k d e hd
    refine ⟨x ++ y, hs ++ gs, d', ⟨(x, gs) :: parts, ?_, ?_, hrow.cons hx⟩, hcd.trans hdd', hd'⟩
    · rw [List.length_cons]
      omega
    · rw [List.length_cons]
      omega

end Fit

namespace Pattern

/-- Running a pattern passes over a text that the pattern spells. -/
theorem covers_run (p : Pattern) : Fit.Covers p.run p.Spells := by
  induction p with
  | empty => exact fun k c e h => ⟨[], [], c, .empty, c.passes_self, h⟩
  | one s =>
    intro k c e h
    obtain ⟨d, hd, he⟩ := Option.bind_eq_some_iff.mp h
    obtain ⟨a, ha, hpass⟩ := Cursor.passes_of_accept hd
    exact ⟨[a], [], d, .one ha, hpass, he⟩
  | seq p q hp hq =>
    intro k c e h
    obtain ⟨x, gs, d, hx, hcd, hd⟩ := hp _ c e h
    obtain ⟨y, hs, d', hy, hdd', hd'⟩ := hq k d e hd
    exact ⟨x ++ y, hs ++ gs, d', .seq hx hy, hcd.trans hdd', hd'⟩
  | either p q hp hq =>
    intro k c e h
    rw [run] at h
    rcases Fit.of_orTry_eq_some h with h | h
    · obtain ⟨x, gs, d, hx, hrest⟩ := hp k c e h
      exact ⟨x, gs, d, .left hx, hrest⟩
    · obtain ⟨x, gs, d, hx, hrest⟩ := hq k c e h
      exact ⟨x, gs, d, .right hx, hrest⟩
  | rounds greedy least most body hbody =>
    intro k c e h
    obtain ⟨x, gs, d, ⟨parts, hleast, hlen, hrow⟩, hrest⟩ :=
      Fit.covers_rounds hbody greedy _ least k c e h
    refine ⟨x, gs, d, ?_, hrest⟩
    rw [hrow.text, hrow.groups]
    refine .rounds hleast (fun n hn => ?_) hrow.each
    subst hn
    rw [List.length_replicate] at hlen
    omega
  | group i body hbody =>
    intro k c e h
    obtain ⟨x, gs, d, hx, hcd, hd⟩ := hbody _ c e h
    have hfilled : c.Passes x ((i, x) :: gs)
        { d with groups := (i, ⟨c.pos, c.textTo d⟩) :: d.groups } := by
      refine ⟨hcd.after, hcd.pos, ?_, hcd.before⟩
      have hgroups := hcd.groupTexts
      rw [Cursor.groupTexts] at hgroups
      rw [Cursor.groupTexts, List.map_cons, hgroups, hcd.textTo_eq, List.cons_append]
    exact ⟨x, (i, x) :: gs, _, .group hx, hfilled, hd⟩
  | ahead wanted body hbody =>
    intro k c e h
    rw [run] at h
    beta_reduce at h
    split at h
    · rename_i d hd
      cases wanted with
      | false => cases h
      | true =>
        obtain ⟨x, gs, d', hx, hcd, hd'⟩ := hbody some c d hd
        obtain rfl := Option.some.inj hd'
        have hfilled : c.Passes [] gs { c with groups := d'.groups } :=
          ⟨rfl, rfl, hcd.groupTexts, rfl⟩
        exact ⟨[], gs, _, .ahead hx, hfilled, h⟩
    · cases wanted with
      | false => exact ⟨[], [], c, .notAhead, c.passes_self, h⟩
      | true => cases h
  | behind wanted width body _ =>
    exact fun k c e h => ⟨[], [], c, .behind, c.passes_self, (Option.ite_none_right_eq_some.mp h).2⟩
  | edge =>
    exact fun k c e h => ⟨[], [], c, .edge, c.passes_self, (Option.ite_none_right_eq_some.mp h).2⟩
  | textStart =>
    exact fun k c e h =>
      ⟨[], [], c, .textStart, c.passes_self, (Option.ite_none_right_eq_some.mp h).2⟩
  | lineStart =>
    exact fun k c e h =>
      ⟨[], [], c, .lineStart, c.passes_self, (Option.ite_none_right_eq_some.mp h).2⟩
  | textEnd =>
    exact fun k c e h =>
      ⟨[], [], c, .textEnd, c.passes_self, (Option.ite_none_right_eq_some.mp h).2⟩
  | same i =>
    intro k c e h
    rw [run] at h
    beta_reduce at h
    split at h
    · rename_i t _
      obtain ⟨d, hd, he⟩ := Option.bind_eq_some_iff.mp h
      exact ⟨t, [], d, .same, Cursor.passes_of_acceptText hd, he⟩
    · cases h

/-- A text pattern spells its text. -/
theorem Spells.eq_of_text {t x : Text} {gs : GroupTexts} (h : (text t).Spells x gs) :
    x = t ∧ gs = [] := by
  have hone {c : Char} {x : Text} {gs : GroupTexts} (h : (Pattern.one (· == c)).Spells x gs) :
      x = [c] ∧ gs = [] := by
    cases h with
    | one ha => exact ⟨by simpa using ha, rfl⟩
  induction t generalizing x gs with
  | nil =>
    cases h
    exact ⟨rfl, rfl⟩
  | cons c t ih =>
    cases t with
    | nil => exact hone h
    | cons d t =>
      cases h with
      | seq hfirst hrest =>
        obtain ⟨rfl, rfl⟩ := hone hfirst
        obtain ⟨rfl, rfl⟩ := ih hrest
        exact ⟨rfl, rfl⟩

/-- Rounds of single characters spell texts of such characters. -/
theorem Spells.of_rounds_one {greedy : Bool} {least : Nat} {most : Option Nat} {s : CharSet}
    {x : Text} {gs : GroupTexts} (h : (Pattern.rounds greedy least most (.one s)).Spells x gs) :
    least ≤ x.length ∧ (∀ c ∈ x, s c = true) ∧ gs = [] := by
  cases h with
  | @rounds _ _ _ _ parts enough _ each =>
    have hparts : ∀ part ∈ parts, ∃ a, s a = true ∧ part = ([a], []) := by
      intro part hpart
      obtain ⟨x, gs⟩ := part
      cases each _ hpart with
      | one ha => exact ⟨_, ha, rfl⟩
    have hlen : (parts.flatMap (·.1)).length = parts.length := by
      have hone : parts.map (·.1.length) = parts.map fun _ => 1 := by
        apply List.map_congr_left
        intro part hpart
        obtain ⟨a, -, rfl⟩ := hparts part hpart
        rfl
      rw [List.length_flatMap, hone]
      simp
    refine ⟨hlen ▸ enough, fun c hc => ?_, ?_⟩
    · obtain ⟨part, hpart, hmem⟩ := List.mem_flatMap.mp hc
      obtain ⟨a, ha, rfl⟩ := hparts part hpart
      obtain rfl : c = a := by simpa using hmem
      exact ha
    · rw [List.flatMap_eq_nil_iff]
      intro part hpart
      obtain ⟨a, -, rfl⟩ := hparts part (List.mem_reverse.mp hpart)
      rfl

/-- An optional pattern spells nothing or what the pattern spells. -/
theorem Spells.of_opt {p : Pattern} {x : Text} {gs : GroupTexts} (h : p.opt.Spells x gs) :
    (x = [] ∧ gs = []) ∨ p.Spells x gs := by
  cases h with
  | @rounds _ _ _ _ parts _ bounded each =>
    have hlen : parts.length ≤ 1 := bounded 1 rfl
    match parts with
    | [] => exact Or.inl ⟨rfl, rfl⟩
    | [part] =>
      right
      simpa using each part (List.mem_singleton_self part)
    | _ :: _ :: parts =>
      simp only [List.length_cons] at hlen
      omega

/-- A fit that covers a whole text spells it. -/
theorem spells_of_fitsAll {p : Pattern} {t : Text} (h : p.fitsAll t = true) :
    ∃ gs, p.Spells t gs := by
  rw [fitsAll, matchAll?, Option.isSome_map] at h
  obtain ⟨e, he⟩ := Option.isSome_iff_exists.mp h
  obtain ⟨x, gs, d, hx, hpass, hd⟩ := covers_run p _ _ _ he
  obtain ⟨hend, -⟩ := Option.ite_none_right_eq_some.mp hd
  have hafter : t = x ++ d.after := hpass.after
  rw [List.isEmpty_iff.mp hend, List.append_nil] at hafter
  exact ⟨gs, hafter ▸ hx⟩

/-!
## Taking apart what a pattern covers
-/

section inversion

variable {p q : Pattern} {x : Text} {gs : GroupTexts}

/-- What a sequence covers is covered part by part. -/
theorem spells_append_iff : (p ++ q).Spells x gs ↔
    ∃ y z gs₁ gs₂, x = y ++ z ∧ gs = gs₂ ++ gs₁ ∧ p.Spells y gs₁ ∧ q.Spells z gs₂ := by
  constructor
  · intro h
    cases h with
    | seq first second => exact ⟨_, _, _, _, rfl, rfl, first, second⟩
  · rintro ⟨y, z, gs₁, gs₂, rfl, rfl, first, second⟩
    exact .seq first second

/-- The pattern spells what a text starts with. -/
def Begins (p : Pattern) (t : Text) : Prop := ∃ x gs, x <+: t ∧ p.Spells x gs

theorem Begins.left {t : Text} (h : (p ++ q).Begins t) : p.Begins t := by
  obtain ⟨x, gs, hx, h⟩ := h
  obtain ⟨y, z, _, _, rfl, -, hp, -⟩ := spells_append_iff.mp h
  exact ⟨y, _, (List.prefix_append y z).trans hx, hp⟩

theorem spells_cap_iff {i : Nat} : (p.cap i).Spells x gs ↔
    ∃ gs₁, gs = (i, x) :: gs₁ ∧ p.Spells x gs₁ := by
  constructor
  · intro h
    cases h with
    | group h => exact ⟨_, rfl, h⟩
  · rintro ⟨gs₁, rfl, h⟩
    exact .group h

theorem spells_orElse_iff : (p <|> q).Spells x gs ↔ p.Spells x gs ∨ q.Spells x gs := by
  constructor
  · intro h
    cases h with
    | left h => exact Or.inl h
    | right h => exact Or.inr h
  · rintro (h | h)
    · exact .left h
    · exact .right h

theorem spells_oneOf_iff {s : CharSet} : (oneOf s).Spells x gs ↔
    ∃ c, s c = true ∧ x = [c] ∧ gs = [] := by
  constructor
  · intro h
    cases h with
    | one h => exact ⟨_, h, rfl, rfl⟩
  · rintro ⟨c, h, rfl, rfl⟩
    exact .one h

theorem spells_text_iff {t : Text} : (text t).Spells x gs ↔ x = t ∧ gs = [] := by
  refine ⟨fun h => h.eq_of_text, ?_⟩
  rintro ⟨rfl, rfl⟩
  induction x with
  | nil => exact .empty
  | cons c x ih =>
    have hone : (Pattern.one (· == c)).Spells [c] [] := .one (beq_self_eq_true c)
    cases x with
    | nil => exact hone
    | cons d x => exact .seq hone ih

theorem spells_lit_iff {s : String} : (lit s).Spells x gs ↔ x = s.toList ∧ gs = [] :=
  spells_text_iff

theorem spells_choice_iff {ss : List String} (hss : ss ≠ []) :
    (choice ss).Spells x gs ↔ (∃ s ∈ ss, x = s.toList) ∧ gs = [] := by
  induction ss with
  | nil => exact absurd rfl hss
  | cons s ss ih =>
    cases ss with
    | nil => simp [choice, spells_lit_iff]
    | cons s' ss =>
      have hrest := ih (List.cons_ne_nil s' ss)
      have hchoice : choice (s :: s' :: ss) = (lit s <|> choice (s' :: ss)) := rfl
      rw [hchoice, spells_orElse_iff, spells_lit_iff, hrest, ← or_and_right]
      simp only [List.mem_cons, exists_eq_or_imp]

/-- White space, at least one character. -/
theorem of_spells_gap (h : gap.Spells x gs) : x ≠ [] ∧ (∀ c ∈ x, isBlank c = true) ∧ gs = [] := by
  obtain ⟨hlen, hblank, hgs⟩ := h.of_rounds_one
  exact ⟨List.ne_nil_of_length_pos hlen, hblank, hgs⟩

theorem of_spells_blanks (h : blanks.Spells x gs) : (∀ c ∈ x, isBlank c = true) ∧ gs = [] :=
  h.of_rounds_one.2

/-!
What a pattern covers can be taken apart from its end.
-/

theorem Spells.of_append_lit {s : String} (h : (p ++ lit s).Spells x gs) :
    ∃ y, x = y ++ s.toList ∧ p.Spells y gs := by
  obtain ⟨y, z, gs₁, gs₂, rfl, rfl, hp, hs⟩ := spells_append_iff.mp h
  obtain ⟨rfl, rfl⟩ := spells_lit_iff.mp hs
  exact ⟨y, rfl, hp⟩

theorem Spells.of_append_gap (h : (p ++ gap).Spells x gs) :
    ∃ y b, x = y ++ b ∧ b ≠ [] ∧ (∀ c ∈ b, isBlank c = true) ∧ p.Spells y gs := by
  obtain ⟨y, b, gs₁, gs₂, rfl, rfl, hp, hb⟩ := spells_append_iff.mp h
  obtain ⟨hne, hblank, rfl⟩ := of_spells_gap hb
  exact ⟨y, b, rfl, hne, hblank, hp⟩

theorem Spells.of_append_blanks (h : (p ++ blanks).Spells x gs) :
    ∃ y b, x = y ++ b ∧ (∀ c ∈ b, isBlank c = true) ∧ p.Spells y gs := by
  obtain ⟨y, b, gs₁, gs₂, rfl, rfl, hp, hb⟩ := spells_append_iff.mp h
  obtain ⟨hblank, rfl⟩ := of_spells_blanks hb
  exact ⟨y, b, rfl, hblank, hp⟩

theorem Spells.of_append_cap {i : Nat} (h : (p ++ q.cap i).Spells x gs) :
    ∃ y z gs₁ gs₂, x = y ++ z ∧ gs = (i, z) :: (gs₂ ++ gs₁) ∧ q.Spells z gs₂ ∧ p.Spells y gs₁ := by
  obtain ⟨y, z, gs₁, gs₂, rfl, rfl, hp, hz⟩ := spells_append_iff.mp h
  obtain ⟨gs₂, rfl, hq⟩ := spells_cap_iff.mp hz
  exact ⟨y, z, gs₁, gs₂, rfl, rfl, hq, hp⟩

/-- Patterns that stay in place. -/
theorem spells_edge_iff : edge.Spells x gs ↔ x = [] ∧ gs = [] := by
  constructor
  · intro h
    cases h
    exact ⟨rfl, rfl⟩
  · rintro ⟨rfl, rfl⟩
    exact .edge

theorem spells_behind_iff {wanted : Bool} {width : Nat} {body : Pattern} :
    (Pattern.behind wanted width body).Spells x gs ↔ x = [] ∧ gs = [] := by
  constructor
  · intro h
    cases h
    exact ⟨rfl, rfl⟩
  · rintro ⟨rfl, rfl⟩
    exact .behind

theorem spells_notAhead_iff : (notAhead p).Spells x gs ↔ x = [] ∧ gs = [] := by
  constructor
  · intro h
    cases h
    exact ⟨rfl, rfl⟩
  · rintro ⟨rfl, rfl⟩
    exact .notAhead

theorem spells_fresh_iff : fresh.Spells x gs ↔ x = [] ∧ gs = [] := spells_behind_iff

theorem spells_textEnd_iff : textEnd.Spells x gs ↔ x = [] ∧ gs = [] := by
  constructor
  · intro h
    cases h
    exact ⟨rfl, rfl⟩
  · rintro ⟨rfl, rfl⟩
    exact .textEnd

end inversion

end Pattern

end HostScript
