import HostScript.Declaration.Swift
import HostScript.Proofs.Pattern.Longer
import HostScript.Proofs.Pattern.Ways

/-!
# Reading a text and a longer one side by side

A pattern is run on a text and on that text with a space, a brace and more behind it. Both runs go
through the same places until the shorter text is used up; from there on the space and the brace are
all that the longer one has to pass over.
-/

namespace HostScript.Declaration.Swift

open Pattern

/-- A text with brackets that are closed and without a brace, that ends in a character of a name
or in a closing bracket. -/
structure IsClosed (x : Text) : Prop where
  brace : '\x7b' ∉ x
  round : ∀ v, '(' :: v <:+ x → ')' ∈ v
  angle : ∀ v, '<' :: v <:+ x → '>' ∈ v
  last : ∃ u a, x = u ++ [a] ∧ isBlank a = false ∧ a ≠ ':'

/-- The groups that say what a type is hold the same. -/
def GroupsAgree (c c' : Cursor) : Prop := ∀ i ∈ [2, 3, 4], c.group? i = c'.group? i

/-- The same place in a text and in that text with a brace behind it. -/
structure Level (x more : Text) (c c' : Cursor) : Prop where
  suffix : c.after <:+ x
  after : c'.after = c.after ++ ' ' :: '\x7b' :: more
  pos : c.pos + c.after.length = x.length
  pos_eq : c'.pos = c.pos
  groups : GroupsAgree c c'

/-- The end of a text, and the place right in front of the brace behind it. -/
structure Past (x more : Text) (c c' : Cursor) : Prop where
  after : c.after = []
  after_eq : c'.after = '\x7b' :: more
  pos : c.pos = x.length
  pos_eq : c'.pos = x.length + 1
  groups : GroupsAgree c c'

/-- Corresponding places in a text and in that text with a brace behind it. -/
def Alike (x more : Text) (c c' : Cursor) : Prop := Level x more c c' ∨ Past x more c c'

/-- Both or neither succeed, and the groups agree. -/
abbrev Answers : Option Cursor → Option Cursor → Prop := Option.Rel GroupsAgree

/-- Two continuations answer alike from corresponding places at most `n` characters away from the
end of the shorter text. -/
def Follows (x more : Text) (n : Nat) (k k' : Cursor → Option Cursor) : Prop :=
  ∀ c c', Alike x more c c' → c.after.length ≤ n → Answers (k c) (k' c')

/-- A continuation has nothing to go on with at the end of a text. -/
def NeedsMore (k : Cursor → Option Cursor) : Prop := ∀ c, c.after = [] → k c = none

variable {x more : Text} {n : Nat} {k k' : Cursor → Option Cursor} {c c' d d' : Cursor}
variable {s : CharSet} {p : Pattern}

/-! ### Places and answers -/

section Places

theorem Level.advance (h : Level x more c c') {m : Nat} (hm : m ≤ c.after.length) :
    Level x more (c.advance m) (c'.advance m) where
  suffix := (List.drop_suffix m c.after).trans h.suffix
  after := by
    show c'.after.drop m = c.after.drop m ++ _
    rw [h.after, List.drop_append_of_le_length hm]
  pos := by
    show c.pos + m + (c.after.drop m).length = x.length
    rw [List.length_drop, ← h.pos]
    omega
  pos_eq := congrArg (· + m) h.pos_eq
  groups := h.groups

theorem Level.past (h : Level x more c c') (hc : c.after = []) : Past x more c (c'.advance 1) where
  after := hc
  after_eq := by
    show c'.after.drop 1 = _
    rw [h.after, hc]
    rfl
  pos := by
    rw [← h.pos, hc]
    rfl
  pos_eq := by
    show c'.pos + 1 = x.length + 1
    rw [h.pos_eq, ← h.pos, hc]
    rfl
  groups := h.groups

/-- Filling another group makes no difference. -/
theorem GroupsAgree.cons (h : GroupsAgree c c') {i : Nat} (hi : i ∉ [2, 3, 4]) (g g' : Capture) :
    GroupsAgree { c with groups := (i, g) :: c.groups }
      { c' with groups := (i, g') :: c'.groups } := by
  intro j hj
  have hij : (j == i) = false := beq_eq_false_iff_ne.mpr fun heq => hi (heq ▸ hj)
  simpa only [Cursor.group?, List.lookup_cons, hij] using h j hj

/-- Filling a group with the same text keeps the groups the same. -/
theorem GroupsAgree.cons_same (h : GroupsAgree c c') {i pos pos' : Nat} {t : Text} :
    GroupsAgree { c with groups := (i, ⟨pos, t⟩) :: c.groups }
      { c' with groups := (i, ⟨pos', t⟩) :: c'.groups } := by
  intro j hj
  cases hij : j == i with
  | true => simp only [Cursor.group?, List.lookup_cons, hij, Option.map_some]
  | false => simpa only [Cursor.group?, List.lookup_cons, hij] using h j hj

/-- The same text lies between corresponding places. -/
theorem Level.textTo (hc : Level x more c c') (hd : Level x more d d') :
    c.textTo d = c'.textTo d' := by
  have hlength : d.pos - c.pos ≤ c.after.length := by
    have := hc.pos
    have := hd.pos
    omega
  rw [Cursor.textTo, Cursor.textTo, hc.pos_eq, hd.pos_eq, hc.after,
    List.take_append_of_le_length hlength]

/-- Places behind a group that covers the same text in both correspond. -/
theorem Level.grouped (hc : Level x more c c') (hd : Level x more d d') (i : Nat) :
    Level x more { d with groups := (i, ⟨c.pos, c.textTo d⟩) :: d.groups }
      { d' with groups := (i, ⟨c'.pos, c'.textTo d'⟩) :: d'.groups } where
  suffix := hd.suffix
  after := hd.after
  pos := hd.pos
  pos_eq := hd.pos_eq
  groups := by
    rw [hc.textTo hd]
    exact hd.groups.cons_same

theorem orTry_answers {a a' : Option Cursor} {b b' : Unit → Option Cursor} (ha : Answers a a')
    (hb : Answers (b ()) (b' ())) : Answers (Fit.orTry a b) (Fit.orTry a' b') := by
  cases ha with
  | some h => exact .some h
  | none => exact hb

theorem answers_orTry {a a' : Option Cursor} {b : Unit → Option Cursor} (ha : Answers a a')
    (hb : Answers a (b ())) : Answers a (Fit.orTry a' b) := by
  cases ha with
  | some h => exact .some h
  | none => exact hb

theorem answers_of_eq_none {a a' : Option Cursor} (h : a = none) (h' : a' = none) :
    Answers a a' := by
  rw [h, h']
  exact .none

end Places

/-! ### Parts of a pattern -/

section Parts

/-- One of two texts is a prefix in both places or in neither, unless it reaches the space. -/
theorem prefix_append_space_iff {u z : Text} (hu : ' ' ∉ u) :
    u <+: z ++ ' ' :: '\x7b' :: more ↔ u <+: z := by
  refine ⟨fun h => ?_, fun h => h.trans (List.prefix_append ..)⟩
  rcases List.prefix_or_prefix_of_prefix h (List.prefix_append ..) with hz | ⟨v, rfl⟩
  · exact hz
  · rw [List.prefix_append_right_inj] at h
    cases v with
    | nil => rw [List.append_nil]
    | cons a v =>
      obtain ⟨rfl, -⟩ := List.cons_prefix_cons.mp h
      exact absurd (List.mem_append_right z List.mem_cons_self) hu

/-- A text is passed over in both places or in neither. -/
theorem Level.text (h : Level x more c c') {u : Text} (hu : ' ' ∉ u)
    (hk : u <+: c.after → Answers (k (c.advance u.length)) (k' (c'.advance u.length))) :
    Answers ((text u).run k c) ((text u).run k' c') := by
  have hiff : u.isPrefixOf c'.after = u.isPrefixOf c.after := by
    rw [Bool.eq_iff_iff, List.isPrefixOf_iff_prefix, List.isPrefixOf_iff_prefix, h.after,
      prefix_append_space_iff hu]
  rw [run_text, run_text, hiff]
  split
  case isTrue hprefix => exact hk (List.isPrefixOf_iff_prefix.mp hprefix)
  case isFalse => exact .none

/-- Characters that are passed over as long as there are any are the same in both places if a
space is none of them or they stop earlier. -/
theorem Level.star (h : Level x more c c') (hstop : s ' ' = false ∨ ∃ a ∈ c.after, s a = false)
    (hk : ∀ d d', Level x more d d' → d.after <:+ c.after →
      (s ' ' = false ∨ ∃ a ∈ d.after, s a = false) → Answers (k d) (k' d')) :
    Answers ((Pattern.star (.one s)).run k c) ((Pattern.star (.one s)).run k' c') := by
  generalize hz : c.after = z at hk hstop
  induction z generalizing c c' with
  | nil =>
    have hspace : s ' ' = false := by
      rcases hstop with hspace | ⟨a, ha, -⟩
      · exact hspace
      · cases ha
    rw [run_star_one_stop (by rw [hz]; rfl), run_star_one_stop (by rw [h.after, hz]; simpa)]
    exact hk c c' h (by rw [hz]) (Or.inl hspace)
  | cons a z ih =>
    have hafter : c'.after = a :: (z ++ ' ' :: '\x7b' :: more) := by rw [h.after, hz]; rfl
    have hhere : Answers (k c) (k' c') := hk c c' h (by rw [hz]) (by rwa [hz])
    cases ha : s a with
    | false =>
      rw [run_star_one_stop (by rw [hz]; simpa), run_star_one_stop (by rw [hafter]; simpa)]
      exact hhere
    | true =>
      have hnext : (c.advance 1).after = z := by simp [Cursor.advance, hz]
      have hlater : s ' ' = false ∨ ∃ b ∈ z, s b = false := by
        rcases hstop with hspace | ⟨b, hb, hsb⟩
        · exact Or.inl hspace
        · have hne : b ≠ a := fun heq => by rw [heq, ha] at hsb; cases hsb
          exact Or.inr ⟨b, List.mem_of_ne_of_mem hne hb, hsb⟩
      rw [run_star_one_cons hz ha, run_star_one_cons hafter ha]
      refine orTry_answers (ih (h.advance (by simp [hz])) hnext ?_ hlater) hhere
      exact fun d d' hd hsuffix => hk d d' hd (hsuffix.trans (List.suffix_cons a z))

theorem Level.plus (h : Level x more c c') (hspace : s ' ' = false)
    (hk : ∀ d d', Level x more d d' → d.after <:+ c.after → Answers (k d) (k' d')) :
    Answers ((Pattern.plus (.one s)).run k c) ((Pattern.plus (.one s)).run k' c') := by
  rw [run_plus_one, run_plus_one, run_one, run_one]
  cases hz : c.after with
  | nil =>
    rw [h.after, hz, List.nil_append, List.head?_cons, Option.any_some, hspace]
    exact .none
  | cons a z =>
    have hone : 1 ≤ c.after.length := by rw [hz]; exact Nat.succ_pos _
    rw [h.after, hz, List.cons_append, List.head?_cons, List.head?_cons, Option.any_some]
    split
    case isFalse => exact .none
    case isTrue =>
      exact (h.advance hone).star (Or.inl hspace) fun d d' hd hsuffix _ =>
        hk d d' hd (hsuffix.trans (List.drop_suffix ..))

/-- Words to choose from are the same in both places. -/
theorem Level.choice (h : Level x more c c') {ss : List String} (hne : ss ≠ [])
    (hss : ∀ u ∈ ss, ' ' ∉ u.toList)
    (hk : ∀ d d', Level x more d d' → d.after <:+ c.after → Answers (k d) (k' d')) :
    Answers ((Pattern.choice ss).run k c) ((Pattern.choice ss).run k' c') := by
  induction ss with
  | nil => exact absurd rfl hne
  | cons u ss ih =>
    rw [List.forall_mem_cons] at hss
    have hlit : Answers ((lit u).run k c) ((lit u).run k' c') :=
      h.text hss.1 fun hprefix => hk _ _ (h.advance hprefix.length_le) (List.drop_suffix ..)
    cases ss with
    | nil => exact hlit
    | cons w ss =>
      have hrun (k : Cursor → Option Cursor) (c : Cursor) : (Pattern.choice (u :: w :: ss)).run k c =
          Fit.orTry ((lit u).run k c) fun _ => (Pattern.choice (w :: ss)).run k c := rfl
      rw [hrun, hrun]
      exact orTry_answers hlit (ih (List.cons_ne_nil w ss) hss.2)

/-- Characters up to a bracket that is closed are the same in both places. -/
theorem Level.until (h : Level x more c c') {q : Char} (hs : s q = false) (hq : q ∈ c.after)
    (hspace : q ≠ ' ')
    (hk : ∀ d d', Level x more d d' → d.after <:+ c.after → Answers (k d) (k' d')) :
    Answers ((Pattern.star (.one s)).run ((Pattern.text [q]).run k) c)
      ((Pattern.star (.one s)).run ((Pattern.text [q]).run k') c') := by
  refine h.star (Or.inr ⟨q, hq, hs⟩) fun d d' hd hsuffix _ => ?_
  refine hd.text (by simpa using hspace.symm) fun hprefix => ?_
  exact hk _ _ (hd.advance hprefix.length_le) ((List.drop_suffix ..).trans hsuffix)

/-- Characters other than a brace, as few as possible, are the same in both places if they are not
all passed over and what follows accepts the end. -/
theorem Level.plusLazy (h : Level x more c c') (hx : ∀ a ∈ x, s a = true) (hne : c.after ≠ [])
    (hend : ∀ d d', Level x more d d' → d.after = [] → (k d).isSome = true)
    (hk : ∀ d d', Level x more d d' → d.after <:+ c.after → Answers (k d) (k' d')) :
    Answers ((plusLazy (.one s)).run k c) ((plusLazy (.one s)).run k' c') := by
  -- The first success of the shorter run is its end at the latest, so the longer run stops there.
  have hlazy (z : Text) : ∀ d d', d.after = z → Level x more d d' → d.after <:+ c.after →
      Answers ((starLazy (.one s)).run k d) ((starLazy (.one s)).run k' d') := by
    induction z with
    | nil =>
      intro d d' hz hd hsuffix
      obtain ⟨e, he⟩ := Option.isSome_iff_exists.mp (hend d d' hd hz)
      have hhere := hk d d' hd hsuffix
      rw [run_starLazy_of_some he]
      rw [he] at hhere
      cases hke : k' d' with
      | none => rw [hke] at hhere; cases hhere
      | some e' => rw [run_starLazy_of_some hke]; exact hke ▸ hhere
    | cons a z ih =>
      intro d d' hz hd hsuffix
      have hafter : d'.after = a :: (z ++ ' ' :: '\x7b' :: more) := by rw [hd.after, hz]; rfl
      have ha : s a = true := hx a (hd.suffix.subset (by rw [hz]; exact List.mem_cons_self))
      rw [run_starLazy_one_cons hz ha, run_starLazy_one_cons hafter ha]
      refine orTry_answers (hk d d' hd hsuffix) (ih _ _ ?_ (hd.advance (by simp [hz])) ?_)
      · simp [Cursor.advance, hz]
      · exact (List.drop_suffix ..).trans hsuffix
  obtain ⟨a, z, hz⟩ := List.exists_cons_of_ne_nil hne
  have hafter : c'.after = a :: (z ++ ' ' :: '\x7b' :: more) := by rw [h.after, hz]; rfl
  have ha : s a = true := hx a (h.suffix.subset (by rw [hz]; exact List.mem_cons_self))
  rw [run_plusLazy_one_eq, run_plusLazy_one_eq, run_one, run_one, hz, hafter, List.head?_cons,
    List.head?_cons, Option.any_some, if_pos ha, if_pos ha]
  exact hlazy _ _ _ rfl (h.advance (by simp [hz])) (List.drop_suffix ..)

end Parts

/-! ### Parts in front of the end -/

section Follows

/-- A pattern starts with a character that is neither a space nor a brace. -/
def Starts (p : Pattern) : Prop :=
  ∀ t : Text, (∀ a ∈ t.head?, a = ' ' ∨ a = '\x7b') → p.Refuses t

theorem starts_text {a : Char} (ha : a ≠ ' ') (ha' : a ≠ '\x7b') (u : Text) :
    Starts (Pattern.text (a :: u)) := by
  refine fun t ht => refuses_text (fun hhead => ?_) u
  rcases ht a hhead with h | h
  · exact ha h
  · exact ha' h

theorem Starts.append (hp : Starts p) (q : Pattern) : Starts (p ++ q) :=
  fun t ht => (hp t ht).append q

/-- Such a pattern fits in neither place at the end of the shorter text. -/
theorem Starts.answers (hp : Starts p) (h : Alike x more c c') (hc : c.after = []) :
    Answers (p.run k c) (p.run k' c') := by
  refine answers_of_eq_none (hp [] (by simp) k c hc) ?_
  rcases h with h | h
  · refine hp _ ?_ k' c' h.after
    rw [hc]
    simp
  · exact hp _ (by simp) k' c' h.after_eq

theorem Follows.mono {m : Nat} (h : Follows x more n k k') (hm : m ≤ n) : Follows x more m k k' :=
  fun c c' hc hlength => h c c' hc (hlength.trans hm)

/-- Where continuations answer alike they do so behind any part of the text. -/
theorem Follows.level (h : Follows x more n k k') (hc : c.after.length ≤ n) (hd : Level x more d d')
    (hsuffix : d.after <:+ c.after) : Answers (k d) (k' d') :=
  h d d' (Or.inl hd) (hsuffix.length_le.trans hc)

theorem Follows.orElse {q : Pattern} (hp : Follows x more n (p.run k) (p.run k'))
    (hq : Follows x more n (q.run k) (q.run k')) :
    Follows x more n ((p <|> q).run k) ((p <|> q).run k') := by
  intro c c' hc hlength
  rw [run_orElse, run_orElse]
  exact orTry_answers (hp c c' hc hlength) (hq c c' hc hlength)

theorem Starts.orElse {q : Pattern} (hp : Starts p) (hq : Starts q) : Starts (p <|> q) :=
  fun t ht => (hp t ht).orElse (hq t ht)

theorem starts_choice {ss : List String} (hne : ss ≠ [])
    (hss : ∀ u ∈ ss, u.toList ≠ [] ∧ ∀ a ∈ u.toList, a ≠ ' ' ∧ a ≠ '\x7b') :
    Starts (choice ss) := by
  induction ss with
  | nil => exact absurd rfl hne
  | cons u ss ih =>
    rw [List.forall_mem_cons] at hss
    obtain ⟨⟨hu, hchars⟩, hss⟩ := hss
    obtain ⟨a, v, huv⟩ := List.exists_cons_of_ne_nil hu
    obtain ⟨ha, ha'⟩ := hchars a (huv ▸ List.mem_cons_self)
    have hlit : Starts (lit u) := by
      rw [lit, huv]
      exact starts_text ha ha' v
    cases ss with
    | nil => exact hlit
    | cons w ss => exact hlit.orElse (ih (List.cons_ne_nil w ss) hss)

/-- A pattern that starts with something and is the same in both places is so at the end, too. -/
theorem Starts.follows (hp : Starts p) (hlevel : ∀ c c', Level x more c c' → c.after.length ≤ n →
    Answers (p.run k c) (p.run k' c')) : Follows x more n (p.run k) (p.run k') := by
  rintro c c' (hc | hc) hlength
  · exact hlevel c c' hc hlength
  · exact hp.answers (Or.inr hc) hc.after

theorem follows_text {a : Char} {u : Text} (ha : a ≠ '\x7b') (hu : ' ' ∉ a :: u)
    (h : Follows x more n k k') :
    Follows x more n ((text (a :: u)).run k) ((text (a :: u)).run k') :=
  (starts_text (List.ne_of_not_mem_cons hu).symm ha u).follows fun _ _ hc hlength =>
    hc.text hu fun hprefix => h.level hlength (hc.advance hprefix.length_le) (List.drop_suffix ..)

/-- Passing over characters other than a brace, as many as there are, ends in corresponding
places. -/
theorem follows_star (hs : s '\x7b' = false) (h : Follows x more n k k') :
    Follows x more n ((Pattern.star (.one s)).run k) ((Pattern.star (.one s)).run k') := by
  have hpast {c c' : Cursor} (hc : Past x more c c') (hlength : c.after.length ≤ n) :
      Answers (k c) ((Pattern.star (.one s)).run k' c') := by
    rw [run_star_one_stop (by rw [hc.after_eq]; simpa)]
    exact h c c' (Or.inr hc) hlength
  rintro c c' (hc | hc) hlength
  · generalize hz : c.after = z
    induction z generalizing c c' with
    | nil =>
      rw [run_star_one_stop (by rw [hz]; rfl)]
      have hhere : Answers (k c) (k' c') := h c c' (Or.inl hc) hlength
      have hafter : c'.after = ' ' :: '\x7b' :: more := by rw [hc.after, hz]; rfl
      cases hspace : s ' ' with
      | false =>
        rw [run_star_one_stop (by rw [hafter]; simpa)]
        exact hhere
      | true =>
        rw [run_star_one_cons hafter hspace]
        exact answers_orTry (hpast (hc.past hz) hlength) hhere
    | cons a z ih =>
      have hafter : c'.after = a :: (z ++ ' ' :: '\x7b' :: more) := by rw [hc.after, hz]; rfl
      have hhere : Answers (k c) (k' c') := h c c' (Or.inl hc) hlength
      cases ha : s a with
      | false =>
        rw [run_star_one_stop (by rw [hz]; simpa), run_star_one_stop (by rw [hafter]; simpa)]
        exact hhere
      | true =>
        have hnext : (c.advance 1).after = z := by simp [Cursor.advance, hz]
        rw [run_star_one_cons hz ha, run_star_one_cons hafter ha]
        have hone : 1 ≤ c.after.length := by rw [hz]; exact Nat.succ_pos _
        refine orTry_answers (ih _ _ (hc.advance hone) ?_ hnext) hhere
        exact (List.drop_suffix ..).length_le.trans hlength
  · rw [run_star_one_stop (by rw [hc.after]; rfl)]
    exact hpast hc hlength

/-- White space is passed over in corresponding places if more is needed behind it; it takes the
places closer to the end. -/
theorem follows_gap (hk : NeedsMore k) (h : Follows x more n k k') :
    Follows x more (n + 1) (gap.run k) (gap.run k') := by
  have hbrace : isBlank '\x7b' = false := by decide
  have hspace : isBlank ' ' = true := by decide
  have hstar : Follows x more n (blanks.run k) (blanks.run k') := follows_star hbrace h
  have hgap (k : Cursor → Option Cursor) (c : Cursor) :
      gap.run k c = (Pattern.one isBlank).run (blanks.run k) c := run_plus_one ..
  rintro c c' (hc | hc) hlength
  · rw [hgap, hgap, run_one, run_one]
    cases hz : c.after with
    | nil =>
      have hafter : c'.after = ' ' :: '\x7b' :: more := by rw [hc.after, hz]; rfl
      have hpast := hc.past hz
      have hhere := h c _ (Or.inr hpast) (by rw [hz]; exact Nat.zero_le n)
      have hstop : blanks.run k' (c'.advance 1) = k' (c'.advance 1) :=
        run_star_one_stop (by rw [hpast.after_eq]; simpa)
      rw [hafter, List.head?_cons, Option.any_some, if_pos hspace, hstop]
      rwa [hk c hz] at hhere
    | cons a z =>
      have hone : 1 ≤ c.after.length := by rw [hz]; exact Nat.succ_pos _
      rw [hc.after, hz, List.cons_append, List.head?_cons, List.head?_cons, Option.any_some]
      split
      case isFalse => exact .none
      case isTrue =>
        refine hstar _ _ (Or.inl (hc.advance hone)) ?_
        show (c.after.drop 1).length ≤ n
        rw [List.length_drop]
        exact Nat.sub_le_of_le_add hlength
  · refine answers_of_eq_none ?_ ?_
    · rw [hgap, run_one, hc.after]
      rfl
    · rw [hgap, run_one, hc.after_eq, List.head?_cons, Option.any_some, hbrace]
      rfl

theorem starts_plus (hspace : s ' ' = false) (hbrace : s '\x7b' = false) :
    Starts (plus (.one s)) := by
  intro t ht k c hc
  rw [run_plus_one, run_one, hc]
  cases t with
  | nil => rfl
  | cons a t =>
    have ha : s a = false := by
      rcases ht a rfl with rfl | rfl
      · exact hspace
      · exact hbrace
    rw [List.head?_cons, Option.any_some, ha, if_neg Bool.false_ne_true]

/-- A name is the same in corresponding places. -/
theorem follows_plus (hspace : s ' ' = false) (hbrace : s '\x7b' = false)
    (h : Follows x more n k k') :
    Follows x more n ((plus (.one s)).run k) ((plus (.one s)).run k') :=
  (starts_plus hspace hbrace).follows fun _ _ hc hlength => hc.plus hspace fun _ _ hd hsuffix =>
    h.level hlength hd hsuffix

/-- Behind a place, the continuations of an optional part or a round answer alike. -/
theorem Follows.moved (h : Follows x more n k k') (hc : Level x more c c') (hne : c.after ≠ []) :
    Follows x more n (fun d => if d.pos == c.pos then none else k d)
      (fun d => if d.pos == c'.pos then none else k' d) := by
  have hlt : c.pos < x.length := by
    have := hc.pos
    have := List.length_pos_of_ne_nil hne
    omega
  rintro d d' (hd | hd) hlength
  · simp only [hd.pos_eq, hc.pos_eq]
    split
    · exact .none
    · exact h d d' (Or.inl hd) hlength
  · have hpos : (d.pos == c.pos) = false := by
      rw [hd.pos]
      exact beq_eq_false_iff_ne.mpr hlt.ne'
    have hpos' : (d'.pos == c'.pos) = false := by
      rw [hd.pos_eq, hc.pos_eq]
      exact beq_eq_false_iff_ne.mpr (hlt.trans (Nat.lt_succ_self _)).ne'
    simp only [hpos, hpos', Bool.false_eq_true, if_false]
    exact h d d' (Or.inr hd) hlength

/-- An optional part that is the same in corresponding places. -/
theorem follows_opt (hp : Starts p)
    (hrun : ∀ c c', Level x more c c' → c.after.length ≤ n → c.after ≠ [] →
      Answers (p.run (fun d => if d.pos == c.pos then none else k d) c)
        (p.run (fun d => if d.pos == c'.pos then none else k' d) c'))
    (h : Follows x more n k k') : Follows x more n (p.opt.run k) (p.opt.run k') := by
  intro c c' hc hlength
  have hopt (k : Cursor → Option Cursor) (c : Cursor) : p.opt.run k c =
      Fit.orTry (p.run (fun d => if d.pos == c.pos then none else k d) c) fun _ => k c := rfl
  rw [hopt, hopt]
  refine orTry_answers ?_ (h c c' hc hlength)
  by_cases hne : c.after = []
  · exact hp.answers hc hne
  · rcases hc with hc | hc
    · exact hrun c c' hc hlength hne
    · exact absurd hc.after hne

/-- Further rounds of a part that takes the places closer to the end. -/
theorem follows_furtherRounds {p : Pattern} (hp : Starts p)
    (hrun : ∀ m k k', NeedsMore k → Follows x more m k k' →
      Follows x more (m + 1) (p.run k) (p.run k'))
    (hk : NeedsMore k) (h : Follows x more n k k') :
    Follows x more n (p.star.run k) (p.star.run k') := by
  have hnil (spare : Text) {c : Cursor} (hc : c.after = []) :
      Fit.furtherRounds p.run true spare k c = k c := by
    cases spare with
    | nil => rfl
    | cons a spare =>
      rw [Fit.furtherRounds, if_pos rfl, hp [] (by simp) _ c hc]
      rfl
  suffices hrounds : ∀ (spare' spare : Text) c c', Alike x more c c' → c.after.length ≤ n →
      c.after.length ≤ spare.length → c'.after.length ≤ spare'.length →
        Answers (Fit.furtherRounds p.run true spare k c)
          (Fit.furtherRounds p.run true spare' k' c') from
    fun c c' hc hlength => hrounds c'.after c.after c c' hc hlength le_rfl le_rfl
  intro spare'
  induction spare' with
  | nil =>
    rintro spare c c' (hc | hc) - - hspare
    · simp [hc.after] at hspare
    · simp [hc.after_eq] at hspare
  | cons b spare' ih =>
    intro spare c c' hc hlength hspare hspare'
    by_cases hne : c.after = []
    · rw [hnil spare hne, Fit.furtherRounds, if_pos rfl]
      have hround : Answers (p.run (fun _ => none) c) (p.run (fun d =>
          if d.pos == c'.pos then none else Fit.furtherRounds p.run true spare' k' d) c') :=
        hp.answers hc hne
      rw [hp [] (by simp) _ c hne] at hround
      generalize hround' : p.run _ c' = round at hround ⊢
      cases hround
      exact h c c' hc hlength
    · rcases hc with hc | hc
      · cases spare with
        | nil => exact absurd (List.length_eq_zero_iff.mp (Nat.le_zero.mp hspare)) hne
        | cons a spare =>
          obtain ⟨m, hm⟩ : ∃ m, c.after.length = m + 1 :=
            Nat.exists_eq_add_one_of_ne_zero (mt List.length_eq_zero_iff.mp hne)
          have hlength' := congrArg List.length hc.after
          simp only [List.length_append, List.length_cons] at hlength' hspare hspare'
          have hfurther : Follows x more m (Fit.furtherRounds p.run true spare k)
              (Fit.furtherRounds p.run true spare' k') := by
            intro d d' hd hdm
            refine ih spare d d' hd (by omega) (by omega) ?_
            rcases hd with hd | hd
            · have := congrArg List.length hd.after
              simp only [List.length_append, List.length_cons] at this
              omega
            · have := congrArg List.length hd.after_eq
              simp only [List.length_cons] at this
              omega
          have hneeds : NeedsMore fun d => if d.pos == c.pos then none else
              Fit.furtherRounds p.run true spare k d := by
            intro d hd
            simp only [hnil spare hd, hk d hd, ite_self]
          rw [Fit.furtherRounds, Fit.furtherRounds, if_pos rfl, if_pos rfl]
          refine orTry_answers ?_ (h c c' (Or.inl hc) hlength)
          exact hrun m _ _ hneeds (hfurther.moved hc hne) c c' (Or.inl hc) (by omega)
      · exact absurd hc.after hne

end Follows

end HostScript.Declaration.Swift
