import HostScript.Proofs.Declaration.SideBySide

/-!
# The head of a type and the brace behind it

The head of a type is read the same whether its line ends there or a brace follows, since the parts
of its pattern read both alike.
-/

namespace HostScript.Declaration.Swift

open Pattern

variable {x more : Text} {n : Nat} {k k' : Cursor → Option Cursor} {c c' d d' : Cursor}
variable {s : CharSet} {p : Pattern}

/-! ### The parts of a head -/

section Head

/-- What is left of the text holds more than white space. -/
theorem IsClosed.exists_solid (hx : IsClosed x) {z : Text} (hz : z <:+ x) (hne : z ≠ []) :
    ∃ a ∈ z, isBlank a = false := by
  obtain ⟨u, a, rfl, ha, -⟩ := hx.last
  obtain ⟨v, hv⟩ := hz
  refine ⟨z.getLast hne, List.getLast_mem hne, ?_⟩
  have hlast : (u ++ [a]).getLast (by simp) = z.getLast hne := by
    simp only [← hv, List.getLast_append_of_ne_nil _ hne]
  rw [← hlast, List.getLast_concat]
  exact ha

/-- How the head of a type ends: with its line, or with a brace and anything behind it. -/
def headEnd : Pattern := (cap 5 ("\x7b" ++ any.star)).opt ++ textEnd

/-- White space at the end of a line is passed over, and so are white space and a brace. -/
theorem exists_run_headEnd {b : Text} (hb : ∀ a ∈ b, isBlank a = true) (hmore : '\n' ∉ more)
    (hafter : c.after = b ∨ c.after = b ++ '\x7b' :: more) :
    ∃ e, (blanks ++ headEnd).run some c = some e ∧ GroupsAgree c e := by
  rcases hafter with hafter | hafter
  · have hrefuses : (cap 5 (lit "\x7b" ++ any.star)).Refuses [] := fun _ c hc =>
      (refuses_text (by simp) []).append _ _ c hc
    have htakes := (takes_star hb rfl).append ((takes_opt_nil hrefuses).append takes_textEnd)
    exact ⟨_, htakes some c _ (by simpa using hafter) rfl, fun i _ => rfl⟩
  · have hbrace : isBlank '\x7b' = false := by decide
    have hany : any.star.Takes more [] noGroups :=
      takes_star (fun a ha => bne_iff_ne.mpr fun heq => hmore (heq ▸ ha)) rfl
    have hopt := (((takes_text ['\x7b'] (more ++ [])).append hany).cap 5).opt (by simp)
    have htakes := (takes_star hb (by simpa using hbrace)).append (hopt.append takes_textEnd)
    refine ⟨_, htakes some c _ (by simpa using hafter) rfl, fun i hi => ?_⟩
    have hfive : (i == 5) = false := by
      simp only [List.mem_cons, List.not_mem_nil, or_false] at hi
      rcases hi with rfl | rfl | rfl <;> rfl
    simp [Cursor.group?, Cursor.behind, noGroups, hfive, List.lookup_cons]

/-- Anything else is not. -/
theorem run_headEnd_eq_none {z y : Text} (hz : ∃ a ∈ z, isBlank a = false) (hbrace : '\x7b' ∉ z)
    (hafter : c.after = z ++ y) : (blanks ++ headEnd).run some c = none := by
  rw [← Option.not_isSome_iff_eq_none, run_seq]
  intro hsome
  obtain ⟨b, hb, hblank, hrun⟩ := isSome_run_star_one_iff.mp hsome
  obtain ⟨a, ha, hsolid⟩ := hz
  rw [hafter] at hb
  obtain ⟨z, rfl⟩ : b <+: z := by
    rcases List.prefix_or_prefix_of_prefix hb (List.prefix_append z y) with h | h
    · exact h
    · exact absurd (hblank a (h.subset ha)) (by simp [hsolid])
  have ha : a ∈ z := (List.mem_append.mp ha).resolve_left fun h => by
    simp [hblank a h] at hsolid
  have hrest : (c.advance b.length).after = z ++ y := by simp [Cursor.advance, hafter]
  obtain ⟨a', z, rfl⟩ := List.exists_cons_of_ne_nil (List.ne_nil_of_mem ha)
  rw [headEnd, run_seq, isSome_run_opt_iff] at hrun
  rcases hrun with hrun | hrun
  · have hprefix : ['\x7b'] <+: (c.advance b.length).after := (isSome_run_text_iff.mp hrun).1
    rw [hrest] at hprefix
    obtain ⟨rfl, -⟩ := List.cons_prefix_cons.mp hprefix
    exact hbrace (List.mem_append_right b List.mem_cons_self)
  · have honEnd : textEnd.run some (c.advance b.length) =
        if (c.advance b.length).onEnd then some (c.advance b.length) else none := rfl
    rw [honEnd, Cursor.onEnd, hrest] at hrun
    split at hrun
    case isFalse => cases hrun
    case isTrue hend =>
      have hend : a' :: (z ++ y) = ['\n'] := by simpa using hend
      obtain ⟨rfl, hnil⟩ := List.cons.inj hend
      rw [(List.append_eq_nil_iff.mp hnil).1, List.mem_singleton] at ha
      rw [ha] at hsolid
      exact absurd hsolid (by decide)

/-- A head ends in both places or in neither. -/
theorem IsClosed.follows_headEnd (hx : IsClosed x) (hmore : '\n' ∉ more) :
    Follows x more n ((blanks ++ headEnd).run some) ((blanks ++ headEnd).run some) := by
  have hsome {c c' : Cursor} {b b' : Text} (hb : ∀ a ∈ b, isBlank a = true)
      (hb' : ∀ a ∈ b', isBlank a = true) (hc : c.after = b) (hc' : c'.after = b' ++ '\x7b' :: more)
      (hgroups : GroupsAgree c c') :
      Answers ((blanks ++ headEnd).run some c) ((blanks ++ headEnd).run some c') := by
    obtain ⟨e, he, hg⟩ := exists_run_headEnd hb hmore (Or.inl hc)
    obtain ⟨e', he', hg'⟩ := exists_run_headEnd hb' hmore (Or.inr hc')
    rw [he, he']
    exact .some fun i hi => (hg i hi).symm.trans ((hgroups i hi).trans (hg' i hi))
  rintro c c' (hc | hc) -
  · by_cases hsolid : ∃ a ∈ c.after, isBlank a = false
    · have hbrace : '\x7b' ∉ c.after := fun h => hx.brace (hc.suffix.subset h)
      exact answers_of_eq_none
        (run_headEnd_eq_none hsolid hbrace (List.append_nil _).symm)
        (run_headEnd_eq_none hsolid hbrace hc.after)
    · have hblank : ∀ a ∈ c.after, isBlank a = true := by simpa using hsolid
      have hafter : c'.after = (c.after ++ [' ']) ++ '\x7b' :: more := by
        rw [hc.after, List.append_assoc]
        rfl
      refine hsome hblank ?_ rfl hafter hc.groups
      exact List.forall_mem_append.mpr ⟨hblank, List.forall_mem_singleton.mpr (by decide)⟩
  · have hnil : ∀ a ∈ ([] : Text), isBlank a = true := by simp
    exact hsome hnil hnil hc.after hc.after_eq hc.groups

/-- Where a part of a head ends, the rest of the head accepts the end of the line. -/
def AcceptsEnd (k : Cursor → Option Cursor) : Prop := ∀ c, c.after = [] → (k c).isSome = true

theorem acceptsEnd_headEnd : AcceptsEnd ((blanks ++ headEnd).run some) := by
  intro c hc
  obtain ⟨e, he, -⟩ := exists_run_headEnd (b := []) (by simp) (List.not_mem_nil : '\n' ∉ ([] : Text)) (Or.inl hc)
  rw [he]
  rfl

theorem AcceptsEnd.blanks (hk : AcceptsEnd k) : AcceptsEnd (blanks.run k) := by
  intro c hc
  have hstop : Pattern.blanks.run k c = k c := run_star_one_stop (by rw [hc]; rfl)
  rw [hstop]
  exact hk c hc

theorem AcceptsEnd.opt (hk : AcceptsEnd k) (p : Pattern) : AcceptsEnd (p.opt.run k) :=
  fun c hc => isSome_run_opt_iff.mpr (Or.inr (hk c hc))

theorem IsClosed.outside_brace (hx : IsClosed x) : ∀ a ∈ x, outside (among "\x7b") a = true := by
  intro a ha
  have hne : a ≠ '\x7b' := fun heq => hx.brace (heq ▸ ha)
  simp [outside, among, hne]

theorem Level.pos_lt (hc : Level x more c c') (hne : c.after ≠ []) : c.pos < x.length := by
  have := hc.pos
  have := List.length_pos_of_ne_nil hne
  omega

/-- Behind an optional part, too, the rest of the head accepts the end of the line. -/
theorem AcceptsEnd.moved (hk : AcceptsEnd k) (hc : Level x more c c') (hne : c.after ≠ [])
    (hd : Level x more d d') (hend : d.after = []) :
    (if d.pos == c.pos then none else k d).isSome = true := by
  have hpos : d.pos = x.length := by
    rw [← hd.pos, hend]
    rfl
  have hmoved : (d.pos == c.pos) = false := beq_eq_false_iff_ne.mpr (hpos ▸ (hc.pos_lt hne).ne')
  rw [hmoved, if_neg Bool.false_ne_true]
  exact hk d hend

/-- What a generic declaration is constrained by. -/
def wherePart : Pattern := ("where" ++ gap ++ (noneOf (among "\x7b")).plusLazy).opt

theorem IsClosed.follows_wherePart (hx : IsClosed x) (hk : AcceptsEnd k)
    (h : Follows x more n k k') : Follows x more n (wherePart.run k) (wherePart.run k') := by
  have hstarts : Starts (lit "where" ++ gap ++ (noneOf (among "\x7b")).plusLazy) :=
    ((starts_text (by decide) (by decide) _).append _).append _
  refine follows_opt hstarts (fun c c' hc hlength hne => ?_) h
  refine hc.text (u := "where".toList) (by decide) fun hprefix => ?_
  have hmoved := h.moved hc hne
  have hd := hc.advance hprefix.length_le
  have hsuffix : (c.advance "where".toList.length).after <:+ c.after := List.drop_suffix ..
  generalize c.advance "where".toList.length = d, c'.advance "where".toList.length = d' at hd hsuffix ⊢
  have hgap (k : Cursor → Option Cursor) (c : Cursor) :
      gap.run k c = (Pattern.one isBlank).run (Pattern.blanks.run k) c := run_plus_one ..
  rw [hgap, hgap, run_one, run_one]
  cases hz : d.after with
  | nil =>
    -- The space in front of the brace can be passed over, but nothing is left to be constrained.
    have hpast := hd.past hz
    have hspace : isBlank ' ' = true := by decide
    have hbrace : isBlank '\x7b' = false := by decide
    have hstop (k : Cursor → Option Cursor) :
        Pattern.blanks.run k (d'.advance 1) = k (d'.advance 1) :=
      run_star_one_stop (by rw [hpast.after_eq]; simpa)
    rw [hd.after, hz, List.nil_append, List.head?_cons, Option.any_some, if_pos hspace, hstop,
      noneOf, run_plusLazy_one_eq, run_one, hpast.after_eq]
    exact .none
  | cons a z =>
    rw [hd.after, hz, List.cons_append, List.head?_cons, List.head?_cons, Option.any_some]
    split
    case isFalse => exact .none
    case isTrue ha =>
      have hone : 1 ≤ d.after.length := by rw [hz]; exact Nat.succ_pos _
      obtain ⟨b, hb, hsolid⟩ := hx.exists_solid hd.suffix (by rw [hz]; exact List.cons_ne_nil a z)
      have hb : b ∈ (d.advance 1).after := by
        rw [hz] at hb
        have hb : b ∈ z := List.mem_of_ne_of_mem (fun heq => by simp [heq, ha] at hsolid) hb
        simpa [Cursor.advance, hz] using hb
      refine (hd.advance hone).star (Or.inr ⟨b, hb, hsolid⟩) fun e e' he hsuffix' hstop => ?_
      have hne' : e.after ≠ [] := by
        rcases hstop with hstop | ⟨b, hb, -⟩
        · exact absurd hstop (by decide)
        · exact List.ne_nil_of_mem hb
      refine he.plusLazy hx.outside_brace hne' (fun _ _ => hk.moved hc hne) fun f f' hf hsuffix'' => ?_
      exact hmoved.level hlength hf
        (((hsuffix''.trans hsuffix').trans (List.drop_suffix ..)).trans hsuffix)

/-- What a type inherits from. -/
def inheritsPart : Pattern := (":" ++ blanks ++ cap 4 (noneOf (among "\x7b")).plusLazy).opt

theorem IsClosed.follows_inheritsPart (hx : IsClosed x) (hk : AcceptsEnd k)
    (h : Follows x more n k k') : Follows x more n (inheritsPart.run k) (inheritsPart.run k') := by
  have hstarts : Starts (lit ":" ++ blanks ++ cap 4 (noneOf (among "\x7b")).plusLazy) :=
    ((starts_text (by decide) (by decide) _).append _).append _
  refine follows_opt hstarts (fun c c' hc hlength hne => ?_) h
  refine hc.text (u := [':']) (by decide) fun hprefix => ?_
  have hmoved := h.moved hc hne
  have hd := hc.advance hprefix.length_le
  have hsuffix : (c.advance 1).after <:+ c.after := List.drop_suffix ..
  have hdne : (c.advance 1).after ≠ [] := by
    intro hnil
    obtain ⟨z, hz⟩ := hprefix
    have hz : c.after = [':'] := by
      have hnil : c.after.drop 1 = [] := hnil
      rw [← hz] at hnil ⊢
      exact congrArg (':' :: ·) hnil
    obtain ⟨u, a, rfl, -, ha⟩ := hx.last
    obtain ⟨v, hv⟩ := hc.suffix
    rw [hz] at hv
    exact ha (by simpa using (congrArg List.getLast? hv).symm)
  obtain ⟨b, hb, hsolid⟩ := hx.exists_solid hd.suffix hdne
  refine hd.star (Or.inr ⟨b, hb, hsolid⟩) fun e e' he hsuffix' hstop => ?_
  have hne' : e.after ≠ [] := by
    rcases hstop with hstop | ⟨b, hb, -⟩
    · exact absurd hstop (by decide)
    · exact List.ne_nil_of_mem hb
  refine he.plusLazy hx.outside_brace hne' (fun f f' hf hend => ?_) fun f f' hf hsuffix'' => ?_
  · exact hk.moved hc hne (he.grouped hf 4) hend
  · exact hmoved.level hlength (he.grouped hf 4) ((hsuffix''.trans hsuffix').trans hsuffix)

/-- Something in brackets that are closed. -/
theorem follows_bracketed {opener closer : Char} (ho : opener ≠ ' ') (ho' : opener ≠ '\x7b')
    (hc : closer ≠ ' ') (hs : s closer = false)
    (hclosed : ∀ v, opener :: v <:+ x → closer ∈ v) (h : Follows x more n k k') :
    Follows x more n ((text [opener] ++ Pattern.star (.one s) ++ text [closer]).opt.run k)
      ((text [opener] ++ Pattern.star (.one s) ++ text [closer]).opt.run k') := by
  have hstarts : Starts (text [opener] ++ Pattern.star (.one s) ++ text [closer]) :=
    ((starts_text ho ho' []).append _).append _
  refine follows_opt hstarts (fun c c' hlevel hlength hne => ?_) h
  refine hlevel.text (u := [opener]) (by simpa using ho.symm) fun hprefix => ?_
  have hd := hlevel.advance hprefix.length_le
  obtain ⟨v, hv⟩ := hprefix
  have hafter : (c.advance 1).after = v := by
    show c.after.drop 1 = v
    rw [← hv]
    rfl
  have hmem : closer ∈ (c.advance 1).after := by
    rw [hafter]
    exact hclosed v (by rw [← List.singleton_append, hv]; exact hlevel.suffix)
  exact hd.until hs hmem hc fun d d' hdd hsuffix => (h.moved hlevel hne).level hlength hdd
    (hsuffix.trans (List.drop_suffix ..))

theorem IsClosed.follows_genericPart (hx : IsClosed x) (h : Follows x more n k k') :
    Follows x more n (genericPart.run k) (genericPart.run k') :=
  follows_bracketed (by decide) (by decide) (by decide) (by decide) hx.angle h

/-- White space, if there is any. -/
theorem follows_blanks (h : Follows x more n k k') :
    Follows x more n (blanks.run k) (blanks.run k') := follows_star (by decide) h

theorem starts_dotted (i : Nat) : Starts (cap i dotted) :=
  fun t ht _ c hc => starts_plus (by decide) (by decide) t ht _ c hc

/-- The name of a type. -/
theorem follows_dotted (h : Follows x more n k k') (i : Nat) :
    Follows x more n ((cap i dotted).run k) ((cap i dotted).run k') :=
  (starts_dotted i).follows fun _ _ hc hlength => hc.plus (by decide) fun _ _ hd hsuffix =>
    h.level hlength (hc.grouped hd i) hsuffix

/-- The kinds of types. -/
def kindWords : List String := ["class", "struct", "enum", "protocol", "extension"]

theorem starts_kind (i : Nat) : Starts (cap i (choice kindWords)) :=
  fun t ht _ c hc => starts_choice (by decide) (by decide) t ht _ c hc

/-- The word for the kind of a type. -/
theorem follows_kind (h : Follows x more n k k') (i : Nat) :
    Follows x more n ((cap i (choice kindWords)).run k) ((cap i (choice kindWords)).run k') :=
  (starts_kind i).follows fun _ _ hc hlength => hc.choice (by decide) (by decide)
    fun _ _ hd hsuffix => h.level hlength (hc.grouped hd i) hsuffix

/-- A group that does not say what a type is. -/
theorem follows_cap {i : Nat} (hi : i ∉ [2, 3, 4]) (hk : NeedsMore k)
    (hp : ∀ k k', NeedsMore k → Follows x more n k k' → Follows x more n (p.run k) (p.run k'))
    (h : Follows x more n k k') : Follows x more n ((cap i p).run k) ((cap i p).run k') := by
  intro c c' hc hlength
  have hrun (k : Cursor → Option Cursor) (c : Cursor) : (cap i p).run k c =
      p.run (fun d => k { d with groups := (i, ⟨c.pos, c.textTo d⟩) :: d.groups }) c := rfl
  have hneeds : NeedsMore fun d => k { d with groups := (i, ⟨c.pos, c.textTo d⟩) :: d.groups } :=
    fun _ hd => hk _ hd
  rw [hrun, hrun]
  refine hp _ _ hneeds (fun d d' hd hlength => ?_) c c' hc hlength
  refine h _ _ (hd.imp (fun hd => ?_) fun hd => ?_) hlength
  · exact ⟨hd.suffix, hd.after, hd.pos, hd.pos_eq, hd.groups.cons hi _ _⟩
  · exact ⟨hd.after, hd.after_eq, hd.pos, hd.pos_eq, hd.groups.cons hi _ _⟩

/-- A modifier. -/
def modifierWords : List String :=
  ["public", "private", "internal", "fileprivate", "open", "final", "override", "required",
    "convenience", "mutating", "nonmutating", "static", "class", "lazy", "weak", "unowned",
    "indirect", "dynamic"]

/-- An attribute, with what stands in parentheses behind it. -/
def attributePart : Pattern := "@" ++ name ++ (text ['('] ++ Pattern.star (noneOf (among ")")) ++ text [')']).opt

theorem modifiers_eq : modifiers = ((choice modifierWords <|> attributePart) ++ gap).star := rfl

theorem starts_modifier : Starts (choice modifierWords <|> attributePart) :=
  (starts_choice (by decide) (by decide)).orElse
    (((starts_text (by decide) (by decide) _).append _).append _)

theorem IsClosed.follows_modifiers (hx : IsClosed x) (hk : NeedsMore k)
    (h : Follows x more n k k') : Follows x more n (modifiers.run k) (modifiers.run k') := by
  rw [modifiers_eq]
  refine follows_furtherRounds (starts_modifier.append _) (fun m k k' hk h => ?_) hk h
  have hgap := follows_gap hk h
  have hword : Follows x more (m + 1) ((choice modifierWords).run (gap.run k))
      ((choice modifierWords).run (gap.run k')) :=
    (starts_choice (by decide) (by decide)).follows fun c c' hc hlength =>
      hc.choice (by decide) (by decide) fun d d' hd hsuffix => hgap.level hlength hd hsuffix
  have hparentheses : Follows x more (m + 1)
      ((text ['('] ++ Pattern.star (noneOf (among ")")) ++ text [')']).opt.run (gap.run k))
      ((text ['('] ++ Pattern.star (noneOf (among ")")) ++ text [')']).opt.run (gap.run k')) :=
    follows_bracketed (by decide) (by decide) (by decide) (by decide) hx.round hgap
  have hattribute : Follows x more (m + 1) (attributePart.run (gap.run k))
      (attributePart.run (gap.run k')) :=
    follows_text (by decide) (by decide) (follows_plus (by decide) (by decide) hparentheses)
  exact Follows.orElse hword hattribute

theorem run_typeHead (k : Cursor → Option Cursor) : typeHead.run k =
    (cap 1 modifiers).run ((cap 2 (choice kindWords)).run (gap.run ((cap 3 dotted).run
      (blanks.run (genericPart.run (blanks.run (inheritsPart.run (blanks.run (wherePart.run
        ((blanks ++ headEnd).run k)))))))))) := rfl

theorem level_start (x more : Text) :
    Level x more (Cursor.atOffset x 0) (Cursor.atOffset (x ++ ' ' :: '\x7b' :: more) 0) where
  suffix := List.suffix_refl x
  after := rfl
  pos := by simp [Cursor.atOffset]
  pos_eq := by simp [Cursor.atOffset]
  groups _ _ := rfl

/-- The head of a type is read the same whether its line ends there or a brace follows. -/
theorem IsClosed.match?_typeHead (hx : IsClosed x) (hmore : '\n' ∉ more) :
    Option.Rel (fun f f' : Match => ∀ i ∈ [2, 3, 4], f.group? i = f'.group? i)
      (typeHead.match? x) (typeHead.match? (x ++ ' ' :: '\x7b' :: more)) := by
  -- From the end of the pattern to its start, what is left of it answers alike in both places.
  have hend (n : Nat) := hx.follows_headEnd (n := n) hmore
  have hwhere (n : Nat) := hx.follows_wherePart acceptsEnd_headEnd (hend n)
  have haccepts : AcceptsEnd (blanks.run (wherePart.run ((blanks ++ headEnd).run some))) :=
    (acceptsEnd_headEnd.opt _).blanks
  have hinherits (n : Nat) := hx.follows_inheritsPart haccepts (follows_blanks (hwhere n))
  have hgeneric (n : Nat) := hx.follows_genericPart (follows_blanks (hinherits n))
  have hname (n : Nat) := follows_dotted (follows_blanks (hgeneric n)) 3
  have hgap := follows_gap (starts_dotted 3 [] (by simp) _) (hname x.length)
  have hkind := follows_kind (hgap.mono (Nat.le_succ _)) 2
  have hhead : Follows x more x.length (typeHead.run some) (typeHead.run some) := by
    rw [run_typeHead]
    exact follows_cap (by decide) (starts_kind 2 [] (by simp) _)
      (fun _ _ => hx.follows_modifiers) hkind
  have hanswers := hhead _ _ (Or.inl (level_start x more)) (by simp [Cursor.atOffset])
  have hmap {a a' : Option Cursor} (h : Answers a a') {t t' : Text} {c c' : Cursor} :
      Option.Rel (fun f f' : Match => ∀ i ∈ [2, 3, 4], f.group? i = f'.group? i)
        (a.map (Match.ofCursors t c)) (a'.map (Match.ofCursors t' c')) := by
    cases h with
    | none => exact .none
    | some hgroups => exact .some hgroups
  exact hmap hanswers

/-- Without a modifier a declaration starts with its keyword. -/
theorem refuses_modified {q : Pattern} {t : Text} (hat : t.head? ≠ some '@')
    (hwords : ∀ u ∈ modifierWords, ¬ u.toList <+: t) (hq : q.Refuses t) :
    (cap 1 modifiers ++ q).Refuses t := by
  intro k c hc
  have hmodifier : ((choice modifierWords <|> attributePart) ++ gap).Refuses c.after :=
    hc ▸ ((refuses_choice (by decide) hwords).orElse
      (((refuses_text hat []).append _).append _)).append _
  have hrun : (cap 1 modifiers ++ q).run k c = modifiers.run
      (fun d => q.run k { d with groups := (1, ⟨c.pos, c.textTo d⟩) :: d.groups }) c := rfl
  rw [hrun, modifiers_eq, hmodifier.run_star _ rfl]
  exact hq k _ hc

theorem refuses_typeHead {t : Text} (hat : t.head? ≠ some '@')
    (hwords : ∀ u ∈ modifierWords ++ kindWords, ¬ u.toList <+: t) : typeHead.Refuses t := by
  intro k c hc
  have hkind : (cap 2 (choice kindWords)).Refuses t := fun _ c hc =>
    refuses_choice (by decide) (fun u hu => hwords u (List.mem_append_right _ hu)) _ c hc
  rw [run_typeHead]
  exact refuses_modified hat (fun u hu => hwords u (List.mem_append_left _ hu)) hkind _ c hc

/-- An import is no type. -/
theorem match?_importHead_of_typeHead {t : Text} (h : typeHead.fits t = true) :
    importHead.match? t = none := by
  rw [Option.eq_none_iff_forall_ne_some]
  intro f hf
  obtain ⟨v, rfl⟩ : ∃ v, t = 'i' :: 'm' :: v := by
    obtain ⟨y, rest, gs, rfl, hy, -, -⟩ := spells_of_match? hf
    obtain ⟨y, _, _, _, rfl, -, hy, -⟩ := spells_append_iff.mp hy
    obtain ⟨y, _, _, _, rfl, -, hy, -⟩ := spells_append_iff.mp hy
    obtain ⟨y, _, _, _, rfl, -, hy, -⟩ := spells_append_iff.mp hy
    obtain ⟨rfl, -⟩ := spells_lit_iff.mp hy
    exact ⟨_, rfl⟩
  have hwords : ∀ u ∈ modifierWords ++ kindWords, ¬ u.toList.take 2 <+: ['i', 'm'] := by decide
  have hat : ('i' :: 'm' :: v).head? ≠ some '@' := fun heq => absurd (Option.some.inj heq) (by decide)
  have hrefuses : typeHead.Refuses ('i' :: 'm' :: v) :=
    refuses_typeHead hat fun u hu hp => hwords u hu (hp.take 2)
  rw [fits, hrefuses.match?_eq_none] at h
  cases h

/-- Something visible other than a brace, as every declaration starts with. -/
def isInitial : CharSet := fun a => !isBlank a && a != '\x7b'

section NoDeclaration

variable {t : Text} (ht : t.head?.any isInitial = false)

include ht

theorem head?_ne {a : Char} (ha : isInitial a = true) : t.head? ≠ some a := by
  intro heq
  rw [heq, Option.any_some, ha] at ht
  cases ht

theorem startsNoWord {ss : List String} (hss : ∀ u ∈ ss, u.toList.head?.any isInitial = true) :
    ∀ u ∈ ss, ¬ u.toList <+: t := by
  rintro u hu ⟨z, rfl⟩
  have hu := hss u hu
  cases h : u.toList with
  | nil =>
    rw [h] at hu
    cases hu
  | cons a w =>
    rw [h] at hu ht
    exact Bool.noConfusion (hu.symm.trans ht)

theorem refuses_caseHead : caseHead.Refuses t := by
  have hindirect : ("indirect" ++ gap).Refuses t := (refuses_text (head?_ne ht (by decide)) _).append _
  have hcase : (lit "case").Refuses t := refuses_text (head?_ne ht (by decide)) _
  have hopt : (("indirect" ++ gap).opt ++ "case").Refuses t := by
    intro k c hc
    have hrun : (("indirect" ++ gap).opt ++ "case").run k c = Fit.orTry
        (("indirect" ++ gap).run (fun d => if d.pos == c.pos then none else (lit "case").run k d) c)
          fun _ => (lit "case").run k c := rfl
    rw [hrun, hindirect _ c hc]
    exact hcase k c hc
  exact ((hopt.append _).append _).append _

theorem refuses_typeHead_of_head : typeHead.Refuses t :=
  refuses_typeHead (head?_ne ht (by decide)) (startsNoWord ht (by decide))

theorem refuses_funcHead : funcHead.Refuses t := by
  have hfunc : (cap 1 modifiers ++ "func").Refuses t :=
    refuses_modified (head?_ne ht (by decide)) (startsNoWord ht (by decide))
      (refuses_text (head?_ne ht (by decide)) _)
  exact (((((hfunc.append _).append _).append _).append _).append _).append _

theorem refuses_initHead : initHead.Refuses t := by
  have hinit : (cap 1 modifiers ++ "init").Refuses t :=
    refuses_modified (head?_ne ht (by decide)) (startsNoWord ht (by decide))
      (refuses_text (head?_ne ht (by decide)) _)
  exact ((hinit.append _).append _).append _

theorem refuses_propertyHead : propertyHead.Refuses t := by
  have hword : (cap 2 (choice ["let", "var"])).Refuses t := fun _ c hc =>
    refuses_choice (by decide) (startsNoWord ht (by decide)) _ c hc
  have hproperty : (cap 1 modifiers ++ cap 2 (choice ["let", "var"])).Refuses t :=
    refuses_modified (head?_ne ht (by decide)) (startsNoWord ht (by decide)) hword
  exact ((((((((hproperty.append _).append _).append _).append _).append _).append _).append
    _).append _).append _

end NoDeclaration

/-- The head of a type starts with something visible. -/
theorem head?_of_typeHead {t : Text} (h : typeHead.fits t = true) :
    ∀ c ∈ t.head?, isBlank c = false := by
  intro c hc
  rw [← Bool.not_eq_true]
  intro hblank
  have ht : t.head?.any isInitial = false := by
    rw [Option.mem_def.mp hc, Option.any_some, isInitial, hblank]
    rfl
  rw [fits, (refuses_typeHead_of_head ht).match?_eq_none] at h
  cases h

/-- A group that the second part of a sequence does not fill is filled by the first. -/
theorem exists_spells_left {p q : Pattern} {y : Text} {gs : GroupTexts} {i : Nat}
    (h : (p ++ q).Spells y gs) (hq : q.fills i = false) :
    ∃ z hs, p.Spells z hs ∧ gs.lookup i = hs.lookup i := by
  obtain ⟨z, z', hs, hs', rfl, rfl, hp, hq'⟩ := spells_append_iff.mp h
  refine ⟨z, hs, hp, ?_⟩
  rw [List.lookup_append, hq'.lookup_eq_none hq, Option.none_or]

/-- The kind of a type is one of the words for kinds. -/
theorem group_two_of_typeHead {t : Text} {f : Match} (h : typeHead.match? t = some f) :
    ∃ u ∈ kindWords, f.group 2 = u.toList := by
  obtain ⟨y, rest, gs, rfl, hy, -, hgroups⟩ := spells_of_match? h
  obtain ⟨_, _, hy, hend⟩ := exists_spells_left (i := 2) hy rfl
  obtain ⟨_, _, hy, hbrace⟩ := exists_spells_left (i := 2) hy rfl
  obtain ⟨_, _, hy, hblanks⟩ := exists_spells_left (i := 2) hy rfl
  obtain ⟨_, _, hy, hwhere⟩ := exists_spells_left (i := 2) hy rfl
  obtain ⟨_, _, hy, hblanks'⟩ := exists_spells_left (i := 2) hy rfl
  obtain ⟨_, _, hy, hinherits⟩ := exists_spells_left (i := 2) hy rfl
  obtain ⟨_, _, hy, hblanks''⟩ := exists_spells_left (i := 2) hy rfl
  obtain ⟨_, _, hy, hgeneric⟩ := exists_spells_left (i := 2) hy rfl
  obtain ⟨_, _, hy, hblanks'''⟩ := exists_spells_left (i := 2) hy rfl
  obtain ⟨_, _, hy, hname⟩ := exists_spells_left (i := 2) hy rfl
  obtain ⟨_, _, hy, hgap⟩ := exists_spells_left (i := 2) hy rfl
  obtain ⟨y, z, gs, gs', rfl, rfl, -, hkind⟩ := spells_append_iff.mp hy
  obtain ⟨gs', rfl, hchoice⟩ := spells_cap_iff.mp hkind
  obtain ⟨⟨u, hu, rfl⟩, rfl⟩ := (spells_choice_iff (by decide)).mp hchoice
  refine ⟨u, hu, ?_⟩
  rw [Match.group, hgroups, hend, hbrace, hblanks, hwhere, hblanks', hinherits, hblanks'', hgeneric,
    hblanks''', hname, hgap]
  rfl

end Head

end HostScript.Declaration.Swift
