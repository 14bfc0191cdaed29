import HostScript.Proofs.Declaration.SwiftHead
import HostScript.Proofs.Declaration.SwiftReading
import HostScript.Proofs.Pattern.Covered

/-!
# What reading adds to a module

Reading the members of a type only adds to the module. Nothing that is kept unclassified is longer
than the lines that were read, and nothing is said to be unterminated unless some line has an
opening brace.
-/

namespace HostScript.Declaration

/-- A remark that a declaration does not end. -/
def Warning.isUnterminated (w : Warning) : Bool := Text.startsWith w.message "unterminated "

namespace Swift

open Pattern Source

/-- A text of at most `n` characters, with an opening brace only if `braced`. -/
structure Bounded (n : Nat) (braced : Prop) (t : Text) : Prop where
  length_le : t.length ≤ n
  brace : '\x7b' ∈ t → braced

/-- The second module has what the first one has, more unclassified texts of at most `n` characters,
and more remarks, of something unterminated only if `braced`. -/
structure Grows (n : Nat) (braced : Prop) (m m' : Module) : Prop where
  unknowns : ∃ more, m'.unknowns = m.unknowns ++ more ∧ ∀ u ∈ more, u.text.length ≤ n
  warnings : ∃ more, m'.warnings = m.warnings ++ more ∧
    ∀ w ∈ more, w.isUnterminated = true → braced

variable {n : Nat} {braced : Prop} {m m' m'' : Module} {t u : Text}
variable {line : Line} {rest lines : List Line}

/-! ### Growing modules -/

theorem Bounded.mono (h : Bounded n braced t) (hu : u <:+: t) : Bounded n braced u :=
  ⟨hu.length_le.trans h.length_le, fun hb => h.brace (hu.subset hb)⟩

theorem Grows.refl (m : Module) : Grows n braced m m :=
  ⟨⟨[], (List.append_nil _).symm, List.forall_mem_nil _⟩,
    ⟨[], (List.append_nil _).symm, List.forall_mem_nil _⟩⟩

theorem Grows.trans (h : Grows n braced m m') (h' : Grows n braced m' m'') :
    Grows n braced m m'' := by
  obtain ⟨us, hus, hlength⟩ := h.unknowns
  obtain ⟨us', hus', hlength'⟩ := h'.unknowns
  obtain ⟨ws, hws, hbraced⟩ := h.warnings
  obtain ⟨ws', hws', hbraced'⟩ := h'.warnings
  exact ⟨⟨us ++ us', by rw [hus', hus, List.append_assoc],
      List.forall_mem_append.mpr ⟨hlength, hlength'⟩⟩,
    ⟨ws ++ ws', by rw [hws', hws, List.append_assoc],
      List.forall_mem_append.mpr ⟨hbraced, hbraced'⟩⟩⟩

/-- A remark is added. -/
theorem grows_warn {number : Nat} {message text : Text}
    (h : Warning.isUnterminated ⟨number, message, text⟩ = true → braced) :
    Grows n braced m (m.warn number message text) :=
  ⟨⟨[], (List.append_nil _).symm, List.forall_mem_nil _⟩,
    ⟨[_], rfl, List.forall_mem_singleton.mpr h⟩⟩

/-- An unclassified text is added. -/
theorem grows_keep {number : Nat} {text reason : Text} (h : text.length ≤ n) :
    Grows n braced m (m.keep text number reason) :=
  ⟨⟨[_], rfl, List.forall_mem_singleton.mpr h⟩,
    ⟨[], (List.append_nil _).symm, List.forall_mem_nil _⟩⟩

/-- A remark is added unless all is well. -/
theorem Grows.warnUnless (h : Grows n braced m m') {c : Bool} {number : Nat} {message text : Text}
    (hc : c = false → Warning.isUnterminated ⟨number, message, text⟩ = true → braced) :
    Grows n braced m (if c then m' else m'.warn number message text) := by
  cases c with
  | true => exact h
  | false => exact h.trans (grows_warn (hc rfl))

theorem unknowns_addType (kind : TypeKind) (name : Text) (inherits : List Text)
    (superclass : Text) (number : Nat) (b : Members) :
    (addType m kind name inherits superclass number b).unknowns = m.unknowns := by
  cases kind <;> rfl

theorem warnings_addType (kind : TypeKind) (name : Text) (inherits : List Text)
    (superclass : Text) (number : Nat) (b : Members) :
    (addType m kind name inherits superclass number b).warnings = m.warnings := by
  cases kind <;> rfl

/-! ### Braces of heads and lines -/

/-- The characters of a head stand on the lines that it is joined from. -/
theorem mem_of_mem_joinHead {c : Char} (hc : c ≠ ' ') {depth : Int} {joined : Nat}
    (h : c ∈ (joinHead t depth joined lines).1) : c ∈ t ∨ ∃ l ∈ lines, c ∈ l.text := by
  induction lines generalizing t depth joined with
  | nil => exact Or.inl h
  | cons line lines ih =>
    rw [joinHead] at h
    split at h
    · rcases ih h with h | ⟨l, hl, h⟩
      · rcases List.mem_append.mp h with h | h
        · rcases List.mem_append.mp h with h | h
          · exact Or.inl h
          · exact absurd (List.mem_singleton.mp h) hc
        · exact Or.inr ⟨line, List.mem_cons_self .., h⟩
      · exact Or.inr ⟨l, List.mem_cons_of_mem _ hl, h⟩
    · exact Or.inl h

theorem mem_of_mem_headFrom {c : Char} (hc : c ≠ ' ') (h : c ∈ (headFrom line rest).1) :
    ∃ l ∈ line :: rest, c ∈ l.text := by
  rcases mem_of_mem_joinHead hc h with h | ⟨l, hl, h⟩
  · exact ⟨line, List.mem_cons_self .., h⟩
  · exact ⟨l, List.mem_cons_of_mem _ hl, h⟩

theorem mem_of_mem_cutSignature {c : Char} {open_ : Nat}
    (h : c ∈ (cutSignature t open_).2.1) : c ∈ t := by
  rw [cutSignature] at h
  split at h
  · cases h
  · exact List.mem_of_mem_drop (Text.mem_of_mem_trim c h)

/-- A body opens with a brace on one of the lines. -/
theorem braced_of_hasBody {open_ joined : Nat}
    (hlines : ∀ l ∈ line :: rest, Bounded n braced l.text)
    (h : hasBody (cutSignature (headFrom line rest).1 open_).2.1 (rest.drop joined) = true) :
    braced := by
  rw [hasBody, Bool.or_eq_true, List.contains_iff_mem, Option.any_eq_true] at h
  rcases h with h | ⟨l, hl, h⟩
  · obtain ⟨l, hl, hb⟩ := mem_of_mem_headFrom (by decide) (mem_of_mem_cutSignature h)
    exact (hlines l hl).brace hb
  · refine (hlines l ?_).brace ((List.isPrefixOf_iff_prefix.mp h).subset (List.mem_singleton_self _))
    exact List.mem_cons_of_mem _ (List.mem_of_mem_drop (List.mem_of_mem_head? hl))

/-- The block of a property opens with a brace on its line. -/
theorem mem_of_match?_propertyHead_block {f : Match} (h : propertyHead.match? t = some f)
    (hblock : (f.group? 6).isSome = true) : '\x7b' ∈ t := by
  obtain ⟨x, rest, gs, rfl, hx, -, hgroup⟩ := spells_of_match? h
  rw [hgroup] at hblock
  refine List.mem_append_left _ ?_
  cases hx with
  | seq hx hend =>
  cases hx with
  | seq hhead hopt =>
    rcases hopt.of_opt with ⟨rfl, rfl⟩ | hsome
    · rw [List.lookup_append, hend.lookup_eq_none rfl, List.nil_append,
        hhead.lookup_eq_none rfl] at hblock
      cases hblock
    · obtain ⟨gs, -, hbrace⟩ := spells_cap_iff.mp hsome
      obtain ⟨y, z, gs, hs, rfl, -, hbrace, -⟩ := spells_append_iff.mp hbrace
      obtain ⟨rfl, -⟩ := spells_lit_iff.mp hbrace
      simp

theorem infix_since (t : Text) (i : Nat) : t.since i <:+: t := (List.drop_suffix i t).isInfix

theorem infix_upToLastBrace (t : Text) : upToLastBrace t <:+: t := by
  have hsuffix : (t.reverse.dropWhile (· != '\x7d')).drop 1 <:+ t.reverse :=
    (List.drop_suffix ..).trans (List.dropWhile_suffix _)
  have := List.reverse_prefix.mpr hsuffix
  rw [List.reverse_reverse] at this
  exact this.isInfix

/-- The lines of a body are stretches of the lines that it is cut from. -/
theorem exists_infix_of_mem_bodyLines {last : Nat} {closed : Bool} {l : Line}
    (h : l ∈ bodyLines line rest last closed) : ∃ l' ∈ line :: rest, l.text <:+: l'.text := by
  have htrimmed {t : Text} {l' : Line} {number : Nat} (hl' : l' ∈ line :: rest) (ht : t <:+: l'.text)
      (h : l ∈ [(⟨number, t.trim⟩ : Line)]) : ∃ l' ∈ line :: rest, l.text <:+: l'.text := by
    obtain rfl := List.mem_singleton.mp h
    exact ⟨l', hl', (Text.infix_trim t).trans ht⟩
  revert h
  unfold bodyLines
  extract_lets lines isSolid upTo inner start first after stop middle final
  split
  · intro h
    obtain ⟨p, hp, rfl⟩ := List.mem_map.mp (List.mem_of_mem_filter h)
    refine ⟨line, List.mem_cons_self .., ?_⟩
    exact (Text.infix_trim p).trans ((Text.infix_of_mem_splitOn hp).trans
      ((Text.infix_trim inner).trans ((infix_since ..).trans (infix_upToLastBrace line.text))))
  · intro h
    have hfirst : first ∈ line :: rest := by
      show (lines[start]?).getD line ∈ line :: rest
      cases hget : lines[start]? with
      | none => exact List.mem_cons_self ..
      | some l => exact List.mem_of_getElem? hget
    rcases List.mem_append.mp h with h | h
    · rcases List.mem_append.mp h with h | h
      · exact htrimmed hfirst (infix_since ..) (List.mem_of_mem_filter h)
      · exact ⟨l, List.mem_of_mem_take (List.mem_of_mem_drop h), List.infix_rfl⟩
    · have hfinal : l ∈ final := List.mem_of_mem_filter h
      show ∃ l' ∈ line :: rest, _
      unfold final at hfinal
      split at hfinal
      case h_1 l' hget =>
        split at hfinal
        · exact htrimmed (List.mem_of_getElem? hget) (infix_upToLastBrace l'.text) hfinal
        · cases hfinal
      case h_2 => cases hfinal

variable {requirement : Bool}

/-- The lines are within bounds. -/
def LinesBounded (n : Nat) (braced : Prop) (lines : List Line) : Prop :=
  ∀ l ∈ lines, Bounded n braced l.text

theorem LinesBounded.bodyLines (h : LinesBounded n braced (line :: rest)) (last : Nat)
    (closed : Bool) : LinesBounded n braced (bodyLines line rest last closed) := by
  intro l hl
  obtain ⟨l', hl', hpart⟩ := exists_infix_of_mem_bodyLines hl
  exact (h l' hl').mono hpart

/-! ### What each reader adds -/

theorem grows_readFunc (h : LinesBounded n braced (line :: rest)) :
    Grows n braced m (readFunc m line rest requirement).1 := by
  simp only [readFunc]
  split
  · exact .refl m
  split
  · refine (Grows.warnUnless (.refl m) fun _ hw => ?_).warnUnless fun _ hw => ?_
    · cases hw
    · cases hw
  case isFalse hbody =>
    refine (Grows.warnUnless (.refl m) fun _ hw => ?_).warnUnless fun _ _ => ?_
    · cases hw
    · exact braced_of_hasBody h (by simpa using hbody)

theorem grows_readInit (h : LinesBounded n braced (line :: rest)) :
    Grows n braced m (readInit m line rest requirement).1 := by
  simp only [readInit]
  split
  · exact .refl m
  split
  · refine (Grows.warnUnless (.refl m) fun _ hw => ?_).warnUnless fun _ hw => ?_
    · cases hw
    · cases hw
  case isFalse hbody =>
    refine (Grows.warnUnless (.refl m) fun _ hw => ?_).warnUnless fun _ _ => ?_
    · cases hw
    · exact braced_of_hasBody h (by simpa using hbody)

theorem grows_readAccessors (hbraced : braced) (number : Nat) (p : Property) (lines : List Line) :
    Grows n braced m (readAccessors number m p lines).1 := by
  fun_induction readAccessors number m p lines with
  | case1 => exact .refl _
  | case2 m p line rest _ ih => exact (grows_warn fun _ => hbraced).trans ih
  | case3 m p line rest a _ block m' p' =>
    rename_i hread ih
    refine Grows.trans ?_ ih
    split at hread
    case isTrue =>
      obtain ⟨rfl, -⟩ := Prod.mk.inj hread
      exact .refl _
    case isFalse =>
      split at hread
      case isTrue =>
        obtain ⟨rfl, -⟩ := Prod.mk.inj hread
        exact .refl _
      case isFalse =>
        obtain ⟨rfl, -⟩ := Prod.mk.inj hread
        exact grows_warn fun _ => hbraced

theorem grows_withAccessors (hbraced : braced) (p : Property) (number : Nat) (body : Text) :
    Grows n braced m (withAccessors m p number body).1 := by
  simp only [withAccessors]
  split
  · split
    · exact grows_readAccessors hbraced ..
    · exact .refl m
  · exact .refl m

theorem grows_readProperty {f : Match} (hf : propertyHead.match? line.text = some f)
    (h : LinesBounded n braced (line :: rest)) :
    Grows n braced m (readProperty m f line rest requirement).1 := by
  unfold readProperty
  extract_lets modifierText attributes p block whole value warned
  split
  · split
    · exact .refl m
    · exact .refl m
  case isFalse hblock =>
    have hbraced : braced := (h line (List.mem_cons_self ..)).brace
      (mem_of_match?_propertyHead_block hf (by simpa [Option.isSome_iff_ne_none] using hblock))
    have hwarned : Grows n braced m warned := Grows.warnUnless (.refl m) fun _ _ => hbraced
    split
    · exact hwarned
    · exact hwarned.trans (grows_withAccessors hbraced ..)

theorem grows_readCases (b : Members) (raw : Text) :
    Grows n braced m (readCases m b raw line).1 := by
  unfold readCases
  induction splitTopLevel .arguments raw generalizing m b with
  | nil => exact .refl m
  | cons part parts ih =>
    rw [List.foldl_cons]
    refine Grows.trans ?_ (ih _)
    split
    · refine grows_warn fun hw => ?_
      cases hw
    · split
      · exact .refl m
      · refine grows_warn fun hw => ?_
        cases hw

theorem grows_addPropertyMember (kind : TypeKind) (b : Members) (p : Property) :
    Grows n braced m (addPropertyMember kind m b p line).1 := by
  rw [addPropertyMember]
  split
  · split
    · exact .refl m
    · refine grows_warn fun hw => ?_
      cases hw
  · exact .refl m

/-- A reader of members adds to a module what stands on its lines. -/
def Adds (n : Nat) (braced : Prop)
    (inner : TypeKind → Module → List Line → Module × Members) : Prop :=
  ∀ kind m lines, LinesBounded n braced lines → Grows n braced m (inner kind m lines).1

variable {inner : TypeKind → Module → List Line → Module × Members}

/-- A remark that starts with the kind of a type does not say that something is unterminated. -/
theorem not_isUnterminated_of_kind {u : String} (hu : u ∈ kindWords) (number : Nat)
    (message text : Text) :
    Warning.isUnterminated ⟨number, u.toList ++ message, text⟩ = false := by
  simp only [kindWords, List.mem_cons, List.not_mem_nil, or_false] at hu
  rcases hu with rfl | rfl | rfl | rfl | rfl <;> rfl

theorem Grows.addType (h : Grows n braced m m') (kind : TypeKind) (typeName : Text)
    (inherits : List Text) (superclass : Text) (number : Nat) (b : Members) :
    Grows n braced m (addType m' kind typeName inherits superclass number b) :=
  ⟨by rw [unknowns_addType]; exact h.unknowns, by rw [warnings_addType]; exact h.warnings⟩

theorem grows_readType (hinner : Adds n braced inner) {f : Match}
    (hf : typeHead.match? line.text = some f) (h : LinesBounded n braced (line :: rest)) :
    Grows n braced m (readType inner m f line rest).1 := by
  simp only [readType]
  split
  · refine (grows_warn fun hw => ?_).trans (grows_keep (h line (List.mem_cons_self ..)).length_le)
    obtain ⟨u, hu, hkind⟩ := group_two_of_typeHead hf
    rw [hkind, List.append_assoc, List.append_assoc, not_isUnterminated_of_kind hu] at hw
    cases hw
  case isFalse hopened =>
    have hbraced : braced := by
      rcases captureBlock_opened (by simpa using hopened) with hb | ⟨next, more, rfl, hb, -⟩
      · exact (h line (List.mem_cons_self ..)).brace hb
      · exact (h next (by simp)).brace hb
    refine Grows.addType (Grows.trans ?_ (hinner _ _ _ (h.bodyLines _ _))) ..
    exact .warnUnless (.refl m) fun _ _ => hbraced

theorem grows_readPlainMember (kind : TypeKind) (b : Members)
    (h : LinesBounded n braced (line :: rest)) :
    Grows n braced m (readPlainMember kind m b line rest).1 := by
  simp only [readPlainMember]
  split
  · exact grows_readFunc h
  split
  · split
    · exact grows_readInit h
    split
    · exact grows_readInit h
    · refine (grows_readInit h).trans (grows_warn fun hw => ?_)
      cases hw
  split
  · refine grows_warn fun hw => ?_
    cases hw
  split
  case h_1 f hf => exact (grows_readProperty hf h).trans (grows_addPropertyMember ..)
  case h_2 =>
    refine (grows_warn fun hw => ?_).trans (grows_keep (h line (List.mem_cons_self ..)).length_le)
    cases hw

theorem grows_readMember (hinner : Adds n braced inner) (kind : TypeKind) (b : Members)
    (h : LinesBounded n braced (line :: rest)) :
    Grows n braced m (readMember inner kind m b line rest).1 := by
  simp only [readMember]
  split
  · exact .refl m
  split
  · exact grows_readCases ..
  split
  case h_1 f hf => exact grows_readType hinner hf h
  case h_2 => exact grows_readPlainMember kind b h

/-- Reading members adds to the module, and adds only what stands on their lines. -/
theorem grows_readMembers {fuel : Nat} {kind : TypeKind} {b : Members}
    (h : LinesBounded n braced lines) : Grows n braced m (readMembers fuel kind m b lines).1 := by
  induction fuel generalizing kind m b lines with
  | zero => exact .refl m
  | succ fuel ih =>
    cases lines with
    | nil => exact .refl m
    | cons line rest =>
      have hinner : Adds n braced fun k m ls => readMembers fuel k m {} ls :=
        fun _ _ _ hlines => ih hlines
      rw [readMembers]
      refine (grows_readMember hinner kind b h).trans (ih fun l hl => ?_)
      exact h l (List.mem_cons_of_mem _ (List.mem_of_mem_drop hl))

end Swift

end HostScript.Declaration
