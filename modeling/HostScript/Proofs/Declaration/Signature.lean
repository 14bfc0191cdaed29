import HostScript.Declaration.ObjC
import HostScript.Proofs.Body.Send
import HostScript.Proofs.Pattern.Longer
import Mathlib.Data.List.Infix

/-!
# Method signatures

The line that begins a method is taken apart by a pattern, and its selector by a search for parts:
a label, a type in parentheses and the name of a parameter. A part without a type, or with a type
that has parentheses of its own, is passed over in silence. What is found then is exactly what the
other parts say.
-/

namespace HostScript.Declaration.ObjC

open Pattern
open Script (startsIn endsIn startsIn_eq endsIn_eq startsIn_append endsIn_append trim_eq_self trimEndOf_eq_self
  isWord_of_isBlank isBlank_of_isWord)
open Body.ObjC (IsName isWord_of_mem_methodName)

/-! ## Parts of a selector -/

/-- One part of a selector with the white space inside it: a label, perhaps a type, and the name of
a parameter. -/
structure Part where
  label : Text
  beforeColon : Text
  beforeType : Text
  type : Option Text
  beforeName : Text
  name : Text

namespace Part

variable {p q : Part}

/-- The type as it is written. -/
def typeText (p : Part) : Text := p.type.elim [] fun t => '(' :: (t ++ [')'])

/-- What follows the colon. -/
def argument (p : Part) : Text := p.beforeType ++ (p.typeText ++ (p.beforeName ++ p.name))

/-- The part as it is written. -/
def text (p : Part) : Text := p.label ++ (p.beforeColon ++ ':' :: p.argument)

/-- The parameter that the part declares. -/
def parameter (p : Part) : Parameter :=
  { name := p.name, typeName := withoutStars (p.type.getD []), label := p.label }

/-- Whether the part has a type without parentheses. -/
def isPlain (p : Part) : Bool := p.type.any (!·.contains ')')

/-- A part is put together from names and white space. Behind the first parenthesis that closes
inside a type comes no further name. -/
structure IsProper (p : Part) : Prop where
  label : IsName p.label
  name : IsName p.name
  beforeColon : ∀ c ∈ p.beforeColon, isBlank c = true
  beforeType : ∀ c ∈ p.beforeType, isBlank c = true
  beforeName : ∀ c ∈ p.beforeName, isBlank c = true
  type : ∀ t, p.type = some t → ∀ c ∈ t, among ":;\x7b" c = false
  nested : ∀ u v, p.type = some (u ++ ')' :: v) → ')' ∉ u →
    startsIn isWord (Text.trimStart v) = false

/-- What the pattern for a part covers is a plain part as well, made of any words. -/
structure IsFound (q : Part) : Prop where
  plain : q.isPlain = true
  label : ∀ c ∈ q.label, isWord c = true
  name : startsIn isWord q.name = true
  beforeColon : ∀ c ∈ q.beforeColon, isBlank c = true
  beforeType : ∀ c ∈ q.beforeType, isBlank c = true
  beforeName : ∀ c ∈ q.beforeName, isBlank c = true

/-- No colon stands in a word or in white space. -/
theorem ne_colon_of_mem {w b : Text} (hw : ∀ c ∈ w, isWord c = true)
    (hb : ∀ c ∈ b, isBlank c = true) : ∀ c ∈ w ++ b, (c != ':') = true := by
  refine List.forall_mem_append.mpr ⟨fun c hc => bne_iff_ne.mpr ?_, fun c hc => bne_iff_ne.mpr ?_⟩
  · rintro rfl
    exact Bool.false_ne_true (hw ':' hc)
  · rintro rfl
    exact Bool.false_ne_true (hb ':' hc)

theorem exists_type (hplain : p.isPlain = true) : ∃ t, p.type = some t ∧ ')' ∉ t := by
  rw [isPlain] at hplain
  cases htype : p.type with
  | none => rw [htype] at hplain; cases hplain
  | some t => rw [htype] at hplain; exact ⟨t, rfl, by simpa using hplain⟩

/-- White space in front of a character is not in front of a word. -/
theorem any_head?_blanks {s : CharSet} (hs : ∀ c, isBlank c = true → s c = false) {b : Text}
    (hb : ∀ c ∈ b, isBlank c = true) {a : Char} (ha : s a = false) (y : Text) :
    (b ++ a :: y).head?.any s = false := by
  cases b with
  | nil => exact ha
  | cons c b => exact hs c (hb c List.mem_cons_self)

/-- Where a plain part comes next the pattern takes it, with its label, its type and its name. -/
theorem exists_takes_text (hp : p.IsProper) (hplain : p.isPlain = true) {rest : Text}
    (hrest : rest.head?.any isWord = false) :
    ∃ gs : GroupsAt, selectorPart.Takes p.text rest gs ∧ ∀ pos,
      ((gs pos).lookup 1).map (·.text) = some p.label ∧
        ((gs pos).lookup 2).map (·.text) = some (p.type.getD []) ∧
          ((gs pos).lookup 3).map (·.text) = some p.name := by
  obtain ⟨t, ht, hclose⟩ := exists_type hplain
  have hinside : ∀ c ∈ t, outside (among ")") c = true := by
    intro c hc
    have hne : c ≠ ')' := fun h => hclose (h ▸ hc)
    simp [outside, among, hne]
  obtain ⟨a, n, hn⟩ := List.exists_cons_of_ne_nil hp.name.ne_nil
  have ha : isBlank a = false := isBlank_of_isWord (hp.name.word a (hn ▸ List.mem_cons_self))
  have hname : (p.name ++ rest).head?.any isBlank = false := by rw [hn]; exact ha
  have h₁ : (cap 1 Pattern.name).Takes p.label (p.beforeColon ++ ':' :: (p.argument ++ rest))
      fun pos => [(1, ⟨pos, p.label⟩)] :=
    (takes_plus hp.label.ne_nil hp.label.word
      (any_head?_blanks (fun _ => isWord_of_isBlank) hp.beforeColon rfl _)).cap 1
  have h₂ : blanks.Takes p.beforeColon (':' :: (p.argument ++ rest)) noGroups :=
    takes_star hp.beforeColon rfl
  have h₃ : (lit ":").Takes [':'] (p.argument ++ rest) noGroups := takes_text _ _
  have h₄ : blanks.Takes p.beforeType ('(' :: (t ++ ')' :: (p.beforeName ++ (p.name ++ rest))))
      noGroups := takes_star hp.beforeType rfl
  have h₅ : (lit "(").Takes ['('] (t ++ ')' :: (p.beforeName ++ (p.name ++ rest))) noGroups :=
    takes_text _ _
  have h₆ : (cap 2 (noneOf (among ")")).star).Takes t
      (')' :: (p.beforeName ++ (p.name ++ rest))) fun pos => [(2, ⟨pos, t⟩)] :=
    (takes_star hinside rfl).cap 2
  have h₇ : (lit ")").Takes [')'] (p.beforeName ++ (p.name ++ rest)) noGroups := takes_text _ _
  have h₈ : blanks.Takes p.beforeName (p.name ++ rest) noGroups := takes_star hp.beforeName hname
  have h₉ : (cap 3 Pattern.name).Takes p.name rest fun pos => [(3, ⟨pos, p.name⟩)] :=
    (takes_plus hp.name.ne_nil hp.name.word hrest).cap 3
  have hargument : p.argument ++ rest =
      p.beforeType ++ '(' :: (t ++ ')' :: (p.beforeName ++ (p.name ++ rest))) := by
    simp [argument, typeText, ht]
  rw [hargument] at h₁ h₂ h₃
  have htakes := (((((((h₁.append h₂).append h₃).append h₄).append h₅).append h₆).append h₇).append
    h₈).append h₉
  have htext : p.label ++ p.beforeColon ++ [':'] ++ p.beforeType ++ ['('] ++ t ++ [')'] ++
      p.beforeName ++ p.name = p.text := by
    simp [text, argument, typeText, ht]
  rw [htext] at htakes
  refine ⟨_, htakes, fun pos => ⟨rfl, ?_, rfl⟩⟩
  rw [ht]
  rfl

theorem exists_isFound_of_spells {x : Text} {gs : GroupTexts} (h : selectorPart.Spells x gs) :
    ∃ q : Part, q.IsFound ∧ x = q.text := by
  obtain ⟨x₁, n, _, _, rfl, -, hn, h₁⟩ := h.of_append_cap
  obtain ⟨x₂, b₃, rfl, hb₃, h₂⟩ := h₁.of_append_blanks
  obtain ⟨x₃, rfl, h₃⟩ := h₂.of_append_lit
  obtain ⟨x₄, t, _, _, rfl, -, ht, h₄⟩ := h₃.of_append_cap
  obtain ⟨x₅, rfl, h₅⟩ := h₄.of_append_lit
  obtain ⟨x₆, b₂, rfl, hb₂, h₆⟩ := h₅.of_append_blanks
  obtain ⟨x₇, rfl, h₇⟩ := h₆.of_append_lit
  obtain ⟨w, b₁, rfl, hb₁, h₈⟩ := h₇.of_append_blanks
  obtain ⟨_, -, hw⟩ := spells_cap_iff.mp h₈
  obtain ⟨hlength, hn, -⟩ := hn.of_rounds_one
  have hne : n ≠ [] := List.ne_nil_of_length_pos hlength
  have hclose : ')' ∉ t := fun hmem => by
    have := ht.of_rounds_one.2.1 _ hmem
    revert this
    decide
  refine ⟨⟨w, b₁, b₂, some t, b₃, n⟩, ⟨?_, hw.of_rounds_one.2.1, ?_, hb₁, hb₂, hb₃⟩, ?_⟩
  · simpa [isPlain] using hclose
  · rw [startsIn_eq isWord hne]
    exact hn _ (List.head_mem hne)
  · simp [text, argument, typeText]

/-- A text is divided in one way at the first character outside a set. -/
theorem eq_of_append_cons_outside {s : CharSet} {x x' y y' : Text} {a a' : Char}
    (hx : ∀ c ∈ x, s c = true) (hx' : ∀ c ∈ x', s c = true) (ha : s a = false) (ha' : s a' = false)
    (h : x ++ a :: y = x' ++ a' :: y') : a = a' ∧ y = y' := by
  have hread {x y : Text} {a : Char} (hx : ∀ c ∈ x, s c = true) (ha : s a = false) :
      (x ++ a :: y).dropWhile s = a :: y := by
    rw [List.dropWhile_append_of_pos hx,
      List.dropWhile_cons_of_neg (by rw [ha]; exact Bool.false_ne_true)]
  have hrest := congrArg (List.dropWhile s) h
  rw [hread hx ha, hread hx' ha'] at hrest
  exact List.cons.inj hrest

/-- What follows the colon of a part that is not plain is not what follows it in one that is
found. -/
theorem argument_append_ne (hp : p.IsProper) (hmissed : p.isPlain = false) (hq : q.IsFound)
    (rest more : Text) : p.argument ++ rest ≠ q.argument ++ more := by
  intro h
  obtain ⟨t, ht, hclose⟩ := exists_type hq.plain
  obtain ⟨a, n, hn⟩ := List.exists_cons_of_ne_nil hp.name.ne_nil
  have ha : isWord a = true := hp.name.word a (hn ▸ List.mem_cons_self)
  have hname := hq.name
  obtain ⟨b, m, hm⟩ : ∃ b m, q.name = b :: m :=
    List.exists_cons_of_ne_nil fun hnil => by rw [hnil] at hname; cases hname
  rw [hm] at hname
  have hfound : q.argument ++ more =
      q.beforeType ++ '(' :: (t ++ ')' :: (q.beforeName ++ b :: (m ++ more))) := by
    simp [argument, typeText, ht, hm]
  rw [hfound] at h
  cases htype : p.type with
  | none =>
    have hbare : p.argument ++ rest = (p.beforeType ++ p.beforeName) ++ a :: (n ++ rest) := by
      simp [argument, typeText, htype, hn]
    rw [hbare] at h
    obtain ⟨rfl, -⟩ := eq_of_append_cons_outside
      (List.forall_mem_append.mpr ⟨hp.beforeType, hp.beforeName⟩) hq.beforeType
      (isBlank_of_isWord ha) rfl h
    cases ha
  | some u =>
    have hmem : ')' ∈ u := by simpa [isPlain, htype] using hmissed
    obtain ⟨v, w, rfl, hv⟩ := List.eq_append_cons_of_mem hmem
    have htyped : p.argument ++ rest =
        p.beforeType ++ '(' :: (v ++ ')' :: (w ++ ')' :: (p.beforeName ++ (p.name ++ rest)))) := by
      simp [argument, typeText, htype]
    rw [htyped] at h
    have hother {x : Text} (hx : ')' ∉ x) : ∀ c ∈ x, (c != ')') = true := fun c hc =>
      bne_iff_ne.mpr fun hc' => hx (hc' ▸ hc)
    obtain ⟨-, hinside⟩ := eq_of_append_cons_outside hp.beforeType hq.beforeType rfl rfl h
    obtain ⟨-, hbehind⟩ := eq_of_append_cons_outside (hother hv) (hother hclose) rfl rfl hinside
    -- Behind the first parenthesis that closes stands a name on one side only.
    have hnested := hp.nested v w htype hv
    rw [Text.trimStart, Text.trimStartOf] at hnested
    have hdropped := congrArg (List.dropWhile isBlank) hbehind
    rw [List.dropWhile_append_of_pos hq.beforeName,
      List.dropWhile_cons_of_neg (by rw [isBlank_of_isWord hname]; exact Bool.false_ne_true),
      List.dropWhile_append] at hdropped
    split at hdropped
    · rw [List.dropWhile_cons_of_neg (by decide)] at hdropped
      rw [← (List.cons.inj hdropped).1] at hname
      cases hname
    case isFalse hne =>
      rw [List.isEmpty_iff] at hne
      have hhead := congrArg List.head? hdropped
      rw [List.head?_append_of_ne_nil _ hne] at hhead
      rw [startsIn, hhead] at hnested
      exact Bool.false_ne_true (hnested.symm.trans hname)

/-- What may follow a part: nothing, or white space and then a word. -/
def IsApart (rest : Text) : Prop :=
  rest = [] ∨ ∃ g b y, rest = g ++ b :: y ∧ g ≠ [] ∧ (∀ c ∈ g, isBlank c = true) ∧ isWord b = true

theorem IsApart.any_head? {rest : Text} (h : IsApart rest) : rest.head?.any isWord = false := by
  rcases h with rfl | ⟨g, b, y, rfl, hne, hg, -⟩
  · rfl
  · obtain ⟨a, g, rfl⟩ := List.exists_cons_of_ne_nil hne
    exact isWord_of_isBlank (hg a List.mem_cons_self)

/-- White space and a word behind it do not both stand before the colon of a part that is found. -/
theorem beforeColon_ne (hq : q.IsFound) {x g y : Text} {b : Char} (hne : g ≠ [])
    (hg : ∀ c ∈ g, isBlank c = true) (hb : isWord b = true) :
    q.label ++ q.beforeColon ≠ x ++ (g ++ b :: y) := by
  have hlast : ∀ u, q.beforeColon ≠ u ++ (g ++ b :: y) := by
    intro u hu
    have hmem : b ∈ q.beforeColon := by
      rw [hu]
      exact List.mem_append_right _ (List.mem_append_right _ List.mem_cons_self)
    exact Bool.false_ne_true ((isBlank_of_isWord hb).symm.trans (hq.beforeColon b hmem))
  intro h
  rcases List.append_eq_append_iff.mp h with ⟨u, -, hu⟩ | ⟨u, hlabel, hu⟩
  · exact hlast u hu
  · cases u with
    | nil => exact hlast [] hu.symm
    | cons c u =>
      obtain ⟨d, g, rfl⟩ := List.exists_cons_of_ne_nil hne
      obtain ⟨rfl, -⟩ := List.cons.inj hu
      have hmem : d ∈ q.label := by
        rw [hlabel]
        exact List.mem_append_right _ List.mem_cons_self
      have hblank := hg d List.mem_cons_self
      exact Bool.false_ne_true ((isWord_of_isBlank hblank).symm.trans (hq.label d hmem))

/-- A part is not found from a place between its colon and the next part on. -/
theorem append_ne_text_append (hq : q.IsFound) {x rest : Text} (hx : ':' ∉ x)
    (hrest : IsApart rest) (more : Text) : x ++ rest ≠ q.text ++ more := by
  intro h
  have hsplit : q.text ++ more = (q.label ++ q.beforeColon) ++ ':' :: (q.argument ++ more) := by
    simp [text]
  rw [hsplit] at h
  rcases hrest with rfl | ⟨g, b, y, rfl, hne, hg, hb⟩
  · rw [List.append_nil] at h
    exact hx (h ▸ List.mem_append_right _ List.mem_cons_self)
  · have hcolon : ':' ∉ x ++ (g ++ [b]) := by
      intro hmem
      rcases List.mem_append.mp hmem with hmem | hmem
      · exact hx hmem
      rcases List.mem_append.mp hmem with hmem | hmem
      · exact Bool.false_ne_true (hg ':' hmem)
      · rw [← List.mem_singleton.mp hmem] at hb
        cases hb
    have hregroup : x ++ (g ++ b :: y) = (x ++ (g ++ [b])) ++ y := by simp
    rw [hregroup] at h
    rcases List.append_eq_append_iff.mp h with ⟨w, hlabel, -⟩ | ⟨w, hw, hcut⟩
    · refine beforeColon_ne hq (y := w) hne hg hb (x := x) ?_
      rw [hlabel]
      simp
    · cases w with
      | nil =>
        refine beforeColon_ne hq (y := []) hne hg hb (x := x) ?_
        rw [← List.append_nil (q.label ++ q.beforeColon), ← hw]
      | cons c w =>
        obtain ⟨rfl, -⟩ := List.cons.inj hcut
        exact hcolon (hw ▸ List.mem_append_right _ List.mem_cons_self)

theorem colon_notMem_argument (hp : p.IsProper) : ':' ∉ p.argument := by
  have hblank {b : Text} (hb : ∀ c ∈ b, isBlank c = true) : ':' ∉ b := fun hmem =>
    Bool.false_ne_true (hb ':' hmem)
  have hname : ':' ∉ p.name := fun hmem => Bool.false_ne_true (hp.name.word ':' hmem)
  have htype : ':' ∉ p.typeText := by
    cases htype : p.type with
    | none => simp [typeText, htype]
    | some t =>
      have ht : ':' ∉ t := fun hmem => Bool.false_ne_true (hp.type t htype ':' hmem).symm
      simp [typeText, htype, ht]
  simp only [argument, List.mem_append, not_or]
  exact ⟨hblank hp.beforeType, htype, hblank hp.beforeName, hname⟩

/-- In a part that is not plain nothing is found. -/
theorem run_eq_none (hp : p.IsProper) (hmissed : p.isPlain = false) {rest u v : Text} {a : Char}
    (hrest : IsApart rest) (hsplit : p.text = u ++ a :: v) {c : Cursor}
    (hc : c.after = a :: v ++ rest) : selectorPart.run some c = none := by
  rw [Option.eq_none_iff_forall_ne_some]
  intro e he
  obtain ⟨x, gs, d, hx, hpass, -⟩ := covers_run _ _ _ _ he
  obtain ⟨q, hq, rfl⟩ := exists_isFound_of_spells hx
  have hfit : a :: v ++ rest = q.text ++ d.after := hc ▸ hpass.after
  have hlabel := ne_colon_of_mem hp.label.word hp.beforeColon
  have hbefore {w : Text} (hw : ∀ c ∈ w, (c != ':') = true)
      (h : w ++ ':' :: (p.argument ++ rest) = q.text ++ d.after) : False := by
    have hfound : q.text ++ d.after =
        (q.label ++ q.beforeColon) ++ ':' :: (q.argument ++ d.after) := by simp [text]
    rw [hfound] at h
    exact argument_append_ne hp hmissed hq _ _
      (eq_of_append_cons_outside hw (ne_colon_of_mem hq.label hq.beforeColon) rfl rfl h).2
  rw [text, ← List.append_assoc] at hsplit
  rcases List.append_eq_append_iff.mp hsplit with ⟨w, -, hw⟩ | ⟨w, hw, hv⟩
  · cases w with
    | nil =>
      rw [List.nil_append] at hw
      rw [← hw] at hfit
      exact hbefore (w := []) (List.forall_mem_nil _) hfit
    | cons b w =>
      have hmem : ':' ∉ a :: v := fun hmem => colon_notMem_argument hp <| by
        rw [(List.cons.inj hw).2]
        exact List.mem_append_right _ hmem
      exact append_ne_text_append hq hmem hrest _ hfit
  · rw [hw] at hlabel
    rw [hv, List.append_assoc, List.cons_append] at hfit
    exact hbefore (List.forall_mem_append.mp hlabel).2 hfit

/-- Nothing is found where no word starts. -/
theorem run_eq_none_of_head {c : Cursor} (h : c.after.head?.any isWord = false) :
    selectorPart.run some c = none := by
  have hname : (cap 1 Pattern.name).Refuses c.after := fun k d hd => refuses_one h _ d hd
  exact ((((((((hname.append _).append _).append _).append _).append _).append _).append _).append _)
    some c rfl

end Part

/-! ## Selectors -/

/-- A selector as it is written: one name, or parts with white space between them. -/
inductive Signature where
  | unary (name : Text)
  | keyword (first : Part) (more : List (Text × Part))

/-- Parts with the white space before each. -/
def partsText (ps : List (Text × Part)) : Text := ps.flatMap fun p => p.1 ++ p.2.text

theorem partsText_cons (g : Text) (p : Part) (ps : List (Text × Part)) :
    partsText ((g, p) :: ps) = g ++ (p.text ++ partsText ps) := by
  simp [partsText]

theorem length_le_partsText (ps : List (Text × Part)) : ps.length ≤ (partsText ps).length := by
  induction ps with
  | nil => exact Nat.zero_le _
  | cons p ps ih =>
    obtain ⟨g, p⟩ := p
    rw [partsText_cons]
    simp only [Part.text, List.length_append, List.length_cons]
    omega

/-- White space stands before a further part. -/
def IsFurther (p : Text × Part) : Prop :=
  p.2.IsProper ∧ p.1 ≠ [] ∧ ∀ c ∈ p.1, isBlank c = true

theorem isApart_partsText {ps : List (Text × Part)} (h : ∀ p ∈ ps, IsFurther p) :
    Part.IsApart (partsText ps) := by
  cases ps with
  | nil => exact Or.inl rfl
  | cons p ps =>
    obtain ⟨g, p⟩ := p
    obtain ⟨hp, hne, hg⟩ := h _ List.mem_cons_self
    obtain ⟨a, label, hlabel⟩ := List.exists_cons_of_ne_nil hp.label.ne_nil
    change p.label = _ at hlabel
    refine Or.inr ⟨g, a, label ++ (p.beforeColon ++ ':' :: p.argument) ++ partsText ps, ?_, hne, hg,
      hp.label.word a (hlabel ▸ List.mem_cons_self)⟩
    rw [partsText_cons]
    simp [Part.text, hlabel]

/-- The search for parts finds the plain ones, each with its label, its type and its name. -/
theorem map_matchesFrom_selectorPart {s : Text} {ps : List (Text × Part)} {fuel : Nat}
    (hps : ∀ p ∈ ps, p.2.IsProper ∧ ∀ c ∈ p.1, isBlank c = true)
    (hmore : ∀ p ∈ ps.tail, IsFurther p) (hfuel : ps.length < fuel) {c : Cursor}
    (hc : c.after = partsText ps) :
    (selectorPart.matchesFrom s fuel false c).map (fun m => (m.group 1, m.group 2, m.group 3)) =
      ((ps.map (·.2)).filter Part.isPlain).map fun p => (p.label, p.type.getD [], p.name) := by
  induction ps generalizing c fuel with
  | nil =>
    obtain ⟨fuel, rfl⟩ : ∃ n, fuel = n + 1 := ⟨fuel - 1, by rw [List.length_nil] at hfuel; omega⟩
    have hnone : selectorPart.run (fun d => some d) ⟨c.before, [], c.pos, []⟩ = none :=
      Part.run_eq_none_of_head rfl
    rw [matchesFrom, hc]
    simp [partsText, searchFrom, hnone]
  | cons p ps ih =>
    obtain ⟨g, p⟩ := p
    obtain ⟨before, after, pos, groups⟩ := c
    obtain ⟨⟨hp, hg⟩, hps⟩ := List.forall_mem_cons.mp hps
    obtain ⟨fuel, rfl⟩ : ∃ n, fuel = n + 1 := ⟨fuel - 1, by rw [List.length_cons] at hfuel; omega⟩
    rw [List.length_cons] at hfuel
    change after = _ at hc
    have hapart : Part.IsApart (partsText ps) := isApart_partsText hmore
    have hnext : ∀ q ∈ ps.tail, IsFurther q := fun q hq => hmore q (List.mem_of_mem_tail hq)
    have hgap : ∀ u a v, g = u ++ a :: v → selectorPart.run some
        ⟨u.reverse ++ before, a :: v ++ (p.text ++ partsText ps), pos + u.length, []⟩ = none := by
      intro u a v hsplit
      exact Part.run_eq_none_of_head (isWord_of_isBlank (hg a (by simp [hsplit])))
    rw [hc, partsText_cons, matchesFrom_append g hgap]
    cases hplain : p.isPlain with
    | true =>
      obtain ⟨gs, htakes, hgroups⟩ := Part.exists_takes_text hp hplain hapart.any_head?
      obtain ⟨hlabel, htype, hname⟩ := hgroups (pos + g.length)
      have hrun := htakes some ⟨g.reverse ++ before, p.text ++ partsText ps, pos + g.length, []⟩ _
        rfl rfl
      have hmoved : p.text.length ≠ 0 := by
        simp [Part.text]
      rw [matchesFrom_of_run hrun (by simp [Cursor.behind, Cursor.advance, hmoved]), List.map_cons,
        ih hps hnext (by omega) (Cursor.after_behind rfl gs), List.map_cons,
        List.filter_cons_of_pos hplain, List.map_cons]
      refine congrArg (· :: _) ?_
      simp only [Match.group, Match.group?, Match.ofCursors, Cursor.behind, List.append_nil]
      rw [hlabel, htype, hname]
      rfl
    | false =>
      rw [matchesFrom_append p.text fun u a v hsplit =>
        Part.run_eq_none hp hplain hapart hsplit rfl, List.map_cons,
        List.filter_cons_of_neg (by rw [hplain]; exact Bool.false_ne_true)]
      exact ih hps hnext (by omega) rfl

/-- A run of word characters is a name, and nothing else is. -/
theorem fitsAll_name_iff {t : Text} :
    name.fitsAll t = true ↔ t ≠ [] ∧ ∀ c ∈ t, isWord c = true := by
  constructor
  · intro h
    obtain ⟨gs, hspells⟩ := spells_of_fitsAll h
    obtain ⟨hlength, hword, -⟩ := hspells.of_rounds_one
    exact ⟨List.ne_nil_of_length_pos hlength, hword⟩
  · rintro ⟨hne, hword⟩
    have htakes : Pattern.name.Takes t [] noGroups := takes_plus hne hword rfl
    have hrun := htakes (fun d => if d.after.isEmpty then some d else none) (Cursor.start t) _
      (by simp [Cursor.start]) (if_pos (by simp [Cursor.start, Cursor.behind, Cursor.advance]))
    rw [fitsAll, matchAll?, Option.isSome_map, hrun]
    rfl

namespace Signature

variable {s : Signature}

/-- The selector as it is written. -/
def text : Signature → Text
  | unary name => name
  | keyword first more => first.text ++ partsText more

/-- The parts of a selector. -/
def parts : Signature → List Part
  | unary _ => []
  | keyword first more => first :: more.map (·.2)

/-- The name of a method with the selector: its labels run together. -/
def name : Signature → Text
  | unary name => name
  | s@(keyword ..) => Selector.methodName (s.parts.map (·.label))

/-- The parameters of a method with the selector. -/
def parameters (s : Signature) : List Parameter := s.parts.map Part.parameter

/-- A selector is a name, or proper parts with white space between them. -/
def IsProper : Signature → Prop
  | unary name => IsName name
  | keyword first more => first.IsProper ∧ ∀ p ∈ more, IsFurther p

/-- What is read of a selector: what its plain parts say, nothing if it has parts but no plain
one. -/
def read? : Signature → Option (Text × List Parameter)
  | unary name => some (name, [])
  | s@(keyword ..) =>
    let found := s.parts.filter Part.isPlain
    if found.isEmpty then none
    else some (Selector.methodName (found.map (·.label)), found.map Part.parameter)

theorem isName_label (h : s.IsProper) : ∀ p ∈ s.parts, IsName p.label := by
  cases s with
  | unary => exact List.forall_mem_nil _
  | keyword first more =>
    refine List.forall_mem_cons.mpr ⟨h.1.label, fun p hp => ?_⟩
    obtain ⟨q, hq, rfl⟩ := List.mem_map.mp hp
    exact (h.2 q hq).1.label

/-- A selector starts and ends with a word. -/
theorem IsProper.startsIn_text (h : s.IsProper) : startsIn isWord s.text = true := by
  cases s with
  | unary n =>
    rw [text, startsIn_eq isWord h.ne_nil]
    exact h.word _ (List.head_mem h.ne_nil)
  | keyword first more =>
    rw [text, Part.text, List.append_assoc, startsIn_append isWord h.1.label.ne_nil]
    exact h.1.label.word _ (List.head_mem h.1.label.ne_nil)

theorem IsProper.endsIn_text (h : s.IsProper) : endsIn isWord s.text = true := by
  have hpart {p : Part} (hp : p.IsProper) (x : Text) : endsIn isWord (x ++ p.text) = true := by
    have hsplit : x ++ p.text = (x ++ (p.label ++ (p.beforeColon ++ ':' ::
        (p.beforeType ++ (p.typeText ++ p.beforeName))))) ++ p.name := by
      simp [Part.text, Part.argument]
    rw [hsplit, endsIn_append isWord hp.name.ne_nil, endsIn_eq isWord hp.name.ne_nil]
    exact hp.name.word _ (List.getLast_mem hp.name.ne_nil)
  cases s with
  | unary n =>
    rw [text, endsIn_eq isWord h.ne_nil]
    exact h.word _ (List.getLast_mem h.ne_nil)
  | keyword first more =>
    rcases List.eq_nil_or_concat more with rfl | ⟨more, p, rfl⟩
    · have := hpart h.1 []
      rwa [text, partsText, List.flatMap_nil, List.append_nil]
    · have hsplit : first.text ++ partsText (more ++ [p]) =
          (first.text ++ (partsText more ++ p.1)) ++ p.2.text := by
        simp [partsText]
      rw [List.concat_eq_append] at h ⊢
      rw [text, hsplit]
      exact hpart (h.2 p (List.mem_append_right _ List.mem_cons_self)).1 _

/-- No end of a selector is trimmed away. -/
theorem IsProper.trimmed_text (h : s.IsProper) :
    (s.text.trim.trimEndOf (among ";\x7b")).trim = s.text := by
  have hother {o : Option Char} {set : CharSet} (hset : ∀ c, isWord c = true → set c = false)
      (ho : o.any isWord = true) : o.any set = false := by
    cases o with
    | none => rfl
    | some c => exact hset c ho
  have hmark (c : Char) (hc : isWord c = true) : among ";\x7b" c = false := by
    rw [Bool.eq_false_iff]
    intro hmem
    have hall : ∀ a ∈ ";\x7b".toList, isWord a = false := by decide
    exact Bool.false_ne_true ((hall c (List.contains_iff_mem.mp hmem)).symm.trans hc)
  have htrim : s.text.trim = s.text :=
    trim_eq_self (hother (fun _ => isBlank_of_isWord) h.startsIn_text)
      (hother (fun _ => isBlank_of_isWord) h.endsIn_text)
  rw [htrim, trimEndOf_eq_self (hother hmark h.endsIn_text), htrim]

/-- Reading a selector gives what its plain parts say. -/
theorem readSelector?_text (h : s.IsProper) : readSelector? s.text = s.read? := by
  have htrimmed := h.trimmed_text
  cases s with
  | unary n =>
    have hnone : selectorPart.allIn n = [] := by
      have hcolon : selectorPart.Needs [':'] := by
        intro x gs hx
        obtain ⟨q, -, rfl⟩ := Part.exists_isFound_of_spells hx
        exact (List.singleton_infix_iff _ _).mpr (by simp [Part.text])
      refine hcolon.allIn_eq_nil fun hin => ?_
      exact Bool.false_ne_true (h.word ':' ((List.singleton_infix_iff _ _).mp hin))
    rw [text] at htrimmed ⊢
    simp only [readSelector?, hnone, List.isEmpty_nil, if_true, List.map_nil, htrimmed, read?]
    rw [if_pos (fitsAll_name_iff.mpr ⟨h.ne_nil, h.word⟩)]
  | keyword first more =>
    set t := (keyword first more).text with ht
    have htext : t = partsText (([], first) :: more) := by
      rw [partsText_cons]
      rfl
    have hproper : ∀ p ∈ (([], first) :: more : List (Text × Part)),
        p.2.IsProper ∧ ∀ c ∈ p.1, isBlank c = true :=
      List.forall_mem_cons.mpr ⟨⟨h.1, List.forall_mem_nil _⟩, fun p hp =>
        ⟨(h.2 p hp).1, (h.2 p hp).2.2⟩⟩
    have hlength : more.length + 1 < 2 * t.length + 2 := by
      have := length_le_partsText (([], first) :: more)
      rw [List.length_cons, ← htext] at this
      omega
    have hfound : (selectorPart.allIn t).map (fun m => (m.group 1, m.group 2, m.group 3)) =
        ((first :: more.map (·.2)).filter Part.isPlain).map
          fun p => (p.label, p.type.getD [], p.name) :=
      map_matchesFrom_selectorPart hproper h.2 hlength htext
    set found := (first :: more.map (·.2)).filter Part.isPlain with hdef
    have hlabels : (selectorPart.allIn t).map (·.group 1) = found.map (·.label) := by
      have := congrArg (List.map (·.1)) hfound
      rwa [List.map_map, List.map_map] at this
    have hparams : ((selectorPart.allIn t).map fun m => ({ name := m.group 3, typeName := withoutStars (m.group 2), label := m.group 1 } : Parameter)) = found.map Part.parameter := by
      have := congrArg (List.map fun p : Text × Text × Text => ({ name := p.2.2, typeName := withoutStars p.2.1, label := p.1 } : Parameter)) hfound
      rwa [List.map_map, List.map_map] at this
    have hempty : (selectorPart.allIn t).isEmpty = found.isEmpty := by
      have := congrArg List.isEmpty hlabels
      rwa [List.isEmpty_map, List.isEmpty_map] at this
    simp only [readSelector?, hlabels, hparams, hempty, read?, parts, ← hdef]
    cases hnone : found.isEmpty with
    | true =>
      have hcolon : Pattern.name.fitsAll t = false := by
        rw [Bool.eq_false_iff]
        intro hfits
        have hmem : ':' ∈ t := by simp [ht, text, Part.text]
        exact Bool.false_ne_true ((fitsAll_name_iff.mp hfits).2 ':' hmem)
      rw [if_pos rfl, if_pos rfl, htrimmed, hcolon]
      rfl
    | false =>
      have hwords : ∀ c ∈ Selector.methodName (found.map (·.label)), isWord c = true := by
        refine isWord_of_mem_methodName fun label hlabel => ?_
        obtain ⟨p, hp, rfl⟩ := List.mem_map.mp hlabel
        exact isName_label h p (List.mem_of_mem_filter hp)
      have hne : Selector.methodName (found.map (·.label)) ≠ [] := by
        have hsome : found ≠ [] := fun hnil => by rw [hnil] at hnone; cases hnone
        obtain ⟨p, ps, hcons⟩ := List.exists_cons_of_ne_nil hsome
        have hp : p ∈ found := hcons ▸ List.mem_cons_self
        have hlabel := (isName_label h p (List.mem_of_mem_filter hp)).ne_nil
        rw [hcons, List.map_cons, Selector.methodName]
        exact List.append_ne_nil_of_left_ne_nil hlabel _
      rw [if_neg Bool.false_ne_true, if_pos (fitsAll_name_iff.mpr ⟨hne, hwords⟩),
        if_neg Bool.false_ne_true]

/-- Nothing is read of a selector exactly if it has parts and none of them is plain. -/
theorem read?_eq_none_iff :
    s.read? = none ↔ s.parts ≠ [] ∧ ∀ p ∈ s.parts, p.isPlain = false := by
  cases s with
  | unary n => simp [read?, parts]
  | keyword first more =>
    have hread : (keyword first more).read? = none ↔
        (keyword first more).parts.filter Part.isPlain = [] := by
      rw [read?, ← List.isEmpty_iff]
      split <;> simp_all
    rw [hread, List.filter_eq_nil_iff]
    simp [parts]

/-- If all parts are plain, all of the selector is read. -/
theorem read?_of_isPlain (h : ∀ p ∈ s.parts, p.isPlain = true) :
    s.read? = some (s.name, s.parameters) := by
  cases s with
  | unary n => rfl
  | keyword first more =>
    rw [read?, List.filter_eq_self.mpr h]
    rfl

/-- If some part is not plain, fewer parameters are read than the selector has. -/
theorem isPlain_of_read? {read : Text × List Parameter} (h : s.read? = some read)
    (hparams : read.2 = s.parameters) : ∀ p ∈ s.parts, p.isPlain = true := by
  cases s with
  | unary n => exact List.forall_mem_nil _
  | keyword first more =>
    rw [read?] at h
    obtain ⟨-, h⟩ := Option.ite_none_left_eq_some.mp h
    obtain rfl := Option.some.inj h
    have hlength := congrArg List.length hparams
    rw [parameters, List.length_map, List.length_map] at hlength
    exact List.length_filter_eq_length_iff.mp hlength

/-- No character of a selector ends the line of a method. -/
theorem IsProper.ne_mark (h : s.IsProper) : ∀ c ∈ s.text, c ≠ ';' ∧ c ≠ '\x7b' := by
  have hword {t : Text} (ht : ∀ c ∈ t, isWord c = true) : ∀ c ∈ t, c ≠ ';' ∧ c ≠ '\x7b' := by
    refine fun c hc => ⟨?_, ?_⟩ <;> rintro rfl <;> exact Bool.false_ne_true (ht _ hc)
  have hblank {t : Text} (ht : ∀ c ∈ t, isBlank c = true) : ∀ c ∈ t, c ≠ ';' ∧ c ≠ '\x7b' := by
    refine fun c hc => ⟨?_, ?_⟩ <;> rintro rfl <;> exact Bool.false_ne_true (ht _ hc)
  have htype {p : Part} (hp : p.IsProper) : ∀ c ∈ p.typeText, c ≠ ';' ∧ c ≠ '\x7b' := by
    intro c hc
    cases htype : p.type with
    | none => simp [Part.typeText, htype] at hc
    | some t =>
      simp only [Part.typeText, htype, Option.elim_some, List.mem_cons, List.mem_append,
        List.not_mem_nil, or_false] at hc
      rcases hc with rfl | hc | rfl
      · decide
      · have := hp.type t htype c hc
        constructor <;> rintro rfl <;> revert this <;> decide
      · decide
  have hpart {p : Part} (hp : p.IsProper) : ∀ c ∈ p.text, c ≠ ';' ∧ c ≠ '\x7b' := by
    simp only [Part.text, Part.argument, List.forall_mem_append, List.forall_mem_cons]
    exact ⟨hword hp.label.word, hblank hp.beforeColon, by decide, hblank hp.beforeType, htype hp,
      hblank hp.beforeName, hword hp.name.word⟩
  cases s with
  | unary n => exact hword h.word
  | keyword first more =>
    refine List.forall_mem_append.mpr ⟨hpart h.1, fun c hc => ?_⟩
    obtain ⟨p, hp, hc⟩ := List.mem_flatMap.mp hc
    exact List.forall_mem_append.mpr ⟨hblank (h.2 p hp).2.2, hpart (h.2 p hp).1⟩ c hc

end Signature

/-! ## The line of a method -/

/-- The line that begins the definition of a method, with the white space in it. The brace that
opens the body, and what follows it, may stand on this line. -/
structure Definition where
  isStatic : Bool
  beforeType : Text
  returnType : Text
  beforeSelector : Text
  selector : Signature
  opening : Option (Text × Text)

namespace Definition

variable {d : Definition}

/-- What stands behind the selector. -/
def tail (d : Definition) : Text := d.opening.elim [] fun o => o.1 ++ '\x7b' :: o.2

/-- The line as it is written. -/
def text (d : Definition) : Text :=
  (if d.isStatic then '+' else '-') :: (d.beforeType ++ '(' :: (d.returnType ++ ')' ::
    (d.beforeSelector ++ (d.selector.text ++ d.tail))))

/-- The line is put together from a type without parentheses, a selector and white space. -/
structure IsProper (d : Definition) : Prop where
  beforeType : ∀ c ∈ d.beforeType, isBlank c = true
  returnType : ')' ∉ d.returnType
  beforeSelector : ∀ c ∈ d.beforeSelector, isBlank c = true
  selector : d.selector.IsProper
  opening : ∀ o, d.opening = some o → ∀ c ∈ o.1, isBlank c = true

/-- What ends the line of a method. -/
def methodEnd : Pattern := (cap 4 (lit ";" <|> "\x7b" ++ any.star)).opt

/-- In front of an end of a selector no line of a method can end. -/
theorem run_methodEnd_eq_none {v rest : Text} (hv : endsIn isWord v = true)
    (hmarks : ∀ c ∈ v, c ≠ ';' ∧ c ≠ '\x7b' ∧ c ≠ '\n') {c : Cursor} (hc : c.after = v ++ rest) :
    blanks.run (methodEnd.run (textEnd.run some)) c = none := by
  rw [← Option.not_isSome_iff_eq_none]
  intro hrun
  obtain ⟨b, hb, hblank, hrun⟩ := isSome_run_star_one_iff.mp hrun
  obtain ⟨a, w, hdrop⟩ : ∃ a w, v.drop b.length = a :: w := by
    refine List.exists_cons_of_ne_nil fun hnil => ?_
    -- The white space would reach over the word that ends the selector.
    have hcover : v <+: b := by
      have hle := List.drop_eq_nil_iff.mp hnil
      exact List.prefix_of_prefix_length_le (hc ▸ List.prefix_append v rest) hb hle
    have hne : v ≠ [] := fun hnil => by rw [hnil] at hv; cases hv
    have hlast := hblank _ (hcover.subset (List.getLast_mem hne))
    rw [endsIn_eq isWord hne] at hv
    exact Bool.false_ne_true ((isWord_of_isBlank hlast).symm.trans hv)
  have ha : a ∈ v := List.mem_of_mem_drop (hdrop ▸ List.mem_cons_self)
  have hafter : (c.advance b.length).after = a :: w ++ rest := by
    have hlength : b.length ≤ v.length := by
      have := congrArg List.length hdrop
      rw [List.length_drop, List.length_cons] at this
      omega
    rw [← hdrop, Cursor.advance, hc, List.drop_append_of_le_length hlength]
  rcases isSome_run_opt_iff.mp hrun with hopen | hend
  · rcases isSome_run_orElse_iff.mp hopen with hsemicolon | hbrace
    · have := (isSome_run_text_iff.mp hsemicolon).1
      rw [hafter, List.cons_append] at this
      exact (hmarks a ha).1 (List.cons_prefix_cons.mp this).1.symm
    · have := (isSome_run_text_iff.mp hbrace).1
      rw [hafter, List.cons_append] at this
      exact (hmarks a ha).2.1 (List.cons_prefix_cons.mp this).1.symm
  · have hon : (c.advance b.length).onEnd = true := by
      by_contra hon
      change (if (c.advance b.length).onEnd then _ else none : Option Cursor).isSome = true at hend
      rw [if_neg hon] at hend
      cases hend
    simp only [Cursor.onEnd, hafter, List.cons_append, List.isEmpty_cons, Bool.false_or,
      beq_iff_eq, List.cons.injEq] at hon
    exact (hmarks a ha).2.2 hon.1

/-- What ends a line of a method is taken up to the end of the line. -/
theorem exists_takes_tail (hd : d.IsProper) (hline : '\n' ∉ d.tail) :
    ∃ gs : GroupsAt, (blanks ++ methodEnd).Takes d.tail [] gs ∧ ∀ pos,
      ((gs pos).lookup 4).map (·.text) = d.opening.map (fun o => '\x7b' :: o.2) ∧
        ∀ i ≠ 4, (gs pos).lookup i = none := by
  cases hopening : d.opening with
  | none =>
    have htail : d.tail = [] ++ [] := by rw [tail, hopening]; rfl
    have hblanks : blanks.Takes [] ([] ++ []) noGroups := takes_star (List.forall_mem_nil _) rfl
    have hend : methodEnd.Takes [] [] noGroups :=
      takes_opt_nil fun k c hc => Refuses.orElse (refuses_one rfl) ((refuses_one rfl).append _) _ c hc
    rw [htail]
    exact ⟨_, hblanks.append hend, fun pos => ⟨rfl, fun i _ => rfl⟩⟩
  | some o =>
    obtain ⟨b, more⟩ := o
    have htail : d.tail = b ++ ('\x7b' :: more) := by rw [tail, hopening]; rfl
    rw [htail] at hline ⊢
    have hmore : ∀ c ∈ more, (c != '\n') = true := fun c hc => bne_iff_ne.mpr fun h =>
      hline (h ▸ List.mem_append_right _ (List.mem_cons_of_mem _ hc))
    have hblanks : blanks.Takes b ('\x7b' :: more ++ []) noGroups :=
      takes_star (hd.opening _ hopening) rfl
    have hbrace : (lit "\x7b" ++ any.star).Takes (['\x7b'] ++ more) [] noGroups :=
      (takes_text ['\x7b'] (more ++ [])).append (takes_star hmore rfl)
    have hend : methodEnd.Takes ('\x7b' :: more) [] fun pos => [(4, ⟨pos, '\x7b' :: more⟩)] :=
      ((Takes.right (refuses_one rfl) hbrace).cap 4).opt (List.cons_ne_nil _ _)
    refine ⟨_, hblanks.append hend, fun pos => ⟨rfl, fun i hi => ?_⟩⟩
    have hother : (i == 4) = false := beq_eq_false_iff_ne.mpr hi
    simp [noGroups, List.lookup_cons, hother]

/-- What stands in front of the selector. -/
def front (d : Definition) : Text :=
  (if d.isStatic then '+' else '-') :: (d.beforeType ++ '(' :: (d.returnType ++ ')' ::
    d.beforeSelector))

/-- How the line of a method begins. -/
def methodFront : Pattern :=
  cap 1 (oneOf (among "-+")) ++ blanks ++ "(" ++ cap 2 (noneOf (among ")")).star ++ ")" ++ blanks

theorem exists_takes_front (hd : d.IsProper) {rest : Text}
    (hrest : rest.head?.any isBlank = false) :
    ∃ gs : GroupsAt, methodFront.Takes d.front rest gs ∧ ∀ pos,
      ((gs pos).lookup 1).map (·.text) = some [if d.isStatic then '+' else '-'] ∧
        ((gs pos).lookup 2).map (·.text) = some d.returnType ∧ (gs pos).lookup 4 = none := by
  have hsign : among "-+" (if d.isStatic then '+' else '-') = true := by split <;> decide
  have hreturn : ∀ c ∈ d.returnType, outside (among ")") c = true := by
    intro c hc
    have hne : c ≠ ')' := fun h => hd.returnType (h ▸ hc)
    simp [outside, among, hne]
  have h₁ := (takes_one hsign
    (d.beforeType ++ '(' :: (d.returnType ++ ')' :: (d.beforeSelector ++ rest)))).cap 1
  have h₂ : blanks.Takes d.beforeType
      ('(' :: (d.returnType ++ ')' :: (d.beforeSelector ++ rest))) noGroups :=
    takes_star hd.beforeType rfl
  have h₃ : (lit "(").Takes ['('] (d.returnType ++ ')' :: (d.beforeSelector ++ rest)) noGroups :=
    takes_text _ _
  have h₄ : (cap 2 (noneOf (among ")")).star).Takes d.returnType
      (')' :: (d.beforeSelector ++ rest)) fun pos => [(2, ⟨pos, d.returnType⟩)] :=
    (takes_star hreturn rfl).cap 2
  have h₅ : (lit ")").Takes [')'] (d.beforeSelector ++ rest) noGroups := takes_text _ _
  have h₆ : blanks.Takes d.beforeSelector rest noGroups := takes_star hd.beforeSelector hrest
  have htakes := ((((h₁.append h₂).append h₃).append h₄).append h₅).append h₆
  have hfront : [if d.isStatic then '+' else '-'] ++ d.beforeType ++ ['('] ++ d.returnType ++
      [')'] ++ d.beforeSelector = d.front := by
    simp [front]
  rw [hfront] at htakes
  exact ⟨_, htakes, fun pos => ⟨rfl, rfl, rfl⟩⟩

theorem text_eq : d.text = d.front ++ (d.selector.text ++ d.tail) := by
  simp [text, front]

/-- The line of a definition is taken apart as it was put together. -/
theorem exists_match?_methodLine (hd : d.IsProper) (hline : '\n' ∉ d.text) :
    ∃ f, methodLine.match? d.text = some f ∧ f.group 1 = [if d.isStatic then '+' else '-'] ∧
      f.group 2 = d.returnType ∧ f.group 3 = d.selector.text ∧
        f.group? 4 = d.opening.map fun o => '\x7b' :: o.2 := by
  rw [text_eq, List.mem_append, List.mem_append, not_or, not_or] at hline
  obtain ⟨-, hselector, htail⟩ := hline
  have hword := hd.selector.startsIn_text
  have hne : d.selector.text ≠ [] := fun hnil => by rw [hnil] at hword; cases hword
  have hhead : (d.selector.text ++ d.tail).head?.any isBlank = false := by
    rw [List.head?_append_of_ne_nil _ hne]
    obtain ⟨a, w, hcons⟩ := List.exists_cons_of_ne_nil hne
    rw [hcons] at hword ⊢
    exact isBlank_of_isWord hword
  have hany : ∀ c ∈ d.selector.text, (c != '\n') = true := fun c hc =>
    bne_iff_ne.mpr fun h => hselector (h ▸ hc)
  obtain ⟨gs, hfront, hsign⟩ := exists_takes_front hd hhead
  obtain ⟨gs', hend, hopening⟩ := exists_takes_tail hd htail
  set c : Cursor := Cursor.atOffset d.text 0 with hc
  have hstart : c.after = d.front ++ (d.selector.text ++ d.tail) := by
    rw [hc, ← text_eq]
    rfl
  set c₁ := c.behind d.front gs with hc₁
  have hafter₁ : c₁.after = d.selector.text ++ d.tail := Cursor.after_behind hstart gs
  set c₂ : Cursor := { c₁.advance d.selector.text.length with
    groups := (3, ⟨c₁.pos, d.selector.text⟩) :: c₁.groups } with hc₂
  have hafter₂ : c₂.after = d.tail ++ [] := by
    simp [hc₂, Cursor.advance, hafter₁]
  have hlast : blanks.run (methodEnd.run (textEnd.run some)) c₂ = some (c₂.behind d.tail gs') := by
    refine hend (textEnd.run some) c₂ _ hafter₂ ?_
    have hon : (c₂.behind d.tail gs').onEnd = true := by
      have := Cursor.after_behind hafter₂ gs'
      simp [Cursor.onEnd, this]
    exact if_pos hon
  have hmiddle : (cap 3 any.plusLazy).run (blanks.run (methodEnd.run (textEnd.run some))) c₁ =
      some (c₂.behind d.tail gs') := by
    refine run_plusLazy_one hne hany hafter₁ (fun u v hsplit hu hv => ?_) ?_
    · have hv' : endsIn isWord v = true := by
        have hends := hd.selector.endsIn_text
        rwa [hsplit, endsIn_append isWord hv] at hends
      have hmarks : ∀ a ∈ v, a ≠ ';' ∧ a ≠ '\x7b' ∧ a ≠ '\n' := by
        intro a ha
        have hmem : a ∈ d.selector.text := hsplit ▸ List.mem_append_right u ha
        exact ⟨(hd.selector.ne_mark a hmem).1, (hd.selector.ne_mark a hmem).2,
          fun h => hselector (h ▸ hmem)⟩
      have hafter : (c₁.advance u.length).after = v ++ d.tail := by
        simp [Cursor.advance, hafter₁, hsplit]
      exact run_methodEnd_eq_none hv' hmarks hafter
    · have htext : c₁.textTo (c₁.advance d.selector.text.length) = d.selector.text := by
        simp [Cursor.textTo, Cursor.advance, hafter₁]
      rw [htext]
      exact hlast
  have hrun : methodLine.run some c = some (c₂.behind d.tail gs') := hfront _ c _ hstart hmiddle
  have hgroup (i : Nat) : (Match.ofCursors d.text c (c₂.behind d.tail gs')).group? i =
      (((gs' c₂.pos).lookup i).or (((3, (⟨c₁.pos, d.selector.text⟩ : Capture)) :: gs c.pos).lookup
        i)).map (·.text) := by
    rw [← List.lookup_append]
    simp [Match.group?, Match.ofCursors, Cursor.behind, hc₂, hc₁, hc, Cursor.atOffset, Cursor.advance]
  obtain ⟨hfour, hothers⟩ := hopening c₂.pos
  refine ⟨Match.ofCursors d.text c (c₂.behind d.tail gs'), ?_, ?_, ?_, ?_, ?_⟩
  · rw [match?, matchAt?, ← hc, hrun]
    rfl
  · rw [Match.group, hgroup, hothers 1 (by decide), Option.none_or]
    exact congrArg (·.getD []) (hsign c.pos).1
  · rw [Match.group, hgroup, hothers 2 (by decide), Option.none_or]
    exact congrArg (·.getD []) (hsign c.pos).2.1
  · rw [Match.group, hgroup, hothers 3 (by decide), Option.none_or]
    rfl
  · rw [hgroup, ← hfour]
    cases (gs' c₂.pos).lookup 4 with
    | none => exact congrArg (Option.map _) (hsign c.pos).2.2
    | some g => rfl

end Definition

end HostScript.Declaration.ObjC
