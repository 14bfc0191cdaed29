import HostScript.Optimize
import HostScript.Proofs.Numeral
import HostScript.Proofs.Pattern.Forms
import HostScript.Proofs.Pattern.Found

/-!
# The headers of counted loops

A counted loop is found where no name reaches into its header, and a header is made of parts around
two copies of the counter. The first sign in its test is a comparison and in its step a plus, so no
header starts inside another one, and a search lists every place where a header starts.
-/

namespace HostScript

/-- A text is divided in one way at the first of its characters of a kind. -/
theorem eq_of_append_cons_eq {c : Char} {x y s t : Text} (hx : c ∉ x) (hy : c ∉ y)
    (h : x ++ c :: s = y ++ c :: t) : x = y ∧ s = t := by
  induction x generalizing y with
  | nil =>
    cases y with
    | nil => exact ⟨rfl, (List.cons.inj h).2⟩
    | cons d y => exact absurd ((List.cons.inj h).1 ▸ List.mem_cons_self) hy
  | cons a x ih =>
    rw [List.mem_cons, not_or] at hx
    cases y with
    | nil => exact absurd (List.cons.inj h).1.symm hx.1
    | cons d y =>
      rw [List.mem_cons, not_or] at hy
      obtain ⟨rfl, hrest⟩ := List.cons.inj h
      obtain ⟨rfl, rfl⟩ := ih hx.2 hy.2 hrest
      exact ⟨rfl, rfl⟩

/-- Two texts differ whose first signs out of two differ. -/
theorem append_cons_ne_append_cons {c d : Char} {x y : Text} (hcd : c ≠ d) (hx : d ∉ x) (hy : c ∉ y)
    (s t : Text) : x ++ c :: s ≠ y ++ d :: t := by
  intro h
  rcases List.append_eq_append_iff.mp h with ⟨z, rfl, hz⟩ | ⟨z, rfl, hz⟩
  · cases z with
    | nil => exact hcd (List.cons.inj hz).1
    | cons e z => exact hy ((List.cons.inj hz).1 ▸ by simp)
  · cases z with
    | nil => exact hcd (List.cons.inj hz).1.symm
    | cons e z => exact hx ((List.cons.inj hz).1 ▸ by simp)

namespace Optimize

open Pattern

/-! ## Parts of a header -/

/-- What stands before the counter. -/
def loopStart : Pattern := "for" ++ blanks ++ "(" ++ blanks ++ choice ["let", "var"] ++ gap

/-- What stands between the counter and its copy in the test. -/
def loopAssign : Pattern := blanks ++ "=" ++ blanks ++ "0" ++ blanks ++ ";" ++ blanks

/-- What stands between the copy and the bound. -/
def loopCompare : Pattern := blanks ++ "<" ++ blanks

/-- What stands between the test and the closing parenthesis. -/
def loopStep : Pattern := blanks ++ countUp ++ blanks

/-- The header of a counted loop, part by part. -/
def loopHeader : Pattern :=
  loopStart ++ (cap 1 ident ++ (loopAssign ++ (same 1 ++ (loopCompare ++
    ((noneOf (among ";")).plus ++ (";" ++ (loopStep ++ ")")))))))

/-- A counted loop is a header that no name reaches into. -/
theorem run_countedLoop (k : Cursor → Option Cursor) (c : Cursor) :
    countedLoop.run k c =
      if c.before.head?.any (isWord ||| among "$.") then none else loopHeader.run k c :=
  run_notAfter _ _ _

/-- The parts of a header. -/
structure LoopParts where
  start : Text
  counter : Text
  assign : Text
  compare : Text
  bound : Text
  step : Text

namespace LoopParts

/-- What stands before the bound. -/
def head (l : LoopParts) : Text := l.start ++ (l.counter ++ (l.assign ++ (l.counter ++ l.compare)))

/-- What stands behind the bound. -/
def tail (l : LoopParts) : Text := ';' :: (l.step ++ [')'])

/-- The header. -/
def text (l : LoopParts) : Text := l.head ++ (l.bound ++ l.tail)

/-- Parts as they occur in a header. -/
structure IsSound (l : LoopParts) : Prop where
  start : loopStart.Forms [] l.start []
  counter : ident.Forms [] l.counter []
  assign : loopAssign.Forms [(1, l.counter)] l.assign []
  compare : loopCompare.Forms [(1, l.counter)] l.compare []
  bound : l.bound ≠ [] ∧ ';' ∉ l.bound
  step : loopStep.Forms [(1, l.counter)] l.step []

end LoopParts

/-- The texts of headers. -/
theorem forms_loopHeader_iff {x : Text} {gs : GroupTexts} :
    loopHeader.Forms [] x gs ↔ ∃ l : LoopParts, l.IsSound ∧ x = l.text ∧ gs = [(1, l.counter)] := by
  constructor
  · rintro ⟨start, _, _, _, rfl, rfl, hstart, counter, _, _, _, rfl, rfl, ⟨_, rfl, hcounter⟩,
      assign, _, _, _, rfl, rfl, hassign, _, _, _, _, rfl, rfl, ⟨hsame, rfl⟩,
      compare, _, _, _, rfl, rfl, hcompare, bound, _, _, _, rfl, rfl, hbound,
      _, _, _, _, rfl, rfl, hsemicolon, step, _, _, _, rfl, rfl, hstep, hclose⟩
    obtain rfl := hstart.groups_eq_nil rfl
    obtain rfl := hcounter.groups_eq_nil rfl
    obtain rfl := hassign.groups_eq_nil rfl
    obtain rfl := hcompare.groups_eq_nil rfl
    obtain ⟨hne, hall, rfl⟩ := forms_plus_iff.mp hbound
    obtain ⟨rfl, rfl⟩ := forms_lit_iff.mp hsemicolon
    obtain rfl := hstep.groups_eq_nil rfl
    obtain ⟨rfl, rfl⟩ := forms_lit_iff.mp hclose
    obtain rfl := Option.some.inj hsame
    refine ⟨⟨start, counter, assign, compare, bound, step⟩, ⟨hstart, hcounter, hassign, hcompare,
      ⟨hne, fun hmem => absurd (hall _ hmem) (by decide)⟩, hstep⟩, ?_, rfl⟩
    simp [LoopParts.text, LoopParts.head, LoopParts.tail]
  · rintro ⟨l, hl, rfl, rfl⟩
    have hbound : (noneOf (among ";")).plus.Forms [(1, l.counter)] l.bound [] := by
      refine forms_plus_iff.mpr ⟨hl.bound.1, fun a ha => ?_, rfl⟩
      have hne : a ≠ ';' := fun h => hl.bound.2 (h ▸ ha)
      simpa [outside, among] using hne
    have htail : (";" ++ (loopStep ++ ")") : Pattern).Forms [(1, l.counter)] l.tail [] :=
      ⟨[';'], _, [], [], rfl, rfl, forms_lit_iff.mpr ⟨rfl, rfl⟩,
        l.step, [')'], [], [], rfl, rfl, hl.step, forms_lit_iff.mpr ⟨rfl, rfl⟩⟩
    have htext : l.text = l.start ++ (l.counter ++ (l.assign ++ (l.counter ++ (l.compare ++
        (l.bound ++ l.tail))))) := by
      simp [LoopParts.text, LoopParts.head]
    rw [htext]
    exact ⟨l.start, _, [], _, rfl, rfl, hl.start, l.counter, _, [(1, l.counter)], [], rfl, rfl,
      ⟨[], rfl, hl.counter⟩, l.assign, _, [], [], rfl, rfl, hl.assign,
      l.counter, _, [], [], rfl, rfl, ⟨rfl, rfl⟩, l.compare, _, [], [], rfl, rfl, hl.compare, l.bound, _, [], [], rfl, rfl, hbound,
      htail⟩

/-! ## No header inside another -/

/-- The characters of names and white space. -/
def isNameOrBlank : CharSet := isIdentPart ||| isBlank

theorem isNameOrBlank_of_isIdentPart {c : Char} (h : isIdentPart c = true) :
    isNameOrBlank c = true := Bool.or_eq_true_iff.mpr (Or.inl h)

theorem isNameOrBlank_of_isBlank {c : Char} (h : isBlank c = true) :
    isNameOrBlank c = true := Bool.or_eq_true_iff.mpr (Or.inr h)

/-- A header seen by its signs: the parenthesis, the two semicolons, and the first sign in the test
and in the step. -/
structure IsOutline (x : Text) (b q v r w s : Text) : Prop where
  text : x = ("for".toList ++ b ++ '(' :: q) ++
    ';' :: ((v ++ '<' :: r) ++ ';' :: ((w ++ '+' :: s) ++ [')']))
  space : ∀ c ∈ b, isBlank c = true
  init : ∀ c ∈ q, isNameOrBlank c = true ∨ c = '='
  test : ∀ c ∈ v, isNameOrBlank c = true
  bound : ';' ∉ r
  counted : ∀ c ∈ w, isNameOrBlank c = true
  step : ∀ c ∈ s, isNameOrBlank c = true ∨ c = '=' ∨ c = '+'

theorem LoopParts.IsSound.isNameOrBlank_counter {l : LoopParts} (hl : l.IsSound) :
    ∀ c ∈ l.counter, isNameOrBlank c = true := by
  obtain ⟨_, z, _, _, hcounter, -, ⟨a, ha, rfl, -⟩, hz⟩ := hl.counter
  rw [hcounter]
  exact List.forall_mem_cons.mpr ⟨isNameOrBlank_of_isIdentPart (isIdentPart_of_isIdentStart ha),
    fun c hc => isNameOrBlank_of_isIdentPart ((forms_star_iff.mp hz).1 c hc)⟩

/-- A step is counted up by a plus sign, behind names and white space at most. -/
theorem exists_plus_of_loopStep {i x : Text} (h : loopStep.Forms [(1, i)] x [])
    (hi : ∀ c ∈ i, isNameOrBlank c = true) :
    ∃ w s, x = w ++ '+' :: s ∧ (∀ c ∈ w, isNameOrBlank c = true) ∧
      ∀ c ∈ s, isNameOrBlank c = true ∨ c = '=' ∨ c = '+' := by
  have hblank {b : Text} {env gs : GroupTexts} (h : blanks.Forms env b gs) :
      ∀ c ∈ b, isNameOrBlank c = true :=
    fun c hc => isNameOrBlank_of_isBlank ((forms_blanks_iff.mp h).1 c hc)
  obtain ⟨_, e₂, _, _, rfl, -, ⟨e₁, u, _, _, rfl, -, he₁, hu⟩, he₂⟩ := h
  obtain rfl := he₁.groups_eq_nil rfl
  rcases hu with hu | hu | hu
  · obtain ⟨_, _, _, _, rfl, -, ⟨_, b, _, _, rfl, -, ⟨hsame, rfl⟩, hb⟩, hsign⟩ := hu
    obtain rfl := Option.some.inj hsame
    obtain ⟨rfl, -⟩ := forms_lit_iff.mp hsign
    refine ⟨e₁ ++ (i ++ b), '+' :: e₂, by simp, ?_, ?_⟩
    · simp only [List.mem_append]
      rintro c (hc | hc | hc)
      exacts [hblank he₁ c hc, hi c hc, hblank hb c hc]
    · rintro c (_ | ⟨_, hc⟩)
      exacts [Or.inr (Or.inr rfl), Or.inl (hblank he₂ c hc)]
  · obtain ⟨_, _, _, _, rfl, -, hstart, hsame⟩ := hu
    obtain rfl := hstart.groups_eq_nil rfl
    obtain rfl := Option.some.inj hsame.1
    obtain ⟨_, b, _, _, rfl, -, hsign, hb⟩ := hstart
    obtain ⟨rfl, -⟩ := forms_lit_iff.mp hsign
    refine ⟨e₁, '+' :: (b ++ (i ++ e₂)), by simp, hblank he₁, ?_⟩
    simp only [List.mem_cons, List.mem_append]
    rintro c (rfl | hc | hc | hc)
    exacts [Or.inr (Or.inr rfl), Or.inl (hblank hb c hc), Or.inl (hi c hc),
      Or.inl (hblank he₂ c hc)]
  · obtain ⟨_, _, _, _, rfl, -, ⟨_, b', _, _, rfl, -, ⟨_, _, _, _, rfl, -, ⟨_, b, _, _, rfl, -,
      ⟨hsame, rfl⟩, hb⟩, hsign⟩, hb'⟩, hone⟩ := hu
    obtain rfl := Option.some.inj hsame
    obtain ⟨rfl, -⟩ := forms_lit_iff.mp hsign
    obtain ⟨rfl, -⟩ := forms_lit_iff.mp hone
    have hdigit : isNameOrBlank '1' = true := by decide
    refine ⟨e₁ ++ (i ++ b), '=' :: (b' ++ '1' :: e₂), by simp, ?_, ?_⟩
    · simp only [List.mem_append]
      rintro c (hc | hc | hc)
      exacts [hblank he₁ c hc, hi c hc, hblank hb c hc]
    · simp only [List.mem_cons, List.mem_append]
      rintro c (rfl | hc | rfl | hc)
      exacts [Or.inr (Or.inl rfl), Or.inl (hblank hb' c hc), Or.inl hdigit,
        Or.inl (hblank he₂ c hc)]

theorem LoopParts.IsSound.exists_outline {l : LoopParts} (hl : l.IsSound) :
    ∃ b q v r w s, IsOutline l.text b q v r w s := by
  have hname := hl.isNameOrBlank_counter
  have hblank {b : Text} {env gs : GroupTexts} (h : blanks.Forms env b gs) :
      ∀ c ∈ b, isNameOrBlank c = true :=
    fun c hc => isNameOrBlank_of_isBlank ((forms_blanks_iff.mp h).1 c hc)
  obtain ⟨_, b₃, _, _, hstart, -, ⟨_, kw, _, _, rfl, -, ⟨_, b₂, _, _, rfl, -, ⟨_, _, _, _, rfl, -,
    ⟨_, b₁, _, _, rfl, -, hfor, hb₁⟩, hopen⟩, hb₂⟩, hkw⟩, hb₃⟩ := hl.start
  obtain ⟨rfl, -⟩ := forms_lit_iff.mp hfor
  obtain ⟨rfl, -⟩ := forms_lit_iff.mp hopen
  obtain ⟨⟨kw, hmem, rfl⟩, -⟩ := (forms_choice_iff (by simp)).mp hkw
  obtain ⟨_, b₇, _, _, hassign, -, ⟨_, _, _, _, rfl, -, ⟨_, b₆, _, _, rfl, -, ⟨_, _, _, _, rfl, -,
    ⟨_, b₅, _, _, rfl, -, ⟨b₄, _, _, _, rfl, -, hb₄, hequal⟩, hb₅⟩, hzero⟩, hb₆⟩, hsemi⟩, hb₇⟩ :=
    hl.assign
  obtain ⟨rfl, -⟩ := forms_lit_iff.mp hequal
  obtain ⟨rfl, -⟩ := forms_lit_iff.mp hzero
  obtain ⟨rfl, -⟩ := forms_lit_iff.mp hsemi
  obtain ⟨_, b₉, _, _, hcompare, -, ⟨b₈, _, _, _, rfl, -, hb₈, hless⟩, hb₉⟩ := hl.compare
  obtain ⟨rfl, -⟩ := forms_lit_iff.mp hless
  obtain ⟨w, s, hstep, hw, hs⟩ := exists_plus_of_loopStep hl.step hname
  refine ⟨b₁, b₂ ++ (kw.toList ++ (b₃ ++ (l.counter ++ (b₄ ++ '=' :: (b₅ ++ '0' :: b₆))))),
    b₇ ++ (l.counter ++ b₈), b₉ ++ l.bound, w, s, ?_, ?_, ?_, ?_, ?_, hw, hs⟩
  · simp [LoopParts.text, LoopParts.head, LoopParts.tail, hstart, hassign, hcompare, hstep]
  · exact (forms_blanks_iff.mp hb₁).1
  · have hkw : ∀ c ∈ kw.toList, isNameOrBlank c = true := by
      have hall : ∀ w ∈ ["let", "var"], w.toList.all isNameOrBlank = true := by decide
      exact List.all_eq_true.mp (hall kw hmem)
    have hgap : ∀ c ∈ b₃, isNameOrBlank c = true :=
      fun c hc => isNameOrBlank_of_isBlank ((forms_gap_iff.mp hb₃).2.1 c hc)
    have hzero : isNameOrBlank '0' = true := by decide
    simp only [List.mem_append, List.mem_cons]
    rintro c (hc | hc | hc | hc | hc | rfl | hc | rfl | hc)
    · exact Or.inl (hblank hb₂ c hc)
    · exact Or.inl (hkw c hc)
    · exact Or.inl (hgap c hc)
    · exact Or.inl (hname c hc)
    · exact Or.inl (hblank hb₄ c hc)
    · exact Or.inr rfl
    · exact Or.inl (hblank hb₅ c hc)
    · exact Or.inl hzero
    · exact Or.inl (hblank hb₆ c hc)
  · simp only [List.mem_append]
    rintro c (hc | hc | hc)
    · exact hblank hb₇ c hc
    · exact hname c hc
    · exact hblank hb₈ c hc
  · rw [List.mem_append, not_or]
    exact ⟨fun hmem => absurd (hblank hb₉ _ hmem) (by decide), hl.bound.2⟩

namespace IsOutline

variable {x y b q v r w s b' q' v' r' w' s' u t t' : Text}

/-- There is one parenthesis before the first semicolon. -/
theorem notMem_opening (hx : IsOutline x b q v r w s) :
    '(' ∉ "for".toList ++ b ∧ '(' ∉ q ∧ ';' ∉ "for".toList ++ b ++ '(' :: q := by
  have hb (c : Char) (hc : isBlank c = false) : c ∉ b := fun hmem => by
    rw [hx.space c hmem] at hc
    cases hc
  have hq (c : Char) (hc : isNameOrBlank c = false) (hne : c ≠ '=') : c ∉ q := fun hmem => by
    rcases hx.init c hmem with h | h
    · rw [h] at hc
      cases hc
    · exact hne h
  have h₁ := hb '(' (by decide)
  have h₂ := hq '(' (by decide) (by decide)
  have h₃ := hb ';' (by decide)
  have h₄ := hq ';' (by decide) (by decide)
  refine ⟨by simp [h₁], h₂, by simp [h₃, h₄]⟩

/-- No header starts before the first semicolon of another one. -/
theorem not_inside_start (hx : IsOutline x b q v r w s) (hy : IsOutline y b' q' v' r' w' s')
    (hu : u ≠ []) :
    "for".toList ++ b ++ '(' :: q ≠ u ++ ("for".toList ++ b' ++ '(' :: q') := by
  intro h
  obtain ⟨hopen, hq, -⟩ := hx.notMem_opening
  obtain ⟨hopen', hq', -⟩ := hy.notMem_opening
  have hcount := congrArg (List.count '(') h
  simp only [List.count_append, List.count_cons_self, List.count_eq_zero_of_not_mem hq,
    List.count_eq_zero_of_not_mem hq'] at hcount
  rw [← List.count_append, ← List.count_append, List.count_eq_zero_of_not_mem hopen,
    List.count_eq_zero_of_not_mem hopen'] at hcount
  have hnone : '(' ∉ u := List.count_eq_zero.mp (by omega)
  have hsplit : "for".toList ++ b ++ '(' :: q = (u ++ ("for".toList ++ b')) ++ '(' :: q' := by
    rw [h]
    simp
  have hfor := (eq_of_append_cons_eq hopen (by
    rw [List.mem_append, not_or]
    exact ⟨hnone, hopen'⟩) hsplit).1
  obtain ⟨a, u, rfl⟩ := List.exists_cons_of_ne_nil hu
  have hrest : 'o' :: 'r' :: b = u ++ 'f' :: ('o' :: 'r' :: b') := (List.cons.inj hfor).2
  have hmem : 'f' ∈ 'o' :: 'r' :: b := by
    rw [hrest]
    simp
  have hb : 'f' ∉ b := fun hmem => absurd (hx.space _ hmem) (by decide)
  simp [hb] at hmem

/-- There is no semicolon in the test and the bound. -/
theorem notMem_test (hx : IsOutline x b q v r w s) : ';' ∉ v ++ '<' :: r := by
  have hv : ';' ∉ v := fun hmem => absurd (hx.test _ hmem) (by decide)
  simp [hv, hx.bound]

/-- A test is no step. -/
theorem test_ne_step (hx : IsOutline x b q v r w s) (hy : IsOutline y b' q' v' r' w' s') :
    v' ++ '<' :: (r' ++ t') ≠ w ++ '+' :: (s ++ t) :=
  append_cons_ne_append_cons (by decide) (fun hmem => absurd (hy.test _ hmem) (by decide))
    (fun hmem => absurd (hx.counted _ hmem) (by decide)) _ _

/-- No header starts in the step of another one. -/
theorem not_inside_step (hx : IsOutline x b q v r w s) (hy : IsOutline y b' q' v' r' w' s')
    {z : Text} (hz : z <:+ w ++ '+' :: s) : z ++ ')' :: t ≠ y ++ t' := by
  rw [hy.text]
  intro h
  have hsplit : z ++ ')' :: t = ("for".toList ++ b') ++ '(' :: (q' ++ ';' :: ((v' ++ '<' :: r') ++
      ';' :: ((w' ++ '+' :: s') ++ [')']) ++ t')) := by
    rw [h]
    simp
  have hopen : '(' ∉ z := by
    intro hmem
    have := hz.subset hmem
    rw [List.mem_append, List.mem_cons] at this
    rcases this with hw | hplus | hs
    · exact absurd (hx.counted _ hw) (by decide)
    · exact absurd hplus (by decide)
    · exact absurd (hx.step _ hs) (by decide)
  have hclose : ')' ∉ "for".toList ++ b' := by
    have hb : ')' ∉ b' := fun hmem => absurd (hy.space _ hmem) (by decide)
    simp [hb]
  exact append_cons_ne_append_cons (by decide) hopen hclose _ _ hsplit

/-- No header starts inside another one: not in its first part, which would have two parentheses,
not in the bound, whose step would be a test, and not in the step, which has no parenthesis. -/
theorem not_inside (hx : IsOutline x b q v r w s) (hy : IsOutline y b' q' v' r' w' s')
    (hu : u ≠ []) (hlt : u.length < x.length) : x ++ t ≠ u ++ (y ++ t') := by
  intro h
  have hopen : "for".toList ++ b' ++ '(' :: q' ++ ';' :: (v' ++ '<' :: (r' ++ ';' ::
      ((w' ++ '+' :: s') ++ ')' :: t'))) = y ++ t' := by
    rw [hy.text]
    simp
  have hx' : x ++ t = "for".toList ++ b ++ '(' :: q ++ ';' :: (v ++ '<' :: r ++ ';' ::
      (w ++ '+' :: s ++ ')' :: t)) := by
    rw [hx.text]
    simp
  rw [hx'] at h
  rcases List.append_eq_append_iff.mp h with ⟨z, rfl, hz⟩ | ⟨z, hz, hy'⟩
  · cases z with
    | nil =>
      rw [← hopen] at hz
      exact absurd (List.cons.inj hz).1 (by decide)
    | cons c z =>
      obtain ⟨rfl, hbehind⟩ := List.cons.inj hz
      rcases List.append_eq_append_iff.mp hbehind with ⟨z', rfl, hz'⟩ | ⟨z', hz', hy'⟩
      · cases z' with
        | nil =>
          rw [← hopen] at hz'
          exact absurd (List.cons.inj hz').1 (by decide)
        | cons c z' =>
          obtain ⟨rfl, hend⟩ := List.cons.inj hz'
          have hshort : z'.length ≤ (w ++ '+' :: s).length := by
            have hlength := congrArg List.length hx.text
            simp only [List.length_append, List.length_cons, List.length_nil] at hlength hlt ⊢
            omega
          have hend : (w ++ '+' :: s) ++ ')' :: t = z' ++ (y ++ t') := hend
          obtain ⟨z'', hz''⟩ : z' <+: w ++ '+' :: s :=
            List.prefix_of_prefix_length_le (hend ▸ List.prefix_append z' (y ++ t'))
              (List.prefix_append _ (')' :: t)) hshort
          rw [← hz'', List.append_assoc] at hend
          exact hx.not_inside_step hy ⟨z', hz''⟩ (List.append_cancel_left hend)
      · rw [← hopen] at hy'
        have hrest := (eq_of_append_cons_eq hy.notMem_opening.2.2 (by
          have := hx.notMem_test
          rw [hz', List.mem_append, not_or] at this
          exact this.2) hy').2
        have hne : v' ++ '<' :: (r' ++ ';' :: (w' ++ '+' :: s' ++ ')' :: t')) ≠
            w ++ '+' :: (s ++ ')' :: t) := hx.test_ne_step hy
        refine hne ?_
        rw [hrest, List.append_assoc, List.cons_append]
  · rw [← hopen] at hy'
    have hfirst := (eq_of_append_cons_eq hy.notMem_opening.2.2 (by
      have := hx.notMem_opening.2.2
      rw [hz, List.mem_append, not_or] at this
      exact this.2) hy').1
    exact hx.not_inside_start hy hu (hfirst ▸ hz)

end IsOutline

/-! ## Where headers start -/

variable {t : Text}

/-- A fit that a search for counted loops lists is a header. -/
theorem exists_parts_of_loop {m : Match} (hm : m ∈ countedLoop.allIn t) :
    ∃ l : LoopParts, l.IsSound ∧ m.text = l.text ∧
      m.before.getLast?.any (isWord ||| among "$.") = false := by
  have ht : t = ([] : Text).reverse ++ t := rfl
  obtain ⟨subject, stop, length, -⟩ := (fitsFrom_allIn countedLoop t).of_mem hm
  obtain ⟨k, e, hk, -, hrun, hafter⟩ := run_of_mem_matchesFrom ht hm
  rw [run_countedLoop] at hrun
  obtain ⟨hfresh, hrun⟩ := Option.ite_none_left_eq_some.mp hrun
  obtain ⟨x, gs, d, hforms, hpass, hd⟩ := exists_form_of_run rfl hrun
  obtain rfl := hk d e hd
  obtain ⟨l, hl, rfl, -⟩ := forms_loopHeader_iff.mp hforms
  refine ⟨l, hl, ?_, ?_⟩
  · have hsplit : t.drop m.start = l.text ++ t.drop m.stop := hafter ▸ hpass.after
    rw [← Text.slice_append_drop stop length] at hsplit
    rw [Match.text, subject]
    exact List.append_cancel_right hsplit
  · rw [Match.before, subject, ← List.head?_reverse]
    exact Bool.eq_false_iff.mpr hfresh

/-- Where a header comes next that no name reaches into, a counted loop fits. -/
theorem isSome_run_countedLoop {i : Nat} {l : LoopParts} (hl : l.IsSound)
    (hbefore : (t.take i).getLast?.any (isWord ||| among "$.") = false)
    (hafter : l.text <+: t.drop i) : (countedLoop.run some (placeAt t i)).isSome = true := by
  obtain ⟨rest, hrest⟩ := hafter
  have hforms : loopHeader.Forms (placeAt t i).groupTexts l.text [(1, l.counter)] :=
    forms_loopHeader_iff.mpr ⟨l, hl, rfl, rfl⟩
  obtain ⟨d, -, hrun⟩ := isSome_run_of_forms rfl hforms hrest.symm
  have hfresh : (placeAt t i).before.head?.any (isWord ||| among "$.") = false := by
    rw [placeAt, List.head?_reverse]
    exact hbefore
  rw [run_countedLoop, hfresh, if_neg Bool.false_ne_true]
  exact hrun some rfl

/-- A search for counted loops lists every place where a header comes next that no name reaches
into. -/
theorem exists_loop_of_header {i : Nat} (hi : i ≤ t.length) {l : LoopParts} (hl : l.IsSound)
    (hbefore : (t.take i).getLast?.any (isWord ||| among "$.") = false)
    (hafter : l.text <+: t.drop i) : ∃ m ∈ countedLoop.allIn t, m.start = i := by
  obtain ⟨m, hm, hstart, hstop⟩ :=
    exists_mem_allIn_of_run rfl hi (isSome_run_countedLoop hl hbefore hafter)
  refine ⟨m, hm, ?_⟩
  by_contra hne
  obtain ⟨subject, stop, length, -⟩ := (fitsFrom_allIn countedLoop t).of_mem hm
  obtain ⟨l', hl', htext, -⟩ := exists_parts_of_loop hm
  obtain ⟨b, q, v, r, w, s, hx⟩ := hl'.exists_outline
  obtain ⟨b', q', v', r', w', s', hy⟩ := hl.exists_outline
  obtain ⟨rest, hrest⟩ := hafter
  have hmatch : t.drop m.start = m.text ++ t.drop m.stop := by
    rw [Match.text, subject, Text.slice_append_drop stop length]
  have hinside : t.drop m.start = t.slice m.start i ++ t.drop i :=
    (Text.slice_append_drop hstart hi).symm
  have hlength : (t.slice m.start i).length = i - m.start := by
    rw [Text.slice, List.length_drop, List.length_take_of_le hi]
  have htextLength : m.text.length = m.stop - m.start := by
    rw [Match.text, subject, Text.slice, List.length_drop, List.length_take_of_le length]
  rw [htext] at hmatch htextLength
  rw [← hrest] at hinside
  refine hx.not_inside hy ?_ ?_ (hmatch.symm.trans hinside)
  · exact List.ne_nil_of_length_pos (by omega)
  · omega

end Optimize

end HostScript
