import HostScript.Proofs.Optimize.Folding
import HostScript.Proofs.Pattern.Found
import HostScript.Proofs.Script.Collapse

/-!
# Runs of number literals

A run is a number literal and further literals behind operators. Reading a run token by token gives
back exactly its literals with the operators before them and their places, because a literal goes on
as far as it can and what follows it in a run cannot be part of it.
-/

namespace HostScript

/-! ## Digits are word characters -/

/-- The points without the intervals at their start that lie between two bounds. -/
def dropInside (c d : Nat) : List Nat → List Nat
  | a :: b :: points => if c ≤ a && b ≤ d then dropInside c d points else a :: b :: points
  | points => points

/-- Whether every interval between points lies in an interval between other points. -/
def flipsWithin : List Nat → List Nat → Bool
  | points, c :: d :: others =>
    points.head?.all (c ≤ ·) && flipsWithin (dropInside c d points) others
  | points, _ => points.isEmpty

theorem flipsAt_dropInside {c d n : Nat} {points : List Nat} (h : flipsAt points n = true) :
    (c ≤ n ∧ n < d) ∨ flipsAt (dropInside c d points) n = true := by
  induction points using dropInside.induct c d with
  | case1 a b points hinside ih =>
    rw [Bool.and_eq_true, decide_eq_true_eq, decide_eq_true_eq] at hinside
    rw [Script.flipsAt_cons_cons, Bool.and_eq_true, Bool.or_eq_true, decide_eq_true_eq,
      decide_eq_true_eq] at h
    rw [dropInside, if_pos (by simpa using hinside)]
    rcases h.2 with hb | hrest
    · exact Or.inl ⟨hinside.1.trans h.1, hb.trans_le hinside.2⟩
    · exact ih hrest
  | case2 a b points houtside =>
    rw [dropInside, if_neg houtside]
    exact Or.inr h
  | case3 points hshort =>
    rw [dropInside]
    · exact Or.inr h
    · exact hshort

theorem flipsAt_of_flipsWithin {points others : List Nat} (h : flipsWithin points others = true)
    {n : Nat} (hn : flipsAt points n = true) : flipsAt others n = true := by
  induction points, others using flipsWithin.induct with
  | case1 points c d others ih =>
    rw [flipsWithin, Bool.and_eq_true] at h
    have hc : c ≤ n := by
      cases points with
      | nil => cases hn
      | cons a points =>
        have ha : a ≤ n := by
          by_contra hlt
          simp [flipsAt, hlt] at hn
        exact (of_decide_eq_true h.1).trans ha
    rw [Script.flipsAt_cons_cons, Bool.and_eq_true, Bool.or_eq_true, decide_eq_true_eq,
      decide_eq_true_eq]
    refine ⟨hc, (flipsAt_dropInside hn).imp And.right fun hrest => ih h.2 hrest⟩
  | case2 points others hshort =>
    rw [flipsWithin] at h
    · rw [List.isEmpty_iff.mp h] at hn
      cases hn
    · exact hshort

/-- A decimal digit of any script is a word character. -/
theorem isWord_of_isDigit {c : Char} (h : isDigit c = true) : isWord c = true := by
  rw [isDigit] at h
  split at h
  case isTrue hsmall =>
    rw [isWord, isAlnum, if_pos hsmall, Char.isAlphanum, h, Bool.or_true, Bool.true_or]
  case isFalse hlarge =>
    have hwithin : flipsWithin decimalFlips alnumFlips = true := by decide +kernel
    rw [isWord, isAlnum, if_neg hlarge, flipsAt_of_flipsWithin hwithin h, Bool.true_or]

namespace Optimize

open Pattern Script

/-! ## Literals go on as far as they can -/

/-- The characters that may not stand next to a run. -/
def isWordPart : CharSet := isWord ||| among "$."

/-- A text that is a number literal. -/
def IsLiteral (n : Text) : Prop := ∃ gs, numberLiteral.Spells n gs

theorem isWordPart_of_isDigit {c : Char} (h : isDigit c = true) : isWordPart c = true := by
  change (isWord c || among "$." c) = true
  rw [isWord_of_isDigit h, Bool.true_or]

/-- White space is no part of words. -/
theorem isWordPart_of_isBlank {c : Char} (hc : isBlank c = true) : isWordPart c = false := by
  have hdot : c ≠ '.' := by
    rintro rfl
    exact absurd hc (by decide)
  rw [isWordPart, bound_iff, isIdentPart_of_isBlank hc, Bool.false_or]
  exact beq_eq_false_iff_ne.mpr hdot

/-- Operators are no part of words. -/
theorem isWordPart_of_operator {c : Char} (hc : among "-+*/%" c = true) : isWordPart c = false := by
  have hall : ∀ d ∈ "-+*/%".toList, isWordPart d = false :=
    List.all_iff_forall_prop.mp (by decide)
  exact hall c (by simpa [among] using hc)

/-- What does not start with a character of a larger set starts with none of a smaller one. -/
theorem startsIn_mono {f g : CharSet} (h : ∀ c, f c = true → g c = true) {t : Text}
    (ht : startsIn g t = false) : startsIn f t = false := by
  cases t with
  | nil => rfl
  | cons c t =>
    have hc : g c = false := ht
    change f c = false
    rw [← Bool.not_eq_true]
    intro hf
    rw [h c hf] at hc
    cases hc

variable {n x rest t : Text} {gs : GroupTexts}

/-- The digits, with a point or without, that a literal starts with. -/
def mantissa : Pattern :=
  (lit "0" <|> oneOf (between '1' '9') ++ digit.star) ++ ("." ++ digit.star).opt
    <|> "." ++ digit.plus

/-- The exponent that a literal may end with. -/
def exponent : Pattern := oneOf (among "eE") ++ (oneOf (among "+-")).opt ++ digit.plus

theorem numberLiteral_eq : numberLiteral = mantissa ++ exponent.opt := rfl

theorem isDigit_of_between {c : Char} (h : between '1' '9' c = true) : isDigit c = true := by
  have hle : ('0' : Char) ≤ '1' := by decide
  simp only [between, Bool.and_eq_true, decide_eq_true_eq] at h
  apply isDigit_of_char
  simp only [Char.isDigit, Bool.and_eq_true, decide_eq_true_eq]
  exact ⟨Char.le_trans hle h.1, h.2⟩

/-- The signs are no digits. -/
theorem isDigit_of_among_sign {c : Char} (h : among "+-" c = true) : isDigit c = false := by
  have hall : ∀ d ∈ "+-".toList, isDigit d = false :=
    List.all_iff_forall_prop.mp (by decide)
  exact hall c (by simpa [among] using h)

/-- The exponent is taken whole if no digit follows. -/
theorem takes_exponent (h : exponent.Spells x gs) (hrest : startsIn isDigit rest = false) :
    exponent.Takes x rest noGroups := by
  obtain ⟨y, ds, gs₁, gs₂, rfl, -, hy, hds⟩ := spells_append_iff.mp h
  obtain ⟨z, sign, gs₃, gs₄, rfl, -, hz, hsign⟩ := spells_append_iff.mp hy
  obtain ⟨c, hc, rfl, -⟩ := spells_oneOf_iff.mp hz
  obtain ⟨hlen, hdigits, -⟩ := hds.of_rounds_one
  have hne : ds ≠ [] := List.ne_nil_of_length_pos hlen
  have htakeSign : (oneOf (among "+-")).opt.Takes sign (ds ++ rest) noGroups := by
    rcases hsign.of_opt with ⟨rfl, -⟩ | hsign
    · refine takes_opt_nil (refuses_one ?_)
      obtain ⟨d, ds, rfl⟩ := List.exists_cons_of_ne_nil hne
      have hd : isDigit d = true := hdigits d List.mem_cons_self
      change among "+-" d = false
      rw [← Bool.not_eq_true]
      intro hsign
      rw [isDigit_of_among_sign hsign] at hd
      cases hd
    · obtain ⟨a, ha, rfl, -⟩ := spells_oneOf_iff.mp hsign
      exact (takes_one ha _).opt (List.cons_ne_nil a [])
  have hhead : (oneOf (among "eE")).Takes [c] (sign ++ (ds ++ rest)) noGroups := takes_one hc _
  exact (hhead.append htakeSign).append (takes_plus hne hdigits hrest)

/-- The digits are taken whole if neither a digit nor a point follows. -/
theorem takes_mantissa (h : mantissa.Spells x gs) (hdigit : startsIn isDigit rest = false)
    (hpoint : rest.head? ≠ some '.') : mantissa.Takes x rest noGroups := by
  have hdot : lit "." = Pattern.text ['.'] := rfl
  have hzero : lit "0" = Pattern.text ['0'] := rfl
  rcases spells_orElse_iff.mp h with h | h
  · obtain ⟨w, f, gs₁, gs₂, rfl, -, hw, hf⟩ := spells_append_iff.mp h
    have hfraction : ("." ++ digit.star : Pattern).opt.Takes f rest noGroups ∧
        startsIn isDigit (f ++ rest) = false := by
      rcases hf.of_opt with ⟨rfl, -⟩ | hf
      · exact ⟨takes_opt_nil (Refuses.append (hdot ▸ refuses_text hpoint []) _), hdigit⟩
      · obtain ⟨y, ds, gs₃, gs₄, rfl, -, hy, hds⟩ := spells_append_iff.mp hf
        obtain ⟨rfl, -⟩ := spells_lit_iff.mp hy
        have htake : (lit ".").Takes ".".toList (ds ++ rest) noGroups := takes_text _ _
        exact ⟨(htake.append (takes_star hds.of_rounds_one.2.1 hdigit)).opt (by simp),
          (by decide : isDigit '.' = false)⟩
    refine Takes.left (Takes.append ?_ hfraction.1)
    rcases spells_orElse_iff.mp hw with hw | hw
    · obtain ⟨rfl, -⟩ := spells_lit_iff.mp hw
      exact Takes.left (takes_text _ _)
    · obtain ⟨y, ds, gs₃, gs₄, rfl, -, hy, hds⟩ := spells_append_iff.mp hw
      obtain ⟨c, hc, rfl, -⟩ := spells_oneOf_iff.mp hy
      have hfirst : (oneOf (between '1' '9')).Takes [c] (ds ++ (f ++ rest)) noGroups := takes_one hc _
      refine Takes.right ?_ (hfirst.append (takes_star hds.of_rounds_one.2.1 hfraction.2))
      rw [hzero]
      refine refuses_text ?_ []
      intro hhead
      obtain rfl : c = '0' := by simpa using hhead
      exact absurd hc (by decide)
  · obtain ⟨y, ds, gs₁, gs₂, rfl, -, hy, hds⟩ := spells_append_iff.mp h
    obtain ⟨rfl, -⟩ := spells_lit_iff.mp hy
    obtain ⟨hlen, hdigits, -⟩ := hds.of_rounds_one
    have htake : (lit ".").Takes ".".toList (ds ++ rest) noGroups := takes_text _ _
    refine Takes.right (Refuses.append (Refuses.orElse ?_ (Refuses.append ?_ _)) _)
      (htake.append (takes_plus (List.ne_nil_of_length_pos hlen) hdigits hdigit))
    · rw [hzero]
      exact refuses_text (by simp) []
    · exact refuses_one (by decide : between '1' '9' '.' = false)

/-- A literal is taken whole if nothing follows that could go on with a word. -/
theorem takes_numberLiteral (h : IsLiteral n) (hrest : startsIn isWordPart rest = false) :
    numberLiteral.Takes n rest noGroups := by
  obtain ⟨gs, h⟩ := h
  have hdigit : startsIn isDigit rest = false := startsIn_mono (fun _ => isWordPart_of_isDigit) hrest
  rw [numberLiteral_eq] at h ⊢
  obtain ⟨m, e, gs₁, gs₂, rfl, -, hm, he⟩ := spells_append_iff.mp h
  rcases he.of_opt with ⟨rfl, -⟩ | he
  · have hrefuses : exponent.Refuses rest := by
      refine Refuses.append (Refuses.append (refuses_one ?_) _) _
      refine startsIn_mono (fun c hc => ?_) hrest
      have hall : ∀ d ∈ "eE".toList, isWordPart d = true :=
        List.all_iff_forall_prop.mp (by decide)
      exact hall c (by simpa [among] using hc)
    have hpoint : rest.head? ≠ some '.' := by
      intro hhead
      rw [startsIn, hhead] at hrest
      exact absurd hrest (by decide)
    exact (takes_mantissa hm hdigit hpoint).append (takes_opt_nil hrefuses)
  · have hexponent := takes_exponent he hdigit
    have hstart : startsIn isDigit (e ++ rest) = false ∧ (e ++ rest).head? ≠ some '.' ∧ e ≠ [] := by
      obtain ⟨y, ds, gs₃, gs₄, rfl, -, hy, -⟩ := spells_append_iff.mp he
      obtain ⟨z, sign, gs₅, gs₆, rfl, -, hz, -⟩ := spells_append_iff.mp hy
      obtain ⟨c, hc, rfl, -⟩ := spells_oneOf_iff.mp hz
      have hall : ∀ d ∈ "eE".toList, isDigit d = false ∧ d ≠ '.' :=
        List.all_iff_forall_prop.mp (by decide)
      have := hall c (by simpa [among] using hc)
      exact ⟨this.1, by simpa using this.2, by simp⟩
    exact (takes_mantissa hm hstart.1 hstart.2.1).append (hexponent.opt hstart.2.2)

/-- Digits behind a word go on with it. -/
theorem endsIn_append_digits {ds : Text} (hx : endsIn isWordPart x = true)
    (hds : ∀ c ∈ ds, isDigit c = true) : endsIn isWordPart (x ++ ds) = true := by
  rcases List.eq_nil_or_concat' ds with rfl | ⟨ds, d, rfl⟩
  · rwa [List.append_nil]
  · rw [← List.append_assoc, endsIn_append _ (List.cons_ne_nil d [])]
    exact isWordPart_of_isDigit (hds d (by simp))

/-- A literal starts and ends in the middle of a word. -/
theorem IsLiteral.word_ends (h : IsLiteral n) :
    startsIn isWordPart n = true ∧ endsIn isWordPart n = true := by
  obtain ⟨gs, h⟩ := h
  rw [numberLiteral_eq] at h
  obtain ⟨m, e, gs₁, gs₂, rfl, -, hm, he⟩ := spells_append_iff.mp h
  have hmantissa : startsIn isWordPart m = true ∧ endsIn isWordPart m = true := by
    have hdot : endsIn isWordPart ".".toList = true := by decide
    rcases spells_orElse_iff.mp hm with hm | hm
    · obtain ⟨w, f, gs₃, gs₄, rfl, -, hw, hf⟩ := spells_append_iff.mp hm
      have hwhole : w ≠ [] ∧ startsIn isWordPart w = true ∧ endsIn isWordPart w = true := by
        rcases spells_orElse_iff.mp hw with hw | hw
        · obtain ⟨rfl, -⟩ := spells_lit_iff.mp hw
          decide
        · obtain ⟨y, ds, gs₅, gs₆, rfl, -, hy, hds⟩ := spells_append_iff.mp hw
          obtain ⟨c, hc, rfl, -⟩ := spells_oneOf_iff.mp hy
          have hc := isWordPart_of_isDigit (isDigit_of_between hc)
          exact ⟨by simp, hc, endsIn_append_digits (x := [c]) hc hds.of_rounds_one.2.1⟩
      refine ⟨(startsIn_append_left _ hwhole.1 f).trans hwhole.2.1, ?_⟩
      rcases hf.of_opt with ⟨rfl, -⟩ | hf
      · rw [List.append_nil]
        exact hwhole.2.2
      · obtain ⟨y, ds, gs₅, gs₆, rfl, -, hy, hds⟩ := spells_append_iff.mp hf
        obtain ⟨rfl, -⟩ := spells_lit_iff.mp hy
        rw [endsIn_append _ (by simp)]
        exact endsIn_append_digits hdot hds.of_rounds_one.2.1
    · obtain ⟨y, ds, gs₃, gs₄, rfl, -, hy, hds⟩ := spells_append_iff.mp hm
      obtain ⟨rfl, -⟩ := spells_lit_iff.mp hy
      exact ⟨(by decide : isWordPart '.' = true), endsIn_append_digits hdot hds.of_rounds_one.2.1⟩
  have hne : m ≠ [] := by
    rintro rfl
    cases hmantissa.1
  refine ⟨(startsIn_append_left _ hne e).trans hmantissa.1, ?_⟩
  rcases he.of_opt with ⟨rfl, -⟩ | he
  · rw [List.append_nil]
    exact hmantissa.2
  · obtain ⟨y, ds, gs₃, gs₄, rfl, -, -, hds⟩ := spells_append_iff.mp he
    obtain ⟨hlen, hdigits, -⟩ := hds.of_rounds_one
    have hds := List.ne_nil_of_length_pos hlen
    rw [endsIn_append _ (by simp [hds]), endsIn_append _ hds, endsIn_eq _ hds]
    exact isWordPart_of_isDigit (hdigits _ (List.getLast_mem hds))

theorem IsLiteral.ne_nil (h : IsLiteral n) : n ≠ [] := by
  rintro rfl
  cases h.word_ends.1

/-! ## Links -/

/-- A literal of a run with the operator before it and the white space around that. -/
structure Link where
  before : Text
  operator : Char
  behind : Text
  number : Text

/-- What stands before the literal. -/
def Link.gap (l : Link) : Text := l.before ++ [l.operator] ++ l.behind

def Link.text (l : Link) : Text := l.gap ++ l.number

/-- The links one behind the other. -/
def linksText (ls : List Link) : Text := ls.flatMap Link.text

/-- A link as it occurs in a run. -/
structure Link.IsSound (l : Link) : Prop where
  before : ∀ c ∈ l.before, isBlank c = true
  operator : among "-+*/%" l.operator = true
  behind : ∀ c ∈ l.behind, isBlank c = true
  number : IsLiteral l.number

/-- Parts that are links each are links one behind the other. -/
theorem exists_links_of_parts {parts : List (Text × GroupTexts)}
    (h : ∀ part ∈ parts, ∃ l : Link, l.IsSound ∧ l.text = part.1) :
    ∃ ls : List Link, (∀ l ∈ ls, l.IsSound) ∧ linksText ls = parts.flatMap (·.1) ∧
      ls.length = parts.length := by
  induction parts with
  | nil => exact ⟨[], List.forall_mem_nil _, rfl, rfl⟩
  | cons part parts ih =>
    rw [List.forall_mem_cons] at h
    obtain ⟨l, hl, htext⟩ := h.1
    obtain ⟨ls, hls, hrest, hlen⟩ := ih h.2
    refine ⟨l :: ls, List.forall_mem_cons.mpr ⟨hl, hls⟩, ?_, by simp [hlen]⟩
    rw [List.flatMap_cons, ← hrest, ← htext]
    rfl

/-- A run is a literal and links. -/
theorem exists_links (h : literalRun.Spells x gs) :
    ∃ n ls, x = n ++ linksText ls ∧ IsLiteral n ∧ ls ≠ [] ∧ ∀ l ∈ ls, l.IsSound := by
  obtain ⟨y, z, gs₁, gs₂, rfl, -, hy, hz⟩ := spells_append_iff.mp h
  obtain ⟨rfl, -⟩ := spells_notAhead_iff.mp hz
  obtain ⟨u, v, gs₃, gs₄, rfl, -, hu, hv⟩ := spells_append_iff.mp hy
  obtain ⟨w, n, gs₅, gs₆, rfl, -, hw, hn⟩ := spells_append_iff.mp hu
  obtain ⟨rfl, -⟩ := spells_fresh_iff.mp hw
  cases hv with
  | @rounds _ _ _ _ parts enough _ each =>
    have hlinks : ∀ part ∈ parts, ∃ l : Link, l.IsSound ∧ l.text = part.1 := by
      intro part hpart
      obtain ⟨y, n, gs₁, gs₂, hpart, -, hy, hn⟩ := spells_append_iff.mp (each part hpart)
      obtain ⟨z, b, rfl, hb, hz⟩ := hy.of_append_blanks
      obtain ⟨a, o, gs₃, gs₄, rfl, -, ha, ho⟩ := spells_append_iff.mp hz
      obtain ⟨c, hc, rfl, -⟩ := spells_oneOf_iff.mp ho
      exact ⟨⟨a, c, b, n⟩, ⟨(of_spells_blanks ha).1, hc, hb, ⟨_, hn⟩⟩, hpart.symm⟩
    obtain ⟨ls, hls, htext, hlen⟩ := exists_links_of_parts hlinks
    refine ⟨n, ls, by rw [htext]; simp, ⟨_, hn⟩, ?_, hls⟩
    rintro rfl
    rw [List.length_nil] at hlen
    omega

/-- What stands before the literal of a link is no part of words. -/
theorem Link.IsSound.gap_free {l : Link} (hl : l.IsSound) : ∀ c ∈ l.gap, isWordPart c = false := by
  intro c hc
  simp only [gap, List.mem_append, List.mem_singleton] at hc
  rcases hc with (hc | rfl) | hc
  · exact isWordPart_of_isBlank (hl.before c hc)
  · exact isWordPart_of_operator hl.operator
  · exact isWordPart_of_isBlank (hl.behind c hc)

theorem Link.gap_ne_nil (l : Link) : l.gap ≠ [] := by simp [gap]

/-- Links start with no part of a word. -/
theorem startsIn_linksText {ls : List Link} (hls : ∀ l ∈ ls, l.IsSound) :
    startsIn isWordPart (linksText ls) = false := by
  cases ls with
  | nil => rfl
  | cons l ls =>
    rw [linksText, List.flatMap_cons, Link.text, List.append_assoc, startsIn_append _ l.gap_ne_nil]
    exact (hls l List.mem_cons_self).gap_free _ (List.head_mem l.gap_ne_nil)

/-- Where a run lies no word reaches into it from either side. -/
theorem apart_of_mem_allIn {m : Match} (hm : m ∈ literalRun.allIn t) :
    endsIn isWordPart (t.take m.start) = false ∧ startsIn isWordPart (t.drop m.stop) = false := by
  refine ⟨?_, startsIn_of_mem_allIn hm⟩
  obtain ⟨-, -, -, k, e, hrun⟩ := (fitsFrom_allIn literalRun t).of_mem hm
  simp only [literalRun, run_seq] at hrun
  rw [Pattern.fresh, run_notAfter] at hrun
  obtain ⟨hnone, -⟩ := Option.ite_none_left_eq_some.mp hrun
  rw [placeAt, List.head?_reverse] at hnone
  exact Bool.eq_false_iff.mpr hnone

/-! ## The tokens of a run -/

/-- The tokens of links, the first of which starts at an offset. -/
def linkTokens : Nat → List Link → List RunToken
  | _, [] => []
  | pos, l :: ls =>
    ⟨some l.operator, l.number, pos + l.gap.length, pos + l.gap.length + l.number.length⟩
      :: linkTokens (pos + l.text.length) ls

/-- The token that a fit stands for. -/
def tokenOf (m : Match) : RunToken :=
  ⟨(m.group? 1).bind (·.head?), m.group 2, m.groupStart 2, m.groupStart 2 + (m.group 2).length⟩

/-- A literal starts with neither white space nor an operator. -/
theorem IsLiteral.head_eq (h : IsLiteral n) (rest : Text) :
    (n ++ rest).head?.any isBlank = false ∧ (n ++ rest).head?.any (among "-+*/%") = false := by
  obtain ⟨c, n', rfl⟩ := List.exists_cons_of_ne_nil h.ne_nil
  have hc : isWordPart c = true := h.word_ends.1
  have hno {f : CharSet} (hf : f c = true → isWordPart c = false) : f c = false := by
    rw [← Bool.not_eq_true]
    intro hfc
    rw [hf hfc] at hc
    cases hc
  exact ⟨hno isWordPart_of_isBlank, hno isWordPart_of_operator⟩

/-- A literal at the start of a run is taken as a token without operator. -/
theorem takes_runToken (hn : IsLiteral n) (hrest : startsIn isWordPart rest = false) :
    runToken.Takes n rest fun pos => [(2, ⟨pos, n⟩)] := by
  obtain ⟨hblank, hoperator⟩ := hn.head_eq rest
  have hblanks : blanks.Takes [] (n ++ rest) noGroups := takes_star (List.forall_mem_nil _) hblank
  have hnone : (cap 1 operator).opt.Takes [] (n ++ rest) noGroups :=
    takes_opt_nil fun k c hc => refuses_one hoperator _ c hc
  have hstart : (blanks ++ (cap 1 operator).opt ++ blanks).Takes [] (n ++ rest) noGroups :=
    (hblanks.append (y := []) hnone).append (y := []) hblanks
  exact hstart.append ((takes_numberLiteral hn hrest).cap 2)

/-- A link is taken as a token with its operator. -/
theorem takes_runToken_link {l : Link} (hl : l.IsSound) (hrest : startsIn isWordPart rest = false) :
    runToken.Takes l.text rest fun pos =>
      [(2, ⟨pos + l.gap.length, l.number⟩), (1, ⟨pos + l.before.length, [l.operator]⟩)] := by
  have hall : ∀ d ∈ "-+*/%".toList, isBlank d = false :=
    List.all_iff_forall_prop.mp (by decide)
  have hoperator : isBlank l.operator = false := hall _ (by simpa [among] using hl.operator)
  have hbefore : blanks.Takes l.before ([l.operator] ++ (l.behind ++ (l.number ++ rest))) noGroups :=
    takes_star hl.before hoperator
  have hone : operator.Takes [l.operator] (l.behind ++ (l.number ++ rest)) noGroups :=
    takes_one hl.operator _
  have hbehind : blanks.Takes l.behind (l.number ++ rest) noGroups :=
    takes_star hl.behind (hl.number.head_eq rest).1
  have hnumber := (takes_numberLiteral hl.number hrest).cap 2
  exact ((hbefore.append ((hone.cap 1).opt (List.cons_ne_nil _ _))).append hbehind).append hnumber

/-- The tokens of links are read one after the other. -/
theorem tokens_links {ls : List Link} (hls : ∀ l ∈ ls, l.IsSound) (t before : Text) {fuel : Nat}
    (hfuel : ls.length < fuel) (groups : List (Nat × Capture)) :
    (runToken.matchesFrom t fuel false ⟨before, linksText ls, before.length, groups⟩).map tokenOf =
      linkTokens before.length ls := by
  induction ls generalizing before fuel groups with
  | nil =>
    rw [linksText, List.flatMap_nil, matchesFrom_nil (by rfl)]
    rfl
  | cons l ls ih =>
    rw [List.forall_mem_cons] at hls
    obtain ⟨fuel, rfl⟩ : ∃ n, fuel = n + 1 := ⟨fuel - 1, by omega⟩
    have hne : l.text ≠ [] := by simp [Link.text, l.gap_ne_nil]
    rw [linksText, List.flatMap_cons, ← linksText,
      matchesFrom_takes hne (takes_runToken_link hls.1 (startsIn_linksText hls.2)), List.map_cons,
      ih hls.2 _ (by simpa using hfuel)]
    simp [linkTokens, tokenOf, Match.group?, Match.group, Match.groupStart, List.lookup_cons,
      Nat.add_comm]

theorem length_le_linksText (ls : List Link) : ls.length ≤ (linksText ls).length := by
  induction ls with
  | nil => exact Nat.zero_le _
  | cons l ls ih =>
    have hpos : 0 < l.text.length := List.length_pos_of_ne_nil (by simp [Link.text, l.gap_ne_nil])
    simp only [linksText, List.flatMap_cons, List.length_append, List.length_cons] at ih ⊢
    omega

/-- The tokens of a run are its literals with the operators before them. -/
theorem runTokens_eq {ls : List Link} (hn : IsLiteral n) (hls : ∀ l ∈ ls, l.IsSound) :
    runTokens (n ++ linksText ls) = ⟨none, n, 0, n.length⟩ :: linkTokens n.length ls := by
  have hlinks := length_le_linksText ls
  change (runToken.matchesFrom (n ++ linksText ls) (2 * (n ++ linksText ls).length + 2) false
    ⟨[], n ++ linksText ls, 0, []⟩).map tokenOf = _
  have hfirst := @matchesFrom_takes _ _ _ [] _ hn.ne_nil
    (takes_runToken hn (startsIn_linksText hls)) (n ++ linksText ls)
    (2 * (n ++ linksText ls).length + 1) false []
  rw [List.length_nil, Nat.zero_add] at hfirst
  rw [hfirst, List.map_cons,
    tokens_links hls _ _ (by rw [List.length_append]; omega), List.append_nil, List.length_reverse]
  simp [tokenOf, Match.group?, Match.group, Match.groupStart, List.lookup_cons]

end Optimize

end HostScript

/-!
## The products of a run

A run is divided into products: a literal with the links of its factors, and before it the sign
that joins it to the run. Folding the products in place, from the last to the first, gives the
same text as writing them one after the other with the computed numbers in place.
-/

namespace HostScript.Optimize

open Pattern Script

/-- Whether a link goes on with the product before it. -/
def Link.isFactor (l : Link) : Bool :=
  l.operator == '*' || l.operator == '/' || l.operator == '%'

/-- A product of a run: the sign and what else stands before it, its first literal, and the links
of its factors. -/
structure Block where
  sign : Option Char
  lead : Text
  number : Text
  factors : List Link

/-- The product without what stands before it. -/
def Block.body (b : Block) : Text := b.number ++ linksText b.factors

def Block.text (b : Block) : Text := b.lead ++ b.body

/-- Products one behind the other. -/
def blocksText (bs : List Block) : Text := bs.flatMap Block.text

/-- The product that a link starts. -/
def Link.block (l : Link) (factors : List Link) : Block := ⟨some l.operator, l.gap, l.number, factors⟩

/-- The factors at the start of links, and the products behind them. -/
def splitLinks : List Link → List Link × List Block
  | [] => ([], [])
  | l :: ls =>
    let (factors, more) := splitLinks ls
    if l.isFactor then (l :: factors, more) else ([], l.block factors :: more)

/-- The products of a run that is a literal and links. -/
def runBlocks (n : Text) (ls : List Link) : List Block :=
  ⟨none, [], n, (splitLinks ls).1⟩ :: (splitLinks ls).2

/-- The product of tokens that a block at an offset stands for. -/
def Block.product (pos : Nat) (b : Block) : Product :=
  ⟨⟨b.sign, b.number, pos + b.lead.length, pos + b.lead.length + b.number.length⟩,
    linkTokens (pos + b.lead.length + b.number.length) b.factors⟩

/-- The products of tokens that blocks stand for, the first of which starts at an offset. -/
def blockProducts : Nat → List Block → List Product
  | _, [] => []
  | pos, b :: bs => b.product pos :: blockProducts (pos + b.text.length) bs

@[simp] theorem blocksText_nil : blocksText [] = [] := rfl

@[simp] theorem blocksText_cons (b : Block) (bs : List Block) :
    blocksText (b :: bs) = b.text ++ blocksText bs := rfl

@[simp] theorem linksText_nil : linksText [] = [] := rfl

@[simp] theorem linksText_cons (l : Link) (ls : List Link) :
    linksText (l :: ls) = l.text ++ linksText ls := rfl

theorem isFactor_of_link (l : Link) (i j : Nat) :
    RunToken.isFactor ⟨some l.operator, l.number, i, j⟩ = l.isFactor := by
  simp [RunToken.isFactor, Link.isFactor]

/-! ### Dividing links into products -/

/-- Dividing links loses none of their text. -/
theorem linksText_splitLinks (ls : List Link) :
    linksText (splitLinks ls).1 ++ blocksText (splitLinks ls).2 = linksText ls := by
  induction ls with
  | nil => rfl
  | cons l ls ih =>
    rw [splitLinks, linksText_cons, ← ih]
    dsimp only
    split <;> simp [Link.block, Block.text, Block.body, Link.text]

theorem runBlocks_text (n : Text) (ls : List Link) :
    blocksText (runBlocks n ls) = n ++ linksText ls := by
  rw [runBlocks, blocksText_cons, Block.text, Block.body, List.nil_append, List.append_assoc,
    linksText_splitLinks]

/-- The tokens of links are divided like the links. -/
theorem splitFactors_linkTokens (pos : Nat) (ls : List Link) :
    splitFactors (linkTokens pos ls) = (linkTokens pos (splitLinks ls).1,
      blockProducts (pos + (linksText (splitLinks ls).1).length) (splitLinks ls).2) := by
  induction ls generalizing pos with
  | nil => rfl
  | cons l ls ih =>
    rw [linkTokens, splitFactors, ih, splitLinks]
    dsimp only
    rw [isFactor_of_link]
    split
    · simp [linkTokens, Nat.add_assoc]
    · simp [linkTokens, blockProducts, Block.product, Link.block, Block.text, Block.body, Link.text,
        Nat.add_assoc]

/-- The products of the tokens of a run. -/
theorem products_runTokens {n : Text} {ls : List Link} (hn : IsLiteral n)
    (hls : ∀ l ∈ ls, l.IsSound) :
    products (runTokens (n ++ linksText ls)) = blockProducts 0 (runBlocks n ls) := by
  rw [runTokens_eq hn hls, products, splitFactors_linkTokens]
  simp [runBlocks, blockProducts, Block.product, Block.text, Block.body]

/-- A product as it occurs in a run. -/
structure Block.IsSound (b : Block) : Prop where
  lead : ∀ c ∈ b.lead, isWordPart c = false
  number : IsLiteral b.number
  factors : ∀ l ∈ b.factors, l.IsSound ∧ l.isFactor = true

/-- A product that a link starts. -/
def Block.IsFurther (b : Block) : Prop :=
  ∃ l : Link, l.IsSound ∧ l.isFactor = false ∧ b = l.block b.factors

/-- The factors and the products of sound links are sound. -/
theorem of_splitLinks {ls : List Link} (hls : ∀ l ∈ ls, l.IsSound) :
    (∀ l ∈ (splitLinks ls).1, l.IsSound ∧ l.isFactor = true) ∧
      ∀ b ∈ (splitLinks ls).2, b.IsSound ∧ b.IsFurther := by
  induction ls with
  | nil => exact ⟨List.forall_mem_nil _, List.forall_mem_nil _⟩
  | cons l ls ih =>
    rw [List.forall_mem_cons] at hls
    obtain ⟨hfactors, hmore⟩ := ih hls.2
    rw [splitLinks]
    dsimp only
    split
    · rename_i hfactor
      exact ⟨List.forall_mem_cons.mpr ⟨⟨hls.1, hfactor⟩, hfactors⟩, hmore⟩
    · rename_i hsign
      refine ⟨List.forall_mem_nil _, List.forall_mem_cons.mpr ⟨⟨?_, ?_⟩, hmore⟩⟩
      · exact ⟨hls.1.gap_free, hls.1.number, hfactors⟩
      · exact ⟨l, hls.1, Bool.eq_false_iff.mpr hsign, rfl⟩

theorem isSound_runBlocks {n : Text} {ls : List Link} (hn : IsLiteral n)
    (hls : ∀ l ∈ ls, l.IsSound) : ∀ b ∈ runBlocks n ls, b.IsSound := by
  obtain ⟨hfactors, hmore⟩ := of_splitLinks hls
  exact List.forall_mem_cons.mpr ⟨⟨List.forall_mem_nil _, hn, hfactors⟩, fun b hb => (hmore b hb).1⟩

theorem Block.IsFurther.lead_ne_nil {b : Block} (h : b.IsFurther) : b.lead ≠ [] := by
  obtain ⟨l, -, -, hb⟩ := h
  rw [hb]
  exact l.gap_ne_nil

/-- Further products start with no part of a word. -/
theorem startsIn_blocksText {bs : List Block} (hbs : ∀ b ∈ bs, b.IsSound ∧ b.IsFurther) :
    startsIn isWordPart (blocksText bs) = false := by
  cases bs with
  | nil => rfl
  | cons b bs =>
    obtain ⟨hsound, hfurther⟩ := hbs b List.mem_cons_self
    rw [blocksText_cons, Block.text, List.append_assoc, startsIn_append _ hfurther.lead_ne_nil]
    exact hsound.lead _ (List.head_mem hfurther.lead_ne_nil)

/-! ### Values of products -/

/-- The value after the factor of one more link. -/
def applyLink (value : Option Number.Double) (l : Link) : Outcome (Option Number.Double) :=
  applyFactor value ⟨some l.operator, l.number, 0, 0⟩

/-- The value of a product, none if it is not finite. -/
def Block.value? (b : Block) : Outcome (Option Number.Double) := do
  let v ← b.factors.foldlM applyLink (some (literalValue b.number))
  pure (v.filter (·.isFinite))

/-- Where the tokens stand has no part in their value. -/
theorem foldlM_linkTokens (pos : Nat) (ls : List Link) (value : Option Number.Double) :
    (linkTokens pos ls).foldlM applyFactor value = ls.foldlM applyLink value := by
  induction ls generalizing pos value with
  | nil => rfl
  | cons l ls ih =>
    rw [linkTokens, List.foldlM_cons, List.foldlM_cons]
    refine congrArg₂ bind ?_ (funext fun v => ih _ v)
    cases value <;> rfl

theorem Block.product_value? (b : Block) (pos : Nat) : (b.product pos).value? = b.value? := by
  rw [Product.value?, Block.product, foldlM_linkTokens, Block.value?]

/-! ### Folding products -/

/-- Whether the product at an index may be folded at all. -/
def RunContext.leaves (ctx : RunContext) (count index : Nat) (b : Block) : Bool :=
  b.factors.isEmpty || (index == 0 && !ctx.firstFree) || (index + 1 == count && !ctx.lastFree)

/-- A product with its computed number in place, if it may be folded and has one. -/
def foldedBlock (ctx : RunContext) (count index : Nat) (b : Block) : Outcome Text :=
  if ctx.leaves count index b then pure b.text
  else do
    match (← b.value?).bind foldedText? with
    | none => pure b.text
    | some new => pure (b.lead ++ new)

/-- Products one behind the other, each with its computed number in place. -/
def foldedBlocks (ctx : RunContext) (count : Nat) : (index : Nat) → List Block → Outcome Text
  | _, [] => .ok []
  | index, b :: bs => do
    let more ← foldedBlocks ctx count (index + 1) bs
    let first ← foldedBlock ctx count index b
    pure (first ++ more)

/-- The last of the tokens of links stops where the links do. -/
theorem stop_linkTokens (pos : Nat) (ls : List Link) :
    ((linkTokens pos ls).getLast?.map (·.stop)).getD pos = pos + (linksText ls).length := by
  induction ls generalizing pos with
  | nil => rfl
  | cons l ls ih =>
    have hstop : pos + l.gap.length + l.number.length = pos + l.text.length := by
      rw [Link.text, List.length_append, Nat.add_assoc]
    have hrest := ih (pos + l.text.length)
    rw [linkTokens, List.getLast?_cons, Option.map_some, Option.getD_some, linksText_cons,
      List.length_append, ← Nat.add_assoc, ← hrest, hstop]
    cases (linkTokens (pos + l.text.length) ls).getLast? <;> rfl

/-- Folding products in place is writing them with their computed numbers. -/
theorem foldProducts_eq (ctx : RunContext) (count index : Nat) (x : Text) (bs : List Block) :
    foldProducts ctx count index (blockProducts x.length bs) (x ++ blocksText bs) =
      (x ++ ·) <$> foldedBlocks ctx count index bs := by
  induction bs generalizing x index with
  | nil => rfl
  | cons b bs ih =>
    have hrest := ih (index + 1) (x ++ b.text)
    rw [List.length_append, List.append_assoc] at hrest
    have hempty : (linkTokens (x.length + b.lead.length + b.number.length) b.factors).isEmpty =
        b.factors.isEmpty := by
      cases b.factors <;> rfl
    have hstop : ((b.product x.length).factors.getLast?.map (·.stop)).getD
        (b.product x.length).first.stop = (x ++ b.text).length := by
      rw [Block.product, stop_linkTokens]
      simp [Block.text, Block.body, Nat.add_assoc]
    rw [blockProducts, foldProducts, blocksText_cons, hrest, foldedBlocks]
    cases foldedBlocks ctx count (index + 1) bs with
    | error e => rfl
    | ok more =>
      have hleaves : ((b.product x.length).factors.isEmpty || (index == 0 && !ctx.firstFree)
          || (index + 1 == count && !ctx.lastFree)) = ctx.leaves count index b := by
        rw [RunContext.leaves, ← hempty]
        rfl
      change (if _ = true then _ else _) = (x ++ ·) <$> (do
        let first ← foldedBlock ctx count index b
        pure (first ++ more))
      rw [hleaves, foldedBlock, b.product_value?, hstop]
      split
      · exact congrArg Except.ok (List.append_assoc x b.text more)
      · cases b.value? with
        | error e => rfl
        | ok v =>
          change (match v.bind foldedText? with | none => _ | some new => _) =
            (x ++ ·) <$> ((match v.bind foldedText? with | none => _ | some new => _) >>= _)
          cases v.bind foldedText? with
          | none => exact congrArg Except.ok (List.append_assoc x b.text more)
          | some new =>
            have htake : (x ++ b.text ++ more).take (b.product x.length).first.start = x ++ b.lead := by
              have hstart : (b.product x.length).first.start = (x ++ b.lead).length := by
                rw [List.length_append]
                rfl
              rw [hstart, Block.text, ← List.append_assoc x, List.append_assoc (x ++ b.lead)]
              exact List.take_left
            refine congrArg Except.ok ?_
            change (x ++ b.text ++ more).take _ ++ new ++ (x ++ b.text ++ more).drop _ = _
            rw [htake, List.drop_left]
            simp only [List.append_assoc]

/-- Folding a run writes the number of the whole, or its products with theirs. -/
theorem foldRun_eq {n : Text} {ls : List Link} (hn : IsLiteral n) (hls : ∀ l ∈ ls, l.IsSound)
    (ctx : RunContext) :
    foldRun ctx (n ++ linksText ls) = (do
      let total ← (if ctx.leftFree && ctx.rightFree then
        runTotal none (blockProducts 0 (runBlocks n ls)) else pure none)
      match total.bind foldedText? with
      | some new => pure new
      | none => foldedBlocks ctx (runBlocks n ls).length 0 (runBlocks n ls)) := by
  have hlength (pos : Nat) (bs : List Block) : (blockProducts pos bs).length = bs.length := by
    induction bs generalizing pos with
    | nil => rfl
    | cons b bs ih => rw [blockProducts, List.length_cons, ih, List.length_cons]
  have hfold := foldProducts_eq ctx (runBlocks n ls).length 0 [] (runBlocks n ls)
  simp only [List.length_nil, List.nil_append, runBlocks_text, id_map'] at hfold
  rewrite [foldRun, products_runTokens hn hls, hlength, hfold]
  rfl

end HostScript.Optimize
