import HostScript.Proofs.Script.Runs
import HostScript.Proofs.Text
import HostScript.Script.Masked

/-!
# Free occurrences of names, and slashes

A name occurs freely in a text exactly when it stands among the runs of the text, and replacing its
free occurrences renames exactly the runs that are the name and do not follow a dot.
-/

namespace HostScript.Script

/-- A text that can be a name: identifier characters only, and at least one. -/
structure IsName (n : Text) : Prop where
  ne_nil : n ≠ []
  isIdentPart : ∀ c ∈ n, isIdentPart c = true

/-- A name, as it can be checked. -/
theorem isName_of_all {n : Text} (hne : n ≠ []) (hall : n.all isIdentPart = true) : IsName n :=
  ⟨hne, List.all_eq_true.mp hall⟩

/-- The runs of a text. -/
abbrev textRuns (t : Text) : List Text := runsOf isIdentPart t

/-- Where a name occurs freely: not inside a longer name and not behind a dot. -/
def freeFit (n : Text) : PlainFit := fun prev after =>
  if !prev.any (isWord ||| among "$.") && n.isPrefixOf after
      && !(after.drop n.length).head?.any isIdentPart then some n.length else none

/-- A character after which no name is free belongs to a name or is a dot. -/
theorem bound_iff (c : Char) :
    (isWord ||| among "$.") c = (isIdentPart c || c == '.') := by
  have hamong : among "$." c = (c == '$' || c == '.') := by
    simp [among, Bool.beq_eq_decide_eq]
  change (isWord c || among "$." c) = ((isWord c || c == '$') || c == '.')
  rw [hamong, Bool.or_assoc]

/-- A name is a pattern that fits in one way. -/
theorem freeName_isPlain {n : Text} (hn : n ≠ []) : (freeName n).IsPlain (freeFit n) where
  run_eq := by
    intro c
    rw [freeName, Pattern.run_seq, Pattern.run_seq, Pattern.fresh, Pattern.run_notAfter,
      Pattern.run_text, nameEnds, Pattern.oneOf, Pattern.run_notAhead_one, freeFit]
    have hafter : (c.advance n.length).after = c.after.drop n.length := rfl
    rw [hafter]
    cases c.before.head?.any (isWord ||| among "$.") with
    | true => rfl
    | false =>
      cases n.isPrefixOf c.after with
      | false => rfl
      | true => cases (c.after.drop n.length).head?.any isIdentPart <;> rfl
  pos := by
    intro prev after m h
    simp only [freeFit, Option.ite_none_right_eq_some, Option.some.injEq] at h
    rw [← h.2]
    exact List.length_pos_of_ne_nil hn
  le := by
    intro prev after m h
    simp only [freeFit, Option.ite_none_right_eq_some, Option.some.injEq, Bool.and_eq_true,
      List.isPrefixOf_iff_prefix] at h
    rw [← h.2]
    exact h.1.1.2.length_le

/-- A run that starts with an identifier character has no others. -/
theorem IsRun.forall_of_startsIn {solid : Char → Bool} {w : Text} (h : IsRun solid w)
    (hs : startsIn solid w = true) : ∀ c ∈ w, solid c = true := by
  rcases h.2 with hall | ⟨a, rfl⟩
  · exact hall
  · simpa [startsIn] using hs

/-- A name and a run that start together and end before something else are the same. -/
theorem eq_of_prefix_run {n w rest : Text} (hn : IsName n) (hw : IsRun isIdentPart w)
    (hrest : (endsIn isIdentPart w && startsIn isIdentPart rest) = false)
    (hp : n <+: w ++ rest) (hend : ((w ++ rest).drop n.length).head?.any isIdentPart = false) :
    w = n := by
  rcases List.prefix_or_prefix_of_prefix hp (List.prefix_append w rest) with ⟨v, rfl⟩ | ⟨v, rfl⟩
  · -- The run goes on behind the name, with another identifier character unless it ends there.
    cases v with
    | nil => simp
    | cons c v =>
      have hsolid : ∀ d ∈ n ++ c :: v, isIdentPart d = true := by
        apply hw.forall_of_startsIn
        rw [startsIn_append _ hn.ne_nil]
        exact hn.isIdentPart _ (List.head_mem _)
      have hc := hsolid c (by simp)
      rw [List.append_assoc, List.drop_left] at hend
      simp [hc] at hend
  · -- The name goes on behind the run, so what follows the run is an identifier character.
    cases v with
    | nil => simp
    | cons c v =>
      have hlast : endsIn isIdentPart w = true := by
        rw [endsIn_eq _ hw.1]
        exact hn.isIdentPart _ (List.mem_append_left _ (List.getLast_mem _))
      obtain ⟨u, rfl⟩ := (List.prefix_append_right_inj w).mp hp
      have hc := hn.isIdentPart c (by simp)
      simp [hlast, startsIn, hc] at hrest

/-- At the start of a run a name is free exactly when it is the run and no dot stands before. -/
theorem freeFit_run {n w : Text} (hn : IsName n) {prev : Option Char} {rest : Text}
    (hw : IsRun isIdentPart w) (hprev : (prev.any isIdentPart && startsIn isIdentPart w) = false)
    (hrest : (endsIn isIdentPart w && startsIn isIdentPart rest) = false) :
    freeFit n prev (w ++ rest) =
      if w = n ∧ prev.any (· == '.') = false then some n.length else none := by
  have hbound : prev.any (isWord ||| among "$.") =
      (prev.any isIdentPart || prev.any (· == '.')) := by
    cases prev with
    | none => rfl
    | some c => exact bound_iff c
  rw [freeFit]
  by_cases hwn : w = n
  · subst hwn
    have hstart : startsIn isIdentPart w = true := by
      rw [← List.append_nil w, startsIn_append _ hn.ne_nil]
      exact hn.isIdentPart _ (List.head_mem _)
    have hlast : endsIn isIdentPart w = true := by
      rw [endsIn_eq _ hn.ne_nil]
      exact hn.isIdentPart _ (List.getLast_mem _)
    rw [hstart, Bool.and_true] at hprev
    rw [hlast, Bool.true_and, startsIn] at hrest
    have hp : w.isPrefixOf (w ++ rest) = true := by simp
    rw [hbound, hprev, hp, List.drop_left, hrest]
    cases prev.any (· == '.') <;> simp
  · rw [if_neg (c := w = n ∧ _) (fun h => hwn h.1), if_neg]
    intro h
    simp only [Bool.and_eq_true, Bool.not_eq_true', List.isPrefixOf_iff_prefix] at h
    exact hwn (eq_of_prefix_run hn hw hrest h.1.2 h.2)

/-- Inside a run no name is free. -/
theorem freeFit_inside {n x y : Text} {c : Char} {rest : Text}
    (hw : IsRun isIdentPart (x ++ c :: y)) (hx : x ≠ []) :
    freeFit n x.getLast? (c :: y ++ rest) = none := by
  have hlast : isIdentPart (x.getLast hx) = true := by
    rcases hw.2 with hall | ⟨a, ha⟩
    · exact hall _ (List.mem_append_left _ (List.getLast_mem hx))
    · have hlen := congrArg List.length ha
      have hpos := List.length_pos_of_ne_nil hx
      simp only [List.length_append, List.length_cons, List.length_nil] at hlen
      omega
  rw [freeFit, List.getLast?_eq_getLast_of_ne_nil hx, Option.any_some, bound_iff, hlast]
  rfl

/-- One walk renames the runs that are the name and do not follow a dot. -/
theorem swapFits_flatten {n : Text} (hn : IsName n) (new : Text) {ws : List Text}
    (h : IsRuns isIdentPart ws) {prev : Option Char}
    (hprev : (prev.any isIdentPart && startsIn isIdentPart ws.flatten) = false) :
    Pattern.swapFits (freeFit n) new prev 0 ws.flatten =
      (renameRuns (· == '.') (fun w => if w = n then some new else none)
        (prev.any (· == '.')) ws).flatten := by
  induction ws generalizing prev with
  | nil => rfl
  | cons w ws ih =>
    obtain ⟨hrun, hrest, hws⟩ := isRuns_cons_iff.mp h
    rw [List.flatten_cons, startsIn_append_left _ hrun.ne_nil] at hprev
    have hfit := freeFit_run hn hrun hprev hrest
    have hlast : w.getLast?.or prev = w.getLast? := by
      rw [List.getLast?_eq_getLast_of_ne_nil hrun.1]
      rfl
    rw [List.flatten_cons, renameRuns, List.flatten_cons, renameRun]
    have hnext : ((w.getLast?).any isIdentPart && startsIn isIdentPart ws.flatten) = false := hrest
    by_cases hhit : w = n ∧ prev.any (· == '.') = false
    · rw [if_pos hhit] at hfit
      obtain ⟨c, v, rfl⟩ := List.exists_cons_of_ne_nil hrun.ne_nil
      rw [List.cons_append, Pattern.swapFits, ← List.cons_append, hfit]
      dsimp only
      have hlast : v.getLast?.or (some c) = (c :: v).getLast? := by
        rw [List.getLast?_cons]
        cases v.getLast? <;> rfl
      have hlen : n.length - 1 = v.length := by simp [← hhit.1]
      rw [hlen, Pattern.swapFits_skip, hlast, ih hws hnext, hhit.2, if_pos hhit.1]
      rfl
    · rw [if_neg hhit] at hfit
      have hcopy : ∀ x c y, w = x ++ c :: y →
          freeFit n (x.getLast?.or prev) (c :: y ++ ws.flatten) = none := by
        rintro x c y rfl
        by_cases hx : x = []
        · subst hx
          exact hfit
        · have hor : x.getLast?.or prev = x.getLast? := by
            rw [List.getLast?_eq_getLast_of_ne_nil hx]
            rfl
          rw [hor]
          exact freeFit_inside hrun hx
      have hkeep : (if prev.any (· == '.') = true then w
          else (if w = n then some new else none).getD w) = w := by
        by_cases hw : w = n
        · have hdot : prev.any (· == '.') = true := by simpa [hw] using hhit
          rw [if_pos hdot]
        · simp [hw]
      rw [Pattern.swapFits_copy hcopy, hlast, ih hws hnext, hkeep]
      rfl

/-- Replacing the free occurrences of a name renames the runs that are the name and do not follow a
dot. -/
theorem replace_freeName {n : Text} (hn : IsName n) (new t : Text) :
    (freeName n).replace (fun _ => new) t =
      (renameRuns (· == '.') (fun w => if w = n then some new else none) false
        (textRuns t)).flatten := by
  have hstart : ((none : Option Char).any isIdentPart &&
      startsIn isIdentPart (runsOf isIdentPart t).flatten) = false := rfl
  have hwalk := swapFits_flatten hn new (isRuns_runsOf isIdentPart t) hstart
  rw [(freeName_isPlain hn.ne_nil).replace_eq]
  rw [flatten_runsOf] at hwalk
  exact hwalk

/-- Somewhere in runs a name is free exactly when it stands among them. -/
theorem exists_freeFit_iff {n : Text} (hn : IsName n) {ws : List Text} (h : IsRuns isIdentPart ws)
    {prev : Option Char}
    (hprev : (prev.any isIdentPart && startsIn isIdentPart ws.flatten) = false) :
    (∃ x y m, ws.flatten = x ++ y ∧ freeFit n (x.getLast?.or prev) y = some m) ↔
      Stands (· == '.') (prev.any (· == '.')) n ws := by
  induction ws generalizing prev with
  | nil =>
    refine ⟨?_, fun hs => absurd hs not_stands_nil⟩
    rintro ⟨x, y, m, hxy, hfit⟩
    obtain ⟨rfl, rfl⟩ := List.append_eq_nil_iff.mp hxy.symm
    rw [(freeName_isPlain hn.ne_nil).fit_nil] at hfit
    simp at hfit
  | cons w ws ih =>
    obtain ⟨hrun, hrest, hws⟩ := isRuns_cons_iff.mp h
    rw [List.flatten_cons, startsIn_append_left _ hrun.ne_nil] at hprev
    have hfit := freeFit_run hn hrun hprev hrest
    have hlast : w.getLast?.or prev = w.getLast? := by
      rw [List.getLast?_eq_getLast_of_ne_nil hrun.ne_nil]
      rfl
    rw [stands_cons_iff, List.flatten_cons]
    have hnext : (w.getLast?.any isIdentPart && startsIn isIdentPart ws.flatten) = false := hrest
    rw [← show w.getLast?.any (· == '.') = endsIn (· == '.') w from rfl, ← ih hws hnext]
    have hmove (x : Text) : (w ++ x).getLast?.or prev = x.getLast?.or w.getLast? := by
      rw [List.getLast?_append, Option.or_assoc, hlast]
    constructor
    · rintro ⟨x, y, m, hxy, hm⟩
      rcases List.append_eq_append_iff.mp hxy with ⟨x', rfl, hws'⟩ | ⟨w', rfl, rfl⟩
      · rw [hmove] at hm
        exact Or.inr ⟨x', y, m, hws', hm⟩
      · cases w' with
        | nil =>
          rw [List.append_nil] at hlast
          exact Or.inr ⟨[], _, m, rfl, by simpa [hlast] using hm⟩
        | cons c w' =>
          -- The place lies inside the run, so it can only be the start of it.
          by_cases hx : x = []
          · subst hx
            rw [List.nil_append] at hfit
            rw [List.getLast?_nil, Option.none_or, hfit] at hm
            simp only [Option.ite_none_right_eq_some] at hm
            exact Or.inl ⟨hm.1.2, hm.1.1⟩
          · have hor : x.getLast?.or prev = x.getLast? := by
              rw [List.getLast?_eq_getLast_of_ne_nil hx]
              rfl
            rw [hor, freeFit_inside hrun hx] at hm
            simp at hm
    · rintro (⟨hdot, rfl⟩ | ⟨x, y, m, hxy, hm⟩)
      · exact ⟨[], _, _, rfl, by simpa [hdot] using hfit⟩
      · exact ⟨w ++ x, y, m, by rw [hxy, List.append_assoc], by rw [hmove]; exact hm⟩

/-- A name occurs freely in a text exactly when it stands among the runs of the text. -/
theorem occursIn_freeName_iff {n : Text} (hn : IsName n) (t : Text) :
    (freeName n).occursIn t = true ↔ Stands (· == '.') false n (textRuns t) := by
  have hstart : ((none : Option Char).any isIdentPart &&
      startsIn isIdentPart (runsOf isIdentPart t).flatten) = false := rfl
  have hruns := exists_freeFit_iff hn (isRuns_runsOf isIdentPart t) hstart
  rw [flatten_runsOf] at hruns
  simp only [Option.or_none] at hruns
  rw [(freeName_isPlain hn.ne_nil).occursIn_iff]
  exact hruns

end HostScript.Script

/-!
## What a slash means

A slash starts a regular expression at the start of a text, after certain characters and after
certain words, and divides otherwise. White space before it does not count. What stands before an
opening bracket or the end of a statement has no bearing on the slashes behind it, and neither has
what stands before a name: behind a name a slash divides.
-/

namespace HostScript

/-- One of several strings is passed over if it comes next and the rest succeeds behind it. -/
theorem Pattern.isSome_run_choice_iff {ss : List String} (hss : ss ≠ [])
    (k : Cursor → Option Cursor) (c : Cursor) :
    ((Pattern.choice ss).run k c).isSome = true ↔
      ∃ s ∈ ss, s.toList <+: c.after ∧ (k (c.advance s.toList.length)).isSome = true := by
  have hone (s : String) : ((Pattern.lit s).run k c).isSome = true ↔
      s.toList <+: c.after ∧ (k (c.advance s.toList.length)).isSome = true := by
    rw [lit, run_text]
    by_cases hp : s.toList <+: c.after
    · simp [hp]
    · simp [hp]
  induction ss with
  | nil => exact absurd rfl hss
  | cons s ss ih =>
    cases ss with
    | nil => simpa [choice] using hone s
    | cons s' ss =>
      have hrun : (choice (s :: s' :: ss)).run k c =
          Fit.orTry ((lit s).run k c) fun _ => (choice (s' :: ss)).run k c := rfl
      have htry : (Fit.orTry ((lit s).run k c) fun _ => (choice (s' :: ss)).run k c).isSome = true ↔
          ((lit s).run k c).isSome = true ∨ ((choice (s' :: ss)).run k c).isSome = true := by
        cases (lit s).run k c <;> simp [Fit.orTry]
      have hrest := ih (List.cons_ne_nil s' ss)
      rw [hrun, htry, hone, List.exists_mem_cons_iff]
      exact or_congr_right hrest

namespace Script

/-- The words after which a slash starts a regular expression. -/
def regexWords : List Text :=
  ["return", "typeof", "case", "in", "of", "void", "yield", "await", "delete", "throw",
    "instanceof", "new", "else", "do"]

/-- These words are names. -/
theorem isName_of_mem_regexWords {w : Text} (hw : w ∈ regexWords) : IsName w := by
  have hall : ∀ v ∈ regexWords, v ≠ [] ∧ v.all isIdentPart = true := by decide
  exact isName_of_all (hall w hw).1 (hall w hw).2

/-- A text that ends in one of the words, outside a longer name and not behind a dot. -/
def EndsInWord (t : Text) : Prop :=
  ∃ w ∈ regexWords, ∃ x, t = x ++ w ∧ endsIn isIdentPart x = false ∧ endsIn (· == '.') x = false

/-- What may not stand right before a name is what belongs to a name, and a dot. -/
theorem getLast?_any_bound (x : Text) :
    x.getLast?.any (isWord ||| among "$.") =
      (endsIn isIdentPart x || endsIn (· == '.') x) := by
  rw [endsIn, endsIn]
  cases x.getLast? with
  | none => rfl
  | some c => exact bound_iff c

/-- The search for a word at the end of a text finds it there. -/
theorem occursIn_regexKeyword_iff {t : Text} (ht : t.getLast? ≠ some '\n') :
    regexKeyword.occursIn t = true ↔ EndsInWord t := by
  have hwords : (["return", "typeof", "case", "in", "of", "void", "yield", "await", "delete",
      "throw", "instanceof", "new", "else", "do"] : List String).map String.toList =
        regexWords := rfl
  have hrun (x y : Text) :
      (regexKeyword.run some ⟨x.reverse, y, x.length, []⟩).isSome = true ↔
        (endsIn isIdentPart x || endsIn (· == '.') x) = false ∧
          ∃ w ∈ regexWords, w <+: y ∧ (y.drop w.length = [] ∨ y.drop w.length = ['\n']) := by
    rw [regexKeyword, Pattern.run_seq, Pattern.run_seq, Pattern.run_notAfter, ← hwords]
    simp only [List.head?_reverse, getLast?_any_bound, List.mem_map, exists_exists_and_eq_and]
    cases endsIn isIdentPart x || endsIn (· == '.') x with
    | true => simp
    | false =>
      simp only [Bool.false_eq_true, if_false, true_and]
      rw [Pattern.isSome_run_choice_iff (by simp)]
      simp [Pattern.run, Cursor.onEnd, Cursor.advance]
  rw [Pattern.occursIn_iff_run]
  simp only [hrun]
  constructor
  · rintro ⟨x, y, rfl, hx, w, hw, ⟨z, rfl⟩, hz⟩
    rw [Bool.or_eq_false_iff] at hx
    rw [List.drop_left] at hz
    rcases hz with rfl | rfl
    · exact ⟨w, hw, x, by rw [List.append_nil], hx.1, hx.2⟩
    · simp at ht
  · rintro ⟨w, hw, x, rfl, hident, hdot⟩
    exact ⟨x, w, rfl, by rw [hident, hdot]; rfl, w, hw, List.prefix_rfl, Or.inl (by simp)⟩

/-- A trimmed text does not end in white space. -/
theorem endsIn_trimEnd (t : Text) : endsIn isBlank (Text.trimEnd t) = false := by
  rw [endsIn, Text.trimEnd, Text.trimEndOf, List.getLast?_reverse]
  cases h : (t.reverse.dropWhile isBlank).head? with
  | none => rfl
  | some c =>
    have := List.head?_dropWhile_not isBlank t.reverse
    rw [h] at this
    simpa using this

/-- A text that does not end in a character of a set is not trimmed. -/
theorem trimEndOf_eq_self {s : CharSet} {t : Text} (h : endsIn s t = false) :
    Text.trimEndOf s t = t := by
  induction t using List.reverseRecOn with
  | nil => rfl
  | append_singleton t c _ =>
    have hc : s c = false := by simpa [endsIn] using h
    simp [Text.trimEndOf, hc]

theorem trimEnd_eq_self {t : Text} (h : endsIn isBlank t = false) : Text.trimEnd t = t :=
  trimEndOf_eq_self h

/-- A text without white space at its ends is not trimmed. -/
theorem trim_eq_self {t : Text} (hs : startsIn isBlank t = false) (he : endsIn isBlank t = false) :
    t.trim = t := by
  have hstart : t.dropWhile isBlank = t := by
    cases t with
    | nil => rfl
    | cons c t => exact List.dropWhile_cons_of_neg (by simpa [startsIn] using hs)
  rw [Text.trim, Text.trimOf, Text.trimStartOf, hstart]
  exact trimEnd_eq_self he

/-- A slash starts a regular expression after nothing, after certain characters and after certain
words. -/
theorem regexAllowed_iff (t : Text) :
    regexAllowed t = true ↔ Text.trimEnd t = [] ∨ endsIn isRegexPreceder (Text.trimEnd t) = true ∨
      EndsInWord (Text.trimEnd t) := by
  have hbreak : (Text.trimEnd t).getLast? ≠ some '\n' := by
    intro h
    have hblank := endsIn_trimEnd t
    rw [endsIn, h] at hblank
    revert hblank
    decide
  rw [← occursIn_regexKeyword_iff hbreak, regexAllowed, endsIn]
  cases h : (Text.trimEnd t).getLast? with
  | none => exact iff_of_true rfl (Or.inl (List.getLast?_eq_none_iff.mp h))
  | some c =>
    have hne : Text.trimEnd t ≠ [] := by
      intro hnil
      simp [hnil] at h
    simp [hne]

/-- Whether a text ends in a word does not depend on what stands before it, unless a name could
reach from there into the text, or a dot stands before it. -/
theorem endsInWord_append_iff {u s : Text} (hs : s ≠ [])
    (h : startsIn isIdentPart s = true →
      endsIn isIdentPart u = false ∧ endsIn (· == '.') u = false) :
    EndsInWord (u ++ s) ↔ EndsInWord s := by
  have hstart {w : Text} (hw : w ∈ regexWords) {x : Text} (hx : x ≠ []) (hp : x <:+ w) :
      startsIn isIdentPart x = true := by
    rw [startsIn_eq _ hx]
    exact (isName_of_mem_regexWords hw).isIdentPart _ (hp.subset (List.head_mem hx))
  constructor
  · rintro ⟨w, hw, x, hxw, hident, hdot⟩
    rcases List.append_eq_append_iff.mp hxw with ⟨x', rfl, rfl⟩ | ⟨w', rfl, rfl⟩
    · cases x' with
      | nil => exact ⟨w, hw, [], rfl, rfl, rfl⟩
      | cons c x' =>
        rw [endsIn_append _ (List.cons_ne_nil c x')] at hident hdot
        exact ⟨w, hw, c :: x', rfl, hident, hdot⟩
    · cases w' with
      | nil => exact ⟨_, hw, [], rfl, rfl, rfl⟩
      | cons c w' =>
        have hu := (h (hstart hw hs (List.suffix_append _ s))).1
        have hlast := (isName_of_mem_regexWords hw).isIdentPart _
          (List.mem_append_left s (List.getLast_mem (List.cons_ne_nil c w')))
        rw [endsIn_append _ (List.cons_ne_nil c w'), endsIn_eq _ (List.cons_ne_nil c w'),
          hlast] at hu
        cases hu
  · rintro ⟨w, hw, x, rfl, hident, hdot⟩
    refine ⟨w, hw, u ++ x, by rw [List.append_assoc], ?_⟩
    cases x with
    | nil =>
      rw [List.append_nil]
      exact h (hstart hw hs List.suffix_rfl)
    | cons c x =>
      rw [endsIn_append _ (List.cons_ne_nil c x), endsIn_append _ (List.cons_ne_nil c x)]
      exact ⟨hident, hdot⟩

/-- Trimming keeps the start of a text that is not blank. -/
theorem startsIn_trimEnd (f : Char → Bool) {s : Text} (hs : Text.trimEnd s ≠ []) :
    startsIn f (Text.trimEnd s) = startsIn f s := by
  have hp : Text.trimEnd s <+: s := by
    rw [Text.trimEnd, Text.trimEndOf, ← List.reverse_suffix, List.reverse_reverse]
    exact List.dropWhile_suffix isBlank
  obtain ⟨t, ht⟩ := hp
  conv_rhs => rw [← ht, startsIn_append_left _ hs]

/-- The meaning of a slash does not depend on what stands before a text that is not blank, unless a
name could reach from there into the text, or a dot stands before it. -/
theorem regexAllowed_append {u s : Text} (hs : Text.trimEnd s ≠ [])
    (h : startsIn isIdentPart s = true →
      endsIn isIdentPart u = false ∧ endsIn (· == '.') u = false) :
    regexAllowed (u ++ s) = regexAllowed s := by
  rw [Bool.eq_iff_iff, regexAllowed_iff, regexAllowed_iff, Text.trimEnd_append, if_neg hs,
    endsIn_append _ hs, endsInWord_append_iff hs (by rwa [startsIn_trimEnd _ hs])]
  simp [hs]

/-- A text that ends where an expression may start. -/
structure Opens (u : Text) : Prop where
  ident : endsIn isIdentPart u = false
  dot : endsIn (· == '.') u = false
  preceder : Text.trimEnd u ≠ [] → endsIn isRegexPreceder (Text.trimEnd u) = true

/-- What stands before the start of an expression has no bearing on the slashes behind it. -/
theorem Opens.regexAllowed_append {u : Text} (hu : Opens u) (s : Text) :
    regexAllowed (u ++ s) = regexAllowed s := by
  by_cases hs : Text.trimEnd s = []
  · have hright : regexAllowed s = true := (regexAllowed_iff s).mpr (Or.inl hs)
    rw [hright, regexAllowed_iff, Text.trimEnd_append, if_pos hs]
    by_cases htrim : Text.trimEnd u = []
    · exact Or.inl htrim
    · exact Or.inr (Or.inl (hu.preceder htrim))
  · exact Script.regexAllowed_append hs fun _ => ⟨hu.ident, hu.dot⟩

/-- A name behind which a slash divides, even where only the end of it is seen. -/
structure Divides (n : Text) : Prop where
  blank : endsIn isBlank n = false
  preceder : endsIn isRegexPreceder n = false
  longer : ∀ w ∈ regexWords, ¬ w <:+ n
  shorter : ∀ w ∈ regexWords, ¬ n <:+ w

/-- Behind such a name, or the end of it, a slash divides. -/
theorem Divides.regexAllowed_eq_false {n u s : Text} (hn : Divides n) (hne : n ≠ [])
    (hu : n <:+ u ∨ u ≠ [] ∧ u <:+ n) (hs : Text.trimEnd s = []) :
    regexAllowed (u ++ s) = false := by
  have hlast : u ≠ [] ∧ u.getLast? = n.getLast? := by
    rcases hu with ⟨x, rfl⟩ | ⟨hune, x, rfl⟩
    · exact ⟨by simp [hne], List.getLast?_append_of_ne_nil x hne⟩
    · exact ⟨hune, (List.getLast?_append_of_ne_nil x hune).symm⟩
  have htrim : Text.trimEnd u = u := trimEnd_eq_self (by rw [endsIn, hlast.2, ← endsIn, hn.blank])
  rw [Bool.eq_false_iff, ne_eq, regexAllowed_iff, Text.trimEnd_append, if_pos hs, htrim]
  rintro (hnil | hpre | ⟨w, hw, x, rfl, -, -⟩)
  · exact hlast.1 hnil
  · rw [endsIn, hlast.2, ← endsIn, hn.preceder] at hpre
    cases hpre
  · have hwu : w <:+ x ++ w := List.suffix_append x w
    rcases hu with hu | hu
    · rcases List.suffix_or_suffix_of_suffix hwu hu with hwn | hnw
      · exact hn.longer w hw hwn
      · exact hn.shorter w hw hnw
    · exact hn.longer w hw (hwu.trans hu.2)

end Script

end HostScript
