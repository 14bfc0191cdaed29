import HostScript.Proofs.Pattern.Covered
import HostScript.Proofs.Pattern.Longer
import HostScript.Proofs.Pattern.Plain

/-!
# Ways to fit

Whether a pattern fits at a place at all is a question about its parts: a sequence fits if its
second part fits where the first can end, alternatives fit if one of them does, and a repetition of
single characters can end behind any number of them. Where a search finds nothing for a while, it
may as well start behind that stretch.
-/

namespace HostScript.Pattern

variable {p q : Pattern} {k : Cursor → Option Cursor} {c : Cursor}

/-- Of two alternatives one fits. -/
theorem isSome_run_orElse_iff :
    ((p <|> q).run k c).isSome = true ↔
      (p.run k c).isSome = true ∨ (q.run k c).isSome = true := by
  rw [run_orElse]
  cases p.run k c <;> simp [Fit.orTry]

/-- One character of a set fits if it comes next. -/
theorem isSome_run_one_iff {s : CharSet} :
    ((one s).run k c).isSome = true ↔
      ∃ x rest, c.after = x :: rest ∧ s x = true ∧ (k (c.advance 1)).isSome = true := by
  rw [run_one]
  cases hafter : c.after with
  | nil => simp
  | cons x rest => cases hx : s x <;> simp [hx]

/-- A text fits if it comes next. -/
theorem isSome_run_text_iff {t : Text} :
    ((text t).run k c).isSome = true ↔
      t <+: c.after ∧ (k (c.advance t.length)).isSome = true := by
  rw [run_text]
  by_cases h : t <+: c.after <;> simp [h]

/-- A condition on the character before a place. -/
theorem run_after {s : CharSet} {k : Cursor → Option Cursor} {c : Cursor} :
    (after s).run k c = if c.before.head?.any s then k c else none := by
  obtain ⟨before, rest, pos, groups⟩ := c
  cases before with
  | nil => rfl
  | cons a before => cases ha : s a <;> simp [after, run, Cursor.back, Cursor.accept, ha]

/-- An edge fits between a character of a word and something else. -/
theorem isSome_run_edge_iff :
    (edge.run k c).isSome = true ↔ c.onEdge = true ∧ (k c).isSome = true := by
  have hrun : edge.run k c = if c.onEdge then k c else none := rfl
  rw [hrun]
  cases c.onEdge <;> simp

/-- A pattern that may be left out fits if it covers something or is left out. -/
theorem isSome_run_opt_iff {p : Pattern} {k : Cursor → Option Cursor} {c : Cursor} :
    (p.opt.run k c).isSome = true ↔
      (p.run (fun d => if d.pos == c.pos then none else k d) c).isSome = true ∨
        (k c).isSome = true := by
  have hopt : p.opt.run k c =
      Fit.orTry (p.run (fun d => if d.pos == c.pos then none else k d) c) fun _ => k c := rfl
  rw [hopt]
  cases p.run (fun d => if d.pos == c.pos then none else k d) c <;> simp [Fit.orTry]

/-- Further rounds of a set of characters can end behind any number of those that come next. -/
theorem isSome_furtherRounds_one_iff {s : CharSet} {spare : Text} {c : Cursor}
    (hspare : c.after.length ≤ spare.length) :
    (Fit.furtherRounds (one s).run true spare k c).isSome = true ↔
      ∃ x, x <+: c.after ∧ (∀ a ∈ x, s a = true) ∧ (k (c.advance x.length)).isSome = true := by
  induction spare generalizing c with
  | nil =>
    have hnil : c.after = [] := List.length_eq_zero_iff.mp (Nat.le_zero.mp hspare)
    simp [Fit.furtherRounds, hnil]
  | cons _ spare ih =>
    have htry (a b : Option Cursor) :
        (Fit.orTry a fun _ => b).isSome = true ↔ a.isSome = true ∨ b.isSome = true := by
      cases a <;> simp [Fit.orTry]
    rw [Fit.furtherRounds, if_pos rfl, htry, isSome_run_one_iff]
    have hmoved : ((c.advance 1).pos == c.pos) = false := by simp [Cursor.advance]
    simp only [hmoved, Bool.false_eq_true, if_false]
    constructor
    · rintro (⟨a, rest, hafter, ha, hrest⟩ | hstay)
      · have hnext : (c.advance 1).after = rest := by simp [Cursor.advance, hafter]
        rw [hafter, List.length_cons] at hspare
        rw [ih (by rw [hnext]; exact Nat.le_of_succ_le_succ hspare), hnext] at hrest
        obtain ⟨x, hx, hall, hk⟩ := hrest
        refine ⟨a :: x, ?_, List.forall_mem_cons.mpr ⟨ha, hall⟩, ?_⟩
        · rw [hafter, List.cons_prefix_cons]
          exact ⟨rfl, hx⟩
        · rwa [Cursor.advance_advance, Nat.add_comm] at hk
      · exact ⟨[], List.nil_prefix, List.forall_mem_nil _, by simpa using hstay⟩
    · rintro ⟨x, hx, hall, hk⟩
      cases x with
      | nil => exact Or.inr (by simpa using hk)
      | cons a x =>
        obtain ⟨rest, hrest⟩ := hx
        rw [List.cons_append] at hrest
        rw [List.forall_mem_cons] at hall
        have hnext : (c.advance 1).after = x ++ rest := by simp [Cursor.advance, ← hrest]
        refine Or.inl ⟨a, x ++ rest, hrest.symm, hall.1, ?_⟩
        rw [← hrest, List.length_cons] at hspare
        rw [ih (by rw [hnext]; exact Nat.le_of_succ_le_succ hspare), hnext]
        refine ⟨x, List.prefix_append x rest, hall.2, ?_⟩
        rwa [Cursor.advance_advance, Nat.add_comm]

/-- So can a repetition of them. -/
theorem isSome_run_star_one_iff {s : CharSet} :
    ((star (one s)).run k c).isSome = true ↔
      ∃ x, x <+: c.after ∧ (∀ a ∈ x, s a = true) ∧ (k (c.advance x.length)).isSome = true :=
  isSome_furtherRounds_one_iff le_rfl

/-- Of several strings the first one counts that comes next with a success behind it. -/
theorem run_choice {ss : List String} (hss : ss ≠ []) :
    (choice ss).run k c = ss.findSome? fun s =>
      if s.toList.isPrefixOf c.after then k (c.advance s.toList.length) else none := by
  induction ss with
  | nil => exact absurd rfl hss
  | cons s ss ih =>
    have hone (r : Option Cursor) : Fit.orTry r (fun _ => none) = r := by cases r <;> rfl
    have hfirst : (choice (s :: ss)).run k c =
        Fit.orTry (if s.toList.isPrefixOf c.after then k (c.advance s.toList.length) else none)
          fun _ => if ss = [] then none else (choice ss).run k c := by
      rw [← run_text]
      cases ss with
      | nil => exact (hone _).symm
      | cons s' ss => rfl
    rw [hfirst, List.findSome?_cons]
    split_ifs with hp hss
    · rw [hss]
      cases k (c.advance s.toList.length) <;> rfl
    · rw [ih hss]
      cases k (c.advance s.toList.length) <;> rfl
    · rw [‹ss = []›]
      rfl
    · exact ih ‹_›

variable {fit : PlainFit}

/-- A search passes over a stretch in which the pattern does not fit. -/
theorem IsPlain.searchFrom_append (h : p.IsPlain fit) {before x y : Text} {pos : Nat}
    (hx : ∀ x₁ c x₂, x = x₁ ++ c :: x₂ → fit (x₁.getLast?.or before.head?) (c :: x₂ ++ y) = none) :
    p.searchFrom before pos false (x ++ y) =
      p.searchFrom (x.reverse ++ before) (pos + x.length) false y := by
  induction x generalizing before pos with
  | nil => rfl
  | cons c x ih =>
    have hc : fit before.head? (c :: (x ++ y)) = none := hx [] c x rfl
    have hrest : ∀ x₁ d x₂, x = x₁ ++ d :: x₂ →
        fit (x₁.getLast?.or (c :: before).head?) (d :: x₂ ++ y) = none := by
      rintro x₁ d x₂ rfl
      have := hx (c :: x₁) d x₂ rfl
      rw [List.getLast?_cons] at this
      cases hl : x₁.getLast? <;> simpa [hl] using this
    rw [List.cons_append, h.searchFrom_cons, hc]
    dsimp only
    rw [ih hrest, List.reverse_cons, List.append_assoc, List.length_cons]
    congr 1
    omega

/-- A plain pattern fits nowhere in a stretch, or there is a first place in it where it fits. -/
theorem fits_or_first (fit : PlainFit) (prev : Option Char) (x y : Text) :
    (∀ x₁ c x₂, x = x₁ ++ c :: x₂ → fit (x₁.getLast?.or prev) (c :: x₂ ++ y) = none) ∨
      ∃ u c v n, x = u ++ c :: v ∧ fit (u.getLast?.or prev) (c :: v ++ y) = some n ∧
        ∀ x₁ d x₂, u = x₁ ++ d :: x₂ →
          fit (x₁.getLast?.or prev) (d :: x₂ ++ (c :: v ++ y)) = none := by
  induction x generalizing prev with
  | nil => exact Or.inl (by simp)
  | cons a x ih =>
    have hlast (l : Text) : (a :: l).getLast?.or prev = l.getLast?.or (some a) := by
      rw [List.getLast?_cons]
      cases l.getLast? <;> rfl
    cases hfit : fit prev (a :: x ++ y) with
    | some n => exact Or.inr ⟨[], a, x, n, rfl, hfit, by simp⟩
    | none =>
      rcases ih (some a) with hnone | ⟨u, c, v, n, rfl, hn, hfirst⟩
      · refine Or.inl fun x₁ c x₂ hx => ?_
        cases x₁ with
        | nil =>
          obtain ⟨rfl, rfl⟩ := List.cons.inj hx
          exact hfit
        | cons b x₁ =>
          obtain ⟨rfl, hrest⟩ := List.cons.inj hx
          rw [hlast]
          exact hnone x₁ c x₂ hrest
      · refine Or.inr ⟨a :: u, c, v, n, rfl, by rw [hlast]; exact hn, fun x₁ d x₂ hx => ?_⟩
        cases x₁ with
        | nil =>
          obtain ⟨rfl, rfl⟩ := List.cons.inj hx
          simpa using hfit
        | cons b x₁ =>
          obtain ⟨rfl, hrest⟩ := List.cons.inj hx
          rw [hlast]
          exact hfirst x₁ d x₂ hrest

/-- What a search for a pattern finds at or after a place, from the text before and behind it. -/
theorem searchAt?_append (p : Pattern) (x y : Text) :
    p.searchAt? (x ++ y) x.length =
      (p.searchFrom x.reverse x.length false y).map fun (c, d) =>
        Match.ofCursors (x ++ y) c d := by
  simp [searchAt?, Cursor.atOffset]

/-- The first place behind another one where a plain pattern fits is found. -/
theorem IsPlain.searchAt?_first (h : p.IsPlain fit) {x u y : Text} {n : Nat}
    (hu : ∀ x₁ c x₂, u = x₁ ++ c :: x₂ → fit (x₁.getLast?.or x.getLast?) (c :: x₂ ++ y) = none)
    (hn : fit (u.getLast?.or x.getLast?) y = some n) :
    p.searchAt? (x ++ (u ++ y)) x.length =
      some ⟨x ++ (u ++ y), x.length + u.length, x.length + u.length + n, []⟩ := by
  have hhead : (u.reverse ++ x.reverse).head? = u.getLast?.or x.getLast? := by
    rw [List.head?_append, List.head?_reverse, List.head?_reverse]
  rw [searchAt?_append, h.searchFrom_append (by rwa [List.head?_reverse])]
  cases y with
  | nil => simp [h.fit_nil] at hn
  | cons c y =>
    rw [h.searchFrom_cons, hhead, hn]
    rfl

/-- A search from a place on finds nothing where a plain pattern fits nowhere. -/
theorem IsPlain.searchAt?_eq_none (h : p.IsPlain fit) {x y : Text}
    (hy : ∀ x₁ c x₂, y = x₁ ++ c :: x₂ → fit (x₁.getLast?.or x.getLast?) (c :: x₂) = none) :
    p.searchAt? (x ++ y) x.length = none := by
  have hnone : p.searchFrom x.reverse x.length false (y ++ []) = p.searchFrom
      (y.reverse ++ x.reverse) (x.length + y.length) false [] := h.searchFrom_append (by
    intro x₁ c x₂ hsplit
    rw [List.head?_reverse, List.append_nil]
    exact hy x₁ c x₂ hsplit)
  rw [List.append_nil] at hnone
  rw [searchAt?_append, hnone, h.searchFrom_nil]
  rfl

/-- Where a plain pattern does not fit in a stretch, a search may start behind the stretch. -/
theorem IsPlain.searchAt?_skip (h : p.IsPlain fit) {x u y : Text}
    (hu : ∀ x₁ c x₂, u = x₁ ++ c :: x₂ → fit (x₁.getLast?.or x.getLast?) (c :: x₂ ++ y) = none) :
    p.searchAt? (x ++ (u ++ y)) x.length = p.searchAt? (x ++ u ++ y) (x ++ u).length := by
  rw [searchAt?_append, searchAt?_append, h.searchFrom_append (by rwa [List.head?_reverse]),
    List.reverse_append, List.length_append, List.append_assoc]

end HostScript.Pattern

/-!
## Patterns that take what is there

A pattern takes a text, where another one follows, if it ends behind the text whenever the rest
succeeds there. This is so when at each choice the way into the text is tried first, or the ways
tried before it fail, so it can be put together part by part.
-/

namespace HostScript

/-- What groups hold, by the place where a pattern starts. -/
abbrev GroupsAt := Nat → List (Nat × Capture)

/-- No groups. -/
def noGroups : GroupsAt := fun _ => []

/-- The place behind a text, with further groups filled. -/
def Cursor.behind (c : Cursor) (x : Text) (gs : GroupsAt) : Cursor :=
  { c.advance x.length with groups := gs c.pos ++ c.groups }

theorem Cursor.behind_noGroups (c : Cursor) (x : Text) :
    c.behind x noGroups = c.advance x.length := rfl

/-- The place behind two texts. -/
theorem Cursor.behind_behind (c : Cursor) (x y : Text) (gs hs : GroupsAt) :
    (c.behind x gs).behind y hs = c.behind (x ++ y) fun pos => hs (pos + x.length) ++ gs pos := by
  have hadvance := c.advance_advance x.length y.length
  simp only [advance, mk.injEq] at hadvance
  simp [behind, advance, hadvance.1, Nat.add_assoc]

/-- What comes next behind a text. -/
theorem Cursor.after_behind {c : Cursor} {x rest : Text} (h : c.after = x ++ rest) (gs : GroupsAt) :
    (c.behind x gs).after = rest := by
  simp [behind, advance, h]

/-- The place behind a text that is dealt with and the text that comes next. -/
theorem Cursor.behind_start (x w r : Text) (gs : GroupsAt) :
    Cursor.behind ⟨x.reverse, w ++ r, x.length, []⟩ w gs =
      ⟨(x ++ w).reverse, r, (x ++ w).length, gs x.length⟩ := by
  simp [Cursor.behind, Cursor.advance]

namespace Pattern

variable {p q : Pattern} {s : CharSet} {x y rest t : Text}

/-- Where a text comes next and the rest succeeds behind it, the pattern ends there. -/
def Takes (p : Pattern) (x rest : Text) (gs : GroupsAt) : Prop :=
  ∀ (k : Cursor → Option Cursor) (c e : Cursor), c.after = x ++ rest →
    k (c.behind x gs) = some e → p.run k c = some e

/-- A pattern does not fit where a text comes next. -/
def Refuses (p : Pattern) (t : Text) : Prop :=
  ∀ (k : Cursor → Option Cursor) (c : Cursor), c.after = t → p.run k c = none

theorem takes_one {a : Char} (h : s a = true) (rest : Text) :
    Takes (.one s) [a] rest noGroups := by
  intro k c e hc hk
  rw [run_one, hc]
  simpa [h, Cursor.behind_noGroups] using hk

theorem takes_text (t rest : Text) : Takes (text t) t rest noGroups := by
  intro k c e hc hk
  rw [run_text, hc, if_pos (List.isPrefixOf_iff_prefix.mpr (List.prefix_append t rest))]
  exact hk

/-- Of several strings the first one is taken that comes next. -/
theorem takes_choice {before : List String} (w : String) (others : List String)
    (h : ∀ u ∈ before, ¬ u.toList <+: w.toList ++ rest) :
    (choice (before ++ w :: others)).Takes w.toList rest noGroups := by
  intro k c e hc hk
  have hnone : before.findSome? (fun u =>
      if u.toList.isPrefixOf (w.toList ++ rest) then k (c.advance u.toList.length) else none) =
        none := by
    rw [List.findSome?_eq_none_iff]
    exact fun u hu => if_neg (mt List.isPrefixOf_iff_prefix.mp (h u hu))
  rw [run_choice (by simp), hc, List.findSome?_append, hnone, Option.none_or,
    List.findSome?_cons, if_pos (List.isPrefixOf_iff_prefix.mpr (List.prefix_append _ rest)),
    ← Cursor.behind_noGroups, hk]

theorem Takes.append {gs hs : GroupsAt} (hp : p.Takes x (y ++ rest) gs) (hq : q.Takes y rest hs) :
    (p ++ q).Takes (x ++ y) rest fun pos => hs (pos + x.length) ++ gs pos := by
  intro k c e hc hk
  rw [List.append_assoc] at hc
  rw [run_seq]
  refine hp _ c e hc (hq k _ e (Cursor.after_behind hc gs) ?_)
  rwa [Cursor.behind_behind]

theorem Takes.assoc {r : Pattern} {gs : GroupsAt} (h : (p ++ (q ++ r)).Takes x rest gs) :
    (p ++ q ++ r).Takes x rest gs := h

theorem Takes.left {gs : GroupsAt} (hp : p.Takes x rest gs) : (p <|> q).Takes x rest gs := by
  intro k c e hc hk
  rw [run_orElse, hp k c e hc hk]
  rfl

theorem Takes.right {gs : GroupsAt} (hp : p.Refuses (x ++ rest)) (hq : q.Takes x rest gs) :
    (p <|> q).Takes x rest gs := by
  intro k c e hc hk
  rw [run_orElse, hp k c hc]
  exact hq k c e hc hk

theorem Takes.cap {gs : GroupsAt} (hp : p.Takes x rest gs) (i : Nat) :
    (p.cap i).Takes x rest fun pos => (i, ⟨pos, x⟩) :: gs pos := by
  intro k c e hc hk
  refine hp _ c e hc ?_
  have htext : c.textTo (c.behind x gs) = x := by
    simp [Cursor.textTo, Cursor.behind, Cursor.advance, hc]
  rw [htext]
  exact hk

theorem Takes.opt {gs : GroupsAt} (hp : p.Takes x rest gs) (hx : x ≠ []) :
    p.opt.Takes x rest gs := by
  intro k c e hc hk
  have hopt : p.opt.run k c =
      Fit.orTry (p.run (fun d => if d.pos == c.pos then none else k d) c) fun _ => k c := rfl
  have hlength := List.length_pos_iff.mpr hx
  have hmoved : ((c.behind x gs).pos == c.pos) = false := by
    simp [Cursor.behind, Cursor.advance, hx]
  rw [hopt, hp _ c e hc]
  · rfl
  · rw [hmoved]
    exact hk

theorem takes_opt_nil (hp : p.Refuses rest) : p.opt.Takes [] rest noGroups := by
  intro k c e hc hk
  have hopt : p.opt.run k c =
      Fit.orTry (p.run (fun d => if d.pos == c.pos then none else k d) c) fun _ => k c := rfl
  rw [Cursor.behind_noGroups, List.length_nil, Cursor.advance_zero] at hk
  rw [hopt, hp _ c hc]
  exact hk

/-- A pattern that takes a whole text fits all of it. -/
theorem Takes.fitsAll {gs : GroupsAt} (hp : p.Takes x [] gs) : p.fitsAll x = true := by
  have hstart : (Cursor.start x).after = x ++ [] := (List.append_nil x).symm
  have hend := Cursor.after_behind hstart gs
  rw [Pattern.fitsAll, matchAll?, Option.isSome_map,
    hp _ _ ((Cursor.start x).behind x gs) hstart (by simp [hend])]
  rfl

/-- A pattern that takes what a text starts with fits it. -/
theorem Takes.fits {gs : GroupsAt} (hp : p.Takes x rest gs) : p.fits (x ++ rest) = true := by
  have hstart : (Cursor.atOffset (x ++ rest) 0).after = x ++ rest := by simp [Cursor.atOffset]
  rw [Pattern.fits, Pattern.match?, matchAt?, Option.isSome_map, hp some _ _ hstart rfl]
  rfl

/-- A pattern that takes a whole text fits at its start, with the groups that it takes. -/
theorem Takes.match? {gs : GroupsAt} (hp : p.Takes x [] gs) :
    p.match? x = some ⟨x, 0, x.length, gs 0⟩ := by
  have hstart : (Cursor.atOffset x 0).after = x ++ [] := by simp [Cursor.atOffset]
  rw [Pattern.match?, matchAt?, hp some _ ((Cursor.atOffset x 0).behind x gs) hstart rfl]
  simp [Match.ofCursors, Cursor.behind, Cursor.advance, Cursor.atOffset]

/-- Further rounds of single characters go on as far as there are such characters. -/
theorem furtherRounds_one {spare : Text} {k : Cursor → Option Cursor} {c e : Cursor}
    (hx : ∀ a ∈ x, s a = true) (hrest : rest.head?.any s = false) (hspare : x.length ≤ spare.length)
    (hc : c.after = x ++ rest) (hk : k (c.advance x.length) = some e) :
    Fit.furtherRounds (Pattern.one s).run true spare k c = some e := by
  induction x generalizing c spare with
  | nil =>
    rw [List.length_nil, Cursor.advance_zero] at hk
    cases spare with
    | nil => exact hk
    | cons _ spare =>
      rw [Fit.furtherRounds, if_pos rfl, run_one, hc, List.nil_append, hrest]
      exact hk
  | cons a x ih =>
    rw [List.forall_mem_cons] at hx
    cases spare with
    | nil => simp at hspare
    | cons _ spare =>
      have hmoved : ((c.advance 1).pos == c.pos) = false := by simp [Cursor.advance]
      have hafter : (c.advance 1).after = x ++ rest := by simp [Cursor.advance, hc]
      rw [List.length_cons, Nat.add_comm, ← Cursor.advance_advance] at hk
      rw [List.length_cons, List.length_cons, Nat.add_le_add_iff_right] at hspare
      rw [Fit.furtherRounds, if_pos rfl, run_one, hc, List.cons_append, List.head?_cons,
        Option.any_some, hx.1, if_pos rfl, hmoved, if_neg Bool.false_ne_true,
        ih hx.2 hspare hafter hk]
      rfl

theorem takes_star (hx : ∀ a ∈ x, s a = true) (hrest : rest.head?.any s = false) :
    (star (.one s)).Takes x rest noGroups := by
  intro k c e hc hk
  exact furtherRounds_one hx hrest (by simp [hc]) hc hk

/-- Rounds of a pattern that takes the characters of a text one by one go on to its end. -/
theorem takes_star_of_takes (hx : ∀ u a v, x = u ++ a :: v → p.Takes [a] (v ++ rest) noGroups)
    (hrest : p.Refuses rest) : p.star.Takes x rest noGroups := by
  have hrounds {spare : Text} {k : Cursor → Option Cursor} {c e : Cursor}
      (hspare : x.length ≤ spare.length) (hc : c.after = x ++ rest)
      (hk : k (c.advance x.length) = some e) :
      Fit.furtherRounds p.run true spare k c = some e := by
    induction x generalizing c spare with
    | nil =>
      rw [List.length_nil, Cursor.advance_zero] at hk
      cases spare with
      | nil => exact hk
      | cons _ spare =>
        rw [Fit.furtherRounds, if_pos rfl, hrest _ c hc]
        exact hk
    | cons a x ih =>
      cases spare with
      | nil => simp at hspare
      | cons _ spare =>
        have hmoved : ((c.behind [a] noGroups).pos == c.pos) = false := by
          simp [Cursor.behind_noGroups, Cursor.advance]
        have hafter := Cursor.after_behind (x := [a]) hc noGroups
        rw [List.length_cons, Nat.add_comm, ← Cursor.advance_advance] at hk
        have hfurther := ih (fun u b v huv => hx (a :: u) b v (by rw [huv]; rfl))
          (c := c.behind [a] noGroups) (Nat.le_of_succ_le_succ hspare) hafter hk
        rw [Fit.furtherRounds, if_pos rfl, hx [] a x rfl _ c e hc]
        · rfl
        · rw [hmoved]
          exact hfurther
  intro k c e hc hk
  exact hrounds (by simp [hc]) hc hk

theorem takes_plus (hne : x ≠ []) (hx : ∀ a ∈ x, s a = true) (hrest : rest.head?.any s = false) :
    (plus (.one s)).Takes x rest noGroups := by
  intro k c e hc hk
  obtain ⟨a, x, rfl⟩ := List.exists_cons_of_ne_nil hne
  rw [List.forall_mem_cons] at hx
  have hplus : (plus (.one s)).run k c =
      (Pattern.one s).run (Fit.furtherRounds (Pattern.one s).run true c.after k) c := rfl
  have hafter : (c.advance 1).after = x ++ rest := by simp [Cursor.advance, hc]
  rw [Cursor.behind_noGroups, List.length_cons, Nat.add_comm, ← Cursor.advance_advance] at hk
  rw [hplus, run_one, hc, List.cons_append, List.head?_cons, Option.any_some, hx.1, if_pos rfl]
  exact furtherRounds_one hx.2 hrest (by simp; omega) hafter hk

theorem takes_textEnd : textEnd.Takes [] [] noGroups := by
  intro k c e hc hk
  have hend : textEnd.run k c = k c := if_pos (by rw [Cursor.onEnd, hc]; rfl)
  rw [hend]
  simpa [Cursor.behind_noGroups] using hk

theorem takes_notAhead_one {s : CharSet} {rest : Text} (h : rest.head?.any s = false) :
    (notAhead (.one s)).Takes [] rest noGroups := by
  intro k c e hc hk
  rw [run_notAhead_one, hc, List.nil_append, h]
  simpa [Cursor.behind_noGroups] using hk

/-- Further rounds that are made only when needed go on until what follows fits. -/
theorem furtherRounds_lazy_one {spare : Text} {k : Cursor → Option Cursor} {c e : Cursor}
    (hx : ∀ a ∈ x, s a = true) (hspare : x.length ≤ spare.length) (hc : c.after = x ++ rest)
    (hfail : ∀ u v, x = u ++ v → v ≠ [] → k (c.advance u.length) = none)
    (hk : k (c.advance x.length) = some e) :
    Fit.furtherRounds (Pattern.one s).run false spare k c = some e := by
  induction x generalizing c spare with
  | nil =>
    rw [List.length_nil, Cursor.advance_zero] at hk
    cases spare with
    | nil => exact hk
    | cons _ spare =>
      rw [Fit.furtherRounds, if_neg Bool.false_ne_true, hk]
      rfl
  | cons a x ih =>
    rw [List.forall_mem_cons] at hx
    cases spare with
    | nil => simp at hspare
    | cons _ spare =>
      have hmoved : ((c.advance 1).pos == c.pos) = false := by simp [Cursor.advance]
      have hafter : (c.advance 1).after = x ++ rest := by simp [Cursor.advance, hc]
      have hfirst := hfail [] (a :: x) rfl (List.cons_ne_nil a x)
      rw [List.length_nil, Cursor.advance_zero] at hfirst
      rw [List.length_cons, Nat.add_comm, ← Cursor.advance_advance] at hk
      rw [List.length_cons, List.length_cons, Nat.add_le_add_iff_right] at hspare
      have hrest : ∀ u v, x = u ++ v → v ≠ [] → k ((c.advance 1).advance u.length) = none := by
        intro u v hsplit hv
        have := hfail (a :: u) v (by rw [hsplit]; rfl) hv
        rwa [List.length_cons, Nat.add_comm, ← Cursor.advance_advance] at this
      rw [Fit.furtherRounds, if_neg Bool.false_ne_true, hfirst, run_one, hc, List.cons_append,
        List.head?_cons, Option.any_some, hx.1, if_pos rfl, hmoved, if_neg Bool.false_ne_true]
      exact ih hx.2 hspare hafter hrest hk

theorem run_plusLazy_one {k : Cursor → Option Cursor} {c e : Cursor} (hne : x ≠ [])
    (hx : ∀ a ∈ x, s a = true) (hc : c.after = x ++ rest)
    (hfail : ∀ u v, x = u ++ v → u ≠ [] → v ≠ [] → k (c.advance u.length) = none)
    (hk : k (c.advance x.length) = some e) : (plusLazy (one s)).run k c = some e := by
  obtain ⟨a, x, rfl⟩ := List.exists_cons_of_ne_nil hne
  rw [List.forall_mem_cons] at hx
  have hplus : (plusLazy (one s)).run k c =
      (Pattern.one s).run (Fit.furtherRounds (Pattern.one s).run false c.after k) c := rfl
  have hafter : (c.advance 1).after = x ++ rest := by simp [Cursor.advance, hc]
  have hrest : ∀ u v, x = u ++ v → v ≠ [] → k ((c.advance 1).advance u.length) = none := by
    intro u v hsplit hv
    have := hfail (a :: u) v (by rw [hsplit]; rfl) (List.cons_ne_nil a u) hv
    rwa [List.length_cons, Nat.add_comm, ← Cursor.advance_advance] at this
  rw [List.length_cons, Nat.add_comm, ← Cursor.advance_advance] at hk
  rw [hplus, run_one, hc, List.cons_append, List.head?_cons, Option.any_some, hx.1, if_pos rfl]
  exact furtherRounds_lazy_one hx.2 (by simp; omega) hafter hrest hk

/-- Rounds of single characters beyond the text ahead make no difference. -/
theorem furtherRounds_one_eq {greedy : Bool} {spare : Text} {k : Cursor → Option Cursor}
    {c : Cursor} (hspare : c.after.length ≤ spare.length) :
    Fit.furtherRounds (Pattern.one s).run greedy spare k c =
      (Pattern.rounds greedy 0 none (Pattern.one s)).run k c := by
  have hrounds (d : Cursor) : (Pattern.rounds greedy 0 none (Pattern.one s)).run k d =
      Fit.furtherRounds (Pattern.one s).run greedy d.after k d := rfl
  induction spare generalizing c with
  | nil =>
    rw [hrounds, List.length_eq_zero_iff.mp (Nat.le_zero.mp hspare)]
  | cons _ spare ih =>
    rw [hrounds]
    cases hafter : c.after with
    | nil =>
      have hnone (k : Cursor → Option Cursor) : (Pattern.one s).run k c = none := by
        rw [run_one, hafter]
        rfl
      cases greedy with
      | true => simp [Fit.furtherRounds, hnone, Fit.orTry]
      | false => cases hk : k c <;> simp [Fit.furtherRounds, hnone, Fit.orTry, hk]
    | cons a rest =>
      have hrest : (c.advance 1).after = rest := by simp [Cursor.advance, hafter]
      have hnext := ih (c := c.advance 1) (by
        rw [hafter] at hspare
        rw [hrest]
        exact Nat.le_of_succ_le_succ hspare)
      rw [hrounds, hrest] at hnext
      simp only [Fit.furtherRounds, run_one, hnext]

theorem run_plus_one (s : CharSet) (k : Cursor → Option Cursor) (c : Cursor) :
    (plus (one s)).run k c = (one s).run ((star (one s)).run k) c := by
  have hplus : (plus (one s)).run k c =
      (one s).run (Fit.furtherRounds (one s).run true c.after k) c := rfl
  rw [hplus, run_one, run_one, furtherRounds_one_eq (by simp [Cursor.advance])]
  rfl

theorem run_plusLazy_one_eq (s : CharSet) (k : Cursor → Option Cursor) (c : Cursor) :
    (plusLazy (one s)).run k c = (one s).run ((starLazy (one s)).run k) c := by
  have hplus : (plusLazy (one s)).run k c =
      (one s).run (Fit.furtherRounds (one s).run false c.after k) c := rfl
  rw [hplus, run_one, run_one, furtherRounds_one_eq (by simp [Cursor.advance])]
  rfl

/-- Where a character of the set comes next, one more round is tried first. -/
theorem run_star_one_cons {k : Cursor → Option Cursor} {c : Cursor} {a : Char}
    (hc : c.after = a :: rest) (ha : s a = true) :
    (star (one s)).run k c =
      Fit.orTry ((star (one s)).run k (c.advance 1)) fun _ => k c := by
  have hrest : (c.advance 1).after = rest := by simp [Cursor.advance, hc]
  have hmoved : ((c.advance 1).pos == c.pos) = false := by simp [Cursor.advance]
  have hstar (d : Cursor) : (star (one s)).run k d =
      Fit.furtherRounds (one s).run true d.after k d := rfl
  rw [hstar, hstar, hc, hrest, Fit.furtherRounds, if_pos rfl, run_one, hc, List.head?_cons,
    Option.any_some, if_pos ha, hmoved]
  rfl

theorem run_star_one_stop {k : Cursor → Option Cursor} {c : Cursor}
    (hc : c.after.head?.any s = false) : (star (one s)).run k c = k c := by
  have hstar : (star (one s)).run k c = Fit.furtherRounds (one s).run true c.after k c := rfl
  cases hafter : c.after with
  | nil =>
    rw [hstar, hafter]
    rfl
  | cons a rest =>
    rw [hstar, hafter, Fit.furtherRounds, if_pos rfl, run_one, hc]
    rfl

/-- Rounds that go on to the end of a text give its last character back to what follows them. -/
theorem takes_star_last {a : Char} (hx : ∀ b ∈ x, s b = true) (ha : s a = true) :
    ((one s).star ++ text [a]).Takes (x ++ [a]) [] noGroups := by
  intro k c e hc hk
  rw [run_seq]
  induction x generalizing c with
  | nil =>
    have hend : (c.advance 1).after = [] := by simp [Cursor.advance, hc]
    have hnone : (text [a]).run k (c.advance 1) = none := by rw [run_text, hend]; rfl
    rw [run_star_one_cons hc ha, run_star_one_stop (by rw [hend]; rfl), hnone]
    exact takes_text [a] [] k c e hc hk
  | cons b x ih =>
    rw [List.forall_mem_cons] at hx
    have hafter : (c.advance 1).after = x ++ [a] ++ [] := by simp [Cursor.advance, hc]
    rw [Cursor.behind_noGroups, List.cons_append, List.length_cons, Nat.add_comm,
      ← Cursor.advance_advance] at hk
    rw [run_star_one_cons hc hx.1, ih hx.2 (c := c.advance 1) hafter hk]
    rfl

/-- Where a character of the set comes next, one more round is tried last. -/
theorem run_starLazy_one_cons {k : Cursor → Option Cursor} {c : Cursor} {a : Char}
    (hc : c.after = a :: rest) (ha : s a = true) :
    (starLazy (one s)).run k c =
      Fit.orTry (k c) fun _ => (starLazy (one s)).run k (c.advance 1) := by
  have hrest : (c.advance 1).after = rest := by simp [Cursor.advance, hc]
  have hmoved : ((c.advance 1).pos == c.pos) = false := by simp [Cursor.advance]
  have hstar (d : Cursor) : (starLazy (one s)).run k d =
      Fit.furtherRounds (one s).run false d.after k d := rfl
  rw [hstar, hstar, hc, hrest, Fit.furtherRounds, if_neg Bool.false_ne_true, run_one, hc,
    List.head?_cons, Option.any_some, if_pos ha, hmoved]
  rfl

/-- A lazy repetition is over at once where the rest succeeds. -/
theorem run_starLazy_of_some {k : Cursor → Option Cursor} {c e : Cursor} (hk : k c = some e) :
    (starLazy (one s)).run k c = some e := by
  have hstar : (starLazy (one s)).run k c =
      Fit.furtherRounds (one s).run false c.after k c := rfl
  rw [hstar]
  cases c.after with
  | nil => exact hk
  | cons a rest => rw [Fit.furtherRounds, if_neg Bool.false_ne_true, hk, Fit.orTry]

/-- Rounds that are made only when needed may go on as long as there are such characters. -/
theorem isSome_run_starLazy_one {k : Cursor → Option Cursor} {c : Cursor}
    (hx : ∀ a ∈ x, s a = true) (hc : c.after = x ++ rest)
    (hk : (k (c.advance x.length)).isSome = true) :
    ((one s).starLazy.run k c).isSome = true := by
  induction x generalizing c with
  | nil =>
    obtain ⟨e, he⟩ := Option.isSome_iff_exists.mp hk
    rw [List.length_nil, Cursor.advance_zero] at he
    rw [run_starLazy_of_some he]
    rfl
  | cons a x ih =>
    rw [List.forall_mem_cons] at hx
    rw [List.length_cons, Nat.add_comm, ← Cursor.advance_advance] at hk
    rw [run_starLazy_one_cons hc hx.1]
    cases k c with
    | some e => rfl
    | none => exact ih hx.2 (by simp [Cursor.advance, hc]) hk

theorem refuses_one (h : t.head?.any s = false) : (Pattern.one s).Refuses t := by
  intro k c hc
  rw [run_one, hc, h]
  rfl

theorem refuses_text {a : Char} (h : t.head? ≠ some a) (w : Text) : (text (a :: w)).Refuses t := by
  intro k c hc
  rw [run_text, hc, if_neg]
  intro hp
  obtain ⟨r, rfl⟩ := List.isPrefixOf_iff_prefix.mp hp
  exact h rfl

theorem refuses_text_of_ne {a b : Char} (h : a ≠ b) (w x : Text) :
    (text (b :: w)).Refuses (a :: x) :=
  refuses_text (t := a :: x) (fun hhead => h (Option.some.inj hhead)) w

theorem Refuses.append (hp : p.Refuses t) (q : Pattern) : (p ++ q).Refuses t :=
  fun _ c hc => hp _ c hc

theorem Refuses.orElse (hp : p.Refuses t) (hq : q.Refuses t) : (p <|> q).Refuses t := by
  intro k c hc
  rw [run_orElse, hp k c hc]
  exact hq k c hc

theorem Refuses.match?_eq_none (hp : p.Refuses t) : p.match? t = none := by
  rw [match?, matchAt?, hp _ _ rfl]
  rfl

/-- A pattern does not fit where a text comes next that starts with nothing that it spells. -/
theorem refuses_of_not_begins (h : ¬ p.Begins t) : p.Refuses t := by
  intro k c hc
  rw [Option.eq_none_iff_forall_ne_some]
  intro e he
  obtain ⟨x, gs, d, hx, hpass, -⟩ := covers_run p k c e he
  exact h ⟨x, gs, ⟨d.after, by rw [← hc, hpass.after]⟩, hx⟩

theorem refuses_of_mayStart {a : Char} (hp : p.advances = true) (h : p.mayStart a = false) :
    p.Refuses (a :: t) := by
  refine refuses_of_not_begins ?_
  rintro ⟨x, gs, hpre, hx⟩
  obtain ⟨b, x, rfl⟩ := List.exists_cons_of_ne_nil (hx.ne_nil hp)
  obtain ⟨rfl, -⟩ := List.cons_prefix_cons.mp hpre
  exact Bool.false_ne_true (h.symm.trans hx.mayStart)

theorem refuses_choice {ss : List String} (hss : ss ≠ []) (h : ∀ s ∈ ss, ¬ s.toList <+: t) :
    (choice ss).Refuses t := by
  refine refuses_of_not_begins ?_
  rintro ⟨x, gs, hpre, hx⟩
  obtain ⟨⟨s, hs, rfl⟩, -⟩ := (spells_choice_iff hss).mp hx
  exact h s hs hpre

/-- Rounds of a pattern that does not fit are left out. -/
theorem Refuses.run_star (hp : p.Refuses t) (k : Cursor → Option Cursor) {c : Cursor}
    (hc : c.after = t) : p.star.run k c = k c := by
  have hstar : p.star.run k c = Fit.furtherRounds p.run true c.after k c := rfl
  rw [hstar]
  cases c.after with
  | nil => rfl
  | cons _ spare =>
    rw [Fit.furtherRounds, if_pos rfl, hp _ c hc]
    rfl

theorem Refuses.star_append (hp : p.Refuses t) (hq : q.Refuses t) : (p.star ++ q).Refuses t := by
  intro k c hc
  rw [run_seq, hp.run_star _ hc]
  exact hq k c hc

theorem Refuses.cap_star_append (hp : p.Refuses t) (hq : q.Refuses t) (i : Nat) :
    (p.star.cap i ++ q).Refuses t := by
  intro k c hc
  exact (hp.run_star _ hc).trans (hq k _ hc)

end Pattern

end HostScript
