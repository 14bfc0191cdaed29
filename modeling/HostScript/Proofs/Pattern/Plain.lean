import HostScript.Pattern.Match
import Mathlib.Data.List.Infix

/-!
# Patterns that fit in one way

Of many patterns the preferred fit is plain: at each place they either fit over one length, which
the character before the place and the text after it decide, or they do not fit. For these,
searching finds the first place where they fit, and replacing is one walk over the text.
-/

namespace HostScript

/-- The place `n` characters on. -/
def Cursor.advance (c : Cursor) (n : Nat) : Cursor :=
  ⟨(c.after.take n).reverse ++ c.before, c.after.drop n, c.pos + n, c.groups⟩

@[simp] theorem Cursor.advance_zero (c : Cursor) : c.advance 0 = c := by
  simp [Cursor.advance]

/-- Moving on twice is moving on once by the sum. -/
theorem Cursor.advance_advance (c : Cursor) (m n : Nat) :
    (c.advance m).advance n = c.advance (m + n) := by
  simp only [Cursor.advance, List.drop_drop, List.take_add, List.reverse_append,
    List.append_assoc, Nat.add_assoc]

namespace Pattern

/-- Patterns in sequence run one on the places where the other ends. -/
theorem run_seq (p q : Pattern) (k : Cursor → Option Cursor) (c : Cursor) :
    (p ++ q).run k c = p.run (q.run k) c := rfl

/-- Of two alternatives the second is tried where the first has no answer. -/
theorem run_orElse (p q : Pattern) (k : Cursor → Option Cursor) (c : Cursor) :
    (p <|> q).run k c = Fit.orTry (p.run k c) fun _ => q.run k c := rfl

/-- One character is passed over if it belongs to the set. -/
theorem run_one (s : CharSet) (k : Cursor → Option Cursor) (c : Cursor) :
    (Pattern.one s).run k c = if c.after.head?.any s then k (c.advance 1) else none := by
  obtain ⟨before, after, pos, groups⟩ := c
  cases after with
  | nil => rfl
  | cons x after =>
    cases hx : s x <;> simp [run, Cursor.accept, Cursor.advance, hx]

/-- A text is passed over if it comes next. -/
theorem run_text (t : Text) (k : Cursor → Option Cursor) (c : Cursor) :
    (Pattern.text t).run k c = if t.isPrefixOf c.after then k (c.advance t.length) else none := by
  induction t generalizing c with
  | nil => simp [text, run]
  | cons x t ih =>
    have hcons : (text (x :: t)).run k c = (Pattern.one (· == x)).run ((text t).run k) c := by
      cases t with
      | nil => rfl
      | cons y t => rfl
    rw [hcons, run_one]
    obtain ⟨before, after, pos, groups⟩ := c
    cases after with
    | nil => rfl
    | cons y after =>
      have hxy : (x == y) = (y == x) := BEq.comm
      simp only [List.head?_cons, Option.any_some, List.isPrefixOf_cons_cons, hxy, ih,
        Cursor.advance_advance, List.length_cons, Nat.add_comm 1]
      cases y == x with
      | false => rfl
      | true => rfl

/-- A forbidden character right before a place stops a pattern there. -/
theorem run_notAfter (s : CharSet) (k : Cursor → Option Cursor) (c : Cursor) :
    (notAfter s).run k c = if c.before.head?.any s then none else k c := by
  obtain ⟨before, after, pos, groups⟩ := c
  cases before with
  | nil => rfl
  | cons x before =>
    cases hx : s x <;> simp [notAfter, run, Cursor.back, Cursor.accept, hx]

/-- A forbidden character right after a place stops a pattern there. -/
theorem run_notAhead_one (s : CharSet) (k : Cursor → Option Cursor) (c : Cursor) :
    (notAhead (.one s)).run k c = if c.after.head?.any s then none else k c := by
  have hone := run_one s some c
  rw [notAhead, run]
  beta_reduce
  rw [hone]
  cases c.after.head?.any s <;> rfl

/-- Characters of a set are passed over as long as there are any, where no shorter stretch of them
will do. -/
theorem run_star_one {s : CharSet} {k : Cursor → Option Cursor} {c : Cursor}
    (h : ∀ j < (c.after.takeWhile s).length, k (c.advance j) = none) :
    (star (.one s)).run k c = k (c.advance (c.after.takeWhile s).length) := by
  suffices hrounds : ∀ (spare : Text) (c : Cursor), c.after.length ≤ spare.length →
      (∀ j < (c.after.takeWhile s).length, k (c.advance j) = none) →
      Fit.furtherRounds (Pattern.one s).run true spare k c =
        k (c.advance (c.after.takeWhile s).length) from
    hrounds c.after c le_rfl h
  intro spare
  induction spare with
  | nil =>
    intro c hspare _
    have hnil : c.after = [] := List.length_eq_zero_iff.mp (Nat.le_zero.mp hspare)
    simp [Fit.furtherRounds, hnil]
  | cons _ spare ih =>
    intro c hspare hnone
    rw [Fit.furtherRounds, if_pos rfl, run_one]
    cases hafter : c.after with
    | nil => simp [Fit.orTry]
    | cons x after =>
      rw [hafter] at hspare hnone
      cases hx : s x with
      | false => simp [Fit.orTry, hx]
      | true =>
        have hlength : ((x :: after).takeWhile s).length = 1 + (after.takeWhile s).length := by
          rw [List.takeWhile_cons_of_pos hx, List.length_cons, Nat.add_comm]
        rw [hlength] at hnone ⊢
        have hrest : (c.advance 1).after = after := by
          simp [Cursor.advance, hafter]
        have hnext := ih (c.advance 1) (by rw [hrest]; exact Nat.le_of_succ_le_succ hspare) (by
          intro j hj
          rw [hrest] at hj
          rw [Cursor.advance_advance]
          exact hnone (1 + j) (Nat.add_lt_add_left hj 1))
        rw [hrest, Cursor.advance_advance] at hnext
        have hmoved : ((c.advance 1).pos == c.pos) = false := by
          simp [Cursor.advance]
        have hstay : k c = none := by
          simpa using hnone 0 (by omega)
        simp only [List.head?_cons, Option.any_some, hx, if_true, hmoved, Bool.false_eq_true,
          if_false, hnext, hstay]
        cases k (c.advance (1 + (after.takeWhile s).length)) <;> rfl

/-- One character of a set is passed over if there is one. -/
theorem run_opt_one (s : CharSet) (c : Cursor) :
    (opt (.one s)).run some c =
      some (c.advance (if c.after.head?.any s then 1 else 0)) := by
  have hopt : (opt (.one s)).run some c =
      Fit.orTry ((Pattern.one s).run (fun d => if d.pos == c.pos then none else some d) c)
        fun _ => some c := rfl
  rw [hopt, run_one]
  cases c.after.head?.any s with
  | false => simp [Fit.orTry]
  | true => simp [Fit.orTry, Cursor.advance]

/-- A search finds something exactly when the pattern fits at some place ahead. -/
theorem isSome_searchFrom_iff (p : Pattern) (before : Text) (pos : Nat) (after : Text) :
    (p.searchFrom before pos false after).isSome = true ↔
      ∃ x y, after = x ++ y ∧
        (p.run some ⟨x.reverse ++ before, y, pos + x.length, []⟩).isSome = true := by
  induction after generalizing before pos with
  | nil =>
    simp only [searchFrom, Bool.false_and, Bool.false_eq_true, if_false, Option.isSome_map]
    constructor
    · intro h
      exact ⟨[], [], rfl, h⟩
    · rintro ⟨x, y, hxy, h⟩
      obtain ⟨rfl, rfl⟩ := List.append_eq_nil_iff.mp hxy.symm
      exact h
  | cons a after ih =>
    simp only [searchFrom, Bool.false_and, Bool.false_eq_true, if_false]
    cases hrun : p.run some ⟨before, a :: after, pos, []⟩ with
    | some d => exact iff_of_true rfl ⟨[], a :: after, rfl, by simp [hrun]⟩
    | none =>
      dsimp only
      rw [ih]
      constructor
      · rintro ⟨x, y, rfl, h⟩
        exact ⟨a :: x, y, rfl, by simpa [Nat.add_assoc, Nat.add_comm 1] using h⟩
      · rintro ⟨x, y, hxy, h⟩
        cases x with
        | nil =>
          obtain rfl : a :: after = y := hxy
          simp [hrun] at h
        | cons b x =>
          obtain ⟨rfl, rfl⟩ := List.cons.inj hxy
          exact ⟨x, y, rfl, by simpa [Nat.add_assoc, Nat.add_comm 1] using h⟩

/-- A pattern occurs in a text exactly when it fits at some place of it. -/
theorem occursIn_iff_run (p : Pattern) (t : Text) :
    p.occursIn t = true ↔
      ∃ x y, t = x ++ y ∧ (p.run some ⟨x.reverse, y, x.length, []⟩).isSome = true := by
  have hsearch : p.occursIn t = (p.searchFrom [] 0 false t).isSome := by
    simp [occursIn, search?, searchAt?, Cursor.atOffset]
  rw [hsearch, isSome_searchFrom_iff]
  simp only [List.append_nil, Nat.zero_add]

/-- A text occurs in another exactly when it is a part of it. -/
theorem occursIn_text_iff {w t : Text} : (text w).occursIn t = true ↔ w <:+: t := by
  rw [occursIn_iff_run]
  constructor
  · rintro ⟨x, y, rfl, hrun⟩
    rw [run_text] at hrun
    split at hrun
    · rename_i hprefix
      obtain ⟨z, rfl⟩ := List.isPrefixOf_iff_prefix.mp hprefix
      exact ⟨x, z, by rw [List.append_assoc]⟩
    · cases hrun
  · rintro ⟨x, z, rfl⟩
    refine ⟨x, w ++ z, by rw [List.append_assoc], ?_⟩
    rw [run_text, if_pos (List.isPrefixOf_iff_prefix.mpr (List.prefix_append w z))]
    rfl

/-- A pattern that does not fit the start of a text has no match there. -/
theorem match?_eq_none {p : Pattern} {t : Text} (h : p.fits t = false) : p.match? t = none := by
  simpa [fits] using h

/-- A pattern that does not fit a whole text has no match of all of it. -/
theorem matchAll?_eq_none {p : Pattern} {t : Text} (h : p.fitsAll t = false) :
    p.matchAll? t = none := by
  simpa [fitsAll] using h

end Pattern

/-- How far a pattern fits after a character, or at the start, and before a text. -/
abbrev PlainFit := (prev : Option Char) → (after : Text) → Option Nat

namespace Pattern

/-- A pattern that prefers a length which the place alone decides, and never fits over nothing. -/
structure IsPlain (p : Pattern) (fit : PlainFit) : Prop where
  /-- Running the pattern gives the place where it prefers to end. -/
  run_eq : ∀ c : Cursor, p.run some c = (fit c.before.head? c.after).map c.advance
  /-- The pattern covers something. -/
  pos : ∀ {prev : Option Char} {after : Text} {n : Nat}, fit prev after = some n → 0 < n
  /-- The pattern covers no more than there is. -/
  le : ∀ {prev : Option Char} {after : Text} {n : Nat}, fit prev after = some n → n ≤ after.length

variable {p : Pattern} {fit : PlainFit}

/-- Nothing is left to fit at the end of a text. -/
theorem IsPlain.fit_nil (h : p.IsPlain fit) (prev : Option Char) : fit prev [] = none := by
  cases hf : fit prev [] with
  | none => rfl
  | some n =>
    have hpos := h.pos hf
    have hle := h.le hf
    simp only [List.length_nil] at hle
    omega

/-- Searching ends at the end of the text. -/
theorem IsPlain.searchFrom_nil (h : p.IsPlain fit) (before : Text) (pos : Nat) :
    p.searchFrom before pos false [] = none := by
  have hrun := h.run_eq ⟨before, [], pos, []⟩
  rw [h.fit_nil] at hrun
  simp [searchFrom, hrun]

/-- Searching moves on where the pattern does not fit and stops where it does. -/
theorem IsPlain.searchFrom_cons (h : p.IsPlain fit) (before : Text) (pos : Nat) (x : Char)
    (rest : Text) : p.searchFrom before pos false (x :: rest) =
      match fit before.head? (x :: rest) with
      | some n => some (⟨before, x :: rest, pos, []⟩, Cursor.advance ⟨before, x :: rest, pos, []⟩ n)
      | none => p.searchFrom (x :: before) (pos + 1) false rest := by
  have hrun := h.run_eq ⟨before, x :: rest, pos, []⟩
  simp only [searchFrom, Bool.false_and, Bool.false_eq_true, if_false, hrun]
  cases fit before.head? (x :: rest) <;> rfl

/-- A plain pattern occurs in a text exactly when it fits somewhere in it. -/
theorem IsPlain.occursIn_iff (h : p.IsPlain fit) (t : Text) :
    p.occursIn t = true ↔ ∃ x y n, t = x ++ y ∧ fit x.getLast? y = some n := by
  rw [occursIn_iff_run]
  simp only [h.run_eq, List.head?_reverse, Option.isSome_map]
  constructor
  · rintro ⟨x, y, rfl, hfit⟩
    obtain ⟨n, hn⟩ := Option.isSome_iff_exists.mp hfit
    exact ⟨x, y, n, rfl, hn⟩
  · rintro ⟨x, y, n, rfl, hn⟩
    exact ⟨x, y, rfl, by simp [hn]⟩

/-- One walk over a text that puts `new` in the place of each fit; the first `skip` characters
belong to a fit already replaced. -/
def swapFits (fit : PlainFit) (new : Text) : (prev : Option Char) → (skip : Nat) → Text → Text
  | _, _, [] => []
  | _, skip + 1, c :: rest => swapFits fit new (some c) skip rest
  | prev, 0, c :: rest =>
    match fit prev (c :: rest) with
    | some n => new ++ swapFits fit new (some c) (n - 1) rest
    | none => c :: swapFits fit new (some c) 0 rest

/-- Characters of a fit already replaced are passed over. -/
theorem swapFits_skip (fit : PlainFit) (new : Text) (prev : Option Char) (x y : Text) :
    swapFits fit new prev x.length (x ++ y) = swapFits fit new (x.getLast?.or prev) 0 y := by
  induction x generalizing prev with
  | nil => rfl
  | cons c x ih =>
    rw [List.length_cons, List.cons_append, swapFits, ih, List.getLast?_cons]
    cases x.getLast? <;> rfl

/-- A stretch in which the pattern does not fit is copied. -/
theorem swapFits_copy {fit : PlainFit} {new : Text} {prev : Option Char} {x y : Text}
    (h : ∀ x₁ c x₂, x = x₁ ++ c :: x₂ → fit (x₁.getLast?.or prev) (c :: x₂ ++ y) = none) :
    swapFits fit new prev 0 (x ++ y) = x ++ swapFits fit new (x.getLast?.or prev) 0 y := by
  induction x generalizing prev with
  | nil => rfl
  | cons c x ih =>
    have hc : fit prev (c :: (x ++ y)) = none := h [] c x rfl
    have hx : ∀ x₁ d x₂, x = x₁ ++ d :: x₂ →
        fit (x₁.getLast?.or (some c)) (d :: x₂ ++ y) = none := by
      rintro x₁ d x₂ rfl
      have := h (c :: x₁) d x₂ rfl
      rw [List.getLast?_cons] at this
      cases hl : x₁.getLast? <;> simpa [hl] using this
    rw [List.cons_append, swapFits, hc]
    dsimp only
    rw [ih hx, List.getLast?_cons]
    cases x.getLast? <;> rfl

private theorem slice_succ {x y : Text} {a : Char} {start : Nat} (h : start ≤ x.length) :
    Text.slice (x ++ a :: y) start (x.length + 1) =
      Text.slice (x ++ a :: y) start x.length ++ [a] := by
  have htake : (x ++ a :: y).take (x.length + 1) = x ++ [a] := by
    rw [List.take_length_add_append]
    rfl
  rw [Text.slice, Text.slice, List.take_left, htake, List.drop_append_of_le_length h]

/-- Where the pattern fits, the walk writes the new text and goes on behind the fit. -/
theorem IsPlain.swapFits_of_fit (h : p.IsPlain fit) (new : Text) {prev : Option Char} {a : Char}
    {after : Text} {n : Nat} (hf : fit prev (a :: after) = some n) :
    swapFits fit new prev 0 (a :: after) =
      new ++ swapFits fit new (((a :: after).take n).getLast?.or prev) 0
        ((a :: after).drop n) := by
  have hpos := h.pos hf
  have hle := h.le hf
  obtain ⟨m, rfl⟩ : ∃ m, n = m + 1 := ⟨n - 1, by omega⟩
  rw [List.length_cons] at hle
  have hm : (after.take m).length = m := by
    rw [List.length_take]
    omega
  have hskip := swapFits_skip fit new (some a) (after.take m) (after.drop m)
  rw [hm, List.take_append_drop] at hskip
  have hlast : ((a :: after).take (m + 1)).getLast?.or prev =
      (after.take m).getLast?.or (some a) := by
    rw [List.take_succ_cons, List.getLast?_cons]
    cases (after.take m).getLast? <;> rfl
  rw [swapFits, hf]
  dsimp only
  rw [Nat.add_sub_cancel, hskip, hlast, List.drop_succ_cons]

/-- Splicing `new` in for the fits from a place on copies what was passed before and walks over the
rest. -/
theorem IsPlain.splice_matchesFrom (h : p.IsPlain fit) (new t : Text) (len : Nat) :
    ∀ (before after : Text) (start fuel : Nat), after.length ≤ len → t = before.reverse ++ after →
      start ≤ before.length → after.length < fuel →
      splice t (fun _ => new) start
          (p.matchesFrom t fuel false ⟨before, after, before.length, []⟩) =
        t.slice start before.length ++ swapFits fit new before.head? 0 after := by
  induction len with
  | zero =>
    rintro before after start (_ | fuel) hlen rfl hstart hfuel
    · omega
    obtain rfl : after = [] := List.length_eq_zero_iff.mp (by omega)
    simp only [matchesFrom, h.searchFrom_nil, splice, swapFits, Text.slice, List.append_nil]
    rw [← List.length_reverse, List.take_length]
  | succ len ih =>
    rintro before after start (_ | fuel) hlen ht hstart hfuel
    · omega
    cases after with
    | nil => exact ih before [] start (fuel + 1) (Nat.zero_le _) ht hstart hfuel
    | cons a after =>
      rw [List.length_cons] at hlen hfuel
      have hsplit : before.reverse ++ a :: after = (a :: before).reverse ++ after := by simp
      cases hf : fit before.head? (a :: after) with
      | none =>
        -- The place is passed: the search from the next place is the same search.
        have hmove : p.matchesFrom t (fuel + 1) false ⟨before, a :: after, before.length, []⟩ =
            p.matchesFrom t (fuel + 1) false ⟨a :: before, after, (a :: before).length, []⟩ := by
          simp only [matchesFrom, h.searchFrom_cons, hf, List.length_cons]
        rw [hmove, ih (a :: before) after start (fuel + 1) (by omega) (ht.trans hsplit)
          (by rw [List.length_cons]; omega) (by omega), swapFits, hf]
        rw [ht, List.length_cons, ← List.length_reverse, slice_succ (by simpa using hstart)]
        simp
      | some n =>
        have hpos := h.pos hf
        have hle := h.le hf
        set before' := ((a :: after).take n).reverse ++ before with hbefore
        have hlength : before'.length = before.length + n := by
          rw [hbefore, List.length_append, List.length_reverse, List.length_take]
          omega
        have hfirst : p.matchesFrom t (fuel + 1) false ⟨before, a :: after, before.length, []⟩ =
            ⟨t, before.length, before'.length, []⟩ ::
              p.matchesFrom t fuel false ⟨before', (a :: after).drop n, before'.length, []⟩ := by
          have hmoved : (before.length + n == before.length) = false := by
            simp only [beq_eq_false_iff_ne]
            omega
          simp only [matchesFrom, h.searchFrom_cons, hf, Cursor.advance, Match.ofCursors, hmoved,
            hlength, ← hbefore]
        have hhead : before'.head? = ((a :: after).take n).getLast?.or before.head? := by
          rw [hbefore, List.head?_append, List.head?_reverse]
        have hrest := ih before' ((a :: after).drop n) before'.length fuel
          (by rw [List.length_drop, List.length_cons]; omega)
          (by rw [ht, hbefore, List.reverse_append, List.reverse_reverse, List.append_assoc,
            List.take_append_drop])
          le_rfl (by rw [List.length_drop, List.length_cons]; omega)
        rw [hfirst, splice, hrest, hhead, h.swapFits_of_fit new hf]
        simp [Text.slice]

/-- Replacing the fits of a plain pattern is one walk over the text. -/
theorem IsPlain.replace_eq (h : p.IsPlain fit) (new t : Text) :
    p.replace (fun _ => new) t = swapFits fit new none 0 t := by
  have := h.splice_matchesFrom new t t.length [] t 0 (2 * t.length + 2) le_rfl rfl le_rfl (by omega)
  rw [replace, allIn]
  exact this

end Pattern

end HostScript

/-!
## Where fits lie

Running a pattern only moves on: whatever it hands to its continuation is a place ahead in the same
text. The fits that a search lists therefore lie one behind the other, and each starts at a place
where the pattern runs.
-/

namespace HostScript

/-- A place ahead in the same text; the groups may be filled differently. -/
def Cursor.Onward (c d : Cursor) : Prop :=
  ∃ n ≤ c.after.length, ∃ gs, d = { c.advance n with groups := gs }

/-- Every place is ahead of itself, however its groups are filled. -/
theorem Cursor.onward_self (c : Cursor) (gs : List (Nat × Capture)) :
    c.Onward { c with groups := gs } :=
  ⟨0, Nat.zero_le _, gs, by rw [advance_zero]⟩

/-- What is ahead of a place ahead is ahead. -/
theorem Cursor.Onward.trans {c d e : Cursor} (hcd : c.Onward d) (hde : d.Onward e) :
    c.Onward e := by
  obtain ⟨m, hm, gs, rfl⟩ := hcd
  obtain ⟨n, hn, gs', rfl⟩ := hde
  refine ⟨m + n, ?_, gs', ?_⟩
  · simp only [advance, List.length_drop] at hn
    omega
  · have hadvance := c.advance_advance m n
    simp only [advance] at hadvance ⊢
    simp only [Cursor.mk.injEq] at hadvance
    rw [hadvance.1, hadvance.2.1, hadvance.2.2.1]

/-- A way to fit that hands on places ahead only. -/
def Fit.MovesOn (f : Fit) : Prop :=
  ∀ (k : Cursor → Option Cursor) (c e : Cursor), f k c = some e → ∃ d, c.Onward d ∧ k d = some e

namespace Fit

/-- Of two answers the first is given. -/
theorem of_orTry_eq_some {a : Option Cursor} {b : Unit → Option Cursor} {e : Cursor}
    (h : orTry a b = some e) : a = some e ∨ b () = some e := by
  cases a with
  | some c => exact Or.inl h
  | none => exact Or.inr h

/-- Staying in place is moving on. -/
theorem exists_onward_self {k : Cursor → Option Cursor} {c e : Cursor} (h : k c = some e) :
    ∃ d, c.Onward d ∧ k d = some e :=
  ⟨c, c.onward_self c.groups, h⟩

/-- Optional rounds move on. -/
theorem movesOn_furtherRounds {body : Fit} (hbody : body.MovesOn) (greedy : Bool) (spare : Text) :
    MovesOn (furtherRounds body greedy spare) := by
  induction spare with
  | nil => exact fun k c e h => exists_onward_self h
  | cons x spare ih =>
    intro k c e h
    have hfurther (h : body (fun d => if d.pos == c.pos then none
        else furtherRounds body greedy spare k d) c = some e) : ∃ d, c.Onward d ∧ k d = some e := by
      obtain ⟨d, hcd, hd⟩ := hbody _ c e h
      obtain ⟨-, hd⟩ := Option.ite_none_left_eq_some.mp hd
      obtain ⟨d', hdd', hd'⟩ := ih k d e hd
      exact ⟨d', hcd.trans hdd', hd'⟩
    rw [furtherRounds] at h
    split at h
    · rcases of_orTry_eq_some h with h | h
      · exact hfurther h
      · exact exists_onward_self h
    · rcases of_orTry_eq_some h with h | h
      · exact exists_onward_self h
      · exact hfurther h

/-- Repeated rounds move on. -/
theorem movesOn_rounds {body : Fit} (hbody : body.MovesOn) (greedy : Bool) (spare : Text)
    (least : Nat) : MovesOn (rounds body greedy spare least) := by
  induction least with
  | zero => exact movesOn_furtherRounds hbody greedy spare
  | succ least ih =>
    intro k c e h
    obtain ⟨d, hcd, hd⟩ := hbody _ c e h
    obtain ⟨d', hdd', hd'⟩ := ih k d e hd
    exact ⟨d', hcd.trans hdd', hd'⟩

end Fit

/-- Passing over a text moves on. -/
theorem Cursor.onward_of_acceptText {t : Text} {c d : Cursor} (h : c.acceptText t = some d) :
    c.Onward d := by
  induction t generalizing c with
  | nil =>
    obtain rfl := Option.some.inj h
    exact c.onward_self c.groups
  | cons x t ih =>
    rw [acceptText] at h
    obtain ⟨b, hb, hd⟩ := Option.bind_eq_some_iff.mp h
    refine Onward.trans ?_ (ih hd)
    obtain ⟨before, after, pos, groups⟩ := c
    cases after with
    | nil => cases hb
    | cons y after =>
      simp only [accept, Option.ite_none_right_eq_some, Option.some.injEq] at hb
      obtain ⟨-, rfl⟩ := hb
      exact ⟨1, Nat.le_add_left 1 _, groups, rfl⟩

/-- A slice of a text and what follows it. -/
theorem Text.slice_append_drop {t : Text} {i j : Nat} (hij : i ≤ j) (hj : j ≤ t.length) :
    t.slice i j ++ t.drop j = t.drop i := by
  have hi : i ≤ (t.take j).length := by
    rw [List.length_take]
    omega
  rw [Text.slice, ← List.drop_append_of_le_length hi, List.take_append_drop]

namespace Pattern

/-- Running a pattern moves on. -/
theorem movesOn_run (p : Pattern) : Fit.MovesOn p.run := by
  induction p with
  | empty => exact fun k c e h => Fit.exists_onward_self h
  | one s =>
    intro k c e h
    rw [run_one] at h
    split at h
    · rename_i hs
      refine ⟨c.advance 1, ⟨1, ?_, c.groups, rfl⟩, h⟩
      cases hafter : c.after with
      | nil => simp [hafter] at hs
      | cons x after => simp
    · cases h
  | seq p q hp hq =>
    intro k c e h
    obtain ⟨d, hcd, hd⟩ := hp _ c e h
    obtain ⟨d', hdd', hd'⟩ := hq k d e hd
    exact ⟨d', hcd.trans hdd', hd'⟩
  | either p q hp hq =>
    intro k c e h
    rw [run] at h
    rcases Fit.of_orTry_eq_some h with h | h
    · exact hp k c e h
    · exact hq k c e h
  | rounds greedy least most body hbody =>
    intro k c e h
    exact Fit.movesOn_rounds hbody greedy _ least k c e h
  | group i body hbody =>
    intro k c e h
    obtain ⟨d, hcd, hd⟩ := hbody _ c e h
    exact ⟨_, hcd.trans (d.onward_self _), hd⟩
  | ahead wanted body _ =>
    intro k c e h
    rw [run] at h
    beta_reduce at h
    split at h
    · rename_i d _
      split at h
      · exact ⟨_, c.onward_self d.groups, h⟩
      · cases h
    · split at h
      · cases h
      · exact Fit.exists_onward_self h
  | behind wanted width body _ =>
    intro k c e h
    exact Fit.exists_onward_self (Option.ite_none_right_eq_some.mp h).2
  | edge => exact fun k c e h => Fit.exists_onward_self (Option.ite_none_right_eq_some.mp h).2
  | textStart => exact fun k c e h => Fit.exists_onward_self (Option.ite_none_right_eq_some.mp h).2
  | lineStart => exact fun k c e h => Fit.exists_onward_self (Option.ite_none_right_eq_some.mp h).2
  | textEnd => exact fun k c e h => Fit.exists_onward_self (Option.ite_none_right_eq_some.mp h).2
  | same i =>
    intro k c e h
    rw [run] at h
    beta_reduce at h
    split at h
    · obtain ⟨d, hd, he⟩ := Option.bind_eq_some_iff.mp h
      exact ⟨d, Cursor.onward_of_acceptText hd, he⟩
    · cases h

/-- A place of a text. -/
def placeAt (t : Text) (i : Nat) : Cursor := ⟨(t.take i).reverse, t.drop i, i, []⟩

/-- Fits of a pattern in a text, one behind the other, from an offset on. -/
inductive FitsFrom (p : Pattern) (t : Text) : Nat → List Match → Prop where
  | nil {pos : Nat} : FitsFrom p t pos []
  | cons {pos : Nat} {m : Match} {ms : List Match} (subject : m.subject = t)
    (start : pos ≤ m.start) (stop : m.start ≤ m.stop) (length : m.stop ≤ t.length)
    (runs : ∃ k e, p.run k (placeAt t m.start) = some e) (rest : FitsFrom p t m.stop ms) :
    FitsFrom p t pos (m :: ms)

/-- What a search finds is a place ahead where the pattern runs, and the place where that ends. -/
theorem of_searchFrom_eq_some {p : Pattern} {t before after : Text} {mustMove : Bool}
    {a b : Cursor} (ht : t = before.reverse ++ after)
    (h : p.searchFrom before before.length mustMove after = some (a, b)) :
    ∃ i, before.length ≤ i ∧ i ≤ t.length ∧ a = placeAt t i ∧ a.Onward b ∧
      ∃ k e, p.run k a = some e := by
  have hplace (before after : Text) (ht : t = before.reverse ++ after) :
      (⟨before, after, before.length, []⟩ : Cursor) = placeAt t before.length := by
    rw [placeAt, ht, ← List.length_reverse, List.take_left, List.drop_left, List.reverse_reverse]
  have hfound {before after : Text} {mustMove : Bool} (ht : t = before.reverse ++ after)
      {d : Cursor} (hd : p.run (fun d => if mustMove && d.pos == before.length then none
        else some d) ⟨before, after, before.length, []⟩ = some d) :
      ∃ i, before.length ≤ i ∧ i ≤ t.length ∧
        (⟨before, after, before.length, []⟩ : Cursor) = placeAt t i ∧
        Cursor.Onward ⟨before, after, before.length, []⟩ d ∧
        ∃ k e, p.run k ⟨before, after, before.length, []⟩ = some e := by
    refine ⟨before.length, le_rfl, ?_, hplace before after ht, ?_, _, _, hd⟩
    · rw [ht, List.length_append, List.length_reverse]
      omega
    · obtain ⟨d', hon, hd'⟩ := movesOn_run p _ _ _ hd
      obtain ⟨-, hd'⟩ := Option.ite_none_left_eq_some.mp hd'
      obtain rfl := Option.some.inj hd'
      exact hon
  induction after generalizing before mustMove with
  | nil =>
    rw [searchFrom] at h
    obtain ⟨d, hd, hab⟩ := Option.map_eq_some_iff.mp h
    cases hab
    exact hfound ht hd
  | cons x after ih =>
    rw [searchFrom] at h
    split at h
    · rename_i d hd
      cases h
      exact hfound ht hd
    · have hnext : t = (x :: before).reverse ++ after := by simpa using ht
      obtain ⟨i, hi, hrest⟩ := ih hnext h
      exact ⟨i, Nat.le_of_succ_le hi, hrest⟩

/-- The fits that a search lists lie one behind the other. -/
theorem fitsFrom_matchesFrom (p : Pattern) {t : Text} (fuel : Nat) (mustMove : Bool)
    (groups : List (Nat × Capture)) {before after : Text} (ht : t = before.reverse ++ after) :
    FitsFrom p t before.length
      (p.matchesFrom t fuel mustMove ⟨before, after, before.length, groups⟩) := by
  induction fuel generalizing mustMove before after groups with
  | zero => exact .nil
  | succ fuel ih =>
    rw [matchesFrom]
    cases hsearch : p.searchFrom before before.length mustMove after with
    | none => exact .nil
    | some ab =>
      obtain ⟨a, b⟩ := ab
      obtain ⟨i, hi, hlen, rfl, ⟨n, hn, gs, rfl⟩, hruns⟩ := of_searchFrom_eq_some ht hsearch
      rw [placeAt, List.length_drop] at hn
      have hbefore : ((placeAt t i).advance n).before.length = i + n := by
        simp only [Cursor.advance, placeAt, List.length_append, List.length_reverse,
          List.length_take, List.length_drop]
        omega
      have hsplit : t = ((placeAt t i).advance n).before.reverse ++
          ((placeAt t i).advance n).after := by
        simp only [Cursor.advance, placeAt, List.reverse_append, List.reverse_reverse,
          List.append_assoc, List.take_append_drop]
      have hrest := ih (i + n == i) gs hsplit
      rw [hbefore] at hrest
      have hstop : i + n ≤ t.length := by omega
      exact .cons rfl hi (Nat.le_add_right i n) hstop hruns hrest

/-- The first fit at or after an offset lies ahead of it. -/
theorem fitsFrom_of_searchAt?_eq_some {p : Pattern} {t : Text} {pos : Nat} {m : Match}
    (hpos : pos ≤ t.length) (h : p.searchAt? t pos = some m) : FitsFrom p t pos [m] := by
  have hbefore : (Cursor.atOffset t pos).before.length = pos := by
    simp [Cursor.atOffset, Nat.min_eq_left hpos]
  have hsplit : t = (Cursor.atOffset t pos).before.reverse ++ (Cursor.atOffset t pos).after := by
    simp [Cursor.atOffset]
  rw [searchAt?] at h
  obtain ⟨⟨a, b⟩, hab, rfl⟩ := Option.map_eq_some_iff.mp h
  rw [show (Cursor.atOffset t pos).pos = (Cursor.atOffset t pos).before.length by
    simp [Cursor.atOffset]] at hab
  obtain ⟨i, hi, hlen, rfl, ⟨n, hn, gs, rfl⟩, hruns⟩ := of_searchFrom_eq_some hsplit hab
  rw [hbefore] at hi
  rw [placeAt, List.length_drop] at hn
  have hstop : i + n ≤ t.length := by omega
  exact .cons rfl hi (Nat.le_add_right i n) hstop hruns .nil

/-- All fits of a pattern in a text lie one behind the other. -/
theorem fitsFrom_allIn (p : Pattern) (t : Text) : FitsFrom p t 0 (p.allIn t) := by
  have ht : t = ([] : Text).reverse ++ t := rfl
  exact fitsFrom_matchesFrom p _ false [] ht

end Pattern

end HostScript
