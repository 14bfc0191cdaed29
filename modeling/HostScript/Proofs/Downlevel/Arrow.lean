import HostScript.Downlevel
import HostScript.Proofs.Optimize.DeadCode
import HostScript.Proofs.Pattern.Found
import HostScript.Proofs.Script.Rescan

/-!
# One arrow function

An arrow is found from the right, its parameters are read back from it, and its body is the
expression behind it, up to a separator, a closing bracket or a line break outside brackets. So an
expression that goes on in another line is cut there, and one without a line break outside brackets
is kept in one piece.
-/

namespace HostScript.Downlevel

open Pattern Script

/-! ## Where an expression ends -/

/-- The brackets that open. -/
def isOpener : CharSet := fun c => c == '(' || c == '[' || c == '\x7b'

/-- The brackets that close. -/
def isCloser : CharSet := fun c => c == ')' || c == ']' || c == '\x7d'

/-- The characters that end an expression outside its brackets. -/
def isSeparator : CharSet := fun c => c == ',' || c == ';' || c == '\n'

variable {x y z u v w : Text} {c : Char} {d : Nat}

theorem isOpener_of_isCloser (h : isCloser c = true) : isOpener c = false := by
  simp only [isCloser, Bool.or_eq_true, beq_iff_eq] at h
  rcases h with (rfl | rfl) | rfl <;> rfl

theorem expressionLength_opener (h : isOpener c = true) (d : Nat) (z : Text) :
    expressionLength d (c :: z) = 1 + expressionLength (d + 1) z := by
  rw [expressionLength.eq_def]
  exact if_pos h

theorem expressionLength_closer (h : isCloser c = true) (d : Nat) (z : Text) :
    expressionLength (d + 1) (c :: z) = 1 + expressionLength d z := by
  rw [expressionLength, if_neg (Bool.not_eq_true _ ▸ isOpener_of_isCloser h)]
  exact if_pos h

theorem expressionLength_stop (h : isCloser c = true ∨ isSeparator c = true) (z : Text) :
    expressionLength 0 (c :: z) = 0 := by
  simp only [isCloser, isSeparator, Bool.or_eq_true, beq_iff_eq] at h
  rcases h with ((rfl | rfl) | rfl) | ((rfl | rfl) | rfl) <;> rfl

theorem expressionLength_other (hopen : isOpener c = false) (hclose : isCloser c = false)
    (hsep : d ≠ 0 ∨ isSeparator c = false) (z : Text) :
    expressionLength d (c :: z) = 1 + expressionLength d z := by
  have hstop : ¬ ((d == 0 && isSeparator c) = true) := by
    rw [Bool.and_eq_true, beq_iff_eq, not_and]
    rintro rfl
    simpa using hsep
  rw [expressionLength.eq_def]
  refine (if_neg (Bool.not_eq_true _ ▸ hopen)).trans ?_
  refine (if_neg (Bool.not_eq_true _ ▸ hclose)).trans ?_
  exact if_neg hstop

/-- A text that an expression goes on over, whatever brackets are open. -/
def Passed (x : Text) : Prop :=
  ∀ d z, expressionLength d (x ++ z) = x.length + expressionLength d z

/-- A text that an expression goes on over inside brackets. -/
def PassedInside (x : Text) : Prop :=
  ∀ d z, expressionLength (d + 1) (x ++ z) = x.length + expressionLength (d + 1) z

theorem Passed.inside (hx : Passed x) : PassedInside x := fun d z => hx (d + 1) z

theorem Passed.append (hx : Passed x) (hy : Passed y) : Passed (x ++ y) := by
  intro d z
  rw [List.append_assoc, hx, hy, List.length_append, Nat.add_assoc]

theorem PassedInside.append (hx : PassedInside x) (hy : PassedInside y) :
    PassedInside (x ++ y) := by
  intro d z
  rw [List.append_assoc, hx, hy, List.length_append, Nat.add_assoc]

theorem passed_nil : Passed [] := fun d z => by simp

theorem passed_of_forall (hx : ∀ a ∈ x, isOpener a = false ∧ isCloser a = false ∧
    isSeparator a = false) : Passed x := by
  induction x with
  | nil => exact passed_nil
  | cons a x ih =>
    obtain ⟨⟨hopen, hclose, hsep⟩, hx⟩ := List.forall_mem_cons.mp hx
    intro d z
    rw [List.cons_append, expressionLength_other hopen hclose (Or.inr hsep), ih hx,
      List.length_cons]
    omega

theorem passedInside_of_forall (hx : ∀ a ∈ x, isOpener a = false ∧ isCloser a = false) :
    PassedInside x := by
  induction x with
  | nil => exact passed_nil.inside
  | cons a x ih =>
    obtain ⟨⟨hopen, hclose⟩, hx⟩ := List.forall_mem_cons.mp hx
    intro d z
    rw [List.cons_append, expressionLength_other hopen hclose (Or.inl (Nat.succ_ne_zero d)), ih hx,
      List.length_cons]
    omega

/-- Between brackets an expression goes on over all that it goes on over inside them. -/
theorem PassedInside.between (hx : PassedInside x) {a b : Char} (ha : isOpener a = true)
    (hb : isCloser b = true) : Passed (a :: (x ++ [b])) := by
  intro d z
  rw [List.cons_append, List.append_assoc, expressionLength_opener ha, hx, List.singleton_append,
    expressionLength_closer hb, List.length_cons, List.length_append, List.length_singleton]
  omega

/-- Whether an expression can end where a text comes next. -/
def Closes (z : Text) : Prop := ∀ c ∈ z.head?, isCloser c = true ∨ isSeparator c = true

theorem Passed.expressionLength_eq (hx : Passed x) (hz : Closes z) :
    expressionLength 0 (x ++ z) = x.length := by
  rw [hx]
  cases z with
  | nil => rfl
  | cons c z => rw [expressionLength_stop (hz c rfl)]; rfl

/-! ## Finding arrows -/

/-- The two characters of an arrow. -/
def arrowSign : Text := ['=', '>']

theorem lastArrow?.go_of_free (h : ¬ arrowSign <:+: x) (pos : Nat) (found : Option Nat) :
    lastArrow?.go pos found x = found := by
  fun_induction lastArrow?.go pos found x with
  | case1 pos found rest ih => exact absurd (List.prefix_append arrowSign rest).isInfix h
  | case2 pos found c rest hno ih => exact ih fun hin => h (hin.trans (List.infix_cons (List.infix_refl _)))
  | case3 => rfl

theorem go_append (hv : ¬ arrowSign <:+: v) (hhead : v.head? ≠ some '>') (pos : Nat)
    (found : Option Nat) : lastArrow?.go pos found (u ++ v) = lastArrow?.go pos found u := by
  fun_induction lastArrow?.go pos found u with
  | case1 pos found rest ih => exact ih
  | case2 pos found c rest hno ih =>
    rw [List.cons_append, lastArrow?.go]
    · exact ih
    · rintro rest' rfl heq
      cases rest with
      | nil => simp only [List.nil_append] at heq; exact hhead (by rw [heq]; rfl)
      | cons a rest =>
        injection heq with h1 h2
        subst h1
        exact hno _ rfl rfl
  | case3 => exact lastArrow?.go_of_free hv _ _

/-- What comes after the first character decides on the last arrow, up to one that starts there. -/
theorem exists_go_cons (c : Char) (x : Text) (pos : Nat) (found : Option Nat) :
    ∃ found', lastArrow?.go pos found (c :: x) = lastArrow?.go (pos + 1) found' x := by
  rw [lastArrow?.go.eq_def]
  split
  · rename_i heq
    injection heq with _ htail
    exact ⟨some pos, by rw [htail]⟩
  · rename_i heq
    injection heq with _ htail
    exact ⟨found, by rw [htail]⟩
  · rename_i heq
    cases heq

theorem go_arrow (hx : ¬ arrowSign <:+: x) (pos : Nat) (found : Option Nat) :
    lastArrow?.go pos found (u ++ (arrowSign ++ x)) = some (pos + u.length) := by
  induction u generalizing pos found with
  | nil =>
    have hgt : ¬ arrowSign <:+: '>' :: x := by
      rw [List.infix_cons_iff, not_or]
      exact ⟨by simp [arrowSign], hx⟩
    exact lastArrow?.go_of_free hgt _ _
  | cons c u ih =>
    obtain ⟨found', hfound⟩ := exists_go_cons c (u ++ (arrowSign ++ x)) pos found
    rw [List.cons_append, hfound, ih, List.length_cons]
    congr 1
    omega

theorem lastArrow?_append (hv : ¬ arrowSign <:+: v) (hhead : v.head? ≠ some '>') (w : Text) :
    lastArrow? (u ++ (v ++ w)) (u ++ v).length = lastArrow? (u ++ (v ++ w)) u.length := by
  rw [lastArrow?, lastArrow?, List.take_left, ← List.append_assoc, List.take_left,
    go_append hv hhead]

theorem lastArrow?_arrow (hx : ¬ arrowSign <:+: x) (w : Text) :
    lastArrow? (u ++ (arrowSign ++ x) ++ w) (u ++ (arrowSign ++ x)).length = some u.length := by
  rw [lastArrow?, List.take_left, go_arrow hx, Nat.zero_add]

/-- Rephrases the arrows in a text that goes on with another one. -/
def rephrase (fuel : Nat) (u w : Text) : Text := arrowsBefore fuel u.length (u ++ w)

theorem rephrase_append (hv : ¬ arrowSign <:+: v) (hhead : v.head? ≠ some '>') (fuel : Nat)
    (u w : Text) : rephrase fuel (u ++ v) w = rephrase fuel u (v ++ w) := by
  rw [rephrase, rephrase, List.append_assoc]
  cases fuel with
  | zero => rfl
  | succ fuel => rw [arrowsBefore, arrowsBefore, lastArrow?_append hv hhead]

theorem rephrase_free (hu : ¬ arrowSign <:+: u) (fuel : Nat) (w : Text) :
    rephrase fuel u w = u ++ w := by
  rw [rephrase]
  cases fuel with
  | zero => rfl
  | succ fuel => rw [arrowsBefore, lastArrow?, List.take_left, lastArrow?.go_of_free hu]

/-! ## Rephrasing one arrow -/

theorem skipBlanks_append {b : Text} (hb : ∀ c ∈ b, isBlank c = true)
    (hx : startsIn isBlank x = false) : skipBlanks (u ++ (b ++ x)) u.length = u.length + b.length := by
  have hstop : x.takeWhile isBlank = [] := by
    cases x with
    | nil => rfl
    | cons c x => exact List.takeWhile_cons_of_neg (by simpa [startsIn] using hx)
  rw [skipBlanks, List.drop_left, List.takeWhile_append_of_pos hb, hstop, List.append_nil]

/-- The body that an arrow has: its expression, without white space at the end. -/
theorem arrowBody?_expression {t : Text} {start : Nat}
    (hbrace : startsIn (· == '\x7b') (t.drop start) = false)
    (hw : Text.trimEnd ((t.drop start).take (expressionLength 0 (t.drop start))) = w)
    (hne : w ≠ []) :
    arrowBody? t start = some ("\x7b return " ++ w ++ "; \x7d", start + w.length) := by
  have hopen : (t[start]? == some '\x7b') = false := by
    rw [← List.head?_drop]
    cases hdrop : t.drop start with
    | nil => rfl
    | cons c z => simpa [hdrop, startsIn] using hbrace
  rw [arrowBody?, hopen, if_neg Bool.false_ne_true]
  simp only [Text.since, Text.upTo, hw, List.isEmpty_iff, hne, if_false]

/-- An arrow at the end of a text becomes a function, if its body is an expression. -/
theorem rephrase_arrow {s params after : Text} (fuel : Nat)
    (hparams : arrowParams? (u ++ (s ++ (" => " ++ after))) (u.length + (s.length + 1)) =
      some (u.length, params))
    (hstart : startsIn (isBlank ||| (· == '\x7b')) after = false)
    (hw : Text.trimEnd (after.take (expressionLength 0 after)) = w) (hne : w ≠ []) :
    rephrase (fuel + 1) (u ++ (s ++ " =>")) (' ' :: after) =
      rephrase fuel u (functionText params ("\x7b return " ++ w ++ "; \x7d") ++ after.drop w.length) := by
  have hblank : startsIn isBlank after = false ∧ startsIn (· == '\x7b') after = false := by
    cases after with
    | nil => exact ⟨rfl, rfl⟩
    | cons c after => exact Bool.or_eq_false_iff.mp hstart
  obtain ⟨t, ht⟩ : ∃ t, t = u ++ (s ++ (" => " ++ after)) := ⟨_, rfl⟩
  have harrow : t = (u ++ (s ++ " =>".toList)) ++ ' ' :: after := by simp [ht]
  have hend : t = (u ++ (s ++ " => ".toList)) ++ after := by simp [ht]
  have hlast : lastArrow? t (u ++ (s ++ " =>".toList)).length = some (u.length + (s.length + 1)) := by
    have := lastArrow?_arrow (u := u ++ (s ++ [' '])) (x := []) (by decide) (' ' :: after)
    simpa [ht, arrowSign] using this
  have hskip : skipBlanks t (u.length + (s.length + 1) + 2) = (u ++ (s ++ " => ".toList)).length := by
    have := skipBlanks_append (u := u ++ (s ++ " =>".toList)) (b := [' ']) (by decide) hblank.1
    simpa [ht, Nat.add_assoc] using this
  have hdrop : t.drop (u ++ (s ++ " => ".toList)).length = after := by
    rw [hend, List.drop_left]
  rw [← ht] at hparams
  rw [rephrase, ← harrow, arrowsBefore, hlast]
  simp only [hparams, hskip]
  rw [arrowBody?_expression (hdrop ▸ hblank.2) (hdrop ▸ hw) hne]
  simp only
  rw [← List.drop_drop, hdrop, ht, List.take_left, List.append_assoc, rephrase]

/-! ## The parameters of an arrow -/

/-- The characters behind which an operand stands. -/
def isLead : CharSet := among "(,=>"

/-- A text behind which an operand may start: nothing, or one that ends, white space aside, in an
opening parenthesis, a comma or an arrow. -/
def Leads (u : Text) : Prop := Text.trimEnd u = [] ∨ endsIn isLead (Text.trimEnd u) = true

theorem isLead_iff : isLead c = true ↔ c = '(' ∨ c = ',' ∨ c = '=' ∨ c = '>' := by
  simp [isLead, among]

theorem solid_of_isLead (h : isLead c = true) : isBlank c = false ∧ isIdentPart c = false := by
  rcases isLead_iff.mp h with rfl | rfl | rfl | rfl <;> decide

/-- Whatever such a text ends in starts with white space, or holds a character that is neither white
space nor part of a name. -/
theorem Leads.suffix (h : Leads u) (hu : u = x ++ c :: y) :
    isBlank c = true ∨ ∃ a ∈ c :: y, isLead a = true := by
  rcases h with h | h
  · exact Or.inl (Text.trimEnd_eq_nil_iff.mp h c (by simp [hu]))
  obtain ⟨b, hb, hblank⟩ := Text.exists_trimEndOf isBlank u
  rcases List.eq_nil_or_concat' (Text.trimEnd u) with hnil | ⟨v, l, hl⟩
  · rw [hnil] at h
    cases h
  have hlead : isLead l = true := by simpa [hl, endsIn] using h
  change u = Text.trimEnd u ++ b at hb
  rw [hl, List.append_assoc, List.singleton_append, hu] at hb
  rcases List.append_eq_append_iff.mp hb with ⟨s, -, hs⟩ | ⟨s, -, hs⟩
  · exact Or.inr ⟨l, by simp [hs], hlead⟩
  · cases s with
    | nil =>
      obtain ⟨rfl, -⟩ := List.cons.inj hs
      exact Or.inr ⟨l, List.mem_cons_self, hlead⟩
    | cons a s =>
      obtain ⟨-, rfl⟩ := List.cons.inj hs
      exact Or.inl (hblank c (by simp))

theorem Leads.trimEnd (h : Leads u) : Leads (Text.trimEnd u) := by
  rwa [Leads, trimEnd_eq_self (endsIn_trimEnd u)]

/-- A pattern that reaches the end of a text fits a part of it that ends there, or before its last
line break. -/
theorem exists_spelled_of_occursIn {p : Pattern} {t : Text} (h : (p ++ textEnd).occursIn t = true) :
    ∃ a b e gs, t = a ++ (b ++ e) ∧ p.Spells b gs ∧ (e = [] ∨ e = ['\n']) := by
  obtain ⟨a, y, rfl, hrun⟩ := (occursIn_iff_run _ t).mp h
  rw [run_seq] at hrun
  obtain ⟨d, hd⟩ := Option.isSome_iff_exists.mp hrun
  obtain ⟨b, gs, d', hb, hpass, hend⟩ := covers_run p _ _ _ hd
  have hrest : (if d'.onEnd then some d' else none) = some d := hend
  have hon := (Option.ite_none_right_eq_some.mp hrest).1
  rw [Cursor.onEnd, Bool.or_eq_true, List.isEmpty_iff, beq_iff_eq] at hon
  have hafter := hpass.after
  dsimp only at hafter
  exact ⟨a, b, d'.after, gs, by rw [hafter], hb, hon⟩

/-- The word that makes an arrow function asynchronous does not stand where an operand may start. -/
theorem Leads.not_occursIn {p : Pattern} (h : Leads u)
    (hp : ∀ b gs, p.Spells b gs → ∃ s, b = "async" ++ s ∧ ∀ a ∈ s, isBlank a = true) :
    (p ++ textEnd).occursIn u = false := by
  rw [← Bool.not_eq_true]
  intro hin
  obtain ⟨a, b, e, gs, rfl, hb, he⟩ := exists_spelled_of_occursIn hin
  obtain ⟨s, rfl, hs⟩ := hp b gs hb
  have hblank : Text.trimEnd (s ++ e) = [] := by
    rw [Text.trimEnd_eq_nil_iff, List.forall_mem_append]
    refine ⟨hs, ?_⟩
    rcases he with rfl | rfl <;> decide
  have htrim : Text.trimEnd (a ++ ("async" ++ s ++ e)) = a ++ "async" := by
    have hword : Text.trimEnd "async" = "async".toList := by decide
    rw [List.append_assoc, Text.trimEnd_append, Text.trimEnd_append, if_pos hblank, hword, if_neg (by simp)]
  rw [Leads, htrim] at h
  rcases h with h | h
  · simp at h
  · simp [endsIn, isLead, among] at h

theorem Leads.not_async (h : Leads u) :
    (fresh ++ "async" ++ textEnd).occursIn u = false ∧
      (fresh ++ "async" ++ blanks ++ textEnd).occursIn u = false := by
  have hword {b : Text} {gs : GroupTexts} (hb : (fresh ++ "async").Spells b gs) : b = "async" := by
    obtain ⟨y, z, gs₁, gs₂, rfl, -, hy, hz⟩ := spells_append_iff.mp hb
    rw [(spells_fresh_iff.mp hy).1, (spells_lit_iff.mp hz).1, List.nil_append]
  constructor
  · refine h.not_occursIn fun b gs hb => ⟨[], ?_, List.forall_mem_nil _⟩
    rw [hword hb, List.append_nil]
  · refine h.not_occursIn fun b gs hb => ?_
    obtain ⟨y, s, rfl, hs, hy⟩ := hb.of_append_blanks
    exact ⟨s, by rw [hword hy], hs⟩

theorem solidBefore?_append {b : Text} (hc : isBlank c = false) (hb : ∀ a ∈ b, isBlank a = true)
    (w : Text) : solidBefore? (x ++ c :: (b ++ w)) (x.length + (b.length + 1)) = some x.length := by
  have htake : (x ++ c :: (b ++ w)).take (x.length + (b.length + 1)) = (x ++ [c]) ++ b := by
    have hlength : x.length + (b.length + 1) = ((x ++ [c]) ++ b).length := by
      simp only [List.length_append, List.length_singleton]
      omega
    have hparts : x ++ c :: (b ++ w) = ((x ++ [c]) ++ b) ++ w := by simp
    rw [hlength, hparts, List.take_left]
  have hself : Text.trimEnd (x ++ [c]) = x ++ [c] :=
    trimEnd_eq_self (by rw [endsIn_append _ (List.cons_ne_nil c [])]; exact hc)
  rw [solidBefore?, htake, Text.trimEnd_append, if_pos (Text.trimEnd_eq_nil_iff.mpr hb), hself]
  simp

/-! ### In parentheses -/

theorem openParenBack?_eq (hx : '(' ∉ x ∧ ')' ∉ x) (u : Text) :
    openParenBack? 1 (x ++ '(' :: u) = some x.length := by
  induction x with
  | nil => rfl
  | cons c x ih =>
    simp only [List.mem_cons, not_or] at hx
    obtain ⟨⟨hopen, hx₁⟩, hclose, hx₂⟩ := hx
    rw [List.cons_append, openParenBack?, if_neg (by simpa using Ne.symm hclose),
      if_neg (by simpa using Ne.symm hopen), ih ⟨hx₁, hx₂⟩]
    rfl

/-- Parameters in parentheses are read back to where they open. -/
theorem arrowParams?_round {p : Text} (hu : Leads u) (hp : '(' ∉ p ∧ ')' ∉ p) (w : Text) :
    arrowParams? (u ++ (('(' :: (p ++ [')'])) ++ (" => " ++ w)))
      (u.length + (('(' :: (p ++ [')'])).length + 1)) = some (u.length, p.trim) := by
  obtain ⟨t, ht⟩ : ∃ t, t = (u ++ '(' :: p) ++ ')' :: ([' '] ++ ("=> " ++ w)) := ⟨_, rfl⟩
  have hparts : u ++ (('(' :: (p ++ [')'])) ++ (" => " ++ w)) = t := by simp [ht]
  have hclose : (u ++ '(' :: p).length = u.length + (p.length + 1) := by simp
  have hsolid : solidBefore? t (u.length + (('(' :: (p ++ [')'])).length + 1)) =
      some (u.length + (p.length + 1)) := by
    have := solidBefore?_append (x := u ++ '(' :: p) (c := ')') (b := [' ']) (by decide) (by decide)
      ("=> " ++ w)
    rw [← ht, hclose] at this
    simpa [Nat.add_assoc] using this
  have hget : (t[u.length + (p.length + 1)]? == some ')') = true := by
    rw [ht, ← hclose, List.getElem?_append_right (Nat.le_refl _), Nat.sub_self]
    rfl
  have hback : openParenBack? 0 (t.take (u.length + (p.length + 1) + 1)).reverse =
      some (p.length + 1) := by
    have hreverse : (t.take (u.length + (p.length + 1) + 1)).reverse =
        ')' :: (p.reverse ++ '(' :: u.reverse) := by
      rw [ht, ← hclose, List.take_length_add_append]
      simp
    have hp' : '(' ∉ p.reverse ∧ ')' ∉ p.reverse := by simpa using hp
    rw [hreverse, openParenBack?, if_pos (by rfl), openParenBack?_eq hp', List.length_reverse]
    rfl
  have hopen : u.length + (p.length + 1) - (p.length + 1) = u.length := Nat.add_sub_cancel ..
  have hbefore : t.upTo u.length = u := by
    rw [Text.upTo, ht, List.append_assoc, List.take_left]
  have hinside : t.slice (u.length + 1) (u.length + (p.length + 1)) = p := by
    rw [Text.slice, ht, ← hclose, List.take_left]
    simp
  rw [hparts, arrowParams?, hsolid]
  simp only [hget, if_true, hback, hopen, hbefore, hu.trimEnd.not_async.1, hinside]
  simp

/-! ### A bare name -/

/-- The name at the end of a text, with white space behind it. -/
def nameAtEnd : Pattern := fresh ++ cap 1 ident ++ blanks ++ textEnd

/-- Only a name and white space lead to the end of a text. -/
theorem of_run_nameAtEnd {c e : Cursor} (h : nameAtEnd.run some c = some e) :
    startsIn isIdentStart c.after = true ∧
      ∀ a ∈ c.after, isIdentPart a = true ∨ isBlank a = true := by
  rw [nameAtEnd, run_seq] at h
  obtain ⟨b, gs, d, hb, hpass, hend⟩ := covers_run _ _ _ _ h
  have hrest : (if d.onEnd then some d else none) = some e := hend
  have hon := (Option.ite_none_right_eq_some.mp hrest).1
  rw [Cursor.onEnd, Bool.or_eq_true, List.isEmpty_iff, beq_iff_eq] at hon
  have hblank : ∀ a ∈ d.after, isBlank a = true := by
    rcases hon with hon | hon <;> rw [hon] <;> decide
  obtain ⟨y, s, rfl, hs, hy⟩ := hb.of_append_blanks
  obtain ⟨y, n, gs₁, gs₂, rfl, -, hn, hfresh⟩ := hy.of_append_cap
  obtain ⟨n₁, n₂, _, _, rfl, -, hn₁, hn₂⟩ := spells_append_iff.mp hn
  obtain ⟨a, ha, rfl, -⟩ := spells_oneOf_iff.mp hn₁
  have hpart := hn₂.of_rounds_one.2.1
  rw [hpass.after, (spells_fresh_iff.mp hfresh).1]
  refine ⟨ha, ?_⟩
  simp only [List.nil_append, List.cons_append, List.forall_mem_cons,
    List.forall_mem_append]
  exact ⟨Or.inl (isIdentPart_of_isIdentStart ha), ⟨fun a ha => Or.inl (hpart a ha),
    fun a ha => Or.inr (hs a ha)⟩, fun a ha => Or.inr (hblank a ha)⟩

/-- A name with a space behind it is read at the end of a text. -/
theorem run_nameAtEnd {n : Text} (hstart : startsIn isIdentStart n = true)
    (hn : ∀ a ∈ n, isIdentPart a = true) (pos : Nat)
    (hu : u.head?.any (isWord ||| among "$.") = false) :
    ∃ d, nameAtEnd.run some ⟨u, n ++ [' '], pos, []⟩ = some d ∧ d.groups = [(1, ⟨pos, n⟩)] := by
  obtain ⟨a, n, rfl⟩ : ∃ a m, n = a :: m := by
    cases n with
    | nil => cases hstart
    | cons a n => exact ⟨a, n, rfl⟩
  have hspace : ([' '] : Text).head?.any isIdentPart = false := by decide
  have hstart : isIdentStart a = true := hstart
  have hident : ident.Takes ([a] ++ n) [' '] noGroups :=
    (takes_one hstart (n ++ [' '])).append (takes_star (List.forall_mem_cons.mp hn).2 hspace)
  have hblanks : blanks.Takes [' '] [] noGroups := takes_star (by decide) rfl
  have htakes := (hident.cap 1).append hblanks
  have hend {d : Cursor} (hd : d.after = []) : textEnd.run some d = some d := by
    have hon : d.onEnd = true := by rw [Cursor.onEnd, hd]; rfl
    exact if_pos hon
  refine ⟨Cursor.behind ⟨u, a :: n ++ [' '], pos, []⟩ (a :: n ++ [' ']) fun pos => [(1, ⟨pos, a :: n⟩)],
    ?_, rfl⟩
  rw [nameAtEnd, run_seq, run_seq, run_seq, fresh, run_notAfter]
  simp only [hu, Bool.false_eq_true, if_false]
  exact htakes (textEnd.run some) _ _ (by simp) (hend (Cursor.after_behind (by simp) _))

/-- Behind such a text a name is not joined to another. -/
theorem Leads.endsIn_eq (h : Leads u) : u.reverse.head?.any (isWord ||| among "$.") = false := by
  rw [List.head?_reverse, getLast?_any_bound]
  rcases List.eq_nil_or_concat' u with rfl | ⟨v, c, rfl⟩
  · rfl
  have hc : isBlank c = true ∨ isLead c = true := by
    simpa using h.suffix rfl
  have hpart : isIdentPart c = false ∧ c ≠ '.' := by
    rcases hc with hc | hc
    · refine ⟨isIdentPart_of_isBlank hc, ?_⟩
      rintro rfl
      exact absurd hc (by decide)
    · rcases isLead_iff.mp hc with rfl | rfl | rfl | rfl <;> decide
  simp [endsIn, hpart]

/-- The name at the end of a text is found at its start. -/
theorem search?_nameAtEnd {n : Text} (hu : Leads u) (hstart : startsIn isIdentStart n = true)
    (hn : ∀ a ∈ n, isIdentPart a = true) :
    ∃ m, nameAtEnd.search? (u ++ (n ++ [' '])) = some m ∧ m.groups = [(1, ⟨u.length, n⟩)] := by
  obtain ⟨d, hd, hgroups⟩ := run_nameAtEnd hstart hn u.length hu.endsIn_eq
  have hsearch : nameAtEnd.searchFrom [] 0 false (u ++ (n ++ [' '])) =
      some (⟨u.reverse, n ++ [' '], u.length, []⟩, d) := by
    rw [searchFrom_append u]
    · simpa using searchFrom_of_run hd
    -- A fit that starts further left would cover the end of `u`, which no name and no space covers.
    intro x c y hx
    rw [← Option.not_isSome_iff_eq_none]
    intro hsome
    obtain ⟨e, he⟩ := Option.isSome_iff_exists.mp hsome
    obtain ⟨hc, hall⟩ := of_run_nameAtEnd he
    have hc : isIdentPart c = true := isIdentPart_of_isIdentStart hc
    rcases hu.suffix hx with hblank | ⟨a, ha, hlead⟩
    · rw [isIdentPart_of_isBlank hblank] at hc
      cases hc
    · obtain ⟨hblank, hpart⟩ := solid_of_isLead hlead
      have := hall a (List.mem_append_left _ ha)
      simp [hblank, hpart] at this
  have hfound : nameAtEnd.search? (u ++ (n ++ [' '])) =
      (nameAtEnd.searchFrom [] 0 false (u ++ (n ++ [' ']))).map fun x =>
        Match.ofCursors (u ++ (n ++ [' '])) x.1 x.2 := rfl
  rw [hsearch, Option.map_some] at hfound
  exact ⟨_, hfound, hgroups⟩

/-- A name in front of an arrow is read back to its start. -/
theorem arrowParams?_bare {n : Text} (hu : Leads u) (hstart : startsIn isIdentStart n = true)
    (hn : ∀ a ∈ n, isIdentPart a = true) (hasync : n ≠ "async") (w : Text) :
    arrowParams? (u ++ (n ++ (" => " ++ w))) (u.length + (n.length + 1)) = some (u.length, n) := by
  obtain ⟨t, ht⟩ : ∃ t, t = u ++ (n ++ (" => " ++ w)) := ⟨_, rfl⟩
  have htake : t.take (u.length + (n.length + 1)) = u ++ (n ++ [' ']) := by
    have hlength : u.length + (n.length + 1) = (u ++ (n ++ [' '])).length := by simp
    have hparts : t = (u ++ (n ++ [' '])) ++ ("=> " ++ w) := by simp [ht]
    rw [hlength, hparts, List.take_left]
  obtain ⟨pos, hsolid, hclose⟩ : ∃ pos, solidBefore? t (u.length + (n.length + 1)) = some pos ∧
      (t[pos]? == some ')') = false := by
    obtain ⟨n, a, rfl⟩ := (List.eq_nil_or_concat' n).resolve_left (by rintro rfl; cases hstart)
    have ha : isIdentPart a = true := hn a (by simp)
    have hblank : isBlank a = false := by
      rw [← Bool.not_eq_true]
      intro hblank
      rw [isIdentPart_of_isBlank hblank] at ha
      cases ha
    have hparts : t = (u ++ n) ++ a :: ([' '] ++ ("=> " ++ w)) := by simp [ht]
    have hsolid := solidBefore?_append (x := u ++ n) (b := [' ']) hblank (by decide) ("=> " ++ w)
    rw [← hparts] at hsolid
    refine ⟨(u ++ n).length, by simpa [Nat.add_assoc] using hsolid, ?_⟩
    have hne : a ≠ ')' := by
      rintro rfl
      exact absurd ha (by decide)
    rw [hparts, List.getElem?_append_right (Nat.le_refl _), Nat.sub_self]
    simpa using hne
  obtain ⟨m, hm, hgroups⟩ := search?_nameAtEnd hu hstart hn
  have hname : m.group 1 = n := by simp [Match.group, Match.group?, hgroups]
  have hwhere : m.groupStart 1 = u.length := by simp [Match.groupStart, hgroups]
  have hword : (n == "async".toList) = false := by simpa using hasync
  have hbefore : t.take u.length = u := by rw [ht, List.take_left]
  rw [nameAtEnd] at hm
  rw [← ht, arrowParams?, hsolid]
  simp only [hclose, Bool.false_eq_true, if_false, htake, hm, hname, hwhere, hbefore, hword]
  rw [Bool.false_or, if_neg]
  exact Bool.not_eq_true _ ▸ hu.not_async.2


/-! ## Properties that texts share with their words -/

/-- The characters between the words of an expression. -/
def isPunctuation : CharSet := among "(),;=> \x7b\x7d"

/-- A property of texts that goes over from two texts to both with a character between them. -/
structure Joins (P : Text → Prop) : Prop where
  nil : P []
  glue {c : Char} {u v : Text} (hc : isPunctuation c = true) (hu : P u) (hv : P v) : P (u ++ c :: v)

variable {P : Text → Prop}

theorem Joins.cons (h : Joins P) (hc : isPunctuation c = true) (hv : P v) : P (c :: v) :=
  h.glue hc h.nil hv

theorem Joins.marks (h : Joins P) (hu : ∀ a ∈ u, isPunctuation a = true) (hv : P v) : P (u ++ v) := by
  induction u with
  | nil => exact hv
  | cons a u ih =>
    rw [List.forall_mem_cons] at hu
    exact h.cons hu.1 (ih hu.2)

theorem Joins.append (h : Joins P) (hu : P u) (hm : ∀ a ∈ w, isPunctuation a = true) (hne : w ≠ [])
    (hv : P v) : P (u ++ (w ++ v)) := by
  obtain ⟨a, w, rfl⟩ := List.exists_cons_of_ne_nil hne
  rw [List.forall_mem_cons] at hm
  exact h.glue hm.1 hu (h.marks hm.2 hv)

/-- A property that goes over to texts with a separator between them holds of all that is joined. -/
theorem forall_join {sep : Text} {ts : List Text} (hnil : P [])
    (happend : ∀ s t, P s → P t → P (s ++ (sep ++ t))) (hts : ∀ t ∈ ts, P t) :
    P (Text.join sep ts) := by
  induction ts with
  | nil => exact hnil
  | cons t ts ih =>
    rw [List.forall_mem_cons] at hts
    cases ts with
    | nil => exact hts.1
    | cons s ts =>
      rw [Text.join_cons _ _ (List.cons_ne_nil s ts)]
      exact happend _ _ hts.1 (ih hts.2)

theorem Joins.join (h : Joins P) {ts : List Text} (hts : ∀ t ∈ ts, P t) : P (Text.join ", " ts) :=
  forall_join h.nil (fun _ _ hs ht => h.append hs (by decide) (by decide) ht) hts

theorem joins_unmarked : Joins Unmarked where
  nil := by decide
  glue {c u v} hc hu hv := by
    have hplain : c ∉ '\x03' :: markHead := by
      intro hmem
      have : ∀ a ∈ '\x03' :: markHead, isPunctuation a = false := by decide
      rw [this c hmem] at hc
      cases hc
    refine hu.append (hv.cons hplain) (Or.inr fun d hd => ?_)
    rw [← Option.some.inj hd]
    exact fun hd => hplain (List.mem_cons_of_mem _ hd)

theorem joins_isBare : Joins Optimize.IsBare where
  nil := by decide
  glue {c u v} hc hu hv := by
    refine List.forall_mem_append.mpr ⟨hu, List.forall_mem_cons.mpr ⟨?_, hv⟩⟩
    intro hmem
    have : ∀ a ∈ ['\x22', '\x27', '\x60', '/'], isPunctuation a = false := by decide
    rw [this c hmem] at hc
    cases hc

/-- A text in which a word does not stand on its own. -/
def Lacks (n : Text) (t : Text) : Prop := n ∉ textRuns t

instance decidableLacks (n t : Text) : Decidable (Lacks n t) :=
  inferInstanceAs (Decidable (n ∉ textRuns t))

/-- A character that is no part of a name is a run, and parts the runs before and behind it. -/
theorem textRuns_append_cons (hc : isIdentPart c = false) (u v : Text) :
    textRuns (u ++ c :: v) = textRuns u ++ [c] :: textRuns v := by
  have hruns : IsRuns isIdentPart (textRuns u ++ [c] :: textRuns v) := by
    refine isRuns_append_iff.mpr ⟨isRuns_runsOf _ u, ?_, isRuns_cons_iff.mpr
      ⟨⟨List.cons_ne_nil c [], Or.inr ⟨c, rfl⟩⟩, ?_, isRuns_runsOf _ v⟩⟩
    · simp [startsIn, hc]
    · simp [endsIn, hc]
  have := hruns.runsOf_flatten
  simpa using this

theorem isIdentPart_of_isPunctuation (h : isPunctuation c = true) : isIdentPart c = false := by
  have hmem : c ∈ "(),;=> \x7b\x7d".toList := by simpa [isPunctuation, among] using h
  have : ∀ a ∈ "(),;=> \x7b\x7d".toList, isIdentPart a = false := by decide
  exact this c hmem

theorem joins_lacks {n : Text} (hn : IsName n) : Joins (Lacks n) where
  nil := by simp [Lacks, runsOf]
  glue {c u v} hc hu hv := by
    have hpart := isIdentPart_of_isPunctuation hc
    rw [Lacks, textRuns_append_cons hpart, List.mem_append, List.mem_cons, not_or, not_or]
    refine ⟨hu, ?_, hv⟩
    rintro rfl
    rw [hn.isIdentPart c (List.mem_singleton_self c)] at hpart
    cases hpart

/-- A name lacks every other name. -/
theorem lacks_name {m n : Text} (hm : IsName m) (hne : m ≠ n) : Lacks n m := by
  have hruns : runsOf isIdentPart ([] ++ m ++ []) = _ :=
    runsOf_append_append hm.ne_nil hm.isIdentPart rfl rfl
  have : textRuns m = [m] := by simpa [runsOf] using hruns
  rw [Lacks, this, List.mem_singleton]
  exact hne.symm

theorem Lacks.not_occursIn {n t : Text} (hn : IsName n) (h : Lacks n t) :
    (freeName n).occursIn t = false := by
  rw [← Bool.not_eq_true, occursIn_freeName_iff hn]
  rintro ⟨before, after, hruns, -⟩
  exact h (by rw [hruns]; simp)

theorem isName_this : IsName "this" := isName_of_all (by decide) (by decide)

/-- A function whose body does not use the receiver is not bound to it. -/
theorem functionText_eq {params body : Text}
    (h : (freeName "this").occursIn body = false) :
    functionText params body = "function (" ++ params ++ ") " ++ body :=
  if_neg (Bool.not_eq_true _ ▸ h)

theorem functionText_of_lacks {t : Text} (ht : Lacks "this" t) (params : Text) :
    functionText params ("\x7b return " ++ t ++ "; \x7d") =
      "function (" ++ params ++ ") " ++ ("\x7b return " ++ t ++ "; \x7d") := by
  refine functionText_eq (Lacks.not_occursIn isName_this ?_)
  have hj := joins_lacks isName_this
  have hreturn : Lacks "this" "return" :=
    lacks_name (isName_of_all (by decide) (by decide)) (by decide)
  have hparts : "\x7b return ".toList ++ t ++ "; \x7d".toList = "\x7b ".toList ++
      ("return".toList ++ (" ".toList ++ (t ++ ("; \x7d".toList ++ [])))) := by simp
  rw [hparts]
  refine hj.marks (by decide) (hj.append hreturn (by decide) (by decide) ?_)
  exact hj.append ht (by decide) (by decide) hj.nil

/-! ## Bodies that are cut -/

/-- The number of brackets open behind a text, unless it closes more than are open. -/
def openBehind? : (depth : Nat) → Text → Option Nat
  | d, [] => some d
  | d, c :: rest =>
    if isOpener c then openBehind? (d + 1) rest
    else if isCloser c then
      (match d with
      | 0 => none
      | d + 1 => openBehind? d rest)
    else openBehind? d rest

/-- The characters outside brackets. -/
def outer : (depth : Nat) → Text → Text
  | _, [] => []
  | d, c :: rest =>
    if isOpener c then outer (d + 1) rest
    else if isCloser c then outer (d - 1) rest
    else if d == 0 then c :: outer d rest
    else outer d rest

/-- The text up to its first line break outside brackets. -/
def firstLine : (depth : Nat) → Text → Text
  | _, [] => []
  | d, c :: rest =>
    if isOpener c then c :: firstLine (d + 1) rest
    else if isCloser c then c :: firstLine (d - 1) rest
    else if d == 0 && c == '\n' then []
    else c :: firstLine d rest

/-- Behind the first line of a text comes nothing or a line break. -/
theorem exists_firstLine_append (d : Nat) (e : Text) :
    ∃ r, e = firstLine d e ++ r ∧ ∀ c ∈ r.head?, c = '\n' := by
  fun_induction firstLine d e with
  | case1 => exact ⟨[], rfl, by simp⟩
  | case2 d c rest hopen ih =>
    obtain ⟨r, hr, hhead⟩ := ih
    exact ⟨r, congrArg (c :: ·) hr, hhead⟩
  | case3 d c rest hopen hclose ih =>
    obtain ⟨r, hr, hhead⟩ := ih
    exact ⟨r, congrArg (c :: ·) hr, hhead⟩
  | case4 d c rest hopen hclose hbreak =>
    rw [Bool.and_eq_true, beq_iff_eq, beq_iff_eq] at hbreak
    exact ⟨c :: rest, rfl, by simpa using hbreak.2⟩
  | case5 d c rest hopen hclose hbreak ih =>
    obtain ⟨r, hr, hhead⟩ := ih
    exact ⟨r, congrArg (c :: ·) hr, hhead⟩

/-- The first line is all of a text without line breaks outside brackets. -/
theorem firstLine_eq_self_iff (d : Nat) (e : Text) : firstLine d e = e ↔ '\n' ∉ outer d e := by
  fun_induction firstLine d e with
  | case1 => simp [outer]
  | case2 d c rest hopen ih => simp [outer, hopen, ih]
  | case3 d c rest hopen hclose ih => simp [outer, hopen, hclose, ih]
  | case4 d c rest hopen hclose hbreak =>
    rw [Bool.and_eq_true, beq_iff_eq, beq_iff_eq] at hbreak
    rw [outer, if_neg hopen, if_neg hclose, if_pos (by simpa using hbreak.1), hbreak.2]
    simp
  | case5 d c rest hopen hclose hbreak ih =>
    rw [outer, if_neg hopen, if_neg hclose, List.cons.injEq, ih, and_iff_right rfl]
    split
    · rename_i hd
      have hc : '\n' ≠ c := by
        rintro rfl
        simp [hd] at hbreak
      rw [List.mem_cons, not_or, and_iff_right hc]
    · rfl

/-- The expression at the start of a text without separators ends with its first line. -/
theorem expressionLength_firstLine {e : Text} (hopen : openBehind? d e = some 0)
    (hcomma : ',' ∉ outer d e) (hsemicolon : ';' ∉ outer d e) (hz : Closes z) :
    expressionLength d (e ++ z) = (firstLine d e).length := by
  fun_induction firstLine d e with
  | case1 d =>
    obtain rfl : d = 0 := by simpa [openBehind?] using hopen
    exact passed_nil.expressionLength_eq hz
  | case2 d c rest hc ih =>
    rw [openBehind?.eq_def] at hopen
    simp only [outer, hc, if_true] at hopen hcomma hsemicolon
    rw [List.cons_append, expressionLength_opener hc, ih hopen hcomma hsemicolon, List.length_cons]
    omega
  | case3 d c rest hc hclose ih =>
    cases d with
    | zero => simp [openBehind?, hc, hclose] at hopen
    | succ d =>
      simp only [openBehind?, outer, hc, hclose, if_true, if_false, Bool.false_eq_true,
        Nat.add_sub_cancel] at hopen hcomma hsemicolon
      rw [Nat.add_sub_cancel] at ih ⊢
      rw [List.cons_append, expressionLength_closer hclose, ih hopen hcomma hsemicolon,
        List.length_cons]
      omega
  | case4 d c rest hc hclose hbreak =>
    rw [Bool.and_eq_true, beq_iff_eq, beq_iff_eq] at hbreak
    obtain ⟨rfl, rfl⟩ := hbreak
    exact expressionLength_stop (Or.inr rfl) _
  | case5 d c rest hc hclose hbreak ih =>
    rw [openBehind?.eq_def] at hopen
    simp only [outer, hc, hclose, if_false, Bool.false_eq_true] at hopen hcomma hsemicolon
    have hsep : d ≠ 0 ∨ isSeparator c = false := by
      by_cases hd : d = 0
      · simp only [hd, beq_self_eq_true, if_true, List.mem_cons, not_or] at hcomma hsemicolon
        have hc : c ≠ '\n' := by simpa [hd] using hbreak
        exact Or.inr (by simp [isSeparator, Ne.symm hcomma.1, Ne.symm hsemicolon.1, hc])
      · exact Or.inl hd
    have hrest {a : Char} (ha : a ∉ if d == 0 then c :: outer d rest else outer d rest) :
        a ∉ outer d rest := by
      split at ha
      · exact fun hmem => ha (List.mem_cons_of_mem _ hmem)
      · exact ha
    rw [List.cons_append, expressionLength_other (Bool.not_eq_true _ ▸ hc)
      (Bool.not_eq_true _ ▸ hclose) hsep, ih hopen (hrest hcomma) (hrest hsemicolon),
      List.length_cons]
    omega

/-- An expression as the body of an arrow: without white space around it, without quotes, slashes,
arrows and the receiver, with balanced brackets and without separators outside them. -/
structure IsBody (e : Text) : Prop where
  ne_nil : e ≠ []
  starts : startsIn (isBlank ||| (· == '\x7b')) e = false
  ends : endsIn isBlank e = false
  isBare : Optimize.IsBare e
  unmarked : Unmarked e
  arrowless : ¬ arrowSign <:+: e
  lacks : Lacks "this" e
  balanced : openBehind? 0 e = some 0
  whole : ',' ∉ outer 0 e ∧ ';' ∉ outer 0 e

/-- What an arrow takes for its body. -/
def bodyLine (e : Text) : Text := Text.trimEnd (firstLine 0 e)

variable {e : Text}

/-- Behind the body comes nothing or white space. -/
theorem exists_bodyLine_append (e : Text) :
    ∃ r, e = bodyLine e ++ r ∧ ∀ c ∈ r.head?, isBlank c = true := by
  obtain ⟨r, hr, hhead⟩ := exists_firstLine_append 0 e
  obtain ⟨b, hb, hblank⟩ := Text.exists_trimEndOf isBlank (firstLine 0 e)
  refine ⟨b ++ r, ?_, ?_⟩
  · rw [← List.append_assoc]
    exact hb ▸ hr
  · cases b with
    | nil =>
      intro c hc
      rw [hhead c hc]
      decide
    | cons a b =>
      intro c hc
      obtain rfl := Option.some.inj hc
      exact hblank _ (List.mem_cons_self ..)

theorem IsBody.bodyLine_ne_nil (h : IsBody e) : bodyLine e ≠ [] := by
  obtain ⟨c, e, rfl⟩ := List.exists_cons_of_ne_nil h.ne_nil
  have hc : isBlank c = false := (Bool.or_eq_false_iff.mp h.starts).1
  rw [bodyLine, ne_eq, Text.trimEnd_eq_nil_iff, firstLine]
  have hbreak : c ≠ '\n' := by
    rintro rfl
    exact absurd hc (by decide)
  simp only [beq_self_eq_true, Bool.true_and, beq_iff_eq, hbreak, if_false]
  split_ifs <;> simp [hc]

theorem IsBody.bodyLine_eq_self_iff (h : IsBody e) : bodyLine e = e ↔ '\n' ∉ outer 0 e := by
  rw [← firstLine_eq_self_iff]
  constructor
  · intro heq
    obtain ⟨b, hb, -⟩ := Text.exists_trimEndOf isBlank (firstLine 0 e)
    obtain ⟨r, hr, -⟩ := exists_firstLine_append 0 e
    change firstLine 0 e = bodyLine e ++ b at hb
    have hlength := congrArg List.length hr
    rw [hb, heq, List.length_append, List.length_append] at hlength
    have hnil : r = [] := List.length_eq_zero_iff.mp (by omega)
    rw [hnil, List.append_nil] at hr
    exact hr.symm
  · intro heq
    rw [bodyLine, heq, trimEnd_eq_self h.ends]

theorem IsBody.lacks_bodyLine (h : IsBody e) : Lacks "this" (bodyLine e) := by
  obtain ⟨r, hr, hhead⟩ := exists_bodyLine_append e
  cases r with
  | nil => exact (List.append_nil _ ▸ hr) ▸ h.lacks
  | cons c r =>
    have hlacks := h.lacks
    rw [hr, Lacks, textRuns_append_cons (isIdentPart_of_isBlank (hhead c rfl)), List.mem_append,
      not_or] at hlacks
    exact hlacks.1

/-- An arrow function becomes a function that returns what the arrow takes for its body. -/
theorem IsBody.rephrase_eq (h : IsBody e) (fuel : Nat) :
    rephrase (fuel + 1) ("var f = (x) => " ++ e ++ ";") [] =
      "var f = function (x) \x7b return " ++ bodyLine e ++ "; \x7d" ++ e.drop (bodyLine e).length
        ++ ";" := by
  have harrow : ¬ arrowSign <:+: ' ' :: (e ++ [';']) := by
    rw [List.infix_cons_iff, List.infix_concat_iff, not_or, not_or]
    refine ⟨by simp [arrowSign], ?_, h.arrowless⟩
    rintro ⟨r, hr⟩
    have := congrArg List.getLast? hr
    simp [arrowSign] at this
  have hlead : Leads "var f = " := Or.inr (by decide)
  have hparams := arrowParams?_round (p := ['x']) hlead (by decide) (e ++ [';'])
  have htrim : Text.trim ['x'] = ['x'] := by decide
  have hclose : Closes [';'] := by
    intro c hc
    obtain rfl := Option.some.inj hc
    exact Or.inr rfl
  obtain ⟨r, hr, -⟩ := exists_firstLine_append 0 e
  have hbody : Text.trimEnd ((e ++ [';']).take (expressionLength 0 (e ++ [';']))) = bodyLine e := by
    have htake : (e ++ [';']).take (firstLine 0 e).length = firstLine 0 e := by
      have : e ++ [';'] = firstLine 0 e ++ (r ++ [';']) := by
        rw [← List.append_assoc, ← hr]
      rw [this, List.take_left]
    rw [expressionLength_firstLine h.balanced h.whole.1 h.whole.2 hclose, htake, bodyLine]
  have hstart : startsIn (isBlank ||| (· == '\x7b')) (e ++ [';']) = false := by
    rw [startsIn_append_left _ h.ne_nil]
    exact h.starts
  have hrest : (e ++ [';']).drop (bodyLine e).length = e.drop (bodyLine e).length ++ [';'] := by
    obtain ⟨r, hr, -⟩ := exists_bodyLine_append e
    refine List.drop_append_of_le_length ?_
    have := congrArg List.length hr
    rw [List.length_append] at this
    omega
  have hsource : "var f = (x) => ".toList ++ e ++ ";".toList =
      "var f = ".toList ++ (('(' :: (['x'] ++ [')'])) ++ " =>".toList) ++ (' ' :: (e ++ [';'])) := by
    simp
  rw [htrim] at hparams
  rw [hsource, rephrase_append harrow (by simp), List.append_nil,
    rephrase_arrow fuel hparams hstart hbody h.bodyLine_ne_nil,
    functionText_of_lacks h.lacks_bodyLine, rephrase_free (by decide), hrest]
  simp

/-- An arrow function with an expression as its body becomes a function that returns the first line
of the expression, and the rest of the expression is left behind it. So the body is kept in one
piece exactly if no line of it ends outside brackets. -/
theorem arrows_body (h : IsBody e) :
    arrows ("var f = (x) => " ++ e ++ ";") =
        .ok ("var f = function (x) \x7b return " ++ bodyLine e ++ "; \x7d" ++
          e.drop (bodyLine e).length ++ ";") ∧
      (arrows ("var f = (x) => " ++ e ++ ";") =
          .ok ("var f = function (x) \x7b return " ++ e ++ "; \x7d;") ↔ '\n' ∉ outer 0 e) := by
  have hbare : Optimize.IsBare ("var f = (x) => " ++ e ++ ";") :=
    List.forall_mem_append.mpr ⟨List.forall_mem_append.mpr ⟨by decide, h.isBare⟩, by decide⟩
  obtain ⟨r, hr, hhead⟩ := exists_bodyLine_append e
  have hdrop : e.drop (bodyLine e).length = r := by
    have := congrArg (List.drop (bodyLine e).length) hr
    rwa [List.drop_left] at this
  have hunmarked : Unmarked ("var f = function (x) \x7b return " ++ bodyLine e ++ "; \x7d" ++
      e.drop (bodyLine e).length ++ ";") := by
    have hj := joins_unmarked
    have hline : Unmarked (bodyLine e) := h.unmarked.of_infix ⟨[], r, hr.symm⟩
    have hrest : Unmarked (e.drop (bodyLine e).length) :=
      h.unmarked.of_infix (List.drop_suffix _ e).isInfix
    have htail : Unmarked (e.drop (bodyLine e).length ++ (";".toList ++ [])) :=
      hj.append hrest (by decide) (by decide) hj.nil
    have hbody := hj.append hline (w := "; \x7d") (by decide) (by decide) htail
    have hfront : Unmarked "var f = function (x) \x7b return" := by decide
    have hall := hj.append hfront (w := " ") (by decide) (by decide) hbody
    simpa using hall
  have hout : arrows ("var f = (x) => " ++ e ++ ";") =
      .ok ("var f = function (x) \x7b return " ++ bodyLine e ++ "; \x7d" ++
        e.drop (bodyLine e).length ++ ";") := by
    have hrun := h.rephrase_eq ("var f = (x) => ".toList ++ e ++ ";".toList).length
    rw [rephrase, List.append_nil] at hrun
    rw [arrows, hbare.mask_eq]
    simp only [hrun]
    exact Masked.restoreText_of_unmarked _ hunmarked
  refine ⟨hout, ?_⟩
  rw [hout, ← h.bodyLine_eq_self_iff, hdrop, Except.ok.injEq]
  constructor
  · intro heq
    -- Behind the same body one text goes on with the rest of the expression, the other does not.
    have htail : "; \x7d".toList ++ r ++ ";".toList = r ++ "; \x7d;".toList := by
      have hsame : "var f = function (x) \x7b return ".toList ++ bodyLine e ++
          ("; \x7d".toList ++ r ++ ";".toList) = "var f = function (x) \x7b return ".toList ++
            bodyLine e ++ (r ++ "; \x7d;".toList) := by
        conv_rhs at heq => rw [hr]
        simpa using heq
      exact List.append_cancel_left hsame
    cases r with
    | nil =>
      rw [List.append_nil] at hr
      exact hr.symm
    | cons c r =>
      have hc : ';' = c := (List.cons.inj htail).1
      exact absurd (hc ▸ hhead c rfl) (by decide)
  · intro heq
    rw [heq] at hr ⊢
    rw [List.self_eq_append_right.mp hr]
    simp

/-- An expression with line breaks inside brackets only. -/
def callInLines : Text := "g(x,\n  y)[0] + 1"

theorem arrows_body_callInLines :
    IsBody callInLines ∧ arrows ("var f = (x) => " ++ callInLines ++ ";") =
      .ok ("var f = function (x) \x7b return " ++ callInLines ++ "; \x7d;") := by
  have h : IsBody callInLines :=
    ⟨by decide, by decide, by decide, by decide, by decide, by decide, by decide, by decide,
      by decide⟩
  exact ⟨h, (arrows_body h).2.mpr (by decide)⟩

/-- A chain that goes on in a second line is cut: the function returns its first line. -/
theorem arrows_body_cutChain :
    IsBody "a\n.b" ∧ (arrows ("var f = (x) => " ++ "a\n.b" ++ ";")).toOption =
        some "var f = function (x) \x7b return a; \x7d\n.b;".toList ∧
      arrows ("var f = (x) => " ++ "a\n.b" ++ ";") ≠
        .ok ("var f = function (x) \x7b return " ++ "a\n.b" ++ "; \x7d;") := by
  have hbody : IsBody "a\n.b" :=
    ⟨by decide, by decide, by decide, by decide, by decide, by decide, by decide +kernel, by decide,
      by decide⟩
  have hcut : (arrows ("var f = (x) => " ++ "a\n.b" ++ ";")).toOption =
      some "var f = function (x) \x7b return a; \x7d\n.b;".toList := by decide +kernel
  refine ⟨hbody, hcut, fun h => ?_⟩
  rw [h] at hcut
  revert hcut
  decide

end HostScript.Downlevel
