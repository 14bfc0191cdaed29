import HostScript.Body.Scope
import HostScript.Proofs.Pattern.Longer
import HostScript.Proofs.Pattern.Found
import HostScript.Proofs.Script.Collapse
import HostScript.Proofs.Script.Tame

/-!
# Idioms that find nothing

Most idioms look for a word or a mark. In a text without it an idiom finds nothing, and the text
stays as it is.
-/

namespace HostScript.Body

open Script Pattern

variable {ls phrases : List Text} {t u : Text}

/-- None of the phrases stands in a text. -/
def Lacks (phrases : List Text) (t : Text) : Prop := ∀ w ∈ phrases, ¬ w <:+: t

instance (phrases : List Text) (t : Text) : Decidable (Lacks phrases t) :=
  inferInstanceAs (Decidable (∀ _ ∈ _, _))

theorem Lacks.notMem {c : Char} (h : Lacks phrases t) (hc : [c] ∈ phrases) : c ∉ t :=
  fun hmem => h [c] hc ((List.singleton_infix_iff c t).mpr hmem)

theorem Lacks.mono {fewer : List Text} (h : Lacks phrases t) (hsub : fewer ⊆ phrases) :
    Lacks fewer t := fun w hw => h w (hsub hw)

/-- A phrase does not reach over a character that it does not hold. -/
theorem lacks_append_cons_iff {c : Char} (hphrases : ∀ w ∈ phrases, w ≠ [] ∧ c ∉ w) :
    Lacks phrases (t ++ c :: u) ↔ Lacks phrases t ∧ Lacks phrases u := by
  constructor
  · intro h
    exact ⟨fun w hw hin => h w hw (hin.trans (List.prefix_append _ _).isInfix),
      fun w hw hin => h w hw (hin.trans ((List.suffix_cons c u).trans
        (List.suffix_append _ _)).isInfix)⟩
  · rintro ⟨ht, hu⟩ w hw hin
    obtain ⟨hne, hc⟩ := hphrases w hw
    rcases List.infix_append_iff_ne_nil.mp hin with hin | hin | ⟨a, b, ha, hb, rfl, -, hpre⟩
    · exact ht w hw hin
    · rcases List.infix_cons_iff.mp hin with hpre | hin
      · obtain ⟨d, rest, rfl⟩ := List.exists_cons_of_ne_nil hne
        obtain ⟨rfl, -⟩ := List.cons_prefix_cons.mp hpre
        exact hc (List.mem_cons_self ..)
      · exact hu w hw hin
    · obtain ⟨d, rest, rfl⟩ := List.exists_cons_of_ne_nil hb
      obtain ⟨rfl, -⟩ := List.cons_prefix_cons.mp hpre
      exact hc (List.mem_append_right _ (List.mem_cons_self ..))

/-- A word stands in a text, not inside a longer one. -/
def HasWord (w t : Text) : Prop := w ∈ t.splitOnP (outside isWord)

instance (w t : Text) : Decidable (HasWord w t) := inferInstanceAs (Decidable (_ ∈ _))

theorem hasWord_append_cons_iff {w : Text} {c : Char} (hc : isWord c = false) :
    HasWord w (t ++ c :: u) ↔ HasWord w t ∨ HasWord w u := by
  have hsep : outside isWord c = true := by rw [outside, hc]; rfl
  rw [HasWord, List.splitOnP_append_cons t u hsep, List.mem_append]
  rfl

theorem not_hasWord_nil {w : Text} (hw : w ≠ []) : ¬ HasWord w [] := by
  rw [HasWord, List.splitOnP_nil, List.mem_singleton]
  exact hw

/-- Of words, a word has itself. -/
theorem hasWord_word_iff {w : Text} (ht : ∀ c ∈ t, isWord c = true) : HasWord w t ↔ w = t := by
  have hsingle : t.splitOnP (outside isWord) = [t] := by
    refine List.splitOnP_eq_singleton fun c hc => ?_
    rw [outside, ht c hc]
    rfl
  rw [HasWord, hsingle, List.mem_singleton]

theorem hasWord_self {w : Text} (hw : ∀ c ∈ w, isWord c = true) : HasWord w w :=
  (hasWord_word_iff hw).mpr rfl

section outside

variable {w : Text} (hw : w ≠ [])
include hw

theorem hasWord_cons_iff {c : Char} (hc : isWord c = false) : HasWord w (c :: t) ↔ HasWord w t := by
  exact (hasWord_append_cons_iff (t := []) hc).trans (or_iff_right (not_hasWord_nil hw))

/-- Characters outside words in front of a text add no word. -/
theorem hasWord_append_left_iff {x : Text} (hx : ∀ c ∈ x, isWord c = false) :
    HasWord w (x ++ t) ↔ HasWord w t := by
  induction x with
  | nil => exact Iff.rfl
  | cons c x ih =>
    rw [List.forall_mem_cons] at hx
    exact (hasWord_cons_iff hw hx.1).trans (ih hx.2)

/-- Texts with characters outside words between them have the words of both. -/
theorem hasWord_append_iff {x : Text} (hne : x ≠ []) (hx : ∀ c ∈ x, isWord c = false) :
    HasWord w (t ++ (x ++ u)) ↔ HasWord w t ∨ HasWord w u := by
  obtain ⟨c, x, rfl⟩ := List.exists_cons_of_ne_nil hne
  rw [List.forall_mem_cons] at hx
  exact (hasWord_append_cons_iff hx.1).trans (or_congr_right (hasWord_append_left_iff hw hx.2))

/-- Characters outside words behind a text add no word. -/
theorem hasWord_append_right_iff {x : Text} (hx : ∀ c ∈ x, isWord c = false) :
    HasWord w (t ++ x) ↔ HasWord w t := by
  rcases eq_or_ne x [] with rfl | hne
  · rw [List.append_nil]
  · have h := hasWord_append_iff (t := t) (u := []) hw hne hx
    rw [List.append_nil] at h
    exact h.trans (or_iff_left (not_hasWord_nil hw))

/-- Joined texts have the words of each. -/
theorem hasWord_join_iff {sep : Text} (hne : sep ≠ []) (hsep : ∀ c ∈ sep, isWord c = false)
    {ts : List Text} : HasWord w (Text.join sep ts) ↔ ∃ t ∈ ts, HasWord w t := by
  induction ts with
  | nil => simp [Text.join, not_hasWord_nil hw]
  | cons t ts ih =>
    rcases eq_or_ne ts [] with rfl | hts
    · simp [Text.join]
    · rw [Text.join_cons sep t hts, hasWord_append_iff hw hne hsep, ih]
      simp

/-- Texts that each end in such a character have the words of each. -/
theorem exists_hasWord_of_flatMap_end {c : Char} (hc : isWord c = false) {ts : List Text}
    (h : HasWord w (ts.flatMap (· ++ [c]))) : ∃ t ∈ ts, HasWord w t := by
  induction ts with
  | nil => exact absurd h (not_hasWord_nil hw)
  | cons t ts ih =>
    rw [List.flatMap_cons, List.append_assoc, List.singleton_append,
      hasWord_append_cons_iff hc] at h
    rcases h with h | h
    · exact ⟨t, List.mem_cons_self .., h⟩
    · obtain ⟨u, hu, hword⟩ := ih h
      exact ⟨u, List.mem_cons_of_mem t hu, hword⟩

/-- So do texts that each start with one. -/
theorem exists_hasWord_of_flatMap_start {c : Char} (hc : isWord c = false) {ts : List Text}
    (h : HasWord w (ts.flatMap (c :: ·))) : ∃ t ∈ ts, HasWord w t := by
  have hsplit (t : Text) (ts : List Text) (h : HasWord w (t ++ ts.flatMap (c :: ·))) :
      HasWord w t ∨ HasWord w (ts.flatMap (c :: ·)) := by
    cases ts with
    | nil => exact Or.inl (by simpa using h)
    | cons u ts =>
      rw [List.flatMap_cons, List.cons_append, hasWord_append_cons_iff hc] at h
      rw [List.flatMap_cons, List.cons_append, hasWord_cons_iff hw hc]
      exact h
  induction ts with
  | nil => exact absurd h (not_hasWord_nil hw)
  | cons t ts ih =>
    rw [List.flatMap_cons, List.cons_append, hasWord_cons_iff hw hc] at h
    rcases hsplit t ts h with h | h
    · exact ⟨t, List.mem_cons_self .., h⟩
    · obtain ⟨u, hu, hword⟩ := ih h
      exact ⟨u, List.mem_cons_of_mem t hu, hword⟩

end outside

/-- A word between texts that do not lengthen it stands in the text. -/
theorem hasWord_between {w : Text} (hw : ∀ c ∈ w, isWord c = true)
    (ht : t.getLast?.any isWord = false) (hu : u.head?.any isWord = false) :
    HasWord w (t ++ (w ++ u)) := by
  have hstart : HasWord w (w ++ u) := by
    cases u with
    | nil => simpa using hasWord_self hw
    | cons c u => exact (hasWord_append_cons_iff hu).mpr (Or.inl (hasWord_self hw))
  rcases List.eq_nil_or_concat' t with rfl | ⟨t, d, rfl⟩
  · exact hstart
  · have hd : isWord d = false := by simpa using ht
    rw [List.append_assoc]
    exact (hasWord_append_cons_iff hd).mpr (Or.inr hstart)

/-- White space does not end in a word. -/
theorem any_getLast?_of_isBlank {b : Text} (hb : ∀ c ∈ b, isBlank c = true) :
    b.getLast?.any isWord = false := by
  cases hlast : b.getLast? with
  | none => rfl
  | some c => exact isWord_of_isBlank (hb c (List.mem_of_getLast? hlast))

/-- A word between other characters stands in the text. -/
theorem hasWord_of_apart {w : Text} {c : Char} (hw : ∀ c ∈ w, isWord c = true)
    (ht : t.getLast?.any isWord = false) (hc : isWord c = false) (u : Text) :
    HasWord w (t ++ (w ++ c :: u)) := hasWord_between hw ht hc

/-- Steps that each leave a text as it is leave it so one after the other. -/
theorem foldl_eq_self {α : Type} {f : Text → α → Text} {steps : List α}
    (h : ∀ a ∈ steps, f t a = t) : steps.foldl f t = t := by
  induction steps with
  | nil => rfl
  | cons a steps ih =>
    rw [List.forall_mem_cons] at h
    rw [List.foldl_cons, h.1, ih h.2]

variable {scope : Scope}

/-- Whatever is hidden, a text without quotes and slashes is code throughout. -/
theorem mask_bare (o : MaskOptions) (h : ∀ c ∈ t, c ∉ ['\x22', '\x27', '\x60', '/']) :
    mask o t = ⟨t, []⟩ := by
  have hscan (inner : Text → Masked) (window : List Piece) :
      scanPieces o inner window 0 t = spelled t := by
    induction t generalizing window with
    | nil => rfl
    | cons c t ih =>
      rw [List.forall_mem_cons] at h
      have hhead : headPieces o inner window c t = ([.code c], 0) := by
        have hc := h.1
        simp only [List.mem_cons, List.not_mem_nil, or_false, not_or] at hc
        simp [headPieces, hc]
      rw [scanPieces, hhead]
      exact congrArg (Piece.code c :: ·) (ih h.2 _)
  rw [mask_eq, pieces, hscan, assemble_spelled, assemble_snd, spansOf_spelled]

/-- On such a text the step outside literals is the step itself. -/
theorem outsideLiterals_bare {o : MaskOptions} {f : Scope → Text → Outcome Text}
    (h : ∀ c ∈ t, c ∉ ['\x22', '\x27', '\x60', '/']) (hf : f scope t = .ok u) (hu : Unmarked u) :
    outsideLiterals o f scope t = .ok u := by
  rw [outsideLiterals, mask_bare o h]
  dsimp only
  rw [hf]
  exact Masked.restoreText_of_unmarked _ hu

/-- A step that changes no line changes nothing. -/
theorem perLine_eq {f : Scope → Text → Text} (h : ∀ line ∈ t.lines, f scope line = line) :
    perLine f scope t = t := by
  rw [perLine, List.map_congr_left h, List.map_id', Text.unlines_lines]

/-- The step that is left after an idiom. -/
theorem applyAll_cons {idiom : Idiom} {idioms : List Idiom} {body out : Text}
    (h : idiom.apply scope body = .ok out) :
    applyAll scope (idiom :: idioms) body = applyAll scope idioms out := by
  rw [applyAll, h]
  rfl

end HostScript.Body

/-!
## Patterns that ask for a word

Most idioms look for a certain word: a keyword, a function, a member of the library. Where such a
pattern fits, the text has one of its words, so it finds nothing in a text without them.
-/

namespace HostScript.Pattern

open Body Script

variable {ws : List Text} {p q r s : Pattern} {t w : Text} {a b : Char}

/-- Where the pattern fits, the text has one of the words. -/
def Asks (ws : List Text) (p : Pattern) : Prop :=
  ∀ ⦃k : Cursor → Option Cursor⦄ ⦃c e : Cursor⦄, p.run k c = some e →
    ∃ w ∈ ws, HasWord w (c.before.reverse ++ c.after)

section Absent

variable (hp : p.Asks ws) (h : ∀ w ∈ ws, ¬ HasWord w t)
include hp h

/-- Without the words the pattern fits nowhere. -/
theorem Asks.run_placeAt (i : Nat) (k : Cursor → Option Cursor) (e : Cursor) :
    p.run k (placeAt t i) ≠ some e := by
  intro hrun
  obtain ⟨w, hw, hword⟩ := hp hrun
  rw [placeAt, List.reverse_reverse, List.take_append_drop] at hword
  exact h w hw hword

theorem Asks.allIn_eq_nil : p.allIn t = [] := by
  rw [List.eq_nil_iff_forall_not_mem]
  intro m hm
  obtain ⟨-, -, -, k, e, hrun⟩ := (fitsFrom_allIn p t).of_mem hm
  exact hp.run_placeAt h _ k e hrun

theorem Asks.searchAt?_eq_none (pos : Nat) : p.searchAt? t pos = none := by
  rw [Option.eq_none_iff_forall_ne_some]
  intro m hm
  obtain ⟨u, -, -, -, -, -, -, -, -, -, k, e, hrun⟩ := of_searchAt?_eq_some hm
  exact hp.run_placeAt h _ k e hrun

theorem Asks.search?_eq_none : p.search? t = none := hp.searchAt?_eq_none h 0

theorem Asks.replace_eq (f : Match → Text) : p.replace f t = t :=
  replace_of_allIn_eq_nil (hp.allIn_eq_nil h) f

end Absent

theorem Asks.left (hp : p.Asks ws) (q : Pattern) : (p ++ q).Asks ws := fun _ _ _ h => hp h

theorem Asks.right (hq : q.Asks ws) (p : Pattern) : (p ++ q).Asks ws := by
  intro k c e h
  obtain ⟨x, gs, d, -, hpass, hd⟩ := covers_run p _ _ _ h
  obtain ⟨w, hw, hword⟩ := hq hd
  refine ⟨w, hw, ?_⟩
  rw [hpass.after]
  simpa [hpass.before] using hword

/-- A pattern that covers nothing and stands before a word character only where a word starts. -/
def Opens (s : Pattern) : Prop :=
  ∀ ⦃k : Cursor → Option Cursor⦄ ⦃c e : Cursor⦄, s.run k c = some e →
    k c = some e ∧ (c.after.head?.any isWord = true → c.before.head?.any isWord = false)

/-- A pattern that stands behind a word character only where a word ends. -/
def Closes (r : Pattern) : Prop :=
  ∀ ⦃k : Cursor → Option Cursor⦄ ⦃c e : Cursor⦄, r.run k c = some e →
    c.before.head?.any isWord = true → c.after.head?.any isWord = false

theorem opens_edge : edge.Opens := by
  intro k c e h
  obtain ⟨hedge, hk⟩ := Option.ite_none_right_eq_some.mp h
  refine ⟨hk, fun hafter => ?_⟩
  rw [Cursor.onEdge, hafter] at hedge
  simpa using hedge

theorem opens_fresh : fresh.Opens := by
  intro k c e h
  rw [fresh, run_notAfter] at h
  obtain ⟨hbefore, hk⟩ := Option.ite_none_left_eq_some.mp h
  refine ⟨hk, fun _ => ?_⟩
  cases hhead : c.before.head? with
  | none => rfl
  | some d =>
    rw [hhead] at hbefore
    have hd : (isWord d || among "$." d) = false := Bool.not_eq_true _ ▸ hbefore
    exact (Bool.or_eq_false_iff.mp hd).1

theorem Opens.append_behind (hs : s.Opens) (wanted : Bool) (width : Nat) (body : Pattern) :
    (s ++ .behind wanted width body).Opens := by
  intro k c e h
  obtain ⟨hrest, hstart⟩ := hs h
  exact ⟨(Option.ite_none_right_eq_some.mp hrest).2, hstart⟩

theorem Opens.behind_append (hs : s.Opens) (wanted : Bool) (width : Nat) (body : Pattern) :
    (.behind wanted width body ++ s).Opens :=
  fun _ _ _ h => hs (Option.ite_none_right_eq_some.mp h).2

theorem closes_edge : edge.Closes := by
  intro k c e h hbefore
  obtain ⟨hedge, -⟩ := Option.ite_none_right_eq_some.mp h
  rw [Cursor.onEdge, hbefore] at hedge
  simpa using hedge

theorem Closes.append (hr : r.Closes) (q : Pattern) : (r ++ q).Closes := fun _ _ _ h => hr h

theorem Closes.isAhead (hr : r.Closes) : (isAhead r).Closes := by
  intro k c e h
  rw [Pattern.isAhead, run] at h
  beta_reduce at h
  split at h
  · rename_i d hd
    exact hr hd
  · cases h

/-- What a pattern covers ends a word if it starts with another character. -/
theorem closes_of_spells
    (h : ∀ x gs, r.Spells x gs → ∃ d y, x = d :: y ∧ isWord d = false) : r.Closes := by
  intro k c e hrun _
  obtain ⟨x, gs, d, hx, hpass, -⟩ := covers_run r _ _ _ hrun
  obtain ⟨a, y, rfl, ha⟩ := h x gs hx
  rw [hpass.after]
  exact ha

theorem closes_lit {n : String} {rest : Text} (hn : n.toList = a :: rest)
    (ha : isWord a = false) : (lit n).Closes :=
  closes_of_spells fun _ _ hx => ⟨a, rest, (spells_lit_iff.mp hx).1.trans hn, ha⟩

/-- White space may stand in between. -/
theorem closes_blanks_lit {n : String} {rest : Text} (hn : n.toList = a :: rest)
    (ha : isWord a = false) : (blanks ++ lit n).Closes := by
  refine closes_of_spells fun x gs hx => ?_
  obtain ⟨y, z, gs₁, gs₂, rfl, -, hy, hz⟩ := spells_append_iff.mp hx
  obtain ⟨hblank, -⟩ := of_spells_blanks hy
  rw [(spells_lit_iff.mp hz).1, hn]
  cases y with
  | nil => exact ⟨a, rest, rfl, ha⟩
  | cons d y => exact ⟨d, _, rfl, isWord_of_isBlank (hblank d (List.mem_cons_self ..))⟩

/-- A text of word characters, at least one. -/
def IsWordText (w : Text) : Prop := w ≠ [] ∧ ∀ c ∈ w, isWord c = true

instance (w : Text) : Decidable (IsWordText w) := inferInstanceAs (Decidable (_ ∧ _))

theorem IsWordText.any_head? (hw : IsWordText w) (t : Text) :
    (w ++ t).head?.any isWord = true := by
  obtain ⟨hne, hall⟩ := hw
  obtain ⟨c, w, rfl⟩ := List.exists_cons_of_ne_nil hne
  exact hall c (List.mem_cons_self ..)

theorem IsWordText.any_head?_reverse (hw : IsWordText w) (t : Text) :
    (w.reverse ++ t).head?.any isWord = true :=
  IsWordText.any_head? ⟨by simpa using hw.1, fun c hc => hw.2 c (List.mem_reverse.mp hc)⟩ t

theorem any_getLast?_reverse (s : CharSet) (t : Text) :
    t.reverse.getLast?.any s = t.head?.any s := by
  rw [List.getLast?_reverse]

/-- One of some words, bounded on both sides. -/
theorem asks_word (hs : s.Opens) (hq : ∀ x gs, q.Spells x gs → x ∈ ws)
    (hws : ∀ w ∈ ws, IsWordText w) (hr : r.Closes) : (s ++ q ++ r).Asks ws := by
  intro k c e h
  obtain ⟨hrun, hstart⟩ := hs h
  obtain ⟨x, gs, d, hx, hpass, hd⟩ := covers_run q _ _ _ hrun
  have hword := hws x (hq x gs hx)
  have hbefore : c.before.head?.any isWord = false := hstart (hpass.after ▸ hword.any_head? _)
  have hafter := hr hd (hpass.before ▸ hword.any_head?_reverse _)
  refine ⟨x, hq x gs hx, ?_⟩
  rw [hpass.after]
  exact hasWord_between hword.2 ((any_getLast?_reverse ..).trans hbefore) hafter

/-- A text that starts with a word, bounded at its start. -/
theorem asks_start {n : String} {rest : Text} (hs : s.Opens)
    (hn : n.toList = w ++ a :: rest) (hw : IsWordText w) (ha : isWord a = false) :
    (s ++ lit n).Asks [w] := by
  intro k c e h
  obtain ⟨hrun, hstart⟩ := hs h
  obtain ⟨x, gs, d, hx, hpass, -⟩ := covers_run _ _ _ _ hrun
  obtain rfl : x = w ++ a :: rest := (spells_lit_iff.mp hx).1.trans hn
  have hafter : c.after = w ++ a :: (rest ++ d.after) := by rw [hpass.after]; simp
  have hbefore := hstart (hafter ▸ hw.any_head? _)
  refine ⟨w, List.mem_singleton_self w, ?_⟩
  rw [hafter]
  exact hasWord_between hw.2 ((any_getLast?_reverse ..).trans hbefore) ha

/-- A text that ends with a word, bounded at its end. -/
theorem asks_end {n : String} (hn : n.toList = a :: w) (ha : isWord a = false)
    (hw : IsWordText w) (hr : r.Closes) : (lit n ++ r).Asks [w] := by
  intro k c e h
  obtain ⟨x, gs, d, hx, hpass, hd⟩ := covers_run (lit n) _ _ _ h
  obtain rfl : x = a :: w := (spells_lit_iff.mp hx).1.trans hn
  have hbefore : d.before = w.reverse ++ (a :: c.before) := by rw [hpass.before]; simp
  have hafter := hr hd (hbefore ▸ hw.any_head?_reverse _)
  refine ⟨w, List.mem_singleton_self w, ?_⟩
  have hsplit : c.before.reverse ++ c.after = (c.before.reverse ++ [a]) ++ (w ++ d.after) := by
    rw [hpass.after]
    simp
  rw [hsplit]
  exact hasWord_between hw.2 (by simpa using ha) hafter

/-- A text with a word inside. -/
theorem asks_inside {n : String} {rest : Text} (hn : n.toList = a :: (w ++ b :: rest))
    (ha : isWord a = false) (hw : IsWordText w) (hb : isWord b = false) : (lit n).Asks [w] := by
  intro k c e h
  obtain ⟨x, gs, d, hx, hpass, -⟩ := covers_run _ _ _ _ h
  obtain rfl : x = a :: (w ++ b :: rest) := (spells_lit_iff.mp hx).1.trans hn
  refine ⟨w, List.mem_singleton_self w, ?_⟩
  have hsplit : c.before.reverse ++ c.after =
      (c.before.reverse ++ [a]) ++ (w ++ b :: (rest ++ d.after)) := by
    rw [hpass.after]
    simp
  rw [hsplit]
  exact hasWord_between hw.2 (by simpa using ha) hb

end HostScript.Pattern
