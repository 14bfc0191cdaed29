import HostScript.Optimize
import HostScript.Proofs.Pattern.Ways
import HostScript.Proofs.Script.Collapse
import HostScript.Proofs.Script.FreeName
import Mathlib.Data.List.TakeWhile

/-!
# Jumps, and what keeps the statements behind them alive

The ends of statements and the bounds of blocks divide a text into stretches. A jump takes a whole
stretch: whether there is one can be read off the start of a statement and what ends it. What keeps
the statements behind a jump alive stands within one stretch too.
-/

namespace HostScript.Optimize

open Pattern Script

/-- The characters that end a statement or bound a block. -/
def isStop : CharSet := among ";\x7b\x7d"

/-- The words that jumps start with. -/
def jumpWords : List Text := ["return", "throw", "break", "continue"]

/-! ## Jumps -/

/-- How far a jump goes on behind its word. -/
def jumpTail (rest : Text) : Option Nat :=
  if startsIn isWord rest then none
  else if rest[(rest.takeWhile (outside isStop)).length]? = some ';' then
    some ((rest.takeWhile (outside isStop)).length + 1)
  else none

/-- How far a jump goes from its word on. -/
def jumpFrom (after : Text) : Option Nat :=
  jumpWords.findSome? fun w =>
    if w.isPrefixOf after then (jumpTail (after.drop w.length)).map (w.length + ·) else none

/-- How far a jump goes that stands at no name and behind no dot. -/
def jumpFit : PlainFit := fun prev after =>
  if prev.any (isWord ||| among "$.") then none else jumpFrom after

theorem isWord_of_mem_jumpWords {w : Text} (hw : w ∈ jumpWords) :
    w ≠ [] ∧ ∀ c ∈ w, isWord c = true ∧ isStop c = false ∧ isBlank c = false := by
  have hall : ∀ v ∈ jumpWords, v ≠ [] ∧
      v.all (fun c => isWord c && !isStop c && !isBlank c) = true := by decide
  refine ⟨(hall w hw).1, fun c hc => ?_⟩
  simpa [and_assoc] using List.all_eq_true.mp (hall w hw).2 c hc

/-- Behind a word, the rest of a jump goes on up to the end of the statement. -/
theorem run_jumpTail {c : Cursor} (hc : c.before.head?.any isWord = true) :
    (edge ++ (noneOf (among ";\x7b\x7d")).star ++ lit ";").run some c =
      (jumpTail c.after).map c.advance := by
  have hstop : lit ";" = Pattern.text [';'] := rfl
  have hset : noneOf (among ";\x7b\x7d") = Pattern.one (outside isStop) := rfl
  rw [run_seq, run_seq, hstop, hset, jumpTail, startsIn]
  have hedge (k : Cursor → Option Cursor) : edge.run k c = if c.onEdge then k c else none := rfl
  rw [hedge, Cursor.onEdge, hc]
  cases hword : c.after.head?.any isWord with
  | true => rfl
  | false =>
    simp only [Bool.true_bne, Bool.not_false, if_true, Bool.false_eq_true, if_false]
    have hnext (n : Nat) : (Pattern.text [';']).run some (c.advance n) =
        if c.after[n]? = some ';' then some (c.advance (n + 1)) else none := by
      have hbeq : [';'].isPrefixOf (c.after.drop n) = true ↔ c.after[n]? = some ';' := by
        rw [List.isPrefixOf_iff_prefix, ← List.head?_drop]
        constructor
        · rintro ⟨rest, hrest⟩
          rw [← hrest]
          rfl
        · intro h
          obtain ⟨rest, hrest⟩ := List.head?_eq_some_iff.mp h
          exact ⟨rest, hrest.symm⟩
      rw [run_text, Cursor.advance_advance]
      simp only [Cursor.advance, hbeq]
      rfl
    rw [run_star_one, hnext]
    · split <;> rfl
    · intro j hj
      rw [hnext, if_neg]
      intro hsemi
      obtain ⟨hj', hget⟩ := List.getElem?_eq_some_iff.mp hsemi
      have hmem : ';' ∈ c.after.takeWhile (outside isStop) := by
        rw [← hget, ← (List.takeWhile_prefix (outside isStop)).getElem hj]
        exact List.getElem_mem hj
      exact absurd (List.mem_takeWhile_imp hmem) (by decide)

/-- Functions that agree on the members of a list find the same there. -/
theorem findSome?_congr {α β : Type} {l : List α} {f g : α → Option β} (h : ∀ a ∈ l, f a = g a) :
    l.findSome? f = l.findSome? g := by
  induction l with
  | nil => rfl
  | cons a l ih =>
    rw [List.forall_mem_cons] at h
    rw [List.findSome?_cons, List.findSome?_cons, h.1, ih h.2]

/-- A jump takes at least its word and no more than there is. -/
theorem jumpFit_bounds {prev : Option Char} {after : Text} {n : Nat}
    (h : jumpFit prev after = some n) : 0 < n ∧ n ≤ after.length := by
  rw [jumpFit] at h
  split at h
  · cases h
  · obtain ⟨w, hw, hn⟩ := List.exists_of_findSome?_eq_some h
    split at hn
    case isFalse => cases hn
    case isTrue hp =>
      obtain ⟨rest, rfl⟩ := List.isPrefixOf_iff_prefix.mp hp
      rw [List.drop_left] at hn
      obtain ⟨m, hm, rfl⟩ := Option.map_eq_some_iff.mp hn
      rw [jumpTail] at hm
      split at hm
      · cases hm
      · split at hm
        case isFalse => cases hm
        case isTrue hsemi =>
          obtain rfl := Option.some.inj hm
          obtain ⟨hlt, -⟩ := List.getElem?_eq_some_iff.mp hsemi
          have hne := List.length_pos_iff.mpr (isWord_of_mem_jumpWords hw).1
          rw [List.length_append]
          omega

theorem jump_isPlain : jump.IsPlain jumpFit where
  run_eq c := by
    have hsplit : jump.run some c =
        Pattern.fresh.run ((choice ["return", "throw", "break", "continue"]).run
          ((edge ++ (noneOf (among ";\x7b\x7d")).star ++ lit ";").run some)) c := rfl
    rw [hsplit, Pattern.fresh, run_notAfter, jumpFit]
    cases c.before.head?.any (isWord ||| among "$.") with
    | true => rfl
    | false =>
      have hword {w : Text} (hw : w ∈ jumpWords) (hp : w.isPrefixOf c.after = true) :
          (c.advance w.length).before.head?.any isWord = true := by
        obtain ⟨hne, hall⟩ := isWord_of_mem_jumpWords hw
        obtain ⟨rest, hrest⟩ := List.isPrefixOf_iff_prefix.mp hp
        simp only [Cursor.advance, ← hrest, List.take_left, List.head?_append, List.head?_reverse,
          List.getLast?_eq_getLast_of_ne_nil hne, Option.some_or, Option.any_some]
        exact (hall _ (List.getLast_mem hne)).1
      simp only [Bool.false_eq_true, if_false, run_choice (List.cons_ne_nil _ _), jumpFrom,
        List.map_findSome?]
      have hwords : jumpWords =
          (["return", "throw", "break", "continue"] : List String).map String.toList := rfl
      rw [hwords, List.findSome?_map]
      refine findSome?_congr fun w hw => ?_
      have hw : w.toList ∈ jumpWords := by
        rw [hwords]
        exact List.mem_map_of_mem hw
      simp only [Function.comp_apply]
      split
      case isTrue hp =>
        have hadvance := c.advance_advance w.toList.length
        rw [run_jumpTail (hword hw hp), Option.map_map, Function.comp_def]
        simp only [← hadvance]
        rfl
      case isFalse => rfl
  pos := by
    intro prev after n h
    exact (jumpFit_bounds h).1
  le := by
    intro prev after n h
    exact (jumpFit_bounds h).2

/-- The characters that end statements and bound blocks. -/
theorem isStop_iff {c : Char} : isStop c = true ↔ c = ';' ∨ c = '\x7b' ∨ c = '\x7d' := by
  simp [isStop, among]

/-- They are neither white space nor part of a word. -/
theorem of_isStop {c : Char} (hc : isStop c = true) :
    isWord c = false ∧ isIdentPart c = false ∧ isBlank c = false ∧ c ≠ ':' ∧
      (isWord ||| among "$.") c = false := by
  rcases isStop_iff.mp hc with rfl | rfl | rfl <;> decide

/-- Whether a statement starts with a word that jumps. -/
def leadsJump (s : Text) : Bool :=
  jumpWords.any fun w => w.isPrefixOf s && !startsIn isWord (s.drop w.length)

variable {s t x y z : Text} {c : Char}

/-- A text without a character starts where a text starts that goes on with the character. -/
theorem prefix_append_cons_iff {w : Text} (hc : c ∉ w) : w <+: s ++ c :: z ↔ w <+: s := by
  constructor
  · intro h
    rcases List.prefix_or_prefix_of_prefix h (List.prefix_append s (c :: z)) with hw | ⟨r, rfl⟩
    · exact hw
    · rw [List.prefix_append_right_inj] at h
      cases r with
      | nil => rw [List.append_nil]
      | cons d r =>
        obtain ⟨rfl, -⟩ := List.cons_prefix_cons.mp h
        exact absurd (List.mem_append_right s List.mem_cons_self) hc
  · exact fun h => h.trans (List.prefix_append s _)

/-- A jump that starts at a place takes the rest of its statement, and there is one if the rest of
the statement starts with a jumping word and ends in a semicolon. -/
theorem jumpFrom_append (hs : ∀ a ∈ s, isStop a = false) (hc : isStop c = true) (z : Text) :
    jumpFrom (s ++ c :: z) =
      if c = ';' ∧ leadsJump s = true then some (s.length + 1) else none := by
  have htail {r : Text} (hr : ∀ a ∈ r, isStop a = false) : jumpTail (r ++ c :: z) =
      if startsIn isWord r = false ∧ c = ';' then some (r.length + 1) else none := by
    have htake : (r ++ c :: z).takeWhile (outside isStop) = r := by
      rw [List.takeWhile_append_of_pos (by simpa [outside] using hr),
        List.takeWhile_cons_of_neg (by simp [outside, hc]), List.append_nil]
    have hword : startsIn isWord (r ++ c :: z) = startsIn isWord r := by
      cases r with
      | nil => exact (of_isStop hc).1
      | cons a r => rfl
    rw [jumpTail, htake, hword, List.getElem?_append_right le_rfl, Nat.sub_self]
    cases startsIn isWord r <;> simp
  have hfound : jumpFrom (s ++ c :: z) = jumpWords.findSome? fun w =>
      if c = ';' ∧ (w.isPrefixOf s && !startsIn isWord (s.drop w.length)) = true
      then some (s.length + 1) else none := by
    refine findSome?_congr fun w hw => ?_
    have hcw : c ∉ w := fun hmem => by
      have := ((isWord_of_mem_jumpWords hw).2 c hmem).2.1
      rw [hc] at this
      cases this
    by_cases hp : w <+: s
    · obtain ⟨r, rfl⟩ := hp
      rw [List.append_assoc, List.drop_left, List.drop_left,
        htail fun a ha => hs a (List.mem_append_right w ha)]
      have hleft : w.isPrefixOf (w ++ (r ++ c :: z)) = true := by simp
      have hleft' : w.isPrefixOf (w ++ r) = true := by simp
      rw [hleft, hleft']
      cases startsIn isWord r
      · by_cases hsemi : c = ';' <;> simp [hsemi, Nat.add_assoc]
      · simp
    · have hshort : w.isPrefixOf s = false :=
        Bool.eq_false_iff.mpr (mt List.isPrefixOf_iff_prefix.mp hp)
      have hlong : w.isPrefixOf (s ++ c :: z) = false := by
        rw [Bool.eq_false_iff, ne_eq, List.isPrefixOf_iff_prefix, prefix_append_cons_iff hcw]
        exact hp
      simp [hshort, hlong]
  rw [hfound, leadsJump]
  induction jumpWords with
  | nil => simp
  | cons w ws ih =>
    rw [List.findSome?_cons, ih, List.any_cons]
    by_cases hsemi : c = ';'
    · cases w.isPrefixOf s && !startsIn isWord (s.drop w.length) <;> simp [hsemi]
    · simp [hsemi]

/-- No jump starts at white space. -/
theorem jumpFrom_blank (hc : isBlank c = true) (z : Text) : jumpFrom (c :: z) = none := by
  rw [jumpFrom, List.findSome?_eq_none_iff]
  intro w hw
  obtain ⟨hne, hall⟩ := isWord_of_mem_jumpWords hw
  rw [if_neg]
  intro hp
  obtain ⟨a, w, rfl⟩ := List.exists_cons_of_ne_nil hne
  obtain ⟨rfl, -⟩ := List.cons_prefix_cons.mp (List.isPrefixOf_iff_prefix.mp hp)
  have := (hall a List.mem_cons_self).2.2
  rw [hc] at this
  cases this

/-- Where no statement ends there is no jump. -/
theorem jumpFrom_of_endless (hs : ∀ a ∈ s, isStop a = false) : jumpFrom s = none := by
  have hsemi : ';' ∉ s := fun h => by
    have := hs _ h
    revert this
    decide
  rw [jumpFrom, List.findSome?_eq_none_iff]
  intro w hw
  split
  · rw [jumpTail]
    split
    · rfl
    · rw [if_neg, Option.map_none]
      intro h
      exact hsemi (List.mem_of_mem_drop (List.mem_of_getElem? h))
  · rfl

/-! ## What keeps the rest of a block alive -/

/-- The words that keep the rest of a block alive. -/
def keptWords : List Text := ["case", "default", "function", "var"]

/-- A text that holds one of the words. -/
def HoldsWord (t : Text) : Prop :=
  ∃ w ∈ keptWords, ∃ x y, t = x ++ (w ++ y) ∧ endsIn isWord x = false ∧ startsIn isWord y = false

/-- A text that starts with a label, behind white space. -/
def StartsLabel (t : Text) : Prop :=
  ∃ b a n b' y, t = b ++ (a :: (n ++ (b' ++ ':' :: y))) ∧ (∀ d ∈ b, isBlank d = true) ∧
    isIdentStart a = true ∧ (∀ d ∈ n, isIdentPart d = true) ∧ (∀ d ∈ b', isBlank d = true) ∧
      startsIn (· == ':') y = false

/-- A text that holds a label, at its start or at the start of a statement. -/
def HoldsLabel (t : Text) : Prop :=
  StartsLabel t ∨ ∃ x c y, t = x ++ c :: y ∧ isStop c = true ∧ StartsLabel y

/-- An edge lies where exactly one side belongs to a word. -/
theorem onEdge_eq (x y : Text) (pos : Nat) (groups : List (Nat × Capture)) :
    Cursor.onEdge ⟨x.reverse, y, pos, groups⟩ = (endsIn isWord x != startsIn isWord y) := by
  rw [Cursor.onEdge, List.head?_reverse]
  rfl

/-- The words are found where they stand on their own. -/
theorem isSome_run_keptWord_iff (x y : Text) (pos : Nat) :
    ((edge ++ choice ["case", "default", "function", "var"] ++ edge).run some
        ⟨x.reverse, y, pos, []⟩).isSome = true ↔
      ∃ w ∈ keptWords, ∃ z, y = w ++ z ∧ endsIn isWord x = false ∧ startsIn isWord z = false := by
  have hwords : keptWords =
      (["case", "default", "function", "var"] : List String).map String.toList := rfl
  have hall : ∀ w ∈ keptWords, w ≠ [] ∧ w.all isWord = true := by decide
  rw [run_seq, run_seq, isSome_run_edge_iff, isSome_run_choice_iff (by simp), hwords]
  simp only [isSome_run_edge_iff, Option.isSome_some, and_true, List.mem_map,
    exists_exists_and_eq_and]
  rw [← exists_and_left]
  refine exists_congr fun w => ?_
  rw [← and_left_comm]
  refine and_congr_right fun hw => ?_
  have hmem : w.toList ∈ keptWords := hwords ▸ List.mem_map_of_mem hw
  obtain ⟨hne, hword⟩ := hall _ hmem
  have hedges (z : Text) :
      (Cursor.onEdge ⟨x.reverse, w.toList ++ z, pos, []⟩ = true ↔ endsIn isWord x = false) ∧
      (Cursor.onEdge (Cursor.advance ⟨x.reverse, w.toList ++ z, pos, []⟩ w.toList.length) = true ↔
        startsIn isWord z = false) := by
    have hfirst : startsIn isWord (w.toList ++ z) = true := by
      rw [startsIn_append _ hne]
      exact List.all_eq_true.mp hword _ (List.head_mem hne)
    have hlast : endsIn isWord (x ++ w.toList) = true := by
      rw [endsIn_append _ hne, endsIn_eq _ hne]
      exact List.all_eq_true.mp hword _ (List.getLast_mem hne)
    have hmoved : Cursor.advance ⟨x.reverse, w.toList ++ z, pos, []⟩ w.toList.length =
        ⟨(x ++ w.toList).reverse, z, pos + w.toList.length, []⟩ := by
      simp [Cursor.advance]
    rw [hmoved, onEdge_eq, onEdge_eq, hfirst, hlast]
    simp
  constructor
  · rintro ⟨hedge, ⟨z, rfl⟩, hedge'⟩
    exact ⟨z, rfl, (hedges z).1.mp hedge, (hedges z).2.mp hedge'⟩
  · rintro ⟨z, rfl, hx, hz⟩
    exact ⟨(hedges z).1.mpr hx, List.prefix_append _ z, (hedges z).2.mpr hz⟩

/-- What stands ahead behind a text is what is left of the text ahead. -/
theorem after_advance {c : Cursor} {x y : Text} (h : c.after = x ++ y) :
    (c.advance x.length).after = y := by
  simp [Cursor.advance, h]

/-- A label is found where it stands. -/
theorem isSome_run_label_iff (c : Cursor) :
    ((blanks ++ ident ++ blanks ++ ":" ++ notAhead (lit ":")).run some c).isSome = true ↔
      StartsLabel c.after := by
  have hcolon : lit ":" = Pattern.one (· == ':') := rfl
  have hblanks : blanks = Pattern.star (Pattern.one isBlank) := rfl
  have hident : ident = Pattern.one isIdentStart ++ Pattern.star (Pattern.one isIdentPart) := rfl
  simp only [hident, hblanks, hcolon, run_seq, isSome_run_star_one_iff, isSome_run_one_iff,
    run_notAhead_one]
  constructor
  · rintro ⟨b, ⟨r, hr⟩, hb, a, r', hr', ha, n, ⟨r'', hr''⟩, hn, b', ⟨r₃, hr₃⟩, hb', d, y, hy, hd,
      hahead⟩
    have hstart : r = a :: r' := (after_advance hr.symm).symm.trans hr'
    have hname : r' = n ++ r'' := (after_advance (x := [a]) hr').symm.trans hr''.symm
    have hgap : r'' = b' ++ r₃ := (after_advance hr''.symm).symm.trans hr₃.symm
    have hmark : r₃ = d :: y := (after_advance hr₃.symm).symm.trans hy
    have hbehind := after_advance (x := [d]) hy
    rw [List.length_singleton] at hbehind
    rw [hbehind] at hahead
    obtain rfl := beq_iff_eq.mp hd
    refine ⟨b, a, n, b', y, ?_, hb, ha, hn, hb', ?_⟩
    · rw [← hr, hstart, hname, hgap, hmark]
    · rw [startsIn, ← Bool.not_eq_true]
      intro hy
      rw [if_pos hy] at hahead
      cases hahead
  · rintro ⟨b, a, n, b', y, hafter, hb, ha, hn, hb', hy⟩
    have hstart := after_advance hafter
    have hname := after_advance (x := [a]) hstart
    have hgap := after_advance hname
    have hmark := after_advance hgap
    have hbehind := after_advance (x := [':']) hmark
    refine ⟨b, ⟨_, hafter.symm⟩, hb, a, _, hstart, ha, n, ⟨_, hname.symm⟩, hn, b', ⟨_, hgap.symm⟩, hb',
      ':', y, hmark, rfl, ?_⟩
    simp only [List.length_singleton] at hbehind
    rw [hbehind, ← startsIn, hy]
    rfl

/-- What keeps the rest of a block alive is one of the words, or a label. -/
theorem occursIn_keptAlive_iff (t : Text) :
    keptAlive.occursIn t = true ↔ HoldsWord t ∨ HoldsLabel t := by
  have hsplit (c : Cursor) : (keptAlive.run some c).isSome = true ↔
      ((edge ++ choice ["case", "default", "function", "var"] ++ edge).run some c).isSome = true ∨
        ((textStart <|> oneOf isStop).run
          ((blanks ++ ident ++ blanks ++ ":" ++ notAhead (lit ":")).run some) c).isSome = true :=
    isSome_run_orElse_iff
  have hstart (k : Cursor → Option Cursor) (c : Cursor) :
      (textStart.run k c).isSome = true ↔ c.before = [] ∧ (k c).isSome = true := by
    have hrun : textStart.run k c = if c.before.isEmpty then k c else none := rfl
    rw [hrun, ← List.isEmpty_iff]
    cases c.before.isEmpty <;> simp
  have hone : oneOf isStop = Pattern.one isStop := rfl
  rw [occursIn_iff_run]
  simp only [hsplit, isSome_run_keptWord_iff, isSome_run_orElse_iff, hstart, hone,
    isSome_run_one_iff, isSome_run_label_iff, List.reverse_eq_nil_iff]
  constructor
  · rintro ⟨x, y, rfl, ⟨w, hw, z, rfl, hx, hz⟩ | ⟨rfl, hy⟩ | ⟨c, z, rfl, hc, hz⟩⟩
    · exact Or.inl ⟨w, hw, x, z, rfl, hx, hz⟩
    · exact Or.inr (Or.inl hy)
    · exact Or.inr (Or.inr ⟨x, c, z, rfl, hc, hz⟩)
  · rintro (⟨w, hw, x, z, rfl, hx, hz⟩ | ht | ⟨x, c, z, rfl, hc, hz⟩)
    · exact ⟨x, _, rfl, Or.inl ⟨w, hw, z, rfl, hx, hz⟩⟩
    · exact ⟨[], t, rfl, Or.inr (Or.inl ⟨rfl, ht⟩)⟩
    · exact ⟨x, _, rfl, Or.inr (Or.inr ⟨c, z, rfl, hc, hz⟩)⟩

/-- A part of a text that lacks one of its characters lies before the character or behind it. -/
theorem append_cons_eq_append {m : Text} (hm : c ∉ m) (h : x ++ c :: y = s ++ (m ++ z)) :
    (∃ z', x = s ++ (m ++ z') ∧ z = z' ++ c :: y) ∨ ∃ s', y = s' ++ (m ++ z) ∧ s = x ++ c :: s' := by
  rcases List.append_eq_append_iff.mp h with ⟨s', rfl, hs'⟩ | ⟨z', rfl, hz'⟩
  · cases s' with
    | cons d s' =>
      obtain ⟨rfl, rfl⟩ := List.cons.inj hs'
      exact Or.inr ⟨s', rfl, rfl⟩
    | nil =>
      cases m with
      | nil => exact Or.inl ⟨[], by simp, hs'.symm⟩
      | cons d m =>
        obtain ⟨rfl, -⟩ := List.cons.inj hs'
        exact absurd List.mem_cons_self hm
  · rcases List.append_eq_append_iff.mp hz' with ⟨w, rfl, rfl⟩ | ⟨w, rfl, hw⟩
    · exact Or.inl ⟨w, rfl, rfl⟩
    · cases w with
      | nil => exact Or.inl ⟨[], by simp, hw.symm⟩
      | cons d w =>
        obtain ⟨rfl, -⟩ := List.cons.inj hw
        exact absurd (List.mem_append_right z' List.mem_cons_self) hm

/-- The end of a statement divides the words of a text. -/
theorem holdsWord_append_cons_iff (hc : isStop c = true) (x y : Text) :
    HoldsWord (x ++ c :: y) ↔ HoldsWord x ∨ HoldsWord y := by
  have hword := (of_isStop hc).1
  have hend (u : Text) : endsIn isWord (x ++ c :: u) = endsIn isWord u := by
    rw [endsIn_append _ (List.cons_ne_nil c u)]
    rcases List.eq_nil_or_concat' u with rfl | ⟨u, d, rfl⟩
    · exact hword
    · rw [← List.cons_append, endsIn_append _ (List.cons_ne_nil d []),
        endsIn_append _ (List.cons_ne_nil d [])]
  have hstart (u : Text) : startsIn isWord (u ++ c :: y) = startsIn isWord u := by
    cases u with
    | nil => exact hword
    | cons d u => rfl
  have hall : ∀ w ∈ keptWords, w.all isWord = true := by decide
  constructor
  · rintro ⟨w, hw, u, v, h, hu, hv⟩
    have hcw : c ∉ w := fun hmem => by
      rw [List.all_eq_true.mp (hall w hw) c hmem] at hword
      cases hword
    rcases append_cons_eq_append hcw h with ⟨v', rfl, rfl⟩ | ⟨u', rfl, rfl⟩
    · rw [hstart] at hv
      exact Or.inl ⟨w, hw, u, v', rfl, hu, hv⟩
    · rw [hend] at hu
      exact Or.inr ⟨w, hw, u', v, rfl, hu, hv⟩
  · rintro (⟨w, hw, u, v, rfl, hu, hv⟩ | ⟨w, hw, u, v, rfl, hu, hv⟩)
    · exact ⟨w, hw, u, v ++ c :: y, by simp, hu, by rwa [hstart]⟩
    · exact ⟨w, hw, x ++ c :: u, v, by simp, by rwa [hend], hv⟩

/-- A label does not reach behind the end of a statement. -/
theorem startsLabel_append_cons_iff (hc : isStop c = true) (x y : Text) :
    StartsLabel (x ++ c :: y) ↔ StartsLabel x := by
  obtain ⟨-, hident, hblank, hcolon, -⟩ := of_isStop hc
  have hstart (u : Text) : startsIn (· == ':') (u ++ c :: y) = startsIn (· == ':') u := by
    cases u with
    | nil => exact beq_eq_false_iff_ne.mpr hcolon
    | cons d u => rfl
  constructor
  · rintro ⟨b, a, n, b', v, h, hb, ha, hn, hb', hv⟩
    have hm : c ∉ b ++ a :: (n ++ (b' ++ [':'])) := by
      simp only [List.mem_append, List.mem_cons, List.not_mem_nil, or_false, not_or]
      refine ⟨fun hmem => ?_, ?_, fun hmem => ?_, fun hmem => ?_, hcolon⟩
      · rw [hb c hmem] at hblank
        cases hblank
      · rintro rfl
        rw [isIdentPart_of_isIdentStart ha] at hident
        cases hident
      · rw [hn c hmem] at hident
        cases hident
      · rw [hb' c hmem] at hblank
        cases hblank
    have h' : x ++ c :: y = [] ++ ((b ++ a :: (n ++ (b' ++ [':']))) ++ v) := by
      rw [h]
      simp
    rcases append_cons_eq_append hm h' with ⟨v', rfl, rfl⟩ | ⟨u, -, hu⟩
    · rw [hstart] at hv
      exact ⟨b, a, n, b', v', by simp, hb, ha, hn, hb', hv⟩
    · simp at hu
  · rintro ⟨b, a, n, b', v, rfl, hb, ha, hn, hb', hv⟩
    exact ⟨b, a, n, b', v ++ c :: y, by simp, hb, ha, hn, hb', by rwa [hstart]⟩

/-- The end of a statement divides the labels of a text. -/
theorem holdsLabel_append_cons_iff (hc : isStop c = true) (x y : Text) :
    HoldsLabel (x ++ c :: y) ↔ HoldsLabel x ∨ HoldsLabel y := by
  constructor
  · rintro (h | ⟨u, d, v, h, hd, hv⟩)
    · exact Or.inl (Or.inl ((startsLabel_append_cons_iff hc x y).mp h))
    · rcases List.append_eq_append_iff.mp h with ⟨s', rfl, hs'⟩ | ⟨z', rfl, hz'⟩
      · cases s' with
        | nil =>
          obtain ⟨rfl, rfl⟩ := List.cons.inj hs'
          exact Or.inr (Or.inl hv)
        | cons e s' =>
          obtain ⟨rfl, rfl⟩ := List.cons.inj hs'
          exact Or.inr (Or.inr ⟨s', d, v, rfl, hd, hv⟩)
      · cases z' with
        | nil =>
          obtain ⟨rfl, rfl⟩ := List.cons.inj hz'
          exact Or.inr (Or.inl hv)
        | cons e z' =>
          obtain ⟨rfl, rfl⟩ := List.cons.inj hz'
          exact Or.inl (Or.inr ⟨u, d, z', rfl, hd, (startsLabel_append_cons_iff hc z' y).mp hv⟩)
  · rintro ((h | ⟨u, d, v, rfl, hd, hv⟩) | h | ⟨u, d, v, rfl, hd, hv⟩)
    · exact Or.inl ((startsLabel_append_cons_iff hc x y).mpr h)
    · exact Or.inr ⟨u, d, v ++ c :: y, by simp, hd, (startsLabel_append_cons_iff hc v y).mpr hv⟩
    · exact Or.inr ⟨x, c, y, rfl, hc, h⟩
    · exact Or.inr ⟨x ++ c :: u, d, v, by simp, hd, hv⟩

/-- What keeps a text alive lies before the end of a statement or behind it. -/
theorem occursIn_keptAlive_append_cons (hc : isStop c = true) (x y : Text) :
    keptAlive.occursIn (x ++ c :: y) = (keptAlive.occursIn x || keptAlive.occursIn y) := by
  rw [Bool.eq_iff_iff, Bool.or_eq_true, occursIn_keptAlive_iff, occursIn_keptAlive_iff,
    occursIn_keptAlive_iff, holdsWord_append_cons_iff hc, holdsLabel_append_cons_iff hc]
  tauto

end HostScript.Optimize
