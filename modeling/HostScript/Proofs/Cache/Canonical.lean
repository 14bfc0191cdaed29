import HostScript.Cache
import HostScript.Proofs.Text
import Mathlib.Data.List.Nodup
import Mathlib.Logic.Relation

/-!
# What a fingerprint does not see

A text is laid out in rows, and a row says a line with white space behind it. Texts have the same
canonical form exactly if they say the same lines: the ends of the rows, the white space at the end
of a row and blank rows in front and behind are layout. A fingerprint sees neither the layout of the
source nor the order in which the members of the options were put in.
-/

namespace HostScript

/-! ### Rows -/

namespace Text

/-- The ways to end a row. -/
inductive Break where
  | feed
  | returnFeed
  | carriageReturn

/-- The characters that end a row. -/
def Break.text : Break → Text
  | .feed => ['\n']
  | .returnFeed => ['\r', '\n']
  | .carriageReturn => ['\r']

/-- A row holds nothing that ends a row. -/
def IsRow (r : Text) : Prop := '\n' ∉ r ∧ '\r' ∉ r

instance (r : Text) : Decidable (IsRow r) := inferInstanceAs (Decidable (_ ∧ _))

/-- A text is laid out in rows, and each of them but the last is ended in one of the ways. A line
feed right behind a carriage return belongs to the same end. -/
inductive Laid : List Text → Text → Prop where
  | last {r : Text} (hr : IsRow r) : Laid [r] r
  | row {r t : Text} {rows : List Text} (e : Break) (hr : IsRow r)
      (he : e = .carriageReturn → t.head? ≠ some '\n') (h : Laid rows t) :
      Laid (r :: rows) (r ++ (e.text ++ t))

/-- A row says a line if nothing but white space stands behind the line. -/
def Says (l r : Text) : Prop := ∃ w, r = l ++ w ∧ ∀ c ∈ w, isBlank c = true

/-- A text shows lines if its rows say them, between blank rows. -/
def Shows (ls : List Text) (t : Text) : Prop :=
  ∃ before after rows, Laid rows t ∧
    List.Forall₂ Says (List.replicate before [] ++ (ls ++ List.replicate after [])) rows

/-- Lines as a writer may lay them out: each with white space of the writer's choice behind it,
blank rows in front and behind, and all rows ended in the same way. -/
structure Layout where
  /-- How the rows end. -/
  ending : Break
  before : List Text
  /-- Each line, and the white space behind it. -/
  lines : List (Text × Text)
  after : List Text
  isRow : ∀ r ∈ before ++ (lines.map (fun p => p.1 ++ p.2) ++ after), IsRow r
  blank_before : ∀ r ∈ before, ∀ c ∈ r, isBlank c = true
  blank_behind : ∀ p ∈ lines, ∀ c ∈ p.2, isBlank c = true
  blank_after : ∀ r ∈ after, ∀ c ∈ r, isBlank c = true

/-- The rows of a layout. -/
def Layout.rows (d : Layout) : List Text := d.before ++ (d.lines.map (fun p => p.1 ++ p.2) ++ d.after)

/-- The text of a layout. -/
def Layout.text (d : Layout) : Text := join d.ending.text d.rows

/-- The lines of a layout on their own. -/
def Layout.plain (d : Layout) : List Text := d.lines.map Prod.fst

variable {r l t u : Text} {ls rows : List Text}

theorem isRow_nil : IsRow [] := ⟨List.not_mem_nil, List.not_mem_nil⟩

theorem isRow_append_iff : IsRow (l ++ r) ↔ IsRow l ∧ IsRow r := by
  simp only [IsRow, List.mem_append, not_or]
  exact and_and_and_comm

theorem isRow_cons_iff {c : Char} : IsRow (c :: r) ↔ (c ≠ '\n' ∧ c ≠ '\r') ∧ IsRow r := by
  simp only [IsRow, List.mem_cons, not_or, ne_comm (b := c)]
  exact and_and_and_comm

/-- Only a carriage return is changed, and it is no part of a row. -/
theorem unifyBreaks_append (hr : IsRow r) (t : Text) :
    (r ++ t).unifyBreaks = r ++ t.unifyBreaks := by
  induction r with
  | nil => rfl
  | cons c r ih =>
    obtain ⟨⟨-, hc⟩, hr⟩ := isRow_cons_iff.mp hr
    rw [List.cons_append, unifyBreaks, if_neg (by simpa using hc), ih hr, List.cons_append]
    exact fun _ h => absurd h hc

/-- Every end of a row becomes one line feed. -/
theorem unifyBreaks_break {e : Break} (he : e = .carriageReturn → t.head? ≠ some '\n') :
    (e.text ++ t).unifyBreaks = '\n' :: t.unifyBreaks := by
  cases e with
  | feed => simp [Break.text, unifyBreaks]
  | returnFeed => rfl
  | carriageReturn =>
    rw [Break.text, List.singleton_append, unifyBreaks, if_pos (beq_self_eq_true _)]
    rintro rest - rfl
    exact he rfl rfl

/-- The rows of a text are its lines once all ends are line feeds. -/
theorem Laid.lines_unifyBreaks (h : Laid rows t) : t.unifyBreaks.lines = rows := by
  induction h with
  | last hr =>
    have hsame := unifyBreaks_append hr []
    rw [List.append_nil] at hsame
    rw [hsame, unifyBreaks, List.append_nil, lines_eq_singleton hr.1]
  | row e hr he h ih =>
    rw [unifyBreaks_append hr, unifyBreaks_break he, lines_append_break hr.1, ih]

theorem Laid.isRow (h : Laid rows t) : ∀ r ∈ rows, IsRow r := by
  induction h with
  | last hr => exact List.forall_mem_singleton.mpr hr
  | row e hr he h ih => exact List.forall_mem_cons.mpr ⟨hr, ih⟩

/-- A character that ends no row makes the first row longer. -/
theorem Laid.cons {c : Char} (hc : c ≠ '\n' ∧ c ≠ '\r') (h : Laid (r :: rows) t) :
    Laid ((c :: r) :: rows) (c :: t) := by
  cases h with
  | last hr => exact .last (isRow_cons_iff.mpr ⟨hc, hr⟩)
  | row e hr he h => exact .row (r := c :: r) e (isRow_cons_iff.mpr ⟨hc, hr⟩) he h

/-- Every text is laid out in rows. -/
theorem laid_lines_unifyBreaks (t : Text) : Laid t.unifyBreaks.lines t := by
  fun_induction unifyBreaks t with
  | case1 => exact .last isRow_nil
  | case2 rest ih => exact .row .returnFeed isRow_nil nofun ih
  | case3 c rest hpair ih =>
    by_cases hfeed : c = '\n'
    · subst hfeed
      exact .row .feed isRow_nil nofun ih
    by_cases hreturn : c = '\r'
    · subst hreturn
      refine .row .carriageReturn isRow_nil (fun _ hhead => ?_) ih
      obtain ⟨rest, rfl⟩ := List.head?_eq_some_iff.mp hhead
      exact hpair rest rfl rfl
    · obtain ⟨r, rows, hrows⟩ := List.exists_cons_of_ne_nil (lines_ne_nil (unifyBreaks rest))
      rw [hrows] at ih
      have hlines : lines (c :: unifyBreaks rest) = (c :: r) :: rows := by
        rw [lines] at hrows
        rw [lines, splitOn, if_neg (by simpa using hfeed), hrows]
      rw [if_neg (by simpa using hreturn), hlines]
      exact ih.cons ⟨hfeed, hreturn⟩

/-- Rows joined by ends of one kind are laid out. -/
theorem laid_join (e : Break) (hne : rows ≠ []) (hrows : ∀ r ∈ rows, IsRow r) :
    Laid rows (join e.text rows) := by
  induction rows with
  | nil => exact absurd rfl hne
  | cons r rows ih =>
    obtain ⟨hr, hrows⟩ := List.forall_mem_cons.mp hrows
    cases rows with
    | nil => exact .last hr
    | cons next rows =>
      have hrest := ih (List.cons_ne_nil next rows) hrows
      rw [join_cons _ r (List.cons_ne_nil next rows)]
      refine .row e hr ?_ hrest
      -- Carriage returns alone bring no line feed into the text.
      rintro rfl hhead
      rcases mem_of_mem_join (List.mem_of_mem_head? hhead) with h | ⟨row, hrow, h⟩
      · exact absurd h (by decide)
      · exact (hrows row hrow).1 h

/-! ### Lines -/

theorem says_refl (l : Text) : Says l l := ⟨[], (List.append_nil l).symm, List.forall_mem_nil _⟩

theorem says_trimEnd (r : Text) : Says r.trimEnd r := exists_trimEndOf isBlank r

/-- White space behind a line is trimmed. -/
theorem Says.trimEnd_eq (h : Says l r) : r.trimEnd = l.trimEnd := by
  obtain ⟨w, rfl, hw⟩ := h
  rw [trimEnd_append, if_pos (trimEnd_eq_nil_iff.mpr hw)]

theorem map_trimEnd_of_says (h : List.Forall₂ Says ls rows) :
    rows.map trimEnd = ls.map trimEnd := by
  induction h with
  | nil => rfl
  | cons hl _ ih => rw [List.map_cons, List.map_cons, hl.trimEnd_eq, ih]

/-- Rows without white space at their ends say what the rows say. -/
theorem forall₂_says_trimEnd : (rows : List Text) → List.Forall₂ Says (rows.map trimEnd) rows
  | [] => .nil
  | r :: rows => .cons (says_trimEnd r) (forall₂_says_trimEnd rows)

/-- Blank rows say empty lines. -/
theorem forall₂_says_replicate (h : ∀ r ∈ rows, ∀ c ∈ r, isBlank c = true) :
    List.Forall₂ Says (List.replicate rows.length []) rows := by
  induction rows with
  | nil => exact .nil
  | cons r rows ih =>
    obtain ⟨hr, hrows⟩ := List.forall_mem_cons.mp h
    exact .cons ⟨r, rfl, hr⟩ (ih hrows)

/-- Lines with white space put behind them say the lines. -/
theorem forall₂_says_map {ps : List (Text × Text)} (h : ∀ p ∈ ps, ∀ c ∈ p.2, isBlank c = true) :
    List.Forall₂ Says (ps.map Prod.fst) (ps.map fun p => p.1 ++ p.2) := by
  induction ps with
  | nil => exact .nil
  | cons p ps ih =>
    obtain ⟨hp, hps⟩ := List.forall_mem_cons.mp h
    exact .cons ⟨p.2, rfl, hp⟩ (ih hps)

theorem exists_row_of_mem (h : List.Forall₂ Says ls rows) (hl : l ∈ ls) : ∃ r ∈ rows, Says l r := by
  induction h with
  | nil => cases hl
  | cons hsays _ ih =>
    rcases List.mem_cons.mp hl with rfl | hl
    · exact ⟨_, List.mem_cons_self .., hsays⟩
    · obtain ⟨r, hr, hlr⟩ := ih hl
      exact ⟨r, List.mem_cons_of_mem _ hr, hlr⟩

theorem Shows.isRow (h : Shows ls t) : ∀ l ∈ ls, IsRow l := by
  obtain ⟨before, after, rows, hlaid, hsays⟩ := h
  intro l hl
  obtain ⟨r, hr, w, rfl, -⟩ := exists_row_of_mem hsays
    (List.mem_append_right _ (List.mem_append_left _ hl))
  exact (isRow_append_iff.mp (hlaid.isRow _ hr)).1

theorem shows_nil : Shows [] [] := ⟨1, 0, [[]], .last isRow_nil, .cons (says_refl []) .nil⟩

/-- The text of a layout shows its lines. -/
theorem Layout.shows (d : Layout) : Shows d.plain d.text := by
  rcases eq_or_ne d.rows [] with hnil | hne
  · have hlines : d.lines = [] := by
      simpa using (List.append_eq_nil_iff.mp (List.append_eq_nil_iff.mp hnil).2).1
    rw [plain, text, hnil, hlines]
    exact shows_nil
  · exact ⟨d.before.length, d.after.length, d.rows, laid_join d.ending hne d.isRow,
      List.rel_append (forall₂_says_replicate d.blank_before)
        (List.rel_append (forall₂_says_map d.blank_behind) (forall₂_says_replicate d.blank_after))⟩

/-- Line feeds around a text are empty lines around its lines. -/
theorem lines_replicate_append (m n : Nat) (t : Text) :
    lines (List.replicate m '\n' ++ (t ++ List.replicate n '\n')) =
      List.replicate m [] ++ (t.lines ++ List.replicate n []) := by
  induction m with
  | zero =>
    induction n with
    | zero => simp
    | succ n ih =>
      simp only [List.replicate_zero, List.nil_append] at ih ⊢
      rw [List.replicate_succ', List.replicate_succ', ← List.append_assoc, ← List.append_assoc,
        ← ih]
      exact splitOn_append_cons '\n' _ []
  | succ m ih =>
    rw [List.replicate_succ, List.replicate_succ, List.cons_append, List.cons_append, ← ih]
    rfl

end Text

/-! ### Canonical texts -/

open Text

variable {l t u : Text} {ls rows : List Text}

/-- The canonical text of lines. -/
def canonicalLines (ls : List Text) : Text :=
  trimOf (· == '\n') (unlines (ls.map trimEnd))

theorem canonicalize_eq (t : Text) : canonicalize t = canonicalLines t.unifyBreaks.lines := rfl

theorem canonicalLines_of_says (h : List.Forall₂ Says ls rows) :
    canonicalLines rows = canonicalLines ls := by
  rw [canonicalLines, map_trimEnd_of_says h, canonicalLines]

theorem canonicalLines_cons_nil (ls : List Text) :
    canonicalLines ([] :: ls) = canonicalLines ls := by
  cases ls with
  | nil => rfl
  | cons l ls =>
    have hunlines : unlines (([] :: l :: ls).map trimEnd) = '\n' :: unlines ((l :: ls).map trimEnd) :=
      unlines_cons [] (by simp)
    rw [canonicalLines, hunlines]
    rfl

theorem canonicalLines_append_nil (ls : List Text) :
    canonicalLines (ls ++ [[]]) = canonicalLines ls := by
  rcases eq_or_ne ls [] with rfl | hne
  · rfl
  have hunlines : unlines ((ls ++ [[]]).map trimEnd) = unlines (ls.map trimEnd) ++ ['\n'] := by
    rw [List.map_append]
    exact unlines_append (by simpa using hne) (by simp)
  rw [canonicalLines, hunlines, canonicalLines]
  simp only [trimOf, trimStartOf, trimEndOf, List.dropWhile_append]
  split
  · rename_i hnil
    rw [List.isEmpty_iff.mp hnil]
    rfl
  · simp

/-- Empty lines around lines are no part of their canonical text. -/
theorem canonicalLines_replicate (m n : Nat) (ls : List Text) :
    canonicalLines (List.replicate m [] ++ (ls ++ List.replicate n [])) = canonicalLines ls := by
  induction m with
  | zero =>
    induction n with
    | zero => simp
    | succ n ih =>
      rw [List.replicate_zero, List.nil_append] at ih ⊢
      rw [List.replicate_succ', ← List.append_assoc, canonicalLines_append_nil, ih]
  | succ m ih => rw [List.replicate_succ, List.cons_append, canonicalLines_cons_nil, ih]

/-- A text that is put together from rows is canonical where the rows are. -/
theorem canonicalize_join (e : Break) (hrows : ∀ r ∈ rows, IsRow r) :
    canonicalize (join e.text rows) = canonicalLines rows := by
  rcases eq_or_ne rows [] with rfl | hne
  · rfl
  · rw [canonicalize_eq, (laid_join e hne hrows).lines_unifyBreaks]

/-- Nothing but the lines that a text shows is kept. -/
theorem Text.Shows.canonicalize_eq (h : Shows ls t) : canonicalize t = canonicalize (unlines ls) := by
  obtain ⟨before, after, rows, hlaid, hsays⟩ := id h
  rw [HostScript.canonicalize_eq, hlaid.lines_unifyBreaks, canonicalLines_of_says hsays,
    canonicalLines_replicate]
  exact (canonicalize_join .feed h.isRow).symm

/-- Every text shows the lines of its canonical form. -/
theorem shows_canonicalize (t : Text) : Shows (canonicalize t).lines t := by
  have hlaid := laid_lines_unifyBreaks t
  have hunbroken : ∀ r ∈ t.unifyBreaks.lines.map trimEnd, '\n' ∉ r := by
    intro r hr
    obtain ⟨row, hrow, rfl⟩ := List.mem_map.mp hr
    obtain ⟨w, hw, -⟩ := says_trimEnd row
    exact fun hmem => (hlaid.isRow row hrow).1 (hw ▸ List.mem_append_left w hmem)
  obtain ⟨x, y, hxy, hx, hy⟩ :=
    exists_trimOf (· == '\n') (unlines (t.unifyBreaks.lines.map trimEnd))
  have hfeeds {z : Text} (hz : ∀ c ∈ z, (c == '\n') = true) : z = List.replicate z.length '\n' :=
    List.eq_replicate_of_mem fun c hc => beq_iff_eq.mp (hz c hc)
  refine ⟨x.length, y.length, _, hlaid, ?_⟩
  rw [← lines_replicate_append, ← hfeeds hx, ← hfeeds hy]
  change List.Forall₂ Says (lines (x ++ (canonicalLines _ ++ y))) _
  rw [canonicalLines, ← hxy, lines_unlines (by simpa using lines_ne_nil _) hunbroken]
  exact forall₂_says_trimEnd _

/-- Canonical texts stay as they are. -/
theorem canonicalize_canonicalize (t : Text) : canonicalize (canonicalize t) = canonicalize t := by
  conv_rhs => rw [(shows_canonicalize t).canonicalize_eq, unlines_lines]

/-- Texts have the same canonical form exactly if they show the same lines. -/
theorem canonicalize_eq_iff (t u : Text) :
    canonicalize t = canonicalize u ↔ ∃ ls, Shows ls t ∧ Shows ls u := by
  constructor
  · intro h
    exact ⟨_, shows_canonicalize t, h ▸ shows_canonicalize u⟩
  · rintro ⟨ls, ht, hu⟩
    rw [ht.canonicalize_eq, hu.canonicalize_eq]

/-! ### Options -/

namespace Text

variable {a b c : Text}

theorem le_total (a b : Text) : le a b = true ∨ le b a = true := by
  induction a generalizing b with
  | nil => exact .inl rfl
  | cons x a ih =>
    cases b with
    | nil => exact .inr rfl
    | cons y b =>
      have := ih b
      grind [le]

theorem le_trans (hab : le a b = true) (hbc : le b c = true) : le a c = true := by
  induction a generalizing b c with
  | nil => rfl
  | cons x a ih =>
    cases b with
    | nil => cases hab
    | cons y b =>
      cases c with
      | nil => cases hbc
      | cons z c =>
        have := @ih b c
        grind [le]

theorem le_antisymm (hab : le a b = true) (hba : le b a = true) : a = b := by
  induction a generalizing b with
  | nil =>
    cases b with
    | nil => rfl
    | cons y b => cases hba
  | cons x a ih =>
    cases b with
    | nil => cases hab
    | cons y b =>
      have hxy : x.toNat = y.toNat := by grind [le]
      obtain rfl := Char.toNat_inj.mp hxy
      rw [ih (by simpa [le] using hab) (by simpa [le] using hba)]

end Text

namespace Json

variable {v w : Json}

/-- One object in a value has its members put in in another order. -/
inductive Swapped : Json → Json → Prop where
  | here {ms ms' : List (Text × Json)} (hnames : (ms.map Prod.fst).Nodup) (h : ms.Perm ms') :
      Swapped (.obj ms) (.obj ms')
  | item (xs : List Json) {v w : Json} (ys : List Json) (h : Swapped v w) :
      Swapped (.arr (xs ++ v :: ys)) (.arr (xs ++ w :: ys))
  | member (ms : List (Text × Json)) (n : Text) {v w : Json} (ms' : List (Text × Json))
      (h : Swapped v w) : Swapped (.obj (ms ++ (n, v) :: ms')) (.obj (ms ++ (n, w) :: ms'))

/-- Values are the same but for the order in which the members of their objects were put in. -/
def Reordered : Json → Json → Prop := Relation.ReflTransGen Swapped

theorem sortNamesAll_eq_map (xs : List Json) : sortNamesAll xs = xs.map sortNames := by
  induction xs with
  | nil => rfl
  | cons x xs ih => rw [sortNamesAll, ih, List.map_cons]

theorem sortNamesMembers_eq_map (ms : List (Text × Json)) :
    sortNamesMembers ms = ms.map fun m => (m.1, m.2.sortNames) := by
  induction ms with
  | nil => rfl
  | cons m ms ih => rw [sortNamesMembers, ih, List.map_cons]

/-- Members with distinct names have one ascending order. -/
theorem mergeSort_eq_of_perm {ms ms' : List (Text × Json)} (hnames : (ms.map Prod.fst).Nodup)
    (h : ms.Perm ms') :
    ms.mergeSort (fun a b => Text.le a.1 b.1) = ms'.mergeSort (fun a b => Text.le a.1 b.1) := by
  have hascending (ms : List (Text × Json)) :
      (ms.mergeSort fun a b => Text.le a.1 b.1).Pairwise fun a b => Text.le a.1 b.1 = true :=
    @List.pairwise_mergeSort _ (fun a b => Text.le a.1 b.1) (fun _ _ _ => Text.le_trans)
      (fun a b => Bool.or_eq_true_iff.mpr (Text.le_total a.1 b.1)) ms
  have hperm : (ms.mergeSort fun a b => Text.le a.1 b.1).Perm
      (ms'.mergeSort fun a b => Text.le a.1 b.1) :=
    (List.mergeSort_perm ms _).trans (h.trans (List.mergeSort_perm ms' _).symm)
  refine hperm.eq_of_pairwise (fun a b ha hb hab hba => ?_) (hascending ms) (hascending ms')
  have hmem (m : Text × Json) (hm : m ∈ ms'.mergeSort fun a b => Text.le a.1 b.1) : m ∈ ms :=
    h.mem_iff.mpr (List.mem_mergeSort.mp hm)
  exact List.inj_on_of_nodup_map hnames (List.mem_mergeSort.mp ha) (hmem b hb)
    (Text.le_antisymm hab hba)

/-- The order in which members were put in is lost when they are sorted. -/
theorem Swapped.sortNames_eq (h : Swapped v w) : v.sortNames = w.sortNames := by
  induction h with
  | here hnames h =>
    rw [sortNames, sortNames, sortNamesMembers_eq_map, sortNamesMembers_eq_map,
      mergeSort_eq_of_perm _ (h.map _)]
    rwa [List.map_map]
  | item xs ys _ ih => simp only [sortNames, sortNamesAll_eq_map, List.map_append, List.map_cons, ih]
  | member ms n ms' _ ih =>
    simp only [sortNames, sortNamesMembers_eq_map, List.map_append, List.map_cons, ih]

theorem Swapped.truthy_eq (h : Swapped v w) : v.truthy = w.truthy := by
  cases h with
  | here hnames h => rw [truthy, truthy, h.isEmpty_eq]
  | item xs ys _ => cases xs <;> rfl
  | member ms n ms' _ => cases ms <;> rfl

theorem Reordered.sortNames_eq (h : Reordered v w) : v.sortNames = w.sortNames := by
  induction h with
  | refl => rfl
  | tail _ hlast ih => rw [ih, hlast.sortNames_eq]

theorem Reordered.truthy_eq (h : Reordered v w) : v.truthy = w.truthy := by
  induction h with
  | refl => rfl
  | tail _ hlast ih => rw [ih, hlast.truthy_eq]

end Json

/-- A fingerprint is the same for sources of the same canonical form and reordered options. -/
theorem fingerprint_congr (h : canonicalize t = canonicalize u) {options options' : Json}
    (ho : options.Reordered options') : fingerprint t options = fingerprint u options' := by
  have hsorted : (if options.truthy then options else .obj []).sortNames =
      (if options'.truthy then options' else .obj []).sortNames := by
    rw [← ho.truthy_eq]
    split
    · exact ho.sortNames_eq
    · rfl
  rw [fingerprint, fingerprint, fingerprintPayload, fingerprintPayload, h]
  simp only [Json.ofPairs, Json.sortNames, Json.sortNamesMembers_eq_map, List.map_cons,
    List.map_nil, hsorted]

/-- The canonical form is a projection that forgets the layout of a text and nothing else, and a
fingerprint depends on the canonical form and on the options up to the order of their members. -/
theorem canonicalize_forgets_layout (t u : Text) (d : Layout) {options options' : Json}
    (ho : options.Reordered options') :
    canonicalize (canonicalize t) = canonicalize t ∧
    (canonicalize t = canonicalize u ↔ ∃ ls, Shows ls t ∧ Shows ls u) ∧
    canonicalize d.text = canonicalize (unlines d.plain) ∧
    fingerprint d.text options = fingerprint (unlines d.plain) options' :=
  ⟨canonicalize_canonicalize t, canonicalize_eq_iff t u, d.shows.canonicalize_eq,
    fingerprint_congr d.shows.canonicalize_eq ho⟩

/-- Two lines between blank rows, the second behind an empty line; the rows end in carriage return
and line feed. -/
def spacedLayout : Layout where
  ending := .returnFeed
  before := [[' ']]
  lines := [("a  b".toList, ['\t', ' ']), ([], ['\x0c']), (" c".toList, [])]
  after := [[], ['\t']]
  isRow := by decide
  blank_before := by decide
  blank_behind := by decide
  blank_after := by decide

theorem canonicalize_forgets_layout_spaced :
    Json.Reordered (.obj [("level".toList, .int 1), ("mode".toList, .null)])
      (.obj [("mode".toList, .null), ("level".toList, .int 1)]) ∧
    fingerprint " \r\na  b\t \r\n\x0c\r\n c\r\n\r\n\t".toList
        (.obj [("level".toList, .int 1), ("mode".toList, .null)]) =
      fingerprint "a  b\n\n c".toList
        (.obj [("mode".toList, .null), ("level".toList, .int 1)]) := by
  have hswapped : Json.Reordered (.obj [("level".toList, .int 1), ("mode".toList, .null)])
      (.obj [("mode".toList, .null), ("level".toList, .int 1)]) :=
    .single (.here (by decide) (.swap ..))
  exact ⟨hswapped, (canonicalize_forgets_layout [] [] spacedLayout hswapped).2.2.2⟩

end HostScript
