import HostScript.Text.Basic
import Mathlib.Data.List.DropRight

/-!
# Texts trimmed, split and joined

What trimming takes away, and how the parts of a text relate to the text.
-/

namespace HostScript.Text

variable {s : CharSet} {t : Text} {sep : Char}

/-! ### Trimming -/

/-- Trimming takes characters of the set off the end. -/
theorem exists_trimEndOf (s : CharSet) (t : Text) :
    ∃ y, t = t.trimEndOf s ++ y ∧ ∀ c ∈ y, s c = true := by
  refine ⟨(t.reverse.takeWhile s).reverse, ?_, fun c hc => ?_⟩
  · rw [trimEndOf, ← List.reverse_append, List.takeWhile_append_dropWhile, List.reverse_reverse]
  · exact List.all_eq_true.mp List.all_takeWhile c (List.mem_reverse.mp hc)

/-- Trimming takes characters of the set off both ends. -/
theorem exists_trimOf (s : CharSet) (t : Text) :
    ∃ x y, t = x ++ (t.trimOf s ++ y) ∧ (∀ c ∈ x, s c = true) ∧ ∀ c ∈ y, s c = true := by
  obtain ⟨y, hy, hys⟩ := exists_trimEndOf s (t.dropWhile s)
  refine ⟨t.takeWhile s, y, ?_, List.all_eq_true.mp List.all_takeWhile, hys⟩
  rw [Text.trimOf, Text.trimStartOf, ← hy, List.takeWhile_append_dropWhile]

theorem mem_of_mem_trim {t : Text} : ∀ c ∈ t.trim, c ∈ t := by
  obtain ⟨x, y, ht, -, -⟩ := exists_trimOf isBlank t
  intro c hc
  rw [ht]
  exact List.mem_append_right _ (List.mem_append_left _ hc)

/-- White space at the end of two texts together is trimmed from the second, and from the first if
the second is blank. -/
theorem trimEnd_append (u s : Text) :
    Text.trimEnd (u ++ s) =
      if Text.trimEnd s = [] then Text.trimEnd u else u ++ Text.trimEnd s := by
  simp only [Text.trimEnd, Text.trimEndOf, List.reverse_append, List.dropWhile_append,
    List.isEmpty_iff, List.reverse_eq_nil_iff]
  split <;> simp

/-- A text of which nothing is left when its end is trimmed is blank. -/
theorem trimEnd_eq_nil_iff : Text.trimEnd t = [] ↔ ∀ a ∈ t, isBlank a = true := by
  rw [Text.trimEnd, Text.trimEndOf, List.reverse_eq_nil_iff, List.dropWhile_eq_nil_iff]
  simp only [List.mem_reverse]

/-- A text is blank if nothing is left of it when it is trimmed. -/
theorem trim_eq_nil_iff : Text.trim t = [] ↔ ∀ a ∈ t, isBlank a = true := by
  constructor
  · intro h
    obtain ⟨x, y, ht, hx, hy⟩ := exists_trimOf isBlank t
    rw [show t.trimOf isBlank = [] from h, List.nil_append] at ht
    rw [ht, List.forall_mem_append]
    exact ⟨hx, hy⟩
  · intro h
    have hstart : Text.trimStartOf isBlank t = [] := List.dropWhile_eq_nil_iff.mpr h
    rw [Text.trim, Text.trimOf, hstart]
    rfl

/-- What is trimmed at its start keeps its start when it is trimmed at its end. -/
theorem trimStartOf_trimEndOf (h : trimStartOf s t = t) :
    trimStartOf s (trimEndOf s t) = trimEndOf s t := by
  have hpre : trimEndOf s t <+: t := List.rdropWhile_prefix s t
  refine List.dropWhile_eq_self_iff.mpr fun hpos hblank => ?_
  have hposT : 0 < t.length := Nat.lt_of_lt_of_le hpos hpre.length_le
  have hget : (trimEndOf s t)[0] = t[0] := hpre.getElem hpos
  exact List.dropWhile_eq_self_iff.mp h _ (hget ▸ hblank)

/-- A trimmed text has nothing to trim. -/
theorem trimOf_trimOf (s : CharSet) (t : Text) : trimOf s (trimOf s t) = trimOf s t := by
  have hstart : trimStartOf s (trimStartOf s t) = trimStartOf s t := List.dropWhile_idempotent ..
  have hend (u : Text) : trimEndOf s (trimEndOf s u) = trimEndOf s u :=
    List.rdropWhile_idempotent s u
  rw [trimOf, trimOf, trimStartOf_trimEndOf hstart, hend]

@[simp] theorem trim_trim (t : Text) : t.trim.trim = t.trim := trimOf_trimOf isBlank t

/-- White space in front of a trimmed text is trimmed away. -/
theorem trim_append_of_blank {b : Text} (hb : ∀ c ∈ b, isBlank c = true) (ht : t.trim = t) :
    trim (b ++ t) = t := by
  rw [trim, trimOf, trimStartOf, List.dropWhile_append_of_pos hb]
  exact ht

/-- White space around a trimmed text is trimmed away. -/
theorem trim_surrounded {x y : Text} (hx : ∀ c ∈ x, isBlank c = true)
    (hy : ∀ c ∈ y, isBlank c = true) (ht : t.trim = t) : trim (x ++ (t ++ y)) = t := by
  have hstart : trim (x ++ (t ++ y)) = trim (t ++ y) := by
    rw [trim, trimOf, trimStartOf, List.dropWhile_append_of_pos hx]
    rfl
  rw [hstart]
  cases hstartOf : trimStartOf isBlank t with
  | nil =>
    rw [trim, trimOf, hstartOf] at ht
    obtain rfl : t = [] := ht.symm
    exact trim_eq_nil_iff.mpr hy
  | cons c u =>
    have hsplit : trimStartOf isBlank (t ++ y) = trimStartOf isBlank t ++ y := by
      have hkeep : (t.dropWhile isBlank).isEmpty = false := congrArg List.isEmpty hstartOf
      rw [trimStartOf, List.dropWhile_append, hkeep]
      rfl
    have hend := trimEnd_append (trimStartOf isBlank t) y
    rw [if_pos (trimEnd_eq_nil_iff.mpr hy)] at hend
    rw [trim, trimOf, hsplit]
    exact hend.trans ht

/-- A text that starts and ends with something visible has nothing to trim. -/
theorem trim_eq_self (hstart : ∀ c ∈ t.head?, isBlank c = false)
    (hend : ∀ c ∈ t.getLast?, isBlank c = false) : t.trim = t := by
  have hdrop : trimStartOf isBlank t = t := by
    refine List.dropWhile_eq_self_iff.mpr fun hpos => ?_
    rw [hstart _ (by rw [List.head?_eq_getElem?, List.getElem?_eq_getElem hpos]; rfl)]
    exact Bool.false_ne_true
  have hdropEnd : trimEndOf isBlank t = t := by
    refine List.rdropWhile_eq_self_iff.mpr fun hne => ?_
    rw [hend _ (List.getLast?_eq_some_getLast hne)]
    exact Bool.false_ne_true
  rw [trim, trimOf, hdrop, hdropEnd]

/-- A trimmed text does not start with white space. -/
theorem isBlank_of_head?_trim {t : Text} : ∀ c ∈ t.trim.head?, isBlank c = false := by
  intro c hc
  have hpre : t.trim <+: t.dropWhile isBlank := by
    obtain ⟨y, hy, -⟩ := exists_trimEndOf isBlank (t.dropWhile isBlank)
    exact ⟨y, hy.symm⟩
  obtain ⟨rest, hrest⟩ := hpre
  have hne : t.trim ≠ [] := by
    rintro hnil
    rw [hnil] at hc
    cases hc
  have hhead : (t.dropWhile isBlank).head? = some c := by
    rw [← hrest, List.head?_append_of_ne_nil _ hne, hc]
  have hnot := List.head?_dropWhile_not isBlank t
  rw [hhead] at hnot
  simpa using hnot

/-- Nor does it end with white space. -/
theorem isBlank_of_getLast?_trim {t : Text} : ∀ c ∈ t.trim.getLast?, isBlank c = false := by
  intro c hc
  obtain ⟨hne, rfl⟩ := List.mem_getLast?_eq_getLast hc
  rw [← Bool.not_eq_true]
  exact List.rdropWhile_last_not isBlank (trimStartOf isBlank t) hne

/-- White space around a text is trimmed away with its own. -/
theorem trim_padded {x y : Text} (hx : ∀ c ∈ x, isBlank c = true)
    (hy : ∀ c ∈ y, isBlank c = true) (t : Text) : trim (x ++ (t ++ y)) = t.trim := by
  obtain ⟨x', y', ht, hx', hy'⟩ := exists_trimOf isBlank t
  have hshape : x ++ (t ++ y) = (x ++ x') ++ (t.trim ++ (y' ++ y)) := by
    conv_lhs => rw [ht]
    simp only [List.append_assoc]
    rfl
  rw [hshape, trim_surrounded (List.forall_mem_append.mpr ⟨hx, hx'⟩)
    (List.forall_mem_append.mpr ⟨hy', hy⟩) (trim_trim t)]

theorem infix_trim (t : Text) : t.trim <:+: t := by
  obtain ⟨x, y, ht, -, -⟩ := exists_trimOf isBlank t
  exact ⟨x, y, by rw [List.append_assoc]; exact ht.symm⟩

theorem length_trim_le (t : Text) : t.trim.length ≤ t.length := (infix_trim t).length_le

/-! ### Parts of a text -/

/-- What stands before a separator is all up to its first occurrence. -/
theorem fst_cutAt (sep : Char) (t : Text) : (t.cutAt sep).1 = t.takeWhile (· != sep) := by
  induction t with
  | nil => rfl
  | cons c t ih =>
    rw [cutAt, List.takeWhile_cons]
    by_cases hc : c = sep
    · simp [hc]
    · simp [hc, ih]

theorem splitOn_ne_nil (sep : Char) (t : Text) : t.splitOn sep ≠ [] := by
  cases t with
  | nil => exact List.cons_ne_nil _ _
  | cons c t =>
    rw [Text.splitOn]
    split
    · exact List.cons_ne_nil _ _
    · split <;> exact List.cons_ne_nil _ _

theorem lines_ne_nil (t : Text) : t.lines ≠ [] := splitOn_ne_nil '\n' t

theorem join_cons (sep t : Text) {ts : List Text} (hts : ts ≠ []) :
    Text.join sep (t :: ts) = t ++ (sep ++ Text.join sep ts) := by
  cases ts with
  | nil => exact absurd rfl hts
  | cons next ts => exact List.append_assoc ..

theorem unlines_cons (l : Text) {ls : List Text} (hls : ls ≠ []) :
    Text.unlines (l :: ls) = l ++ '\n' :: Text.unlines ls := join_cons ['\n'] l hls

theorem unlines_append {ls more : List Text} (hls : ls ≠ []) (hmore : more ≠ []) :
    Text.unlines (ls ++ more) = Text.unlines ls ++ '\n' :: Text.unlines more := by
  induction ls with
  | nil => exact absurd rfl hls
  | cons l ls ih =>
    rcases eq_or_ne ls [] with rfl | hrest
    · exact unlines_cons l hmore
    · rw [List.cons_append, unlines_cons l (List.append_ne_nil_of_left_ne_nil hrest more), ih hrest,
        unlines_cons l hrest, List.append_assoc]
      rfl

/-- Lines on both sides of a line. -/
theorem unlines_append_cons (ls : List Text) (l : Text) (more : List Text) :
    Text.unlines (ls ++ l :: more) =
      ls.flatMap (· ++ ['\n']) ++ (l ++ more.flatMap ('\n' :: ·)) := by
  induction ls generalizing l with
  | nil =>
    induction more generalizing l with
    | nil => simp [unlines, join]
    | cons next more ih =>
      have hrest : Text.unlines (next :: more) = next ++ more.flatMap ('\n' :: ·) := ih next
      rw [List.nil_append, unlines_cons l (List.cons_ne_nil next more), hrest]
      rfl
  | cons first ls ih =>
    rw [List.cons_append, unlines_cons first (by simp), ih]
    simp

/-- Joining the parts of a text gives the text. -/
theorem join_splitOn (sep : Char) (t : Text) : Text.join [sep] (t.splitOn sep) = t := by
  induction t with
  | nil => rfl
  | cons c t ih =>
    rw [Text.splitOn]
    split
    case isTrue hc =>
      rw [join_cons _ [] (splitOn_ne_nil sep t), ih, beq_iff_eq.mp hc]
      rfl
    case isFalse =>
      split
      case h_1 hsplit => exact absurd hsplit (splitOn_ne_nil sep t)
      case h_2 part parts hsplit =>
        rw [hsplit] at ih
        rw [← ih]
        cases parts with
        | nil => rfl
        | cons next parts => rfl

theorem unlines_lines (t : Text) : Text.unlines t.lines = t := join_splitOn '\n' t

/-- The parts of a text hold its characters but for the separator. -/
theorem mem_of_mem_splitOn {sep : Char} {t part : Text} (h : part ∈ t.splitOn sep) :
    ∀ c ∈ part, c ∈ t ∧ c ≠ sep := by
  induction t generalizing part with
  | nil =>
    obtain rfl := List.mem_singleton.mp h
    exact List.forall_mem_nil _
  | cons d t ih =>
    have hrest {part : Text} (h : part ∈ Text.splitOn sep t) : ∀ c ∈ part, c ∈ d :: t ∧ c ≠ sep :=
      fun c hc => ⟨List.mem_cons_of_mem d (ih h c hc).1, (ih h c hc).2⟩
    rw [Text.splitOn] at h
    split at h
    case isTrue =>
      rcases List.mem_cons.mp h with rfl | h
      · exact List.forall_mem_nil _
      · exact hrest h
    case isFalse hd =>
      split at h
      case h_1 hsplit => exact absurd hsplit (splitOn_ne_nil sep t)
      case h_2 first parts hsplit =>
        rcases List.mem_cons.mp h with rfl | h
        · have hfirst := hrest (hsplit ▸ List.mem_cons_self .. : first ∈ Text.splitOn sep t)
          have hne : d ≠ sep := fun heq => hd (beq_iff_eq.mpr heq)
          exact List.forall_mem_cons.mpr ⟨⟨List.mem_cons_self .., hne⟩, hfirst⟩
        · exact hrest (hsplit ▸ List.mem_cons_of_mem first h)

theorem mem_of_mem_lines {t line : Text} (h : line ∈ t.lines) : ∀ c ∈ line, c ∈ t :=
  fun c hc => (mem_of_mem_splitOn h c hc).1

theorem break_notMem_of_mem_lines {t line : Text} (h : line ∈ t.lines) : '\n' ∉ line :=
  fun hc => (mem_of_mem_splitOn h _ hc).2 rfl

/-- A text without line breaks is one line. -/
theorem lines_eq_singleton {t : Text} (h : '\n' ∉ t) : t.lines = [t] := by
  induction t with
  | nil => rfl
  | cons c t ih =>
    rw [List.mem_cons, not_or] at h
    have hc : (c == '\n') = false := beq_eq_false_iff_ne.mpr (Ne.symm h.1)
    have hrest : Text.splitOn '\n' t = [t] := ih h.2
    rw [Text.lines, Text.splitOn, hc, hrest]
    rfl

/-- The first line ends at the first line break. -/
theorem lines_append_break {x : Text} (h : '\n' ∉ x) (t : Text) :
    (x ++ '\n' :: t).lines = x :: t.lines := by
  induction x with
  | nil => rfl
  | cons c x ih =>
    rw [List.mem_cons, not_or] at h
    have hc : (c == '\n') = false := beq_eq_false_iff_ne.mpr (Ne.symm h.1)
    have hrest : Text.splitOn '\n' (x ++ '\n' :: t) = x :: t.lines := ih h.2
    rw [List.cons_append, Text.lines, Text.splitOn, hc, hrest]
    rfl

theorem splitOn_append_cons (sep : Char) (x y : Text) :
    Text.splitOn sep (x ++ sep :: y) = x.splitOn sep ++ y.splitOn sep := by
  induction x with
  | nil => simp [Text.splitOn]
  | cons c x ih =>
    rw [List.cons_append, Text.splitOn, Text.splitOn, ih]
    split
    · rfl
    · obtain ⟨part, parts, hparts⟩ := List.exists_cons_of_ne_nil (Text.splitOn_ne_nil sep x)
      rw [hparts]
      rfl

/-- Joined texts hold characters of each and of the separator. -/
theorem mem_of_mem_join {sep : Text} {ts : List Text} {c : Char} (h : c ∈ join sep ts) :
    c ∈ sep ∨ ∃ t ∈ ts, c ∈ t := by
  induction ts with
  | nil => cases h
  | cons t ts ih =>
    rcases eq_or_ne ts [] with rfl | hts
    · exact .inr ⟨t, List.mem_singleton_self t, h⟩
    · rw [join_cons sep t hts, List.mem_append, List.mem_append] at h
      rcases h with h | h | h
      · exact .inr ⟨t, List.mem_cons_self .., h⟩
      · exact .inl h
      · refine (ih h).imp_right ?_
        rintro ⟨u, hu, hc⟩
        exact ⟨u, List.mem_cons_of_mem t hu, hc⟩

/-- Texts without line breaks are the lines they are joined to. -/
theorem lines_unlines {ts : List Text} (hne : ts ≠ []) (hts : ∀ t ∈ ts, '\n' ∉ t) :
    (unlines ts).lines = ts := by
  induction ts with
  | nil => exact absurd rfl hne
  | cons t ts ih =>
    obtain ⟨ht, hts⟩ := List.forall_mem_cons.mp hts
    cases ts with
    | nil => exact lines_eq_singleton ht
    | cons u ts =>
      rw [unlines_cons t (List.cons_ne_nil u ts), lines_append_break ht,
        ih (List.cons_ne_nil u ts) hts]

theorem infix_join_of_mem {ts : List Text} (h : t ∈ ts) (sep : Text) : t <:+: join sep ts := by
  induction ts with
  | nil => cases h
  | cons u ts ih =>
    cases ts with
    | nil => exact List.mem_singleton.mp h ▸ List.infix_rfl
    | cons next ts =>
      rw [join_cons sep u (List.cons_ne_nil next ts)]
      rcases List.mem_cons.mp h with rfl | h
      · exact (List.prefix_append ..).isInfix
      · exact (ih h).trans ((List.suffix_append ..).trans (List.suffix_append ..)).isInfix

/-- The parts of a text are stretches of it. -/
theorem infix_of_mem_splitOn {part : Text} (h : part ∈ t.splitOn sep) : part <:+: t :=
  join_splitOn sep t ▸ infix_join_of_mem h [sep]

/-- A text that is found starts where it is found. -/
theorem isPrefix_of_indexOf? {needle : Text} {i : Nat} (h : indexOf? needle t = some i) :
    needle <+: t.drop i := by
  induction t generalizing i with
  | nil =>
    rw [indexOf?] at h
    split at h
    · rename_i hnil
      rw [List.isEmpty_iff.mp hnil]
      exact List.nil_prefix
    · cases h
  | cons c t ih =>
    rw [indexOf?] at h
    split at h
    · rename_i hprefix
      obtain rfl := Option.some.inj h
      exact List.isPrefixOf_iff_prefix.mp hprefix
    · obtain ⟨j, hj, rfl⟩ := Option.map_eq_some_iff.mp h
      exact ih hj

/-- The text up to an offset, and the stretch up to a later one. -/
theorem take_eq_append_slice {i j : Nat} (hij : i ≤ j) : t.take j = t.take i ++ t.slice i j := by
  rw [Text.slice, ← Nat.min_eq_left hij, ← List.take_take, Nat.min_eq_left hij,
    List.take_append_drop]

end HostScript.Text
