import HostScript.Proofs.Source.Block
import HostScript.Proofs.Source.Text

/-!
# Plain lines

In lines without string literals and comments every character counts: they are the significant
lines of their source, and a block of them ends where their braces balance.
-/

namespace HostScript.Source

/-- A line without string literals and comments. -/
structure Plain (t : Text) : Prop where
  unbroken : '\n' ∉ t ∧ '\r' ∉ t
  unquoted : ∀ c ∈ t, isStringQuote c = false
  uncommented : blankComments t = t

variable {t u more pre post : Text} {ts : List Text} {c : Char} {d : Int} {ps after : List Place}
variable {line : Line} {rest skipped lines : List Line} {idx start : Nat}

/-! ### The lines of a source -/

theorem isQuote_of_isStringQuote (h : isStringQuote c = false) : isQuote c = false := by
  rw [isStringQuote, Bool.or_eq_false_iff] at h
  exact h.1

/-- Code is kept in front of something that completes no comment mark. -/
theorem blankFrom_code_append (hquote : ∀ c ∈ t, isQuote c = false) (ht : blankFrom .code t = t)
    (hmore : more.head? ≠ some '/' ∧ more.head? ≠ some '*') :
    blankFrom .code (t ++ more) = t ++ blankFrom .code more := by
  induction t with
  | nil => rfl
  | cons c t ih =>
    obtain ⟨hc, hquote⟩ := List.forall_mem_cons.mp hquote
    have hmark : c = '/' → t.head? ≠ some '/' ∧ t.head? ≠ some '*' := by
      rintro rfl
      -- A comment mark would have been blanked.
      refine ⟨fun h => ?_, fun h => ?_⟩
      · obtain ⟨t, rfl⟩ := List.head?_eq_some_iff.mp h
        rw [blankFrom] at ht
        cases ht
      · obtain ⟨t, rfl⟩ := List.head?_eq_some_iff.mp h
        rw [blankFrom] at ht
        cases ht
    have hmark' : c = '/' → (t ++ more).head? ≠ some '/' ∧ (t ++ more).head? ≠ some '*' := by
      cases t with
      | nil => exact fun _ => hmore
      | cons a t => exact hmark
    rw [blankFrom_code_cons hmark, hc, if_neg Bool.false_ne_true, List.cons.injEq] at ht
    rw [List.cons_append, blankFrom_code_cons hmark', hc, if_neg Bool.false_ne_true, ih hquote ht.2,
      List.cons_append]

theorem Plain.blankFrom_append (ht : Plain t)
    (hmore : more.head? ≠ some '/' ∧ more.head? ≠ some '*') :
    blankFrom .code (t ++ more) = t ++ blankFrom .code more :=
  blankFrom_code_append (fun c hc => isQuote_of_isStringQuote (ht.unquoted c hc)) ht.uncommented
    hmore

/-- Plain texts on one line are plain together unless they make a comment mark. -/
theorem Plain.append (ht : Plain t) (hu : Plain u)
    (hjoin : u.head? ≠ some '/' ∧ u.head? ≠ some '*') : Plain (t ++ u) where
  unbroken := by
    simp only [List.mem_append, not_or]
    exact ⟨⟨ht.unbroken.1, hu.unbroken.1⟩, ht.unbroken.2, hu.unbroken.2⟩
  unquoted := List.forall_mem_append.mpr ⟨ht.unquoted, hu.unquoted⟩
  uncommented := (ht.blankFrom_append hjoin).trans (congrArg (t ++ ·) hu.uncommented)

/-- A character that starts no comment mark can stand in front. -/
theorem Plain.cons (hc : Plain [c]) (hslash : c ≠ '/') (ht : Plain t) :
    Plain (c :: t) where
  unbroken := by
    obtain ⟨hline, hreturn⟩ := hc.unbroken
    simp only [List.mem_singleton] at hline hreturn
    simp only [List.mem_cons, not_or]
    exact ⟨⟨hline, ht.unbroken.1⟩, hreturn, ht.unbroken.2⟩
  unquoted := List.forall_mem_cons.mpr ⟨hc.unquoted c (List.mem_singleton_self c), ht.unquoted⟩
  uncommented := by
    have hquote := isQuote_of_isStringQuote (hc.unquoted c (List.mem_singleton_self c))
    rw [blankComments, blankFrom_code_cons fun heq => absurd heq hslash, hquote,
      if_neg Bool.false_ne_true]
    exact congrArg (c :: ·) ht.uncommented

theorem blankComments_unlines (hts : ∀ t ∈ ts, Plain t) :
    blankComments (Text.unlines ts) = Text.unlines ts := by
  induction ts with
  | nil => rfl
  | cons t ts ih =>
    obtain ⟨ht, hts⟩ := List.forall_mem_cons.mp hts
    cases ts with
    | nil => exact ht.uncommented
    | cons u ts =>
      have hbreak (x : Text) : blankFrom .code ('\n' :: x) = '\n' :: blankFrom .code x :=
        blankFrom_code_cons fun h => absurd h (by decide)
      have hmark (x : Text) : ('\n' :: x).head? ≠ some '/' ∧ ('\n' :: x).head? ≠ some '*' := by
        simp
      have hih : blankFrom .code (Text.unlines (u :: ts)) = Text.unlines (u :: ts) := ih hts
      rw [Text.unlines_cons t (List.cons_ne_nil u ts), blankComments,
        ht.blankFrom_append (hmark _), hbreak, hih]

theorem unifyBreaks_of_notMem (h : '\r' ∉ t) : t.unifyBreaks = t := by
  induction t with
  | nil => rfl
  | cons c t ih =>
    rw [List.mem_cons, not_or] at h
    have hc : (c == '\r') = false := beq_eq_false_iff_ne.mpr (Ne.symm h.1)
    rw [Text.unifyBreaks, hc, ih h.2]
    · rfl
    · rintro _ rfl
      exact absurd rfl h.1

/-- Plain lines are the lines of their source. -/
theorem significantLines_unlines (hne : ts ≠ []) (hts : ∀ t ∈ ts, Plain t) :
    significantLines (Text.unlines ts) = numberLines 1 ts := by
  have hreturn : '\r' ∉ Text.unlines ts := fun h => by
    rcases Text.mem_of_mem_join h with h | ⟨t, ht, h⟩
    · exact absurd h (by decide)
    · exact (hts t ht).unbroken.2 h
  rw [significantLines, unifyBreaks_of_notMem hreturn, blankComments_unlines hts,
    Text.lines_unlines hne fun t ht => (hts t ht).unbroken.1]

/-! ### The end of a block -/

theorem neg_one_le_level (c : Char) : -1 ≤ level [c] := by
  by_cases hopen : c = '\x7b'
  · rw [hopen, level_open]
    omega
  by_cases hclose : c = '\x7d'
  · rw [hclose]
    exact Int.le_of_eq level_close.symm
  · rw [level_of_ne hopen hclose]
    omega

/-- A count that comes down to zero returns there. -/
theorem exists_returnsAt (hd : 0 < d) (h : d + level (ps.map Place.char) ≤ 0) :
    ∃ q, ReturnsAt d ps q := by
  induction ps generalizing d with
  | nil => exact absurd h (by rw [List.map_nil, level_nil]; omega)
  | cons p ps ih =>
    rw [List.map_cons, level_cons] at h
    have hone := neg_one_le_level p.char
    by_cases hzero : d + level [p.char] = 0
    · exact ⟨p, [], ps, rfl, staysOpen_nil (by omega), hzero⟩
    · obtain ⟨q, hq⟩ := ih (d := d + level [p.char]) (by omega) (by omega)
      have hopen : StaysOpen d ([p].map Place.char) := .cons (by omega) (staysOpen_nil hzero)
      exact ⟨q, ReturnsAt.append_left hopen hq⟩

/-- Without closing braces the count never comes down. -/
theorem staysOpen_of_notMem {cs : List Char} (hd : 0 < d) (h : '\x7d' ∉ cs) : StaysOpen d cs := by
  intro pre hpre
  have hzero : pre.count '\x7d' = 0 := List.count_eq_zero.mpr fun hmem => h (hpre.subset hmem)
  rw [level, hzero]
  omega

theorem map_snd_codeCharsFrom (h : ∀ c ∈ t, isStringQuote c = false) (pos : Nat) :
    (codeCharsFrom pos none t).map (·.2) = t := by
  induction t generalizing pos with
  | nil => rfl
  | cons c t ih =>
    obtain ⟨hc, ht⟩ := List.forall_mem_cons.mp h
    rw [codeCharsFrom, if_neg (by rw [hc]; exact Bool.false_ne_true), List.map_cons, ih ht]

/-- All characters of a line without string literals count. -/
theorem map_char_placesOf (h : ∀ c ∈ line.text, isStringQuote c = false) (idx : Nat) :
    (placesOf idx line).map Place.char = line.text := by
  rw [placesOf, List.map_map]
  exact map_snd_codeCharsFrom h 0

theorem places_append (idx : Nat) (ls ls' : List Line) :
    places idx (ls ++ ls') = places idx ls ++ places (idx + ls.length) ls' := by
  induction ls generalizing idx with
  | nil => rfl
  | cons l ls ih =>
    rw [List.cons_append, places, ih, places, List.append_assoc, List.length_cons, Nat.add_assoc,
      Nat.add_comm 1]

theorem mem_of_mem_places {x : Place} (hx : x ∈ places idx lines) :
    ∃ l ∈ lines, x.char ∈ l.text := by
  induction lines generalizing idx with
  | nil => cases hx
  | cons line lines ih =>
    rcases List.mem_append.mp hx with hx | hx
    · obtain ⟨y, hy, rfl⟩ := List.mem_map.mp hx
      exact ⟨line, List.mem_cons_self .., mem_of_mem_codeChars hy⟩
    · obtain ⟨l, hl, h⟩ := ih hx
      exact ⟨l, List.mem_cons_of_mem _ hl, h⟩

/-- The first brace of some lines, and what follows it on its line. -/
theorem exists_opening (hskipped : ∀ l ∈ skipped, '\x7b' ∉ l.text)
    (hquote : ∀ c ∈ line.text, isStringQuote c = false)
    (htext : line.text = pre ++ '\x7b' :: post) (hpre : '\x7b' ∉ pre) (rest : List Line) :
    ∃ p ps, (places 0 (skipped ++ line :: rest)).dropWhile (·.char != '\x7b') =
        p :: (ps ++ places (skipped.length + 1) rest) ∧ p.line = skipped.length ∧
          ps.map Place.char = post ∧ ∀ q ∈ ps, q.line = skipped.length := by
  obtain ⟨before, behind, hsplit, hbefore, hbehind⟩ :=
    List.map_eq_append_iff.mp ((map_char_placesOf hquote skipped.length).trans htext)
  obtain ⟨p, ps, rfl, hp, hps⟩ := List.map_eq_cons_iff.mp hbehind
  have hline (q : Place) (hq : q ∈ p :: ps) : q.line = skipped.length :=
    line_of_mem_placesOf (hsplit ▸ List.mem_append_right before hq)
  refine ⟨p, ps, ?_, hline p (List.mem_cons_self ..), hps,
    fun q hq => hline q (List.mem_cons_of_mem _ hq)⟩
  have hunbraced : ∀ x ∈ places 0 skipped ++ before, (x.char != '\x7b') = true := by
    refine List.forall_mem_append.mpr ⟨fun x hx => ?_, fun x hx => ?_⟩
    · obtain ⟨l, hl, hmem⟩ := mem_of_mem_places hx
      exact bne_iff_ne.mpr fun heq => hskipped l hl (heq ▸ hmem)
    · exact bne_iff_ne.mpr fun heq => hpre (hbefore ▸ heq ▸ List.mem_map_of_mem hx)
  rw [places_append, places, Nat.zero_add, hsplit, List.append_assoc, ← List.append_assoc,
    List.dropWhile_append_of_pos hunbraced, List.cons_append]
  exact List.dropWhile_cons_of_neg (by simp [hp])

/-- A block ends on the line that it opens on if the braces are closed there. -/
theorem captureBlock_of_level (skipped : List Line) (line : Line) (rest : List Line)
    (hlength : skipped.length ≤ 1) (hskipped : ∀ l ∈ skipped, '\x7b' ∉ l.text)
    (hquote : ∀ c ∈ line.text, isStringQuote c = false)
    (htext : line.text = pre ++ '\x7b' :: post) (hpre : '\x7b' ∉ pre)
    (hlevel : 1 + level post ≤ 0) :
    (captureBlock (skipped ++ line :: rest) 0).opened = true ∧
      (captureBlock (skipped ++ line :: rest) 0).closed = true ∧
        (captureBlock (skipped ++ line :: rest) 0).last = skipped.length := by
  obtain ⟨p, ps, hfirst, hp, rfl, hline⟩ := exists_opening hskipped hquote htext hpre rest
  obtain ⟨q, hq⟩ := exists_returnsAt Int.one_pos hlevel
  have hmem : q ∈ ps := hq.mem
  have hstart : 0 < (skipped ++ line :: rest).length :=
    List.length_pos_of_mem (List.mem_append_right skipped (List.mem_cons_self ..))
  rcases captureBlock_cases hstart with ⟨hnone, -⟩ | ⟨p', after, hfirst', -, hcaptures⟩
  · have hopen := of_dropWhile_eq_cons hfirst
    exact absurd (hnone p hopen.2.1 hopen.1) (by omega)
  · obtain ⟨rfl, rfl⟩ := List.cons.inj (hfirst.symm.trans hfirst')
    rcases hcaptures with ⟨q', hq', hblock⟩ | ⟨hstays, -⟩
    · obtain rfl := (hq.append_right _).unique hq'
      rw [hblock]
      exact ⟨rfl, rfl, hline _ hmem⟩
    · exact absurd (hq.append_right _) hstays.not_returnsAt

/-- A block whose last line has a brace that opens, and none that closes, is not closed. -/
theorem captureBlock_of_notMem (skipped : List Line) (line : Line)
    (hskipped : ∀ l ∈ skipped, '\x7b' ∉ l.text) (hquote : ∀ c ∈ line.text, isStringQuote c = false)
    (htext : line.text = pre ++ '\x7b' :: post) (hpre : '\x7b' ∉ pre) (hpost : '\x7d' ∉ post) :
    (captureBlock (skipped ++ [line]) 0).closed = false := by
  obtain ⟨p, ps, hfirst, hp, rfl, -⟩ := exists_opening hskipped hquote htext hpre []
  have hstays : StaysOpen 1 ((ps ++ places (skipped.length + 1) []).map Place.char) := by
    rw [places, List.append_nil]
    exact staysOpen_of_notMem Int.one_pos hpost
  have hstart : 0 < (skipped ++ [line]).length :=
    List.length_pos_of_mem (List.mem_append_right skipped (List.mem_cons_self ..))
  rcases captureBlock_cases hstart with ⟨-, hblock⟩ | ⟨p', after, hfirst', -, hcaptures⟩
  · rw [hblock]
  · obtain ⟨rfl, rfl⟩ := List.cons.inj (hfirst.symm.trans hfirst')
    rcases hcaptures with ⟨q, hq, -⟩ | ⟨-, hblock⟩
    · exact absurd hq hstays.not_returnsAt
    · rw [hblock]

/-- Without an opening brace no more braces open than close. -/
theorem braceDelta_nonpos (h : '\x7b' ∉ t) : braceDelta t ≤ 0 := by
  refine List.foldlRecOn (motive := fun n : Int => n ≤ 0) _ _ (Int.le_refl 0) fun n hn x hx => ?_
  have hopen : ¬ (x.2 == '\x7b') = true := fun heq =>
    h (beq_iff_eq.mp heq ▸ mem_of_mem_codeChars hx)
  show (if x.2 == '\x7b' then n + 1 else if x.2 == '\x7d' then n - 1 else n) ≤ 0
  rw [if_neg hopen]
  split
  · omega
  · exact hn

end HostScript.Source
