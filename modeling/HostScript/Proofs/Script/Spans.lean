import HostScript.Proofs.Script.PieceRuns
import HostScript.Proofs.Script.Pieces

/-!
# Where hidden spans end

The end of a string, template, comment or regular expression shows in the span itself, except that
a line comment and the flags of a regular expression end before the next character, and that a span
which is not closed ends with the text. A span is therefore found again in any text that goes on
with the same character behind it, or with another one that does not belong to the span.
-/

namespace HostScript.Script

/-- The first character of a span may hide the next one or open a substitution with it. -/
theorem spanLength_cons (frame : Frame) (below : List Frame) (c : Char) (rest : Text) :
    spanLength (frame :: below) (c :: rest) =
      if frame.escapes && c == '\\' then
        if rest = [] then 1 else 2 + spanLength (frame :: below) rest.tail
      else if frame = .template ∧ c = '$' ∧ rest.head? = some '\x7b' then
        2 + spanLength (.hole 0 :: frame :: below) rest.tail
      else 1 + spanLength (frame.step below c) rest := by
  cases rest with
  | nil => simp [spanLength]
  | cons d rest => simp [spanLength, and_assoc]

/-- Nothing is left to cover at the end of a text. -/
theorem spanLength_nil (frames : List Frame) : spanLength frames [] = 0 := by
  cases frames <;> rw [spanLength]

/-- A stack of frames that is not empty covers at least one character. -/
theorem spanLength_pos (frame : Frame) (below : List Frame) {t : Text} (ht : t ≠ []) :
    0 < spanLength (frame :: below) t := by
  obtain ⟨c, rest, rfl⟩ := List.exists_cons_of_ne_nil ht
  rw [spanLength_cons]
  split_ifs <;> omega

/-- A span that ends before the text does ends at the same place in any other text. -/
theorem spanLength_of_closed {frames : List Frame} {x y : Text} (hy : y ≠ [])
    (h : spanLength frames (x ++ y) = x.length) (z : Text) :
    spanLength frames (x ++ z) = x.length := by
  induction hlen : x.length using Nat.strong_induction_on generalizing frames x with
  | _ len ih =>
    subst hlen
    cases frames with
    | nil =>
      rw [spanLength] at h ⊢
      exact h
    | cons frame below =>
      cases x with
      | nil =>
        have hpos := spanLength_pos frame below hy
        rw [List.nil_append, List.length_nil] at h
        omega
      | cons c x =>
        rw [List.cons_append, spanLength_cons, List.length_cons] at h ⊢
        by_cases hesc : (frame.escapes && c == '\\') = true
        · rw [if_pos hesc, if_neg (by simp [hy])] at h
          rw [if_pos hesc]
          cases x with
          | nil =>
            rw [List.length_nil] at h
            omega
          | cons d x =>
            rw [List.cons_append, List.tail_cons, List.length_cons] at h ⊢
            rw [if_neg (List.cons_ne_nil d _), ih x.length (by grind) (by omega) rfl]
            omega
        · rw [if_neg hesc] at h ⊢
          cases x with
          | nil =>
            -- The character closes the last frame, so it does not open a substitution.
            rw [List.nil_append, List.length_nil] at h
            have hstep : frame.step below c = [] := by
              cases hs : frame.step below c with
              | nil => rfl
              | cons f fs =>
                have hpos := spanLength_pos f fs hy
                rw [hs] at h
                split at h <;> omega
            have hhole : ¬ (frame = .template ∧ c = '$' ∧ z.head? = some '\x7b') := by
              rintro ⟨rfl, rfl, -⟩
              cases hstep
            rw [List.nil_append, if_neg hhole, hstep, spanLength]
            rfl
          | cons d x =>
            rw [List.cons_append, List.head?_cons, List.tail_cons] at h ⊢
            rw [List.length_cons] at h ⊢
            split
            · rename_i hhole
              rw [if_pos hhole] at h
              rw [ih x.length (by grind) (by omega) rfl]
              omega
            · rename_i hhole
              rw [if_neg hhole, ← List.cons_append] at h
              rw [← List.cons_append, ih (d :: x).length (by simp)
                (by rw [List.length_cons]; omega) rfl, List.length_cons]
              omega

/-- A string or template is found again where the same character follows, and where it is closed. -/
theorem spanLength_append {frames : List Frame} {x y z : Text}
    (h : spanLength frames (x ++ y) = x.length) (hz : y.head? = z.head? ∨ y ≠ []) :
    spanLength frames (x ++ z) = x.length := by
  cases y with
  | nil =>
    have hnil : z = [] := List.head?_eq_none_iff.mp (hz.resolve_right (· rfl)).symm
    rwa [hnil]
  | cons d y => exact spanLength_of_closed (List.cons_ne_nil d y) h z

/-- A stretch that a text keeps to is found again where the same character follows, or one that does
not belong to it. -/
theorem length_takeWhile_append {f : Char → Bool} {x y z : Text}
    (h : ((x ++ y).takeWhile f).length = x.length)
    (hz : y.head? = z.head? ∨ ∀ c ∈ z.head?, f c = false) :
    ((x ++ z).takeWhile f).length = x.length := by
  rw [List.takeWhile_append] at h ⊢
  split at h
  · rename_i hx
    rw [if_pos hx, List.length_append]
    rw [List.length_append, Nat.add_eq_left, List.length_eq_zero_iff] at h
    have hnil : z.takeWhile f = [] := by
      cases z with
      | nil => rfl
      | cons c z =>
        rcases hz with hz | hz
        · obtain ⟨y', rfl⟩ := List.head?_eq_some_iff.mp hz
          cases hc : f c with
          | false => simp [hc]
          | true => simp [hc] at h
        · rw [List.takeWhile_cons, hz c rfl]
          rfl
    rw [hnil]
    rfl
  · rename_i hx
    exact absurd h hx

/-- The first occurrence of a text is found again in any text that goes on behind it. -/
theorem indexOf?_append {needle x y : Text} {i : Nat}
    (h : Text.indexOf? needle (x ++ y) = some i) (hi : i + needle.length ≤ x.length) (z : Text) :
    Text.indexOf? needle (x ++ z) = some i := by
  induction x generalizing i with
  | nil =>
    have hneedle : needle = [] := by
      rw [List.length_nil] at hi
      exact List.length_eq_zero_iff.mp (by omega)
    subst hneedle
    have hzero (t : Text) : Text.indexOf? [] t = some 0 := by
      cases t <;> rfl
    rw [hzero] at h ⊢
    exact h
  | cons c x ih =>
    have hsame (t : Text) (ht : needle.length ≤ (c :: x).length) :
        needle.isPrefixOf (c :: x ++ t) = needle.isPrefixOf (c :: x) := by
      rw [Bool.eq_iff_iff, List.isPrefixOf_iff_prefix, List.isPrefixOf_iff_prefix]
      exact ⟨fun hp => List.prefix_of_prefix_length_le hp (List.prefix_append _ t) ht,
        fun hp => hp.trans (List.prefix_append _ t)⟩
    have hlen : needle.length ≤ (c :: x).length := by omega
    rw [List.cons_append, Text.indexOf?, ← List.cons_append, hsame _ hlen] at h ⊢
    split
    · rename_i hp
      rw [if_pos hp] at h
      exact h
    · rename_i hp
      rw [if_neg hp] at h
      obtain ⟨j, hj, rfl⟩ := Option.map_eq_some_iff.mp h
      rw [ih hj (by rw [List.length_cons] at hi; omega)]
      rfl

/-- A block comment ends behind its closing mark, or with the text. -/
theorem blockCommentLength_eq (r : Text) :
    blockCommentLength ('/' :: '*' :: r) =
      ((Text.indexOf? ['*', '/'] r).map (· + 4)).getD (r.length + 2) := by
  have hfrom : Text.indexFrom? "*/" ('/' :: '*' :: r) 2 =
      (Text.indexOf? ['*', '/'] r).map (· + 2) := rfl
  rw [blockCommentLength, hfrom]
  cases Text.indexOf? ['*', '/'] r <;> rfl

/-- A block comment is found again where the same character follows, and where it is closed. -/
theorem blockCommentLength_append {x y z : Text} (hx : x.head? = some '*')
    (h : blockCommentLength ('/' :: (x ++ y)) - 1 = x.length)
    (hz : y.head? = z.head? ∨ y ≠ []) :
    blockCommentLength ('/' :: (x ++ z)) - 1 = x.length := by
  obtain ⟨x, rfl⟩ := List.head?_eq_some_iff.mp hx
  rw [List.cons_append, blockCommentLength_eq, List.length_cons] at h ⊢
  cases hi : Text.indexOf? ['*', '/'] (x ++ y) with
  | some i =>
    rw [hi] at h
    have hend : i + 2 = x.length := by
      simp at h
      omega
    rw [indexOf?_append hi (by simp; omega) z]
    simp
    omega
  | none =>
    rw [hi] at h
    simp only [Option.map_none, Option.getD_none, List.length_append] at h
    have hy : y = [] := List.length_eq_zero_iff.mp (by omega)
    subst hy
    have hz : z = [] := List.head?_eq_none_iff.mp (hz.resolve_right (· rfl)).symm
    rw [hz, hi]
    simp

/-- A backslash hides the next character of a regular expression, brackets enclose slashes, and a
line break ends the search. -/
theorem regexRest_go_cons (inClass : Bool) (c : Char) (rest : Text) :
    regexRest.go inClass (c :: rest) =
      if c = '\n' then none
      else if c = '\\' then
        if rest = [] then none else (regexRest.go inClass rest.tail).map (· + 2)
      else if c = '[' then (regexRest.go true rest).map (· + 1)
      else if c = ']' then (regexRest.go false rest).map (· + 1)
      else if c = '/' ∧ inClass = false then some (1 + (rest.takeWhile isIdentPart).length)
      else (regexRest.go inClass rest).map (· + 1) := by
  by_cases hbreak : c = '\n'
  · subst hbreak
    rw [regexRest.go, if_pos rfl]
  by_cases hesc : c = '\\'
  · subst hesc
    cases rest with
    | nil => rfl
    | cons d rest => rfl
  rw [if_neg hbreak, if_neg hesc, regexRest.go]
  · simp
  · exact hbreak
  · exact fun h => absurd h hesc
  · exact fun _ _ h => absurd h hesc

/-- A regular expression covers at least its closing slash. -/
theorem regexRest_go_pos {inClass : Bool} {t : Text} {n : Nat}
    (h : regexRest.go inClass t = some n) : 0 < n := by
  cases t with
  | nil => simp [regexRest.go] at h
  | cons c t =>
    rw [regexRest_go_cons] at h
    split_ifs at h <;> simp at h <;> omega

/-- A regular expression is found again where the same character follows, or one that is no flag. -/
theorem regexRest_go_append {inClass : Bool} {x y z : Text}
    (h : regexRest.go inClass (x ++ y) = some x.length)
    (hz : y.head? = z.head? ∨ ∀ c ∈ z.head?, isIdentPart c = false) :
    regexRest.go inClass (x ++ z) = some x.length := by
  induction hlen : x.length using Nat.strong_induction_on generalizing inClass x with
  | _ len ih =>
    subst hlen
    cases x with
    | nil => exact absurd (regexRest_go_pos h) (by simp)
    | cons c x =>
      -- One more character is covered and the rest is searched on.
      have hnext {b : Bool} (hb : (regexRest.go b (x ++ y)).map (· + 1) = some (x.length + 1)) :
          (regexRest.go b (x ++ z)).map (· + 1) = some (x.length + 1) := by
        obtain ⟨n, hn, hlen⟩ := Option.map_eq_some_iff.mp hb
        obtain rfl : n = x.length := by omega
        rw [ih x.length (by simp) hn rfl]
        rfl
      rw [List.cons_append, regexRest_go_cons, List.length_cons] at h ⊢
      split
      · rename_i hbreak
        simp [hbreak] at h
      rename_i hbreak
      rw [if_neg hbreak] at h
      split
      · rename_i hesc
        rw [if_pos hesc] at h
        cases x with
        | nil =>
          split at h
          · cases h
          · obtain ⟨n, hn, hlen⟩ := Option.map_eq_some_iff.mp h
            rw [List.length_nil] at hlen
            omega
        | cons d x =>
          rw [List.cons_append, if_neg (List.cons_ne_nil d _), List.tail_cons] at h ⊢
          obtain ⟨n, hn, hlen⟩ := Option.map_eq_some_iff.mp h
          obtain rfl : n = x.length := by
            rw [List.length_cons] at hlen
            omega
          rw [ih x.length (by grind) hn rfl]
          rfl
      rename_i hesc
      rw [if_neg hesc] at h
      split
      · rename_i hopen
        rw [if_pos hopen] at h
        exact hnext h
      rename_i hopen
      rw [if_neg hopen] at h
      split
      · rename_i hclose
        rw [if_pos hclose] at h
        exact hnext h
      rename_i hclose
      rw [if_neg hclose] at h
      split
      · rename_i hend
        rw [if_pos hend, Option.some.injEq, Nat.add_comm 1, Nat.add_right_cancel_iff] at h
        rw [length_takeWhile_append h hz, Nat.add_comm]
      · rename_i hend
        rw [if_neg hend] at h
        exact hnext h

/-- What starts at a slash covers at least the next character. -/
theorem slashSpan?_pos {before rest : Text} {kind : SpanKind} {n : Nat}
    (h : slashSpan? before rest = some (kind, n)) : 0 < n := by
  unfold slashSpan? at h
  split_ifs at h with hline hblock hallowed
  · obtain ⟨rest, rfl⟩ := List.head?_eq_some_iff.mp hline
    cases h
    simp [lineCommentLength]
  · obtain ⟨rest, rfl⟩ := List.head?_eq_some_iff.mp hblock
    cases h
    rw [blockCommentLength_eq]
    cases Text.indexOf? ['*', '/'] rest <;> simp
  · obtain ⟨m, hm, hn⟩ := Option.map_eq_some_iff.mp h
    cases hn
    exact regexRest_go_pos hm

/-- What follows a span that starts at a character may be exchanged: the same character follows, or
the text goes on with one that does not belong to the span. -/
def Follows (c : Char) (x y z : Text) : Prop :=
  y.head? = z.head? ∨ y ≠ [] ∧ (∀ d ∈ z.head?, isIdentPart d = false) ∧
    (c = '/' → x.head? = some '/' → ∀ d ∈ z.head?, d = '\n')

/-- What starts at a slash is found again where what follows may be exchanged and a regular
expression may still start. -/
theorem slashSpan?_append {before before' x y z : Text} {kind : SpanKind}
    (h : slashSpan? before (x ++ y) = some (kind, x.length)) (hz : Follows '/' x y z)
    (hbefore : regexAllowed before = true → regexAllowed before' = true) :
    slashSpan? before' (x ++ z) = some (kind, x.length) := by
  have hne : x ≠ [] := List.ne_nil_of_length_pos (slashSpan?_pos h)
  have hhead (t : Text) : (x ++ t).head? = x.head? := List.head?_append_of_ne_nil x hne
  unfold slashSpan? at h ⊢
  rw [hhead] at h ⊢
  split_ifs at h with hline hblock hallowed
  · rw [if_pos hline]
    simp only [Option.some.injEq, Prod.mk.injEq] at h ⊢
    refine ⟨h.1, length_takeWhile_append h.2 (hz.imp_right fun hz d hd => ?_)⟩
    rw [hz.2.2 rfl hline d hd]
    rfl
  · rw [if_neg hline, if_pos hblock]
    simp only [Option.some.injEq, Prod.mk.injEq] at h ⊢
    exact ⟨h.1, blockCommentLength_append hblock h.2 (hz.imp_right And.left)⟩
  · rw [if_neg hline, if_neg hblock, if_pos (hbefore hallowed)]
    obtain ⟨m, hm, hn⟩ := Option.map_eq_some_iff.mp h
    cases hn
    rw [regexRest, regexRest_go_append hm (hz.imp_right fun hz => hz.2.1)]
    rfl

/-- A span is found again where what follows may be exchanged and a regular expression may still
start. -/
theorem spanAt?_append_of_follows {before before' : Text} {c : Char} {x y z : Text}
    {kind : SpanKind} (h : spanAt? before c (x ++ y) = some (kind, x.length))
    (hz : Follows c x y z)
    (hbefore : c = '/' → regexAllowed before = true → regexAllowed before' = true) :
    spanAt? before' c (x ++ z) = some (kind, x.length) := by
  unfold spanAt? at h ⊢
  split_ifs at h ⊢ with hquote htemplate hslash
  · simp only [Option.some.injEq, Prod.mk.injEq] at h ⊢
    exact ⟨h.1, spanLength_append h.2 (hz.imp_right And.left)⟩
  · simp only [Option.some.injEq, Prod.mk.injEq] at h ⊢
    exact ⟨h.1, spanLength_append h.2 (hz.imp_right And.left)⟩
  · obtain rfl := beq_iff_eq.mp hslash
    exact slashSpan?_append h hz (hbefore rfl)

/-- A span is found again where the same character follows and a slash has the same meaning. -/
theorem spanAt?_append {before before' : Text} {c : Char} {x y z : Text} {kind : SpanKind}
    (h : spanAt? before c (x ++ y) = some (kind, x.length)) (hz : y.head? = z.head?)
    (hbefore : regexAllowed before' = regexAllowed before) :
    spanAt? before' c (x ++ z) = some (kind, x.length) :=
  spanAt?_append_of_follows h (.inl hz) fun _ hallowed => hbefore.trans hallowed

/-- A string or template covers no more than there is. -/
theorem spanLength_le (frames : List Frame) (t : Text) : spanLength frames t ≤ t.length := by
  induction hlen : t.length using Nat.strong_induction_on generalizing frames t with
  | _ len ih =>
    subst hlen
    cases frames with
    | nil =>
      rw [spanLength]
      exact Nat.zero_le _
    | cons frame below =>
      cases t with
      | nil => exact (spanLength_nil _).le
      | cons c rest =>
        have hrest (fs : List Frame) := ih rest.length (by simp) fs rest rfl
        rw [spanLength_cons, List.length_cons]
        cases rest with
        | nil =>
          have := hrest (frame.step below c)
          simp only [List.head?_nil, reduceCtorEq, and_false, if_false, if_true] at *
          split <;> omega
        | cons d rest =>
          have htail (fs : List Frame) := ih rest.length (by grind) fs rest rfl
          rw [if_neg (List.cons_ne_nil d rest), List.tail_cons]
          rw [List.length_cons] at *
          split
          · have := htail (frame :: below)
            omega
          · split
            · have := htail (.hole 0 :: frame :: below)
              omega
            · have := hrest (frame.step below c)
              omega

/-- A regular expression covers no more than there is. -/
theorem regexRest_go_le {inClass : Bool} {t : Text} {n : Nat}
    (h : regexRest.go inClass t = some n) : n ≤ t.length := by
  induction hlen : t.length using Nat.strong_induction_on generalizing inClass t n with
  | _ len ih =>
    subst hlen
    cases t with
    | nil => simp [regexRest.go] at h
    | cons c rest =>
      have hnext {b : Bool} (hb : (regexRest.go b rest).map (· + 1) = some n) :
          n ≤ rest.length + 1 := by
        obtain ⟨m, hm, rfl⟩ := Option.map_eq_some_iff.mp hb
        have := ih rest.length (by simp) hm rfl
        omega
      rw [regexRest_go_cons] at h
      rw [List.length_cons]
      split_ifs at h with hbreak hesc hnil hopen hclose hend
      · obtain ⟨m, hm, rfl⟩ := Option.map_eq_some_iff.mp h
        obtain ⟨d, rest, rfl⟩ := List.exists_cons_of_ne_nil hnil
        have := ih rest.length (by grind) hm rfl
        rw [List.length_cons]
        omega
      · exact hnext h
      · exact hnext h
      · cases h
        have := (List.takeWhile_sublist isIdentPart (l := rest)).length_le
        omega
      · exact hnext h

/-- A text that is found lies within the text that is searched. -/
theorem indexOf?_le {needle t : Text} {i : Nat} (h : Text.indexOf? needle t = some i) :
    i + needle.length ≤ t.length := by
  induction t generalizing i with
  | nil =>
    simp only [Text.indexOf?, List.isEmpty_iff, Option.ite_none_right_eq_some,
      Option.some.injEq] at h
    obtain ⟨rfl, rfl⟩ := h
    simp
  | cons c t ih =>
    rw [Text.indexOf?] at h
    split at h
    · rename_i hp
      cases h
      rw [Nat.zero_add]
      exact (List.isPrefixOf_iff_prefix.mp hp).length_le
    · obtain ⟨j, hj, rfl⟩ := Option.map_eq_some_iff.mp h
      have := ih hj
      rw [List.length_cons]
      omega

/-- What starts at a slash covers no more than there is. -/
theorem slashSpan?_le {before rest : Text} {kind : SpanKind} {n : Nat}
    (h : slashSpan? before rest = some (kind, n)) : n ≤ rest.length := by
  unfold slashSpan? at h
  split_ifs at h with hline hblock hallowed
  · cases h
    exact (List.takeWhile_sublist _).length_le
  · obtain ⟨rest, rfl⟩ := List.head?_eq_some_iff.mp hblock
    cases h
    rw [blockCommentLength_eq]
    cases hi : Text.indexOf? ['*', '/'] rest with
    | none => simp
    | some i =>
      have := indexOf?_le hi
      simp at this ⊢
      omega
  · obtain ⟨m, hm, hn⟩ := Option.map_eq_some_iff.mp h
    cases hn
    exact regexRest_go_le hm

/-- A span covers no more than there is. -/
theorem spanAt?_le {before : Text} {c : Char} {rest : Text} {kind : SpanKind} {n : Nat}
    (h : spanAt? before c rest = some (kind, n)) : n ≤ rest.length := by
  unfold spanAt? at h
  split_ifs at h
  · cases h
    exact spanLength_le _ rest
  · cases h
    exact spanLength_le _ rest
  · exact slashSpan?_le h

end HostScript.Script

/-!
## Pieces that are cut again

Pieces need not come from a script. If they are put together to a script, scanning that script gives
the same pieces exactly if at each of them the scanner finds what the piece is: no span at a
character of code, and at a hidden span a span of its kind and length.
-/

namespace HostScript.Script

/-- Behind the pieces of a window, the scanner finds each of the pieces where it stands. -/
def IsCut : (window : List Piece) → List Piece → Prop
  | _, [] => True
  | w, .code c :: ps => spanAt? (nearby w) c (sources ps) = none ∧ IsCut (.code c :: w) ps
  | w, .hidden kind (c :: span) :: ps =>
    spanAt? (nearby w) c (span ++ sources ps) = some (kind, span.length) ∧
      IsCut (.hidden kind (c :: span) :: w) ps
  | _, _ => False

@[simp] theorem isCut_nil (w : List Piece) : IsCut w [] := trivial

@[simp] theorem isCut_code {w ps : List Piece} {c : Char} :
    IsCut w (.code c :: ps) ↔
      spanAt? (nearby w) c (sources ps) = none ∧ IsCut (.code c :: w) ps := Iff.rfl

@[simp] theorem isCut_hidden {w ps : List Piece} {kind : SpanKind} {c : Char} {span : Text} :
    IsCut w (.hidden kind (c :: span) :: ps) ↔
      spanAt? (nearby w) c (span ++ sources ps) = some (kind, span.length) ∧
        IsCut (.hidden kind (c :: span) :: w) ps := Iff.rfl

/-- What is cut out of a script is found there. -/
theorem isCut_cut (w : List Piece) (t : Text) : IsCut w (cut w t) := by
  induction hlen : t.length using Nat.strong_induction_on generalizing w t with
  | _ len ih =>
    subst hlen
    cases t with
    | nil => exact isCut_nil w
    | cons c rest =>
      cases hs : spanAt? (nearby w) c rest with
      | none =>
        rw [cut_of_none hs, isCut_code, sources_cut]
        exact ⟨hs, ih rest.length (by simp) _ rest rfl⟩
      | some found =>
        obtain ⟨kind, n⟩ := found
        rw [cut_of_some hs, isCut_hidden, sources_cut, List.take_append_drop,
          List.length_take_of_le (spanAt?_le hs)]
        refine ⟨hs, ih (rest.drop n).length ?_ _ _ rfl⟩
        rw [List.length_drop, List.length_cons]
        omega

/-- Pieces that the scanner finds are cut out of the script they are put together to. -/
theorem IsCut.cut_sources {w ps : List Piece} (h : IsCut w ps) : cut w (sources ps) = ps := by
  induction ps generalizing w with
  | nil => exact cut_nil w
  | cons p ps ih =>
    match p, h with
    | .code c, ⟨hcode, hrest⟩ =>
      rw [sources_cons, Piece.source, List.singleton_append, cut_of_none hcode, ih hrest]
    | .hidden kind (c :: span), ⟨hspan, hrest⟩ =>
      rw [sources_cons, Piece.source, List.cons_append, cut_of_some hspan, List.take_left,
        List.drop_left, ih hrest]

/-- Scanning a script gives certain pieces exactly if it is put together from them and they are
found in it. -/
theorem isCut_iff {w ps : List Piece} : IsCut w ps ↔ cut w (sources ps) = ps := by
  refine ⟨IsCut.cut_sources, fun h => ?_⟩
  rw [← h]
  exact isCut_cut w (sources ps)

/-- No span starts at a slash that divides. -/
theorem spanAt?_slash_eq_none_iff {before rest : Text} :
    spanAt? before '/' rest = none ↔
      (rest.head? ≠ some '/' ∧ rest.head? ≠ some '*') ∧
        (regexAllowed before = true → regexRest rest = none) := by
  have hslash : spanAt? before '/' rest = slashSpan? before rest := rfl
  rw [hslash, slashSpan?]
  split_ifs with hline hblock hallowed
  · simp [hline]
  · simp [hblock]
  · simp [hline, hblock, hallowed]
  · simp [hline, hblock, hallowed]

/-- At another character than a slash, what comes before and behind it decides nothing. -/
theorem spanAt?_eq_none_congr {c : Char} (hc : c ≠ '/') (before before' rest rest' : Text) :
    spanAt? before c rest = none ↔ spanAt? before' c rest' = none := by
  have hslash : (c == '/') = false := beq_eq_false_iff_ne.mpr hc
  simp only [spanAt?, hslash, Bool.false_eq_true, if_false]
  split_ifs <;> simp

/-- A comment starts at a slash, and it covers another slash or an asterisk. -/
theorem of_spanAt?_eq_comment {before rest : Text} {c : Char} {n : Nat}
    (h : spanAt? before c rest = some (.comment, n)) :
    c = '/' ∧ (rest.head? = some '/' ∨ rest.head? = some '*') := by
  unfold spanAt? at h
  split_ifs at h with hquote htemplate hslash
  · simp at h
  · simp at h
  · refine ⟨beq_iff_eq.mp hslash, ?_⟩
    unfold slashSpan? at h
    split_ifs at h with hline hblock hallowed
    · exact Or.inl hline
    · exact Or.inr hblock
    · simp at h

theorem isCut_append {w ps qs : List Piece} :
    IsCut w (ps ++ qs) → IsCut (ps.reverse ++ w) qs := by
  induction ps generalizing w with
  | nil => exact id
  | cons p ps ih =>
    intro h
    rw [List.reverse_cons, List.append_assoc]
    match p, h with
    | .code c, ⟨_, hrest⟩ => exact ih hrest
    | .hidden kind (c :: span), ⟨_, hrest⟩ => exact ih hrest

end HostScript.Script
