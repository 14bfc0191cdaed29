import HostScript.Proofs.Script.Collapse
import HostScript.Proofs.Script.Rescan
import HostScript.Proofs.Script.Spans

/-!
# Scripts put together

A script that closes what it opens and ends where an expression may start is scanned on its own,
and so is what comes behind it. A script that a line break follows is scanned as it is alone, except
that a span which it leaves open goes on behind it. The names that stand free in the parts are
therefore those that stand free in the whole.
-/

namespace HostScript.Script

/-- What is seen at a character depends on the text before it only through the meaning of a
slash. -/
theorem spanAt?_congr {before before' : Text} (h : regexAllowed before' = regexAllowed before)
    (c : Char) (rest : Text) : spanAt? before' c rest = spanAt? before c rest := by
  rw [spanAt?, spanAt?, slashSpan?, slashSpan?, h]

/-- Pieces after which an expression may start, nearest first. -/
def Opening (w : List Piece) : Prop := ∀ k, Opens (looks (w.take k).reverse)

/-- What is seen of a window ends in what its first piece shows, unless nothing is seen. -/
theorem looks_take_cons (p : Piece) (w : List Piece) (k : Nat) :
    looks ((p :: w).take (k + 1)).reverse = looks (w.take k).reverse ++ p.look := by
  rw [List.take_succ_cons, List.reverse_cons, looks_append]
  exact congrArg (_ ++ ·) List.flatten_singleton

/-- White space behind the start of an expression changes nothing. -/
theorem Opens.concat_blank {u : Text} (hu : Opens u) {b : Char} (hb : isBlank b = true) :
    Opens (u ++ [b]) := by
  have hdot : b ≠ '.' := by
    rintro rfl
    exact absurd hb (by decide)
  have htrim : Text.trimEnd (u ++ [b]) = Text.trimEnd u := by
    rw [Text.trimEnd_append, if_pos (by simp [Text.trimEnd, Text.trimEndOf, hb])]
  refine ⟨?_, by simp [endsIn, hdot], htrim ▸ hu.preceder⟩
  simp [endsIn, isIdentPart_of_isBlank hb]

/-- An expression may start behind certain characters. -/
theorem opens_concat {c : Char} (hc : isRegexPreceder c = true) (x : Text) : Opens (x ++ [c]) := by
  have hall : ∀ d ∈ "(,=:[!&|?\x7b\x7d;+-*%<>~^".toList,
      isIdentPart d = false ∧ d ≠ '.' ∧ isBlank d = false :=
    List.all_iff_forall_prop.mp (by decide)
  have hmem : c ∈ "(,=:[!&|?\x7b\x7d;+-*%<>~^".toList := by
    simpa [isRegexPreceder, among] using hc
  obtain ⟨hident, hdot, hblank⟩ := hall c hmem
  have htrim : Text.trimEnd (x ++ [c]) = x ++ [c] := trimEnd_eq_self (by simp [endsIn, hblank])
  refine ⟨by simp [endsIn, hident], by simp [endsIn, hdot], fun _ => ?_⟩
  rw [htrim]
  simp [endsIn, hc]

theorem opens_nil : Opens [] := ⟨rfl, rfl, fun h => absurd rfl h⟩

/-- An expression may start behind certain characters and white space. -/
theorem opening_spelled {c : Char} (hc : isRegexPreceder c = true) {bs : Text}
    (hbs : ∀ b ∈ bs, isBlank b = true) (w : List Piece) :
    Opening ((spelled (c :: bs)).reverse ++ w) := by
  induction bs using List.reverseRecOn with
  | nil =>
    intro k
    cases k with
    | zero => exact opens_nil
    | succ k => exact looks_take_cons (.code c) w k ▸ opens_concat hc _
  | append_singleton bs b ih =>
    rw [List.forall_mem_append] at hbs
    have hrest := ih hbs.1
    have hsplit : (spelled (c :: (bs ++ [b]))).reverse ++ w =
        .code b :: ((spelled (c :: bs)).reverse ++ w) := by simp [spelled]
    intro k
    rw [hsplit]
    cases k with
    | zero => exact opens_nil
    | succ k =>
      rw [looks_take_cons]
      exact (hrest k).concat_blank (hbs.2 b (List.mem_singleton_self b))

/-- The same behind a text that ends so. -/
theorem opening_append {c : Char} (hc : isRegexPreceder c = true) {bs : Text}
    (hbs : ∀ b ∈ bs, isBlank b = true) (x : Text) (w : List Piece) :
    Opening ((spelled (x ++ c :: bs)).reverse ++ w) := by
  rw [spelled_append, List.reverse_append, List.append_assoc]
  exact opening_spelled hc hbs _

/-- What stands before the start of an expression does not change how the rest is cut. -/
theorem Opening.cut_append {w : List Piece} (hw : Opening w) (v : List Piece) (t : Text) :
    cut (v ++ w) t = cut v t := by
  induction hlen : t.length using Nat.strong_induction_on generalizing v t with
  | _ len ih =>
    subst hlen
    cases t with
    | nil => rfl
    | cons c rest =>
      have hsame : regexAllowed (nearby (v ++ w)) = regexAllowed (nearby v) := by
        rw [nearby_append]
        exact (hw _).regexAllowed_append _
      rw [cut_cons, cut_cons, spanAt?_congr hsame]
      cases spanAt? (nearby v) c rest with
      | none =>
        dsimp only
        rw [← List.cons_append, ih rest.length (by simp) _ _ rfl]
      | some kn =>
        dsimp only
        rw [← List.cons_append, ih (rest.drop kn.2).length (by grind) _ _ rfl]

/-- A piece that is one character of code. -/
def Piece.isCode : Piece → Bool
  | .code _ => true
  | _ => false

/-- At any character but a slash the text before it has no bearing. -/
theorem spanAt?_of_ne_slash {c : Char} (hc : c ≠ '/') (before before' rest : Text) :
    spanAt? before c rest = spanAt? before' c rest := by
  have hslash : (c == '/') = false := beq_eq_false_iff_ne.mpr hc
  simp only [spanAt?, hslash, Bool.false_eq_true, if_false]

/-- Without slashes, what stands before a text has no bearing on how it is cut. -/
theorem cut_of_slash_notMem {t : Text} (ht : '/' ∉ t) (w w' : List Piece) : cut w t = cut w' t := by
  induction hlen : t.length using Nat.strong_induction_on generalizing w w' t with
  | _ len ih =>
    subst hlen
    cases t with
    | nil => rfl
    | cons c rest =>
      rw [List.mem_cons, not_or] at ht
      rw [cut_cons, cut_cons, spanAt?_of_ne_slash (Ne.symm ht.1) (nearby w) (nearby w')]
      cases spanAt? (nearby w') c rest with
      | none =>
        dsimp only
        rw [ih rest.length (by simp) ht.2 _ _ rfl]
      | some kn =>
        have hdrop : '/' ∉ rest.drop kn.2 := fun h => ht.2 (List.mem_of_mem_drop h)
        dsimp only
        rw [ih (rest.drop kn.2).length (by grind) hdrop _ _ rfl]

/-- A span that ends before its text does is the same in any text that goes on. -/
theorem spanAt?_append_of_lt {before : Text} {c : Char} {rest : Text} {kind : SpanKind} {k : Nat}
    (h : spanAt? before c rest = some (kind, k)) (hk : k < rest.length) (y : Text) :
    spanAt? before c (rest ++ y) = some (kind, k) := by
  have hlen : (rest.take k).length = k := List.length_take_of_le hk.le
  have hspan : spanAt? before c (rest.take k ++ rest.drop k) =
      some (kind, (rest.take k).length) := by
    rw [List.take_append_drop, hlen, h]
  have hhead : (rest.drop k).head? = (rest.drop k ++ y).head? := by
    rw [List.head?_append_of_ne_nil _ (by simpa using hk)]
  have happend := spanAt?_append hspan hhead rfl
  rwa [← List.append_assoc, List.take_append_drop, hlen] at happend

/-- A text without slashes that ends in code is cut on its own, whatever follows. -/
theorem cut_append_of_isCode {x : Text} (hx : '/' ∉ x) {w : List Piece}
    (hend : endsIn Piece.isCode (cut w x) = true) (y : Text) :
    cut w (x ++ y) = cut w x ++ cut ((cut w x).reverse ++ w) y := by
  induction hlen : x.length using Nat.strong_induction_on generalizing w x with
  | _ len ih =>
    subst hlen
    cases x with
    | nil => simp [endsIn] at hend
    | cons c rest =>
      rw [List.mem_cons, not_or] at hx
      cases hs : spanAt? (nearby w) c rest with
      | none =>
        rw [cut_of_none hs] at hend
        rw [List.cons_append, cut_of_none hs,
          cut_of_none ((spanAt?_eq_none_congr (Ne.symm hx.1) _ _ _ (rest ++ y)).mp hs)]
        by_cases hrest : cut (.code c :: w) rest = []
        · have hnil : rest = [] := by
            rw [← sources_cut (.code c :: w) rest, hrest]
            rfl
          simp [hnil]
        · rw [← List.singleton_append, endsIn_append _ hrest] at hend
          rw [ih rest.length (by simp) hx.2 hend rfl]
          simp
      | some kn =>
        obtain ⟨kind, k⟩ := kn
        rw [cut_of_some hs] at hend
        have hne : cut (.hidden kind (c :: rest.take k) :: w) (rest.drop k) ≠ [] := by
          intro hnil
          simp [hnil, endsIn, Piece.isCode] at hend
        have hk : k < rest.length := by
          by_contra hle
          rw [List.drop_eq_nil_of_le (by omega)] at hne
          exact hne (cut_nil _)
        have hdrop : '/' ∉ rest.drop k := fun h => hx.2 (List.mem_of_mem_drop h)
        rw [← List.singleton_append, endsIn_append _ hne] at hend
        rw [List.cons_append, cut_of_some hs, cut_of_some (spanAt?_append_of_lt hs hk y),
          List.take_append_of_le_length hk.le, List.drop_append_of_le_length hk.le,
          ih (rest.drop k).length (by grind) hdrop hend rfl]
        simp

/-- Whether pieces, nearest first, are a blank and, before it, a character after which an expression
may start. -/
def opensLine : List Piece → Bool
  | .code b :: .code c :: _ =>
    isBlank b && !isIdentPart b && b != '.' && isRegexPreceder c && !isBlank c
  | _ => false

/-- Behind such pieces an expression may start, whatever stands before them. -/
theorem opening_of_opensLine {w : List Piece} (h : opensLine w = true) (v : List Piece) :
    Opening (w ++ v) := by
  unfold opensLine at h
  split at h
  · rename_i b c w
    simp only [Bool.and_eq_true, Bool.not_eq_true', bne_iff_ne, ne_eq] at h
    obtain ⟨⟨⟨⟨hblank, hident⟩, hdot⟩, hc⟩, hcb⟩ := h
    exact opening_spelled hc (List.forall_mem_singleton.mpr hblank) (w ++ v)
  · cases h

/-- A text that may stand before any script: it holds no slash and ends where an expression may
start. -/
structure IsPrelude (x : Text) : Prop where
  slash : '/' ∉ x
  opens : opensLine (cut [] x).reverse = true

/-- A prelude ends in code that is neither part of a name nor a dot. -/
theorem IsPrelude.ends {x : Text} (h : IsPrelude x) :
    endsIn Piece.isCode (cut [] x) = true ∧ endsIn Piece.isSolid (cut [] x) = false ∧
      endsIn Piece.isDot (cut [] x) = false := by
  have hopens := h.opens
  unfold opensLine at hopens
  split at hopens
  · rename_i b c w hrev
    simp only [Bool.and_eq_true, Bool.not_eq_true', bne_iff_ne, ne_eq] at hopens
    have hlast : (cut [] x).getLast? = some (.code b) := by
      rw [← List.head?_reverse, hrev]
      rfl
    simp [endsIn, hlast, Piece.isCode, Piece.isDot, hopens]
  · cases hopens

/-- A prelude and the script behind it are cut on their own. -/
theorem IsPrelude.cut_append {x : Text} (h : IsPrelude x) (w : List Piece) (y : Text) :
    cut w (x ++ y) = cut [] x ++ cut [] y := by
  have hx := cut_of_slash_notMem h.slash w []
  have hy := (opening_of_opensLine h.opens w).cut_append [] y
  rw [List.nil_append] at hy
  rw [cut_append_of_isCode h.slash (by rw [hx]; exact h.ends.1), hx, hy]

/-- A name stands free among pieces in two parts exactly when it stands free in one of them, unless
the parts meet inside a name or behind a dot. -/
theorem standsAmong_append_iff {n : Text} (hn : IsName n) {ps qs : List Piece}
    (hmeet : startsIn Piece.isSolid qs = true →
      endsIn Piece.isSolid ps = false ∧ endsIn Piece.isDot ps = false) :
    StandsAmong n (ps ++ qs) ↔ StandsAmong n ps ∨ StandsAmong n qs := by
  have hruns : pieceRuns (ps ++ qs) = pieceRuns ps ++ pieceRuns qs := by
    have happend : IsRuns Piece.isSolid (pieceRuns ps ++ pieceRuns qs) := by
      refine isRuns_append_iff.mpr ⟨isRuns_runsOf _ ps, ?_, isRuns_runsOf _ qs⟩
      rw [flatten_runsOf, flatten_runsOf]
      cases hq : startsIn Piece.isSolid qs with
      | false => rw [Bool.and_false]
      | true => rw [(hmeet hq).1, Bool.false_and]
    have h := happend.runsOf_flatten
    rwa [List.flatten_append, flatten_runsOf, flatten_runsOf] at h
  rw [standsAmong_iff hn, standsAmong_iff hn, standsAmong_iff hn, hruns, stands_append_iff,
    behindRuns_runsOf]
  cases hq : startsIn Piece.isSolid qs with
  | true => rw [(hmeet hq).2]
  | false =>
    refine or_congr_right (stands_iff_of_ne_head fun hhead => ?_)
    obtain ⟨ws, hws⟩ := List.head?_eq_some_iff.mp hhead
    have hne := spelled_ne_nil hn
    have hflat : (pieceRuns qs).flatten = qs := flatten_runsOf _ qs
    rw [← hflat, hws, List.flatten_cons, startsIn_append _ hne,
      isSolid_of_mem_spelled hn (List.head_mem hne)] at hq
    cases hq

/-- A script behind which a line breaks: no regular expression goes on there, not even where the
line break is hidden. -/
structure IsCoda (y : Text) : Prop where
  break_ : y.head? = some '\n'
  regex : ∀ inClass, regexRest.go inClass y.tail = none

/-- A string or template either ends in a text as it does when the text goes on, or covers all of
the text. -/
theorem spanLength_append_or (frames : List Frame) (x y : Text) :
    spanLength frames (x ++ y) = spanLength frames x ∨
      spanLength frames x = x.length ∧ x.length ≤ spanLength frames (x ++ y) := by
  induction hlen : x.length using Nat.strong_induction_on generalizing frames x with
  | _ len ih =>
    subst hlen
    cases frames with
    | nil =>
      left
      rw [spanLength, spanLength]
    | cons frame below =>
      cases x with
      | nil => exact Or.inr ⟨spanLength_nil _, Nat.zero_le _⟩
      | cons c rest =>
        cases rest with
        | nil =>
          have hall : spanLength (frame :: below) [c] = 1 := by
            simp [spanLength_cons, spanLength_nil]
          exact Or.inr ⟨hall, spanLength_pos frame below (by simp)⟩
        | cons d rest =>
          have hnil : d :: rest ++ y ≠ [] := List.cons_ne_nil d _
          rw [List.cons_append, spanLength_cons, spanLength_cons]
          by_cases hesc : (frame.escapes && c == '\\') = true
          · have := ih rest.length (by grind) (frame :: below) rest rfl
            rw [if_pos hesc, if_pos hesc, if_neg hnil, if_neg (List.cons_ne_nil d rest)]
            simp only [List.cons_append, List.tail_cons, List.length_cons]
            omega
          rw [if_neg hesc, if_neg hesc, List.head?_append_of_ne_nil _ (List.cons_ne_nil d rest)]
          by_cases hhole : frame = .template ∧ c = '$' ∧ (d :: rest).head? = some '\x7b'
          · have := ih rest.length (by grind) (.hole 0 :: frame :: below) rest rfl
            rw [if_pos hhole, if_pos hhole]
            simp only [List.cons_append, List.tail_cons, List.length_cons]
            omega
          · have := ih (d :: rest).length (by simp) (frame.step below c) (d :: rest) rfl
            rw [if_neg hhole, if_neg hhole]
            simp only [List.length_cons] at this ⊢
            omega

/-- A line comment ends where a text does that a line break follows. -/
theorem IsCoda.lineCommentLength_append {y : Text} (hy : IsCoda y) (x : Text) :
    lineCommentLength (x ++ y) = lineCommentLength x := by
  obtain ⟨y, rfl⟩ := List.head?_eq_some_iff.mp hy.break_
  rw [lineCommentLength, lineCommentLength, List.takeWhile_append]
  split
  · rename_i hx
    simp [hx]
  · rfl

/-- A block comment either ends in a text as it does when the text goes on, or covers all of the
text. -/
theorem blockCommentLength_append_or (x y : Text) :
    blockCommentLength ('/' :: '*' :: (x ++ y)) = blockCommentLength ('/' :: '*' :: x) ∨
      blockCommentLength ('/' :: '*' :: x) = x.length + 2 ∧
        x.length + 2 ≤ blockCommentLength ('/' :: '*' :: (x ++ y)) := by
  rw [blockCommentLength_eq, blockCommentLength_eq]
  cases hx : Text.indexOf? ['*', '/'] x with
  | some i =>
    left
    have hfound : Text.indexOf? ['*', '/'] (x ++ []) = some i := by rw [List.append_nil, hx]
    rw [indexOf?_append hfound (indexOf?_le hx) y]
    rfl
  | none =>
    right
    refine ⟨rfl, ?_⟩
    cases hxy : Text.indexOf? ['*', '/'] (x ++ y) with
    | none => simp
    | some i =>
      -- A mark that lies in the first text would be found there.
      have hlong : ¬ i + 2 ≤ x.length := by
        intro hle
        have hin := indexOf?_append hxy hle []
        rw [List.append_nil, hx] at hin
        cases hin
      simp
      omega

/-- A regular expression does not go on behind a text that a line break follows. -/
theorem IsCoda.regexRest_go_append {y : Text} (hy : IsCoda y) (inClass : Bool) (x : Text) :
    regexRest.go inClass (x ++ y) = regexRest.go inClass x := by
  obtain ⟨y, rfl⟩ := List.head?_eq_some_iff.mp hy.break_
  induction hlen : x.length using Nat.strong_induction_on generalizing inClass x with
  | _ len ih =>
    subst hlen
    cases x with
    | nil => rfl
    | cons c rest =>
      have hrest (b : Bool) := ih rest.length (by simp) b rest rfl
      rw [List.cons_append, regexRest_go_cons, regexRest_go_cons, hrest, hrest, hrest]
      have hflags : (rest ++ '\n' :: y).takeWhile isIdentPart = rest.takeWhile isIdentPart := by
        have hbreak : isIdentPart '\n' = false := by decide
        rw [List.takeWhile_append, List.takeWhile_cons_of_neg (by simp [hbreak])]
        split
        · rename_i hall
          rw [List.append_nil]
          exact ((List.takeWhile_prefix isIdentPart).eq_of_length hall).symm
        · rfl
      have hesc : (if rest ++ '\n' :: y = [] then none
          else (regexRest.go inClass (rest ++ '\n' :: y).tail).map (· + 2)) =
          if rest = [] then none else (regexRest.go inClass rest.tail).map (· + 2) := by
        cases rest with
        | nil => simpa using hy.regex inClass
        | cons d rest =>
          rw [if_neg (by simp), if_neg (List.cons_ne_nil d rest), List.cons_append,
            List.tail_cons, List.tail_cons, ih rest.length (by grind) inClass rest rfl]
      rw [hflags, hesc]

/-- What starts at a slash either ends in a text as it does before a line break, or covers all of
the text. -/
theorem IsCoda.slashSpan?_append {y : Text} (hy : IsCoda y) (before x : Text) :
    slashSpan? before (x ++ y) = slashSpan? before x ∨ ∃ kind k,
      slashSpan? before x = some (kind, x.length) ∧ slashSpan? before (x ++ y) = some (kind, k) ∧
        x.length ≤ k := by
  have hregex : regexRest (x ++ y) = regexRest x := hy.regexRest_go_append false x
  cases x with
  | nil =>
    left
    rw [List.nil_append] at hregex ⊢
    simp [slashSpan?, hy.break_, hregex]
  | cons d x =>
    unfold slashSpan?
    rw [List.cons_append, List.head?_cons, List.head?_cons, ← List.cons_append, hregex,
      hy.lineCommentLength_append]
    split_ifs with hline hblock hallowed
    · exact Or.inl rfl
    · cases hblock
      rw [List.cons_append]
      rcases blockCommentLength_append_or x y with heq | ⟨hall, hle⟩
      · exact Or.inl (by rw [heq])
      · refine Or.inr ⟨.comment, _, ?_, rfl, ?_⟩
        · rw [hall]
          rfl
        · rw [List.length_cons]
          omega
    · exact Or.inl rfl
    · exact Or.inl rfl

/-- A span either ends in a text as it does before a line break, or covers all of the text. -/
theorem IsCoda.spanAt?_append {y : Text} (hy : IsCoda y) (before : Text) (c : Char) (x : Text) :
    spanAt? before c (x ++ y) = spanAt? before c x ∨ ∃ kind k,
      spanAt? before c x = some (kind, x.length) ∧ spanAt? before c (x ++ y) = some (kind, k) ∧
        x.length ≤ k := by
  have hliteral (frames : List Frame) :
      some (SpanKind.literal, spanLength frames (x ++ y)) =
          some (SpanKind.literal, spanLength frames x) ∨ ∃ kind k,
        some (SpanKind.literal, spanLength frames x) = some (kind, x.length) ∧
          some (SpanKind.literal, spanLength frames (x ++ y)) = some (kind, k) ∧ x.length ≤ k := by
    rcases spanLength_append_or frames x y with heq | ⟨hall, hle⟩
    · exact Or.inl (by rw [heq])
    · exact Or.inr ⟨.literal, _, by rw [hall], rfl, hle⟩
  unfold spanAt?
  split_ifs
  · exact hliteral _
  · exact hliteral _
  · exact hy.slashSpan?_append before x
  · exact Or.inl rfl

/-- A script that a line break follows is cut as it is alone, except that a span which it leaves
open goes on. -/
theorem IsCoda.cut_append {y : Text} (hy : IsCoda y) (w : List Piece) (x : Text) :
    (∃ v, cut w (x ++ y) = cut w x ++ cut v y) ∨
      ∃ ps kind span more rest v, kind ≠ .chunk ∧ cut w x = ps ++ [.hidden kind span] ∧
        y = more ++ rest ∧ cut w (x ++ y) = ps ++ .hidden kind (span ++ more) :: cut v rest := by
  induction hlen : x.length using Nat.strong_induction_on generalizing w x with
  | _ len ih =>
    subst hlen
    cases x with
    | nil => exact Or.inl ⟨w, rfl⟩
    | cons c x =>
      -- The first piece is cut off in both texts and the rest is cut on.
      have hstep {p : Piece} {x' : Text} (hx' : x'.length ≤ x.length)
          (hone : cut w (c :: x) = p :: cut (p :: w) x')
          (htwo : cut w (c :: x ++ y) = p :: cut (p :: w) (x' ++ y)) :
          (∃ v, cut w (c :: x ++ y) = cut w (c :: x) ++ cut v y) ∨
            ∃ ps kind span more rest v, kind ≠ .chunk ∧
              cut w (c :: x) = ps ++ [.hidden kind span] ∧ y = more ++ rest ∧
              cut w (c :: x ++ y) = ps ++ .hidden kind (span ++ more) :: cut v rest := by
        rw [hone, htwo]
        rcases ih x'.length (by simp; omega) (p :: w) x' rfl with
          ⟨v, hv⟩ | ⟨ps, kind, span, more, rest, v, hk, hx, hsplit, hxy⟩
        · exact Or.inl ⟨v, by rw [hv, List.cons_append]⟩
        · exact Or.inr ⟨p :: ps, kind, span, more, rest, v, hk, by rw [hx, List.cons_append],
            hsplit, by rw [hxy, List.cons_append]⟩
      rcases hy.spanAt?_append (nearby w) c x with heq | ⟨kind, k, hone, htwo, hle⟩
      · cases hs : spanAt? (nearby w) c x with
        | none =>
          rw [hs] at heq
          exact hstep le_rfl (cut_of_none hs) (cut_of_none heq)
        | some kn =>
          obtain ⟨kind, k⟩ := kn
          rw [hs] at heq
          have hk := spanAt?_le hs
          have hlen : (x.drop k).length ≤ x.length := by simp
          refine hstep hlen (cut_of_some hs) ?_
          rw [List.cons_append, cut_of_some heq, List.take_append_of_le_length hk,
            List.drop_append_of_le_length hk]
      · right
        refine ⟨[], kind, c :: x, y.take (k - x.length), y.drop (k - x.length),
          .hidden kind (c :: (x ++ y).take k) :: w, (of_spanAt?_eq_some hone).1, ?_, ?_, ?_⟩
        · simp [cut_of_some hone]
        · rw [List.take_append_drop]
        · rw [List.cons_append, cut_of_some htwo, List.take_append, List.drop_append,
            List.take_of_length_le hle, List.drop_eq_nil_of_le hle]
          rfl

/-- A name that stands free among pieces is part of what they stand for. -/
theorem StandsAmong.isInfix {n : Text} {ps : List Piece} (h : StandsAmong n ps) :
    n <:+: sources ps := by
  obtain ⟨before, after, rfl, -⟩ := h
  exact ⟨sources before, sources after, by simp⟩

/-- A name that does not occur behind a hidden span stands free before it or nowhere. -/
theorem standsAmong_hidden_iff {n : Text} {ps qs : List Piece} {kind : SpanKind} {span : Text}
    (hk : kind ≠ .chunk) (hqs : ¬ n <:+: sources qs) :
    StandsAmong n (ps ++ .hidden kind span :: qs) ↔
      ∃ before after, ps = before ++ spelled n ++ after ∧ after ≠ [] ∧
        StandsBetween before after := by
  have hsolid : (Piece.hidden kind span).isSolid = true := Piece.isSolid_hidden hk span
  have hcode : Piece.hidden kind span ∉ spelled n := by simp [spelled]
  constructor
  · rintro ⟨before, after, heq, hb⟩
    rcases List.append_eq_append_iff.mp heq with ⟨mid, hbefore, hafter⟩ | ⟨mid, rfl, rfl⟩
    · cases mid with
      | nil =>
        rw [← List.nil_append after, ← hafter] at hb
        have hstart := hb.after_solid
        simp [startsIn, hsolid] at hstart
      | cons q mid =>
        -- The name would have to stand behind the span.
        obtain ⟨rfl, rfl⟩ := List.cons.inj hafter
        rcases List.append_eq_append_iff.mp hbefore with ⟨mid', -, hmid⟩ | ⟨mid', -, hmid⟩
        · exact absurd (hmid ▸ by simp) hcode
        · cases mid' with
          | nil =>
            rw [List.nil_append] at hmid
            exact absurd (hmid ▸ List.mem_cons_self ..) hcode
          | cons q mid' =>
            obtain ⟨-, rfl⟩ := List.cons.inj hmid
            exact absurd ⟨sources mid', sources after, by simp⟩ hqs
    · have hne : mid ≠ [] := by
        rintro rfl
        have hstart := hb.after_solid
        simp [startsIn, hsolid] at hstart
      have hstart := hb.after_solid
      rw [startsIn_append_left _ hne] at hstart
      exact ⟨before, mid, rfl, hne, hb.before_solid, hb.before_dot, hstart⟩
  · rintro ⟨before, after, rfl, hne, hb⟩
    refine ⟨before, after ++ .hidden kind span :: qs, by simp, hb.before_solid, hb.before_dot, ?_⟩
    rw [startsIn_append_left _ hne]
    exact hb.after_solid

/-- The names that stand free in a script stand free before a line break, and no others except those
that follow. -/
theorem IsCoda.standsAmong_iff {y : Text} (hy : IsCoda y) {n : Text} (hn : IsName n)
    (hny : ¬ n <:+: y) (w : List Piece) (x : Text) :
    StandsAmong n (cut w (x ++ y)) ↔ StandsAmong n (cut w x) := by
  rcases hy.cut_append w x with
    ⟨v, hv⟩ | ⟨ps, kind, span, more, rest, v, hk, hx, rfl, hxy⟩
  · have hstart : startsIn Piece.isSolid (cut v y) = false := by
      obtain ⟨y, rfl⟩ := List.head?_eq_some_iff.mp hy.break_
      have hbreak : spanAt? (nearby v) '\n' y = none := rfl
      have hident : isIdentPart '\n' = false := by decide
      simpa [cut_of_none hbreak, startsIn] using hident
    rw [hv, standsAmong_append_iff hn (by rw [hstart]; intro h; cases h), or_iff_left]
    intro h
    exact hny (by simpa using h.isInfix)
  · have hrest : ¬ n <:+: sources (cut v rest) := by
      rw [sources_cut]
      exact fun h => hny (h.trans (List.suffix_append more rest).isInfix)
    rw [hx, hxy, standsAmong_hidden_iff hk hrest, standsAmong_hidden_iff hk (by simp [hn.ne_nil])]

/-- A comment on a line of its own before a script adds no name and hides none. -/
theorem standsAmong_comment_iff {x : Text}
    (hx : spanAt? [] '/' (x ++ ['\n']) = some (.comment, x.length)) {n : Text} (hn : IsName n)
    (y : Text) :
    StandsAmong n (cut [] ('/' :: x ++ '\n' :: y)) ↔
      StandsAmong n (cut [.code '\n', .hidden .comment ('/' :: x)] y) := by
  have hspan : spanAt? (nearby []) '/' (x ++ '\n' :: y) = some (.comment, x.length) :=
    spanAt?_append hx rfl rfl
  have hbreak (w : List Piece) : spanAt? (nearby w) '\n' y = none := rfl
  have hident : isIdentPart '\n' = false := by decide
  have hout : ¬ n <:+: sources [.code '\n'] := by
    intro hin
    obtain ⟨c, hc⟩ := List.exists_mem_of_ne_nil n hn.ne_nil
    have hbreak : c = '\n' := by simpa [Piece.source] using hin.subset hc
    have hpart := hn.isIdentPart c hc
    rw [hbreak, hident] at hpart
    cases hpart
  have hnone : ¬ StandsAmong n ([] ++ .hidden .comment ('/' :: x) :: [.code '\n']) := by
    rw [standsAmong_hidden_iff (by decide) hout]
    rintro ⟨before, after, hnil, hafter, -⟩
    simp [hafter] at hnil
  have hmeet : endsIn Piece.isSolid [.hidden .comment ('/' :: x), .code '\n'] = false ∧
      endsIn Piece.isDot [.hidden .comment ('/' :: x), .code '\n'] = false :=
    ⟨by simpa [endsIn] using hident, rfl⟩
  rw [List.cons_append, cut_of_some hspan, List.take_left, List.drop_left, cut_of_none (hbreak _)]
  exact (standsAmong_append_iff hn fun _ => hmeet).trans (or_iff_right hnone)

end HostScript.Script
