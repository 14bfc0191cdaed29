import HostScript.Proofs.Numeral
import HostScript.Proofs.Script.Pieces

/-!
# Masking loses nothing

A mark is read back from any text that it starts, and nothing else in the shown text is taken for
one as long as the script itself holds neither the four characters that open the mark of a literal
or comment nor the character that opens the mark of a template chunk. Filling in the marks then
gives back what the pieces stand for.
-/

namespace HostScript.Script

/-- What the marks of literals and comments start with. -/
def markHead : Text := ['_', '_', 'J', 'S']

/-- A text in which no mark starts. -/
structure Unmarked (t : Text) : Prop where
  /-- No mark of a literal or a comment starts in it. -/
  head : ¬ markHead <:+: t
  /-- No mark of a template chunk starts in it. -/
  chunk : '\x03' ∉ t

instance decidableUnmarked (t : Text) : Decidable (Unmarked t) :=
  decidable_of_iff (¬ markHead <:+: t ∧ '\x03' ∉ t) ⟨fun h => ⟨h.1, h.2⟩, fun h => ⟨h.1, h.2⟩⟩

/-- Any part of a text without marks has no marks. -/
theorem Unmarked.of_infix {s t : Text} (h : Unmarked t) (hst : s <:+: t) : Unmarked s :=
  ⟨fun hs => h.head (hs.trans hst), fun hs => h.chunk (hst.subset hs)⟩

/-- Two texts without marks make one, if no mark can reach from the one into the other. -/
theorem Unmarked.append {x y : Text} (hx : Unmarked x) (hy : Unmarked y)
    (h : (∀ c, x.getLast? = some c → c ∉ markHead) ∨ ∀ c, y.head? = some c → c ∉ markHead) :
    Unmarked (x ++ y) where
  head := by
    rw [List.infix_append_iff_ne_nil]
    rintro (hin | hin | ⟨a, b, ha, hb, hab, hax, hby⟩)
    · exact hx.head hin
    · exact hy.head hin
    · rcases h with h | h
      · obtain ⟨x', rfl⟩ := hax
        refine h (a.getLast ha) ?_ (hab ▸ List.mem_append_left b (List.getLast_mem ha))
        rw [List.getLast?_append, List.getLast?_eq_some_getLast ha]
        rfl
      · obtain ⟨y', rfl⟩ := hby
        refine h (b.head hb) ?_ (hab ▸ List.mem_append_right a (List.head_mem hb))
        rw [List.head?_append, List.head?_eq_some_head hb]
        rfl
  chunk := by
    rw [List.mem_append, not_or]
    exact ⟨hx.chunk, hy.chunk⟩

/-- A mark is longer than one character. -/
theorem unmarked_singleton {c : Char} (hc : c ≠ '\x03') : Unmarked [c] where
  head h := by simpa [markHead] using h.length_le
  chunk h := hc (List.mem_singleton.mp h).symm

/-- A character that no mark starts with leaves a text without marks. -/
theorem Unmarked.cons {c : Char} {t : Text} (ht : Unmarked t) (hc : c ∉ '\x03' :: markHead) :
    Unmarked (c :: t) := by
  rw [List.mem_cons, not_or] at hc
  refine Unmarked.append (x := [c]) (unmarked_singleton hc.1) ht (Or.inl fun d hd => ?_)
  rw [← Option.some.inj hd]
  exact hc.2

/-- So does a character at the end. -/
theorem Unmarked.concat {c : Char} {t : Text} (ht : Unmarked t) (hc : c ∉ '\x03' :: markHead) :
    Unmarked (t ++ [c]) := by
  rw [List.mem_cons, not_or] at hc
  refine ht.append (unmarked_singleton hc.1) (Or.inr fun d hd => ?_)
  rw [← Option.some.inj hd]
  exact hc.2

/-- A mark starts with the opening of its kind. -/
theorem SpanKind.markStart_isPrefix (kind : SpanKind) :
    markHead <+: kind.markStart ∨ kind.markStart.head? = some '\x03' := by
  cases kind with
  | literal => exact Or.inl (by decide)
  | comment => exact Or.inl (by decide)
  | chunk => exact Or.inr (by decide)

/-- What stands after the number of a mark does not go on with the number. -/
theorem SpanKind.isDigit_markStop (kind : SpanKind) (t : Text) {c : Char}
    (h : (kind.markStop ++ t).head? = some c) : isDigit c = false := by
  cases kind <;> · cases h; decide

/-- Whatever is read as a mark of a kind starts with the opening of that kind. -/
theorem Mark.readKind?_eq_none {kind : SpanKind} {t : Text}
    (h : ¬ kind.markStart <+: t) : Mark.readKind? kind t = none := by
  have hb : kind.markStart.isPrefixOf t = false :=
    Bool.eq_false_iff.mpr fun hp => h (List.isPrefixOf_iff_prefix.mp hp)
  simp only [Mark.readKind?, hb, Bool.false_eq_true, ite_false]

/-- Nothing is read as a mark where no mark can start. -/
theorem Mark.read?_eq_none {t : Text} (h : ¬ markHead <+: t) (hc : t.head? ≠ some '\x03') :
    Mark.read? t = none := by
  have hk (kind : SpanKind) : Mark.readKind? kind t = none := by
    apply Mark.readKind?_eq_none
    intro hp
    rcases kind.markStart_isPrefix with hm | hm
    · exact h (hm.trans hp)
    · obtain ⟨s, rfl⟩ := hp
      rw [List.head?_append, hm] at hc
      exact hc rfl
  simp [Mark.read?, hk]

/-- A mark is read as a mark of its own kind, whatever follows it. -/
theorem Mark.readKind?_mark (kind : SpanKind) (i : Nat) (t : Text) :
    Mark.readKind? kind (kind.mark i ++ t) =
      some ⟨kind, Text.ofNat i, (kind.mark i).length⟩ := by
  have hshape : kind.mark i ++ t = kind.markStart ++ (Text.ofNat i ++ (kind.markStop ++ t)) := by
    simp [SpanKind.mark]
  have hstart : kind.markStart.isPrefixOf (kind.mark i ++ t) = true := by
    rw [hshape]
    simp
  have hrest : (kind.mark i ++ t).drop kind.markStart.length =
      Text.ofNat i ++ (kind.markStop ++ t) := by
    rw [hshape, List.drop_left]
  have hdigits : (Text.ofNat i ++ (kind.markStop ++ t)).takeWhile isDigit = Text.ofNat i :=
    takeWhile_isDigit_ofNat i fun _ => kind.isDigit_markStop t
  have hne : (Text.ofNat i).isEmpty = false := by
    simpa using ofNat_ne_nil i
  simp only [Mark.readKind?, hstart, ite_true, hrest, hdigits, hne, Bool.not_false, Bool.true_and,
    List.drop_left]
  simp [SpanKind.mark, Nat.add_assoc]

/-- The marks of two kinds start differently. -/
theorem SpanKind.not_markStart_isPrefix_mark {k kind : SpanKind} (h : k ≠ kind) (i : Nat)
    (t : Text) : ¬ k.markStart <+: kind.mark i ++ t := by
  intro hp
  have hlen : k.markStart <+: kind.markStart ∨ kind.markStart <+: k.markStart := by
    apply List.prefix_or_prefix_of_prefix hp
    exact ⟨Text.ofNat i ++ kind.markStop ++ t, by simp [SpanKind.mark]⟩
  revert hlen
  cases k <;> cases kind <;> first | exact absurd rfl h | decide

/-- A mark is read back from any text that starts with it. -/
theorem Mark.read?_mark (kind : SpanKind) (i : Nat) (t : Text) :
    Mark.read? (kind.mark i ++ t) = some ⟨kind, Text.ofNat i, (kind.mark i).length⟩ := by
  have hother {k : SpanKind} (h : k ≠ kind) : Mark.readKind? k (kind.mark i ++ t) = none :=
    Mark.readKind?_eq_none (SpanKind.not_markStart_isPrefix_mark h i t)
  have hown := Mark.readKind?_mark kind i t
  cases kind with
  | literal => simp [Mark.read?, hown]
  | comment => simp [Mark.read?, hother (k := .literal) (by decide), hown]
  | chunk =>
    simp [Mark.read?, hother (k := .literal) (by decide), hother (k := .comment) (by decide), hown]

/-- The first characters of a mark. -/
theorem SpanKind.mark_eq_cons (kind : SpanKind) (i : Nat) :
    (∃ m, kind.mark i = '_' :: '_' :: m) ∨ ∃ m, kind.mark i = '\x03' :: m := by
  cases kind with
  | literal => exact Or.inl ⟨_, rfl⟩
  | comment => exact Or.inl ⟨_, rfl⟩
  | chunk => exact Or.inr ⟨_, rfl⟩

/-- No proper end of the opening of a mark starts a mark. -/
theorem SpanKind.not_isPrefix_mark (kind : SpanKind) (i : Nat) (t : Text) {w : Text}
    (hw : w <:+ ['_', 'J', 'S']) (hne : w ≠ []) : ¬ w <+: kind.mark i ++ t := by
  have hcases : w = ['_', 'J', 'S'] ∨ w = ['J', 'S'] ∨ w = ['S'] := by
    simpa [List.suffix_cons_iff, hne] using hw
  obtain ⟨m, hm⟩ | ⟨m, hm⟩ := kind.mark_eq_cons i <;> rw [hm]
  all_goals
    rcases hcases with rfl | rfl | rfl <;> simp [List.cons_prefix_cons]

/-- A text that starts one continuation of `x` starts another one, if whatever of it lies behind `x`
does. -/
theorem isPrefix_append_of_rest {x t u w : Text} (h : w <+: x ++ t)
    (hrest : ∀ v, w = x ++ v → v <+: t → v <+: u) : w <+: x ++ u := by
  rcases List.prefix_or_prefix_of_prefix h (List.prefix_append x t) with hl | ⟨v, rfl⟩
  · exact hl.trans (List.prefix_append x u)
  · rw [List.prefix_append_right_inj] at h ⊢
    exact hrest v rfl h

/-- Where a piece of the shown text begins with a part of the opening of a mark that is not at its
start, that part comes from the script. -/
theorem isPrefix_sources_of_assemble {ps : List Piece} (hf : ∀ p ∈ ps, p.isFlat = true) {i : Nat}
    {w : Text} (hw : w <:+ ['_', 'J', 'S']) (h : w <+: (Piece.assemble i ps).1) :
    w <+: sources ps := by
  induction ps generalizing i w with
  | nil => exact h
  | cons p ps ih =>
    have hps : ∀ q ∈ ps, q.isFlat = true := fun q hq => hf q (List.mem_cons_of_mem _ hq)
    have hcopy {x : Text} (hx : w <+: x ++ (Piece.assemble i ps).1) : w <+: x ++ sources ps := by
      refine isPrefix_append_of_rest hx fun v hv => ih hps (.trans ?_ hw)
      exact hv ▸ List.suffix_append x v
    cases p with
    | code c => exact hcopy (x := [c]) h
    | shown span => exact hcopy h
    | hidden kind span =>
      rw [Piece.assemble_hidden] at h
      by_cases hne : w = []
      · rw [hne]
        exact List.nil_prefix
      · exact absurd h (kind.not_isPrefix_mark i _ hw hne)
    | inner m => exact absurd (hf _ (List.mem_cons_self ..)) (by simp [Piece.isFlat])

/-- No mark is read where the script goes on before the first mark. -/
theorem read?_append_assemble {ps : List Piece} (hf : ∀ p ∈ ps, p.isFlat = true) {i : Nat}
    {s : Text} (hs : s ≠ []) (hu : Unmarked (s ++ sources ps)) :
    Mark.read? (s ++ (Piece.assemble i ps).1) = none := by
  obtain ⟨c, s, rfl⟩ := List.exists_cons_of_ne_nil hs
  apply Mark.read?_eq_none
  · intro hp
    apply hu.head
    apply List.IsPrefix.isInfix
    -- The opening starts in the script, so the rest of it lies in the script too.
    refine isPrefix_append_of_rest hp fun v hv => isPrefix_sources_of_assemble hf ?_
    have htail : ['_', 'J', 'S'] = s ++ v := (List.cons.inj hv).2
    exact ⟨s, htail.symm⟩
  · intro hc
    apply hu.chunk
    have hc : c = '\x03' := by simpa using hc
    simp [hc]

/-- What is left of a piece: of a comment that is dropped a line break if it held one and a space
otherwise, of any other piece all of it. -/
def Piece.left (dropComments : Bool) : Piece → Text
  | .hidden kind span =>
    if dropComments && kind == .comment then (if span.contains '\n' then ['\n'] else [' '])
    else span
  | p => p.source

theorem Piece.left_false (p : Piece) : p.left false = p.source := by
  cases p <;> rfl

namespace Masked

variable {spans : List Text} {dropComments : Bool}

/-- Characters that are already covered are passed over. -/
theorem fillAll_skip (x t : Text) :
    fillAll spans dropComments x.length (x ++ t) = fillAll spans dropComments 0 t := by
  induction x with
  | nil => rfl
  | cons c x ih => simpa only [List.length_cons, List.cons_append, fillAll] using ih

/-- A stretch in which no mark starts is copied. -/
theorem fillAll_copy {x t : Text} (h : ∀ s, s ≠ [] → s <:+ x → Mark.read? (s ++ t) = none) :
    fillAll spans dropComments 0 (x ++ t) = (x ++ ·) <$> fillAll spans dropComments 0 t := by
  induction x with
  | nil => simp
  | cons c x ih =>
    have hread : Mark.read? (c :: (x ++ t)) = none := h (c :: x) (by simp) List.suffix_rfl
    rw [List.cons_append, fillAll, hread]
    dsimp only
    rw [ih fun s hs hsx => h s hs (hsx.trans (List.suffix_cons c x)), Functor.map_map]
    rfl

/-- A mark is read and filled in. -/
theorem fillAll_append_mark (kind : SpanKind) (i : Nat) (t : Text) :
    fillAll spans dropComments 0 (kind.mark i ++ t) =
      (fill spans dropComments ⟨kind, Text.ofNat i, (kind.mark i).length⟩ >>= fun span =>
        (span ++ ·) <$> fillAll spans dropComments 0 t) := by
  have hread := Mark.read?_mark kind i t
  obtain ⟨c, m, hm⟩ : ∃ c m, kind.mark i = c :: m := by
    cases kind <;> exact ⟨_, _, rfl⟩
  rw [hm] at hread ⊢
  rw [List.cons_append, fillAll, ← List.cons_append, hread]
  dsimp only
  rw [List.length_cons, Nat.add_sub_cancel, fillAll_skip]
  cases fillAll spans dropComments 0 t <;> rfl

/-- A mark is replaced by what its number stands for. -/
theorem fillAll_mark {kind : SpanKind} {i : Nat} {span t : Text} (hspan : spans[i]? = some span)
    (hi : i < 10 ^ Number.digitLimit) :
    fillAll spans dropComments 0 (kind.mark i ++ t) =
      ((Piece.hidden kind span).left dropComments ++ ·) <$> fillAll spans dropComments 0 t := by
  have hfill : fill spans dropComments ⟨kind, Text.ofNat i, (kind.mark i).length⟩ =
      .ok ((Piece.hidden kind span).left dropComments) := by
    simp only [fill, readDigits_ofNat hi, bind, Except.bind, hspan, Piece.left]
    cases dropComments <;> cases kind <;> rfl
  rw [fillAll_append_mark, hfill]
  rfl

/-- Filling in the marks of assembled pieces gives what is left of the pieces. -/
theorem fillAll_assemble_left {ps : List Piece} (hf : ∀ p ∈ ps, p.isFlat = true)
    (hu : Unmarked (sources ps)) {i : Nat} (hs : (Piece.assemble i ps).2 <+: spans.drop i)
    (hi : i + (Piece.assemble i ps).2.length ≤ 10 ^ Number.digitLimit) :
    fillAll spans dropComments 0 (Piece.assemble i ps).1 =
      .ok (ps.flatMap (Piece.left dropComments)) := by
  induction ps generalizing i with
  | nil => rfl
  | cons p ps ih =>
    have hps : ∀ q ∈ ps, q.isFlat = true := fun q hq => hf q (List.mem_cons_of_mem _ hq)
    have hups : Unmarked (sources ps) := hu.of_infix (List.suffix_append p.source _).isInfix
    have hcopy {x : Text} (hx : Unmarked (x ++ sources ps)) :
        ∀ s, s ≠ [] → s <:+ x → Mark.read? (s ++ (Piece.assemble i ps).1) = none := by
      intro s hs hsx
      obtain ⟨x', rfl⟩ := hsx
      rw [List.append_assoc] at hx
      exact read?_append_assemble hps hs (hx.of_infix (List.suffix_append x' _).isInfix)
    cases p with
    | code c =>
      change fillAll spans dropComments 0 ([c] ++ (Piece.assemble i ps).1) = _
      rw [fillAll_copy (x := [c]) (hcopy hu), ih hps hups hs hi]
      rfl
    | shown span =>
      rw [Piece.assemble_shown, fillAll_copy (x := span) (hcopy hu), ih hps hups hs hi]
      rfl
    | hidden kind span =>
      rw [Piece.assemble_hidden] at hs hi ⊢
      rw [List.length_cons] at hi
      obtain ⟨more, hmore⟩ := hs
      have hspan : spans[i]? = some span := by
        rw [← List.head?_drop, ← hmore]
        rfl
      have hrest : (Piece.assemble (i + 1) ps).2 <+: spans.drop (i + 1) := by
        rw [← List.tail_drop, ← hmore]
        exact List.prefix_append _ _
      rw [fillAll_mark hspan (by omega), ih hps hups hrest (by omega)]
      rfl
    | inner m => exact absurd (hf _ (List.mem_cons_self ..)) (by simp [Piece.isFlat])

/-- If no comment is dropped, that is the script that the pieces stand for. -/
theorem fillAll_assemble {ps : List Piece} (hf : ∀ p ∈ ps, p.isFlat = true)
    (hu : Unmarked (sources ps)) {i : Nat} (hs : (Piece.assemble i ps).2 <+: spans.drop i)
    (hi : i + (Piece.assemble i ps).2.length ≤ 10 ^ Number.digitLimit) :
    fillAll spans false 0 (Piece.assemble i ps).1 = .ok (sources ps) := by
  rw [fillAll_assemble_left hf hu hs hi, sources, funext Piece.left_false]

end Masked

/-- Nothing is filled in where there is no mark. -/
theorem Masked.restoreText_of_unmarked (m : Masked) {t : Text} (h : Unmarked t) :
    m.restoreText t = .ok t := by
  have hread : ∀ s, s ≠ [] → s <:+ t → Mark.read? (s ++ []) = none := by
    intro s hs hst
    have hsources : Unmarked (s ++ sources []) := by
      rw [sources_nil, List.append_nil]
      exact h.of_infix hst.isInfix
    have hnil : ∀ p ∈ ([] : List Piece), p.isFlat = true := List.forall_mem_nil _
    exact read?_append_assemble hnil (i := 0) hs hsources
  have hcopy : fillAll m.spans false 0 (t ++ []) = (t ++ ·) <$> fillAll m.spans false 0 [] :=
    fillAll_copy hread
  rw [List.append_nil] at hcopy
  rw [restoreText, hcopy]
  simp [fillAll]

/-- Assembling hides at most one span for each character that the pieces stand for. -/
theorem length_spans_le {ps : List Piece} (hf : ∀ p ∈ ps, p.isFlat = true ∧ p.source ≠ [])
    (i : Nat) : (Piece.assemble i ps).2.length ≤ (sources ps).length := by
  induction ps generalizing i with
  | nil => simp
  | cons p ps ih =>
    obtain ⟨hflat, hne⟩ := hf p (List.mem_cons_self ..)
    have hps := ih fun q hq => hf q (List.mem_cons_of_mem _ hq)
    have hpos : 0 < p.source.length := List.length_pos_of_ne_nil hne
    rw [sources_cons, List.length_append]
    cases p with
    | code c => exact Nat.le_add_left_of_le (hps i)
    | shown span => exact Nat.le_add_left_of_le (hps i)
    | hidden kind span =>
      have := hps (i + 1)
      rw [Piece.assemble_hidden, List.length_cons]
      omega
    | inner m => simp [Piece.isFlat] at hflat

/-- Unless templates are opened, masking is undone by restoring, whatever the script leaves open at
its end. The numerals of the marks stay below the digit limit for every script that is not longer
than the power of ten it gives. -/
theorem restore_mask {o : MaskOptions} (ho : o.templates ≠ .chunked) {code : Text}
    (hu : Unmarked code) (hlen : code.length ≤ 10 ^ Number.digitLimit) :
    (mask o code).restore = .ok code := by
  have hf := fun p (hp : p ∈ pieces o code) => flat_of_mem_pieces ho hp
  have hsrc := sources_pieces ho code
  have hspans := length_spans_le hf 0
  rw [hsrc] at hspans
  rw [mask_eq, Masked.restore, Masked.restoreText]
  dsimp only
  rw [Masked.fillAll_assemble (fun p hp => (hf p hp).1) (hsrc.symm ▸ hu) (by simp) (by omega), hsrc]

/-- A script that ends inside a substitution, with names and digits next to its literals. -/
def unclosedScript : Text := "_'a'_1__ / 2; x=/_/g__(`$\x7b \"\\"

/-- Also a script that closes nothing comes back. -/
theorem restore_mask_unclosed :
    Unmarked unclosedScript ∧
      (mask ⟨true, .hidden, true⟩ unclosedScript).restore = .ok unclosedScript := by
  have hu : Unmarked unclosedScript := ⟨by decide, by decide⟩
  have hlen : unclosedScript.length ≤ 10 ^ Number.digitLimit :=
    le_pow_digitLimit (by decide)
  exact ⟨hu, restore_mask (by decide) hu hlen⟩

end HostScript.Script
