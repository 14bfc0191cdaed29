import HostScript.Proofs.Script.Tame
import HostScript.Proofs.Source.Block
import HostScript.Source.Bracket

/-!
# Dividing tame scripts

Trimming a tame script, splitting it at the separators of a list, at a closing bracket, at phrases
or into lines divides none of its literals: literals hold no line break and are passed over by
whoever counts brackets, and neither are marks divided in a shown text. So the parts are tame, and
together they have all the literals.
-/

namespace HostScript.Script

open Source

variable {α : Type} {write : α → Text} {ok : α → Prop} {as : List α} {t : Text} {rule : SplitRule}

/-- Without the separator a text is not split. -/
theorem length_splitTopLevel_le {t : Text}
    (h : ∀ c ∈ t, [c] ≠ rule.separator) : (splitTopLevel rule t).length ≤ 1 := by
  have hnone (depth : Nat) (chars : List (Nat × Char)) (hc : ∀ x ∈ chars, [x.2] ≠ rule.separator) :
      topLevel rule t depth chars = [] := by
    induction chars generalizing depth with
    | nil => rfl
    | cons x chars ih =>
      rw [List.forall_mem_cons] at hc
      have hx : ([x.2] == rule.separator) = false := beq_eq_false_iff_ne.mpr hc.1
      simp only [topLevel, hx, Bool.false_and, Bool.false_eq_true, if_false, ih _ hc.2,
        ite_self]
  rw [splitTopLevel, hnone 0 _ fun x hx => h x.2 (mem_of_mem_codeChars hx)]
  exact (List.length_filter_le _ _)

theorem mem_of_mem_splitTopLevel {t part : Text}
    (h : part ∈ splitTopLevel rule t) : ∀ c ∈ part, c ∈ t := by
  have hparts (start : Nat) (offsets : List Nat) :
      ∀ part ∈ partsAt t start offsets, ∀ c ∈ part, c ∈ t := by
    induction offsets generalizing start with
    | nil =>
      intro part hpart c hc
      obtain rfl := List.mem_singleton.mp hpart
      exact List.mem_of_mem_drop (Text.mem_of_mem_trim c hc)
    | cons pos offsets ih =>
      intro part hpart c hc
      rcases List.mem_cons.mp hpart with rfl | hpart
      · exact List.mem_of_mem_take (List.mem_of_mem_drop (Text.mem_of_mem_trim c hc))
      · exact ih (pos + 1) part hpart c hc
  exact hparts 0 _ part (List.mem_of_mem_filter h)

/-- Trimming takes off code only. -/
theorem Made.trim (h : Made write ok as t) (hne : ∀ a, ok a → write a ≠ [])
    (hsolid : ∀ a, ok a → startsIn isBlank (write a) = false ∧ endsIn isBlank (write a) = false) :
    Made write ok as t.trim := by
  obtain ⟨x, y, ht, hx, hy⟩ := Text.exists_trimOf isBlank t
  have hcode {z : Text} {bs : List α} (hz : ∀ c ∈ z, isBlank c = true) (h : Made write ok bs z) :
      bs = [] := by
    refine (h.code fun a ha => ?_).1
    obtain ⟨c, w, hw⟩ := List.exists_cons_of_ne_nil (hne a ha)
    refine ⟨c, hw ▸ List.mem_cons_self .., fun hmem => ?_⟩
    have hstart := (hsolid a ha).1
    rw [hw] at hstart
    exact absurd (hz c hmem) (by simpa [startsIn] using hstart)
  rw [ht] at h
  obtain ⟨bs, cs, hsub, hfirst, hrest⟩ := h.split fun a ha u v x' y' hwrite hu _ hxu _ => by
    obtain ⟨c, u, rfl⟩ := List.exists_cons_of_ne_nil hu
    have hstart := (hsolid a ha).1
    rw [hwrite] at hstart
    exact absurd (hx c (by rw [hxu]; simp)) (by simpa [startsIn] using hstart)
  obtain ⟨cs', ds, hsub', hinner, hlast⟩ := hrest.split fun a ha u v x' y' hwrite _ hv _ hyv => by
    obtain ⟨v, c, rfl⟩ := (List.eq_nil_or_concat' v).resolve_left hv
    have hend := (hsolid a ha).2
    rw [hwrite, ← List.append_assoc, endsIn, List.getLast?_concat] at hend
    exact absurd (hy c (by rw [hyv]; simp)) (by simpa using hend)
  obtain rfl := hcode hx hfirst
  obtain rfl := hcode hy hlast
  rw [List.append_nil] at hsub'
  exact hinner.mono (List.Subset.trans hsub hsub')

theorem isStringQuote_of_isTameCode {c : Char} (h : isTameCode c = true) : isStringQuote c = false := by
  rw [Bool.eq_false_iff]
  intro hquote
  have hcases : (c = '\x22' ∨ c = '\x27') ∨ c = '\x60' := by simpa [isStringQuote] using hquote
  rcases hcases with (rfl | rfl) | rfl <;> revert h <;> decide

/-- Splitting passes over something in a text. -/
def PassesOver (rule : SplitRule) (w : Text) : Prop :=
  ∀ (t rest : Text) (depth pos : Nat), topLevel rule t depth (codeCharsFrom pos none (w ++ rest)) =
    topLevel rule t depth (codeCharsFrom (pos + w.length) none rest)

theorem made_partsAt (hne : ∀ a, ok a → write a ≠ [])
    (hsolid : ∀ a, ok a → startsIn isBlank (write a) = false ∧ endsIn isBlank (write a) = false)
    (hpass : ∀ a, ok a → PassesOver rule (write a)) {ps : List (Part α)} (mids : List (Part α))
    {pre : Text} (hmids : ∀ p ∈ mids, p.IsTame ok) (hps : ∀ p ∈ ps, p.IsTame ok)
    (ht : t = pre ++ (written write mids ++ written write ps)) (depth : Nat) :
    ∃ ass, (mids ++ ps).filterMap Part.whole? ⊆ ass.flatten ∧
      List.Forall₂ (Made write ok) ass (partsAt t pre.length (topLevel rule t depth
        (codeCharsFrom (pre ++ written write mids).length none (written write ps)))) := by
  induction ps generalizing pre mids depth with
  | nil =>
    have hrest : t.since pre.length = written write mids := by
      rw [ht, Text.since, List.drop_left]
      simp [written]
    refine ⟨[mids.filterMap Part.whole?], by simp, .cons ?_ .nil⟩
    rw [hrest]
    exact Made.trim ⟨mids, hmids, List.Subset.refl _, rfl⟩ hne hsolid
  | cons p ps ih =>
    rw [List.forall_mem_cons] at hps
    have hnext (p : Part α) (hp : p.IsTame ok) : ∀ q ∈ mids ++ [p], q.IsTame ok :=
      List.forall_mem_append.mpr ⟨hmids, List.forall_mem_singleton.mpr hp⟩
    have hshift (p : Part α) : written write (mids ++ [p]) = written write mids ++ p.text write := by
      simp [written]
    have hlist (p : Part α) : mids ++ p :: ps = (mids ++ [p]) ++ ps := by simp
    have htext (p : Part α) (ht : t = pre ++ (written write mids ++ written write (p :: ps))) :
        t = pre ++ (written write (mids ++ [p]) ++ written write ps) := by
      rw [ht, hshift, List.append_assoc]
      rfl
    cases p with
    | whole a =>
      obtain ⟨ass, hsub, hparts⟩ := ih _ (hnext _ hps.1) hps.2 (htext _ ht) depth
      refine ⟨ass, by rw [hlist]; exact hsub, ?_⟩
      have hwhole : written write (.whole a :: ps) = write a ++ written write ps := rfl
      rw [hwhole, hpass a hps.1, ← List.length_append, List.append_assoc]
      rwa [hshift] at hparts
    | code c =>
      have hquote := isStringQuote_of_isTameCode hps.1
      have hcode : codeCharsFrom (pre ++ written write mids).length none (written write (.code c :: ps)) =
          ((pre ++ written write mids).length, c) ::
            codeCharsFrom ((pre ++ written write mids).length + 1) none (written write ps) := by
        change codeCharsFrom _ none (c :: written write ps) = _
        rw [codeCharsFrom, hquote]
        rfl
      have hmore := ih _ (hnext _ hps.1) hps.2 (htext _ ht)
      rw [hshift, ← List.append_assoc, List.length_append, ← hlist] at hmore
      rw [hcode, topLevel]
      split_ifs
      case pos => exact hmore _
      case pos => exact hmore _
      case neg => exact hmore _
      -- The part before a separator ends.
      have hslice : t.slice pre.length (pre ++ written write mids).length = written write mids := by
        rw [ht, Text.slice, ← List.append_assoc, List.take_left, List.drop_left]
      have hlength : (pre ++ written write mids).length + 1 =
          (pre ++ written write mids ++ [c]).length := by simp [Nat.add_assoc]
      have hshape : t = (pre ++ written write mids ++ [c]) ++
          (written write [] ++ written write ps) := by
        rw [ht]
        simp [written, Part.text]
      obtain ⟨ass, hsub, hparts⟩ := ih [] (List.forall_mem_nil _) hps.2 hshape depth
      refine ⟨mids.filterMap Part.whole? :: ass, ?_, ?_⟩
      · rw [List.filterMap_append, List.flatten_cons]
        exact List.append_subset.mpr ⟨List.subset_append_left _ _,
          List.subset_append_of_subset_right _ hsub⟩
      · rw [partsAt, hslice, hlength]
        refine .cons (Made.trim ⟨mids, hmids, List.Subset.refl _, rfl⟩ hne hsolid) ?_
        simpa [written] using hparts

/-- Things are in parts that are not empty. -/
theorem made_filter (hne : ∀ a, ok a → write a ≠ []) {ass : List (List α)} {parts : List Text}
    (h : List.Forall₂ (Made write ok) ass parts) : ∃ bss, ass.flatten ⊆ bss.flatten ∧
      List.Forall₂ (Made write ok) bss (parts.filter (!·.isEmpty)) := by
  induction h with
  | nil => exact ⟨[], List.Subset.refl _, .nil⟩
  | @cons as part ass parts hpart _ ih =>
    obtain ⟨bss, hsub, hbss⟩ := ih
    cases part with
    | nil =>
      obtain ⟨rfl, -⟩ := hpart.code fun a ha => by
        obtain ⟨c, hc⟩ := List.exists_mem_of_ne_nil _ (hne a ha)
        exact ⟨c, hc, List.not_mem_nil⟩
      exact ⟨bss, hsub, hbss⟩
    | cons c part =>
      refine ⟨as :: bss, ?_, .cons hpart hbss⟩
      rw [List.flatten_cons, List.flatten_cons]
      exact List.append_subset.mpr ⟨List.subset_append_left _ _,
        List.subset_append_of_subset_right _ hsub⟩

/-- The parts of a text between separators have its things. -/
theorem Made.splitTopLevel (h : Made write ok as t) (hne : ∀ a, ok a → write a ≠ [])
    (hsolid : ∀ a, ok a → startsIn isBlank (write a) = false ∧ endsIn isBlank (write a) = false)
    (hpass : ∀ a, ok a → PassesOver rule (write a)) :
    ∃ ass, as ⊆ ass.flatten ∧ List.Forall₂ (Made write ok) ass (Source.splitTopLevel rule t) := by
  obtain ⟨ps, hps, has, rfl⟩ := h
  obtain ⟨ass, hsub, hparts⟩ := made_partsAt hne hsolid hpass [] (List.forall_mem_nil _) hps
    (List.nil_append _).symm 0
  obtain ⟨bss, hsub', hbss⟩ := made_filter hne hparts
  exact ⟨bss, List.Subset.trans has (List.Subset.trans hsub hsub'), hbss⟩

/-!
## Splitting scripts and shown texts
-/

/-- A word is passed over where separators and brackets stand outside words. -/
theorem passesOver_word {w : Text} (hw : ∀ c ∈ w, isWord c = true)
    (hrule : ∀ c ∈ rule.openers ++ (rule.closers ++ rule.separator), isWord c = false) :
    PassesOver rule w := by
  intro t rest depth pos
  induction w generalizing pos with
  | nil => rfl
  | cons c w ih =>
    rw [List.forall_mem_cons] at hw
    have hnot (d : Char) (hd : isWord d = false) : c ≠ d := by
      rintro rfl
      rw [hw.1] at hd
      cases hd
    have hquote : isStringQuote c = false := by
      simp [isStringQuote, hnot '\x22' (by decide), hnot '\x27' (by decide), hnot '\x60' (by decide)]
    simp only [List.forall_mem_append] at hrule
    have hopen : c ∉ rule.openers := fun h => hnot c (hrule.1 c h) rfl
    have hclose : c ∉ rule.closers := fun h => hnot c (hrule.2.1 c h) rfl
    have hsep : ([c] == rule.separator) = false := by
      refine beq_eq_false_iff_ne.mpr fun h => ?_
      exact hnot c (hrule.2.2 c (h ▸ List.mem_singleton_self c)) rfl
    have hlength : pos + (c :: w).length = pos + 1 + w.length := by
      rw [List.length_cons]
      omega
    rw [List.cons_append, codeCharsFrom, hquote, hlength, ← ih hw.2 (pos + 1)]
    simp [topLevel, hopen, hclose, hsep]

/-- The quoted part of a literal is passed over. -/
theorem codeCharsFrom_literal {quote : Char} (hquote : quote ≠ '\\') {s : Text}
    (hs : isInside quote s = true) (rest : Text) (pos : Nat) :
    codeCharsFrom pos (some quote) (s ++ quote :: rest) =
      codeCharsFrom (pos + s.length + 1) none rest := by
  fun_induction isInside quote s generalizing pos with
  | case1 =>
    rw [List.nil_append, codeCharsFrom]
    · simp
    · exact fun h _ => hquote h
    · exact fun _ _ h _ => hquote h
  | case2 => cases hs
  | case3 c s ih =>
    rw [Bool.and_eq_true] at hs
    have hlength : pos + ('\\' :: c :: s).length + 1 = pos + 2 + s.length + 1 := by
      simp only [List.length_cons]
      omega
    rw [hlength, ← ih hs.2]
    rfl
  | case4 c s hend hescape ih =>
    rw [Bool.and_eq_true, Bool.and_eq_true, bne_iff_ne, bne_iff_ne] at hs
    have hne : c ≠ '\\' := by
      rintro rfl
      cases s with
      | nil => exact hend rfl rfl
      | cons d s => exact hescape d s rfl rfl
    have hlength : pos + (c :: s).length + 1 = pos + 1 + s.length + 1 := by
      rw [List.length_cons]
      omega
    rw [hlength, ← ih hs.2, List.cons_append, codeCharsFrom]
    · simp [hs.1.1]
    · exact fun h _ => hne h
    · exact fun _ _ h _ => hne h

/-- So a literal is passed over. -/
theorem codeCharsFrom_isLiteral {l : Text} (hl : IsLiteral l) (rest : Text) (pos : Nat) :
    codeCharsFrom pos none (l ++ rest) = codeCharsFrom (pos + l.length) none rest := by
  obtain ⟨quote, hquote, ⟨s, rfl, hs⟩, -⟩ := hl
  have hslash : quote ≠ '\\' := by
    rintro rfl
    revert hquote
    decide
  have hstring : isStringQuote quote = true := by
    revert hquote
    simp [isStringQuote, or_assoc]
  have hlength : pos + (quote :: (s ++ [quote])).length = pos + 1 + s.length + 1 := by
    simp
    omega
  rw [hlength, ← codeCharsFrom_literal hslash hs rest (pos + 1)]
  simp [codeCharsFrom, hstring]

theorem IsLiteral.passesOver {l : Text} (hl : IsLiteral l) : PassesOver rule l := by
  intro t rest depth pos
  rw [codeCharsFrom_isLiteral hl]

theorem IsLiteral.solid {l : Text} (hl : IsLiteral l) :
    startsIn isBlank l = false ∧ endsIn isBlank l = false := by
  obtain ⟨quote, hquote, ⟨s, rfl, -⟩, -⟩ := hl
  have hblank : isBlank quote = false := by
    revert quote
    decide
  refine ⟨hblank, ?_⟩
  rw [← List.cons_append, endsIn, List.getLast?_concat]
  exact hblank

variable {kind : Text → Prop} {ls : List Text} {n : Nat} {is : List Nat}

theorem Scripted.trim (h : Scripted kind ls t) : Scripted kind ls t.trim :=
  Made.trim h (fun _ hl => hl.1.ne_nil) fun _ hl => hl.1.solid

/-- The parts of a script between separators have its literals. -/
theorem Scripted.splitTopLevel (h : Scripted kind ls t) (rule : SplitRule) :
    ∃ lss, ls ⊆ lss.flatten ∧ List.Forall₂ (Scripted kind) lss (Source.splitTopLevel rule t) :=
  Made.splitTopLevel h (fun _ hl => hl.1.ne_nil) (fun _ hl => hl.1.solid)
    fun _ hl => hl.1.passesOver

/-- The parts of a shown text between separators have its marks. -/
theorem Legible.splitTopLevel (h : Legible n is t) (rule : SplitRule)
    (hrule : ∀ c ∈ rule.openers ++ (rule.closers ++ rule.separator), isWord c = false) :
    ∃ iss, is ⊆ iss.flatten ∧
      List.Forall₂ (Legible n) iss (Source.splitTopLevel rule t) := by
  have hword (i : Nat) : ∀ c ∈ SpanKind.literal.mark i, isWord c = true :=
    fun _ => isWord_of_mem_mark
  refine Made.splitTopLevel h (fun i _ => mark_ne_nil i) (fun i _ => ⟨rfl, ?_⟩)
    fun i _ => passesOver_word (hword i) hrule
  rw [mark_literal_eq, ← List.append_assoc]
  exact (endsIn_append _ (by decide) _).trans rfl

/-!
## Brackets, phrases and lines
-/

variable {x u : Text}

/-- Characters outside literals are those of code. -/
theorem exists_part_of_mem_codeCharsFrom {ok : Text → Prop} (hok : ∀ l, ok l → IsLiteral l)
    {ps : List (Part Text)} (hps : ∀ p ∈ ps, p.IsTame ok) {start pos : Nat} {c : Char}
    (h : (pos, c) ∈ Source.codeCharsFrom start none (written id ps)) :
    ∃ ps₁ ps₂, ps = ps₁ ++ .code c :: ps₂ ∧ pos = start + (written id ps₁).length := by
  induction ps generalizing start with
  | nil => cases h
  | cons p ps ih =>
    rw [List.forall_mem_cons] at hps
    cases p with
    | whole l =>
      have hwhole : written id (.whole l :: ps) = l ++ written id ps := rfl
      rw [hwhole, codeCharsFrom_isLiteral (hok l hps.1)] at h
      obtain ⟨ps₁, ps₂, rfl, rfl⟩ := ih hps.2 h
      refine ⟨.whole _ :: ps₁, ps₂, rfl, ?_⟩
      simp [written, Part.text]
      omega
    | code d =>
      have hcode : Source.codeCharsFrom start none (written id (.code d :: ps)) =
          (start, d) :: Source.codeCharsFrom (start + 1) none (written id ps) := by
        change Source.codeCharsFrom start none (d :: written id ps) = _
        rw [Source.codeCharsFrom, isStringQuote_of_isTameCode hps.1]
        rfl
      rw [hcode] at h
      rcases List.mem_cons.mp h with hfirst | h
      · obtain ⟨rfl, rfl⟩ := Prod.mk.inj hfirst
        exact ⟨[], ps, rfl, rfl⟩
      · obtain ⟨ps₁, ps₂, rfl, rfl⟩ := ih hps.2 h
        refine ⟨.code d :: ps₁, ps₂, rfl, ?_⟩
        simp [written, Part.text]
        omega

/-- The bracket that closes another stands in the code of a script. -/
theorem Scripted.of_closing? {u rest : Text} {opener closer : Char} {close : Nat}
    (h : Scripted kind ls rest) (hopener : isTameCode opener = true) (ht : t = u ++ opener :: rest)
    (hcloser : Source.closerOf? opener = some closer)
    (hclose : Source.closing? t u.length = some close) :
    ∃ inner more ms ks, t.slice (u.length + 1) close = inner ∧ t.drop (close + 1) = more ∧
      ls ⊆ ms ++ ks ∧ Scripted kind ms inner ∧ Scripted kind ks more := by
  obtain ⟨inner, more, hrest, hend, hslice, hdrop⟩ :=
    Source.of_closing?_eq_some ht hcloser hclose
  obtain ⟨ps, hps, hls, rfl⟩ := h
  rw [ht, Source.closing?, List.drop_left] at hclose
  simp only [hcloser, Option.bind_some] at hclose
  obtain ⟨pos, hpos, rfl⟩ := Option.map_eq_some_iff.mp hclose
  have hall : ∀ p ∈ (.code opener :: ps : List (Part Text)),
      p.IsTame fun l => IsLiteral l ∧ kind l :=
    List.forall_mem_cons.mpr ⟨hopener, hps⟩
  obtain ⟨ps₁, ps₂, hsplit, rfl⟩ := exists_part_of_mem_codeCharsFrom (fun _ => And.left) hall
    (Source.mem_of_balanceAt? hpos)
  cases ps₁ with
  | nil =>
    obtain ⟨hsame, -⟩ := List.cons.inj hsplit
    cases hsame
    revert hcloser
    rw [Source.closerOf?]
    split_ifs <;> simp_all
  | cons p ps₁ =>
    obtain ⟨rfl, hparts⟩ := List.cons.inj hsplit
    obtain rfl : ps = ps₁ ++ .code closer :: ps₂ := hparts
    rw [List.forall_mem_append, List.forall_mem_cons] at hps
    have hlength : inner.length = (written id ps₁).length := by
      have hcons : written id (.code opener :: ps₁) = opener :: written id ps₁ := rfl
      rw [hcons, List.length_cons] at hend
      omega
    have hwritten : written id (ps₁ ++ .code closer :: ps₂) =
        written id ps₁ ++ closer :: written id ps₂ := written_append _ _
    rw [hwritten] at hrest
    obtain ⟨rfl, hmore⟩ := List.append_inj hrest hlength.symm
    obtain ⟨-, rfl⟩ := List.cons.inj hmore
    refine ⟨_, _, ps₁.filterMap Part.whole?, ps₂.filterMap Part.whole?, hslice, hdrop, ?_,
      ⟨ps₁, hps.1, List.Subset.refl _, rfl⟩, ⟨ps₂, hps.2.2, List.Subset.refl _, rfl⟩⟩
    rw [List.filterMap_append] at hls
    exact hls

/-- A literal without braces holds no phrase that ends in one. -/
theorem not_infix_of_brace {w l : Text} (hl : '\x7b' ∉ l) : ¬ w ++ "\x7b".toList <:+: l := fun h =>
  hl (h.subset (by simp))

/-- A script that phrases without quotes cut in three. -/
theorem Scripted.cut_three {head a b c v w : Text}
    (h : Scripted kind ls (head ++ (a ++ (v ++ (b ++ (w ++ c)))))) (hhead : Quoteless head)
    (hv : Quoteless v ∧ ∀ l, kind l → ¬ v <:+: l) (hw : Quoteless w ∧ ∀ l, kind l → ¬ w <:+: l) :
    ∃ as bs cs, ls ⊆ as ++ (bs ++ cs) ∧
      Scripted kind as a ∧ Scripted kind bs b ∧ Scripted kind cs c := by
  obtain ⟨as, ks, hsub, ha, h⟩ := Scripted.cut (Scripted.cut_start h hhead) hv.1 hv.2
  obtain ⟨bs, cs, hsub', hb, hc⟩ := Scripted.cut h hw.1 hw.2
  exact ⟨as, bs, cs, List.Subset.trans hsub (List.append_subset.mpr ⟨List.subset_append_left _ _,
    List.Subset.trans hsub' (List.subset_append_right _ _)⟩), ha, hb, hc⟩

/-- A tame script with literals of any kind. -/
abbrev PlainScript : List Text → Text → Prop := Scripted fun _ => True

theorem Scripted.forget (h : Scripted kind ls t) : PlainScript ls t := by
  obtain ⟨ps, hps, hls, ht⟩ := h
  exact ⟨ps, fun p hp => (hps p hp).imp fun _ hl => ⟨hl.1, trivial⟩, hls, ht⟩

/-- What keeps the literals of each line keeps those of the script. -/
theorem Scripted.edit_lines {f : Text → Text} (h : Scripted kind ls t)
    (hf : ∀ line ∈ t.lines, ∀ ms, Scripted kind ms line → Scripted kind ms (f line)) :
    Scripted kind ls (Text.unlines (t.lines.map f)) :=
  Made.edit_lines h (fun _ hl => hl.1.ne_nil) (fun _ hl => hl.1.break_notMem) hf

end HostScript.Script
