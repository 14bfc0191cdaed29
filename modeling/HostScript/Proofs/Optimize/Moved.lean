import HostScript.Optimize
import HostScript.Proofs.Numeral
import HostScript.Proofs.Script.Recast

/-!
# Expressions that are moved

Turning a small function into an arrow constant, and a loop that fills an array into a map, moves
expressions behind other code. The hidden spans of the script stay the same and are found again when
the new script is scanned, if no moved part ends in a line comment, and if every slash of the code
divides.
-/

namespace HostScript.Script

/-- Whether a character starts no hidden span. -/
def startsNoSpan (c : Char) : Bool := !among "'\"`/" c

/-- Names start no hidden span. -/
theorem startsNoSpan_of_isIdentPart {c : Char} (hc : isIdentPart c = true) :
    startsNoSpan c = true := by
  have hquotes : ∀ d ∈ "'\"`/".toList, isIdentPart d = false :=
    List.all_iff_forall_prop.mp (by decide)
  rw [startsNoSpan, among, Bool.not_eq_true', ← Bool.not_eq_true, List.contains_iff_mem]
  intro hmem
  rw [hquotes c hmem] at hc
  cases hc

/-- White space behind code that is no part of a name is none either. -/
theorem endsIn_append_blanks {x bs : Text} {c : Char} (hc : isIdentPart c = false)
    (hbs : ∀ d ∈ bs, isBlank d = true) : endsIn isIdentPart (x ++ c :: bs) = false := by
  rw [endsIn_append _ (List.cons_ne_nil _ _)]
  rcases List.eq_nil_or_concat' bs with rfl | ⟨bs, d, rfl⟩
  · exact hc
  · rw [← List.cons_append, endsIn, List.getLast?_concat]
    exact isIdentPart_of_isBlank (hbs d (by simp))

/-- Code that starts no hidden span is found where it is put. -/
theorem IsCut.spelled_append {t : Text} (ht : ∀ c ∈ t, startsNoSpan c = true) {w ps : List Piece}
    (h : IsCut ((spelled t).reverse ++ w) ps) : IsCut w (spelled t ++ ps) := by
  induction t generalizing w with
  | nil => exact h
  | cons c t ih =>
    rw [List.forall_mem_cons] at ht
    have hcons : spelled (c :: t) = .code c :: spelled t := rfl
    rw [hcons, List.reverse_cons, List.append_assoc] at h
    have hc : ∀ d ∈ "'\"`/".toList, c ≠ d := by
      rintro d hd rfl
      have hno := ht.1
      rw [startsNoSpan, among, List.contains_iff_mem.mpr hd] at hno
      cases hno
    refine ⟨?_, ih ht.2 h⟩
    unfold spanAt?
    simp [hc '\'' (by decide), hc '"' (by decide), hc '`' (by decide), hc '/' (by decide)]

/-- Inert code between two texts without marks keeps them apart. -/
theorem Unmarked.append_inert_append {x s y : Text} (hx : Unmarked x) (hs : IsInert s)
    (hy : Unmarked y) : Unmarked (x ++ (s ++ y)) := by
  have hfree : ∀ c ∈ s, c ≠ '\x03' ∧ c ∉ markHead := fun c hc => by
    simpa [not_or] using hs.not_mem c hc
  have hhead : ¬ markHead <:+: s := fun hi =>
    (hfree '_' (hi.subset (List.mem_cons_self ..))).2 (List.mem_cons_self ..)
  have hrest : Unmarked (s ++ y) := Unmarked.append ⟨hhead, fun hc => (hfree _ hc).1 rfl⟩ hy
    (Or.inl fun c hc => (hfree c (List.mem_of_getLast? hc)).2)
  refine hx.append hrest (Or.inr fun c hc => ?_)
  rw [List.head?_append_of_ne_nil _ hs.ne_nil] at hc
  exact (hfree c (List.mem_of_head? hc)).2

/-- White space is part of no mark. -/
theorem notMem_mark_of_isBlank {c : Char} (hc : isBlank c = true) : c ∉ '\x03' :: markHead := by
  have hhead : ∀ d ∈ '\x03' :: markHead, isBlank d = false :=
    List.all_iff_forall_prop.mp (by decide)
  intro hmem
  rw [hhead c hmem] at hc
  cases hc

/-- White space starts no name, and what follows it does not either. -/
theorem startsIn_blanks_append {b x : Text} (hb : ∀ c ∈ b, isBlank c = true)
    (hx : startsIn isIdentPart x = false) : startsIn isIdentPart (b ++ x) = false := by
  cases b with
  | nil => exact hx
  | cons c b => exact isIdentPart_of_isBlank (hb c (List.mem_cons_self ..))

/-- Inert code holds no mark. -/
theorem IsInert.unmarked {x : Text} (hx : IsInert x) : Unmarked x := by
  have hnil : Unmarked [] := ⟨by decide, by decide⟩
  simpa using hnil.append_inert_append hx hnil

/-- Pieces that are not blank look like more than white space. -/
theorem trimEnd_look_ne_nil {p : Piece} (hp : p.IsWhole)
    (h : ∀ c, p = .code c → isBlank c = false) : Text.trimEnd p.look ≠ [] := by
  cases hp with
  | code c =>
    have hlook : (Piece.code c).look = [c] := rfl
    rw [hlook, trimEnd_eq_self (by simpa [endsIn] using h c rfl)]
    exact List.cons_ne_nil c []
  | @hidden kind d span hk _ =>
    have hmark := kind.mark_ne_nil 0
    have hlook : (Piece.hidden kind (d :: span)).look = kind.mark 0 := rfl
    rw [hlook, trimEnd_eq_self]
    · exact hmark
    · have hlast := isIdentPart_of_mem_mark hk (List.getLast_mem hmark)
      rw [endsIn_eq _ hmark, ← Bool.not_eq_true]
      intro hblank
      rw [isIdentPart_of_isBlank hblank] at hlast
      cases hlast

/-- What a text ends in that shows a line comment at its end. -/
def EndsInLineComment (spans : List Text) (t : Text) : Prop :=
  ∃ i span, SpanKind.comment.mark i <:+ t ∧ spans[i]? = some ('/' :: '/' :: span)

instance decidableEndsInLineComment (spans : List Text) (t : Text) :
    Decidable (EndsInLineComment spans t) :=
  decidable_of_iff (∃ i ∈ List.range spans.length, SpanKind.comment.mark i <:+ t ∧
    ((spans[i]?.getD []).take 2 = ['/', '/'])) (by
      constructor
      · rintro ⟨i, hi, hmark, hspan⟩
        rw [List.mem_range] at hi
        rw [List.getElem?_eq_getElem hi, Option.getD_some] at hspan
        refine ⟨i, (spans[i]).drop 2, hmark, ?_⟩
        rw [List.getElem?_eq_getElem hi, ← List.take_append_drop 2 spans[i], hspan]
        simp
      · rintro ⟨i, span, hmark, hspan⟩
        obtain ⟨hi, -⟩ := List.getElem?_eq_some_iff.mp hspan
        exact ⟨i, List.mem_range.mpr hi, hmark, by simp [hspan]⟩)

/-- Pieces that end in a line comment show it at their end. -/
theorem endsInLineComment_of_getLast? {x : List Piece} (hx : ∀ p ∈ x, p.IsWhole) {span : Text}
    (hlast : x.getLast? = some (.hidden .comment ('/' :: '/' :: span))) (before after : List Text) :
    EndsInLineComment (before ++ (spansOf x ++ after)) (Piece.assemble before.length x).1 := by
  obtain ⟨u, rfl⟩ := List.getLast?_eq_some_iff.mp hlast
  refine ⟨before.length + (spansOf u).length, span, ?_, ?_⟩
  · rw [assemble_append_fst _ fun p hp => hx p (List.mem_append_left _ hp), Piece.assemble_hidden,
      Piece.assemble_nil, List.append_nil]
    exact List.suffix_append _ _
  · rw [spansOf_append, spansOf_hidden, spansOf_nil, List.getElem?_append_right (by omega),
      Nat.add_sub_cancel_left, List.append_assoc, List.getElem?_append_right (Nat.le_refl _),
      Nat.sub_self]
    rfl

/-- Pieces that do not end in a line comment may be followed by something else, if that does not go
on with a name or a comment. -/
theorem leads_of_getLast? {w x a : List Piece} (hx : ∀ p ∈ x, p.IsWhole) (hcut : IsCut w (x ++ a))
    (hline : ∀ span, x.getLast? ≠ some (.hidden .comment ('/' :: '/' :: span)))
    (ha : sources a ≠ []) {z : Text} {c : Char} (hz : z.head? = some c)
    (hident : isIdentPart c = false) (hslash : c ≠ '/') (hstar : c ≠ '*') :
    ∀ p ∈ x.getLast?, Leads p (sources a) z := by
  intro p hp
  obtain ⟨u, rfl⟩ := List.getLast?_eq_some_iff.mp hp
  rw [List.append_assoc] at hcut
  cases hx p (List.mem_append_right u (List.mem_singleton_self p)) with
  | code d =>
    intro _
    rw [hz]
    exact ⟨fun h => hslash (Option.some.inj h), fun h => hstar (Option.some.inj h)⟩
  | @hidden kind d span hk _ =>
    refine Or.inr ⟨ha, ?_, ?_⟩
    · rw [hz]
      rintro e he
      rw [← Option.some.inj he, hident]
    · rintro rfl hhead
      obtain ⟨span, rfl⟩ := List.head?_eq_some_iff.mp hhead
      have hspan := (isCut_append hcut).1
      obtain rfl : kind = .comment := (congrArg Prod.fst (Option.some.inj hspan)).symm
      exact absurd hp (hline span)

/-- Pieces that are moved are found again. -/
theorem IsCut.moved {w w' x a b : List Piece} (hx : ∀ p ∈ x, p.IsWhole) (hcut : IsCut w (x ++ a))
    (hdivide : SlashesDivide w x) (hkeeps : KeepsMeaning w w' x)
    (hends : ∀ p ∈ x.getLast?, Leads p (sources a) (sources b))
    (hb : IsCut (x.reverse ++ w') b) : IsCut w' (x ++ b) :=
  (@Recast.refl (fun _ _ _ _ => False) w x).isCut
    ⟨nofun, nofun, nofun, nofun, nofun, nofun⟩ nofun hx hcut hdivide hkeeps hends hb

/-- Behind a closing brace and behind a semicolon a slash has the same meaning. -/
theorem keepsMeaning_of_brace {x y w w' ps : List Piece}
    (hdivide : SlashesDivide ((x ++ spelled ['\x7d']).reverse ++ w) ps) :
    KeepsMeaning ((x ++ spelled ['\x7d']).reverse ++ w) ((y ++ spelled [';']).reverse ++ w') ps := by
  rw [List.reverse_append, List.append_assoc] at hdivide ⊢
  rw [List.reverse_append, List.append_assoc]
  exact keepsMeaning_of_same ((opening_spelled (by decide) (by simp) _).regexAllowed_nearby
    (opening_spelled (by decide) (by simp) _)) hdivide

end HostScript.Script

namespace HostScript.Optimize

open Pattern Script

/-!
## Small functions
-/

/-- A small function and the arrow constant in its place, behind a window. -/
inductive Inlines : (w old new rest : List Piece) → Prop
  | intro {w rest : List Piece} {opening bs middle closing : Text} {b : Char} (name : Text)
    (params expression : List Piece) (fresh : Fresh w)
    (hname : ∀ c ∈ name, isIdentPart c = true) (unmarked : Unmarked name)
    (hbs : ∀ c ∈ bs, isBlank c = true) (hb : isBlank b = true)
    (hparams : ∀ span, params.getLast? ≠ some (.hidden .comment ('/' :: '/' :: span)))
    (hexpression : ∀ span, expression.getLast? ≠ some (.hidden .comment ('/' :: '/' :: span)))
    (hstart : ∀ p ∈ expression.head?, Text.trimEnd p.look ≠ [] ∧ p ≠ .code '/') :
    Inlines w
      (spelled (opening ++ '(' :: bs) ++ (params ++ (spelled (middle ++ [b]) ++
        (expression ++ spelled (closing ++ ['\x7d'])))))
      (spelled ("const ".toList ++ name ++ " = (".toList) ++ (params ++ (spelled ") => ".toList ++
        (expression ++ spelled [';'])))) rest

theorem orderly_inlines : Orderly Inlines where
  fresh h := by
    cases h
    assumption
  spans h := by
    cases h
    simp [spansOf_append]
  whole h := by
    cases h
    simp only [List.forall_mem_append]
    exact fun h => ⟨fun _ => isWhole_of_mem_spelled, h.2.1, fun _ => isWhole_of_mem_spelled,
      h.2.2.2.1, fun _ => isWhole_of_mem_spelled⟩
  start h := by
    cases h
    exact ⟨'c', rfl, by decide⟩
  unmarked h := by
    cases h with
    | intro name params expression _ _ hname _ _ _ _ _ =>
      intro hu
      simp only [sources_append, sources_spelled] at hu ⊢
      have hparams : Unmarked (sources params) := hu.of_infix
        ((List.prefix_append _ _).isInfix.trans (List.suffix_append _ _).isInfix)
      have hexpression : Unmarked (sources expression) := hu.of_infix
        ((List.prefix_append _ _).isInfix.trans ((List.suffix_append _ _).isInfix.trans
          ((List.suffix_append _ _).isInfix.trans (List.suffix_append _ _).isInfix)))
      have hend : Unmarked (sources expression ++ ([';'] ++ [])) :=
        hexpression.append_inert_append (.of_all (by simp) (by decide)) ⟨by decide, by decide⟩
      have harrow := hparams.append_inert_append (s := ") => ".toList)
        (.of_all (by simp) (by decide)) hend
      have hopening := hname.append_inert_append (s := " = (".toList)
        (.of_all (by simp) (by decide)) harrow
      have hall := Unmarked.append_inert_append (x := []) (s := "const ".toList)
        ⟨by decide, by decide⟩ (.of_all (by simp) (by decide)) hopening
      simpa using hall
  stop h := by
    cases h
    simp only [sources_append, sources_spelled, List.getLast?_append, List.getLast?_singleton,
      Option.some_or]
    rintro c ⟨⟩
    decide

/-- Behind an arrow constant the scanner goes on as behind the small function. -/
theorem recuts_inlines : Recuts Inlines [] := by
  rintro w w' old new rest hinlines hcut hdivide hwhole
  cases hinlines with
  | @intro _ opening bs middle closing b name params expression _ hname _ hbs hb hparams
    hexpression hstart =>
    simp only [List.forall_mem_append] at hwhole
    obtain ⟨⟨-, hwparams, -, hwexpression, -⟩, -⟩ := hwhole
    have hrest := hdivide.append.2
    have hdmoved := hdivide.append.1.append.2
    have hdparams := hdmoved.append.1
    have hdexpression := hdmoved.append.2.append.2.append.1
    simp only [List.append_assoc] at hcut
    have hcparams := isCut_append hcut
    have hcexpression := isCut_append (isCut_append hcparams)
    refine ⟨?_, fun t ht => ?_⟩
    · have hbrace : spelled (opening ++ '(' :: bs) ++ (params ++ (spelled (middle ++ [b]) ++
          (expression ++ spelled (closing ++ ['\x7d'])))) = spelled (opening ++ '(' :: bs) ++
            (params ++ (spelled (middle ++ [b]) ++ (expression ++ spelled closing))) ++
              spelled ['\x7d'] := by
        simp [spelled_append]
      have hsemicolon : spelled ("const ".toList ++ name ++ " = (".toList) ++ (params ++
          (spelled ") => ".toList ++ (expression ++ spelled [';']))) =
          spelled ("const ".toList ++ name ++ " = (".toList) ++ (params ++
            (spelled ") => ".toList ++ expression)) ++ spelled [';'] := by
        simp
      rw [hbrace] at hrest ⊢
      rw [hsemicolon]
      exact keepsMeaning_of_brace hrest
    · simp only [List.reverse_append, List.append_assoc] at ht ⊢
      have hplain : ∀ c ∈ "const ".toList ++ (name ++ " = (".toList), startsNoSpan c = true := by
        simp only [List.forall_mem_append]
        exact ⟨by decide, fun c hc => startsNoSpan_of_isIdentPart (hname c hc), by decide⟩
      have hopens : "const ".toList ++ (name ++ " = (".toList) =
          "const ".toList ++ (name ++ " = ".toList) ++ ['('] := by simp
      have hparens (v : List Piece) : Opening ((spelled ("const ".toList ++
          (name ++ " = (".toList))).reverse ++ v) := by
        rw [hopens]
        exact opening_append (by decide) (by simp) _ _
      have harrow (v : List Piece) : Opening ((spelled ") => ".toList).reverse ++ v) :=
        opening_append (c := '>') (x := ") =".toList) (by decide) (by decide) v
      refine IsCut.spelled_append hplain (IsCut.moved hwparams hcparams hdparams ?_ ?_
        (IsCut.spelled_append (by decide) (IsCut.moved hwexpression hcexpression hdexpression ?_ ?_
          (IsCut.spelled_append (by decide) ht))))
      · exact keepsMeaning_of_same
          ((opening_append (by decide) hbs opening w).regexAllowed_nearby (hparens w')) hdparams
      · exact leads_of_getLast? hwparams hcparams hparams (by simp) (c := ')') (by simp) (by decide)
          (by decide) (by decide)
      · cases expression with
        | nil => trivial
        | cons p es =>
          obtain ⟨hp, hslash⟩ := hstart p rfl
          have hblank : isIdentPart b = false ∧ b ≠ '.' :=
            ⟨isIdentPart_of_isBlank hb, by rintro rfl; exact absurd hb (by decide)⟩
          have hedge (v : List Piece) : Edge ((spelled (middle ++ [b])).reverse ++ v) := by
            have hlast : (spelled (middle ++ [b])).reverse ++ v =
                .code b :: ((spelled middle).reverse ++ v) := by simp [spelled]
            rw [hlast]
            exact edge_code hblank.1 hblank.2 _
          exact keepsMeaning_of_edge (hedge _) (harrow _) hp hslash hdexpression
      · exact leads_of_getLast? hwexpression hcexpression hexpression (by simp) (c := ';') (by simp)
          (by decide) (by decide) (by decide)

/-- What a fit of a small function consists of. -/
inductive FunctionParts (t name params expression : Text) : Prop
  | intro (opening bs middle closing : Text) (b : Char)
    (split : t = (opening ++ '(' :: bs) ++ (params ++ ((middle ++ [b]) ++
      (expression ++ (closing ++ ['\x7d'])))))
    (ident : ∀ c ∈ name, isIdentPart c = true)
    (head : Unmarked name → Unmarked (opening ++ '(' :: bs))
    (hbs : ∀ c ∈ bs, isBlank c = true) (hb : isBlank b = true)
    (hmiddle : IsInert (middle ++ [b])) (hmiddle' : startsIn isIdentPart (middle ++ [b]) = false)
    (hclosing : IsInert (closing ++ ['\x7d']))
    (hclosing' : startsIn isIdentPart (closing ++ ['\x7d']) = false)

/-- A small function is a name, parameters and an expression with fixed code between them. -/
theorem exists_functionParts {x : Text} {gs : GroupTexts} (h : smallFunction.Spells x gs) :
    ∃ name params expression, gs.lookup 1 = some name ∧ gs.lookup 2 = some params ∧
      gs.lookup 3 = some expression ∧ FunctionParts x name params.trim expression.trim := by
  rw [smallFunction] at h
  obtain ⟨_, rfl, h₁⟩ := h.of_append_lit
  obtain ⟨_, b₅, rfl, hb₅, h₂⟩ := h₁.of_append_blanks
  obtain ⟨_, rfl, h₃⟩ := h₂.of_append_lit
  obtain ⟨_, b₄, rfl, hb₄, h₄⟩ := h₃.of_append_blanks
  obtain ⟨_, e, gs₁, gs₂, rfl, rfl, he, h₅⟩ := h₄.of_append_cap
  obtain ⟨-, -, rfl⟩ := Spells.of_rounds_one he
  obtain ⟨_, g, rfl, hgne, hg, h₆⟩ := h₅.of_append_gap
  obtain ⟨_, rfl, h₇⟩ := h₆.of_append_lit
  obtain ⟨_, b₃, rfl, hb₃, h₈⟩ := h₇.of_append_blanks
  obtain ⟨_, rfl, h₉⟩ := h₈.of_append_lit
  obtain ⟨_, b₂, rfl, hb₂, h₁₀⟩ := h₉.of_append_blanks
  obtain ⟨_, rfl, h₁₁⟩ := h₁₀.of_append_lit
  obtain ⟨_, p, gs₁, gs₂, rfl, rfl, hp, h₁₂⟩ := h₁₁.of_append_cap
  obtain ⟨-, -, rfl⟩ := Spells.of_rounds_one hp
  obtain ⟨_, rfl, h₁₃⟩ := h₁₂.of_append_lit
  obtain ⟨_, b₁, rfl, hb₁, h₁₄⟩ := h₁₃.of_append_blanks
  obtain ⟨_, n, gs₁, gs₂, rfl, rfl, hn, h₁₅⟩ := h₁₄.of_append_cap
  obtain ⟨_, g', rfl, -, hg', h₁₆⟩ := h₁₅.of_append_gap
  obtain ⟨_, rfl, h₁₇⟩ := h₁₆.of_append_lit
  obtain ⟨rfl, rfl⟩ := spells_fresh_iff.mp h₁₇
  have hident : ∀ c ∈ n, isIdentPart c = true :=
    hn.mem_of_within ⟨fun _ => isIdentPart_of_isIdentStart, fun _ => id⟩
  obtain ⟨bs, bp, hpsplit, hbs, hbp⟩ :
      ∃ bs bp, p = bs ++ (p.trim ++ bp) ∧ (∀ c ∈ bs, isBlank c = true) ∧
        ∀ c ∈ bp, isBlank c = true := Text.exists_trimOf isBlank p
  obtain ⟨be, bq, hesplit, hbe, hbq⟩ :
      ∃ be bq, e = be ++ (e.trim ++ bq) ∧ (∀ c ∈ be, isBlank c = true) ∧
        ∀ c ∈ bq, isBlank c = true := Text.exists_trimOf isBlank e
  obtain hnil | ⟨g₀, b, hgb⟩ := List.eq_nil_or_concat' (g ++ be)
  · exact absurd (List.append_eq_nil_iff.mp hnil).1 hgne
  have hblank {t : Text} (ht : ∀ c ∈ t, isBlank c = true) : ∀ c ∈ t, c ∉ '\x03' :: markHead :=
    fun c hc => notMem_mark_of_isBlank (ht c hc)
  have hgbe : ∀ c ∈ g₀ ++ [b], isBlank c = true := hgb ▸ List.forall_mem_append.mpr ⟨hg, hbe⟩
  refine ⟨n, p, e, rfl, rfl, rfl, .intro ("function".toList ++ g' ++ n ++ b₁) bs
    (bp ++ ")".toList ++ b₂ ++ "\x7b".toList ++ b₃ ++ "return".toList ++ g₀)
    (bq ++ b₄ ++ ";".toList ++ b₅) b ?_ hident ?_ hbs (hgbe b (by simp)) ?_ ?_ ?_ ?_⟩
  · generalize p.trim = params at *
    generalize e.trim = expression at *
    have hgap (z : Text) : g ++ (be ++ z) = g₀ ++ b :: z := by
      rw [← List.append_assoc, hgb, List.append_assoc]
      rfl
    subst hpsplit hesplit
    simp [hgap]
  · intro hu
    have hfunction : IsInert ("function".toList ++ g') := by
      refine ⟨by simp, ?_⟩
      rw [List.forall_mem_append]
      exact ⟨by decide, hblank hg'⟩
    have hparen : IsInert (b₁ ++ '(' :: bs) := by
      refine ⟨by simp, ?_⟩
      rw [List.forall_mem_append, List.forall_mem_cons]
      exact ⟨hblank hb₁, by decide, hblank hbs⟩
    have hnil : Unmarked [] := ⟨by decide, by decide⟩
    have hall := hnil.append_inert_append hfunction (hu.append_inert_append hparen hnil)
    simpa using hall
  · refine ⟨by simp, ?_⟩
    simp only [List.append_assoc]
    simp only [List.forall_mem_append]
    exact ⟨hblank hbp, by decide, hblank hb₂, by decide, hblank hb₃, by decide, List.forall_mem_append.mp (hblank hgbe)⟩
  · simp only [List.append_assoc]
    exact startsIn_blanks_append hbp rfl
  · refine ⟨by simp, ?_⟩
    simp only [List.append_assoc, List.forall_mem_append]
    exact ⟨hblank hbq, hblank hb₄, by decide, hblank hb₅, by decide⟩
  · simp only [List.append_assoc]
    exact startsIn_blanks_append hbq (startsIn_blanks_append hb₄ rfl)

/-- A function that can be moved: its name holds no hidden span, neither its parameters nor its
expression end in a line comment, and its expression starts with no slash. -/
structure Movable (spans : List Text) (name params expression : Text) : Prop where
  unmarked : Unmarked name
  closed : ¬ EndsInLineComment spans params ∧ ¬ EndsInLineComment spans expression
  start : expression.head? ≠ some '/'

instance decidableMovable (spans : List Text) (name params expression : Text) :
    Decidable (Movable spans name params expression) :=
  decidable_of_iff (Unmarked name ∧ (¬ EndsInLineComment spans params ∧
    ¬ EndsInLineComment spans expression) ∧ expression.head? ≠ some '/')
    ⟨fun h => ⟨h.1, h.2.1, h.2.2⟩, fun h => ⟨h.unmarked, h.closed, h.start⟩⟩

/-- A function that can be moved is shown by pieces that an arrow constant may replace. -/
theorem exists_inlines {t name params expression : Text}
    (hparts : FunctionParts t name params expression) {before after : List Text} {old : List Piece}
    (hmovable : Movable (before ++ (spansOf old ++ after)) name params expression)
    (hblank : ∀ c ∈ expression.head?, isBlank c = false)
    (hold : ∀ p ∈ old, p.IsWhole) (h : (Piece.assemble before.length old).1 = t)
    {w : List Piece} (hfresh : Fresh w) (rest : List Piece) :
    ∃ new, Inlines w old new rest ∧ (Piece.assemble before.length new).1 =
      "const " ++ name ++ " = (" ++ params ++ ") => " ++ expression ++ ";" := by
  obtain ⟨opening, bs, middle, closing, b, rfl, hname, hhead, hbs, hb, hmiddle, hmiddle', hclosing,
    hclosing'⟩ := hparts
  have hparen : endsIn isIdentPart (opening ++ '(' :: bs) = false :=
    endsIn_append_blanks (by decide) hbs
  have hgap : endsIn isIdentPart (middle ++ [b]) = false := by
    simpa [endsIn] using isIdentPart_of_isBlank hb
  obtain ⟨ps, us, rfl, hps, hus⟩ := exists_enclosed_of_assemble hold (hhead hmovable.unmarked)
    (.of_endsIn hparen) (.of_startsIn (by rw [startsIn_append_left _ hmiddle.ne_nil, hmiddle'])) h
  simp only [List.forall_mem_append] at hold
  obtain ⟨es, vs, rfl, hes, hvs⟩ := exists_enclosed_of_assemble hold.2.2 hmiddle.unmarked
    (.of_endsIn hgap) (.of_startsIn hclosing') hus
  simp only [List.forall_mem_append] at hold
  obtain rfl : vs = spelled (closing ++ ['\x7d']) := by
    rw [eq_spelled_of_assemble hold.2.2.2.2 (hvs ▸ hclosing.unmarked.head), hvs]
  simp only [spansOf_append, spansOf_spelled, List.nil_append, List.append_nil,
    List.append_assoc] at hmovable
  refine ⟨_, .intro name ps es hfresh hname hmovable.unmarked hbs hb ?_ ?_ ?_, ?_⟩
  · intro span hlast
    have hline := endsInLineComment_of_getLast? hold.2.1 hlast before (spansOf es ++ after)
    exact hmovable.closed.1 (hps ▸ hline)
  · intro span hlast
    have hline := endsInLineComment_of_getLast? hold.2.2.2.1 hlast (before ++ spansOf ps) after
    rw [List.length_append, hes, List.append_assoc] at hline
    exact hmovable.closed.2 hline
  · intro p hp
    obtain ⟨fs, rfl⟩ := List.head?_eq_some_iff.mp hp
    have hcode (c : Char) (hc : p = .code c) : expression.head? = some c := by
      rw [← hes, hc, Piece.assemble_code]
      rfl
    refine ⟨trimEnd_look_ne_nil (hold.2.2.2.1 p (List.mem_cons_self ..)) fun c hc => ?_,
      fun hc => hmovable.start (hcode '/' hc)⟩
    exact hblank c (hcode c hc)
  · rw [assemble_append_fst _ fun _ => isWhole_of_mem_spelled, assemble_append_fst _ hold.2.1,
      assemble_append_fst _ fun _ => isWhole_of_mem_spelled, assemble_append_fst _ hold.2.2.2.1]
    simp only [spansOf_spelled, List.length_nil, Nat.add_zero, assemble_spelled, hps, hes]
    simp only [List.append_assoc]
    rfl

/-- The arrow constant in the place of a small function. -/
def arrowConstant (m : Match) : Text :=
  "const " ++ m.group 1 ++ " = (" ++ Text.trim (m.group 2) ++ ") => " ++ Text.trim (m.group 3)
    ++ ";"

/-- The functions that are rephrased from an offset on. -/
def inlinedFrom : (fuel pos : Nat) → Text → List Match
  | 0, _, _ => []
  | fuel + 1, pos, t =>
    match smallFunction.searchAt? t pos with
    | none => []
    | some m =>
      if staysFunction t m then inlinedFrom fuel m.stop t
      else m :: inlinedFrom fuel (m.start + (arrowConstant m).length)
        (m.before ++ arrowConstant m ++ m.after)

/-- A small function ends in a brace. -/
theorem FunctionParts.endsIn_eq_false {t name params expression : Text}
    (h : FunctionParts t name params expression) : endsIn isIdentPart t = false := by
  obtain ⟨opening, bs, middle, closing, b, rfl⟩ := h
  simp only [← List.append_assoc]
  rw [endsIn, List.getLast?_concat]
  decide

/-- A fit of a small function, with what it consists of. -/
theorem of_searchAt?_smallFunction {t : Text} {pos : Nat} {m : Match}
    (h : smallFunction.searchAt? t pos = some m) :
    endsIn isIdentPart m.before = false ∧
      FunctionParts m.text (m.group 1) (Text.trim (m.group 2)) (Text.trim (m.group 3)) := by
  obtain ⟨u, x, v, gs, hsplit, hsubject, hstart, hstop, hspells, hgroups, k, e, hrun⟩ :=
    of_searchAt?_eq_some h
  obtain ⟨name, params, expression, h₁, h₂, h₃, hparts⟩ := exists_functionParts hspells
  have htext : m.text = x := by
    rw [Match.text, Text.slice, hsubject, hstop, hstart, hsplit, ← List.append_assoc,
      ← List.length_append, List.take_left, List.drop_left]
  rw [Match.group, Match.group, Match.group, hgroups, hgroups, hgroups, h₁, h₂, h₃, htext]
  simp only [smallFunction, run_seq] at hrun
  refine ⟨?_, hparts⟩
  rw [Match.before, hsubject, hstart]
  exact endsIn_of_run_fresh hrun

/-- Rephrasing small functions from an offset on recasts the pieces that show the text from there
on, if all the functions can be moved. -/
theorem exists_recast_inlineFrom {fuel pos : Nat} {t : Text} (hpos : pos ≤ t.length)
    {w ds ps : List Piece} (hfresh : Fresh w) (hds : ∀ p ∈ ds, p.IsWhole) (hps : ∀ p ∈ ps, p.IsWhole)
    (hbefore : (Piece.assemble 0 ds).1 = t.take pos)
    (hafter : (Piece.assemble (0 + (spansOf ds).length) ps).1 = t.drop pos)
    (hmovable : ∀ m ∈ inlinedFrom fuel pos t, Movable (spansOf (ds ++ ps)) (m.group 1)
      (Text.trim (m.group 2)) (Text.trim (m.group 3))) :
    ∃ qs, Recast Inlines w ps qs ∧ (Piece.assemble 0 (ds ++ qs)).1 = inlineFrom fuel pos t := by
  have hsame {ds ps : List Piece} {pos : Nat} {t : Text} (hds : ∀ p ∈ ds, p.IsWhole)
      (hbefore : (Piece.assemble 0 ds).1 = t.take pos)
      (hafter : (Piece.assemble (0 + (spansOf ds).length) ps).1 = t.drop pos) :
      (Piece.assemble 0 (ds ++ ps)).1 = t := by
    rw [assemble_append_fst 0 hds, hbefore, hafter, List.take_append_drop]
  induction fuel generalizing pos t w ds ps with
  | zero => exact ⟨ps, .refl w ps, hsame hds hbefore hafter⟩
  | succ fuel ih =>
    rw [inlineFrom]
    rw [inlinedFrom] at hmovable
    cases hsearch : smallFunction.searchAt? t pos with
    | none => exact ⟨ps, .refl w ps, hsame hds hbefore hafter⟩
    | some m =>
      simp only [hsearch] at hmovable
      obtain ⟨hbehind, hparts⟩ := of_searchAt?_smallFunction hsearch
      have hstands : StandsApart m := ⟨.of_endsIn hbehind, .of_endsIn hparts.endsIn_eq_false⟩
      cases fitsFrom_of_searchAt?_eq_some hpos hsearch with
      | cons subject start stop length runs _ =>
        subst subject
        obtain ⟨us, old, rest, rfl, hus, hshow, hold, hrest⟩ :=
          exists_pieces_of_fit start stop length hstands hds hps hbefore hafter
        simp only [List.forall_mem_append] at hps
        have hdsus : ∀ p ∈ ds ++ us, p.IsWhole := List.forall_mem_append.mpr ⟨hds, hps.1⟩
        have hwindow : Fresh (us.reverse ++ w) := by
          refine fresh_of_assemble hps.1 (fun _ => hfresh) (i := 0 + (spansOf ds).length) ?_
          by_cases hnil : (Piece.assemble (0 + (spansOf ds).length) us).1 = []
          · rw [hnil]
            rfl
          · rwa [← hshow, assemble_append_fst 0 hds, endsIn_append _ hnil] at hbehind
        have hnext : Fresh (old.reverse ++ (us.reverse ++ w)) :=
          fresh_of_assemble hps.2.1 (fun _ => hwindow) (by rw [hold, hparts.endsIn_eq_false])
        -- The search goes on behind what stands for the function.
        have hgo {new : List Piece} {x : Text} (hnew : ∀ p ∈ new, p.IsWhole)
            (hspans : spansOf new = spansOf old)
            (hx : (Piece.assemble (0 + (spansOf (ds ++ us)).length) new).1 = x)
            (hlater : ∀ n ∈ inlinedFrom fuel (m.start + x.length) (m.before ++ x ++ m.after),
              Movable (spansOf (ds ++ (us ++ (old ++ rest)))) (n.group 1) (Text.trim (n.group 2))
                (Text.trim (n.group 3))) :
            ∃ qs, Recast Inlines (old.reverse ++ (us.reverse ++ w)) rest qs ∧
              (Piece.assemble 0 (ds ++ us ++ new ++ qs)).1 =
                inlineFrom fuel (m.start + x.length) (m.before ++ x ++ m.after) := by
          have hplace : m.start + x.length = (m.before ++ x).length := by
            rw [List.length_append, Match.before, List.length_take_of_le (stop.trans length)]
          have hall : spansOf (ds ++ us ++ new ++ rest) = spansOf (ds ++ (us ++ (old ++ rest))) := by
            simp only [spansOf_append, hspans, List.append_assoc]
          have hcount : spansOf (ds ++ us ++ new) = spansOf (ds ++ us ++ old) := by
            simp only [spansOf_append, hspans]
          refine ih (hplace ▸ (List.prefix_append _ m.after).length_le) hnext
            (List.forall_mem_append.mpr ⟨hdsus, hnew⟩) hps.2.2 ?_ ?_ (hall ▸ hlater)
          · rw [assemble_append_fst 0 hdsus, hshow, hx, hplace, List.take_left]
          · rw [hcount, hrest, hplace, List.drop_left]
        by_cases hstays : staysFunction m.subject m = true
        · have hfit : m.before ++ m.text = m.subject.take m.stop := before_append_text stop length
          have hplace : m.start + m.text.length = m.stop := by
            rw [Match.text, Text.slice, List.length_drop, List.length_take_of_le length]
            omega
          have htext : m.before ++ m.text ++ m.after = m.subject := by
            rw [hfit, Match.after, List.take_append_drop]
          simp only [hstays, if_true] at hmovable ⊢
          obtain ⟨qs, hqs, hout⟩ := hgo hps.2.1 rfl hold (by rwa [hplace, htext])
          rw [hplace, htext] at hout
          refine ⟨us ++ (old ++ qs), .append_left us (.append_left old hqs), ?_⟩
          rw [← hout]
          simp only [List.append_assoc]
        · rw [Bool.not_eq_true] at hstays
          simp only [hstays, Bool.false_eq_true, if_false] at hmovable ⊢
          rw [List.forall_mem_cons] at hmovable
          have hspans : spansOf (ds ++ (us ++ (old ++ rest))) =
              spansOf (ds ++ us) ++ (spansOf old ++ spansOf rest) := by
            simp only [spansOf_append, List.append_assoc]
          have hlength : 0 + (spansOf (ds ++ us)).length = (spansOf (ds ++ us)).length :=
            Nat.zero_add _
          obtain ⟨new, hinlines, hnew⟩ := exists_inlines hparts (hspans ▸ hmovable.1)
            Text.isBlank_of_head?_trim hps.2.1 (hlength ▸ hold) hwindow rest
          obtain ⟨qs, hqs, hout⟩ := hgo (orderly_inlines.whole hinlines hps.2.1)
            (orderly_inlines.spans hinlines) (by rw [hlength]; exact hnew) hmovable.2
          refine ⟨us ++ (new ++ qs), .append_left us (.swap hinlines hqs), ?_⟩
          change _ = inlineFrom fuel (m.start + (arrowConstant m).length)
            (m.before ++ arrowConstant m ++ m.after)
          rw [← hout]
          simp only [List.append_assoc]

end HostScript.Optimize
