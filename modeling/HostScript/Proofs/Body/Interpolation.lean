import HostScript.Body.Swift.Interpolation
import HostScript.Proofs.Script.Restore
import HostScript.Proofs.Script.Shown

/-!
# Strings with interpolations become templates

A string with interpolations is put together from stretches of literal text and expressions in
parentheses. The scanner of strings passes over each of them as a whole, so the template is put
together from the same stretches, with the quotes and backticks escaped for their new place.
-/

namespace HostScript.Body.Swift

open Script

/-- Literal text of a string: plain characters, and escapes that mean the same in a template. -/
inductive IsChunk : Text → Prop where
  | nil : IsChunk []
  | plain {c : Char} {t : Text} (hquote : c ≠ '\x22') (hescape : c ≠ '\\') (hbreak : c ≠ '\n')
      (hreturn : c ≠ '\r') (ht : IsChunk t) : IsChunk (c :: t)
  | escape {c : Char} {t : Text} (hparen : c ≠ '(') (htick : c ≠ '\x60') (hdollar : c ≠ '$')
      (hbreak : c ≠ '\n') (hreturn : c ≠ '\r') (ht : IsChunk t) : IsChunk ('\\' :: c :: t)

/-- A text whose parentheses pair up. -/
inductive IsBalanced : Text → Prop where
  | nil : IsBalanced []
  | other {c : Char} {t : Text} (hopen : c ≠ '(') (hclose : c ≠ ')') (ht : IsBalanced t) :
      IsBalanced (c :: t)
  | group {t u : Text} (ht : IsBalanced t) (hu : IsBalanced u) :
      IsBalanced ('(' :: (t ++ ')' :: u))

/-- An expression that can be interpolated as it stands: no string, template or block in it. -/
structure IsExpression (e : Text) : Prop where
  ne_nil : e ≠ []
  trim_eq : e.trim = e
  balanced : IsBalanced e
  quote : '\x22' ∉ e
  apostrophe : '\x27' ∉ e
  tick : '\x60' ∉ e
  backslash : '\\' ∉ e
  openBrace : '\x7b' ∉ e
  closeBrace : '\x7d' ∉ e
  unmarked : Unmarked e

/-- The inside of a string: literal text, and expressions with the literal text after each. -/
def stringInside (chunk : Text) (parts : List (Text × Text)) : Text :=
  chunk ++ parts.flatMap fun (e, c) => '\\' :: '(' :: (e ++ ')' :: c)

/-- A string literal with interpolations. -/
def stringLiteral (chunk : Text) (parts : List (Text × Text)) : Text :=
  '\x22' :: (stringInside chunk parts ++ ['\x22'])

section Span

variable {below : List StringFrame}

attribute [local simp] stringSpan in
/-- The scanner at a character of a string that is no backslash. -/
theorem stringSpan_text_cons {c : Char} (h : c ≠ '\\') (t : Text) :
    stringSpan (.text :: below) (c :: t) =
      if c == '\x22' then 1 + stringSpan below t
      else if c == '\n' then
        (match below with
        | [] => 0
        | _ => 1 + stringSpan below t)
      else 1 + stringSpan (.text :: below) t := by
  cases below <;> simp [h]

/-- The scanner at a character of an interpolation. -/
theorem stringSpan_hole_cons (d : Nat) (c : Char) (t : Text) :
    stringSpan (.hole d :: below) (c :: t) =
      if c == '\x22' then 1 + stringSpan (.text :: .hole d :: below) t
      else if c == '(' then 1 + stringSpan (.hole (d + 1) :: below) t
      else if c == ')' then
        (match d with
        | 0 => 1 + stringSpan below t
        | d + 1 => 1 + stringSpan (.hole d :: below) t)
      else 1 + stringSpan (.hole d :: below) t := by
  cases d <;> rw [stringSpan]

/-- The scanner passes over literal text. -/
theorem stringSpan_chunk {c : Text} (hc : IsChunk c) (t : Text) :
    stringSpan (.text :: below) (c ++ t) = c.length + stringSpan (.text :: below) t := by
  induction hc with
  | nil => simp
  | plain hquote hescape hbreak hreturn _ ih =>
    simp [stringSpan_text_cons hescape, hquote, hbreak, ih]
    omega
  | escape hparen _ _ _ _ _ ih =>
    simp [stringSpan, ih]
    omega

/-- Inside an interpolation, the scanner passes over a text whose parentheses pair up. -/
theorem stringSpan_balanced {e : Text} (he : IsBalanced e) (hquote : '\x22' ∉ e) (d : Nat)
    (t : Text) :
    stringSpan (.hole d :: below) (e ++ t) = e.length + stringSpan (.hole d :: below) t := by
  induction he generalizing d t with
  | nil => simp
  | @other c u hopen hclose _ ih =>
    simp only [List.mem_cons, not_or] at hquote
    obtain ⟨hc, hu⟩ := hquote
    simp [stringSpan_hole_cons, Ne.symm hc, hopen, hclose, ih hu]
    omega
  | @group v u _ _ ihv ihu =>
    simp only [List.mem_cons, List.mem_append, not_or] at hquote
    obtain ⟨-, hv, -, hu⟩ := hquote
    simp [stringSpan_hole_cons, ihv hv, ihu hu]
    omega

/-- The scanner leaves an interpolation behind its closing parenthesis. -/
theorem stringSpan_hole {e : Text} (he : IsBalanced e) (hquote : '\x22' ∉ e) (t : Text) :
    stringSpan (.hole 0 :: below) (e ++ ')' :: t) = e.length + 1 + stringSpan below t := by
  rw [stringSpan_balanced he hquote, stringSpan_hole_cons]
  simp
  omega

/-- The scanner finds the end of a string behind all its interpolations. -/
theorem stringSpan_inside {parts : List (Text × Text)}
    (hparts : ∀ p ∈ parts, IsExpression p.1 ∧ IsChunk p.2) {chunk : Text} (hchunk : IsChunk chunk) :
    stringSpan [.text] (stringInside chunk parts ++ ['\x22']) =
      (stringInside chunk parts).length + 1 := by
  rw [stringInside, List.append_assoc, stringSpan_chunk hchunk]
  induction parts with
  | nil => simp [stringSpan]
  | cons p parts ih =>
    obtain ⟨hp, hrest⟩ := List.forall_mem_cons.mp hparts
    have htail := ih hrest
    simp only [List.flatMap_cons, List.append_assoc, List.cons_append, stringSpan,
      stringSpan_hole hp.1.balanced hp.1.quote, stringSpan_chunk hp.2, List.length_append,
      List.length_cons] at htail ⊢
    omega

end Span

section Template

variable {inner : Text → Text}

attribute [local simp] templateBody in
/-- Characters that are already written are passed over. -/
theorem templateBody_skip (x t : Text) :
    templateBody inner x.length (x ++ t) = templateBody inner 0 t := by
  induction x with
  | nil => rfl
  | cons c x ih => simpa using ih

/-- A character of literal text that is neither a backslash nor the start of a substitution. -/
theorem templateBody_cons {c : Char} {t : Text} (hescape : c ≠ '\\')
    (hdollar : c = '$' → t.head? ≠ some '\x7b') :
    templateBody inner 0 (c :: t) =
      (if c == '\x60' then ['\\', c] else [c]) ++ templateBody inner 0 t := by
  rw [templateBody]
  · exact fun _ h => absurd h hescape
  · exact fun _ _ h => absurd h hescape
  · rintro _ hc rfl
    exact hdollar hc rfl

/-- A dollar sign before a brace is escaped. -/
theorem templateBody_dollar_brace (t : Text) :
    templateBody inner 0 ('$' :: '\x7b' :: t) =
      '\\' :: '$' :: templateBody inner 0 ('\x7b' :: t) := by
  rw [templateBody, templateBody_cons (by decide) fun h => absurd h (by decide)]
  rfl

/-- Literal text is rephrased on its own unless a brace follows. -/
theorem templateBody_chunk {c : Text} (hc : IsChunk c) {t : Text} (ht : t.head? ≠ some '\x7b') :
    templateBody inner 0 (c ++ t) = templateBody inner 0 c ++ templateBody inner 0 t := by
  induction hc with
  | nil => simp [templateBody]
  | @plain c u _ hescape _ _ _ ih =>
    by_cases hbrace : c = '$' ∧ u.head? = some '\x7b'
    · obtain ⟨rfl, hu⟩ := hbrace
      obtain ⟨v, rfl⟩ := List.head?_eq_some_iff.mp hu
      rw [List.cons_append, List.cons_append, templateBody_dollar_brace, ← List.cons_append, ih,
        templateBody_dollar_brace]
      rfl
    · have happend : c = '$' → (u ++ t).head? ≠ some '\x7b' := by
        rintro rfl
        cases u with
        | nil => exact ht
        | cons d u => exact fun h => hbrace ⟨rfl, h⟩
      rw [List.cons_append, templateBody_cons hescape happend, ih,
        templateBody_cons hescape fun hc hu => hbrace ⟨hc, hu⟩, List.append_assoc]
  | @escape c u hparen _ _ _ _ _ ih =>
    simp [templateBody, ih]

/-- An expression becomes a substitution. -/
theorem templateBody_hole {e : Text} (he : IsExpression e) (t : Text) :
    templateBody inner 0 ('\\' :: '(' :: (e ++ ')' :: t)) =
      '$' :: '\x7b' :: (inner e ++ '\x7d' :: templateBody inner 0 t) := by
  have hspan : stringSpan [.hole 0] (e ++ ')' :: t) = e.length + 1 := by
    rw [stringSpan_hole he.balanced he.quote, stringSpan]
  have hskip : templateBody inner (e.length + 1) (e ++ ')' :: t) = templateBody inner 0 t := by
    simpa using @templateBody_skip inner (e ++ [')']) t
  rw [templateBody, hspan, Nat.add_sub_cancel, List.take_left, hskip]
  simp

end Template

attribute [local simp] interpolateText in
/-- A text without strings stays as it is. -/
theorem interpolateWithin_of_quote_notMem {t : Text} (h : '\x22' ∉ t) (depth : Nat) :
    interpolateWithin depth t = t := by
  cases depth with
  | zero => rfl
  | succ depth =>
    rw [interpolateWithin]
    induction t with
    | nil => rfl
    | cons c t ih =>
      simp only [List.mem_cons, not_or] at h
      simp [Ne.symm h.1, ih h.2]

/-- Characters that are already written are passed over. -/
theorem interpolateText_skip {inner : Text → Text} (x t : Text) :
    interpolateText inner x.length (x ++ t) = interpolateText inner 0 t := by
  induction x with
  | nil => rfl
  | cons c x ih => simpa [interpolateText] using ih

/-- Literal text of a string as it stands in a template. -/
def templateChunk (chunk : Text) : Text := templateBody id 0 chunk

/-- The inside of a template: literal text, and substitutions with the literal text after each. -/
def templateInside (chunk : Text) (parts : List (Text × Text)) : Text :=
  templateChunk chunk ++ parts.flatMap fun (e, c) =>
    '$' :: '\x7b' :: (e ++ '\x7d' :: templateChunk c)

/-- Literal text has no expressions, so how those are rephrased does not matter. -/
theorem templateBody_eq_templateChunk {c : Text} (hc : IsChunk c) (inner : Text → Text) :
    templateBody inner 0 c = templateChunk c := by
  rw [templateChunk]
  induction hc with
  | nil => rfl
  | @plain c u _ hescape _ _ _ ih =>
    by_cases hbrace : c = '$' ∧ u.head? = some '\x7b'
    · obtain ⟨rfl, hu⟩ := hbrace
      obtain ⟨v, rfl⟩ := List.head?_eq_some_iff.mp hu
      rw [templateBody_dollar_brace, ih, templateBody_dollar_brace]
    · rw [templateBody_cons hescape fun hc hu => hbrace ⟨hc, hu⟩, ih,
        templateBody_cons hescape fun hc hu => hbrace ⟨hc, hu⟩]
  | @escape c u hparen _ _ _ _ _ ih => simp [templateBody, ih]

/-- What follows literal text in a string does not start with a brace. -/
theorem head?_flatMap_ne_brace (parts : List (Text × Text)) :
    (parts.flatMap fun (e, c) => '\\' :: '(' :: (e ++ ')' :: c)).head? ≠ some '\x7b' := by
  cases parts <;> simp

/-- The inside of a string becomes the inside of a template. -/
theorem templateBody_stringInside {inner : Text → Text} {parts : List (Text × Text)}
    (hparts : ∀ p ∈ parts, IsExpression p.1 ∧ IsChunk p.2 ∧ inner p.1 = p.1) {chunk : Text}
    (hchunk : IsChunk chunk) :
    templateBody inner 0 (stringInside chunk parts) = templateInside chunk parts := by
  rw [stringInside, templateInside, templateBody_chunk hchunk (head?_flatMap_ne_brace parts),
    templateBody_eq_templateChunk hchunk]
  congr 1
  induction parts with
  | nil => rfl
  | cons p parts ih =>
    obtain ⟨⟨he, hc, hinner⟩, hrest⟩ := List.forall_mem_cons.mp hparts
    simp only [List.flatMap_cons, List.cons_append, List.append_assoc]
    rw [templateBody_hole he, hinner, templateBody_chunk hc (head?_flatMap_ne_brace parts),
      templateBody_eq_templateChunk hc, ih hrest]

/-- A text occurs where it is written. -/
theorem hasInfix_of_eq_append {needle t x y : Text} (h : t = x ++ (needle ++ y)) :
    Text.hasInfix needle t = true := by
  subst h
  rw [Text.hasInfix]
  induction x with
  | nil =>
    cases hcons : needle ++ y with
    | nil =>
      obtain ⟨rfl, rfl⟩ := List.append_eq_nil_iff.mp hcons
      rfl
    | cons c t =>
      have hprefix : needle.isPrefixOf (c :: t) = true := by
        rw [← hcons]
        simp
      simp [Text.indexOf?, hprefix]
  | cons c x ih =>
    rw [List.cons_append, Text.indexOf?]
    split
    · rfl
    · simpa using ih

theorem infix_of_hasInfix {needle t : Text} (h : Text.hasInfix needle t = true) : needle <:+: t := by
  rw [Text.hasInfix] at h
  induction t with
  | nil =>
    rw [Text.indexOf?] at h
    split at h
    · rename_i hnil
      rw [List.isEmpty_iff.mp hnil]
    · cases h
  | cons c t ih =>
    rw [Text.indexOf?] at h
    split at h
    · rename_i hpre
      exact (List.isPrefixOf_iff_prefix.mp hpre).isInfix
    · rw [Option.isSome_map] at h
      exact (ih h).trans (List.suffix_cons c t).isInfix

/-- A string literal with interpolations becomes a template literal. -/
theorem interpolate_stringLiteral {parts : List (Text × Text)} (hne : parts ≠ [])
    (hparts : ∀ p ∈ parts, IsExpression p.1 ∧ IsChunk p.2) {chunk : Text} (hchunk : IsChunk chunk) :
    interpolate (stringLiteral chunk parts) =
      '\x60' :: (templateInside chunk parts ++ ['\x60']) := by
  have hspan := stringSpan_inside hparts hchunk
  have hhole : Text.hasInfix "\\(" (stringLiteral chunk parts) = true := by
    obtain ⟨p, rest, rfl⟩ := List.exists_cons_of_ne_nil hne
    refine hasInfix_of_eq_append (x := '\x22' :: chunk)
      (y := p.1 ++ ')' :: (p.2 ++ (stringInside [] rest ++ ['\x22']))) ?_
    simp [stringLiteral, stringInside]
  have hinside : templateBody (interpolateWithin (stringLiteral chunk parts).length) 0
      (stringInside chunk parts) = templateInside chunk parts :=
    templateBody_stringInside (fun p hp => ⟨(hparts p hp).1, (hparts p hp).2,
      interpolateWithin_of_quote_notMem (hparts p hp).1.quote _⟩) hchunk
  rw [interpolate, interpolateWithin]
  generalize interpolateWithin (stringLiteral chunk parts).length = inner at hinside ⊢
  rw [stringLiteral] at hhole ⊢
  have htake : (stringInside chunk parts ++ ['\x22']).take
      (stringSpan [.text] (stringInside chunk parts ++ ['\x22'])) =
        stringInside chunk parts ++ ['\x22'] := by
    rw [hspan]
    exact List.take_of_length_le (by simp)
  have hrest : interpolateText inner (stringSpan [.text] (stringInside chunk parts ++ ['\x22']))
      (stringInside chunk parts ++ ['\x22']) = [] := by
    rw [hspan]
    simpa [interpolateText] using @interpolateText_skip inner (stringInside chunk parts ++ ['\x22']) []
  have htemplate : toTemplate inner ('\x22' :: (stringInside chunk parts ++ ['\x22'])) =
      '\x60' :: (templateInside chunk parts ++ ['\x60']) := by
    have hlast : ('\x22' :: (stringInside chunk parts ++ ['\x22'])).getLast? = some '\x22' := by
      rw [← List.cons_append, List.getLast?_concat]
    rw [← hinside, toTemplate]
    simp [hlast]
  rw [interpolateText, if_pos (beq_self_eq_true _)]
  dsimp only
  rw [htake, if_pos hhole, hrest, htemplate, List.append_nil]

/-!
## Scripts with strings
-/

section Strings

variable {inner : Text → Text} {frames : List StringFrame} {t x y : Text} {ls : List Text}

/-- The scanner passes over the inside of a literal without substitutions. -/
theorem stringSpan_of_isInside {s : Text} (h : isInside '\x22' s = true)
    (hplain : ¬ ['\\', '('] <:+: s) (t : Text) :
    stringSpan [.text] (s ++ '\x22' :: t) = s.length + 1 := by
  fun_induction isInside '\x22' s with
  | case1 => simp [stringSpan]
  | case2 => cases h
  | case3 c s ih =>
    rw [Bool.and_eq_true] at h
    have hparen : c ≠ '(' := by
      rintro rfl
      exact hplain ⟨[], s, rfl⟩
    have hrest := ih h.2 fun hin => hplain (hin.trans (List.suffix_append ['\\', c] s).isInfix)
    rw [List.cons_append, List.cons_append, stringSpan]
    · rw [hrest]
      simp
      omega
    · exact fun hc => hparen hc
  | case4 c s hend hescape ih =>
    rw [Bool.and_eq_true, Bool.and_eq_true, bne_iff_ne, bne_iff_ne] at h
    have hne : c ≠ '\\' := by
      rintro rfl
      cases s with
      | nil => exact hend rfl rfl
      | cons d s => exact hescape d s rfl rfl
    have hrest := ih h.2 fun hin => hplain (hin.trans (List.suffix_cons c s).isInfix)
    rw [List.cons_append, stringSpan_text_cons hne]
    simp [h.1.1, h.1.2, hrest]
    omega

/-- A string that ends before a blank ends at the same place in any other text. -/
theorem stringSpan_of_closed (h : stringSpan frames (x ++ [' ']) = x.length) (z : Text) :
    stringSpan frames (x ++ z) = x.length := by
  induction hlen : x.length using Nat.strong_induction_on generalizing frames x with
  | _ len ih =>
    subst hlen
    cases frames with
    | nil => rwa [stringSpan] at h ⊢
    | cons frame below =>
      cases x with
      | nil =>
        rw [List.nil_append] at h
        cases frame with
        | text =>
          rw [stringSpan_text_cons (by decide)] at h
          simp at h
        | hole d =>
          rw [stringSpan_hole_cons] at h
          simp at h
      | cons c x =>
        rw [List.length_cons] at h ih ⊢
        have hone {frames : List StringFrame} (h : 1 + stringSpan frames (x ++ [' ']) = x.length + 1) :
            1 + stringSpan frames (x ++ z) = x.length + 1 := by
          rw [ih x.length (by omega) (by omega) rfl]
          omega
        cases frame with
        | hole d =>
          rw [List.cons_append, stringSpan_hole_cons] at h ⊢
          split_ifs at h ⊢
          · exact hone h
          · exact hone h
          · cases d <;> exact hone h
          · exact hone h
        | text =>
          by_cases hc : c = '\\'
          · subst hc
            cases x with
            | nil =>
              simp [stringSpan] at h
            | cons d x =>
              rw [List.length_cons] at h ih ⊢
              have htwo {frames : List StringFrame}
                  (h : 2 + stringSpan frames (x ++ [' ']) = x.length + 1 + 1) :
                  2 + stringSpan frames (x ++ z) = x.length + 1 + 1 := by
                rw [ih x.length (by omega) (by omega) rfl]
                omega
              by_cases hd : d = '('
              · subst hd
                exact htwo h
              · rw [List.cons_append, List.cons_append, stringSpan] at h ⊢
                · exact htwo h
                · exact fun h => hd h
                · exact fun h => hd h
          · rw [List.cons_append, stringSpan_text_cons hc] at h ⊢
            split_ifs at h ⊢
            · exact hone h
            · cases below with
              | nil => cases h
              | cons => exact hone h
            · exact hone h

/-- A string is rephrased on its own. -/
theorem interpolateText_string (h : stringSpan [.text] (x ++ y) = x.length) :
    interpolateText inner 0 ('\x22' :: x ++ y) =
      (if Text.hasInfix "\\(" ('\x22' :: x) then toTemplate inner ('\x22' :: x) else '\x22' :: x) ++
        interpolateText inner 0 y := by
  rw [List.cons_append, interpolateText, if_pos (beq_self_eq_true _), h]
  dsimp only
  rw [List.take_left, interpolateText_skip]

/-- A literal on one line that interpolates nothing. -/
def IsPlainLiteral (l : Text) : Prop := IsQuoted '\x22' l ∧ ¬ ['\\', '('] <:+: l

instance (l : Text) : Decidable (IsPlainLiteral l) :=
  inferInstanceAs (Decidable (IsQuoted '\x22' l ∧ ¬ ['\\', '('] <:+: l))

/-- A string that ends where its literal does, and that becomes a template without double quotes. -/
def BecomesTemplate (inner : Text → Text) (l : Text) : Prop :=
  stringSpan [.text] (l.drop 1 ++ [' ']) = (l.drop 1).length ∧ '\x22' ∉ toTemplate inner l

instance (inner : Text → Text) (l : Text) : Decidable (BecomesTemplate inner l) :=
  inferInstanceAs (Decidable (_ ∧ _))

/-- Whether that holds of all strings with interpolations. -/
def SparesStrings (t : Text) : Prop :=
  ∀ l ∈ (mask .all t).spans, IsQuoted '\x22' l ∧ ['\\', '('] <:+: l →
    BecomesTemplate (interpolateWithin t.length) l

instance (t : Text) : Decidable (SparesStrings t) := inferInstanceAs (Decidable (∀ _ ∈ _, _))

/-- What such a string becomes holds it, if it interpolates nothing. -/
theorem exists_interpolateText {l : Text} (hl : IsQuoted '\x22' l)
    (hspares : ['\\', '('] <:+: l → BecomesTemplate inner l) (y : Text) :
    ∃ u ms, interpolateText inner 0 (l ++ y) = u ++ interpolateText inner 0 y ∧
      HoldsLiterals ms u ∧ (IsPlainLiteral l → l ∈ ms) := by
  obtain ⟨s, rfl, hs⟩ := id hl
  by_cases hhole : Text.hasInfix "\\(" ('\x22' :: (s ++ ['\x22'])) = true
  · have hin := infix_of_hasInfix hhole
    obtain ⟨hspan, hquote⟩ := hspares hin
    refine ⟨toTemplate inner _, [], ?_, holdsLiterals_code hquote, fun hplain => absurd hin hplain.2⟩
    rw [interpolateText_string (x := s ++ ['\x22']) (stringSpan_of_closed hspan y), if_pos hhole]
  · have hlacks : ¬ ['\\', '('] <:+: '\x22' :: (s ++ ['\x22']) := by
      rintro ⟨u, v, huv⟩
      exact hhole (hasInfix_of_eq_append (x := u) (y := v) (by rw [← huv, List.append_assoc]; rfl))
    have hspan := stringSpan_of_isInside hs
      (fun hin => hlacks (hin.trans ⟨['\x22'], ['\x22'], by simp⟩)) y
    refine ⟨_, [_], ?_, holdsLiterals_literal hl, fun _ => List.mem_singleton_self _⟩
    rw [interpolateText_string (by simpa using hspan), if_neg hhole]

/-- Rephrasing strings keeps those that interpolate nothing. -/
theorem holdsLiterals_interpolate (h : HoldsLiterals ls t) (ht : IsTameScript t)
    (hls : ∀ l ∈ ls, IsPlainLiteral l) (hspares : SparesStrings t) :
    HoldsLiterals ls (interpolate t) := by
  obtain ⟨ps, hps, hsub, hwritten, hspans⟩ := h.exists_parts ht
  have hbecome : ∀ l ∈ ps.filterMap Part.whole?, ['\\', '('] <:+: l →
      IsQuoted '\x22' l → BecomesTemplate (interpolateWithin t.length) l :=
    fun l hl hhole hquoted => hspares l (hspans hl) ⟨hquoted, hhole⟩
  rw [interpolate, interpolateWithin]
  generalize interpolateWithin t.length = inner at hbecome ⊢
  rw [← hwritten]
  suffices hmore : ∃ ms, HoldsLiterals ms (interpolateText inner 0 (written id ps)) ∧
      ∀ l ∈ ps.filterMap Part.whole?, IsPlainLiteral l → l ∈ ms by
    obtain ⟨ms, hscript, hms⟩ := hmore
    exact hscript.mono fun l hl => hms l (hsub hl) (hls l hl)
  clear hsub hwritten hspans
  induction ps with
  | nil => exact ⟨[], holdsLiterals_code List.not_mem_nil, List.forall_mem_nil _⟩
  | cons p ps ih =>
    rw [List.forall_mem_cons] at hps
    cases p with
    | code c =>
      obtain ⟨ms, hscript, hms⟩ := ih hps.2 hbecome
      refine ⟨ms, ?_, hms⟩
      have hquote : c ≠ '\x22' := fun heq => hps.1 (heq ▸ List.mem_singleton_self _)
      change HoldsLiterals ms (interpolateText inner 0 (c :: written id ps))
      rw [interpolateText, if_neg (by simpa using hquote)]
      exact hscript.code_append (t := [c]) (by simpa using Ne.symm hquote)
    | whole l =>
      have hbecome' := List.forall_mem_cons.mp hbecome
      obtain ⟨ms, hscript, hms⟩ := ih hps.2 hbecome'.2
      obtain ⟨quote, hquote, hl⟩ := hps.1
      obtain rfl := List.mem_singleton.mp hquote
      obtain ⟨u, ks, hu, hholds, hkept⟩ :=
        exists_interpolateText hl (fun hhole => hbecome'.1 hhole hl) (written id ps)
      refine ⟨ks ++ ms, ?_, fun l' hl' hplain => ?_⟩
      · change HoldsLiterals (ks ++ ms) (interpolateText inner 0 (l ++ written id ps))
        rw [hu]
        exact hholds.append hscript
      · rcases List.mem_cons.mp hl' with rfl | hl'
        · exact List.mem_append_left _ (hkept hplain)
        · exact List.mem_append_right _ (hms l' hl' hplain)

end Strings

end HostScript.Body.Swift
