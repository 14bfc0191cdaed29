import HostScript.Proofs.Text
import HostScript.Source.Block
import HostScript.Source.Bracket
import Mathlib.Data.List.Forall2

/-!
# Source text

Lists, comments and lines of a source.
-/

namespace HostScript.Source

/-!
## Splitting what was joined

A text that closes its own brackets and literals and has no comma outside them is passed over by
the search for separators, wherever it stands. So joining such texts with commas and splitting the
result gives them back.
-/

section

variable {text before post : Text} {p : Text} {ps : List Text} {depth : Nat}
variable {last quote : Option Char}

/-- Whether a scan ends outside literals and brackets and meets no comma there; `last` is the
character ahead of the text. The bracket of an arrow `->` closes nothing. -/
def isContained : (last quote : Option Char) → (depth : Nat) → Text → Bool
  | _, quote, depth, [] => quote.isNone && depth == 0
  | last, none, depth, c :: rest =>
    if isStringQuote c then isContained (some c) (some c) depth rest
    else if "([\x7b<".toList.contains c then isContained (some c) none (depth + 1) rest
    else if ")]\x7d>".toList.contains c && depth > 0 then
      isContained (some c) none (if c == '>' && last == some '-' then depth else depth - 1) rest
    else !(c == ',' && depth == 0) && isContained (some c) none depth rest
  | _, some _, _, ['\\'] => false
  | _, some q, depth, '\\' :: c :: rest => isContained (some c) (some q) depth rest
  | _, some q, depth, c :: rest => isContained (some c) (if c == q then none else some q) depth rest

/-- A text that can be an element of a list: it is trimmed, not empty, and closes what it opens. -/
structure IsElement (p : Text) : Prop where
  nonempty : p ≠ []
  trimmed : p.trim = p
  contained : isContained none none 0 p = true

/-- The bracket behind a minus sign is that of an arrow. -/
theorem getElem?_pred_eq (h : text = before ++ post) (c : Char) :
    (decide (before.length > 0) && text[before.length - 1]? == some c) =
      (before.getLast? == some c) := by
  subst h
  cases hb : before.reverse with
  | nil =>
    obtain rfl := List.reverse_eq_nil_iff.mp hb
    rfl
  | cons d rest =>
    have hlast : before = rest.reverse ++ [d] := by
      rw [← List.reverse_cons, ← hb, List.reverse_reverse]
    subst hlast
    simp

/-- What the search does at one character outside literals. -/
theorem topLevel_cons (h : text = before ++ post) (c : Char) (chars : List (Nat × Char)) :
    topLevel .arguments text depth ((before.length, c) :: chars) =
      if "([\x7b<".toList.contains c then topLevel .arguments text (depth + 1) chars
      else if ")]\x7d>".toList.contains c && depth > 0 then
        topLevel .arguments text
          (if c == '>' && before.getLast? == some '-' then depth else depth - 1) chars
      else if c == ',' && depth == 0 then
        before.length :: topLevel .arguments text depth chars
      else topLevel .arguments text depth chars := by
  have hopeners : SplitRule.arguments.openers = "([\x7b<".toList := by decide
  have hclosers : SplitRule.arguments.closers = ")]\x7d>".toList := by decide
  have hseparator : ([c] == SplitRule.arguments.separator) = (c == ',') := by
    rw [show SplitRule.arguments.separator = [','] by decide]
    simp
  rw [topLevel, hopeners, hclosers, hseparator, Bool.and_assoc, getElem?_pred_eq h]

/-- The search passes over a contained text. -/
theorem topLevel_contained (htext : text = before ++ (p ++ post))
    (hlast : (last == some '-') = (before.getLast? == some '-'))
    (h : isContained last quote depth p = true) :
    topLevel .arguments text depth (codeCharsFrom before.length quote (p ++ post)) =
      topLevel .arguments text 0 (codeCharsFrom (before.length + p.length) none post) := by
  have hnext (b : Text) (c : Char) (rest : Text) : b ++ (c :: rest ++ post) =
      b ++ [c] ++ (rest ++ post) := by simp
  have hgetLast (b : Text) (c : Char) :
      (some c == some '-') = ((b ++ [c]).getLast? == some '-') := by
    rw [List.getLast?_concat]
  have hlength (b : Text) (c : Char) (rest : Text) :
      b.length + (c :: rest).length = (b ++ [c]).length + rest.length := by
    rw [List.length_append, List.length_cons, List.length_singleton]
    omega
  have hsucc (b : Text) (c : Char) : (b ++ [c]).length = b.length + 1 := List.length_append
  fun_induction isContained last quote depth p generalizing before with
  | case1 last quote depth =>
    obtain ⟨hquote, hdepth⟩ := Bool.and_eq_true_iff.mp h
    rw [eq_of_beq hdepth, Option.isNone_iff_eq_none.mp hquote]
    rfl
  | case2 last depth c rest hquote ih =>
    rw [List.cons_append, codeCharsFrom, if_pos hquote, hlength, ← hsucc]
    exact ih (htext.trans (hnext ..)) (hgetLast ..) h
  | case3 last depth c rest hquote hopen ih =>
    rw [List.cons_append, codeCharsFrom, if_neg hquote, topLevel_cons htext, if_pos hopen, hlength,
      ← hsucc]
    exact ih (htext.trans (hnext ..)) (hgetLast ..) h
  | case4 last depth c rest hquote hopen hclose ih =>
    rw [List.cons_append, codeCharsFrom, if_neg hquote, topLevel_cons htext, if_neg hopen,
      if_pos hclose, ← hlast, hlength, ← hsucc]
    exact ih (htext.trans (hnext ..)) (hgetLast ..) h
  | case5 last depth c rest hquote hopen hclose ih =>
    obtain ⟨hcomma, h⟩ := Bool.and_eq_true_iff.mp h
    rw [Bool.not_eq_true'] at hcomma
    rw [List.cons_append, codeCharsFrom, if_neg hquote, topLevel_cons htext, if_neg hopen,
      if_neg hclose, hcomma, if_neg Bool.false_ne_true, hlength, ← hsucc]
    exact ih (htext.trans (hnext ..)) (hgetLast ..) h
  | case6 => cases h
  | case7 last q depth c rest ih =>
    have htwo : before.length + 2 = (before ++ ['\\'] ++ [c]).length := by
      rw [hsucc, hsucc]
    rw [List.cons_append, List.cons_append, codeCharsFrom, hlength, hlength, htwo]
    exact ih (htext.trans ((hnext ..).trans (hnext ..))) (hgetLast ..) h
  | case8 last q depth c rest hescape hescaped ih =>
    have hne : c ≠ '\\' := by
      rintro rfl
      cases rest with
      | nil => exact hescape rfl rfl
      | cons d rest => exact hescaped d rest rfl rfl
    rw [List.cons_append, codeCharsFrom, hlength, ← hsucc]
    · exact ih (htext.trans (hnext ..)) (hgetLast ..) h
    · exact fun hc _ => hne hc
    · exact fun _ _ hc _ => hne hc

theorem isContained_spaces {spaces : Text} (hspaces : ∀ c ∈ spaces, c = ' ') :
    isContained last none 0 spaces = true := by
  induction spaces generalizing last with
  | nil => rfl
  | cons c spaces ih =>
    obtain ⟨rfl, hrest⟩ := List.forall_mem_cons.mp hspaces
    exact ih hrest

/-- The search stops at the comma between two elements. -/
theorem topLevel_comma {spaces : Text} (hspaces : ∀ c ∈ spaces, c = ' ')
    (hp : isContained none none 0 p = true) (hbefore : before.getLast? ≠ some '-')
    (htext : text = before ++ (p ++ (',' :: spaces ++ post))) :
    topLevel .arguments text 0 (codeCharsFrom before.length none (p ++ (',' :: spaces ++ post))) =
      (before.length + p.length) :: topLevel .arguments text 0
        (codeCharsFrom (before ++ p ++ ',' :: spaces).length none post) := by
  have hlast : ((none : Option Char) == some '-') = (before.getLast? == some '-') := by
    rw [beq_false_of_ne hbefore]
    rfl
  have hcomma : text = (before ++ p) ++ (',' :: (spaces ++ post)) := by
    rw [htext, List.append_assoc, List.cons_append]
  have hspace : text = (before ++ p ++ [',']) ++ (spaces ++ post) := by
    rw [hcomma, List.append_assoc (before ++ p), List.singleton_append]
  have hquote : isStringQuote ',' = false := by decide
  rw [topLevel_contained htext hlast hp, ← List.length_append, List.cons_append, codeCharsFrom,
    hquote, if_neg Bool.false_ne_true, topLevel_cons hcomma]
  have hsearch := topLevel_contained hspace rfl (isContained_spaces hspaces)
  have hcount : (before ++ p ++ [',']).length = (before ++ p).length + 1 := List.length_append
  have hend : (before ++ p ++ ',' :: spaces).length =
      (before ++ p ++ [',']).length + spaces.length := by
    simp only [List.length_append, List.length_cons, List.length_nil]
    omega
  rw [hend, ← hsearch, hcount]
  rfl

/-- A separator does not end in a minus sign. -/
theorem getLast?_separator {spaces : Text} (hspaces : ∀ c ∈ spaces, c = ' ') (t : Text) :
    (t ++ ',' :: spaces).getLast? ≠ some '-' := by
  rw [List.getLast?_append_of_ne_nil _ (List.cons_ne_nil _ _)]
  intro hminus
  rcases List.mem_cons.mp (List.mem_of_getLast? hminus) with heq | hmem
  · exact absurd heq (by decide)
  · exact absurd (hspaces _ hmem) (by decide)

/-- The parts between the separators of joined elements are the elements. -/
theorem partsAt_join {spaces : Text} (before blank : Text) (hspaces : ∀ c ∈ spaces, c = ' ')
    (hblank : ∀ c ∈ blank, c = ' ') (hps : ∀ p ∈ ps, IsElement p) (hne : ps ≠ [])
    (hbefore : (before ++ blank).getLast? ≠ some '-')
    (htext : text = before ++ (blank ++ Text.join (',' :: spaces) ps)) :
    partsAt text before.length (topLevel .arguments text 0
      (codeCharsFrom (before ++ blank).length none (Text.join (',' :: spaces) ps))) = ps := by
  have hspace {t : Text} (ht : ∀ c ∈ t, c = ' ') : ∀ c ∈ t, isBlank c = true := fun c hc => by
    rw [ht c hc]
    decide
  induction ps generalizing before blank with
  | nil => exact absurd rfl hne
  | cons p rest ih =>
    have hp := hps p (List.mem_cons_self ..)
    cases rest with
    | nil =>
      have htext' : text = (before ++ blank) ++ (p ++ []) := by
        rw [htext, List.append_nil, List.append_assoc]
        rfl
      have hsearch := topLevel_contained htext' (by rw [beq_false_of_ne hbefore]; rfl) hp.contained
      rw [List.append_nil] at hsearch
      rw [Text.join, hsearch, codeCharsFrom, topLevel, partsAt, htext, Text.since, List.drop_left,
        Text.join, Text.trim_append_of_blank (hspace hblank) hp.trimmed]
    | cons q rest =>
      have hjoin : Text.join (',' :: spaces) (p :: q :: rest) =
          p ++ (',' :: spaces ++ Text.join (',' :: spaces) (q :: rest)) := List.append_assoc ..
      have hslice :
          text.slice before.length ((before ++ blank).length + p.length) = blank ++ p := by
        have hpart : text = before ++ (blank ++ p) ++
            (',' :: spaces ++ Text.join (',' :: spaces) (q :: rest)) := by
          rw [htext, hjoin]
          simp only [List.append_assoc]
        have hend : (before ++ blank).length + p.length = (before ++ (blank ++ p)).length := by
          rw [← List.length_append, List.append_assoc]
        rw [hpart, hend, Text.slice, List.take_left, List.drop_left]
      have hcount : (before ++ blank).length + p.length + 1 =
          (before ++ blank ++ p ++ [',']).length := by
        simp only [List.length_append, List.length_singleton]
      have hregroup : before ++ blank ++ p ++ ',' :: spaces =
          before ++ blank ++ p ++ [','] ++ spaces := by
        rw [List.append_assoc _ [','], List.singleton_append]
      rw [hjoin, topLevel_comma hspaces hp.contained hbefore
        (by rw [htext, hjoin, List.append_assoc]), partsAt, hslice,
        Text.trim_append_of_blank (hspace hblank) hp.trimmed, hcount, hregroup]
      refine congrArg (p :: ·) (ih _ _ hspaces (fun r hr => hps r (List.mem_cons_of_mem p hr))
        (List.cons_ne_nil _ _) ?_ ?_)
      · rw [← hregroup]
        exact getLast?_separator hspaces _
      · rw [htext, hjoin]
        simp only [List.append_assoc, List.cons_append, List.nil_append]

/-- Splitting at top level gives back the elements that were joined. -/
theorem splitTopLevel_joined (spaces : Text) (hspaces : ∀ c ∈ spaces, c = ' ')
    (hps : ∀ p ∈ ps, IsElement p) :
    splitTopLevel .arguments (Text.join (',' :: spaces) ps) = ps := by
  by_cases hne : ps = []
  · subst hne
    rfl
  · have hparts : partsAt (Text.join (',' :: spaces) ps) 0 (topLevel .arguments
        (Text.join (',' :: spaces) ps) 0 (codeCharsFrom 0 none (Text.join (',' :: spaces) ps))) =
        ps :=
      partsAt_join [] [] hspaces (by simp) hps hne (by simp) rfl
    rw [splitTopLevel, codeChars, hparts]
    refine List.filter_eq_self.mpr fun p hp => ?_
    simpa using (hps p hp).nonempty

/-- Splitting at commas outside brackets and literals inverts joining with commas, with or without
a space behind each. -/
theorem splitTopLevel_join (ps : List Text) (hps : ∀ p ∈ ps, IsElement p) :
    splitTopLevel .arguments (Text.join ", " ps) = ps ∧
      splitTopLevel .arguments (Text.join "," ps) = ps := by
  refine ⟨splitTopLevel_joined [' '] ?_ hps, splitTopLevel_joined [] ?_ hps⟩
  · exact fun c hc => List.mem_singleton.mp hc
  · exact fun c hc => absurd hc List.not_mem_nil

instance (p : Text) : Decidable (IsElement p) :=
  decidable_of_iff (p ≠ [] ∧ p.trim = p ∧ isContained none none 0 p = true)
    ⟨fun h => ⟨h.1, h.2.1, h.2.2⟩, fun h => ⟨h.nonempty, h.trimmed, h.contained⟩⟩

/-- A comma in brackets, an arrow, and a literal with a comma, a bracket and an escaped quote. -/
theorem splitTopLevel_join_nested :
    (∀ p ∈ (["a: [Int, Int]", "f: (A) -> B", "\x22x, (\\\x22\x22"] : List Text), IsElement p) ∧
      splitTopLevel .arguments "a: [Int, Int], f: (A) -> B, \x22x, (\\\x22\x22" =
        ["a: [Int, Int]", "f: (A) -> B", "\x22x, (\\\x22\x22"] := by
  have hps : ∀ p ∈ (["a: [Int, Int]", "f: (A) -> B", "\x22x, (\\\x22\x22"] : List Text),
      IsElement p := by decide
  exact ⟨hps, (splitTopLevel_join _ hps).1⟩

end

/-!
## Comments as blanks

Blanking comments replaces characters one by one and leaves line breaks where they are. What is
left is read like the source it comes from, with every comment as code, so blanking it again
changes nothing. The lines keep their numbers.
-/

variable {region : Region} {t : Text} {c : Char}

/-- The same text with some characters other than line breaks replaced by spaces. -/
def IsBlanked : Text → Text → Prop := List.Forall₂ fun c d => d = c ∨ c ≠ '\n' ∧ d = ' '

theorem isBlanked_blankFrom (region : Region) (t : Text) : IsBlanked t (blankFrom region t) := by
  have hspace {c : Char} (hc : c ≠ '\n') : ' ' = c ∨ c ≠ '\n' ∧ ' ' = ' ' := .inr ⟨hc, rfl⟩
  fun_induction blankFrom region t with
  | case1 => exact .nil
  | case2 rest ih => exact .cons (hspace (by decide)) (.cons (hspace (by decide)) ih)
  | case3 rest ih => exact .cons (hspace (by decide)) (.cons (hspace (by decide)) ih)
  | case4 c rest _ _ ih => exact .cons (.inl rfl) ih
  | case5 q c rest ih => exact .cons (.inl rfl) (.cons (.inl rfl) ih)
  | case6 q c rest _ ih => exact .cons (.inl rfl) ih
  | case7 c rest hbreak ih => exact .cons (.inl rfl) ih
  | case8 c rest hbreak ih => exact .cons (hspace (by simpa using hbreak)) ih
  | case9 rest ih => exact .cons (hspace (by decide)) (.cons (hspace (by decide)) ih)
  | case10 c rest _ ih =>
    refine .cons ?_ ih
    by_cases hc : c = '\n'
    · exact .inl (by rw [hc]; rfl)
    · exact .inr ⟨hc, by rw [if_neg (by simpa using hc)]⟩

/-- Blanking puts no character at the start that was not there. -/
theorem IsBlanked.head?_eq {b : Text} (h : IsBlanked t b) :
    b.head? = t.head? ∨ b.head? = some ' ' := by
  cases h with
  | nil => exact .inl rfl
  | cons hc _ => exact hc.imp (congrArg some) fun hc => congrArg some hc.2

/-- Each character is kept, or a space stands for it. -/
theorem IsBlanked.getElem?_eq {b : Text} (h : IsBlanked t b) (i : Nat) :
    b[i]? = t[i]? ∨ t[i]? ≠ some '\n' ∧ b[i]? = some ' ' := by
  induction h generalizing i with
  | nil => exact .inl rfl
  | cons hc _ ih =>
    cases i with
    | zero =>
      refine hc.imp (congrArg some) fun hc => ⟨fun h => hc.1 (Option.some.inj h), ?_⟩
      exact congrArg some hc.2
    | succ i => exact ih i

/-- Code outside strings is kept up to the next comment. -/
theorem blankFrom_code_cons (h : c = '/' → t.head? ≠ some '/' ∧ t.head? ≠ some '*') :
    blankFrom .code (c :: t) = c :: blankFrom (if isQuote c then .quoted c else .code) t := by
  rw [blankFrom]
  · rintro rest rfl rfl
    exact (h rfl).1 rfl
  · rintro rest rfl rfl
    exact (h rfl).2 rfl

theorem blankFrom_code_space (t : Text) : blankFrom .code (' ' :: t) = ' ' :: blankFrom .code t :=
  blankFrom_code_cons fun h => absurd h (by decide)

theorem blankFrom_quoted_cons {q : Char} (h : c = '\\' → t = []) :
    blankFrom (.quoted q) (c :: t) =
      c :: blankFrom (if c == q || c == '\n' then .code else .quoted q) t := by
  rw [blankFrom]
  rintro d rest rfl rfl
  cases h rfl

/-- What a place in a source is once the comments are blanked. -/
def Region.blanked : Region → Region
  | .quoted q => .quoted q
  | .code | .lineComment | .blockComment => .code

/-- Blanked text is left as it is. -/
theorem blankFrom_blanked (region : Region) (t : Text) :
    blankFrom region.blanked (blankFrom region t) = blankFrom region t := by
  fun_induction blankFrom region t with
  | case1 => cases ‹Region› <;> rfl
  | case2 rest ih => simpa [Region.blanked, blankFrom_code_space] using ih
  | case3 rest ih => simpa [Region.blanked, blankFrom_code_space] using ih
  | case4 c rest hline hblock ih =>
    -- The next character is the one that was there, or a space, so no comment starts here.
    have hnext := (isBlanked_blankFrom (if isQuote c then .quoted c else .code) rest).head?_eq
    have hopen : c = '/' → rest.head? ≠ some '/' ∧ rest.head? ≠ some '*' := by
      rintro rfl
      refine ⟨fun h => ?_, fun h => ?_⟩
      · obtain ⟨more, rfl⟩ := List.head?_eq_some_iff.mp h
        exact hline more rfl rfl
      · obtain ⟨more, rfl⟩ := List.head?_eq_some_iff.mp h
        exact hblock more rfl rfl
    rw [Region.blanked, blankFrom_code_cons]
    · refine congrArg (c :: ·) ?_
      split at ih <;> simpa [Region.blanked, *] using ih
    · intro hc
      rcases hnext with hnext | hnext <;> rw [hnext]
      · exact hopen hc
      · exact ⟨by decide, by decide⟩
  | case5 q c rest ih => simpa [Region.blanked, blankFrom] using ih
  | case6 q c rest hescape ih =>
    have hend : c = '\\' → rest = [] := by
      rintro rfl
      cases rest with
      | nil => rfl
      | cons d rest => exact absurd rfl (hescape d rest rfl)
    rw [Region.blanked, blankFrom_quoted_cons]
    · refine congrArg (c :: ·) ?_
      split at ih <;> simpa [Region.blanked, *] using ih
    · intro hc
      rw [hend hc, blankFrom]
  | case7 c rest hbreak ih =>
    obtain rfl : c = '\n' := eq_of_beq hbreak
    rw [Region.blanked, blankFrom_code_cons fun h => absurd h (by decide)]
    exact congrArg _ ih
  | case8 c rest hbreak ih => simpa [Region.blanked, blankFrom_code_space] using ih
  | case9 rest ih => simpa [Region.blanked, blankFrom_code_space] using ih
  | case10 c rest hclose ih =>
    by_cases hc : c = '\n'
    · subst hc
      rw [Region.blanked] at ih ⊢
      exact (blankFrom_code_cons fun h => absurd h (by decide)).trans (congrArg _ ih)
    · simpa [Region.blanked, blankFrom_code_space, hc] using ih

/-! ### Lines and their numbers -/

/-- The lines of a blanked text are the blanked lines. -/
theorem IsBlanked.lines {b : Text} (h : IsBlanked t b) :
    List.Forall₂ IsBlanked t.lines b.lines := by
  induction h with
  | nil => exact .cons .nil .nil
  | @cons c d t b hc _ ih =>
    rw [Text.lines, Text.lines] at ih ⊢
    rw [Text.splitOn, Text.splitOn]
    by_cases hbreak : c = '\n'
    · obtain rfl : d = '\n' := hc.elim (·.trans hbreak) fun hc => absurd hbreak hc.1
      rw [hbreak]
      exact .cons .nil ih
    · have hd : d ≠ '\n' := by
        rcases hc with rfl | ⟨-, rfl⟩
        · exact hbreak
        · decide
      rw [if_neg (by simpa using hbreak), if_neg (by simpa using hd)]
      generalize Text.splitOn '\n' t = ls, Text.splitOn '\n' b = ls' at ih ⊢
      cases ih with
      | nil => exact .cons (.cons hc .nil) .nil
      | cons hline hlines => exact .cons (.cons hc hline) hlines

/-- A line of the blanked text stands for the line of the text with the same index. -/
theorem exists_getElem?_of_forall₂ {ls ls' : List Text} (h : List.Forall₂ IsBlanked ls ls')
    {i : Nat} {b : Text} (hb : ls'[i]? = some b) : ∃ t, ls[i]? = some t ∧ IsBlanked t b := by
  induction h generalizing i with
  | nil => cases hb
  | cons hline _ ih =>
    cases i with
    | zero => exact ⟨_, rfl, Option.some.inj hb ▸ hline⟩
    | succ i => exact ih hb

/-- A numbered line is a line of the text, trimmed, with its place counted from the first. -/
theorem mem_numberLines_iff {first : Nat} {lines : List Text} {l : Line} :
    l ∈ numberLines first lines ↔
      l.text ≠ [] ∧ first ≤ l.number ∧ (lines[l.number - first]?.map Text.trim) = some l.text := by
  induction lines generalizing first with
  | nil => simp [numberLines]
  | cons raw rest ih =>
    have hrest : l ∈ numberLines (first + 1) rest ↔ l.text ≠ [] ∧ first < l.number ∧
        ((raw :: rest)[l.number - first]?.map Text.trim) = some l.text := by
      rw [ih]
      refine and_congr_right fun _ => and_congr_right fun hlt => ?_
      have hpos : l.number - first = l.number - (first + 1) + 1 := by omega
      rw [hpos, List.getElem?_cons_succ]
    have hfirst : l.number = first →
        ((raw :: rest)[l.number - first]?.map Text.trim = some l.text ↔ raw.trim = l.text) := by
      rintro rfl
      rw [Nat.sub_self, List.getElem?_cons_zero, Option.map_some, Option.some_inj]
    rw [numberLines]
    split
    case isTrue hblank =>
      rw [hrest]
      refine and_congr_right fun hne => ?_
      constructor
      · exact fun h => ⟨Nat.le_of_lt h.1, h.2⟩
      · rintro ⟨hle, htext⟩
        refine ⟨Nat.lt_of_le_of_ne hle fun heq => hne ?_, htext⟩
        rw [← (hfirst heq.symm).mp htext]
        exact List.isEmpty_iff.mp hblank
    case isFalse hsolid =>
      rw [List.mem_cons, hrest]
      constructor
      · rintro (rfl | ⟨hne, hlt, htext⟩)
        · exact ⟨fun h => hsolid (List.isEmpty_iff.mpr h), Nat.le_refl _, (hfirst rfl).mpr rfl⟩
        · exact ⟨hne, Nat.le_of_lt hlt, htext⟩
      · rintro ⟨hne, hle, htext⟩
        rcases Nat.eq_or_lt_of_le hle with heq | hlt
        · refine Or.inl ?_
          rw [heq, (hfirst heq.symm).mp htext]
        · exact Or.inr ⟨hne, hlt, htext⟩

/-- The numbers ascend. -/
theorem pairwise_numberLines (first : Nat) (lines : List Text) :
    (numberLines first lines).Pairwise (·.number < ·.number) := by
  induction lines generalizing first with
  | nil => exact .nil
  | cons raw rest ih =>
    rw [numberLines]
    split
    · exact ih (first + 1)
    · refine .cons (fun l hl => ?_) (ih (first + 1))
      rw [mem_numberLines_iff] at hl
      exact hl.2.1

/-- Blanking comments keeps the length, the line breaks and every character that it does not
replace by a space, and a second time it changes nothing. So a significant line is a line of the
source with its comments blanked and its ends trimmed, under its own number. -/
theorem blankComments_positional (source : Text) :
    (blankComments source).length = source.length ∧
      (∀ i : Nat, (blankComments source)[i]? = some '\n' ↔ source[i]? = some '\n') ∧
      (∀ i : Nat, (blankComments source)[i]? = source[i]? ∨
        (blankComments source)[i]? = some ' ') ∧
      blankComments (blankComments source) = blankComments source ∧
      (∀ l, l ∈ significantLines source ↔ l.text ≠ [] ∧ 1 ≤ l.number ∧
        ∃ raw blanked, source.unifyBreaks.lines[l.number - 1]? = some raw ∧
          (blankComments source.unifyBreaks).lines[l.number - 1]? = some blanked ∧
          IsBlanked raw blanked ∧ l.text = blanked.trim) ∧
      (significantLines source).Pairwise (·.number < ·.number) ∧
      ∀ l ∈ significantLines source, l.text ≠ [] ∧ l.text.trim = l.text := by
  have hblanked := isBlanked_blankFrom .code source
  have hget (i : Nat) : (blankComments source)[i]? = source[i]? ∨
      source[i]? ≠ some '\n' ∧ (blankComments source)[i]? = some ' ' := hblanked.getElem?_eq i
  refine ⟨hblanked.length_eq.symm, fun i => ?_, fun i => (hget i).imp_right And.right,
    blankFrom_blanked .code source, fun l => ?_, pairwise_numberLines .., fun l hl => ?_⟩
  · rcases hget i with h | ⟨hbreak, h⟩
    · rw [h]
    · rw [h]
      exact iff_of_false (by decide) hbreak
  · rw [significantLines, mem_numberLines_iff]
    refine and_congr_right fun _ => and_congr_right fun _ => ?_
    constructor
    · intro h
      obtain ⟨blanked, hline, htext⟩ := Option.map_eq_some_iff.mp h
      obtain ⟨raw, hraw, hsame⟩ :=
        exists_getElem?_of_forall₂ (isBlanked_blankFrom .code source.unifyBreaks).lines hline
      exact ⟨raw, blanked, hraw, hline, hsame, htext.symm⟩
    · rintro ⟨raw, blanked, -, hline, -, htext⟩
      rw [hline, htext, Option.map_some]
  · rw [significantLines, mem_numberLines_iff] at hl
    obtain ⟨hne, -, htext⟩ := hl
    obtain ⟨raw, -, htext⟩ := Option.map_eq_some_iff.mp htext
    exact ⟨hne, htext ▸ Text.trim_trim raw⟩

end HostScript.Source
