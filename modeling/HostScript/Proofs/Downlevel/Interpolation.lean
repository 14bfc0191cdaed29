import HostScript.Downlevel
import HostScript.Proofs.Body.Interpolation
import HostScript.Proofs.Script.Spans

/-!
# Strings with interpolations come through as concatenations

A template that comes from a string with interpolations is masked as one piece that stays. Its
concatenation has the literal text of the string again, exactly as it was written, and the
expressions in parentheses between.
-/

namespace HostScript.Downlevel

open Script
open Body.Swift (IsChunk IsExpression templateBody templateChunk templateInside templateBody_cons
  templateBody_dollar_brace)

/-- Literal text of a string, and how it is written in a template. -/
inductive Escaped : Text → Text → Prop where
  | nil : Escaped [] []
  /-- A character that stands for itself in both; a dollar sign must not open a substitution. -/
  | plain {c : Char} {t x : Text} (hc : c ∉ ['\x22', '\x60', '\\', '\n', '\r'])
      (hdollar : c = '$' → x.head? ≠ some '\x7b') (h : Escaped t x) : Escaped (c :: t) (c :: x)
  | tick {t x : Text} (h : Escaped t x) : Escaped ('\x60' :: t) ('\\' :: '\x60' :: x)
  | dollar {t x : Text} (h : Escaped t x) : Escaped ('$' :: t) ('\\' :: '$' :: x)
  | quote {t x : Text} (h : Escaped t x) : Escaped ('\\' :: '\x22' :: t) ('\x22' :: x)
  | escape {c : Char} {t x : Text} (hc : c ∉ ['\x22', '\x60', '$']) (h : Escaped t x) :
      Escaped ('\\' :: c :: t) ('\\' :: c :: x)

/-- Literal text that does not start with a brace does not do so in a template. -/
theorem Escaped.head?_ne_brace {t x : Text} (h : Escaped t x) (ht : t.head? ≠ some '\x7b') :
    x.head? ≠ some '\x7b' := by
  cases h with
  | plain => exact ht
  | _ => simp

/-- Literal text is written in a template by its escapes. -/
theorem escaped_templateChunk {c : Text} (hc : IsChunk c) : Escaped c (templateChunk c) := by
  rw [templateChunk]
  induction hc with
  | nil => exact .nil
  | @plain c u hquote hescape hbreak hreturn _ ih =>
    by_cases hbrace : c = '$' ∧ u.head? = some '\x7b'
    · obtain ⟨rfl, hu⟩ := hbrace
      obtain ⟨v, rfl⟩ := List.head?_eq_some_iff.mp hu
      rw [templateBody_dollar_brace]
      exact .dollar ih
    · rw [templateBody_cons hescape fun hc hu => hbrace ⟨hc, hu⟩]
      by_cases htick : c = '\x60'
      · subst htick
        exact .tick ih
      · rw [if_neg (by simpa using htick)]
        refine .plain (by simp [hquote, htick, hescape, hbreak, hreturn]) (fun hc => ?_) ih
        exact ih.head?_ne_brace fun hu => hbrace ⟨hc, hu⟩
  | @escape c u hparen htick hdollar _ _ _ ih =>
    by_cases hquote : c = '\x22'
    · subst hquote
      exact .quote (by simpa [templateBody] using ih)
    · have hbody : templateBody id 0 ('\\' :: c :: u) = '\\' :: c :: templateBody id 0 u := by
        simp [templateBody, hquote]
      rw [hbody]
      exact .escape (by simp [hquote, htick, hdollar]) ih

/-- What follows literal text in a template does not start with a brace. -/
theorem head?_holes_ne_brace (parts : List (Text × Text)) :
    ((parts.flatMap fun (e, c) => '$' :: '\x7b' :: (e ++ '\x7d' :: templateChunk c)) ++
      ['\x60']).head? ≠ some '\x7b' := by
  cases parts <;> simp

section Scan

variable {below : List Frame}

/-- The scanner of templates passes over literal text. -/
theorem spanLength_escaped {c x : Text} (h : Escaped c x) {t : Text}
    (ht : t.head? ≠ some '\x7b') :
    spanLength (.template :: below) (x ++ t) = x.length + spanLength (.template :: below) t := by
  induction h with
  | nil => simp
  | @plain c u x hc hdollar _ ih =>
    simp only [List.mem_cons, List.not_mem_nil, or_false, not_or] at hc
    obtain ⟨-, htick, hescape, -, -⟩ := hc
    have hopen : ¬ (c = '$' ∧ (x ++ t).head? = some '\x7b') := by
      rintro ⟨rfl, hhead⟩
      cases x with
      | nil => exact ht hhead
      | cons d x => exact hdollar rfl hhead
    have hstep : Frame.step .template below c = .template :: below := by
      simp [Frame.step, htick]
    rw [List.cons_append, spanLength_cons, if_neg (by simp [hescape]), if_neg fun h => hopen h.2,
      hstep, ih, List.length_cons]
    omega
  | quote _ ih =>
    rw [List.cons_append, spanLength_cons]
    simp [Frame.step, ih]
    omega
  | tick _ ih | dollar _ ih | escape _ _ ih =>
    simp [spanLength_cons, Frame.escapes, ih]
    omega

/-- The scanner of substitutions passes over an expression and its closing brace. -/
theorem spanLength_hole {e : Text} (he : IsExpression e) (t : Text) :
    spanLength (.hole 0 :: below) (e ++ '\x7d' :: t) = e.length + 1 + spanLength below t := by
  obtain ⟨-, -, -, hquote, hapostrophe, htick, -, hopen, hclose, -⟩ := he
  induction e with
  | nil =>
    simp [spanLength_cons, Frame.escapes, Frame.step]
  | cons c e ih =>
    simp only [List.mem_cons, not_or] at hquote hapostrophe htick hopen hclose
    rw [List.cons_append, spanLength_cons]
    simp [Frame.escapes, Frame.step, Ne.symm hquote.1, Ne.symm hapostrophe.1, Ne.symm htick.1,
      Ne.symm hopen.1, Ne.symm hclose.1,
      ih hquote.2 hapostrophe.2 htick.2 hopen.2 hclose.2]
    omega

/-- The scanner of templates finds the end of a template behind all its substitutions. -/
theorem templateRest_inside {parts : List (Text × Text)}
    (hparts : ∀ p ∈ parts, IsExpression p.1 ∧ IsChunk p.2) {chunk : Text} (hchunk : IsChunk chunk) :
    templateRest (templateInside chunk parts ++ ['\x60']) =
      (templateInside chunk parts).length + 1 := by
  rw [templateRest, templateInside, List.append_assoc,
    spanLength_escaped (escaped_templateChunk hchunk) (head?_holes_ne_brace parts)]
  induction parts with
  | nil => simp [spanLength_cons, Frame.escapes, Frame.step, spanLength]
  | cons p parts ih =>
    obtain ⟨hp, hrest⟩ := List.forall_mem_cons.mp hparts
    have htail := ih hrest
    have hdollar (t : Text) : spanLength [.template] ('$' :: '\x7b' :: t) =
        2 + spanLength [.hole 0, .template] t := by
      simp [spanLength_cons, Frame.escapes]
    simp only [List.flatMap_cons, List.append_assoc, List.cons_append, hdollar,
      spanLength_hole hp.1,
      spanLength_escaped (escaped_templateChunk hp.2) (head?_holes_ne_brace parts),
      List.length_append, List.length_cons] at htail ⊢
    omega

end Scan

section Operands

variable {inner : Text → Outcome Text}

/-- Characters that are already read are passed over. -/
theorem operands_skip (chunk x t : Text) :
    operands inner chunk x.length (x ++ t) = operands inner chunk 0 t := by
  induction x with
  | nil => rfl
  | cons c x ih => rw [List.length_cons, List.cons_append, operands, ih]

/-- A character that neither hides the next nor opens a substitution is put into the string. -/
theorem operands_cons (chunk : Text) {c : Char} {t : Text} (hne : t ≠ []) (hescape : c ≠ '\\')
    (hdollar : c = '$' → t.head? ≠ some '\x7b') :
    operands inner chunk 0 (c :: t) = operands inner ((stringChar c).reverse ++ chunk) 0 t := by
  rw [operands]
  · exact hne
  · exact fun _ _ h => absurd h hescape
  · rintro _ hc rfl
    exact hdollar hc rfl

/-- Literal text of a template is read as literal text of a string. -/
theorem operands_escaped {c x : Text} (h : Escaped c x) (chunk : Text) {t : Text} (hne : t ≠ [])
    (ht : t.head? ≠ some '\x7b') :
    operands inner chunk 0 (x ++ t) = operands inner (c.reverse ++ chunk) 0 t := by
  have hsome (x : Text) : x ++ t ≠ [] := fun h => hne (List.append_eq_nil_iff.mp h).2
  induction h generalizing chunk with
  | nil => rfl
  | @plain c u x hc hdollar _ ih =>
    simp only [List.mem_cons, List.not_mem_nil, or_false, not_or] at hc
    obtain ⟨hquote, htick, hescape, hbreak, hreturn⟩ := hc
    have hopen : c = '$' → (x ++ t).head? ≠ some '\x7b' := by
      rintro rfl hhead
      cases x with
      | nil => exact ht hhead
      | cons d x => exact hdollar rfl hhead
    rw [List.cons_append, operands_cons chunk (hsome x) hescape hopen, ih]
    simp [stringChar, hquote, hbreak, hreturn]
  | @quote u x _ ih =>
    rw [List.cons_append, operands_cons chunk (hsome x) (by decide) (fun h => absurd h (by decide)),
      ih]
    simp [stringChar]
  | tick _ ih | dollar _ ih => simp [operands, ih]
  | escape hc _ ih =>
    simp only [List.mem_cons, List.not_mem_nil, or_false, not_or] at hc
    simp [operands, hc, ih]

/-- The operands of a template from a string: its literal text, and the expressions in parentheses
with the literal text after each. -/
theorem operands_inside {parts : List (Text × Text)}
    (hparts : ∀ p ∈ parts, IsExpression p.1 ∧ IsChunk p.2 ∧ inner p.1 = .ok p.1) {chunk : Text}
    (hchunk : IsChunk chunk) :
    operands inner [] 0 (templateInside chunk parts ++ ['\x60']) =
      .ok (quoteChunk chunk :: parts.flatMap fun (e, c) =>
        [("(" ++ e ++ ")" : Text), quoteChunk c]) := by
  induction parts generalizing chunk with
  | nil =>
    rw [templateInside, List.flatMap_nil, List.append_nil,
      operands_escaped (escaped_templateChunk hchunk) _ (by simp) (by simp)]
    simp [operands]
  | cons p parts ih =>
    obtain ⟨⟨he, hc, hinner⟩, hrest⟩ := List.forall_mem_cons.mp hparts
    have hinside : templateInside chunk (p :: parts) ++ ['\x60'] = templateChunk chunk ++
        '$' :: '\x7b' :: (p.1 ++ '\x7d' :: (templateInside p.2 parts ++ ['\x60'])) := by
      simp [templateInside]
    have hlength (t : Text) : holeRest (p.1 ++ '\x7d' :: t) = p.1.length + 1 := by
      rw [holeRest, spanLength_hole he, spanLength]
    have hskip (t : Text) :
        operands inner [] (p.1.length + 1) (p.1 ++ '\x7d' :: t) = operands inner [] 0 t := by
      simpa using @operands_skip inner [] (p.1 ++ ['\x7d']) t
    rw [hinside, operands_escaped (escaped_templateChunk hchunk) _ (by simp) (by simp), operands,
      hlength]
    dsimp only
    rw [Nat.add_sub_cancel, List.take_left, hinner, hskip, ih hrest hc]
    change Except.ok (quoteChunk (chunk.reverse ++ []).reverse ::
      ("(" ++ Text.trim p.1 ++ ")" : Text) :: _) = _
    rw [he.trim_eq]
    simp

end Operands

/-- The operands of a concatenation: literal text, and the expressions in parentheses with the
literal text after each unless it is empty. -/
def keptOperands (chunk : Text) (parts : List (Text × Text)) : List Text :=
  quoteChunk chunk :: parts.flatMap fun (e, c) =>
    ("(" ++ e ++ ")") :: if c = [] then [] else [quoteChunk c]

/-- Only empty literal text behind the first operand is left out. -/
theorem concatenation_operands {parts : List (Text × Text)} (hne : parts ≠ []) (chunk : Text) :
    concatenation (quoteChunk chunk :: parts.flatMap fun (e, c) =>
        [("(" ++ e ++ ")" : Text), quoteChunk c]) =
      "(" ++ Text.join " + " (keptOperands chunk parts) ++ ")" := by
  have hfilter : (parts.flatMap fun (e, c) => [("(" ++ e ++ ")" : Text), quoteChunk c]).filter
      (· != quoteChunk []) =
        parts.flatMap fun (e, c) => ("(" ++ e ++ ")") :: if c = [] then [] else [quoteChunk c] := by
    rw [List.filter_flatMap]
    congr 1
    funext p
    by_cases hc : p.2 = []
    · simp [quoteChunk, hc]
    · simp [quoteChunk, hc]
  obtain ⟨p, rest, rfl⟩ := List.exists_cons_of_ne_nil hne
  rw [concatenation, hfilter]
  rfl

/-- A template from a string is rephrased as the concatenation of its operands. -/
theorem templateToConcatenation_inside {inner : Text → Outcome Text} {parts : List (Text × Text)}
    (hne : parts ≠ [])
    (hparts : ∀ p ∈ parts, IsExpression p.1 ∧ IsChunk p.2 ∧ inner p.1 = .ok p.1) {chunk : Text}
    (hchunk : IsChunk chunk) :
    templateToConcatenation inner ('\x60' :: (templateInside chunk parts ++ ['\x60'])) =
      .ok ("(" ++ Text.join " + " (keptOperands chunk parts) ++ ")") := by
  have hlast : ('\x60' :: (templateInside chunk parts ++ ['\x60'])).getLast? = some '\x60' := by
    rw [← List.cons_append, List.getLast?_concat]
  rw [templateToConcatenation, if_neg (by simp [hlast]), List.drop_one, List.tail_cons,
    operands_inside hparts hchunk]
  exact congrArg Except.ok (concatenation_operands hne chunk)

/-- The options under which templates are looked for: strings and comments are hidden. -/
def templateOptions : MaskOptions := ⟨true, .shown, true⟩

/-- A template that runs to the end of a text is one piece of it, and stays. -/
theorem mask_template {rest : Text} (h : templateRest rest = rest.length) :
    mask templateOptions ('\x60' :: rest) = ⟨'\x60' :: rest, []⟩ := by
  have hpieces : pieces templateOptions ('\x60' :: rest) = [.shown ('\x60' :: rest)] := by
    have hhead (inner : Text → Masked) (window : List Piece) :
        headPieces templateOptions inner window '\x60' rest =
          ([.shown ('\x60' :: rest)], rest.length) := by
      simp [headPieces, templateOptions, h, Piece.ofSpan]
    rw [pieces, scanPieces, hhead]
    dsimp only
    rw [scanPieces_skip, List.drop_length, scanPieces, List.append_nil]
  rw [mask_eq, hpieces]
  simp [Piece.assemble]

/-- A text without templates has none to rephrase. -/
theorem templatesFrom_of_tick_notMem {inner : Text → Outcome Text} {t : Text} (h : '\x60' ∉ t)
    (before : Text) : templatesFrom inner before 0 t = .ok t := by
  induction t generalizing before with
  | nil => rfl
  | cons c t ih =>
    simp only [List.mem_cons, not_or] at h
    simp [templatesFrom, Ne.symm h.1, ih h.2]

/-- Characters that are already written are passed over. -/
theorem templatesFrom_skip {inner : Text → Outcome Text} (before x : Text) :
    templatesFrom inner before x.length x = .ok [] := by
  induction x generalizing before with
  | nil => rfl
  | cons c x ih => rw [List.length_cons, templatesFrom, ih]

/-- A template that is the whole text is rephrased as such; nothing stands before it as a tag. -/
theorem templatesFrom_template {inner : Text → Outcome Text} {rest : Text}
    (h : templateRest rest = rest.length) :
    templatesFrom inner [] 0 ('\x60' :: rest) = templateToConcatenation inner ('\x60' :: rest) := by
  have htag : isTagged [] = false := rfl
  rw [templatesFrom, if_pos (beq_self_eq_true _)]
  dsimp only
  rw [h, List.take_length, templatesFrom_skip, List.reverse_nil, htag, if_neg Bool.false_ne_true]
  cases templateToConcatenation inner ('\x60' :: rest) with
  | error e => rfl
  | ok t => exact congrArg Except.ok (List.append_nil t)

/-- No mark has a backtick. -/
theorem tick_notMem_mark (kind : SpanKind) (i : Nat) : '\x60' ∉ kind.mark i := by
  have hdigits : '\x60' ∉ Text.ofNat i := fun h => absurd (isDigit_of_mem_ofNat h) (by decide)
  have hstart : '\x60' ∉ kind.markStart := by cases kind <;> decide
  have hstop : '\x60' ∉ kind.markStop := by cases kind <;> decide
  simp [SpanKind.mark, hdigits, hstart, hstop]

/-- A backtick in a masked text comes from the script. -/
theorem tick_notMem_assemble {ps : List Piece} (hf : ∀ p ∈ ps, p.isFlat = true)
    (h : '\x60' ∉ sources ps) (i : Nat) : '\x60' ∉ (Piece.assemble i ps).1 := by
  induction ps generalizing i with
  | nil => simp
  | cons p ps ih =>
    rw [List.forall_mem_cons] at hf
    rw [sources_cons, List.mem_append, not_or] at h
    have hrest := ih hf.2 h.2
    cases p with
    | code c => simpa using ⟨by simpa [Piece.source] using h.1, hrest i⟩
    | shown span => simpa using ⟨h.1, hrest i⟩
    | hidden kind span =>
      rw [Piece.assemble_hidden, List.mem_append, not_or]
      exact ⟨tick_notMem_mark kind i, hrest (i + 1)⟩
    | inner m => exact absurd hf.1 (by simp [Piece.isFlat])

/-- An expression without templates stays as it is. -/
theorem templatesWithin_of_tick_notMem {e : Text} (h : '\x60' ∉ e) (hu : Unmarked e)
    (hlen : e.length ≤ 10 ^ Number.digitLimit) (depth : Nat) : templatesWithin depth e = .ok e := by
  cases depth with
  | zero => rfl
  | succ depth =>
    have hflat := fun p (hp : p ∈ pieces templateOptions e) =>
      (flat_of_mem_pieces (by decide) hp).1
    have hsources : sources (pieces templateOptions e) = e := sources_pieces (by decide) e
    have hcopy := @templatesFrom_of_tick_notMem (templatesWithin depth)
      (mask templateOptions e).text (tick_notMem_assemble hflat (hsources.symm ▸ h) 0) []
    have hrestore := restore_mask (o := templateOptions) (by decide) hu hlen
    rw [templatesWithin]
    change (templatesFrom (templatesWithin depth) [] 0 (mask templateOptions e).text >>=
      (mask templateOptions e).restoreText) = _
    rw [hcopy]
    exact hrestore


/-- A join of texts without marks has none. -/
theorem unmarked_join {ts : List Text} (h : ∀ t ∈ ts, Unmarked t) :
    Unmarked (Text.join " + " ts) := by
  induction ts with
  | nil => exact ⟨by decide, by decide⟩
  | cons t ts ih =>
    rw [List.forall_mem_cons] at h
    cases ts with
    | nil => exact h.1
    | cons u us =>
      have hrest := ih h.2
      have hplus : Unmarked ("+ " ++ Text.join " + " (u :: us) : Text) :=
        (hrest.cons (c := ' ') (by decide)).cons (c := '+') (by decide)
      have hsep : Unmarked (" + " ++ Text.join " + " (u :: us) : Text) :=
        hplus.cons (c := ' ') (by decide)
      have hjoin : Text.join " + " (t :: u :: us) = t ++ (" + " ++ Text.join " + " (u :: us)) := by
        simp [Text.join]
      rw [hjoin]
      refine h.1.append hsep (Or.inr fun c hc => ?_)
      obtain rfl := Option.some.inj hc
      decide

/-- The concatenation of a string without marks has none. -/
theorem unmarked_concatenation {chunk : Text} {parts : List (Text × Text)} (hchunk : Unmarked chunk)
    (hparts : ∀ p ∈ parts, Unmarked p.1 ∧ Unmarked p.2) :
    Unmarked ("(" ++ Text.join " + " (keptOperands chunk parts) ++ ")") := by
  have hquote {c : Text} (hc : Unmarked c) : Unmarked (quoteChunk c) :=
    (hc.cons (c := '\x22') (by decide)).concat (c := '\x22') (by decide)
  have hgroup {t : Text} (ht : Unmarked t) : Unmarked ("(" ++ t ++ ")") :=
    (ht.cons (c := '(') (by decide)).concat (c := ')') (by decide)
  refine hgroup (unmarked_join fun t ht => ?_)
  rcases List.mem_cons.mp ht with rfl | ht
  · exact hquote hchunk
  obtain ⟨⟨e, c⟩, hp, ht⟩ := List.mem_flatMap.mp ht
  rcases List.mem_cons.mp ht with rfl | ht
  · exact hgroup (hparts _ hp).1
  split at ht
  · cases ht
  · rw [List.mem_singleton.mp ht]
    exact hquote (hparts _ hp).2

/-- A string with interpolations becomes a template and then a concatenation: the literal text
stands in it as it was written, the expressions stand in parentheses, and only empty literal text
behind the first operand is left out. -/
theorem templates_interpolate {chunk : Text} {parts : List (Text × Text)} (hne : parts ≠ [])
    (hchunk : IsChunk chunk ∧ Unmarked chunk)
    (hparts : ∀ p ∈ parts, IsExpression p.1 ∧ IsChunk p.2 ∧ Unmarked p.2)
    (hlen : ∀ p ∈ parts, p.1.length ≤ 10 ^ Number.digitLimit) :
    templates (Body.Swift.interpolate (Body.Swift.stringLiteral chunk parts)) =
      .ok ("(" ++ Text.join " + " (keptOperands chunk parts) ++ ")") := by
  have hplain : ∀ p ∈ parts, IsExpression p.1 ∧ IsChunk p.2 := fun p hp =>
    ⟨(hparts p hp).1, (hparts p hp).2.1⟩
  have hrest : templateRest (templateInside chunk parts ++ ['\x60']) =
      (templateInside chunk parts ++ ['\x60']).length := by
    rw [templateRest_inside hplain hchunk.1, List.length_append, List.length_singleton]
  rw [Body.Swift.interpolate_stringLiteral hne hplain hchunk.1, templates]
  generalize ('\x60' :: (templateInside chunk parts ++ ['\x60'])).length = depth
  have hinner : ∀ p ∈ parts,
      IsExpression p.1 ∧ IsChunk p.2 ∧ templatesWithin depth p.1 = .ok p.1 := by
    intro p hp
    obtain ⟨he, hc, -⟩ := hparts p hp
    exact ⟨he, hc, templatesWithin_of_tick_notMem he.tick he.unmarked (hlen p hp) depth⟩
  have hunmarked := unmarked_concatenation hchunk.2 fun p hp =>
    ⟨(hparts p hp).1.unmarked, (hparts p hp).2.2⟩
  rw [templatesWithin]
  change (templatesFrom (templatesWithin depth) [] 0 (mask templateOptions _).text >>=
    (mask templateOptions _).restoreText) = _
  rw [mask_template hrest]
  dsimp only
  rw [templatesFrom_template hrest, templateToConcatenation_inside hne hinner hchunk.1]
  exact Masked.restoreText_of_unmarked _ hunmarked

/-- The literal text before the first interpolation of a string: an escaped quote and a dollar
sign. -/
def costChunk : Text := "\\\x22$"

/-- Two interpolations without text between them, and a backtick behind. -/
def costParts : List (Text × Text) := [("f(x)", []), ("y", "\x60")]

/-- Dollar signs, quotes and backticks come through, and so does a call. -/
theorem templates_interpolate_cost :
    Body.Swift.stringLiteral costChunk costParts = "\x22\\\x22$\\(f(x))\\(y)\x60\x22".toList ∧
      templates (Body.Swift.interpolate (Body.Swift.stringLiteral costChunk costParts)) =
        .ok "(\x22\\\x22$\x22 + (f(x)) + (y) + \x22\x60\x22)" := by
  have hunmarked {t : Text} (h : '_' ∉ t ∧ '\x03' ∉ t) : Unmarked t :=
    ⟨fun hi => h.1 (hi.subset (by decide)), h.2⟩
  have hchunk : IsChunk costChunk ∧ Unmarked costChunk :=
    ⟨.escape (by decide) (by decide) (by decide) (by decide) (by decide)
      (.plain (by decide) (by decide) (by decide) (by decide) .nil), hunmarked (by decide)⟩
  have hcall : IsExpression "f(x)" :=
    ⟨by decide, by decide, .other (by decide) (by decide)
      (.group (.other (by decide) (by decide) .nil) .nil), by decide, by decide, by decide,
      by decide, by decide, by decide, hunmarked (by decide)⟩
  have hname : IsExpression "y" :=
    ⟨by decide, by decide, .other (by decide) (by decide) .nil, by decide, by decide,
      by decide, by decide, by decide, by decide, hunmarked (by decide)⟩
  have htick : IsChunk "\x60" := .plain (by decide) (by decide) (by decide) (by decide) .nil
  have hparts : ∀ p ∈ costParts, IsExpression p.1 ∧ IsChunk p.2 ∧ Unmarked p.2 := by
    simp only [costParts, List.forall_mem_cons]
    exact ⟨⟨hcall, .nil, hunmarked (by decide)⟩, ⟨hname, htick, hunmarked (by decide)⟩, nofun⟩
  have hlen : ∀ p ∈ costParts, p.1.length ≤ 10 ^ Number.digitLimit := fun p hp =>
    le_pow_digitLimit (by revert p; decide)
  refine ⟨by decide, ?_⟩
  rw [templates_interpolate (by decide) hchunk hparts hlen]
  exact congrArg Except.ok (by decide)

end HostScript.Downlevel
