import HostScript.Proofs.Script.Runs
import HostScript.Script.Masked
import Mathlib.Data.List.Infix

/-!
# Pieces of a script

A piece stands for a stretch of the script it was cut from. The pieces of a script stand, one
after the other, for the whole of it: the scanner neither loses nor repeats a character, whatever
is left open at the end of the text.
-/

namespace HostScript.Script

/-- The part of a script that a piece stands for; a substitution stands for what it restores to. -/
def Piece.source : Piece → Text
  | .code c => [c]
  | .shown span => span
  | .hidden _ span => span
  | .inner m =>
    match m.restore with
    | .ok t => t
    | .error _ => []

/-- The script that pieces stand for. -/
def sources (ps : List Piece) : Text := ps.flatMap Piece.source

@[simp] theorem sources_nil : sources [] = [] := rfl

@[simp] theorem sources_cons (p : Piece) (ps : List Piece) :
    sources (p :: ps) = p.source ++ sources ps := rfl

@[simp] theorem sources_append (ps qs : List Piece) :
    sources (ps ++ qs) = sources ps ++ sources qs := List.flatMap_append

/-- Whether a piece is cut from the script itself and is no masked substitution. -/
def Piece.isFlat : Piece → Bool
  | .inner _ => false
  | _ => true

@[simp] theorem Piece.source_ofSpan (hide : Bool) (kind : SpanKind) (span : Text) :
    (Piece.ofSpan hide kind span).source = span := by
  cases hide <;> rfl

@[simp] theorem Piece.isFlat_ofSpan (hide : Bool) (kind : SpanKind) (span : Text) :
    (Piece.ofSpan hide kind span).isFlat = true := by
  cases hide <;> rfl

namespace Piece

@[simp] theorem assemble_nil (i : Nat) : assemble i [] = ([], []) := rfl

@[simp] theorem assemble_code (i : Nat) (c : Char) (ps : List Piece) :
    assemble i (.code c :: ps) = (c :: (assemble i ps).1, (assemble i ps).2) := rfl

@[simp] theorem assemble_shown (i : Nat) (span : Text) (ps : List Piece) :
    assemble i (.shown span :: ps) = (span ++ (assemble i ps).1, (assemble i ps).2) := rfl

@[simp] theorem assemble_hidden (i : Nat) (kind : SpanKind) (span : Text) (ps : List Piece) :
    assemble i (.hidden kind span :: ps) =
      (kind.mark i ++ (assemble (i + 1) ps).1, span :: (assemble (i + 1) ps).2) := rfl

end Piece

/-- Unless templates are opened, one piece starts at a character, and it stands for that character
and those it covers. -/
theorem headPieces_eq {o : MaskOptions} (ho : o.templates ≠ .chunked) (inner : Text → Masked)
    (window : List Piece) (c : Char) (rest : Text) :
    ∃ p n, headPieces o inner window c rest = ([p], n) ∧ p.source = c :: rest.take n ∧
      p.isFlat = true := by
  have hspan (hide : Bool) (kind : SpanKind) (n : Nat) :
      ∃ p m, (([Piece.ofSpan hide kind (c :: rest.take n)], n) : List Piece × Nat) = ([p], m) ∧
        p.source = c :: rest.take m ∧ p.isFlat = true :=
    ⟨_, _, rfl, Piece.source_ofSpan .., Piece.isFlat_ofSpan ..⟩
  have hcode : ∃ p m, (([Piece.code c], 0) : List Piece × Nat) = ([p], m) ∧
      p.source = c :: rest.take m ∧ p.isFlat = true := ⟨_, _, rfl, rfl, rfl⟩
  unfold headPieces
  split
  · exact hspan ..
  split
  · cases hm : o.templates with
    | shown => exact hspan ..
    | hidden => exact hspan ..
    | chunked => exact absurd hm ho
  split
  · split
    · exact hspan ..
    · exact hspan ..
    · split
      · split
        · exact hspan ..
        · exact hcode
      · exact hcode
  · exact hcode

/-- The pieces of a script stand for the script, from the first character not yet covered. -/
theorem sources_scanPieces {o : MaskOptions} (ho : o.templates ≠ .chunked)
    (inner : Text → Masked) (window : List Piece) (skip : Nat) (code : Text) :
    sources (scanPieces o inner window skip code) = code.drop skip := by
  induction code generalizing window skip with
  | nil => simp [scanPieces]
  | cons c rest ih =>
    cases skip with
    | succ skip => simpa [scanPieces] using ih window skip
    | zero =>
      obtain ⟨p, n, hp, hs, _⟩ := headPieces_eq ho inner window c rest
      simp only [scanPieces, hp, sources_append, sources_cons, sources_nil, List.append_nil, hs, ih]
      rw [List.cons_append, List.take_append_drop, List.drop_zero]

/-- Unless templates are opened, every piece is cut from the script itself and stands for at least
one character. -/
theorem flat_of_mem_scanPieces {o : MaskOptions} (ho : o.templates ≠ .chunked)
    (inner : Text → Masked) {window : List Piece} {skip : Nat} {code : Text} {p : Piece}
    (h : p ∈ scanPieces o inner window skip code) : p.isFlat = true ∧ p.source ≠ [] := by
  induction code generalizing window skip with
  | nil => simp [scanPieces] at h
  | cons c rest ih =>
    cases skip with
    | succ skip => exact ih (by simpa [scanPieces] using h)
    | zero =>
      obtain ⟨q, n, hq, hs, hf⟩ := headPieces_eq ho inner window c rest
      simp only [scanPieces, hq, List.singleton_append, List.mem_cons] at h
      rcases h with rfl | h
      · exact ⟨hf, by simp [hs]⟩
      · exact ih h

/-- The pieces that a script is cut into. -/
def pieces (o : MaskOptions) (code : Text) : List Piece :=
  scanPieces o (maskWithin o code.length) [] 0 code

/-- Masking numbers the hidden pieces from zero. -/
theorem mask_eq (o : MaskOptions) (code : Text) :
    mask o code = ⟨(Piece.assemble 0 (pieces o code)).1, (Piece.assemble 0 (pieces o code)).2⟩ :=
  rfl

/-- The pieces of a script stand for the script. -/
theorem sources_pieces {o : MaskOptions} (ho : o.templates ≠ .chunked) (code : Text) :
    sources (pieces o code) = code :=
  sources_scanPieces ho _ [] 0 code

/-- Unless templates are opened, every piece of a script is cut from the script itself and stands
for at least one character. -/
theorem flat_of_mem_pieces {o : MaskOptions} (ho : o.templates ≠ .chunked) {code : Text}
    {p : Piece} (h : p ∈ pieces o code) : p.isFlat = true ∧ p.source ≠ [] :=
  flat_of_mem_scanPieces ho _ h

end HostScript.Script

/-!
## Scripts that are masked whole

When strings, whole templates and comments are all hidden, a script is cut into single characters
of code and hidden spans. What starts at a character depends on that character, on the text after
it and, for a slash, on the end of the text before it.
-/

namespace HostScript.Script

/-- The hidden span that starts at a slash: its kind and its length after the slash. -/
def slashSpan? (before rest : Text) : Option (SpanKind × Nat) :=
  if rest.head? = some '/' then some (.comment, lineCommentLength rest)
  else if rest.head? = some '*' then some (.comment, blockCommentLength ('/' :: rest) - 1)
  else if regexAllowed before then (regexRest rest).map fun n => (.literal, n)
  else none

/-- The hidden span that starts at a character: its kind and its length after the character. There
is none where the character is code. -/
def spanAt? (before : Text) (c : Char) (rest : Text) : Option (SpanKind × Nat) :=
  if c == '\x22' || c == '\x27' then some (.literal, stringRest c rest)
  else if c == '\x60' then some (.literal, templateRest rest)
  else if c == '/' then slashSpan? before rest
  else none

/-- The pieces of a script that is masked whole, after the pieces in the window. -/
def cut (window : List Piece) (code : Text) : List Piece :=
  scanPieces .all (fun t => ⟨t, []⟩) window 0 code

/-- One piece starts at a character: the hidden span, or the character itself. -/
theorem headPieces_all (inner : Text → Masked) (window : List Piece) (c : Char) (rest : Text) :
    headPieces .all inner window c rest =
      match spanAt? (nearby window) c rest with
      | some (kind, n) => ([.hidden kind (c :: rest.take n)], n)
      | none => ([.code c], 0) := by
  unfold headPieces spanAt?
  split
  · rfl
  split
  · rfl
  split
  · rename_i hc
    rw [beq_iff_eq] at hc
    subst hc
    unfold slashSpan?
    split
    · rfl
    · rfl
    · rename_i hline hblock
      have h₁ : ¬ rest.head? = some '/' := by
        intro h
        obtain ⟨tail, rfl⟩ := List.head?_eq_some_iff.mp h
        exact hline tail rfl
      have h₂ : ¬ rest.head? = some '*' := by
        intro h
        obtain ⟨tail, rfl⟩ := List.head?_eq_some_iff.mp h
        exact hblock tail rfl
      rw [if_neg h₁, if_neg h₂]
      cases regexRest rest <;> cases regexAllowed (nearby window) <;> rfl
  · rfl

/-- Characters that are already covered are passed over. -/
theorem scanPieces_skip (o : MaskOptions) (inner : Text → Masked) (window : List Piece)
    (skip : Nat) (code : Text) :
    scanPieces o inner window skip code = scanPieces o inner window 0 (code.drop skip) := by
  induction code generalizing skip with
  | nil => simp [scanPieces]
  | cons c rest ih =>
    cases skip with
    | zero => rfl
    | succ skip => simpa [scanPieces] using ih skip

private theorem scanPieces_all_cons (inner : Text → Masked) (window : List Piece) (c : Char)
    (rest : Text) : scanPieces .all inner window 0 (c :: rest) =
      match spanAt? (nearby window) c rest with
      | some (kind, n) => .hidden kind (c :: rest.take n) ::
          scanPieces .all inner (.hidden kind (c :: rest.take n) :: window) n rest
      | none => .code c :: scanPieces .all inner (.code c :: window) 0 rest := by
  rw [scanPieces, headPieces_all]
  cases spanAt? (nearby window) c rest <;> rfl

/-- Templates that are hidden whole are not looked into. -/
theorem scanPieces_all_eq (inner inner' : Text → Masked) (window : List Piece) (skip : Nat)
    (code : Text) :
    scanPieces .all inner window skip code = scanPieces .all inner' window skip code := by
  induction code generalizing window skip with
  | nil => simp [scanPieces]
  | cons c rest ih =>
    cases skip with
    | succ skip => simpa [scanPieces] using ih window skip
    | zero =>
      rw [scanPieces_all_cons, scanPieces_all_cons]
      cases spanAt? (nearby window) c rest <;> simp only [ih]

/-- The pieces of a script that hides everything. -/
theorem pieces_all (code : Text) : pieces .all code = cut [] code :=
  scanPieces_all_eq _ _ [] 0 code

@[simp] theorem cut_nil (window : List Piece) : cut window [] = [] := rfl

/-- A script is cut at the end of its first piece. -/
theorem cut_cons (window : List Piece) (c : Char) (rest : Text) :
    cut window (c :: rest) =
      match spanAt? (nearby window) c rest with
      | some (kind, n) => .hidden kind (c :: rest.take n) ::
          cut (.hidden kind (c :: rest.take n) :: window) (rest.drop n)
      | none => .code c :: cut (.code c :: window) rest := by
  rw [cut, scanPieces_all_cons]
  cases spanAt? (nearby window) c rest with
  | none => rfl
  | some kn => simp only [scanPieces_skip _ _ _ kn.2, cut]

/-- Where a character is code it is cut off alone. -/
theorem cut_of_none {window : List Piece} {c : Char} {rest : Text}
    (h : spanAt? (nearby window) c rest = none) :
    cut window (c :: rest) = .code c :: cut (.code c :: window) rest := by
  rw [cut_cons, h]

/-- Where a hidden span starts it is cut off whole. -/
theorem cut_of_some {window : List Piece} {c : Char} {rest : Text} {kind : SpanKind} {n : Nat}
    (h : spanAt? (nearby window) c rest = some (kind, n)) :
    cut window (c :: rest) = .hidden kind (c :: rest.take n) ::
      cut (.hidden kind (c :: rest.take n) :: window) (rest.drop n) := by
  rw [cut_cons, h]

/-- What is cut out of a script stands for the script. -/
@[simp] theorem sources_cut (window : List Piece) (code : Text) :
    sources (cut window code) = code :=
  sources_scanPieces (by decide) _ window 0 code

/-- A hidden span starts with a quote, a backtick or a slash, and is no template chunk. -/
theorem of_spanAt?_eq_some {before : Text} {c : Char} {rest : Text} {kind : SpanKind} {n : Nat}
    (h : spanAt? before c rest = some (kind, n)) : kind ≠ .chunk ∧ isIdentPart c = false := by
  unfold spanAt? at h
  split at h
  · rename_i hc
    rw [Bool.or_eq_true, beq_iff_eq, beq_iff_eq] at hc
    cases h
    refine ⟨by decide, ?_⟩
    rcases hc with rfl | rfl <;> decide
  split at h
  · rename_i hc
    rw [beq_iff_eq] at hc
    cases h
    refine ⟨by decide, ?_⟩
    subst hc
    decide
  split at h
  · rename_i hc
    rw [beq_iff_eq] at hc
    subst hc
    refine ⟨?_, by decide⟩
    unfold slashSpan? at h
    split_ifs at h
    · cases h
      decide
    · cases h
      decide
    · obtain ⟨m, -, hm⟩ := Option.map_eq_some_iff.mp h
      cases hm
      decide
  · cases h

/-- Characters of identifiers are code wherever they stand. -/
theorem spanAt?_eq_none_of_isIdentPart {before : Text} {c : Char} {rest : Text}
    (h : isIdentPart c = true) : spanAt? before c rest = none := by
  cases hs : spanAt? before c rest with
  | none => rfl
  | some kn =>
    have := (of_spanAt?_eq_some hs).2
    rw [h] at this
    cases this

end HostScript.Script
