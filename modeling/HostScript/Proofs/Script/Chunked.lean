import HostScript.Proofs.Script.Restore
import HostScript.Proofs.Script.Spans
import Mathlib.Algebra.GroupWithZero.Nat

/-!
# Masking the text of templates

When templates are opened, the substitutions in them are masked on their own and their marks are
renumbered. Renumbering the marks of assembled pieces is assembling them from another number on, so
a masked substitution can be replaced by the pieces that it was assembled from, and restoring gives
what all these pieces stand for. That is the script, but for one thing: where a template ends right
behind the brace that opens a substitution, the brace also starts the chunk behind it.
-/

namespace HostScript.Script

/-! ## Further braces -/

/-- A text with a number of further opening braces put in. -/
inductive Braced : Nat → Text → Text → Prop where
  | nil : Braced 0 [] []
  | cons {n : Nat} {s t : Text} (c : Char) (h : Braced n s t) : Braced n (c :: s) (c :: t)
  | brace {n : Nat} {s t : Text} (h : Braced n s t) : Braced (n + 1) s ('\x7b' :: t)

namespace Braced

variable {m n : Nat} {s t u v : Text}

theorem refl : (s : Text) → Braced 0 s s
  | [] => .nil
  | c :: s => .cons c (refl s)

theorem append (hs : Braced m s t) (hu : Braced n u v) : Braced (m + n) (s ++ u) (t ++ v) := by
  induction hs with
  | nil => rwa [Nat.zero_add]
  | cons c _ ih => exact .cons c ih
  | brace _ ih =>
    rw [Nat.add_right_comm]
    exact .brace ih

/-- Each brace that is put in makes the text longer. -/
theorem length_eq (h : Braced n s t) : t.length = s.length + n := by
  induction h with
  | nil => rfl
  | cons c _ ih => rw [List.length_cons, List.length_cons, ih, Nat.add_right_comm]
  | brace _ ih => rw [List.length_cons, ih, Nat.add_assoc]

theorem eq_of_zero (h : Braced 0 s t) : t = s := by
  generalize hn : 0 = n at h
  induction h with
  | nil => rfl
  | cons c _ ih => rw [ih hn]
  | brace => cases hn

/-- No mark starts with or at a brace. -/
theorem isPrefix {w : Text} (h : Braced n s t) (hw : '\x7b' ∉ w) (hp : w <+: t) : w <+: s := by
  induction h generalizing w with
  | nil => exact hp
  | cons c _ ih =>
    cases w with
    | nil => exact List.nil_prefix
    | cons a w =>
      rw [List.cons_prefix_cons] at hp ⊢
      exact ⟨hp.1, ih (fun h => hw (List.mem_cons_of_mem _ h)) hp.2⟩
  | brace _ _ =>
    cases w with
    | nil => exact List.nil_prefix
    | cons a w =>
      rw [List.cons_prefix_cons] at hp
      exact absurd (hp.1 ▸ List.mem_cons_self ..) hw

theorem isInfix {w : Text} (h : Braced n s t) (hw : '\x7b' ∉ w) (hi : w <:+: t) : w <:+: s := by
  induction h with
  | nil => exact hi
  | cons c h ih =>
    rcases List.infix_cons_iff.mp hi with hp | hi
    · exact ((Braced.cons c h).isPrefix hw hp).isInfix
    · exact (ih hi).trans (List.suffix_cons c _).isInfix
  | brace h ih =>
    rcases List.infix_cons_iff.mp hi with hp | hi
    · exact ((Braced.brace h).isPrefix hw hp).isInfix
    · exact ih hi

theorem unmarked (h : Braced n s t) (hs : Unmarked s) : Unmarked t where
  head hi := hs.head (h.isInfix (by decide) hi)
  chunk hmem := by
    have hi : ['\x03'] <:+: t := by
      obtain ⟨a, b, rfl⟩ := List.append_of_mem hmem
      exact ⟨a, b, by simp⟩
    exact hs.chunk ((h.isInfix (by decide) hi).subset (List.mem_singleton_self _))

end Braced

/-! ## Renumbering -/

namespace Piece

/-- Pieces are assembled one row after the other. -/
theorem assemble_append (i : Nat) (ps qs : List Piece) :
    assemble i (ps ++ qs) =
      ((assemble i ps).1 ++ (assemble (i + (assemble i ps).2.length) qs).1,
        (assemble i ps).2 ++ (assemble (i + (assemble i ps).2.length) qs).2) := by
  induction ps generalizing i with
  | nil => simp
  | cons p ps ih =>
    cases p with
    | code c => simp [ih]
    | shown span => simp [ih]
    | hidden kind span => simp [ih, Nat.add_assoc, Nat.add_comm 1]
    | inner m => simp [assemble, ih, Nat.add_assoc]

/-- The hidden spans do not depend on their numbers. -/
theorem assemble_snd (i j : Nat) (ps : List Piece) : (assemble i ps).2 = (assemble j ps).2 := by
  induction ps generalizing i j with
  | nil => rfl
  | cons p ps ih =>
    cases p with
    | code c => exact ih i j
    | shown span => exact ih i j
    | hidden kind span => exact congrArg (span :: ·) (ih (i + 1) (j + 1))
    | inner m => exact congrArg (m.spans ++ ·) (ih _ _)

end Piece

/-- Characters that are already covered are passed over. -/
theorem raiseMarks_go_skip (k : Nat) (x t : Text) :
    raiseMarks.go k x.length (x ++ t) = raiseMarks.go k 0 t := by
  induction x with
  | nil => rfl
  | cons c x ih => simpa only [List.length_cons, List.cons_append, raiseMarks.go] using ih

/-- A stretch in which no mark starts is copied. -/
theorem raiseMarks_go_copy {k : Nat} {x t : Text}
    (h : ∀ s, s ≠ [] → s <:+ x → Mark.read? (s ++ t) = none) :
    raiseMarks.go k 0 (x ++ t) = x ++ raiseMarks.go k 0 t := by
  induction x with
  | nil => rfl
  | cons c x ih =>
    have hread : Mark.read? (c :: (x ++ t)) = none := h (c :: x) (by simp) List.suffix_rfl
    rw [List.cons_append, raiseMarks.go, hread]
    dsimp only
    rw [ih fun s hs hsx => h s hs (hsx.trans (List.suffix_cons c x)), List.cons_append]

/-- A mark is raised. -/
theorem raiseMarks_go_mark (k : Nat) (kind : SpanKind) (i : Nat) (t : Text) :
    raiseMarks.go k 0 (kind.mark i ++ t) = kind.mark (i + k) ++ raiseMarks.go k 0 t := by
  have hread := Mark.read?_mark kind i t
  obtain ⟨c, m, hm⟩ : ∃ c m, kind.mark i = c :: m := by
    cases kind <;> exact ⟨_, _, rfl⟩
  rw [hm] at hread
  rw [hm, List.cons_append, raiseMarks.go, ← List.cons_append, hread]
  dsimp only
  rw [Mark.index, ofDigits_ofNat, List.length_cons, Nat.add_sub_cancel, raiseMarks_go_skip]

/-- Renumbering the marks of assembled pieces is assembling them from a later number on. -/
theorem raiseMarks_assemble {qs : List Piece} (hf : ∀ q ∈ qs, q.isFlat = true)
    (hu : Unmarked (sources qs)) (i k : Nat) :
    raiseMarks k (Piece.assemble i qs).1 = (Piece.assemble (i + k) qs).1 := by
  rw [raiseMarks]
  induction qs generalizing i with
  | nil => rfl
  | cons q qs ih =>
    have hqs : ∀ q ∈ qs, q.isFlat = true := fun q hq => hf q (List.mem_cons_of_mem _ hq)
    have huqs : Unmarked (sources qs) := hu.of_infix (List.suffix_append q.source _).isInfix
    have hcopy {x : Text} (hx : Unmarked (x ++ sources qs)) :
        ∀ s, s ≠ [] → s <:+ x → Mark.read? (s ++ (Piece.assemble i qs).1) = none := by
      rintro s hs ⟨x', rfl⟩
      rw [List.append_assoc] at hx
      exact read?_append_assemble hqs hs (hx.of_infix (List.suffix_append x' _).isInfix)
    cases q with
    | code c =>
      have hcode := raiseMarks_go_copy (k := k) (x := [c]) (hcopy hu)
      rw [ih hqs huqs] at hcode
      exact hcode
    | shown span =>
      have hshown := raiseMarks_go_copy (k := k) (x := span) (hcopy hu)
      rw [ih hqs huqs] at hshown
      exact hshown
    | hidden kind span =>
      rw [Piece.assemble_hidden, Piece.assemble_hidden]
      dsimp only
      rw [raiseMarks_go_mark, ih hqs huqs, Nat.add_right_comm]
    | inner m => exact absurd (hf _ (List.mem_cons_self ..)) (by simp [Piece.isFlat])

/-! ## Substitutions replaced by their pieces -/

/-- Pieces that are assembled as flat pieces are which stand for a script with a number of further
braces and hide no more spans than the script has characters. -/
def StandFor (n : Nat) (code : Text) (ps : List Piece) : Prop :=
  ∃ qs : List Piece, (∀ q ∈ qs, q.isFlat = true) ∧
    (∀ i, Piece.assemble i ps = Piece.assemble i qs) ∧ Braced n code (sources qs) ∧
      (Piece.assemble 0 qs).2.length ≤ code.length

namespace StandFor

variable {m n : Nat} {s t : Text} {ps qs : List Piece}

theorem nil : StandFor 0 [] [] :=
  ⟨[], List.forall_mem_nil _, fun _ => rfl, .nil, le_rfl⟩

theorem append (hs : StandFor m s ps) (ht : StandFor n t qs) :
    StandFor (m + n) (s ++ t) (ps ++ qs) := by
  obtain ⟨ps', hps, hpse, hpsb, hpsl⟩ := hs
  obtain ⟨qs', hqs, hqse, hqsb, hqsl⟩ := ht
  refine ⟨ps' ++ qs', List.forall_mem_append.mpr ⟨hps, hqs⟩, fun i => ?_, ?_, ?_⟩
  · rw [Piece.assemble_append, Piece.assemble_append, hpse, hqse]
  · rw [sources_append]
    exact hpsb.append hqsb
  · rw [Piece.assemble_append, List.length_append, List.length_append,
      Piece.assemble_snd _ 0 qs']
    omega

/-- A piece that is cut from the script stands for what it was cut from. -/
theorem piece {p : Piece} (hflat : p.isFlat = true) (hne : p.source ≠ []) :
    StandFor 0 p.source [p] := by
  have hsources : sources [p] = p.source := List.append_nil _
  refine ⟨[p], List.forall_mem_singleton.mpr hflat, fun _ => rfl, ?_, ?_⟩
  · rw [hsources]
    exact .refl _
  · rw [← hsources]
    exact length_spans_le (List.forall_mem_singleton.mpr ⟨hflat, hne⟩) 0

/-- A masked substitution is assembled as the pieces that it was assembled from. -/
theorem inner (h : StandFor n t ps) (ht : Unmarked t) :
    StandFor n t [.inner ⟨(Piece.assemble 0 ps).1, (Piece.assemble 0 ps).2⟩] := by
  obtain ⟨qs, hqs, hqse, hqsb, hqsl⟩ := h
  refine ⟨qs, hqs, fun i => ?_, hqsb, hqsl⟩
  have hraise := raiseMarks_assemble hqs (hqsb.unmarked ht) 0 i
  rw [Nat.zero_add] at hraise
  simp only [Piece.assemble, hqse, hraise, List.append_nil]
  rw [Piece.assemble_snd 0 i qs]

/-- What such pieces are assembled to is restored to what they stand for. -/
theorem restore (h : StandFor n t ps) (ht : Unmarked t) (hlen : t.length ≤ 10 ^ Number.digitLimit) :
    ∃ u, Masked.restore ⟨(Piece.assemble 0 ps).1, (Piece.assemble 0 ps).2⟩ = .ok u ∧
      Braced n t u := by
  obtain ⟨qs, hqs, hqse, hqsb, hqsl⟩ := h
  refine ⟨sources qs, ?_, hqsb⟩
  rw [hqse, Masked.restore, Masked.restoreText]
  exact Masked.fillAll_assemble hqs (hqsb.unmarked ht) (by simp) (by omega)

/-- Single characters stand for their text. -/
theorem code : (t : Text) → StandFor 0 t (t.map .code)
  | [] => .nil
  | c :: t => (piece (p := .code c) rfl (List.cons_ne_nil c [])).append (code t)

end StandFor

/-! ## Templates -/

/-- What stands behind each opening of a substitution in the rest of a template. -/
def holes : (skip : Nat) → Text → List Text
  | _, [] => []
  | skip + 1, _ :: rest => holes skip rest
  | 0, '\\' :: [] => []
  | 0, '\\' :: _ :: rest => holes 0 rest
  | 0, '$' :: '\x7b' :: rest => rest :: holes (holeRest rest) rest
  | 0, _ :: rest => holes 0 rest

/-- The templates that a scan of a script comes upon, each behind its opening backtick. -/
def templates (o : MaskOptions) (inner : Text → Masked) :
    (window : List Piece) → (skip : Nat) → Text → List Text
  | _, _, [] => []
  | window, skip + 1, _ :: rest => templates o inner window skip rest
  | window, 0, c :: rest =>
    let (new, covered) := headPieces o inner window c rest
    let later := templates o inner (new.reverse ++ window) covered rest
    if c == '\x60' then rest.take covered :: later else later

/-- The number of substitutions behind whose opening nothing is left, where templates nest at most
`depth` deep. What stands in a substitution is looked through on its own, without the character that
closes it or, if nothing does, the last one. -/
def cutOpenings (o : MaskOptions) : (depth : Nat) → Text → Nat
  | 0, _ => 0
  | depth + 1, code =>
    (((templates o (maskWithin o depth) [] 0 code).flatMap (holes 0)).map fun hole =>
      (if hole.isEmpty then 1 else 0) + cutOpenings o depth (hole.take (holeRest hole - 1))).sum

/-- A template that ends right behind the opening of a substitution has the brace twice. -/
theorem StandFor.cut {n : Nat} {ps : List Piece} (h : StandFor n [] ps) {chunk : Text}
    (hne : chunk ≠ []) :
    StandFor (1 + n) (chunk ++ "$\x7b".toList)
      (.hidden .chunk (chunk ++ "$\x7b".toList) :: ps ++ [.hidden .chunk ['\x7b']]) := by
  obtain ⟨qs, hqs, hqse, hqsb, hqsl⟩ := h
  refine ⟨.hidden .chunk (chunk ++ "$\x7b".toList) :: qs ++ [.hidden .chunk ['\x7b']], ?_, ?_, ?_, ?_⟩
  · exact List.forall_mem_append.mpr ⟨List.forall_mem_cons.mpr ⟨rfl, hqs⟩,
      List.forall_mem_singleton.mpr rfl⟩
  · intro i
    rw [List.cons_append, List.cons_append, Piece.assemble_hidden, Piece.assemble_hidden,
      Piece.assemble_append, Piece.assemble_append, hqse]
  · have hbraced := (Braced.refl (chunk ++ "$\x7b".toList)).append (hqsb.append (Braced.brace .nil))
    rw [Nat.zero_add, Nat.add_comm n, List.append_nil, List.append_nil] at hbraced
    simpa [sources, Piece.source] using hbraced
  · have hspans : (Piece.assemble 1 qs).2.length ≤ 0 := by
      rw [Piece.assemble_snd 1 0]
      exact hqsl
    have hpos := List.length_pos_of_ne_nil hne
    simp [Piece.assemble_append]
    omega

/-- The pieces of a template stand for the template. -/
theorem standFor_templatePieces {inner : Text → Masked} {count : Text → Nat}
    (hinner : ∀ t, Unmarked t → StandFor (count t) t [.inner (inner t)]) {chunk : Text}
    {skip : Nat} {rest : Text} (hchunk : chunk ≠ []) (hu : Unmarked rest) :
    StandFor (((holes skip rest).map fun hole =>
        (if hole.isEmpty then 1 else 0) + count (hole.take (holeRest hole - 1))).sum)
      (chunk.reverse ++ rest.drop skip) (templatePieces inner chunk skip rest) := by
  have hlast {chunk : Text} (hchunk : chunk ≠ []) :
      StandFor 0 (chunk.reverse ++ []) [.hidden .chunk chunk.reverse] := by
    rw [List.append_nil]
    exact StandFor.piece (p := .hidden .chunk chunk.reverse) rfl (List.reverse_ne_nil_iff.mpr hchunk)
  fun_induction templatePieces inner chunk skip rest with
  | case1 chunk skip =>
    rw [holes, List.drop_nil]
    exact hlast hchunk
  | case2 chunk skip c rest ih =>
    rw [holes, List.drop_succ_cons]
    exact ih hchunk (hu.of_infix (List.suffix_cons c rest).isInfix)
  | case3 chunk =>
    rw [holes, List.drop_zero, List.append_cons, List.append_nil, ← List.reverse_cons]
    exact StandFor.piece (p := .hidden .chunk ('\\' :: chunk).reverse) rfl
      (List.reverse_ne_nil_iff.mpr (List.cons_ne_nil _ _))
  | case4 chunk c rest ih =>
    have hrest := ih (List.cons_ne_nil _ _) (hu.of_infix ⟨['\\', c], [], by simp⟩)
    rw [holes]
    simpa using hrest
  | case5 chunk rest length close ih =>
    have hurest : Unmarked rest := hu.of_infix ⟨['$', '\x7b'], [], by simp⟩
    have htext : (chunk.reverse ++ "$\x7b".toList : Text) = ('\x7b' :: '$' :: chunk).reverse := by
      simp
    rw [holes, List.map_cons, List.sum_cons, List.drop_zero]
    cases rest with
    | nil =>
      -- Nothing is left behind the opening, so its brace starts the next chunk.
      have hcut := (hinner [] hurest).cut (List.reverse_ne_nil_iff.mpr hchunk)
      rw [htext] at hcut
      have hbrace : close = '\x7b' := rfl
      rw [hbrace]
      simpa [holes, templatePieces, holeRest] using hcut
    | cons a rest =>
      have hpos : 0 < length := spanLength_pos _ _ (List.cons_ne_nil a rest)
      have hle : length ≤ (a :: rest).length := spanLength_le _ _
      have hne : (a :: rest).take length ≠ [] := by
        rw [← List.length_pos_iff, List.length_take]
        omega
      have hlast : close = ((a :: rest).take length).getLast hne := by
        change (List.getLast? _).getD _ = _
        rw [List.getLast?_eq_getLast_of_ne_nil hne, Option.getD_some]
      have hinit : (a :: rest).take (length - 1) = ((a :: rest).take length).dropLast := by
        rw [List.dropLast_eq_take, List.take_take, List.length_take, Nat.min_eq_left hle,
          Nat.min_eq_left (Nat.sub_le _ _)]
      have hclose : (a :: rest).take (length - 1) ++ [close] = (a :: rest).take length := by
        rw [hlast, hinit, List.dropLast_append_getLast]
      have hopen := StandFor.piece (p := .hidden .chunk ('\x7b' :: '$' :: chunk).reverse) rfl
        (List.reverse_ne_nil_iff.mpr (List.cons_ne_nil _ _))
      have hhole := hinner ((a :: rest).take (length - 1))
        (hurest.of_infix (List.take_prefix _ _).isInfix)
      have hbehind := ih (List.cons_ne_nil _ _) hurest
      have hall := hopen.append (hhole.append hbehind)
      have hsplit : ('\x7b' :: '$' :: chunk).reverse ++ ((a :: rest).take (length - 1) ++
          ([close].reverse ++ (a :: rest).drop length)) =
            chunk.reverse ++ '$' :: '\x7b' :: a :: rest := by
        rw [List.reverse_singleton, ← List.append_assoc ((a :: rest).take (length - 1)), hclose,
          List.take_append_drop]
        simp
      rw [Piece.source, hsplit] at hall
      simpa [Nat.add_assoc] using hall
  | case6 chunk c rest hlone hescape hhole ih =>
    have hrest := ih (List.cons_ne_nil _ _) (hu.of_infix (List.suffix_cons c rest).isInfix)
    rw [holes]
    · simpa using hrest
    · exact hlone
    · exact hescape
    · exact hhole

/-! ## Scripts -/

/-- What starts at a character that opens no template does not depend on what happens to them. -/
theorem headPieces_of_ne_backtick {o : MaskOptions} (inner : Text → Masked) (window : List Piece)
    {c : Char} (hc : c ≠ '\x60') (rest : Text) :
    headPieces o inner window c rest =
      headPieces { o with templates := .hidden } inner window c rest := by
  have hc' : (c == '\x60') = false := beq_eq_false_iff_ne.mpr hc
  simp only [headPieces, hc', Bool.false_eq_true, if_false]

/-- The pieces of a script stand for the script. -/
theorem standFor_scanPieces {o : MaskOptions} (ho : o.templates = .chunked) {inner : Text → Masked}
    {count : Text → Nat} (hinner : ∀ t, Unmarked t → StandFor (count t) t [.inner (inner t)])
    (window : List Piece) (skip : Nat) {code : Text} (hu : Unmarked code) :
    StandFor ((((templates o inner window skip code).flatMap (holes 0)).map fun hole =>
        (if hole.isEmpty then 1 else 0) + count (hole.take (holeRest hole - 1))).sum)
      (code.drop skip) (scanPieces o inner window skip code) := by
  induction code generalizing window skip with
  | nil =>
    rw [templates, scanPieces, List.drop_nil]
    exact .nil
  | cons c rest ih =>
    have hurest : Unmarked rest := hu.of_infix (List.suffix_cons c rest).isInfix
    cases skip with
    | succ skip => simpa [templates, scanPieces] using ih window skip hurest
    | zero =>
      by_cases hc : c = '\x60'
      · subst hc
        have hhead : headPieces o inner window '\x60' rest =
            (templatePieces inner ['\x60'] 0 (rest.take (templateRest rest)), templateRest rest) := by
          simp [headPieces, ho]
        have htemplate := @standFor_templatePieces inner count hinner ['\x60'] 0 _
          (List.cons_ne_nil _ _) (hurest.of_infix (List.take_prefix (templateRest rest) rest).isInfix)
        have hall := htemplate.append (ih ((templatePieces inner ['\x60'] 0
          (rest.take (templateRest rest))).reverse ++ window) (templateRest rest) hurest)
        simp only [templates, scanPieces, hhead, beq_self_eq_true, if_true, List.flatMap_cons,
          List.map_append, List.sum_append]
        simpa using hall
      · obtain ⟨p, n, hp, hsource, hflat⟩ := headPieces_eq (o := { o with templates := .hidden })
          (by simp) inner window c rest
        rw [← headPieces_of_ne_backtick inner window hc] at hp
        have hpiece := StandFor.piece hflat (by rw [hsource]; exact List.cons_ne_nil _ _)
        have hall := hpiece.append (ih ([p].reverse ++ window) n hurest)
        rw [hsource, Nat.zero_add, List.cons_append, List.take_append_drop] at hall
        have hc' : (c == '\x60') = false := beq_eq_false_iff_ne.mpr hc
        simpa only [templates, scanPieces, hp, hc', Bool.false_eq_true, if_false, List.drop_zero]
          using hall

/-- So does what is masked on its own, however deep its templates nest. -/
theorem standFor_maskWithin {o : MaskOptions} (ho : o.templates = .chunked) (depth : Nat)
    {code : Text} (hu : Unmarked code) :
    StandFor (cutOpenings o depth code) code [.inner (maskWithin o depth code)] := by
  induction depth generalizing code with
  | zero =>
    have htext : ∀ t : Text, Piece.assemble 0 (t.map .code) = (t, []) := by
      intro t
      induction t with
      | nil => rfl
      | cons c t ih => rw [List.map_cons, Piece.assemble_code, ih]
    have hcode := (StandFor.code code).inner hu
    rw [htext] at hcode
    exact hcode
  | succ depth ih =>
    have hscan := standFor_scanPieces ho (fun t ht => ih ht) [] 0 hu
    rw [List.drop_zero] at hscan
    exact hscan.inner hu

/-- When templates are opened, restoring a masked script gives the script with a further brace for
each substitution behind whose opening nothing is left; so it gives the script itself if and only if
there is no such substitution. -/
theorem restore_mask_chunked {o : MaskOptions} (ho : o.templates = .chunked) {code : Text}
    (hu : Unmarked code) (hlen : code.length ≤ 10 ^ Number.digitLimit) :
    (∃ t, (mask o code).restore = .ok t ∧ Braced (cutOpenings o (code.length + 1) code) code t) ∧
      ((mask o code).restore = .ok code ↔ cutOpenings o (code.length + 1) code = 0) := by
  have hscan := standFor_scanPieces ho
    (fun t ht => standFor_maskWithin ho code.length ht) [] 0 hu
  rw [List.drop_zero] at hscan
  obtain ⟨t, ht, hbraced⟩ := hscan.restore hu hlen
  have hrestore : (mask o code).restore = .ok t := ht
  refine ⟨⟨t, hrestore, hbraced⟩, ?_⟩
  rw [hrestore]
  constructor
  · intro h
    obtain rfl : t = code := Except.ok.inj h
    have hlength := hbraced.length_eq
    change _ = _ + cutOpenings o (t.length + 1) t at hlength
    omega
  · intro h
    change Braced (cutOpenings o (code.length + 1) code) code t at hbraced
    rw [h] at hbraced
    rw [hbraced.eq_of_zero]

/-- A template in a substitution, and one that is cut off behind the first name of a substitution,
come back. -/
theorem restore_mask_chunked_nested :
    Unmarked "\x60a$\x7b\x60b$\x7bc\x7d\x60\x7d\x60 + \x60$\x7bd".toList ∧
      (mask .chunked "\x60a$\x7b\x60b$\x7bc\x7d\x60\x7d\x60 + \x60$\x7bd".toList).restore =
        .ok "\x60a$\x7b\x60b$\x7bc\x7d\x60\x7d\x60 + \x60$\x7bd".toList := by
  have hu : Unmarked "\x60a$\x7b\x60b$\x7bc\x7d\x60\x7d\x60 + \x60$\x7bd".toList :=
    ⟨by decide, by decide⟩
  exact ⟨hu, (restore_mask_chunked rfl hu (le_pow_digitLimit (by decide))).2.mpr (by decide)⟩

/-- A template that is cut off right behind the opening of a substitution does not: its last brace
is there twice. -/
theorem restore_mask_chunked_cut :
    Unmarked "\x60$\x7b".toList ∧
      (mask .chunked "\x60$\x7b".toList).restore = .ok "\x60$\x7b\x7b".toList :=
  ⟨⟨by decide, by decide⟩, rfl⟩

end HostScript.Script
