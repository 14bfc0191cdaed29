import HostScript.Proofs.Script.FreeName
import HostScript.Proofs.Script.Pieces
import HostScript.Proofs.Script.Restore

/-!
# Runs of pieces

The marks of literals and comments consist of identifier characters. A hidden span therefore joins
the names next to it, and the runs of a masked text are those of its pieces, with hidden spans
counted as parts of names. A name is a run of the shown text exactly when its characters are cut
off from the rest by other code on both sides.
-/

namespace HostScript.Script

namespace Piece

/-- Whether a piece shows as characters of a name. -/
def isSolid (p : Piece) : Bool := p.look.all isIdentPart

/-- Whether a piece is a dot of the code. -/
def isDot : Piece → Bool
  | .code c => c == '.'
  | _ => false

/-- A piece of a script that is masked whole: a character of code, or a hidden span that starts
with no character of a name. -/
inductive IsWhole : Piece → Prop
  | code (c : Char) : IsWhole (.code c)
  | hidden {kind : SpanKind} {c : Char} (span : Text) (hk : kind ≠ .chunk)
      (hc : isIdentPart c = false) : IsWhole (.hidden kind (c :: span))

theorem IsWhole.isFlat {p : Piece} (h : p.IsWhole) : p.isFlat = true := by
  cases h <;> rfl

theorem IsWhole.source_ne_nil {p : Piece} (h : p.IsWhole) : p.source ≠ [] := by
  cases h <;> simp [source]

@[simp] theorem isSolid_code (c : Char) : (code c).isSolid = isIdentPart c := by
  simp [isSolid, look]

end Piece

/-- The marks of literals and comments hold nothing but identifier characters. -/
theorem isIdentPart_of_mem_mark {kind : SpanKind} (hk : kind ≠ .chunk) {i : Nat} {c : Char}
    (hc : c ∈ kind.mark i) : isIdentPart c = true := by
  have hstart : kind.markStart.all isIdentPart = true := by
    cases kind with
    | literal => decide
    | comment => decide
    | chunk => exact absurd rfl hk
  have hstop : kind.markStop.all isIdentPart = true := by
    cases kind with
    | literal => decide
    | comment => decide
    | chunk => exact absurd rfl hk
  rw [SpanKind.mark, List.mem_append, List.mem_append] at hc
  rcases hc with (hc | hc) | hc
  · exact List.all_eq_true.mp hstart c hc
  · exact isIdentPart_of_isDigit (isDigit_of_mem_ofNat hc)
  · exact List.all_eq_true.mp hstop c hc

/-- The mark of a literal or comment starts with two underscores. -/
theorem SpanKind.exists_mark_eq {kind : SpanKind} (hk : kind ≠ .chunk) (i : Nat) :
    ∃ m, kind.mark i = '_' :: '_' :: m := by
  cases kind with
  | literal => exact ⟨_, rfl⟩
  | comment => exact ⟨_, rfl⟩
  | chunk => exact absurd rfl hk

theorem SpanKind.mark_ne_nil (kind : SpanKind) (i : Nat) : kind.mark i ≠ [] := by
  obtain ⟨m, hm⟩ | ⟨m, hm⟩ := kind.mark_eq_cons i <;> simp [hm]

/-- A hidden literal or comment shows as part of a name. -/
theorem Piece.isSolid_hidden {kind : SpanKind} (hk : kind ≠ .chunk) (span : Text) :
    (Piece.hidden kind span).isSolid = true :=
  List.all_eq_true.mpr fun _ => isIdentPart_of_mem_mark hk

/-- Every piece of a script that is masked whole is whole. -/
theorem isWhole_of_mem_cut {window : List Piece} {code : Text} {p : Piece}
    (h : p ∈ cut window code) : p.IsWhole := by
  induction hlen : code.length using Nat.strong_induction_on generalizing window code with
  | _ len ih =>
    cases code with
    | nil => simp at h
    | cons c rest =>
      subst hlen
      cases hs : spanAt? (nearby window) c rest with
      | none =>
        rw [cut_of_none hs, List.mem_cons] at h
        rcases h with rfl | h
        · exact .code c
        · exact ih _ (by simp) h rfl
      | some kn =>
        obtain ⟨kind, n⟩ := kn
        obtain ⟨hk, hc⟩ := of_spanAt?_eq_some hs
        rw [cut_of_some hs, List.mem_cons] at h
        rcases h with rfl | h
        · exact .hidden _ hk hc
        · exact ih _ (by rw [List.length_drop, List.length_cons]; omega) h rfl

/-- The hidden spans of pieces. -/
def spansOf (ps : List Piece) : List Text := (Piece.assemble 0 ps).2

/-- The spans are the same whatever number they start from. -/
theorem assemble_snd (i : Nat) (ps : List Piece) : (Piece.assemble i ps).2 = spansOf ps := by
  suffices h : ∀ i j, (Piece.assemble i ps).2 = (Piece.assemble j ps).2 from h i 0
  induction ps with
  | nil => intro i j; rfl
  | cons p ps ih =>
    intro i j
    cases p with
    | code c => exact ih i j
    | shown span => exact ih i j
    | hidden kind span => exact congrArg (span :: ·) (ih (i + 1) (j + 1))
    | inner m => exact congrArg (m.spans ++ ·) (ih (i + m.spans.length) (j + m.spans.length))

@[simp] theorem spansOf_nil : spansOf [] = [] := rfl

@[simp] theorem spansOf_code (c : Char) (ps : List Piece) :
    spansOf (.code c :: ps) = spansOf ps := rfl

@[simp] theorem spansOf_hidden (kind : SpanKind) (span : Text) (ps : List Piece) :
    spansOf (.hidden kind span :: ps) = span :: spansOf ps :=
  congrArg (span :: ·) (assemble_snd 1 ps)

/-- Pieces in sequence hide their spans in sequence. -/
theorem spansOf_append (ps qs : List Piece) : spansOf (ps ++ qs) = spansOf ps ++ spansOf qs := by
  induction ps with
  | nil => rfl
  | cons p ps ih =>
    cases p with
    | code c => exact ih
    | shown span => exact ih
    | hidden kind span => simp [ih]
    | inner m =>
      have hinner (l : List Piece) : spansOf (.inner m :: l) = m.spans ++ spansOf l :=
        congrArg (m.spans ++ ·) (assemble_snd _ l)
      rw [List.cons_append, hinner, hinner, ih, List.append_assoc]

/-- Pieces in sequence show in sequence, with the numbers going on. -/
theorem assemble_append_fst (i : Nat) {ps : List Piece} (hw : ∀ p ∈ ps, p.IsWhole)
    (qs : List Piece) : (Piece.assemble i (ps ++ qs)).1 =
      (Piece.assemble i ps).1 ++ (Piece.assemble (i + (spansOf ps).length) qs).1 := by
  induction ps generalizing i with
  | nil => rfl
  | cons p ps ih =>
    have hps := fun j => ih j fun q hq => hw q (List.mem_cons_of_mem _ hq)
    cases hw p (List.mem_cons_self ..) with
    | code c => simp [hps]
    | hidden span _ _ => simp [hps, Nat.add_assoc, Nat.add_comm 1]

/-- A name as pieces of code. -/
def spelled (n : Text) : List Piece := n.map .code

theorem spelled_append (m n : Text) : spelled (m ++ n) = spelled m ++ spelled n := List.map_append

theorem isWhole_of_mem_spelled {n : Text} {p : Piece} (h : p ∈ spelled n) : p.IsWhole := by
  obtain ⟨c, -, rfl⟩ := List.mem_map.mp h
  exact .code c

/-- The text that pieces spell, if they are code throughout. -/
def spelling? : List Piece → Option Text
  | [] => some []
  | .code c :: ps => (spelling? ps).map (c :: ·)
  | _ :: _ => none

theorem spelling?_eq_some_iff {ps : List Piece} {n : Text} :
    spelling? ps = some n ↔ ps = spelled n := by
  induction ps generalizing n with
  | nil => cases n <;> simp [spelling?, spelled]
  | cons p ps ih =>
    cases p with
    | code c =>
      cases n with
      | nil => simp [spelling?, spelled]
      | cons d n => simp [spelling?, ih, spelled, and_comm]
    | shown span => cases n <;> simp [spelling?, spelled]
    | hidden kind span => cases n <;> simp [spelling?, spelled]
    | inner m => cases n <;> simp [spelling?, spelled]

@[simp] theorem assemble_spelled (i : Nat) (n : Text) : (Piece.assemble i (spelled n)).1 = n := by
  induction n with
  | nil => rfl
  | cons c n ih => exact congrArg (c :: ·) ih

@[simp] theorem spansOf_spelled (n : Text) : spansOf (spelled n) = [] := by
  induction n with
  | nil => rfl
  | cons c n ih => exact ih

@[simp] theorem sources_spelled (n : Text) : sources (spelled n) = n := by
  induction n with
  | nil => rfl
  | cons c n ih => exact congrArg (c :: ·) ih

/-- Pieces that show as a text without marks spell it. -/
theorem eq_spelled_of_assemble {i : Nat} {ps : List Piece} (hw : ∀ p ∈ ps, p.IsWhole)
    (hu : ¬ markHead <:+: (Piece.assemble i ps).1) :
    ps = spelled (Piece.assemble i ps).1 := by
  induction ps generalizing i with
  | nil => rfl
  | cons p ps ih =>
    have hps := ih (i := i) fun q hq => hw q (List.mem_cons_of_mem _ hq)
    cases hw p (List.mem_cons_self ..) with
    | code c =>
      rw [Piece.assemble_code] at hu ⊢
      exact congrArg (Piece.code c :: ·)
        (hps fun hi => hu (hi.trans (List.suffix_cons c _).isInfix))
    | @hidden kind c span hk hc =>
      have hmark : markHead <+: kind.mark i := by
        rcases kind.markStart_isPrefix with hp | hp
        · exact hp.trans ⟨Text.ofNat i ++ kind.markStop, by simp [SpanKind.mark]⟩
        · cases kind with
          | chunk => exact absurd rfl hk
          | literal => cases hp
          | comment => cases hp
      exact absurd ((hmark.trans (List.prefix_append _ _)).isInfix) hu

/-- The runs of pieces, with hidden spans as parts of names. -/
abbrev pieceRuns (ps : List Piece) : List (List Piece) := runsOf Piece.isSolid ps

/-- What runs of pieces show, with the hidden spans numbered from `i`. -/
def showRuns : (i : Nat) → List (List Piece) → List Text
  | _, [] => []
  | i, w :: ws => (Piece.assemble i w).1 :: showRuns (i + (spansOf w).length) ws

theorem flatten_showRuns (i : Nat) {ws : List (List Piece)}
    (hw : ∀ w ∈ ws, ∀ p ∈ w, p.IsWhole) :
    (showRuns i ws).flatten = (Piece.assemble i ws.flatten).1 := by
  induction ws generalizing i with
  | nil => rfl
  | cons w ws ih =>
    have hws := fun j => ih j fun v hv => hw v (List.mem_cons_of_mem _ hv)
    rw [showRuns, List.flatten_cons, List.flatten_cons,
      assemble_append_fst i (hw w (List.mem_cons_self ..)), hws]

/-- Solid pieces show as identifier characters. -/
theorem isIdentPart_of_mem_assemble {w : List Piece} (hw : ∀ p ∈ w, p.IsWhole)
    (hs : ∀ p ∈ w, p.isSolid = true) {i : Nat} {c : Char} (hc : c ∈ (Piece.assemble i w).1) :
    isIdentPart c = true := by
  induction w generalizing i with
  | nil => simp at hc
  | cons p w ih =>
    have hrest := fun j => ih (i := j) (fun q hq => hw q (List.mem_cons_of_mem _ hq))
      (fun q hq => hs q (List.mem_cons_of_mem _ hq))
    have hp := hs p (List.mem_cons_self ..)
    cases hw p (List.mem_cons_self ..) with
    | code d =>
      rw [Piece.assemble_code, List.mem_cons] at hc
      rcases hc with rfl | hc
      · simpa using hp
      · exact hrest i hc
    | hidden span hk _ =>
      rw [Piece.assemble_hidden, List.mem_append] at hc
      rcases hc with hc | hc
      · exact isIdentPart_of_mem_mark hk hc
      · exact hrest (i + 1) hc

theorem assemble_ne_nil {w : List Piece} (hw : ∀ p ∈ w, p.IsWhole) (hne : w ≠ []) (i : Nat) :
    (Piece.assemble i w).1 ≠ [] := by
  obtain ⟨p, w, rfl⟩ := List.exists_cons_of_ne_nil hne
  cases hw p (List.mem_cons_self ..) with
  | code c => simp
  | @hidden kind _ span _ _ => simp [kind.mark_ne_nil i]

/-- A run of pieces shows as a run of text with the same ends. -/
theorem isRun_assemble {w : List Piece} (hw : ∀ p ∈ w, p.IsWhole) (h : IsRun Piece.isSolid w)
    (i : Nat) : IsRun isIdentPart (Piece.assemble i w).1 ∧
      endsIn isIdentPart (Piece.assemble i w).1 = endsIn Piece.isSolid w ∧
      startsIn isIdentPart (Piece.assemble i w).1 = startsIn Piece.isSolid w := by
  have hne := assemble_ne_nil hw h.ne_nil i
  have hsolid (hs : ∀ p ∈ w, p.isSolid = true) :
      IsRun isIdentPart (Piece.assemble i w).1 ∧
        endsIn isIdentPart (Piece.assemble i w).1 = endsIn Piece.isSolid w ∧
        startsIn isIdentPart (Piece.assemble i w).1 = startsIn Piece.isSolid w := by
    have hall : ∀ c ∈ (Piece.assemble i w).1, isIdentPart c = true :=
      fun c => isIdentPart_of_mem_assemble hw hs
    refine ⟨⟨hne, Or.inl hall⟩, ?_, ?_⟩
    · rw [endsIn_eq _ hne, endsIn_eq _ h.ne_nil, hall _ (List.getLast_mem _),
        hs _ (List.getLast_mem _)]
    · rw [startsIn_eq _ hne, startsIn_eq _ h.ne_nil, hall _ (List.head_mem _),
        hs _ (List.head_mem _)]
  rcases h.solid_or_single with hs | ⟨p, rfl⟩
  · exact hsolid hs
  · cases hw p (List.mem_cons_self ..) with
    | code c => exact ⟨⟨hne, Or.inr ⟨c, rfl⟩⟩, by simp [endsIn], by simp [startsIn]⟩
    | hidden span hk _ =>
      apply hsolid
      rintro q hq
      rw [List.mem_singleton.mp hq]
      exact Piece.isSolid_hidden hk _

/-- The runs of pieces show as the runs of the text. -/
theorem isRuns_showRuns {ws : List (List Piece)} (hw : ∀ w ∈ ws, ∀ p ∈ w, p.IsWhole)
    (h : IsRuns Piece.isSolid ws) (i : Nat) :
    IsRuns isIdentPart (showRuns i ws) ∧
      startsIn isIdentPart (showRuns i ws).flatten = startsIn Piece.isSolid ws.flatten := by
  induction ws generalizing i with
  | nil => exact ⟨isRuns_nil _, rfl⟩
  | cons w ws ih =>
    obtain ⟨hrun, hrest, hws⟩ := isRuns_cons_iff.mp h
    have hww := hw w (List.mem_cons_self ..)
    obtain ⟨hrun', hend, hstart⟩ := isRun_assemble hww hrun i
    obtain ⟨ihr, ihs⟩ := ih (fun v hv => hw v (List.mem_cons_of_mem _ hv)) hws
      (i + (spansOf w).length)
    rw [showRuns, List.flatten_cons, List.flatten_cons, startsIn_append_left _ hrun.ne_nil,
      startsIn_append_left _ hrun'.ne_nil]
    refine ⟨isRuns_cons_iff.mpr ⟨hrun', ?_, ihr⟩, hstart⟩
    rw [hend, ihs]
    exact hrest

/-- The members of the runs of a list are its members. -/
theorem mem_of_mem_runsOf {α : Type} {solid : α → Bool} {l w : List α} (hw : w ∈ runsOf solid l)
    {a : α} (ha : a ∈ w) : a ∈ l := by
  rw [← flatten_runsOf solid l]
  exact List.mem_flatten.mpr ⟨w, hw, ha⟩

/-- The runs of a masked text are what the runs of its pieces show. -/
theorem textRuns_assemble {ps : List Piece} (hw : ∀ p ∈ ps, p.IsWhole) (i : Nat) :
    textRuns (Piece.assemble i ps).1 = showRuns i (pieceRuns ps) := by
  have hruns : ∀ w ∈ pieceRuns ps, ∀ p ∈ w, p.IsWhole :=
    fun w hw' p hp => hw p (mem_of_mem_runsOf hw' hp)
  have h := (isRuns_showRuns hruns (isRuns_runsOf _ ps) i).1.runsOf_flatten
  rw [flatten_showRuns i hruns, flatten_runsOf] at h
  exact h

/-- A run shows a dot at its end exactly when it ends in one. -/
theorem endsIn_dot_assemble {w : List Piece} (hw : ∀ p ∈ w, p.IsWhole) (i : Nat) :
    endsIn (· == '.') (Piece.assemble i w).1 = endsIn Piece.isDot w := by
  induction w using List.reverseRecOn with
  | nil => rfl
  | append_singleton w p _ =>
    have hww : ∀ q ∈ w, q.IsWhole := fun q hq => hw q (List.mem_append_left _ hq)
    have hend : endsIn Piece.isDot (w ++ [p]) = p.isDot := by simp [endsIn]
    rw [assemble_append_fst i hww, hend]
    cases hw p (by simp) with
    | code c => simp [endsIn, Piece.isDot]
    | @hidden kind c span hk hc =>
      have hne := kind.mark_ne_nil (i + (spansOf w).length)
      have hlast := isIdentPart_of_mem_mark hk (List.getLast_mem hne)
      have hdot : isIdentPart '.' = false := by decide
      rw [Piece.assemble_hidden, Piece.assemble_nil, List.append_nil, endsIn,
        List.getLast?_append_of_ne_nil _ hne, List.getLast?_eq_getLast_of_ne_nil hne]
      simp only [Option.any_some, Piece.isDot, beq_eq_false_iff_ne]
      rintro heq
      rw [heq, hdot] at hlast
      cases hlast

/-- A text without marks stands in what runs show exactly when it stands there spelled out. -/
theorem stands_showRuns_iff {n : Text} (hn : ¬ markHead <:+: n) {behind : Bool}
    {ws : List (List Piece)} (hw : ∀ w ∈ ws, ∀ p ∈ w, p.IsWhole) (i : Nat) :
    Stands (· == '.') behind n (showRuns i ws) ↔ Stands Piece.isDot behind (spelled n) ws := by
  induction ws generalizing i behind with
  | nil => exact iff_of_false not_stands_nil not_stands_nil
  | cons w ws ih =>
    have hww := hw w (List.mem_cons_self ..)
    have hshow : (Piece.assemble i w).1 = n ↔ w = spelled n := by
      constructor
      · rintro rfl
        exact eq_spelled_of_assemble hww hn
      · rintro rfl
        exact assemble_spelled i n
    rw [showRuns, stands_cons_iff, stands_cons_iff, hshow, endsIn_dot_assemble hww,
      ih fun v hv => hw v (List.mem_cons_of_mem _ hv)]

/-- A renaming of texts, applied to pieces that spell them. -/
def respell (rename : Text → Option Text) (w : List Piece) : Option (List Piece) :=
  (spelling? w).bind fun n => (rename n).map spelled

/-- Only pieces that spell a text have a new name. -/
theorem respell_eq_some_iff {rename : Text → Option Text} {w v : List Piece} :
    respell rename w = some v ↔ ∃ n m, w = spelled n ∧ rename n = some m ∧ v = spelled m := by
  rw [respell, Option.bind_eq_some_iff]
  constructor
  · rintro ⟨n, hn, hv⟩
    obtain ⟨m, hm, rfl⟩ := Option.map_eq_some_iff.mp hv
    exact ⟨n, m, spelling?_eq_some_iff.mp hn, hm, rfl⟩
  · rintro ⟨n, m, hn, hm, rfl⟩
    exact ⟨n, spelling?_eq_some_iff.mpr hn, by rw [hm]; rfl⟩

/-- The new name of a spelled name is its new name, spelled. -/
theorem respell_spelled (rename : Text → Option Text) (n : Text) :
    respell rename (spelled n) = (rename n).map spelled := by
  rw [respell, spelling?_eq_some_iff.mpr rfl]
  rfl

/-- Renaming one run of pieces shows as renaming what it shows, and hides as many spans. -/
theorem assemble_renameRun {rename : Text → Option Text}
    (hrename : ∀ n v, rename n = some v → ¬ markHead <:+: n) (behind : Bool) {w : List Piece}
    (hw : ∀ p ∈ w, p.IsWhole) (i : Nat) :
    (Piece.assemble i (renameRun (respell rename) behind w)).1 =
        renameRun rename behind (Piece.assemble i w).1 ∧
      spansOf (renameRun (respell rename) behind w) = spansOf w := by
  cases behind with
  | true => exact ⟨rfl, rfl⟩
  | false =>
    cases hr : respell rename w with
    | some v =>
      obtain ⟨n, m, rfl, hm, rfl⟩ := respell_eq_some_iff.mp hr
      simp [renameRun, hr, hm]
    | none =>
      have hnone : rename (Piece.assemble i w).1 = none := by
        cases hm : rename (Piece.assemble i w).1 with
        | none => rfl
        | some m =>
          have hspelled := eq_spelled_of_assemble hw (hrename _ m hm)
          have hsome := respell_eq_some_iff.mpr ⟨_, m, hspelled, hm, rfl⟩
          rw [hr] at hsome
          cases hsome
      simp [renameRun, hr, hnone]

/-- Renaming the runs of pieces shows as renaming the runs of the text. -/
theorem showRuns_renameRuns {rename : Text → Option Text}
    (hrename : ∀ n v, rename n = some v → ¬ markHead <:+: n) (behind : Bool)
    {ws : List (List Piece)} (hw : ∀ w ∈ ws, ∀ p ∈ w, p.IsWhole) (i : Nat) :
    showRuns i (renameRuns Piece.isDot (respell rename) behind ws) =
      renameRuns (· == '.') rename behind (showRuns i ws) := by
  induction ws generalizing i behind with
  | nil => rfl
  | cons w ws ih =>
    have hww := hw w (List.mem_cons_self ..)
    have hws := fun b j => ih b (fun v hv => hw v (List.mem_cons_of_mem _ hv)) j
    obtain ⟨hshow, hspans⟩ := assemble_renameRun hrename behind hww i
    rw [renameRuns, showRuns, showRuns, renameRuns, hshow, hspans, hws, endsIn_dot_assemble hww]

end HostScript.Script
