import HostScript.Proofs.Optimize.Jump
import HostScript.Proofs.Script.PieceRuns
import HostScript.Proofs.Script.Pieces
import HostScript.Proofs.Text

/-!
# Dropping dead code, statement by statement

Dropping dead code is one walk over the statements of a script: behind each statement that is a
jump, the rest of the block goes unless something keeps it alive. As that can be read off each
statement on its own, dropping a part of the rest never takes away what keeps the rest alive, and a
second walk finds nothing left to drop.
-/

namespace HostScript.Optimize

open Pattern Script

variable {s t x y z : Text} {c : Char}

/-! ## What is left behind a jump -/

/-- The rest of a block, which is open at a depth. -/
def blockRest (depth : Nat) (t : Text) : Text := t.take (blockRestLength depth t)

/-- What stands behind the rest of a block. -/
def blockEnd (depth : Nat) (t : Text) : Text := t.drop (blockRestLength depth t)

@[simp] theorem blockRest_append_blockEnd (d : Nat) (t : Text) :
    blockRest d t ++ blockEnd d t = t := List.take_append_drop _ t

/-- A character that is no brace belongs to the rest of a block. -/
theorem blockRest_cons (hopen : c ≠ '\x7b') (hclose : c ≠ '\x7d') (d : Nat) (z : Text) :
    blockRest d (c :: z) = c :: blockRest d z ∧ blockEnd d (c :: z) = blockEnd d z := by
  have hlength : blockRestLength d (c :: z) = 1 + blockRestLength d z := by
    simp [blockRestLength, hopen, hclose]
  rw [blockRest, blockEnd, hlength, Nat.add_comm]
  exact ⟨rfl, rfl⟩

/-- So does a text in which no statement ends and no block starts or ends. -/
theorem blockRest_append (hs : ∀ a ∈ s, isStop a = false) (d : Nat) (z : Text) :
    blockRest d (s ++ z) = s ++ blockRest d z ∧ blockEnd d (s ++ z) = blockEnd d z := by
  induction s with
  | nil => exact ⟨rfl, rfl⟩
  | cons a s ih =>
    rw [List.forall_mem_cons] at hs
    have hbrace {b : Char} (hb : isStop b = true) : a ≠ b := by
      rintro rfl
      rw [hb] at hs
      exact absurd hs.1 (by decide)
    obtain ⟨hrest, hend⟩ := ih hs.2
    rw [List.cons_append]
    obtain ⟨hrest', hend'⟩ := blockRest_cons (hbrace (by decide)) (hbrace (by decide)) d (s ++ z)
    rw [hrest', hend', hrest, hend]
    exact ⟨rfl, rfl⟩

/-- An inner block belongs to the rest of a block. -/
theorem blockRest_open (d : Nat) (z : Text) :
    blockRest d ('\x7b' :: z) = '\x7b' :: blockRest (d + 1) z ∧
      blockEnd d ('\x7b' :: z) = blockEnd (d + 1) z := by
  have hlength : blockRestLength d ('\x7b' :: z) = 1 + blockRestLength (d + 1) z := rfl
  rw [blockRest, blockEnd, hlength, Nat.add_comm]
  exact ⟨rfl, rfl⟩

/-- The end of an inner block too. -/
theorem blockRest_close_succ (d : Nat) (z : Text) :
    blockRest (d + 1) ('\x7d' :: z) = '\x7d' :: blockRest d z ∧
      blockEnd (d + 1) ('\x7d' :: z) = blockEnd d z := by
  have hlength : blockRestLength (d + 1) ('\x7d' :: z) = 1 + blockRestLength d z := rfl
  rw [blockRest, blockEnd, hlength, Nat.add_comm]
  exact ⟨rfl, rfl⟩

/-- The block itself ends at its own brace. -/
theorem blockRest_close_zero (z : Text) :
    blockRest 0 ('\x7d' :: z) = [] ∧ blockEnd 0 ('\x7d' :: z) = '\x7d' :: z := ⟨rfl, rfl⟩

/-- What stands behind the rest of a block is nothing or starts with its brace. -/
theorem blockEnd_eq (d : Nat) (t : Text) :
    blockEnd d t = [] ∨ ∃ z, blockEnd d t = '\x7d' :: z := by
  induction t generalizing d with
  | nil => exact Or.inl rfl
  | cons a t ih =>
    by_cases hopen : a = '\x7b'
    · rw [hopen, (blockRest_open d t).2]
      exact ih _
    by_cases hclose : a = '\x7d'
    · subst hclose
      cases d with
      | zero => exact Or.inr ⟨t, rfl⟩
      | succ d =>
        rw [(blockRest_close_succ d t).2]
        exact ih _
    · rw [(blockRest_cons hopen hclose d t).2]
      exact ih d

/-- The rest of an outer block is the rest of the inner one, its brace, and the rest of the outer
block behind it. -/
theorem blockRest_deeper (d e : Nat) (t : Text) :
    blockRest (d + (e + 1)) t =
      blockRest d t ++ (match blockEnd d t with
        | [] => []
        | b :: z => b :: blockRest e z) := by
  induction t generalizing d with
  | nil => rfl
  | cons a t ih =>
    by_cases hopen : a = '\x7b'
    · rw [hopen, (blockRest_open _ t).1, (blockRest_open d t).1, (blockRest_open d t).2,
        Nat.add_right_comm, ih (d + 1)]
      rfl
    by_cases hclose : a = '\x7d'
    · subst hclose
      cases d with
      | zero =>
        rw [Nat.zero_add, (blockRest_close_succ e t).1]
        rfl
      | succ d =>
        rw [Nat.add_right_comm, (blockRest_close_succ _ t).1, (blockRest_close_succ d t).1,
          (blockRest_close_succ d t).2, ih d]
        rfl
    · rw [(blockRest_cons hopen hclose _ t).1, (blockRest_cons hopen hclose d t).1,
        (blockRest_cons hopen hclose d t).2, ih d]
      rfl

/-! ## The walk over the statements -/

/-- A text whose block goes on with white space alone, or with something that is kept alive. -/
def isIdle (t : Text) : Bool :=
  (blockRest 0 t).trim.isEmpty || keptAlive.occursIn (blockRest 0 t)

/-- What is left of a text behind a jump. -/
def leftBehind (t : Text) : Text :=
  if isIdle t then t
  else (blockRest 0 t).drop (Text.trimEnd (blockRest 0 t)).length ++ blockEnd 0 t

/-- Behind a jump everything is left, or of the rest of the block only white space at its end. -/
theorem leftBehind_eq (t : Text) :
    (isIdle t = true ∧ leftBehind t = t) ∨
      (keptAlive.occursIn (blockRest 0 t) = false ∧
        ∃ b x, (∀ a ∈ b, isBlank a = true) ∧ t = x ++ b ++ blockEnd 0 t ∧
          leftBehind t = b ++ blockEnd 0 t) := by
  cases hidle : isIdle t with
  | true => exact Or.inl ⟨rfl, if_pos hidle⟩
  | false =>
    obtain ⟨b, hb, hblank⟩ : ∃ b, blockRest 0 t = Text.trimEnd (blockRest 0 t) ++ b ∧
        ∀ a ∈ b, isBlank a = true := Text.exists_trimEndOf isBlank (blockRest 0 t)
    have hdrop : (blockRest 0 t).drop (Text.trimEnd (blockRest 0 t)).length = b :=
      (congrArg (List.drop _) hb).trans List.drop_left
    refine Or.inr ⟨(Bool.or_eq_false_iff.mp hidle).2, b, Text.trimEnd (blockRest 0 t), hblank, ?_, ?_⟩
    · rw [← hb, blockRest_append_blockEnd]
    · rw [leftBehind, hidle, hdrop]
      rfl

/-- What is left of a text behind a jump is an end of the text. -/
theorem leftBehind_suffix (t : Text) : leftBehind t <:+ t := by
  rcases leftBehind_eq t with ⟨-, h⟩ | ⟨-, b, x, -, ht, h⟩
  · rw [h]
  · exact ⟨x, by rw [h, ← List.append_assoc, ← ht]⟩

theorem length_leftBehind_le (t : Text) : (leftBehind t).length ≤ t.length :=
  (leftBehind_suffix t).length_le

/-- Whether a statement is a jump: how it starts and what ends it. -/
def isJump (s : Text) (c : Char) : Bool := c == ';' && leadsJump (s.dropWhile isBlank)

/-- Behind the first stop of a text there is less than the text. -/
theorem length_lt_of_dropWhile_eq_cons {f : Char → Bool} (h : t.dropWhile f = c :: z) :
    z.length < t.length := by
  have := (List.dropWhile_suffix f (l := t)).length_le
  rw [h, List.length_cons] at this
  omega

/-- A text without the statements behind its jumps. -/
def pruned (t : Text) : Text :=
  match _ht : t.dropWhile (outside isStop) with
  | [] => t
  | c :: z =>
    let s := t.takeWhile (outside isStop)
    s ++ c :: pruned (if isJump s c then leftBehind z else z)
termination_by t.length
decreasing_by
  have hz := length_lt_of_dropWhile_eq_cons _ht
  split
  · exact (length_leftBehind_le z).trans_lt hz
  · exact hz

/-- A text in which no statement ends stays. -/
theorem pruned_of_endless (hs : ∀ a ∈ s, isStop a = false) : pruned s = s := by
  have hdrop : s.dropWhile (outside isStop) = [] :=
    List.dropWhile_eq_nil_iff.mpr (by simpa [outside] using hs)
  rw [pruned]
  split
  · rfl
  · rename_i c z hcons
    rw [hdrop] at hcons
    cases hcons

/-- A statement stays, and what is left behind it follows. -/
theorem pruned_append (hs : ∀ a ∈ s, isStop a = false) (hc : isStop c = true) (z : Text) :
    pruned (s ++ c :: z) = s ++ c :: pruned (if isJump s c then leftBehind z else z) := by
  have hout : ∀ a ∈ s, outside isStop a = true := by simpa [outside] using hs
  have hdrop : (s ++ c :: z).dropWhile (outside isStop) = c :: z := by
    rw [List.dropWhile_append_of_pos hout, List.dropWhile_cons_of_neg (by simp [outside, hc])]
  have htake : (s ++ c :: z).takeWhile (outside isStop) = s := by
    rw [List.takeWhile_append_of_pos hout, List.takeWhile_cons_of_neg (by simp [outside, hc]),
      List.append_nil]
  rw [pruned]
  split
  · rename_i hnil
    rw [hdrop] at hnil
    cases hnil
  · rename_i c' z' hcons
    obtain ⟨rfl, rfl⟩ := List.cons.inj (hdrop.symm.trans hcons)
    rw [htake]

/-- A text ends no statement at all, or its first statement ends somewhere. -/
theorem exists_statement (t : Text) :
    (∀ a ∈ t, isStop a = false) ∨
      ∃ s c z, t = s ++ c :: z ∧ (∀ a ∈ s, isStop a = false) ∧ isStop c = true := by
  induction t with
  | nil => exact Or.inl (List.forall_mem_nil _)
  | cons a t ih =>
    cases ha : isStop a with
    | true => exact Or.inr ⟨[], a, t, rfl, List.forall_mem_nil _, ha⟩
    | false =>
      rcases ih with h | ⟨s, c, z, rfl, hs, hc⟩
      · exact Or.inl (List.forall_mem_cons.mpr ⟨ha, h⟩)
      · exact Or.inr ⟨a :: s, c, z, rfl, List.forall_mem_cons.mpr ⟨ha, hs⟩, hc⟩

/-- White space ends no statement. -/
theorem isStop_of_isBlank (hc : isBlank c = true) : isStop c = false := by
  rw [← Bool.not_eq_true]
  intro hstop
  rw [(of_isStop hstop).2.2.1] at hc
  cases hc

/-- A stop ends a block for good, or the block goes on behind it at some depth. -/
theorem blockRest_stop (hc : isStop c = true) (d : Nat) :
    (∀ z, blockRest d (c :: z) = []) ∨ ∃ e, ∀ z, blockRest d (c :: z) = c :: blockRest e z := by
  rcases isStop_iff.mp hc with rfl | rfl | rfl
  · exact Or.inr ⟨d, fun z => (blockRest_cons (by decide) (by decide) d z).1⟩
  · exact Or.inr ⟨d + 1, fun z => (blockRest_open d z).1⟩
  · cases d with
    | zero => exact Or.inl fun z => (blockRest_close_zero z).1
    | succ d => exact Or.inr ⟨d, fun z => (blockRest_close_succ d z).1⟩

/-- What keeps the rest of a block alive keeps it alive behind a jump before it. -/
theorem occursIn_blockRest_leftBehind {t : Text} (d : Nat)
    (h : keptAlive.occursIn (blockRest d t) = true) :
    keptAlive.occursIn (blockRest d (leftBehind t)) = true := by
  rcases leftBehind_eq t with ⟨-, heq⟩ | ⟨hdead, b, x, hb, ht, heq⟩
  · rwa [heq]
  · have hbrace : isStop '\x7d' = true := by decide
    cases d with
    | zero =>
      rw [hdead] at h
      cases h
    | succ e =>
      have hdeeper := blockRest_deeper 0 e t
      rw [Nat.zero_add] at hdeeper
      rw [hdeeper] at h
      rcases blockEnd_eq 0 t with hend | ⟨z, hend⟩
      · rw [hend, List.append_nil, hdead] at h
        cases h
      · rw [hend, occursIn_keptAlive_append_cons hbrace, hdead, Bool.false_or] at h
        rw [heq, hend, (blockRest_append (fun a ha => isStop_of_isBlank (hb a ha)) _ _).1,
          (blockRest_close_succ e z).1, occursIn_keptAlive_append_cons hbrace, h, Bool.or_true]

/-- What keeps the rest of a block alive is never dropped from it. -/
theorem occursIn_blockRest_pruned (t : Text) (d : Nat)
    (h : keptAlive.occursIn (blockRest d t) = true) :
    keptAlive.occursIn (blockRest d (pruned t)) = true := by
  induction hlen : t.length using Nat.strong_induction_on generalizing t d with
  | _ len ih =>
    rcases exists_statement t with hs | ⟨s, c, z, rfl, hs, hc⟩
    · rwa [pruned_of_endless hs]
    · rw [pruned_append hs hc]
      generalize hw : (if isJump s c then leftBehind z else z) = w
      have hle : w.length ≤ z.length := by
        rw [← hw]
        split
        · exact length_leftBehind_le z
        · exact le_rfl
      have hlt : w.length < len := by
        rw [← hlen, List.length_append, List.length_cons]
        omega
      have hkept (e : Nat) (he : keptAlive.occursIn (blockRest e z) = true) :
          keptAlive.occursIn (blockRest e w) = true := by
        rw [← hw]
        split
        · exact occursIn_blockRest_leftBehind e he
        · exact he
      rw [(blockRest_append hs d _).1] at h ⊢
      rcases blockRest_stop hc d with hstop | ⟨e, hgo⟩
      · rw [hstop] at h ⊢
        exact h
      · rw [hgo, occursIn_keptAlive_append_cons hc, Bool.or_eq_true] at h ⊢
        exact h.imp_right fun he => ih w.length hlt w e (hkept e he) rfl

/-- Behind white space, the end of a block or of the text is idle. -/
theorem isIdle_append (hs : ∀ a ∈ s, isBlank a = true)
    (hz : z = [] ∨ ∃ y, z = '\x7d' :: y) : isIdle (s ++ z) = true := by
  have hrest : blockRest 0 (s ++ z) = s := by
    rw [(blockRest_append (fun a ha => isStop_of_isBlank (hs a ha)) 0 z).1]
    rcases hz with rfl | ⟨y, rfl⟩
    · exact List.append_nil s
    · exact List.append_nil s
  rw [isIdle, hrest, Text.trim_eq_nil_iff.mpr hs]
  rfl

/-- What is left behind a jump is idle. -/
theorem isIdle_leftBehind (t : Text) : isIdle (leftBehind t) = true := by
  rcases leftBehind_eq t with ⟨hidle, heq⟩ | ⟨-, b, x, hb, -, heq⟩
  · rwa [heq]
  · rw [heq]
    exact isIdle_append hb (blockEnd_eq 0 t)

/-- An idle text stays idle without its dead statements. -/
theorem isIdle_pruned {t : Text} (h : isIdle t = true) : isIdle (pruned t) = true := by
  rw [isIdle, Bool.or_eq_true, List.isEmpty_iff, Text.trim_eq_nil_iff] at h
  rcases h with hblank | hkept
  · have hs : ∀ a ∈ blockRest 0 t, isStop a = false := fun a ha => isStop_of_isBlank (hblank a ha)
    rw [← blockRest_append_blockEnd 0 t]
    rcases blockEnd_eq 0 t with hend | ⟨z, hend⟩
    · rw [hend, List.append_nil, pruned_of_endless hs, ← List.append_nil (blockRest 0 t)]
      exact isIdle_append hblank (Or.inl rfl)
    · rw [hend, pruned_append hs (by decide)]
      exact isIdle_append hblank (Or.inr ⟨_, rfl⟩)
  · rw [isIdle, occursIn_blockRest_pruned t 0 hkept, Bool.or_true]

/-- Nothing is dropped behind a jump before an idle text. -/
theorem leftBehind_of_isIdle {t : Text} (h : isIdle t = true) : leftBehind t = t := if_pos h

/-- In a text without dead statements there are none to drop. -/
theorem pruned_pruned (t : Text) : pruned (pruned t) = pruned t := by
  induction hlen : t.length using Nat.strong_induction_on generalizing t with
  | _ len ih =>
    rcases exists_statement t with hs | ⟨s, c, z, rfl, hs, hc⟩
    · rw [pruned_of_endless hs, pruned_of_endless hs]
    · have hz : z.length < len := by
        rw [← hlen, List.length_append, List.length_cons]
        omega
      rw [pruned_append hs hc, pruned_append hs hc]
      cases isJump s c with
      | false =>
        simp only [Bool.false_eq_true, if_false]
        rw [ih z.length hz z rfl]
      | true =>
        simp only [if_true]
        have hle := length_leftBehind_le z
        rw [leftBehind_of_isIdle (isIdle_pruned (isIdle_leftBehind z)),
          ih (leftBehind z).length (by omega) (leftBehind z) rfl]

/-! ## Dropping dead code is the walk -/

/-- Behind the start of a text or the end of a statement, white space leads to the start of a
statement, and nothing else does. -/
theorem atStatementStart_append (hx : x = [] ∨ endsIn isStop x = true)
    (hs : ∀ a ∈ s, isStop a = false) (y : Text) :
    atStatementStart (x ++ (s ++ y)) (x.length + s.length) = true ↔ ∀ a ∈ s, isBlank a = true := by
  have htake : (x ++ (s ++ y)).take (x.length + s.length) = x ++ s := by
    rw [← List.append_assoc, ← List.length_append, List.take_left]
  have hself : Text.trimEnd x = x := by
    refine trimEnd_eq_self ?_
    rcases hx with rfl | hx
    · rfl
    · rw [endsIn] at hx ⊢
      cases hlast : x.getLast? with
      | none => rfl
      | some a =>
        rw [hlast] at hx
        exact (of_isStop hx).2.2.1
  rw [atStatementStart, charBefore?, htake, Text.trimEnd_append, hself, ← Text.trimEnd_eq_nil_iff]
  by_cases hnil : Text.trimEnd s = []
  · rw [if_pos hnil, iff_true_right hnil]
    rcases hx with rfl | hx
    · rfl
    · rw [endsIn] at hx
      cases hlast : x.getLast? with
      | none => rfl
      | some a =>
        rw [hlast] at hx
        simpa [isStop_iff, or_assoc] using hx
  · rw [if_neg hnil, List.getLast?_append_of_ne_nil _ hnil, List.getLast?_eq_getLast_of_ne_nil hnil,
      iff_false_right hnil]
    have hmem : (Text.trimEnd s).getLast hnil ∈ s := by
      obtain ⟨b, hb, -⟩ := Text.exists_trimEndOf isBlank s
      exact List.IsPrefix.subset ⟨b, hb.symm⟩ (List.getLast_mem hnil)
    have hstop := hs _ hmem
    intro hlast
    rw [← Bool.not_eq_true, isStop_iff] at hstop
    exact hstop (by simpa [or_assoc] using hlast)

/-- Behind the start of a text, the end of a statement or white space a jump may start. -/
theorem jumpFit_of_blank {b : Text} (hx : x = [] ∨ endsIn isStop x = true)
    (hb : ∀ a ∈ b, isBlank a = true) (y : Text) :
    jumpFit (b.getLast?.or x.getLast?) y = jumpFrom y := by
  rw [jumpFit, if_neg]
  rcases List.eq_nil_or_concat' b with rfl | ⟨b, a, rfl⟩
  · rcases hx with rfl | hx
    · exact Bool.false_ne_true
    · rw [endsIn] at hx
      cases hlast : x.getLast? with
      | none => exact Bool.false_ne_true
      | some c =>
        rw [hlast] at hx
        exact Bool.eq_false_iff.mp (of_isStop hx).2.2.2.2
  · have ha : isBlank a = true := hb a (by simp)
    have hdot : a ≠ '.' := by
      rintro rfl
      exact absurd ha (by decide)
    simp [bound_iff, isIdentPart_of_isBlank ha, hdot]

/-- A jump that starts a statement drops what need not be left behind it, and any other word that
looks like one is passed over. -/
theorem dropFrom_of_searchAt? {start stop pos fuel : Nat}
    (h : jump.searchAt? t pos = some ⟨t, start, stop, []⟩) :
    dropFrom (fuel + 1) pos t =
      dropFrom fuel stop
        (if atStatementStart t start then t.take stop ++ leftBehind (t.drop stop) else t) := by
  rw [dropFrom, h]
  change (if !atStatementStart t start then dropFrom fuel stop t
    else if isIdle (t.drop stop) then dropFrom fuel stop t
    else dropFrom fuel stop (t.take stop ++ (blockRest 0 (t.drop stop)).drop
      (Text.trimEnd (blockRest 0 (t.drop stop))).length ++ blockEnd 0 (t.drop stop))) = _
  cases atStatementStart t start with
  | false => rfl
  | true =>
    cases hidle : isIdle (t.drop stop) with
    | true => simp [leftBehind_of_isIdle hidle]
    | false => simp [leftBehind, hidle]

/-- Dropping dead code looks no further back than its search does. -/
theorem dropFrom_congr {pos pos' fuel : Nat} (h : jump.searchAt? t pos = jump.searchAt? t pos') :
    dropFrom (fuel + 1) pos t = dropFrom (fuel + 1) pos' t := by
  rw [dropFrom, dropFrom, h]

/-- Where a statement ends that starts somewhere in a text. -/
theorem stretch_split (x u v : Text) (c : Char) (z : Text) :
    x ++ (u ++ v ++ c :: z) = x ++ (u ++ v ++ [c]) ++ z ∧
      x.length + u.length + (v.length + 1) = (x ++ (u ++ v ++ [c])).length := by
  simp [Nat.add_assoc]

/-- Behind a jump the search goes on in what is left. -/
theorem dropFrom_jump (hx : x = [] ∨ endsIn isStop x = true) (hs : ∀ a ∈ s, isStop a = false)
    (hc : isStop c = true) (hjump : isJump s c = true) (fuel : Nat) (z : Text) :
    dropFrom (fuel + 1) x.length (x ++ (s ++ c :: z)) =
      dropFrom fuel (x ++ (s ++ [c])).length (x ++ (s ++ [c]) ++ leftBehind z) := by
  obtain ⟨hsemi, hleads⟩ := Bool.and_eq_true_iff.mp hjump
  have hblank : ∀ a ∈ s.takeWhile isBlank, isBlank a = true := fun a ha => List.mem_takeWhile_imp ha
  have hsplit : s = s.takeWhile isBlank ++ s.dropWhile isBlank :=
    List.takeWhile_append_dropWhile.symm
  generalize s.takeWhile isBlank = b at *
  generalize s.dropWhile isBlank = r at *
  subst hsplit
  rw [List.forall_mem_append] at hs
  have hfit : jumpFrom (r ++ c :: z) = some (r.length + 1) := by
    rw [jumpFrom_append hs.2 hc, if_pos ⟨beq_iff_eq.mp hsemi, hleads⟩]
  have hsearch := jump_isPlain.searchAt?_first (x := x) (u := b)
    (fun x₁ a x₂ hsplit => by
      have ha : isBlank a = true := hblank a (by simp [hsplit])
      rw [jumpFit, List.cons_append, jumpFrom_blank ha, ite_self])
    ((jumpFit_of_blank hx hblank _).trans hfit)
  obtain ⟨hwhole, hlength⟩ := stretch_split x b r c z
  rw [← List.append_assoc b, hlength] at hsearch
  rw [dropFrom_of_searchAt? hsearch, if_pos, hwhole, List.take_left, List.drop_left]
  rw [List.append_assoc b]
  exact (atStatementStart_append hx hs.1 _).mpr hblank

/-- A statement that is no jump is passed over. -/
theorem dropFrom_pass (hx : x = [] ∨ endsIn isStop x = true) (hs : ∀ a ∈ s, isStop a = false)
    (hc : isStop c = true) (hjump : isJump s c = false) (fuel : Nat) (z : Text) :
    ∃ fuel', fuel ≤ fuel' ∧ dropFrom (fuel + 1) x.length (x ++ (s ++ c :: z)) =
      dropFrom fuel' (x ++ (s ++ [c])).length (x ++ (s ++ [c]) ++ z) := by
  obtain ⟨hwhole, -⟩ := stretch_split x [] s c z
  rw [List.nil_append] at hwhole
  rcases fits_or_first jumpFit x.getLast? s (c :: z) with hnone | ⟨u, a, v, n, rfl, hn, hfirst⟩
  · -- Nothing in the statement looks like a jump, so the search may start behind it.
    refine ⟨fuel + 1, Nat.le_succ fuel, ?_⟩
    have hskip := jump_isPlain.searchAt?_skip (x := x) (u := s ++ [c]) (y := z) (by
      intro x₁ a x₂ hsplit
      rcases List.eq_nil_or_concat' x₂ with rfl | ⟨x₂, d, rfl⟩
      · obtain ⟨-, hac⟩ := List.append_inj' hsplit rfl
        obtain rfl := (List.cons.inj hac).1
        have hnone := jumpFrom_append (List.forall_mem_nil _) hc z
        rw [List.nil_append, if_neg (by simp [leadsJump, jumpWords])] at hnone
        rw [jumpFit, List.singleton_append, hnone, ite_self]
      · rw [← List.cons_append, ← List.append_assoc] at hsplit
        obtain ⟨rfl, hcd⟩ := List.append_inj' hsplit rfl
        obtain rfl := (List.cons.inj hcd).1
        simpa using hnone x₁ a x₂ rfl)
    rw [← List.append_assoc] at hskip
    rw [hwhole]
    exact dropFrom_congr hskip
  · -- What looks like a jump stands inside the statement and ends with it.
    refine ⟨fuel, le_rfl, ?_⟩
    have hfrom : jumpFrom (a :: v ++ c :: z) = some n := by
      rw [jumpFit] at hn
      split at hn
      · cases hn
      · exact hn
    have ha : isBlank a = false := by
      rw [← Bool.not_eq_true]
      intro ha
      rw [List.cons_append, jumpFrom_blank ha] at hfrom
      cases hfrom
    rw [List.forall_mem_append] at hs
    rw [jumpFrom_append hs.2 hc] at hfrom
    split at hfrom
    case isFalse => cases hfrom
    case isTrue hleads =>
      obtain rfl := Option.some.inj hfrom
      have hsearch := jump_isPlain.searchAt?_first hfirst hn
      obtain ⟨hwhole, hlength⟩ := stretch_split x u (a :: v) c z
      rw [← List.append_assoc u, hlength] at hsearch
      rw [dropFrom_of_searchAt? hsearch, if_neg, hwhole]
      rw [List.append_assoc u, atStatementStart_append hx hs.1]
      intro hu
      rw [isJump, List.dropWhile_append_of_pos hu, List.dropWhile_cons_of_neg (by simp [ha]),
        hleads.1, hleads.2] at hjump
      cases hjump

/-- Dropping dead code from the end of a statement on is the walk over the statements. -/
theorem dropFrom_eq {fuel : Nat} (hx : x = [] ∨ endsIn isStop x = true) (hfuel : y.length < fuel) :
    dropFrom fuel x.length (x ++ y) = x ++ pruned y := by
  induction hlen : y.length using Nat.strong_induction_on generalizing fuel x y with
  | _ len ih =>
    obtain ⟨fuel, rfl⟩ : ∃ n, fuel = n + 1 := ⟨fuel - 1, by omega⟩
    rcases exists_statement y with hs | ⟨s, c, z, rfl, hs, hc⟩
    · have hnone : jump.searchAt? (x ++ y) x.length = none := by
        refine jump_isPlain.searchAt?_eq_none fun x₁ a x₂ hsplit => ?_
        have hrest : ∀ d ∈ a :: x₂, isStop d = false := fun d hd => by
          rw [hsplit] at hs
          exact hs d (List.mem_append_right x₁ hd)
        rw [jumpFit, jumpFrom_of_endless hrest, ite_self]
      rw [dropFrom, hnone, pruned_of_endless hs]
    · have hend : endsIn isStop (x ++ (s ++ [c])) = true := by
        rw [← List.append_assoc, endsIn_append _ (List.cons_ne_nil c [])]
        exact hc
      rw [List.length_append, List.length_cons] at hlen hfuel
      have hstep {fuel : Nat} {w : Text} (hw : w.length ≤ z.length) (hfuel : w.length < fuel) :
          dropFrom fuel (x ++ (s ++ [c])).length (x ++ (s ++ [c]) ++ w) =
            x ++ (s ++ c :: pruned w) := by
        rw [ih w.length (by omega) (Or.inr hend) hfuel rfl]
        simp
      rw [pruned_append hs hc]
      cases hjump : isJump s c with
      | true =>
        have hle := length_leftBehind_le z
        rw [dropFrom_jump hx hs hc hjump, hstep hle (by omega)]
        rfl
      | false =>
        obtain ⟨fuel', hle, heq⟩ := dropFrom_pass hx hs hc hjump fuel z
        rw [heq, hstep le_rfl (by omega)]
        rfl

/-- What is left of a text is part of it, and puts no mark together. -/
theorem pruned_keeps (t : Text) :
    (∀ a ∈ pruned t, a ∈ t) ∧ (Unmarked t → Unmarked (pruned t)) := by
  induction hlen : t.length using Nat.strong_induction_on generalizing t with
  | _ len ih =>
    rcases exists_statement t with hs | ⟨s, c, z, rfl, hs, hc⟩
    · rw [pruned_of_endless hs]
      exact ⟨fun a ha => ha, id⟩
    · rw [pruned_append hs hc]
      generalize hw : (if isJump s c then leftBehind z else z) = w
      have hsuffix : w <:+ z := by
        rw [← hw]
        split
        · exact leftBehind_suffix z
        · exact List.suffix_rfl
      have hlt : w.length < len := by
        have hle := hsuffix.length_le
        rw [List.length_append, List.length_cons] at hlen
        omega
      obtain ⟨hmem, hunmarked⟩ := ih w.length hlt w rfl
      refine ⟨fun a ha => ?_, fun hu => ?_⟩
      · rw [List.mem_append, List.mem_cons] at ha ⊢
        exact ha.imp_right (Or.imp_right fun ha => hsuffix.subset (hmem a ha))
      · have hmark : c ∉ '\x03' :: markHead := by
          rcases isStop_iff.mp hc with rfl | rfl | rfl <;> decide
        have hz : Unmarked w := hu.of_infix (hsuffix.trans ⟨s ++ [c], by simp⟩).isInfix
        refine (hu.of_infix (List.prefix_append s _).isInfix).append ((hunmarked hz).cons hmark)
          (Or.inr fun d hd => ?_)
        rw [← Option.some.inj hd]
        exact fun h => hmark (List.mem_cons_of_mem _ h)

/-! ## Scripts without literals -/

/-- A script in which no literal and no comment can start. -/
def IsBare (code : Text) : Prop := ∀ c ∈ code, c ∉ ['\x22', '\x27', '\x60', '/']

instance decidableIsBare (code : Text) : Decidable (IsBare code) :=
  List.decidableBAll (· ∉ ['\x22', '\x27', '\x60', '/']) code

/-- A script without literals is code throughout. -/
theorem IsBare.cut_eq {code : Text} (h : IsBare code) (w : List Piece) :
    cut w code = spelled code := by
  induction code generalizing w with
  | nil => rfl
  | cons c rest ih =>
    obtain ⟨hc, hrest⟩ := List.forall_mem_cons.mp h
    have hnone : spanAt? (nearby w) c rest = none := by
      simp only [List.mem_cons, List.not_mem_nil, or_false, not_or] at hc
      simp [spanAt?, hc]
    rw [cut_of_none hnone, ih hrest]
    rfl

/-- Nothing is hidden in a script without literals. -/
theorem IsBare.mask_eq {code : Text} (h : IsBare code) : mask .all code = ⟨code, []⟩ := by
  rw [Script.mask_eq, pieces_all, h.cut_eq, assemble_spelled, assemble_snd, spansOf_spelled]

/-- Dropping dead code from a script without literals is the walk over its statements. -/
theorem deadCodeElimination_eq {code : Text} (h : IsBare code) (hu : Unmarked code) :
    deadCodeElimination code = .ok (pruned code) := by
  have hwalk : dropFrom (code.length + 1) 0 code = pruned code :=
    dropFrom_eq (x := []) (Or.inl rfl) (Nat.lt_succ_self _)
  rw [deadCodeElimination, h.mask_eq]
  dsimp only
  rw [hwalk]
  exact Masked.restoreText_of_unmarked _ ((pruned_keeps code).2 hu)

/-- Dropping dead code from a script without literals leaves no dead code to drop. -/
theorem deadCodeElimination_twice {code : Text} (h : IsBare code) (hu : Unmarked code) :
    ∃ out, deadCodeElimination code = .ok out ∧ deadCodeElimination out = .ok out := by
  obtain ⟨hmem, hunmarked⟩ := pruned_keeps code
  refine ⟨pruned code, deadCodeElimination_eq h hu, ?_⟩
  rw [deadCodeElimination_eq (fun c hc => h c (hmem c hc)) (hunmarked hu), pruned_pruned]

/-- A jump in an inner block before one whose rest is kept alive by a label, with a brace too
many. -/
def tangledJumps : Text :=
  "\x7b return; \x7b break; f(); \x7d again: g(); throw e; h(); \x7d \x7d return x; k(); "

theorem deadCodeElimination_twice_tangledJumps :
    IsBare tangledJumps ∧ Unmarked tangledJumps ∧
      ∃ out, deadCodeElimination tangledJumps = .ok out ∧ deadCodeElimination out = .ok out :=
  have h : IsBare tangledJumps := by decide
  have hu : Unmarked tangledJumps := by decide
  ⟨h, hu, deadCodeElimination_twice h hu⟩

end HostScript.Optimize
