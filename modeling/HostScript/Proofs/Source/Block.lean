import HostScript.Source.Block
import Mathlib.Data.List.Infix
import Mathlib.Data.List.TakeWhile

/-!
# Blocks of a source

Where a block ends, and which braces it stands between.
-/

namespace HostScript.Source

/-!
## Where a block ends

A block ends on one of the lines it was captured from, whether or not its braces balance. A block
that opens does so at a brace of its first line or of the next, and then it reaches that line.
-/

variable {first idx depth : Nat} {opened : Bool} {parts : List Text} {lines : List Line}

theorem mem_of_mem_codeCharsFrom {pos : Nat} {quote : Option Char} {t : Text} {x : Nat × Char}
    (h : x ∈ codeCharsFrom pos quote t) : x.2 ∈ t := by
  fun_induction codeCharsFrom pos quote t with
  | case1 => cases h
  | case2 pos c rest hquote ih => exact List.mem_cons_of_mem _ (ih h)
  | case3 pos c rest hquote ih =>
    rcases List.mem_cons.mp h with rfl | h
    · exact List.mem_cons_self ..
    · exact List.mem_cons_of_mem _ (ih h)
  | case4 => cases h
  | case5 pos q c rest ih => exact List.mem_cons_of_mem _ (List.mem_cons_of_mem _ (ih h))
  | case6 pos q c rest _ _ ih => exact List.mem_cons_of_mem _ (ih h)

theorem mem_of_mem_codeChars {t : Text} {x : Nat × Char} (h : x ∈ codeChars t) : x.2 ∈ t :=
  mem_of_mem_codeCharsFrom h

/-- Characters outside string literals stand at their offsets. -/
theorem getElem?_of_mem_codeCharsFrom {pos : Nat} {quote : Option Char} {t : Text} {x : Nat × Char}
    (h : x ∈ codeCharsFrom pos quote t) : pos ≤ x.1 ∧ t[x.1 - pos]? = some x.2 := by
  fun_induction codeCharsFrom pos quote t with
  | case1 => cases h
  | case2 pos c rest hquote ih =>
    obtain ⟨hle, hget⟩ := ih h
    have hpos : x.1 - pos = x.1 - (pos + 1) + 1 := by omega
    exact ⟨by omega, by rw [hpos, List.getElem?_cons_succ]; exact hget⟩
  | case3 pos c rest hquote ih =>
    rcases List.mem_cons.mp h with rfl | h
    · exact ⟨Nat.le_refl _, by simp⟩
    · obtain ⟨hle, hget⟩ := ih h
      have hpos : x.1 - pos = x.1 - (pos + 1) + 1 := by omega
      exact ⟨by omega, by rw [hpos, List.getElem?_cons_succ]; exact hget⟩
  | case4 => cases h
  | case5 pos q c rest ih =>
    obtain ⟨hle, hget⟩ := ih h
    have hpos : x.1 - pos = x.1 - (pos + 2) + 2 := by omega
    exact ⟨by omega, by rw [hpos, List.getElem?_cons_succ, List.getElem?_cons_succ]; exact hget⟩
  | case6 pos q c rest _ _ ih =>
    obtain ⟨hle, hget⟩ := ih h
    have hpos : x.1 - pos = x.1 - (pos + 1) + 1 := by omega
    exact ⟨by omega, by rw [hpos, List.getElem?_cons_succ]; exact hget⟩

/-- A balance is reached at a closing bracket. -/
theorem mem_of_balanceAt? {opener closer : Char} {depth : Int} {chars : List (Nat × Char)}
    {pos : Nat} (h : balanceAt? opener closer depth chars = some pos) : (pos, closer) ∈ chars := by
  fun_induction balanceAt? opener closer depth chars with
  | case1 => cases h
  | case2 depth i c rest hopen ih => exact List.mem_cons_of_mem _ (ih h)
  | case3 depth i c rest hopen hclose hzero =>
    obtain rfl := Option.some.inj h
    rw [beq_iff_eq] at hclose
    exact hclose ▸ List.mem_cons_self ..
  | case4 depth i c rest hopen hclose hzero ih => exact List.mem_cons_of_mem _ (ih h)
  | case5 depth i c rest hopen hclose ih => exact List.mem_cons_of_mem _ (ih h)

/-- A closing bracket at an offset from another stands behind it. -/
theorem of_closer {t u rest : Text} {opener closer : Char} {pos : Nat}
    (ht : t = u ++ opener :: rest) (hcloser : closerOf? opener = some closer)
    (hget : (opener :: rest)[pos]? = some closer) :
    ∃ inner more, rest = inner ++ closer :: more ∧ u.length + pos = u.length + 1 + inner.length ∧
      t.slice (u.length + 1) (u.length + pos) = inner ∧ t.drop (u.length + pos + 1) = more := by
  subst ht
  cases pos with
  | zero =>
    have hsame : opener = closer := by simpa using hget
    subst hsame
    revert hcloser
    rw [closerOf?]
    split_ifs <;> simp_all
  | succ pos =>
    have hget : rest[pos]? = some closer := hget
    obtain ⟨hlt, hc⟩ := List.getElem?_eq_some_iff.mp hget
    have hshape : u ++ opener :: rest = (u ++ [opener]) ++ rest := by simp
    have hlength : u.length + 1 = (u ++ [opener]).length := by simp
    refine ⟨rest.take pos, rest.drop (pos + 1), ?_, ?_, ?_, ?_⟩
    · rw [← hc, List.getElem_cons_drop, List.take_append_drop]
    · rw [List.length_take_of_le hlt.le]
      omega
    · have hclose : u.length + (pos + 1) = (u ++ [opener]).length + pos := by rw [← hlength]; omega
      rw [Text.slice, hshape, hclose, hlength, List.take_length_add_append, List.drop_left]
    · have hnext : u.length + (pos + 1) + 1 = (u ++ [opener]).length + (pos + 1) := by
        rw [← hlength]
        omega
      rw [hshape, hnext, List.drop_length_add_append]

/-- The bracket that closes another outside literals stands behind it. -/
theorem of_closing?_eq_some {t u rest : Text} {opener closer : Char} {close : Nat}
    (ht : t = u ++ opener :: rest) (hcloser : closerOf? opener = some closer)
    (h : closing? t u.length = some close) :
    ∃ inner more, rest = inner ++ closer :: more ∧ close = u.length + 1 + inner.length ∧
      t.slice (u.length + 1) close = inner ∧ t.drop (close + 1) = more := by
  rw [ht, closing?, List.drop_left] at h
  simp only [hcloser, Option.bind_some] at h
  obtain ⟨pos, hpos, rfl⟩ := Option.map_eq_some_iff.mp h
  exact of_closer ht hcloser (getElem?_of_mem_codeCharsFrom (mem_of_balanceAt? hpos)).2

theorem getElem?_of_mem_indexed {pos : Nat} {t : Text} {x : Nat × Char} (h : x ∈ indexed pos t) :
    pos ≤ x.1 ∧ t[x.1 - pos]? = some x.2 := by
  induction t generalizing pos with
  | nil => cases h
  | cons c t ih =>
    rcases List.mem_cons.mp h with rfl | h
    · exact ⟨le_rfl, by simp⟩
    · obtain ⟨hle, hget⟩ := ih h
      have hpos : x.1 - pos = x.1 - (pos + 1) + 1 := by omega
      exact ⟨by omega, by rw [hpos, List.getElem?_cons_succ]; exact hget⟩

/-- The bracket that closes another stands behind it. -/
theorem of_blockEnd?_eq_some {t u rest : Text} {opener closer : Char} {close : Nat}
    (ht : t = u ++ opener :: rest) (hcloser : closerOf? opener = some closer)
    (h : blockEnd? t u.length = some close) :
    ∃ inner more, rest = inner ++ closer :: more ∧ close = u.length + 1 + inner.length ∧
      t.slice (u.length + 1) close = inner ∧ t.drop (close + 1) = more := by
  rw [ht, blockEnd?, List.drop_left] at h
  simp only [hcloser, Option.bind_some] at h
  obtain ⟨hle, hget⟩ := getElem?_of_mem_indexed (mem_of_balanceAt? h)
  dsimp only at hle hget
  have hclose : close = u.length + (close - u.length) := by omega
  rw [hclose]
  exact of_closer ht hcloser hget

/-- A line without an opening brace opens nothing. -/
theorem scanLine_of_notMem {start : Nat} {chars : List (Nat × Char)}
    (h : ∀ x ∈ chars, x.2 ≠ '\x7b') :
    scanLine depth false start chars = .goesOn depth false start := by
  induction chars with
  | nil => rfl
  | cons x chars ih =>
    obtain ⟨hx, hchars⟩ := List.forall_mem_cons.mp h
    rw [scanLine, if_neg (by simpa using hx), Bool.and_false, if_neg Bool.false_ne_true, ih hchars]

/-- The last line of a block is one of those it was captured from. -/
theorem captureFrom_last_lt (hfirst : first ≤ idx) (hlines : first < idx ∨ lines ≠ []) :
    (captureFrom first idx depth opened parts lines).last < idx + lines.length := by
  induction lines generalizing idx depth opened parts with
  | nil =>
    have : first < idx := hlines.resolve_right fun h => h rfl
    simp only [captureFrom, List.length_nil]
    omega
  | cons line rest ih =>
    have hnext {depth opened parts} :
        (captureFrom first (idx + 1) depth opened parts rest).last < idx + (rest.length + 1) :=
      Nat.lt_of_lt_of_eq (ih (Nat.le_succ_of_le hfirst) (Or.inl (Nat.lt_succ_of_le hfirst)))
        (by omega)
    rw [captureFrom, List.length_cons]
    split
    · simp only
      omega
    · split
      · exact hnext
      · split
        · simp only
          omega
        · exact hnext

/-- An open block stays open to the end of its line. -/
theorem opened_of_scanLine {start start' depth' : Nat} {chars : List (Nat × Char)}
    (h : scanLine depth true start chars = .goesOn depth' opened start') : opened = true := by
  induction chars generalizing depth start with
  | nil => cases h; rfl
  | cons x chars ih =>
    rw [scanLine] at h
    split at h
    · exact ih h
    · split at h
      · split at h
        · cases h
        · exact ih h
      · exact ih h

/-- A block that is open ahead of a line reaches that line, unless there is none. -/
theorem le_captureFrom_last :
    idx ≤ (captureFrom first idx depth true parts lines).last + 1 := by
  induction lines generalizing idx depth parts with
  | nil =>
    simp only [captureFrom]
    omega
  | cons line rest ih =>
    rw [captureFrom]
    split
    case h_1 => exact Nat.le_succ idx
    case h_2 depth' opened start hscan =>
      rw [opened_of_scanLine hscan, if_pos rfl]
      exact Nat.le_trans (Nat.le_succ idx) ih

theorem captureBlock_last_le (line : Line) (rest : List Line) :
    (captureBlock (line :: rest) 0).last ≤ rest.length := by
  have : (captureFrom 0 0 0 false [] (line :: rest)).last < 0 + (line :: rest).length :=
    captureFrom_last_lt (Nat.le_refl 0) (Or.inr (List.cons_ne_nil line rest))
  rw [List.length_cons] at this
  rw [captureBlock, List.drop_zero]
  omega

/-- A block opens on its first line, or on the next and reaches it. -/
theorem captureBlock_opened {line : Line} {rest : List Line}
    (h : (captureBlock (line :: rest) 0).opened = true) :
    '\x7b' ∈ line.text ∨ ∃ next more, rest = next :: more ∧ '\x7b' ∈ next.text ∧
      1 ≤ (captureBlock (line :: rest) 0).last := by
  by_cases hline : '\x7b' ∈ line.text
  · exact Or.inl hline
  have hscan (l : Line) (hl : '\x7b' ∉ l.text) :
      scanLine 0 false 0 (codeChars l.text) = .goesOn 0 false 0 :=
    scanLine_of_notMem fun x hx heq => hl (heq ▸ mem_of_mem_codeChars hx)
  have hskip : captureBlock (line :: rest) 0 = captureFrom 0 1 0 false [] rest := by
    rw [captureBlock, List.drop_zero, captureFrom, hscan line hline]
    rfl
  rw [hskip] at h ⊢
  cases rest with
  | nil => cases h
  | cons next more =>
    refine Or.inr ⟨next, more, rfl, ?_⟩
    by_cases hnext : '\x7b' ∈ next.text
    · refine ⟨hnext, ?_⟩
      rw [captureFrom] at h ⊢
      split
      case h_1 => exact Nat.le_refl 1
      case h_2 depth opened start hscan =>
        rw [hscan] at h
        cases opened with
        | false => cases h
        | true =>
          rw [if_pos rfl]
          exact Nat.le_of_succ_le_succ le_captureFrom_last
    · rw [captureFrom, hscan next hnext] at h
      cases h

/-!
## The matching brace

A captured block is what stands between the first brace of its first two lines and the brace that
brings the count back to zero for the first time. The braces are counted over all lines as over
one text; only quotes are read line by line.
-/

variable {first idx depth start : Nat} {d : Int} {parts : List Text} {lines ls : List Line}
variable {cs cs' : List Char} {c : Char} {chars : List (Nat × Char)}

/-! ### Counting braces -/

/-- The opening braces less the closing ones. -/
def level (cs : List Char) : Int := (cs.count '\x7b' : Int) - cs.count '\x7d'

@[simp] theorem level_nil : level [] = 0 := rfl

theorem level_append (cs cs' : List Char) : level (cs ++ cs') = level cs + level cs' := by
  simp only [level, List.count_append, Int.natCast_add]
  omega

theorem level_cons (c : Char) (cs : List Char) : level (c :: cs) = level [c] + level cs :=
  level_append [c] cs

@[simp] theorem level_open : level ['\x7b'] = 1 := by decide

@[simp] theorem level_close : level ['\x7d'] = -1 := by decide

theorem level_of_ne (hopen : c ≠ '\x7b') (hclose : c ≠ '\x7d') : level [c] = 0 := by
  simp [level, hopen, hclose]

/-- The count of open braces, `d` ahead of the characters, is nowhere zero among them. -/
def StaysOpen (d : Int) (cs : List Char) : Prop := ∀ pre, pre <+: cs → d + level pre ≠ 0

instance : Decidable (StaysOpen d cs) :=
  decidable_of_iff (∀ pre ∈ cs.inits, d + level pre ≠ 0) (by simp only [StaysOpen, List.mem_inits])

theorem staysOpen_nil (hd : d ≠ 0) : StaysOpen d [] := by
  intro pre hpre
  rwa [List.prefix_nil.mp hpre, level_nil, Int.add_zero]

theorem StaysOpen.append (h : StaysOpen d cs) (h' : StaysOpen (d + level cs) cs') :
    StaysOpen d (cs ++ cs') := by
  intro pre hpre
  rcases List.prefix_or_prefix_of_prefix hpre (List.prefix_append cs cs') with hpre' | ⟨more, rfl⟩
  · exact h pre hpre'
  · rw [level_append, ← Int.add_assoc]
    exact h' more ((List.prefix_append_right_inj cs).mp hpre)

theorem StaysOpen.cons (hd : d ≠ 0) (h : StaysOpen (d + level [c]) cs) : StaysOpen d (c :: cs) := by
  intro pre hpre
  rcases List.prefix_cons_iff.mp hpre with rfl | ⟨more, rfl, hmore⟩
  · rwa [level_nil, Int.add_zero]
  · rw [level_cons, ← Int.add_assoc]
    exact h more hmore

/-- One character closes the block or leaves it open. -/
theorem scanLine_cons (hdepth : 0 < depth) (pos : Nat) (c : Char) (chars : List (Nat × Char)) :
    (depth + level [c] = 0 ∧ scanLine depth true start ((pos, c) :: chars) = .closed start pos) ∨
      ∃ depth' : Nat, 0 < depth' ∧ depth' = depth + level [c] ∧
        scanLine depth true start ((pos, c) :: chars) = scanLine depth' true start chars := by
  rw [scanLine]
  by_cases hopen : c = '\x7b'
  · subst hopen
    exact .inr ⟨depth + 1, Nat.succ_pos _, by simp, by simp⟩
  by_cases hclose : c = '\x7d'
  · subst hclose
    by_cases hone : depth = 1
    · subst hone
      exact .inl ⟨by simp, by simp⟩
    · have hzero : (depth - 1 == 0) = false := beq_false_of_ne (by omega)
      refine .inr ⟨depth - 1, by omega, by rw [level_close]; omega, ?_⟩
      simp [hzero]
  · exact .inr ⟨depth, hdepth, by rw [level_of_ne hopen hclose, Int.add_zero],
      by simp [hopen, hclose]⟩

/-- Whether a line closes the block, and where, is decided by the count alone. -/
theorem scanLine_opened (start : Nat) (chars : List (Nat × Char)) (hdepth : 0 < depth) :
    (∃ inner pos c more, chars = inner ++ (pos, c) :: more ∧
      StaysOpen depth (inner.map (·.2)) ∧ depth + level (inner.map (·.2) ++ [c]) = 0 ∧
        scanLine depth true start chars = .closed start pos) ∨
      StaysOpen depth (chars.map (·.2)) ∧
        ∃ depth' : Nat, 0 < depth' ∧ depth' = depth + level (chars.map (·.2)) ∧
          scanLine depth true start chars = .goesOn depth' true start := by
  induction chars generalizing depth with
  | nil => exact .inr ⟨staysOpen_nil (by omega), depth, hdepth, by simp, rfl⟩
  | cons x chars ih =>
    obtain ⟨pos, c⟩ := x
    rcases scanLine_cons hdepth pos c chars with ⟨hzero, hscan⟩ | ⟨depth', hpos, hlevel, hscan⟩
    · exact .inl ⟨[], pos, c, chars, rfl, staysOpen_nil (by omega), hzero, hscan⟩
    rw [hscan]
    rcases ih hpos with ⟨inner, pos', c', more, rfl, hinner, hzero, hclosed⟩ |
      ⟨hopen, depth'', hpos', hlevel', hgoesOn⟩
    · refine .inl ⟨(pos, c) :: inner, pos', c', more, rfl, .cons (by omega) (hlevel ▸ hinner),
        ?_, hclosed⟩
      rw [List.map_cons, List.cons_append, level_cons]
      dsimp only
      omega
    · refine .inr ⟨.cons (by omega) (hlevel ▸ hopen), depth'', hpos', ?_, hgoesOn⟩
      rw [List.map_cons, level_cons]
      dsimp only
      omega

/-! ### Places of lines -/

/-- A character outside string literals: the index of its line, its offset there, and itself. -/
structure Place where
  line : Nat
  offset : Nat
  char : Char

/-- The characters of a line outside string literals. -/
def placesOf (idx : Nat) (line : Line) : List Place :=
  (codeChars line.text).map fun x => ⟨idx, x.1, x.2⟩

/-- The characters of lines outside string literals, the first line having the given index. -/
def places (idx : Nat) : List Line → List Place
  | [] => []
  | line :: rest => placesOf idx line ++ places (idx + 1) rest

theorem line_of_mem_placesOf {x : Place} {line : Line} (hx : x ∈ placesOf idx line) :
    x.line = idx := by
  obtain ⟨y, -, rfl⟩ := List.mem_map.mp hx
  rfl

theorem line_of_mem_places {x : Place} (hx : x ∈ places idx ls) :
    idx ≤ x.line ∧ x.line < idx + ls.length := by
  induction ls generalizing idx with
  | nil => cases hx
  | cons line ls ih =>
    rw [List.length_cons]
    rcases List.mem_append.mp hx with hx | hx
    · rw [line_of_mem_placesOf hx]
      omega
    · have := ih hx
      omega

/-- The text of a line. -/
def textAt (lines : List Line) (i : Nat) : Text := (lines[i]?.map Line.text).getD []

/-- The part of a line that lies between two places, each given by its line and its offset. -/
def clip (lines : List Line) (left right : Nat × Nat) (i : Nat) : Text :=
  (textAt lines i).slice (if i = left.1 then left.2 else 0)
    (if i = right.1 then right.2 else (textAt lines i).length)

/-- Texts trimmed, without the empty ones. -/
def solid (ts : List Text) : List Text := (ts.map Text.trim).filter (!·.isEmpty)

/-- The trimmed parts of lines between two places from a line on, without the empty ones. -/
def partsFrom (lines : List Line) (left right : Nat × Nat) (idx : Nat) : List Text :=
  solid ((List.range' idx (right.1 + 1 - idx)).map (clip lines left right))

/-- The trimmed parts of lines between two places, without the empty ones. -/
def linesBetween (lines : List Line) (left right : Nat × Nat) : List Text :=
  partsFrom lines left right left.1

theorem addFragment_eq (parts : List Text) (t : Text) :
    addFragment parts t = parts ++ solid [t] := by
  cases h : List.isEmpty t.trim <;> simp [addFragment, solid, h]

theorem solid_append (ts ts' : List Text) : solid (ts ++ ts') = solid ts ++ solid ts' := by
  rw [solid, List.map_append, List.filter_append]
  rfl

theorem addFragment_append (parts : List Text) (t : Text) (ts : List Text) :
    addFragment parts t ++ solid ts = parts ++ solid (t :: ts) := by
  rw [addFragment_eq, List.append_assoc, ← solid_append, List.singleton_append]

theorem textAt_of_drop {line : Line} (h : lines.drop idx = line :: ls) :
    textAt lines idx = line.text := by
  have hget : lines[idx]? = some line := by
    rw [← List.head?_drop, h, List.head?_cons]
  rw [textAt, hget]
  rfl

theorem drop_succ_of_drop {line : Line} (h : lines.drop idx = line :: ls) :
    lines.drop (idx + 1) = ls := by
  rw [← List.tail_drop, h, List.tail_cons]

/-! ### Capturing -/

/-- The count of open braces, `d` ahead of the places, is back at zero for the first time at `q`. -/
def ReturnsAt (d : Int) (ps : List Place) (q : Place) : Prop :=
  ∃ inner more, ps = inner ++ q :: more ∧ StaysOpen d (inner.map Place.char) ∧
    d + level (inner.map Place.char ++ [q.char]) = 0

theorem ReturnsAt.append_right {ps : List Place} {q : Place} (h : ReturnsAt d ps q)
    (qs : List Place) : ReturnsAt d (ps ++ qs) q := by
  obtain ⟨inner, more, rfl, hopen, hzero⟩ := h
  exact ⟨inner, more ++ qs, by rw [List.append_assoc, List.cons_append], hopen, hzero⟩

theorem ReturnsAt.append_left {ps qs : List Place} {q : Place}
    (hps : StaysOpen d (ps.map Place.char))
    (h : ReturnsAt (d + level (ps.map Place.char)) qs q) : ReturnsAt d (ps ++ qs) q := by
  obtain ⟨inner, more, rfl, hopen, hzero⟩ := h
  refine ⟨ps ++ inner, more, (List.append_assoc ..).symm, ?_, ?_⟩
  · rw [List.map_append]
    exact hps.append hopen
  · rwa [List.map_append, List.append_assoc, level_append, ← Int.add_assoc]

/-- The count returns to zero for the first time at one place only. -/
theorem ReturnsAt.unique {ps : List Place} {q q' : Place} (h : ReturnsAt d ps q)
    (h' : ReturnsAt d ps q') : q' = q := by
  obtain ⟨inner, more, rfl, hopen, hzero⟩ := h
  obtain ⟨inner', more', heq, hopen', hzero'⟩ := h'
  rcases List.append_eq_append_iff.mp heq with ⟨x, rfl, hx⟩ | ⟨x, rfl, hx⟩
  · cases x with
    | nil => exact (List.cons.inj hx).1.symm
    | cons r x =>
      obtain ⟨rfl, -⟩ := List.cons.inj hx
      refine absurd hzero (hopen' _ ?_)
      rw [List.map_append, List.map_cons]
      exact ⟨x.map Place.char, by simp⟩
  · cases x with
    | nil => exact (List.cons.inj hx).1
    | cons r x =>
      obtain ⟨rfl, -⟩ := List.cons.inj hx
      refine absurd hzero' (hopen _ ?_)
      rw [List.map_append, List.map_cons]
      exact ⟨x.map Place.char, by simp⟩

theorem StaysOpen.not_returnsAt {ps : List Place} {q : Place}
    (h : StaysOpen d (ps.map Place.char)) : ¬ ReturnsAt d ps q := by
  rintro ⟨inner, more, rfl, -, hzero⟩
  refine h _ ?_ hzero
  rw [List.map_append, List.map_cons]
  exact ⟨more.map Place.char, by simp⟩

/-- The end of lines, as a line and an offset in it. -/
def endOf (lines : List Line) : Nat × Nat :=
  (lines.length - 1, (textAt lines (lines.length - 1)).length)

variable {left right : Nat × Nat}

/-- A line that the block goes on behind is taken up to its end. -/
theorem addFragment_partsFrom (hle : idx ≤ right.1)
    (hend : idx = right.1 → right.2 = (textAt lines idx).length) :
    addFragment parts ((textAt lines idx).drop (if idx = left.1 then left.2 else 0)) ++
        partsFrom lines left right (idx + 1) = parts ++ partsFrom lines left right idx := by
  have hstop : (if idx = right.1 then right.2 else (textAt lines idx).length) =
      (textAt lines idx).length := by
    split
    · exact hend ‹_›
    · rfl
  have hclip : clip lines left right idx =
      (textAt lines idx).drop (if idx = left.1 then left.2 else 0) := by
    rw [clip, hstop, Text.slice, List.take_length]
  have hcount : right.1 + 1 - idx = right.1 + 1 - (idx + 1) + 1 := by omega
  rw [partsFrom, partsFrom, hcount, List.range'_succ, List.map_cons, hclip, addFragment_append]

/-- The line that the block ends on is taken up to the closing brace. -/
theorem addFragment_last (lines : List Line) (left : Nat × Nat) (parts : List Text)
    (idx stop : Nat) :
    addFragment parts ((textAt lines idx).slice (if idx = left.1 then left.2 else 0) stop) =
      parts ++ partsFrom lines left (idx, stop) idx := by
  rw [addFragment_eq, partsFrom, Nat.add_sub_cancel_left, List.range'_one, List.map_singleton,
    clip, if_pos rfl]

/-- What a capture comes to once a brace is open, with the places that are still ahead: the block
ends where the count returns to zero, or it runs to the end. -/
def Captures (lines : List Line) (left : Nat × Nat) (idx : Nat) (parts : List Text) (d : Int)
    (ps : List Place) (b : Block) : Prop :=
  (∃ q, ReturnsAt d ps q ∧
    b = ⟨Text.unlines (parts ++ partsFrom lines left (q.line, q.offset) idx), q.line, true, true,
      ((textAt lines q.line).since (q.offset + 1)).trim⟩) ∨
    StaysOpen d (ps.map Place.char) ∧
      b = ⟨Text.unlines (parts ++ partsFrom lines left (endOf lines) idx), lines.length - 1, false,
        true, []⟩

/-- One line of a capture: either it closes the block, or the lines behind it go on with the count
that it leaves. -/
theorem captures_line {line : Line} {rest : List Line} {depth₀ : Nat} {opened₀ : Bool}
    (more : List (Nat × Char)) (hline : lines.drop idx = line :: rest) (hdepth : 0 < depth)
    (hscan : scanLine depth₀ opened₀ 0 (codeChars line.text) =
      scanLine depth true (if idx = left.1 then left.2 else 0) more)
    (hrest : ∀ (depth' : Nat) (parts' : List Text), 0 < depth' →
      Captures lines left (idx + 1) parts' depth' (places (idx + 1) rest)
        (captureFrom first (idx + 1) depth' true parts' rest)) :
    Captures lines left idx parts depth
      (more.map (fun x => ⟨idx, x.1, x.2⟩) ++ places (idx + 1) rest)
      (captureFrom first idx depth₀ opened₀ parts (line :: rest)) := by
  have htext : line.text = textAt lines idx := (textAt_of_drop hline).symm
  have hlength : idx + rest.length + 1 = lines.length := by
    have := congrArg List.length hline
    rw [List.length_drop, List.length_cons] at this
    omega
  have hchars (cs : List (Nat × Char)) :
      (cs.map fun x => (⟨idx, x.1, x.2⟩ : Place)).map Place.char = cs.map (·.2) := by
    rw [List.map_map]
    rfl
  rw [captureFrom, hscan]
  rcases scanLine_opened (if idx = left.1 then left.2 else 0) more hdepth with
    ⟨inner, stop, c, after, rfl, hinner, hzero, hclosed⟩ | ⟨hopen, depth', hpos, hlevel, hgoesOn⟩
  · rw [hclosed]
    refine Or.inl ⟨⟨idx, stop, c⟩, ReturnsAt.append_right ⟨_, _, List.map_append, ?_, ?_⟩ _, ?_⟩
    · rwa [hchars]
    · rwa [hchars]
    · simp only [htext, addFragment_last]
  · rw [hgoesOn]
    simp only [if_true]
    have hgoesOn' :=
      hrest depth' (addFragment parts (line.text.drop (if idx = left.1 then left.2 else 0))) hpos
    rcases hgoesOn' with ⟨q, hq, hblock⟩ | ⟨hstays, hblock⟩
    · have hbehind : idx < q.line := by
        obtain ⟨inner, after, hplaces, -⟩ := hq
        have := (line_of_mem_places (hplaces ▸ List.mem_append_right _ (List.mem_cons_self ..))).1
        omega
      refine Or.inl ⟨q, ReturnsAt.append_left (hchars more ▸ hopen) ?_, ?_⟩
      · rwa [hchars, ← hlevel]
      · rw [hblock, htext, addFragment_partsFrom (Nat.le_of_lt hbehind)]
        exact fun heq => absurd heq (Nat.ne_of_lt hbehind)
    · refine Or.inr ⟨?_, ?_⟩
      · rw [List.map_append, hchars]
        exact hopen.append (hlevel ▸ hstays)
      · rw [hblock, htext, addFragment_partsFrom]
        · rw [endOf]
          omega
        · intro heq
          rw [endOf] at heq ⊢
          exact congrArg (fun i => (textAt lines i).length) heq.symm

/-- A capture with a brace open ends where the count returns to zero, or runs to the end. -/
theorem captures_opened (hls : lines.drop idx = ls) (hidx : idx ≤ lines.length)
    (hleft : left.1 < idx) (hdepth : 0 < depth) :
    Captures lines left idx parts depth (places idx ls)
      (captureFrom first idx depth true parts ls) := by
  induction ls generalizing idx depth parts with
  | nil =>
    have hend : idx = lines.length := Nat.le_antisymm hidx (List.drop_eq_nil_iff.mp hls)
    refine Or.inr ⟨staysOpen_nil (by omega), ?_⟩
    have hcount : (endOf lines).1 + 1 - idx = 0 := by
      rw [endOf]
      omega
    rw [captureFrom, partsFrom, hcount, hend]
    exact congrArg (Block.mk · _ _ _ _) (congrArg Text.unlines (List.append_nil parts).symm)
  | cons line rest ih =>
    have hlt : idx < lines.length := by
      refine Nat.lt_of_le_of_ne hidx fun heq => ?_
      rw [heq, List.drop_length] at hls
      cases hls
    refine captures_line (codeChars line.text) hls hdepth ?_ fun depth' parts' hpos => ?_
    · rw [if_neg (Nat.ne_of_gt hleft)]
    · exact ih (drop_succ_of_drop hls) hlt (Nat.lt_succ_of_lt hleft) hpos

/-- The braces of a line count from the first opening one on. -/
theorem scanLine_unopened (chars : List (Nat × Char)) :
    scanLine 0 false 0 chars =
      match chars.dropWhile (·.2 != '\x7b') with
      | [] => .goesOn 0 false 0
      | x :: more => scanLine 1 true (x.1 + 1) more := by
  induction chars with
  | nil => rfl
  | cons x chars ih =>
    obtain ⟨pos, c⟩ := x
    rw [scanLine]
    by_cases hopen : c = '\x7b'
    · simp [hopen]
    · simp [hopen, ih]

/-- A line without an opening brace outside string literals is passed over. -/
theorem scanLine_of_placesOf_eq_nil {line : Line}
    (h : (placesOf idx line).dropWhile (·.char != '\x7b') = []) :
    scanLine 0 false 0 (codeChars line.text) = .goesOn 0 false 0 := by
  rw [placesOf, List.dropWhile_map, List.map_eq_nil_iff] at h
  rw [scanLine_unopened]
  exact congrArg (fun cs : List (Nat × Char) => match cs with
    | [] => LineScan.goesOn 0 false 0
    | x :: more => scanLine 1 true (x.1 + 1) more) h

/-- A capture opens at the first brace of a line. -/
theorem captures_opening {p : Place} {after : List Place} {line : Line} {rest : List Line}
    (hline : lines.drop idx = line :: rest)
    (hp : (placesOf idx line).dropWhile (·.char != '\x7b') = p :: after) :
    p.line = idx ∧
      Captures lines (p.line, p.offset + 1) idx [] 1 (after ++ places (idx + 1) rest)
        (captureFrom first idx 0 false [] (line :: rest)) := by
  rw [placesOf, List.dropWhile_map] at hp
  obtain ⟨x, more, hmore, rfl, rfl⟩ := List.map_eq_cons_iff.mp hp
  refine ⟨rfl, captures_line more hline Nat.one_pos ?_ fun depth' parts' hpos => ?_⟩
  · rw [if_pos rfl, scanLine_unopened]
    exact congrArg (fun cs : List (Nat × Char) => match cs with
      | [] => LineScan.goesOn 0 false 0
      | x :: more => scanLine 1 true (x.1 + 1) more) hmore
  · refine captures_opened (drop_succ_of_drop hline) ?_ (Nat.lt_succ_self idx) hpos
    have := congrArg List.length hline
    rw [List.length_drop, List.length_cons] at this
    omega

theorem ReturnsAt.mem {ps : List Place} {q : Place} (h : ReturnsAt d ps q) : q ∈ ps := by
  obtain ⟨inner, more, rfl, -⟩ := h
  exact List.mem_append_right _ (List.mem_cons_self ..)

/-- The first brace of some places is one of them and opens. -/
theorem of_dropWhile_eq_cons {ps after : List Place} {p : Place}
    (h : ps.dropWhile (·.char != '\x7b') = p :: after) :
    p.char = '\x7b' ∧ p ∈ ps ∧ ∀ q ∈ after, q ∈ ps := by
  have hsuffix : p :: after <:+ ps := h ▸ List.dropWhile_suffix _
  have hhead := List.head?_dropWhile_not (·.char != '\x7b') ps
  rw [h] at hhead
  refine ⟨by simpa using hhead, hsuffix.subset (List.mem_cons_self ..), fun q hq => ?_⟩
  exact hsuffix.subset (List.mem_cons_of_mem p hq)

/-- A capture finds no brace on its first two lines and takes nothing, or it opens at the first
one. -/
theorem captureBlock_cases (hstart : start < lines.length) :
    ((∀ x ∈ places start (lines.drop start), x.char = '\x7b' → start + 1 < x.line) ∧
      captureBlock lines start = ⟨[], start, false, false, []⟩) ∨
      ∃ p after, (places start (lines.drop start)).dropWhile (·.char != '\x7b') = p :: after ∧
        p.line ≤ start + 1 ∧
          Captures lines (p.line, p.offset + 1) p.line [] 1 after (captureBlock lines start) := by
  have hnone {ps : List Place} (h : ps.dropWhile (·.char != '\x7b') = []) :
      ∀ x ∈ ps, x.char ≠ '\x7b' := by
    simpa [List.dropWhile_eq_nil_iff] using h
  obtain ⟨line, rest, hdrop⟩ := List.exists_cons_of_ne_nil
    (fun h => Nat.not_le.mpr hstart (List.drop_eq_nil_iff.mp h))
  rw [captureBlock, hdrop, places]
  cases hfirst : (placesOf start line).dropWhile (·.char != '\x7b') with
  | cons p after =>
    obtain ⟨hline, hcaptures⟩ := captures_opening hdrop hfirst
    refine Or.inr ⟨p, after ++ places (start + 1) rest, ?_, by omega, ?_⟩
    · rw [List.dropWhile_append, hfirst]
      rfl
    · rwa [hline] at hcaptures ⊢
  | nil =>
    rw [List.dropWhile_append, hfirst, captureFrom, scanLine_of_placesOf_eq_nil hfirst]
    simp only [Bool.false_eq_true, if_false, gt_iff_lt, Nat.lt_irrefl, List.isEmpty_nil, if_true]
    cases rest with
    | nil =>
      refine Or.inl ⟨fun x hx hopen => absurd hopen (hnone hfirst x ?_), rfl⟩
      rwa [places, List.append_nil] at hx
    | cons next rest =>
      rw [places]
      cases hsecond : (placesOf (start + 1) next).dropWhile (·.char != '\x7b') with
      | cons p after =>
        obtain ⟨hline, hcaptures⟩ := captures_opening (drop_succ_of_drop hdrop) hsecond
        refine Or.inr ⟨p, after ++ places (start + 1 + 1) rest, ?_, by omega, ?_⟩
        · rw [List.dropWhile_append, hsecond]
          rfl
        · rwa [hline] at hcaptures ⊢
      | nil =>
        refine Or.inl ⟨fun x hx hopen => ?_, ?_⟩
        · rcases List.mem_append.mp hx with hx | hx
          · exact absurd hopen (hnone hfirst x hx)
          rcases List.mem_append.mp hx with hx | hx
          · exact absurd hopen (hnone hsecond x hx)
          · exact (line_of_mem_places hx).1
        · rw [captureFrom, scanLine_of_placesOf_eq_nil hsecond]
          simp

/-- A block is what stands between the first brace of its first two lines and the place where the
count of braces from there on is back at zero. Without such a brace nothing is taken; without such
a place the block runs to the end. -/
theorem captureBlock_matching (lines : List Line) (start : Nat) (hstart : start < lines.length) :
    (start ≤ (captureBlock lines start).last ∧ (captureBlock lines start).last < lines.length) ∧
      ((∀ x ∈ places start (lines.drop start), x.char = '\x7b' → start + 1 < x.line) →
        captureBlock lines start = ⟨[], start, false, false, []⟩) ∧
      ∀ p after, (places start (lines.drop start)).dropWhile (·.char != '\x7b') = p :: after →
        p.line ≤ start + 1 →
          (captureBlock lines start).opened = true ∧
          ((captureBlock lines start).closed = true ↔ ∃ q, ReturnsAt 1 after q) ∧
          (∀ q, ReturnsAt 1 after q → (captureBlock lines start).last = q.line ∧
            (captureBlock lines start).trailing =
              ((textAt lines q.line).since (q.offset + 1)).trim ∧
            (captureBlock lines start).body =
              Text.unlines (linesBetween lines (p.line, p.offset + 1) (q.line, q.offset))) ∧
          ((¬ ∃ q, ReturnsAt 1 after q) →
            (captureBlock lines start).last = lines.length - 1 ∧
            (captureBlock lines start).trailing = [] ∧
            (captureBlock lines start).body =
              Text.unlines (linesBetween lines (p.line, p.offset + 1) (endOf lines))) := by
  rcases captureBlock_cases hstart with ⟨hnone, hblock⟩ | ⟨p, after, hfirst, hline, hcaptures⟩
  · rw [hblock]
    refine ⟨⟨Nat.le_refl _, hstart⟩, fun _ => rfl, fun p after hfirst hline => ?_⟩
    obtain ⟨hopen, hmem, -⟩ := of_dropWhile_eq_cons hfirst
    exact absurd (hnone p hmem hopen) (Nat.not_lt.mpr hline)
  obtain ⟨hopen, hmem, hafter⟩ := of_dropWhile_eq_cons hfirst
  refine ⟨?_, fun hnone => absurd (hnone p hmem hopen) (Nat.not_lt.mpr hline),
    fun p' after' hfirst' _ => ?_⟩
  · rcases hcaptures with ⟨q, hq, hblock⟩ | ⟨-, hblock⟩
    · have hbounds := line_of_mem_places (hafter q hq.mem)
      rw [List.length_drop] at hbounds
      rw [hblock]
      exact ⟨hbounds.1, Nat.lt_of_lt_of_eq hbounds.2 (Nat.add_sub_of_le (Nat.le_of_lt hstart))⟩
    · rw [hblock]
      exact ⟨Nat.le_sub_one_of_lt hstart, Nat.sub_one_lt_of_lt hstart⟩
  · obtain ⟨rfl, rfl⟩ := List.cons.inj (hfirst.symm.trans hfirst')
    rcases hcaptures with ⟨q, hq, hblock⟩ | ⟨hstays, hblock⟩
    · rw [hblock]
      refine ⟨rfl, iff_of_true rfl ⟨q, hq⟩, fun q' hq' => ?_, fun hno => absurd ⟨q, hq⟩ hno⟩
      obtain rfl := hq.unique hq'
      exact ⟨rfl, rfl, rfl⟩
    · rw [hblock]
      refine ⟨rfl, iff_of_false Bool.false_ne_true fun ⟨q, hq⟩ => hstays.not_returnsAt hq,
        fun q hq => absurd hq hstays.not_returnsAt, fun _ => ⟨rfl, rfl, rfl⟩⟩

/-- A brace on the second line, a quoted one that does not count, and text behind the last. -/
private def bracedLines : List Line := [⟨1, "f()"⟩, ⟨2, "\x7b '\x7d'"⟩, ⟨3, "b \x7d c"⟩]

theorem captureBlock_matching_quoted :
    0 < bracedLines.length ∧ (captureBlock bracedLines 0).closed = true ∧
      (captureBlock bracedLines 0).last = 2 ∧
      (captureBlock bracedLines 0).trailing = ['c'] ∧
      (captureBlock bracedLines 0).body = Text.unlines (linesBetween bracedLines (1, 1) (2, 2)) ∧
      linesBetween bracedLines (1, 1) (2, 2) = ["'\x7d'".toList, ['b']] := by
  have hstart : 0 < bracedLines.length := by decide
  have hreturns : ReturnsAt 1
      [⟨1, 1, ' '⟩, ⟨2, 0, 'b'⟩, ⟨2, 1, ' '⟩, ⟨2, 2, '\x7d'⟩, ⟨2, 3, ' '⟩, ⟨2, 4, 'c'⟩]
      ⟨2, 2, '\x7d'⟩ :=
    ⟨[⟨1, 1, ' '⟩, ⟨2, 0, 'b'⟩, ⟨2, 1, ' '⟩], [⟨2, 3, ' '⟩, ⟨2, 4, 'c'⟩], rfl, by decide, by decide⟩
  obtain ⟨-, -, hopens⟩ := captureBlock_matching bracedLines 0 hstart
  obtain ⟨-, hclosed, hreturn, -⟩ := hopens ⟨1, 0, '\x7b'⟩ _ rfl (Nat.le_refl 1)
  obtain ⟨hlast, htrailing, hbody⟩ := hreturn ⟨2, 2, '\x7d'⟩ hreturns
  exact ⟨hstart, hclosed.mpr ⟨_, hreturns⟩, hlast, htrailing, hbody, by decide⟩

end HostScript.Source
