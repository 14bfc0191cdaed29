import HostScript.Declaration.Swift
import HostScript.Proofs.Pattern.Longer
import HostScript.Proofs.Source.Block
import HostScript.Proofs.Text
import Mathlib.Algebra.Order.BigOperators.Group.List
import Mathlib.Algebra.Order.Ring.Nat

/-!
# Reading Swift sources comes to an end

Lines are read one declaration after the other, and the members of a type are read like that from
lines of their own. The reader gets a bound on its steps; here it is shown that the bound is never
reached: each declaration ends within the lines that are there, and the lines of the members of a
type weigh less than those of the type. So the reader satisfies the equations it would have without
a bound. What it takes apart on the way, it has matched before.
-/

/-!
## The lines of a body

The members of a Swift type are read from lines that are cut out of the lines of the type. Each is
shorter than the line it comes from, except that a line can be cut twice: at the brace it starts
with and at the one it ends with. So it is not the characters that become fewer but the sum of the
powers of two, which also counts two halves of a line as no more than the line.
-/

namespace HostScript.Declaration.Swift

open Source

/-- What lines weigh together. -/
def total (lines : List Line) : Nat := (lines.map fun l => 2 ^ l.text.length).sum

theorem weight_eq_total (lines : List Line) : weight lines = total lines + 1 := by
  induction lines with
  | nil => rfl
  | cons line lines ih =>
    rw [weight, List.foldr_cons, ← weight, ih, total, total, List.map_cons, List.sum_cons]
    exact (Nat.add_assoc ..).symm

theorem total_append (lines more : List Line) :
    total (lines ++ more) = total lines + total more := by
  rw [total, List.map_append, List.sum_append, total, total]

theorem total_cons (line : Line) (lines : List Line) :
    total (line :: lines) = 2 ^ line.text.length + total lines := by
  rw [total, List.map_cons, List.sum_cons, total]

theorem total_filter_le (test : Line → Bool) (lines : List Line) :
    total (lines.filter test) ≤ total lines := by
  induction lines with
  | nil => exact Nat.le_refl 0
  | cons line lines ih =>
    rw [List.filter_cons, total_cons]
    split
    · rw [total_cons]
      exact Nat.add_le_add_left ih _
    · exact Nat.le_add_left_of_le ih

/-- The parts of a text weigh no more than the text, the separators making up for the sum. -/
theorem sum_splitOn_le (sep : Char) (t : Text) :
    ((t.splitOn sep).map fun p => 2 ^ p.length).sum ≤ 2 ^ t.length := by
  induction t with
  | nil => exact Nat.le_refl 1
  | cons c t ih =>
    have hpos : 0 < 2 ^ t.length := Nat.two_pow_pos _
    rw [Text.splitOn, List.length_cons, Nat.pow_succ]
    split
    · rw [List.map_cons, List.sum_cons, List.length_nil, Nat.pow_zero]
      omega
    · split
      case h_1 =>
        show 2 ≤ _
        omega
      case h_2 part parts hsplit =>
        rw [hsplit] at ih
        simp only [List.map_cons, List.sum_cons, List.length_cons, Nat.pow_succ] at ih ⊢
        omega

/-- A text of one character is found where the character occurs. -/
theorem isSome_indexOf?_singleton {c : Char} {t : Text} :
    (Text.indexOf? [c] t).isSome = true ↔ c ∈ t := by
  induction t with
  | nil => simp [Text.indexOf?]
  | cons x t ih =>
    rw [Text.indexOf?, List.mem_cons, ← ih]
    by_cases hx : c = x
    · simp [hx, List.isPrefixOf]
    · simp [hx, List.isPrefixOf]

/-- What follows the first brace of a line. -/
def afterBrace (t : Text) : Text :=
  t.since (((Text.indexOf? "\x7b" t).map (· + 1)).getD 0)

/-- What stands before the last closing brace of a line, nothing if there is none. -/
def upToLastBrace (t : Text) : Text := ((t.reverse.dropWhile (· != '\x7d')).drop 1).reverse

theorem length_afterBrace_lt {t : Text} (h : '\x7b' ∈ t) : (afterBrace t).length < t.length := by
  obtain ⟨i, hi⟩ := Option.isSome_iff_exists.mp (isSome_indexOf?_singleton.mpr h)
  have hpos : 0 < t.length := List.length_pos_of_mem h
  have hi : Text.indexOf? "\x7b" t = some i := hi
  rw [afterBrace, hi, Option.map_some, Option.getD_some, Text.since, List.length_drop]
  omega

theorem length_upToLastBrace_le (t : Text) : (upToLastBrace t).length ≤ t.length - 1 := by
  have hdrop : (t.reverse.dropWhile (· != '\x7d')).length ≤ t.length :=
    Nat.le_trans (List.dropWhile_sublist _).length_le (Nat.le_of_eq List.length_reverse)
  rw [upToLastBrace, List.length_reverse, List.length_drop]
  omega

/-- A line of its own, unless it is empty. -/
def solidLine (number : Nat) (t : Text) : List Line :=
  [(⟨number, t.trim⟩ : Line)].filter fun l => !l.text.isEmpty

theorem total_solidLine_le (number : Nat) {t : Text} {len : Nat} (h : t.length ≤ len) :
    total (solidLine number t) ≤ 2 ^ len := by
  refine Nat.le_trans (total_filter_le ..) ?_
  rw [total_cons]
  exact Nat.pow_le_pow_right Nat.two_pos (Nat.le_trans (Text.length_trim_le t) h)

/-- The lines of a body whose brace stands on the first of some lines, from behind that brace up to
the closing one. -/
def bodyFrom (first : Line) (rest : List Line) (last : Nat) (closed : Bool) : List Line :=
  solidLine first.number (afterBrace first.text)
    ++ ((first :: rest).take (if closed then last else last + 1)).drop 1
    ++ if closed then
        (first :: rest)[last]?.toList.flatMap fun l => solidLine l.number (upToLastBrace l.text)
      else []

/-- A body that ends on a later line than it starts on weighs less than its lines. -/
theorem total_bodyFrom_lt {first : Line} {rest : List Line} {last : Nat} {closed : Bool}
    (hopen : '\x7b' ∈ first.text) (hlast : last ≤ rest.length) (hlater : closed = true → last ≠ 0) :
    total (bodyFrom first rest last closed) < total ((first :: rest).take (last + 1)) := by
  have hafter : total (solidLine first.number (afterBrace first.text)) < 2 ^ first.text.length :=
    Nat.lt_of_le_of_lt (total_solidLine_le _ (Nat.le_sub_one_of_lt (length_afterBrace_lt hopen)))
      (Nat.pow_lt_pow_right Nat.one_lt_two (Nat.sub_one_lt_of_lt (List.length_pos_of_mem hopen)))
  rw [bodyFrom, total_append, total_append, List.take_succ_cons, total_cons]
  cases closed with
  | false => exact Nat.add_lt_add_right hafter _
  | true =>
    obtain ⟨last, rfl⟩ := Nat.exists_eq_succ_of_ne_zero (hlater rfl)
    have hlt : last < rest.length := hlast
    have hfinal : total (solidLine rest[last].number (upToLastBrace rest[last].text)) ≤
        2 ^ rest[last].text.length :=
      total_solidLine_le _ (Nat.le_trans (length_upToLastBrace_le _) (Nat.sub_le ..))
    have htake : rest.take (last + 1) = rest.take last ++ [rest[last]] :=
      (List.take_append_getElem hlt).symm
    simp only [if_true, List.take_succ_cons, List.drop_succ_cons, List.drop_zero,
      List.getElem?_cons_succ, List.getElem?_eq_getElem hlt, Option.toList_some,
      List.flatMap_singleton, htake, total_append, total_cons]
    omega

/-- A body that ends on the line it starts on may be counted twice, each copy without a brace. -/
theorem total_bodyFrom_le {first : Line} {rest : List Line} (hopen : '\x7b' ∈ first.text) :
    total (bodyFrom first rest 0 true) ≤ 2 ^ first.text.length := by
  have hpos : 0 < first.text.length := List.length_pos_of_mem hopen
  have hafter := total_solidLine_le first.number
    (Nat.le_sub_one_of_lt (length_afterBrace_lt hopen))
  have hfinal := total_solidLine_le first.number (length_upToLastBrace_le first.text)
  have hdouble : 2 ^ first.text.length = 2 ^ (first.text.length - 1) * 2 := by
    rw [← Nat.pow_succ, Nat.succ_eq_add_one, Nat.sub_add_cancel hpos]
  simp only [bodyFrom, if_true, List.take_zero, List.drop_nil, List.append_nil,
    List.getElem?_cons_zero, Option.toList_some, List.flatMap_singleton, total_append]
  omega

theorem bodyLines_eq_of_mem {line : Line} {rest : List Line} {last : Nat} {closed : Bool}
    (hopen : '\x7b' ∈ line.text) (hlast : last ≤ rest.length) (hlater : closed = true → last ≠ 0) :
    bodyLines line rest last closed = bodyFrom line rest last closed := by
  have hbrace : (Text.indexOf? "\x7b" line.text).isNone = false := by
    rw [← Option.not_isSome, Bool.not_eq_false']
    exact isSome_indexOf?_singleton.mpr hopen
  have hone : ¬ (last == 0 && closed) = true := by
    simp only [Bool.and_eq_true, beq_iff_eq]
    exact fun h => hlater h.2 h.1
  have hlt : last < (line :: rest).length := Nat.lt_succ_of_le hlast
  simp only [bodyLines, if_neg hone, hbrace, Bool.false_and, Bool.false_eq_true, if_false,
    List.getElem?_eq_getElem hlt, List.getElem?_cons_zero, Option.getD_some]
  cases closed <;>
    simp [bodyFrom, solidLine, afterBrace, upToLastBrace, List.getElem?_eq_getElem hlt]

theorem bodyLines_eq_of_notMem {line next : Line} {more : List Line} {last : Nat} {closed : Bool}
    (hopen : '\x7b' ∉ line.text) (hlast : last ≤ more.length) :
    bodyLines line (next :: more) (last + 1) closed = bodyFrom next more last closed := by
  have hbrace : (Text.indexOf? "\x7b" line.text).isNone = true := by
    rw [← Option.not_isSome, Bool.not_eq_true']
    exact Bool.eq_false_iff.mpr (mt isSome_indexOf?_singleton.mp hopen)
  have hlt : last < (next :: more).length := Nat.lt_succ_of_le hlast
  simp only [bodyLines, hbrace, List.isEmpty_cons, Bool.not_false, Bool.and_self, if_true,
    List.getElem?_cons_succ, List.getElem?_eq_getElem hlt, List.getElem?_cons_zero,
    Option.getD_some]
  cases closed <;>
    simp [bodyFrom, solidLine, afterBrace, upToLastBrace, List.getElem?_eq_getElem hlt]

/-- A body on one line is shorter than the line, and its statements weigh no more than it does. -/
theorem total_bodyLines_lt_of_one {line : Line} {rest : List Line} (hopen : '\x7b' ∈ line.text) :
    total (bodyLines line rest 0 true) < 2 ^ line.text.length := by
  have hpos : 0 < line.text.length := List.length_pos_of_mem hopen
  simp only [bodyLines, beq_self_eq_true, Bool.and_self, if_true]
  refine Nat.lt_of_le_of_lt (total_filter_le ..) ?_
  generalize hinner : (Text.since _ _ : Text) = inner
  have hlen : inner.trim.length < line.text.length := by
    refine Nat.lt_of_le_of_lt (Text.length_trim_le _) ?_
    rw [← hinner, Text.since, List.length_drop]
    have := length_upToLastBrace_le line.text
    rw [upToLastBrace] at this
    omega
  calc total (((inner.trim.splitOn ';').map fun p => (⟨line.number, p.trim⟩ : Line)))
      ≤ ((inner.trim.splitOn ';').map fun p => 2 ^ p.length).sum := by
        rw [total, List.map_map]
        exact List.sum_le_sum fun p _ => Nat.pow_le_pow_right Nat.two_pos (Text.length_trim_le p)
    _ ≤ 2 ^ inner.trim.length := sum_splitOn_le ';' _
    _ < 2 ^ line.text.length := Nat.pow_lt_pow_right Nat.one_lt_two hlen

/-- The members of a type weigh less than its lines, whether its body stands on the line of the
head, starts there, or starts on the next line, where it may also end and be counted twice. -/
theorem weight_bodyLines_lt {line : Line} {rest : List Line} {last : Nat} (closed : Bool)
    (hlast : last ≤ rest.length)
    (hopen : '\x7b' ∈ line.text ∨
      ∃ next more, rest = next :: more ∧ '\x7b' ∈ next.text ∧ 1 ≤ last) :
    weight (bodyLines line rest last closed) < weight ((line :: rest).take (last + 1)) := by
  rw [weight_eq_total, weight_eq_total, Nat.add_lt_add_iff_right]
  by_cases hline : '\x7b' ∈ line.text
  · by_cases hone : closed = true ∧ last = 0
    · obtain ⟨rfl, rfl⟩ := hone
      rw [List.take_succ_cons, List.take_zero]
      exact total_bodyLines_lt_of_one hline
    · have hlater : closed = true → last ≠ 0 := fun h h' => hone ⟨h, h'⟩
      rw [bodyLines_eq_of_mem hline hlast hlater]
      exact total_bodyFrom_lt hline hlast hlater
  · obtain ⟨next, more, rfl, hnext, hreach⟩ := hopen.resolve_left hline
    obtain ⟨last, rfl⟩ := Nat.exists_eq_succ_of_ne_zero (Nat.ne_of_gt hreach)
    have hlast : last ≤ more.length := Nat.le_of_succ_le_succ hlast
    have hpos : 0 < 2 ^ line.text.length := Nat.two_pow_pos _
    have hbody : total (bodyFrom next more last closed) ≤
        total ((next :: more).take (last + 1)) := by
      by_cases hone : closed = true ∧ last = 0
      · obtain ⟨rfl, rfl⟩ := hone
        rw [List.take_succ_cons, List.take_zero]
        exact total_bodyFrom_le hnext
      · exact (total_bodyFrom_lt hnext hlast fun h h' => hone ⟨h, h'⟩).le
    rw [Nat.succ_eq_add_one, bodyLines_eq_of_notMem hline hlast, List.take_succ_cons, total_cons]
    omega

end HostScript.Declaration.Swift

/-!
## The reader
-/

namespace HostScript.Declaration.Swift

open Pattern Source

/-! ### No declaration reaches beyond the lines -/

section Reach

variable {m : Module} {line : Line} {rest : List Line} {requirement : Bool}

theorem statementEnd_le : statementEnd line rest ≤ rest.length := by
  rw [statementEnd]
  split
  · exact captureBlock_last_le line rest
  · exact Nat.zero_le _

theorem joinHead_le (text : Text) (depth : Int) (joined : Nat) (lines : List Line) :
    (joinHead text depth joined lines).2 ≤ joined + lines.length := by
  induction lines generalizing text depth joined with
  | nil => exact Nat.le_refl joined
  | cons line lines ih =>
    rw [joinHead]
    split
    · refine Nat.le_trans (ih ..) (Nat.le_of_eq ?_)
      rw [List.length_cons, Nat.add_assoc, Nat.add_comm 1]
    · exact Nat.le_add_right ..

theorem headFrom_le : (headFrom line rest).2 ≤ rest.length :=
  Nat.le_trans (joinHead_le ..) (Nat.le_of_eq (Nat.zero_add _))

/-- A block behind a joined head ends within the lines too. -/
theorem captureBlock_drop_le {joined : Nat} (h : joined ≤ rest.length) :
    joined + (captureBlock ((line :: rest).drop joined) 0).last ≤ rest.length := by
  obtain ⟨next, more, hdrop⟩ : ∃ next more, (line :: rest).drop joined = next :: more := by
    refine List.exists_cons_of_length_pos ?_
    rw [List.length_drop, List.length_cons]
    omega
  have hlength : more.length + 1 = rest.length + 1 - joined := by
    rw [← List.length_cons, ← hdrop, List.length_drop, List.length_cons]
  have hlast := captureBlock_last_le next more
  rw [hdrop]
  omega

theorem readFunc_le : (readFunc m line rest requirement).2.2 ≤ rest.length := by
  have hjoined : (headFrom line rest).2 ≤ rest.length := headFrom_le
  simp only [readFunc]
  split
  · exact hjoined
  · split
    · exact hjoined
    · exact captureBlock_drop_le hjoined

theorem readInit_le : (readInit m line rest requirement).2.2 ≤ rest.length := by
  have hjoined : (headFrom line rest).2 ≤ rest.length := headFrom_le
  simp only [readInit]
  split
  · exact hjoined
  · split
    · exact hjoined
    · exact captureBlock_drop_le hjoined

theorem readProperty_le (f : Match) :
    (readProperty m f line rest requirement).2.2 ≤ rest.length := by
  have hblock : (captureBlock (line :: rest) 0).last ≤ rest.length := captureBlock_last_le line rest
  unfold readProperty
  extract_lets modifierText attributes p block
  split
  · split
    · exact hblock
    · exact Nat.zero_le _
  · split
    · exact hblock
    · exact hblock

theorem readType_le (members : TypeKind → Module → List Line → Module × Members) (h : Match) :
    (readType members m h line rest).2 ≤ rest.length := by
  simp only [readType]
  split
  · exact Nat.zero_le _
  · exact captureBlock_last_le line rest

theorem readPlainMember_le (kind : TypeKind) (b : Members) :
    (readPlainMember kind m b line rest).2.2 ≤ rest.length := by
  simp only [readPlainMember]
  split
  · exact readFunc_le
  split
  · split
    · exact readInit_le
    · split <;> exact readInit_le
  split
  · exact statementEnd_le
  split
  · exact readProperty_le _
  · exact statementEnd_le

theorem readMember_le (inner : TypeKind → Module → List Line → Module × Members) (kind : TypeKind)
    (b : Members) : (readMember inner kind m b line rest).2.2 ≤ rest.length := by
  simp only [readMember]
  split
  · exact Nat.zero_le _
  split
  · exact Nat.zero_le _
  split
  · exact readType_le ..
  · exact readPlainMember_le ..

theorem readTop_le (inner : TypeKind → Module → List Line → Module × Members) :
    (readTop inner m line rest).2 ≤ rest.length := by
  simp only [readTop]
  split
  · exact Nat.zero_le _
  split
  · exact readType_le ..
  split
  · exact readFunc_le
  split
  · split
    · exact readProperty_le _
    · exact readProperty_le _
  split
  · exact Nat.zero_le _
  · exact statementEnd_le

end Reach

/-! ### The bound on the steps is never reached -/

section Bound

variable {kind : TypeKind} {m : Module} {b : Members} {line : Line} {rest lines : List Line}
variable {inner inner' : TypeKind → Module → List Line → Module × Members}

theorem weight_take_le (n : Nat) (lines : List Line) : weight (lines.take n) ≤ weight lines := by
  rw [weight_eq_total, weight_eq_total, ← List.take_append_drop n lines, total_append,
    List.take_append_drop]
  exact Nat.succ_le_succ (Nat.le_add_right ..)

theorem weight_drop_lt (n : Nat) : weight (rest.drop n) < weight (line :: rest) := by
  have hsplit : total rest = total (rest.take n) + total (rest.drop n) := by
    rw [← total_append, List.take_append_drop]
  have hpos : 0 < 2 ^ line.text.length := Nat.two_pow_pos _
  rw [weight_eq_total, weight_eq_total, total_cons]
  omega

/-- The members of a type are read from less than the lines of the type. -/
theorem readType_congr (h : Match)
    (hsame : ∀ kind m lines, weight lines
      < weight ((line :: rest).take ((captureBlock (line :: rest) 0).last + 1)) →
        inner kind m lines = inner' kind m lines) :
    readType inner m h line rest = readType inner' m h line rest := by
  simp only [readType]
  split
  · rfl
  case isFalse hopened =>
    have hbody := weight_bodyLines_lt (captureBlock (line :: rest) 0).closed
      (captureBlock_last_le line rest) (captureBlock_opened (by simpa using hopened))
    rw [hsame _ _ _ hbody]

theorem readMember_congr
    (hsame : ∀ kind m lines, weight lines < weight (line :: rest) →
      inner kind m lines = inner' kind m lines) :
    readMember inner kind m b line rest = readMember inner' kind m b line rest := by
  simp only [readMember]
  split
  · rfl
  split
  · rfl
  split
  · rw [readType_congr _ fun kind m lines h => hsame kind m lines (h.trans_le (weight_take_le ..))]
  · rfl

/-- As many steps as the lines weigh are enough, and more give the same. -/
theorem readMembers_eq_of_weight_le {fuel fuel' : Nat} (h : weight lines ≤ fuel)
    (h' : weight lines ≤ fuel') :
    readMembers fuel kind m b lines = readMembers fuel' kind m b lines := by
  induction fuel generalizing fuel' kind m b lines with
  | zero => exact absurd h (by rw [weight_eq_total]; exact Nat.not_succ_le_zero _)
  | succ fuel ih =>
    obtain ⟨fuel', rfl⟩ : ∃ n, fuel' = n + 1 :=
      Nat.exists_eq_succ_of_ne_zero fun h0 => by rw [weight_eq_total] at h'; omega
    cases lines with
    | nil => rfl
    | cons line rest =>
      have hmember : readMember (fun k m ls => readMembers fuel k m {} ls) kind m b line rest =
          readMember (fun k m ls => readMembers fuel' k m {} ls) kind m b line rest :=
        readMember_congr fun kind m lines hlt =>
          ih (Nat.le_of_lt_succ (hlt.trans_le h)) (Nat.le_of_lt_succ (hlt.trans_le h'))
      rw [readMembers, readMembers, hmember]
      exact ih (Nat.le_of_lt_succ ((weight_drop_lt _).trans_le h))
        (Nat.le_of_lt_succ ((weight_drop_lt _).trans_le h'))

/-- Reads the members of a type, with no bound on the steps. -/
def allMembers (kind : TypeKind) (m : Module) (b : Members) (lines : List Line) :
    Module × Members :=
  readMembers (weight lines) kind m b lines

theorem allMembers_nil : allMembers kind m b [] = (m, b) := rfl

theorem allMembers_cons : allMembers kind m b (line :: rest) =
    let (m, b, last) := readMember (fun k m ls => allMembers k m {} ls) kind m b line rest
    allMembers kind m b (rest.drop last) := by
  obtain ⟨fuel, hfuel⟩ : ∃ n, weight (line :: rest) = n + 1 := ⟨_, weight_eq_total _⟩
  have hle {lines : List Line} (h : weight lines < weight (line :: rest)) : weight lines ≤ fuel :=
    Nat.le_of_lt_succ (h.trans_eq hfuel)
  have hmember : readMember (fun k m ls => readMembers fuel k m {} ls) kind m b line rest =
      readMember (fun k m ls => allMembers k m {} ls) kind m b line rest :=
    readMember_congr fun kind m lines hlt => readMembers_eq_of_weight_le (hle hlt) (Nat.le_refl _)
  rw [allMembers, hfuel, readMembers, hmember]
  exact readMembers_eq_of_weight_le (hle (weight_drop_lt _)) (Nat.le_refl _)

theorem readTop_congr
    (hsame : ∀ kind m lines, weight lines < weight (line :: rest) →
      inner kind m lines = inner' kind m lines) :
    readTop inner m line rest = readTop inner' m line rest := by
  simp only [readTop]
  split
  · rfl
  split
  · exact readType_congr _ fun kind m lines h => hsame kind m lines (h.trans_le (weight_take_le ..))
  · rfl

theorem readLines_eq_of_weight_le {fuel fuel' : Nat} (h : weight lines ≤ fuel)
    (h' : weight lines ≤ fuel') : readLines fuel m lines = readLines fuel' m lines := by
  fun_induction readLines fuel m lines with
  | case1 m => rw [readLines]
  | case2 m line rest step ih =>
    have hlt : weight (rest.drop step.2) < weight (line :: rest) := weight_drop_lt _
    have htop : step = readTop (fun k m ls => readMembers fuel' k m {} ls) m line rest :=
      readTop_congr fun kind m lines hlt =>
        readMembers_eq_of_weight_le (hlt.le.trans h) (hlt.le.trans h')
    rw [readLines, ← htop]
    exact ih (hlt.le.trans h) (hlt.le.trans h')

/-- Reads all declarations, with no bound on the steps. -/
def allLines (m : Module) (lines : List Line) : Module := readLines (weight lines) m lines

theorem allLines_nil : allLines m [] = m := by rw [allLines, readLines]

theorem allLines_cons : allLines m (line :: rest) =
    let (m, last) := readTop (fun k m ls => allMembers k m {} ls) m line rest
    allLines m (rest.drop last) := by
  have htop : readTop (fun k m ls => readMembers (weight (line :: rest)) k m {} ls) m line rest =
      readTop (fun k m ls => allMembers k m {} ls) m line rest :=
    readTop_congr fun kind m lines hlt => readMembers_eq_of_weight_le hlt.le (Nat.le_refl _)
  rw [allLines, readLines, htop]
  obtain ⟨m', last⟩ := readTop (fun k m ls => allMembers k m {} ls) m line rest
  exact readLines_eq_of_weight_le (weight_drop_lt _).le (Nat.le_refl _)

end Bound

/-! ### What is taken apart is there -/

section Heads

variable {line : Line} {rest : List Line}

theorem prefix_joinHead (text : Text) (depth : Int) (joined : Nat) (lines : List Line) :
    text <+: (joinHead text depth joined lines).1 := by
  induction lines generalizing text depth joined with
  | nil => exact List.prefix_refl _
  | cons line lines ih =>
    rw [joinHead]
    split
    · refine List.IsPrefix.trans ?_ (ih ..)
      exact (List.prefix_append _ _).trans (List.prefix_append _ _)
    · exact List.prefix_refl _

/-- A head that starts on a line is a head of all the lines that it is joined from, up to the
parenthesis that its pattern ends in. -/
theorem exists_match?_headFrom {p : Pattern} (hp : p.isSelfContained = true)
    (h : (p ++ text ['(']).fits line.text = true) :
    ∃ f, (p ++ text ['(']).match? (headFrom line rest).1 = some f ∧
      (headFrom line rest).1[f.stop - 1]? = some '(' := by
  obtain ⟨more, hmore⟩ := prefix_joinHead line.text
    ((line.text.count '(' : Int) - (line.text.count ')' : Int)) 0 rest
  have hself : (p ++ text ['(']).isSelfContained = true := (Bool.and_eq_true ..).mpr ⟨hp, rfl⟩
  have hfits := fits_append hself h more
  rw [hmore] at hfits
  obtain ⟨f, hf⟩ := Option.isSome_iff_exists.mp hfits
  exact ⟨f, hf, getElem?_stop_of_append hf⟩

/-- The value of a property stands behind an equals sign. -/
theorem mem_of_match?_propertyHead {t : Text} {f : Match} (h : propertyHead.match? t = some f)
    (hvalue : (f.group 5).trim ≠ []) : '=' ∈ t := by
  obtain ⟨x, rest, gs, rfl, hx, -, hgroup⟩ := spells_of_match? h
  have hfilled : gs.lookup 5 ≠ none := by
    intro hnone
    rw [Match.group, hgroup, hnone] at hvalue
    exact hvalue rfl
  refine List.mem_append_left _ ?_
  cases hx with
  | seq hx hend =>
  cases hx with
  | seq hx hblock =>
  cases hx with
  | seq hx hblanks =>
  cases hx with
  | seq hhead hopt =>
    rcases hopt.of_opt with ⟨rfl, rfl⟩ | hsome
    · rw [List.lookup_append, List.lookup_append, List.lookup_append, hend.lookup_eq_none rfl,
        hblock.lookup_eq_none rfl, hblanks.lookup_eq_none rfl, List.nil_append,
        hhead.lookup_eq_none rfl] at hfilled
      exact absurd rfl hfilled
    · cases hsome with
      | seq hsigned _ =>
      cases hsigned with
      | seq hsign _ =>
        obtain ⟨rfl, -⟩ := hsign.eq_of_text
        simp

theorem isSome_cutAt {sep : Char} {t : Text} (h : sep ∈ t) : (t.cutAt sep).2.isSome = true := by
  induction t with
  | nil => cases h
  | cons c t ih =>
    rw [Text.cutAt]
    split
    case isTrue => rfl
    case isFalse hc =>
      exact ih (List.mem_of_ne_of_mem (fun heq => hc (beq_iff_eq.mpr heq.symm)) h)

theorem prefix_unlines (t : Text) (ts : List Text) : t <+: Text.unlines (t :: ts) := by
  cases ts with
  | nil => exact List.prefix_refl t
  | cons next ts => exact (List.prefix_append t ['\n']).trans (List.prefix_append ..)

theorem words_ne_nil {c : Char} {word t : Text} (hc : isBlank c = false)
    (h : t.startsWith (c :: word) = true) : Text.words t ≠ [] := by
  obtain ⟨rest, rfl⟩ := List.isPrefixOf_iff_prefix.mp h
  rw [List.cons_append, Text.words, Text.words.go, if_neg (by simp [hc])]
  split <;> simp

end Heads

/-- What makes reading end on every source, with a result. -/
structure ReadingEnds : Prop where
  /-- A declaration ends on one of the lines that are there, so each round goes on behind it. -/
  top_le (inner : TypeKind → Module → List Line → Module × Members) (m : Module) (line : Line)
    (rest : List Line) : (readTop inner m line rest).2 ≤ rest.length
  /-- So does a member. -/
  member_le (inner : TypeKind → Module → List Line → Module × Members) (kind : TypeKind)
    (m : Module) (b : Members) (line : Line) (rest : List Line) :
    (readMember inner kind m b line rest).2.2 ≤ rest.length
  /-- The members of a type are read from lines that weigh less than those of the type. -/
  body_lt (line : Line) (rest : List Line)
    (opened : (captureBlock (line :: rest) 0).opened = true) :
    weight (bodyLines line rest (captureBlock (line :: rest) 0).last
        (captureBlock (line :: rest) 0).closed)
      < weight ((line :: rest).take ((captureBlock (line :: rest) 0).last + 1))
  /-- A type asks for nothing but members of lines that weigh less. -/
  type_congr (inner inner' : TypeKind → Module → List Line → Module × Members) (m : Module)
    (h : Match) (line : Line) (rest : List Line)
    (same : ∀ kind m lines,
      weight lines < weight ((line :: rest).take ((captureBlock (line :: rest) 0).last + 1)) →
        inner kind m lines = inner' kind m lines) :
    readType inner m h line rest = readType inner' m h line rest
  /-- So reading members satisfies its own equations, without a bound on the steps. -/
  members_nil (kind : TypeKind) (m : Module) (b : Members) : allMembers kind m b [] = (m, b)
  members_cons (kind : TypeKind) (m : Module) (b : Members) (line : Line) (rest : List Line) :
    allMembers kind m b (line :: rest) =
      let (m, b, last) := readMember (fun k m ls => allMembers k m {} ls) kind m b line rest
      allMembers kind m b (rest.drop last)
  /-- So does reading declarations, and that is how a source is read. -/
  lines_nil (m : Module) : allLines m [] = m
  lines_cons (m : Module) (line : Line) (rest : List Line) : allLines m (line :: rest) =
    let (m, last) := readTop (fun k m ls => allMembers k m {} ls) m line rest
    allLines m (rest.drop last)
  read_eq (source : Text) : read source = allLines { dialect := .swift } (significantLines source)
  /-- The head of a function is still one when it is joined, up to a parenthesis. -/
  func_head (line : Line) (rest : List Line) (fits : funcHead.fits line.text = true) :
    ∃ f, funcHead.match? (headFrom line rest).1 = some f ∧
      (headFrom line rest).1[f.stop - 1]? = some '('
  /-- So is the head of an initializer. -/
  init_head (line : Line) (rest : List Line) (fits : initHead.fits line.text = true) :
    ∃ f, initHead.match? (headFrom line rest).1 = some f ∧
      (headFrom line rest).1[f.stop - 1]? = some '('
  /-- The lines of a property with a value have an equals sign to cut them at. -/
  property_value (line : Line) (rest : List Line) (last : Nat) (f : Match)
    (fits : propertyHead.match? line.text = some f) (value : Text.trim (f.group 5) ≠ []) :
    (Text.cutAt '=' (Text.unlines (((line :: rest).take (last + 1)).map (·.text)))).2.isSome = true
  /-- A member that is skipped has a first word to name it by. -/
  skipped_word (t : Text)
    (skipped : t.startsWith "deinit" = true ∨ t.startsWith "subscript" = true) :
    Text.words t ≠ []

/-- Reading ends on every source, with a result. -/
theorem reading_ends : ReadingEnds where
  top_le inner _ _ _ := readTop_le inner
  member_le inner kind _ b _ _ := readMember_le inner kind b
  body_lt line rest opened :=
    weight_bodyLines_lt _ (captureBlock_last_le line rest) (captureBlock_opened opened)
  type_congr _ _ _ h _ _ same := readType_congr h same
  members_nil _ _ _ := allMembers_nil
  members_cons _ _ _ _ _ := allMembers_cons
  lines_nil _ := allLines_nil
  lines_cons _ _ _ := allLines_cons
  read_eq _ := rfl
  func_head _ _ fits := exists_match?_headFrom rfl fits
  init_head _ _ fits := exists_match?_headFrom rfl fits
  property_value line rest last f fits value := by
    refine isSome_cutAt (List.IsPrefix.subset ?_ (mem_of_match?_propertyHead fits value))
    rw [List.take_succ_cons, List.map_cons]
    exact prefix_unlines ..
  skipped_word t skipped := by
    have hd : isBlank 'd' = false := by decide
    have hs : isBlank 's' = false := by decide
    rcases skipped with h | h
    · have h : t.startsWith ('d' :: "einit".toList) = true := h
      exact words_ne_nil hd h
    · have h : t.startsWith ('s' :: "ubscript".toList) = true := h
      exact words_ne_nil hs h

end HostScript.Declaration.Swift
