import HostScript.Proofs.Script.Mark
import HostScript.Proofs.Text
import Mathlib.Data.Bool.AllAny
import Mathlib.Order.Basic

/-!
# Scripts without idle white space

White space is never part of a mark, so filling in the marks of a text is filling them in on both
sides of each white space character. Squeezing runs of spaces, trimming lines and leaving out empty
ones removes such characters only, and never all that stand between two others.
-/

namespace HostScript.Script

/-- A mark is read within the stretch of characters of marks. -/
theorem Mark.read?_append_cons {c : Char} (hc : isMarkPart c = false) (x y : Text) :
    read? (x ++ c :: y) = read? x := by
  have hstretch : (x ++ c :: y).takeWhile isMarkPart = x.takeWhile isMarkPart := by
    induction x with
    | nil => exact List.takeWhile_cons_of_neg (by simp [hc])
    | cons d x ih => rw [List.cons_append, List.takeWhile_cons, List.takeWhile_cons, ih]
  rw [← read?_takeWhile, hstretch, read?_takeWhile]

/-- A mark ends within the text it is read from. -/
theorem Mark.length_le_of_read? {t : Text} {m : Mark} (h : read? t = some m) :
    m.length ≤ t.length := by
  obtain ⟨hm, hpre⟩ := of_read?_eq_some h
  exact hm.length ▸ hpre.length_le

namespace Masked

variable {spans : List Text} {dropComments : Bool}

/-- A character that no mark holds splits the text that is filled in. -/
theorem fillAll_append_cons {c : Char} (hc : isMarkPart c = false) {skip : Nat} {x : Text}
    (hskip : skip ≤ x.length) (y : Text) :
    fillAll spans dropComments skip (x ++ c :: y) =
      fillAll spans dropComments skip x >>= fun before =>
        (before ++ c :: ·) <$> fillAll spans dropComments 0 y := by
  induction x generalizing skip with
  | nil =>
    obtain rfl : skip = 0 := Nat.le_zero.mp hskip
    rw [List.nil_append, fillAll.eq_3, Mark.read?_cons_eq_none hc, fillAll.eq_1]
    rfl
  | cons d x ih =>
    cases skip with
    | succ skip => exact ih (Nat.le_of_succ_le_succ hskip)
    | zero =>
      have hread : Mark.read? (d :: (x ++ c :: y)) = Mark.read? (d :: x) :=
        Mark.read?_append_cons hc (d :: x) y
      rw [List.cons_append, fillAll, fillAll, hread]
      cases hmark : Mark.read? (d :: x) with
      | none =>
        dsimp only
        rw [ih (Nat.zero_le _)]
        cases fillAll spans dropComments 0 x with
        | error e => rfl
        | ok a => cases fillAll spans dropComments 0 y <;> rfl
      | some m =>
        have hlength : m.length - 1 ≤ x.length := by
          have := Mark.length_le_of_read? hmark
          rw [List.length_cons] at this
          omega
        dsimp only
        rw [ih hlength]
        cases fill spans dropComments m with
        | error e => rfl
        | ok span =>
          cases fillAll spans dropComments (m.length - 1) x with
          | error e => rfl
          | ok a =>
            cases fillAll spans dropComments 0 y with
            | error e => rfl
            | ok b => exact congrArg Except.ok (List.append_assoc ..).symm

/-- Filling in the marks of a text succeeds on both sides of such a character. -/
theorem fillAll_append_cons_eq_ok {c : Char} (hc : isMarkPart c = false) {x y r : Text} :
    fillAll spans dropComments 0 (x ++ c :: y) = .ok r ↔
      ∃ a b, fillAll spans dropComments 0 x = .ok a ∧ fillAll spans dropComments 0 y = .ok b ∧
        r = a ++ c :: b := by
  rw [fillAll_append_cons hc (Nat.zero_le _)]
  cases fillAll spans dropComments 0 x with
  | error e => exact ⟨nofun, nofun⟩
  | ok a =>
    cases fillAll spans dropComments 0 y with
    | error e => exact ⟨nofun, nofun⟩
    | ok b =>
      constructor
      · intro h
        exact ⟨a, b, rfl, rfl, (Except.ok.inj h).symm⟩
      · rintro ⟨a', b', ha, hb, rfl⟩
        rw [← Except.ok.inj ha, ← Except.ok.inj hb]
        rfl

end Masked

/-- Where the one text can be filled in, the other can, and does not become longer. -/
def FillsShorter (spans : List Text) (t u : Text) : Prop :=
  ∀ a, Masked.fillAll spans false 0 t = .ok a →
    ∃ b, Masked.fillAll spans false 0 u = .ok b ∧ b.length ≤ a.length

namespace FillsShorter

variable {spans : List Text} {c d : Char} {t u v x x' y y' : Text}

theorem refl (t : Text) : FillsShorter spans t t := fun a h => ⟨a, h, Nat.le_refl _⟩

theorem trans (h : FillsShorter spans t u) (h' : FillsShorter spans u v) :
    FillsShorter spans t v := by
  intro a ha
  obtain ⟨b, hb, hle⟩ := h a ha
  obtain ⟨e, he, hle'⟩ := h' b hb
  exact ⟨e, he, hle'.trans hle⟩

theorem nil (t : Text) : FillsShorter spans t [] := fun _ _ => ⟨[], rfl, Nat.zero_le _⟩

/-- Both sides of a character that no mark holds may become shorter, and the character may be
exchanged for another one. -/
theorem append_cons (hc : isMarkPart c = false) (hd : isMarkPart d = false)
    (hx : FillsShorter spans x x') (hy : FillsShorter spans y y') :
    FillsShorter spans (x ++ c :: y) (x' ++ d :: y') := by
  intro r hr
  obtain ⟨a, b, ha, hb, rfl⟩ := (Masked.fillAll_append_cons_eq_ok hc).mp hr
  obtain ⟨a', ha', hlea⟩ := hx a ha
  obtain ⟨b', hb', hleb⟩ := hy b hb
  refine ⟨_, (Masked.fillAll_append_cons_eq_ok hd).mpr ⟨a', b', ha', hb', rfl⟩, ?_⟩
  simp only [List.length_append, List.length_cons]
  omega

/-- What stands behind such a character may be all that is left. -/
theorem drop_left (hc : isMarkPart c = false) (x y : Text) :
    FillsShorter spans (x ++ c :: y) y := by
  intro r hr
  obtain ⟨a, b, -, hb, rfl⟩ := (Masked.fillAll_append_cons_eq_ok hc).mp hr
  refine ⟨b, hb, ?_⟩
  rw [List.length_append, List.length_cons]
  omega

/-- So may what stands before it. -/
theorem drop_right (hc : isMarkPart c = false) (x y : Text) :
    FillsShorter spans (x ++ c :: y) x := by
  intro r hr
  obtain ⟨a, b, ha, -, rfl⟩ := (Masked.fillAll_append_cons_eq_ok hc).mp hr
  refine ⟨a, ha, ?_⟩
  rw [List.length_append]
  omega

end FillsShorter

/-! ### What collapsing removes -/

section Collapse

variable {spans : List Text}

/-- The code points of white space. -/
def blankPoints : List Nat :=
  [9, 10, 11, 12, 13, 28, 29, 30, 31, 32, 133, 160, 5760, 8192, 8193, 8194, 8195, 8196, 8197, 8198,
    8199, 8200, 8201, 8202, 8232, 8233, 8239, 8287, 12288]

theorem flipsAt_nil (n : Nat) : flipsAt [] n = false := rfl

/-- Two points at which a set changes bound an interval that belongs to it. -/
theorem flipsAt_cons_cons (a b : Nat) (points : List Nat) (n : Nat) :
    flipsAt (a :: b :: points) n = (decide (a ≤ n) && (decide (n < b) || flipsAt points n)) := by
  by_cases ha : a ≤ n
  · by_cases hb : b ≤ n
    · simp only [flipsAt, List.takeWhile_cons, ha, hb, decide_true, if_true, List.length_cons,
        Nat.add_assoc, Nat.reduceAdd, Nat.add_mod_right, Nat.not_lt.mpr hb, decide_false,
        Bool.true_and, Bool.false_or]
    · simp [flipsAt, ha, hb, Nat.lt_of_not_le hb]
  · simp [flipsAt, ha]

theorem toNat_mem_of_isBlank {c : Char} (h : isBlank c = true) : c.toNat ∈ blankPoints := by
  simp only [isBlank, blankFlips, flipsAt_cons_cons, flipsAt_nil, Bool.and_eq_true,
    Bool.or_eq_true, decide_eq_true_eq, Bool.false_eq_true, or_false] at h
  simp only [blankPoints, List.mem_cons, List.not_mem_nil, or_false]
  omega

/-- White space is no part of a word. -/
theorem isWord_of_isBlank {c : Char} (h : isBlank c = true) : isWord c = false := by
  have hpoints : ∀ n ∈ blankPoints, isWord (Char.ofNat n) = false := by decide +kernel
  have hc := hpoints c.toNat (toNat_mem_of_isBlank h)
  rwa [Char.ofNat_toNat] at hc

/-- A character of a word is no white space. -/
theorem isBlank_of_isWord {c : Char} (h : isWord c = true) : isBlank c = false := by
  cases hblank : isBlank c with
  | false => rfl
  | true =>
    rw [isWord_of_isBlank hblank] at h
    cases h

/-- White space is no part of a name. -/
theorem isIdentPart_of_isBlank {c : Char} (h : isBlank c = true) : isIdentPart c = false := by
  rw [isIdentPart, isWord_of_isBlank h, Bool.false_or, beq_eq_false_iff_ne]
  rintro rfl
  revert h
  decide

/-- A character of a name is no white space. -/
theorem isBlank_of_isIdentPart {c : Char} (h : isIdentPart c = true) : isBlank c = false := by
  cases hblank : isBlank c with
  | false => rfl
  | true =>
    rw [isIdentPart_of_isBlank hblank] at h
    cases h

/-- White space is no digit. -/
theorem isDigit_of_isBlank {c : Char} (h : isBlank c = true) : isDigit c = false := by
  have hdigits : ∀ n ∈ blankPoints, flipsAt decimalFlips n = false ∧ ¬ (48 ≤ n ∧ n ≤ 57) := by
    decide
  obtain ⟨hdecimal, hascii⟩ := hdigits _ (toNat_mem_of_isBlank h)
  rw [isDigit]
  split
  · rw [Char.isDigit, Bool.and_eq_false_iff, decide_eq_false_iff_not, decide_eq_false_iff_not]
    by_contra hboth
    rw [not_or, not_not, not_not] at hboth
    exact hascii hboth
  · exact hdecimal

/-- White space is never part of a mark. -/
theorem isMarkPart_of_isBlank {c : Char} (h : isBlank c = true) : isMarkPart c = false := by
  have hmem := toNat_mem_of_isBlank h
  have hnames : ∀ d ∈ "_JSLITCOMP\x03\x04".toList, d.toNat ∉ blankPoints :=
    List.all_iff_forall_prop.mp (by decide)
  have hname : among "_JSLITCOMP\x03\x04" c = false := by
    rw [among, List.contains_eq_mem, decide_eq_false_iff_not]
    exact fun hc => hnames c hc hmem
  change (isDigit c || among "_JSLITCOMP\x03\x04" c) = false
  rw [isDigit_of_isBlank h, hname, Bool.false_or]

/-- Runs of spaces and tabs may be squeezed, wherever they stand. -/
theorem fillsShorter_squeeze (x t : Text) : FillsShorter spans (x ++ t) (x ++ squeeze t) := by
  have hspace : isMarkPart ' ' = false := by decide
  have htab : isMarkPart '\t' = false := by decide
  induction t generalizing x with
  | nil => exact .refl _
  | cons c t ih =>
    rw [squeeze]
    split
    case isTrue hc =>
      have hc : isMarkPart c = false := by
        rw [Bool.or_eq_true, beq_iff_eq, beq_iff_eq] at hc
        rcases hc with rfl | rfl
        · exact hspace
        · exact htab
      have ht : FillsShorter spans t (squeeze t) := ih []
      split
      case h_1 tail hsqueeze =>
        rw [hsqueeze] at ht
        exact .append_cons hc hspace (.refl x) (ht.trans (.drop_left hspace [] tail))
      case h_2 => exact .append_cons hc hspace (.refl x) ht
    case isFalse =>
      have h := ih (x ++ [c])
      rwa [List.append_assoc, List.append_assoc] at h

/-- Blanks may go at the start and at the end of a text. -/
theorem fillsShorter_trim (t : Text) : FillsShorter spans t t.trim := by
  have hstart (t : Text) : FillsShorter spans t (t.dropWhile isBlank) := by
    induction t with
    | nil => exact .refl []
    | cons c t ih =>
      rw [List.dropWhile_cons]
      split
      case isTrue hc => exact (FillsShorter.drop_left (isMarkPart_of_isBlank hc) [] t).trans ih
      case isFalse => exact .refl _
  have hend (t : Text) : FillsShorter spans t (Text.trimEndOf isBlank t) := by
    induction t using List.reverseRecOn with
    | nil => exact .refl []
    | append_singleton t c ih =>
      rw [Text.trimEndOf, List.reverse_append, List.reverse_singleton, List.singleton_append,
        List.dropWhile_cons]
      split
      case isTrue hc => exact (FillsShorter.drop_right (isMarkPart_of_isBlank hc) t []).trans ih
      case isFalse =>
        rw [List.reverse_cons, List.reverse_reverse]
        exact .refl _
  exact (hstart t).trans (hend _)

/-- Lines may become shorter, and lines of which nothing is left may go. -/
theorem fillsShorter_unlines {f : Text → Text} (hf : ∀ l, FillsShorter spans l (f l))
    (ls : List Text) :
    FillsShorter spans (Text.unlines ls) (Text.unlines ((ls.map f).filter (!·.isEmpty))) := by
  have hbreak : isMarkPart '\n' = false := by decide
  induction ls with
  | nil => exact .refl []
  | cons l ls ih =>
    rw [List.map_cons, List.filter_cons]
    generalize hkept : (ls.map f).filter (!·.isEmpty) = kept at ih ⊢
    cases ls with
    | nil =>
      obtain rfl : kept = [] := hkept.symm
      split
      · exact hf l
      · exact .nil _
    | cons next ls =>
      change FillsShorter spans (l ++ ['\n'] ++ Text.unlines (next :: ls)) _
      rw [List.append_assoc, List.singleton_append]
      split
      case isTrue =>
        cases kept with
        | nil => exact (FillsShorter.drop_right hbreak l _).trans (hf l)
        | cons k kept =>
          change FillsShorter spans _ (f l ++ ['\n'] ++ Text.unlines (k :: kept))
          rw [List.append_assoc, List.singleton_append]
          exact .append_cons hbreak hbreak (hf l) ih
      case isFalse => exact (FillsShorter.drop_left hbreak l _).trans ih

end Collapse

/-- Collapsing the white space of a script without marks gives a script that is not longer. -/
theorem exists_collapseWhitespace_eq {code : Text} (hu : Unmarked code)
    (hlen : code.length ≤ 10 ^ Number.digitLimit) :
    ∃ s, collapseWhitespace code = .ok s ∧ s.length ≤ code.length := by
  have hrestore := restore_mask (o := ⟨true, .hidden, false⟩) nofun hu hlen
  have hline (l : Text) : FillsShorter (mask ⟨true, .hidden, false⟩ code).spans l
      (squeeze l).trim :=
    (fillsShorter_squeeze [] l).trans (fillsShorter_trim _)
  have h := fillsShorter_unlines hline (mask ⟨true, .hidden, false⟩ code).text.lines
  rw [Text.unlines_lines] at h
  exact h code hrestore

end HostScript.Script
