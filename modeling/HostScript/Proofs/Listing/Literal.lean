import HostScript.Listing.Symbolic
import HostScript.Proofs.Numeral
import HostScript.Proofs.Outcome
import HostScript.Proofs.Pattern.Spelled

/-!
# The value of an integer literal

An integer is written with an optional sign, in decimal or, behind `0x`, in hexadecimal, and single
underscores may stand between its digits. Whatever its form, the literal that a listing's integer
becomes denotes the same integer.
-/

namespace HostScript.Listing

/-- The digits of a numeral without its underscores, each of which has to stand between two
digits. -/
def ungrouped? (digit : CharSet) : Text → Option Text
  | [] => none
  | [c] => if digit c then some [c] else none
  | c :: '_' :: rest => if digit c then (c :: ·) <$> ungrouped? digit rest else none
  | c :: rest => if digit c then (c :: ·) <$> ungrouped? digit rest else none

/-- The natural number that a numeral denotes. -/
def natural? : Text → Option Nat
  | '0' :: 'x' :: digits => basedValue 16 <$> ungrouped? isHexDigit digits
  | digits => basedValue 10 <$> ungrouped? Char.isDigit digits

/-- The integer that a literal denotes. -/
def integer? : Text → Option Int
  | '-' :: t => (fun n : Nat => -(n : Int)) <$> natural? t
  | '+' :: t => (fun n : Nat => (n : Int)) <$> natural? t
  | t => (fun n : Nat => (n : Int)) <$> natural? t

/-- Digits without underscores stay as they are. -/
theorem ungrouped?_of_all {digit : CharSet} (hbar : digit '_' = false) {t : Text} (hne : t ≠ [])
    (h : ∀ c ∈ t, digit c = true) : ungrouped? digit t = some t := by
  fun_induction ungrouped? digit t with
  | case1 => exact absurd rfl hne
  | case2 c hc => rfl
  | case3 c hc => exact absurd (h c (by simp)) hc
  | case4 c rest hc ih =>
    have := h '_' (by simp)
    rw [hbar] at this
    cases this
  | case5 c rest hc => exact absurd (h c (by simp)) hc
  | case6 c rest hnil hbar' hc ih =>
    have hrest : rest ≠ [] := hnil
    rw [ih hrest fun d hd => h d (List.mem_cons_of_mem _ hd)]
    rfl
  | case7 c rest hnil hbar' hc => exact absurd (h c (by simp)) hc

/-- A numeral consists of its digits and of underscores. -/
theorem of_ungrouped?_eq_some {digit : CharSet} {t ds : Text} (h : ungrouped? digit t = some ds) :
    (∀ c ∈ t, digit c = true ∨ c = '_') ∧ ('_' ∉ t → ds = t ∧ ∀ c ∈ t, digit c = true) := by
  fun_induction ungrouped? digit t generalizing ds with
  | case1 => cases h
  | case2 c hc =>
    obtain rfl := Option.some.inj h
    exact ⟨by simp [hc], fun _ => ⟨rfl, by simp [hc]⟩⟩
  | case3 c hc => cases h
  | case4 c rest hc ih =>
    obtain ⟨es, hes, rfl⟩ := Option.map_eq_some_iff.mp h
    refine ⟨fun d hd => ?_, fun hbar => absurd (by simp) hbar⟩
    rcases List.mem_cons.mp hd with rfl | hd
    · exact Or.inl hc
    · rcases List.mem_cons.mp hd with rfl | hd
      · exact Or.inr rfl
      · exact (ih hes).1 d hd
  | case5 c rest hc => cases h
  | case6 c rest hnil hbar' hc ih =>
    obtain ⟨es, hes, rfl⟩ := Option.map_eq_some_iff.mp h
    refine ⟨fun d hd => ?_, fun hbar => ?_⟩
    · rcases List.mem_cons.mp hd with rfl | hd
      · exact Or.inl hc
      · exact (ih hes).1 d hd
    · obtain ⟨rfl, hall⟩ := (ih hes).2 fun hmem => hbar (List.mem_cons_of_mem _ hmem)
      exact ⟨rfl, fun d hd => by
        rcases List.mem_cons.mp hd with rfl | hd
        · exact hc
        · exact hall d hd⟩
  | case7 c rest hnil hbar' hc => cases h

/-- The visible characters of ASCII are not blank. -/
theorem isBlank_eq_false_of_toNat {c : Char} (hlow : 33 ≤ c.toNat) (hhigh : c.toNat < 127) :
    isBlank c = false := by
  have hrest : ¬ 133 ≤ c.toNat := by omega
  have h9 : 9 ≤ c.toNat := by omega
  have h14 : 14 ≤ c.toNat := by omega
  have h28 : 28 ≤ c.toNat := by omega
  simp [isBlank, flipsAt, blankFlips, List.takeWhile, hlow, hrest, h9, h14, h28]

/-- A hexadecimal digit is a visible character of ASCII. -/
theorem isBlank_eq_false_of_isHexDigit {c : Char} (h : isHexDigit c = true) :
    isBlank c = false := by
  simp only [isHexDigit, Char.isDigit, Bool.or_eq_true, Bool.and_eq_true, decide_eq_true_eq,
    Char.le_def, UInt32.le_iff_toNat_le] at h
  have hnat : c.val.toNat = c.toNat := rfl
  have h0 : ('0' : Char).val.toNat = 48 := rfl
  have h9 : ('9' : Char).val.toNat = 57 := rfl
  have ha : ('a' : Char).val.toNat = 97 := rfl
  have hf : ('f' : Char).val.toNat = 102 := rfl
  have hA : ('A' : Char).val.toNat = 65 := rfl
  have hF : ('F' : Char).val.toNat = 70 := rfl
  apply isBlank_eq_false_of_toNat
  · omega
  · omega

/-- A numeral has no blanks. -/
theorem isBlank_of_natural?_eq_some {t : Text} {n : Nat} (h : natural? t = some n) :
    ∀ c ∈ t, isBlank c = false := by
  have hdigits {digit : CharSet} (hhex : ∀ c, digit c = true → isHexDigit c = true) {u ds : Text}
      (hu : ungrouped? digit u = some ds) : ∀ c ∈ u, isBlank c = false := by
    intro c hc
    rcases (of_ungrouped?_eq_some hu).1 c hc with hd | rfl
    · exact isBlank_eq_false_of_isHexDigit (hhex c hd)
    · decide
  unfold natural? at h
  split at h
  · rename_i digits
    obtain ⟨ds, hds, -⟩ := Option.map_eq_some_iff.mp h
    intro c hc
    rcases List.mem_cons.mp hc with rfl | hc
    · decide
    · rcases List.mem_cons.mp hc with rfl | hc
      · decide
      · exact hdigits (fun _ hd => hd) hds c hc
  · obtain ⟨ds, hds, -⟩ := Option.map_eq_some_iff.mp h
    exact hdigits (fun c hd => by simp [isHexDigit, hd]) hds

/-- An integer has no blanks. -/
theorem isBlank_of_integer?_eq_some {t : Text} {n : Int} (h : integer? t = some n) :
    ∀ c ∈ t, isBlank c = false := by
  unfold integer? at h
  split at h
  · obtain ⟨k, hk, -⟩ := Option.map_eq_some_iff.mp h
    intro c hc
    rcases List.mem_cons.mp hc with rfl | hc
    · decide
    · exact isBlank_of_natural?_eq_some hk c hc
  · obtain ⟨k, hk, -⟩ := Option.map_eq_some_iff.mp h
    intro c hc
    rcases List.mem_cons.mp hc with rfl | hc
    · decide
    · exact isBlank_of_natural?_eq_some hk c hc
  · obtain ⟨k, hk, -⟩ := Option.map_eq_some_iff.mp h
    exact isBlank_of_natural?_eq_some hk

/-- A text without blanks has none at its ends. -/
theorem trim_eq_self {t : Text} (h : ∀ c ∈ t, isBlank c = false) : t.trim = t := by
  have hdrop {u : Text} (hu : ∀ c ∈ u, isBlank c = false) : u.dropWhile isBlank = u := by
    cases u with
    | nil => rfl
    | cons c u => rw [List.dropWhile_cons_of_neg (by simp [hu c (List.mem_cons_self ..)])]
  rw [Text.trim, Text.trimOf, Text.trimStartOf, hdrop h, Text.trimEndOf,
    hdrop fun c hc => h c (List.mem_reverse.mp hc), List.reverse_reverse]

/-- The value of decimal digits is the number that they denote. -/
theorem basedValue_ten {ds : Text} (h : ∀ c ∈ ds, c.isDigit = true) :
    basedValue 10 ds = Number.ofDigits ds := by
  have hfold (start : Nat) : ds.foldl (fun n c => 10 * n + basedDigit c) start =
      ds.foldl (fun n c => 10 * n + digitValue c) start := by
    apply List.foldl_ext
    intro n c hc
    rw [digitValue_of_char (h c hc), basedDigit, if_pos (h c hc)]
  exact hfold 0

/-- Decimal digits without a sign. -/
theorem natural?_digits {ds : Text} (hne : ds ≠ []) (h : ∀ c ∈ ds, c.isDigit = true) :
    natural? ds = some (Number.ofDigits ds) := by
  unfold natural?
  split
  · have hx : Char.isDigit 'x' = true := h 'x' (by simp)
    cases hx
  · rw [ungrouped?_of_all (by decide) hne h, ← basedValue_ten h]
    rfl

/-- The numeral of a number denotes it. -/
theorem natural?_ofNat (n : Nat) : natural? (Text.ofNat n) = some n := by
  rw [natural?_digits (ofNat_ne_nil n) fun c => isDigit_of_mem_ofNat, ofDigits_ofNat]

/-- The numeral of an integer denotes it. -/
theorem integer?_ofInt (n : Int) : integer? (Text.ofInt n) = some n := by
  cases n with
  | ofNat m =>
    unfold integer?
    split
    · rename_i t heq
      exact absurd heq (ofNat_ne_minus m t)
    · rename_i t heq
      have hmem : '+' ∈ Text.ofInt (Int.ofNat m) := by
        rw [heq]
        exact List.mem_cons_self ..
      have hplus : Char.isDigit '+' = true := isDigit_of_mem_ofNat hmem
      cases hplus
    · change _ <$> natural? (Text.ofNat m) = _
      rw [natural?_ofNat]
      rfl
  | negSucc m =>
    change (fun n : Nat => -(n : Int)) <$> natural? (Text.ofNat (m + 1)) = _
    rw [natural?_ofNat]
    rfl

/-- A hexadecimal literal denotes its number. -/
theorem integer?_of_hexLiteral {t : Text} (h : hexLiteral.fitsAll t = true) :
    integer? t = some (hexNumber t) := by
  obtain ⟨gs, ht⟩ := Pattern.spells_of_fitsAll h
  cases ht with
  | @seq _ _ start digits _ _ hstart hdigits =>
    obtain ⟨hlen, hhex, -⟩ := hdigits.of_rounds_one
    have hne : digits ≠ [] := List.ne_nil_of_length_pos hlen
    have hvalue : ungrouped? isHexDigit digits = some digits :=
      ungrouped?_of_all (by decide) hne hhex
    cases hstart with
    | @seq _ _ sign mark _ _ hsign hmark =>
      obtain ⟨rfl, -⟩ := hmark.eq_of_text
      rcases hsign.of_opt with ⟨rfl, -⟩ | hminus
      · change (fun n : Nat => (n : Int)) <$> basedValue 16 <$> ungrouped? isHexDigit digits = _
        rw [hvalue]
        rfl
      · obtain ⟨rfl, -⟩ := hminus.eq_of_text
        change (fun n : Nat => -(n : Int)) <$> basedValue 16 <$> ungrouped? isHexDigit digits = _
        rw [hvalue]
        rfl

/-- Decimal digits that denote a number are read as that number, unless there are too many. -/
theorem readDigits_eq_of_natural? {ds : Text} {n m : Nat} (hdigit : ∀ c ∈ ds, isDigit c = true)
    (hn : natural? ds = some n) (hm : Number.readDigits ds = .ok m) : m = n := by
  have hascii : n = Number.ofDigits ds := by
    unfold natural? at hn
    split at hn
    · have hx : isDigit 'x' = true := hdigit 'x' (by simp)
      cases hx
    · obtain ⟨es, hes, rfl⟩ := Option.map_eq_some_iff.mp hn
      have hbar : '_' ∉ ds := fun hmem => by cases hdigit '_' hmem
      obtain ⟨rfl, hall⟩ := (of_ungrouped?_eq_some hes).2 hbar
      exact basedValue_ten hall
  rw [Number.readDigits] at hm
  split at hm
  · cases hm
  · rw [hascii]
    exact (Except.ok.inj hm).symm

/-- A decimal literal that denotes an integer is read as that integer, unless it is too long. -/
theorem readSigned_eq_of_integer? {t : Text} {n m : Int} (h : decimalLiteral.fitsAll t = true)
    (hn : integer? t = some n) (hm : Number.readSigned t = .ok m) : m = n := by
  obtain ⟨gs, ht⟩ := Pattern.spells_of_fitsAll h
  cases ht with
  | @seq _ _ sign digits _ _ hsign hdigits =>
    obtain ⟨-, hall, -⟩ := hdigits.of_rounds_one
    rcases hsign.of_opt with ⟨rfl, -⟩ | hminus
    · have hne (c : Char) (hc : isDigit c = false) (u : Text) : digits ≠ c :: u := by
        rintro rfl
        have := hall c (List.mem_cons_self ..)
        rw [hc] at this
        cases this
      rw [List.nil_append] at hn hm
      unfold integer? at hn
      unfold Number.readSigned at hm
      split at hn
      · exact absurd rfl (hne '-' (by decide) _)
      · exact absurd rfl (hne '+' (by decide) _)
      · split at hm
        · exact absurd rfl (hne '-' (by decide) _)
        · obtain ⟨k, hk, rfl⟩ := Option.map_eq_some_iff.mp hn
          obtain ⟨j, hj, rfl⟩ := Outcome.map_eq_ok_iff.mp hm
          rw [readDigits_eq_of_natural? hall hk hj]
    · obtain ⟨rfl, -⟩ := hminus.eq_of_text
      obtain ⟨k, hk, rfl⟩ := Option.map_eq_some_iff.mp hn
      obtain ⟨j, hj, rfl⟩ := Outcome.map_eq_ok_iff.mp hm
      rw [readDigits_eq_of_natural? hall hk hj]

/-- An integer that is written is its numeral. -/
theorem eq_of_writeInt_eq_ok {n : Int} {u : Text} (h : Number.writeInt n = .ok u) :
    u = Text.ofInt n := by
  rw [Number.writeInt] at h
  split at h
  · cases h
  · exact (Except.ok.inj h).symm

/-- The literal that an integer becomes denotes that integer. -/
theorem integer?_literal {t : Text} {n : Int} (h : integer? t = some n) :
    integer? (literal t) = some n := by
  have htrim : t.trim = t := trim_eq_self (isBlank_of_integer?_eq_some h)
  simp only [literal, htrim]
  split
  · rename_i u hu
    split at hu
    · rename_i hhex
      rw [eq_of_writeInt_eq_ok hu, integer?_ofInt, ← h, integer?_of_hexLiteral hhex]
    · split at hu
      · rename_i hdec
        obtain ⟨m, hm, hu⟩ := Outcome.bind_eq_ok_iff.mp hu
        rw [eq_of_writeInt_eq_ok hu, integer?_ofInt, readSigned_eq_of_integer? hdec h hm]
      · obtain rfl := Except.ok.inj hu
        exact h
  · exact h

end HostScript.Listing
