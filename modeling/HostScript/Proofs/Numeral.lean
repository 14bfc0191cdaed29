import HostScript.Number.Reading
import HostScript.Text.WordChar
import Mathlib.Algebra.Group.Nat.Defs

/-!
# Decimal numerals

The numeral of a natural number consists of ASCII digits and is read back to the number it was
written for, as long as the number is below the power of ten that the digit limit gives.
-/

namespace HostScript

/-- A numeral has at least one digit. -/
theorem ofNat_ne_nil (n : Nat) : Text.ofNat n ≠ [] := Nat.toDigits_ne_nil

/-- A numeral holds nothing but the ten ASCII digits. -/
theorem isDigit_of_mem_ofNat {n : Nat} {c : Char} (h : c ∈ Text.ofNat n) : c.isDigit = true :=
  Nat.isDigit_of_mem_toDigits (by decide) (by decide) h

/-- The ten ASCII digits lie below the end of ASCII. -/
theorem toNat_lt_of_isDigit {c : Char} (h : c.isDigit = true) : c.toNat < 128 := by
  have hle : c.toNat ≤ 57 := by
    simp only [Char.isDigit, Bool.and_eq_true, decide_eq_true_eq] at h
    exact h.2
  omega

/-- An ASCII digit counts as a decimal digit. -/
theorem isDigit_of_char {c : Char} (h : c.isDigit = true) : isDigit c = true := by
  simp only [isDigit, toNat_lt_of_isDigit h, ite_true, h]

/-- An ASCII digit may be part of a name. -/
theorem isIdentPart_of_isDigit {c : Char} (h : c.isDigit = true) : isIdentPart c = true := by
  simp [isIdentPart, isWord, isAlnum, toNat_lt_of_isDigit h, Char.isAlphanum, h]

/-- The letters of the ASCII alphabet lie below the end of ASCII. -/
theorem toNat_lt_of_isAlpha {c : Char} (h : c.isAlpha = true) : c.toNat < 128 := by
  rcases Bool.or_eq_true_iff.mp h with h | h
  · have hle : c.val ≥ 65 ∧ c.val ≤ 90 := of_decide_eq_true h
    exact Nat.lt_of_le_of_lt hle.2 (by decide)
  · have hle : c.val ≤ 122 := of_decide_eq_true (Bool.and_eq_true_iff.mp h).2
    exact Nat.lt_of_le_of_lt hle (by decide)

/-- The letters of the ASCII alphabet are no digits. -/
theorem isDigit_of_isAlpha {c : Char} (h : c.isAlpha = true) : c.isDigit = false := by
  have hletter : 65 ≤ c.val.toNat := by
    rcases Bool.or_eq_true_iff.mp h with h | h
    · have hle : c.val ≥ 65 ∧ c.val ≤ 90 := of_decide_eq_true h
      exact hle.1
    · have hle : 97 ≤ c.val := of_decide_eq_true (Bool.and_eq_true_iff.mp h).1
      exact Nat.le_trans (by decide) hle
  refine Bool.eq_false_iff.mpr fun hdigit => ?_
  have hle : c.val ≤ 57 := of_decide_eq_true (Bool.and_eq_true_iff.mp hdigit).2
  have hle : c.val.toNat ≤ 57 := hle
  omega

/-- A character that may start a script identifier may be part of one. -/
theorem isIdentPart_of_isIdentStart {c : Char} (h : isIdentStart c = true) :
    isIdentPart c = true := by
  rw [isIdentStart, Bool.or_eq_true, Bool.or_eq_true] at h
  rcases h with (h | h) | h
  · simp [isIdentPart, isWord, isAlnum, toNat_lt_of_isAlpha h, Char.isAlphanum, h]
  · simp [isIdentPart, isWord, h]
  · simp [isIdentPart, h]

/-- The place value of an ASCII digit is its distance from zero. -/
theorem digitValue_of_char {c : Char} (h : c.isDigit = true) : digitValue c = c.toNat - 48 := by
  simp only [digitValue, toNat_lt_of_isDigit h, ite_true]

/-- Reading ASCII digits adds them up place by place. -/
theorem foldl_digitValue {ds : Text} (h : ∀ c ∈ ds, c.isDigit = true) (start : Nat) :
    ds.foldl (fun n c => 10 * n + digitValue c) start = Nat.ofDigitChars 10 ds start := by
  induction ds generalizing start with
  | nil => rfl
  | cons d ds ih =>
    have hd := digitValue_of_char (h d (List.mem_cons_self ..))
    rw [List.foldl_cons, Nat.ofDigitChars_cons, hd]
    exact ih (fun c hc => h c (List.mem_cons_of_mem _ hc)) _

/-- A numeral denotes the number that it was written for. -/
theorem ofDigits_ofNat (n : Nat) : Number.ofDigits (Text.ofNat n) = n := by
  rw [Number.ofDigits, foldl_digitValue (fun _ => isDigit_of_mem_ofNat)]
  exact Nat.ofDigitChars_ten_toDigits

/-- Two numbers with the same numeral are the same. -/
theorem ofNat_injective : Function.Injective Text.ofNat := by
  intro m n h
  rw [← ofDigits_ofNat m, h, ofDigits_ofNat]

/-- A numeral is read back unless its number passes the digit limit. -/
theorem readDigits_ofNat {n : Nat} (h : n < 10 ^ Number.digitLimit) :
    Number.readDigits (Text.ofNat n) = .ok n := by
  have hlen : ¬ Number.digitLimit < (Text.ofNat n).length := by
    have hpos : 0 < Number.digitLimit := by decide
    exact Nat.not_lt.mpr ((Nat.length_toDigits_le_iff (by decide) hpos).mpr h)
  rw [Number.readDigits, if_neg hlen, ofDigits_ofNat]

/-- Small numbers do not pass the digit limit. -/
theorem le_pow_digitLimit {n : Nat} (h : n ≤ 10 ^ 2) : n ≤ 10 ^ Number.digitLimit := by
  have hlimit : 2 ≤ Number.digitLimit := by decide
  exact Nat.le_trans h (Nat.pow_le_pow_right (by decide) hlimit)

/-- Reading digits from a numeral that something else follows gives exactly the numeral. -/
theorem takeWhile_isDigit_ofNat (n : Nat) {t : Text}
    (h : ∀ c, t.head? = some c → isDigit c = false) :
    (Text.ofNat n ++ t).takeWhile isDigit = Text.ofNat n := by
  have hall : ∀ c ∈ Text.ofNat n, isDigit c = true :=
    fun c hc => isDigit_of_char (isDigit_of_mem_ofNat hc)
  rw [List.takeWhile_append_of_pos hall]
  cases t with
  | nil => simp
  | cons c t => simp [h c rfl]

/-- The sign of a negative numeral is no digit. -/
theorem ofNat_ne_minus (m : Nat) (t : Text) : Text.ofNat m ≠ '-' :: t := by
  intro h
  have hminus : ('-' : Char).isDigit = true := isDigit_of_mem_ofNat (n := m) (by simp [h])
  revert hminus
  decide

/-- Different integers have different numerals. -/
theorem ofInt_injective : Function.Injective Text.ofInt := by
  intro a b h
  cases a with
  | ofNat m =>
    cases b with
    | ofNat n => exact congrArg Int.ofNat (ofNat_injective h)
    | negSucc n => exact absurd h (ofNat_ne_minus m _)
  | negSucc m =>
    cases b with
    | ofNat n => exact absurd h.symm (ofNat_ne_minus n _)
    | negSucc n =>
      have := ofNat_injective (List.cons.inj h).2
      rw [Nat.add_right_cancel this]

/-- No comma stands in a numeral. -/
theorem comma_notMem_ofInt (a : Int) : ',' ∉ Text.ofInt a := by
  have hnat (n : Nat) : ',' ∉ Text.ofNat n := by
    intro h
    have hcomma := isDigit_of_mem_ofNat h
    revert hcomma
    decide
  cases a with
  | ofNat n => exact hnat n
  | negSucc n => simpa [Text.ofInt] using hnat (n + 1)

/-- A numeral is read off up to the comma behind it. -/
theorem ofInt_append_comma_inj {a b : Int} {x y : Text} :
    Text.ofInt a ++ ',' :: x = Text.ofInt b ++ ',' :: y ↔ a = b ∧ x = y := by
  have hread (c : Int) (z : Text) :
      (Text.ofInt c ++ ',' :: z).takeWhile (· != ',') = Text.ofInt c := by
    rw [List.takeWhile_append_of_pos fun d hd => ?_, List.takeWhile_cons_of_neg (by simp),
      List.append_nil]
    rw [bne_iff_ne]
    rintro rfl
    exact comma_notMem_ofInt c hd
  constructor
  · intro h
    have hnum := congrArg (List.takeWhile (· != ',')) h
    rw [hread, hread] at hnum
    obtain rfl := ofInt_injective hnum
    exact ⟨rfl, (List.cons.inj (List.append_cancel_left h)).2⟩
  · rintro ⟨rfl, rfl⟩
    rfl

end HostScript
