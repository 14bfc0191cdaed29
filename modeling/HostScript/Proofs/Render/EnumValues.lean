import HostScript.Proofs.Body.Numeral
import HostScript.Proofs.Listing.Literal
import HostScript.Render.Free

/-!
# The integers of an enumeration

The cases of an enumeration of integers are numbered from zero, or on from the literal of an earlier
case. Only decimal literals are counted on from: behind a hexadecimal literal, or one with groups of
digits, a case gets the number that it would have had without that literal.
-/

namespace HostScript

open Listing Body

/-! ## What a literal consists of -/

/-- A hexadecimal digit is one of the characters of literals. -/
theorem mem_numeralChars_of_isHexDigit {c : Char} (h : isHexDigit c = true) : c ∈ numeralChars := by
  have hlow : c.toNat < 128 := by
    simp only [isHexDigit, Char.isDigit, Bool.or_eq_true, Bool.and_eq_true, decide_eq_true_eq,
      Char.le_def, UInt32.le_iff_toNat_le] at h
    have hnat : c.val.toNat = c.toNat := rfl
    have h9 : ('9' : Char).val.toNat = 57 := rfl
    have hf : ('f' : Char).val.toNat = 102 := rfl
    have hF : ('F' : Char).val.toNat = 70 := rfl
    omega
  have hall : ∀ n < 128, isHexDigit (Char.ofNat n) = true → Char.ofNat n ∈ numeralChars := by
    decide
  rw [← Char.ofNat_toNat c] at h ⊢
  exact hall _ hlow h

variable {t : Text} {n : Int}

/-- A numeral ends in a digit. -/
theorem getLast?_of_ungrouped? {digit : CharSet} {ds : Text} (h : ungrouped? digit t = some ds) :
    t.getLast?.any digit = true := by
  fun_induction ungrouped? digit t generalizing ds with
  | case1 => cases h
  | case2 c hc => simpa using hc
  | case3 c hc => cases h
  | case4 c rest hc ih =>
    obtain ⟨es, hes, -⟩ := Option.map_eq_some_iff.mp h
    have hlast := ih hes
    cases rest with
    | nil => cases hlast
    | cons d rest => simpa using hlast
  | case5 c rest hc => cases h
  | case6 c rest hnil hbar hc ih =>
    obtain ⟨es, hes, -⟩ := Option.map_eq_some_iff.mp h
    have hlast := ih hes
    cases rest with
    | nil => cases hlast
    | cons d rest => simpa using hlast
  | case7 c rest hnil hbar hc => cases h

/-- A natural number is written with the characters of literals and ends in a digit. -/
theorem of_natural?_eq_some {k : Nat} (h : natural? t = some k) :
    (∀ c ∈ t, c ∈ groupedChars) ∧ t.getLast?.any isHexDigit = true := by
  have hdigits {digit : CharSet} (hhex : ∀ c, digit c = true → isHexDigit c = true) {u ds : Text}
      (hu : ungrouped? digit u = some ds) :
      (∀ c ∈ u, c ∈ groupedChars) ∧ u.getLast?.any isHexDigit = true := by
    refine ⟨fun c hc => ?_, ?_⟩
    · rcases (of_ungrouped?_eq_some hu).1 c hc with hd | rfl
      · exact List.mem_cons_of_mem _ (mem_numeralChars_of_isHexDigit (hhex c hd))
      · exact List.mem_cons_self ..
    · obtain ⟨c, hc, hd⟩ := (Option.any_eq_true _ _).mp (getLast?_of_ungrouped? hu)
      rw [hc]
      exact hhex c hd
  unfold natural? at h
  split at h
  · rename_i digits
    obtain ⟨ds, hds, -⟩ := Option.map_eq_some_iff.mp h
    obtain ⟨hall, hlast⟩ := hdigits (fun _ hd => hd) hds
    refine ⟨List.forall_mem_cons.mpr ⟨by decide, List.forall_mem_cons.mpr ⟨by decide, hall⟩⟩, ?_⟩
    cases digits with
    | nil => cases hlast
    | cons d digits => simpa using hlast
  · obtain ⟨ds, hds, -⟩ := Option.map_eq_some_iff.mp h
    exact hdigits (fun c hd => by simp [isHexDigit, hd]) hds

/-- A sign may stand before it. -/
theorem exists_natural? (h : integer? t = some n) : ∃ sign body k, t = sign ++ body ∧
    natural? body = some k ∧ (sign = ['-'] ∧ n = -(k : Int) ∨
      (sign = [] ∨ sign = ['+']) ∧ n = k) := by
  unfold integer? at h
  split at h
  · obtain ⟨k, hk, rfl⟩ := Option.map_eq_some_iff.mp h
    exact ⟨['-'], _, k, rfl, hk, .inl ⟨rfl, rfl⟩⟩
  · obtain ⟨k, hk, rfl⟩ := Option.map_eq_some_iff.mp h
    exact ⟨['+'], _, k, rfl, hk, .inr ⟨.inr rfl, rfl⟩⟩
  · obtain ⟨k, hk, rfl⟩ := Option.map_eq_some_iff.mp h
    exact ⟨[], _, k, rfl, hk, .inr ⟨.inl rfl, rfl⟩⟩

/-- An integer is written with the characters of literals and ends in a digit. -/
theorem of_integer?_eq_some (h : integer? t = some n) :
    (∀ c ∈ t, c ∈ groupedChars) ∧ t.getLast?.any isHexDigit = true := by
  obtain ⟨sign, body, k, rfl, hk, hsign⟩ := exists_natural? h
  obtain ⟨hall, hlast⟩ := of_natural?_eq_some hk
  have hchars : ∀ c ∈ sign, c ∈ groupedChars := by
    rcases hsign with ⟨rfl, -⟩ | ⟨rfl | rfl, -⟩ <;> decide
  refine ⟨List.forall_mem_append.mpr ⟨hchars, hall⟩, ?_⟩
  obtain ⟨c, hc, hd⟩ := (Option.any_eq_true _ _).mp hlast
  rw [List.getLast?_append, hc]
  exact hd

/-- A literal that shows a base, groups of digits or a plus sign. -/
def IsMarked (t : Text) : Prop := ∃ c ∈ t, c ∈ ['x', '_', '+']

instance (t : Text) : Decidable (IsMarked t) := List.decidableBEx (· ∈ ['x', '_', '+']) t

/-- Any other literal is decimal digits behind an optional minus sign. -/
theorem exists_digits (h : integer? t = some n) (hplain : ¬ IsMarked t) :
    ∃ ds, ds ≠ [] ∧ (∀ c ∈ ds, c.isDigit = true) ∧
      (t = '-' :: ds ∧ n = -(Number.ofDigits ds : Int) ∨ t = ds ∧ n = Number.ofDigits ds) := by
  have hout {c : Char} (hc : c ∈ ['x', '_', '+']) : c ∉ t := fun hmem => hplain ⟨c, hmem, hc⟩
  obtain ⟨sign, body, k, rfl, hk, hsign⟩ := exists_natural? h
  have hbody : ∃ ds, ungrouped? Char.isDigit body = some ds ∧ basedValue 10 ds = k := by
    unfold natural? at hk
    split at hk
    · exact absurd (List.mem_append_right sign (by simp)) (hout (c := 'x') (by decide))
    · exact Option.map_eq_some_iff.mp hk
  obtain ⟨ds, hds, rfl⟩ := hbody
  obtain ⟨rfl, hall⟩ := (of_ungrouped?_eq_some hds).2
    fun hmem => hout (by decide) (List.mem_append_right sign hmem)
  have hne : ds ≠ [] := by
    rintro rfl
    cases hds
  rw [basedValue_ten hall] at hsign
  refine ⟨ds, hne, hall, ?_⟩
  rcases hsign with ⟨rfl, rfl⟩ | ⟨rfl | rfl, rfl⟩
  · exact .inl ⟨rfl, rfl⟩
  · exact .inr ⟨rfl, rfl⟩
  · exact absurd (by simp) (hout (c := '+') (by decide))

/-- Decimal digits denote a number below the power of ten that they are many. -/
theorem ofDigits_lt {ds : Text} (h : ∀ c ∈ ds, c.isDigit = true) :
    Number.ofDigits ds < 10 ^ ds.length := by
  induction ds using List.reverseRecOn with
  | nil => decide
  | append_singleton ds c ih =>
    rw [List.forall_mem_append] at h
    have hc := h.2 c (List.mem_singleton_self c)
    have hle : c.toNat ≤ 57 := by
      simp only [Char.isDigit, Bool.and_eq_true, decide_eq_true_eq] at hc
      exact hc.2
    have hvalue : digitValue c ≤ 9 := by
      rw [digitValue_of_char hc]
      omega
    have hsum : Number.ofDigits (ds ++ [c]) = 10 * Number.ofDigits ds + digitValue c := by
      simp [Number.ofDigits]
    have := ih h.1
    rw [hsum, List.length_append, List.length_singleton, pow_succ]
    omega

namespace Render

open Declaration Pattern

/-! ## The numbers of cases -/

/-- A literal is counted on from unless it is marked. -/
theorem fitsAll_integerLiteral (h : integer? t = some n) :
    integerLiteral.fitsAll t = !decide (IsMarked t) := by
  by_cases hmarked : IsMarked t
  · rw [decide_eq_true hmarked, Bool.not_true, Bool.eq_false_iff]
    intro hfits
    obtain ⟨c, hc, hmark⟩ := hmarked
    obtain ⟨gs, hx⟩ := spells_of_fitsAll hfits
    obtain ⟨sign, ds, _, _, rfl, -, hsign, hds⟩ := spells_append_iff.mp hx
    obtain ⟨-, hall, -⟩ := hds.of_rounds_one
    have hnone : ∀ c ∈ ['x', '_', '+'], isDigit c = false ∧ c ≠ '-' := by decide
    obtain ⟨hdigit, hminus⟩ := hnone c hmark
    rcases List.mem_append.mp hc with hc | hc
    · rcases hsign.of_opt with ⟨rfl, -⟩ | hsign
      · cases hc
      · obtain ⟨rfl, -⟩ := spells_lit_iff.mp hsign
        exact hminus (List.mem_singleton.mp hc)
    · rw [hall c hc] at hdigit
      cases hdigit
  · rw [decide_eq_false hmarked, Bool.not_false]
    obtain ⟨ds, hne, hall, hsign⟩ := exists_digits h hmarked
    have hdigits : digit.plus.Takes ds [] noGroups :=
      takes_plus hne (fun c hc => isDigit_of_char (hall c hc)) rfl
    rcases hsign with ⟨rfl, -⟩ | ⟨rfl, -⟩
    · have hsign : (lit "-").opt.Takes ['-'] (ds ++ []) noGroups :=
        Takes.opt (takes_text ['-'] _) (List.cons_ne_nil _ _)
      exact Takes.fitsAll (Takes.append hsign hdigits)
    · have hminus : (t ++ []).head? ≠ some '-' := by
        rw [List.append_nil]
        intro hhead
        have := hall '-' (List.mem_of_mem_head? hhead)
        cases this
      have hsign : (lit "-").opt.Takes [] (t ++ []) noGroups :=
        takes_opt_nil (refuses_text hminus [])
      exact Takes.fitsAll (Takes.append hsign hdigits)

/-- A case without a value, or with an integer literal of the dialect. -/
def IsIntCase (dialect : Dialect) (c : EnumCase) : Prop :=
  c.rawValue = [] ∨ (integer? c.rawValue).isSome ∧ (dialect = .swift ∨ '_' ∉ c.rawValue)

/-- The number that is next after a case, from the number that was next before it. -/
def nextAfter (next : Int) (c : EnumCase) : Int :=
  if c.rawValue = [] then next + 1
  else if IsMarked c.rawValue then next
  else (integer? c.rawValue).getD 0 + 1

/-- The number of a case without a value behind the given cases. -/
def upNext (cases : List EnumCase) : Int := cases.foldl nextAfter 0

/-- The text of a case's value. -/
def valueText (next : Int) (c : EnumCase) : Text :=
  if c.rawValue = [] then Text.ofInt next else c.rawValue

/-- The texts of the values of cases in order. -/
def valueTexts : (next : Int) → List EnumCase → List Text
  | _, [] => []
  | next, c :: rest => valueText next c :: valueTexts (nextAfter next c) rest

/-- An integer literal of the dialect is rendered as it is written. -/
theorem expression_literal (x : Context) {scope : Scope} (h : integer? t = some n)
    (hdialect : x.module.dialect = .swift ∨ '_' ∉ t) (hstatic : scope.isStatic = true) :
    x.expression scope t = .ok t := by
  obtain ⟨hchars, hlast⟩ := of_integer?_eq_some h
  have hblank := isBlank_of_integer?_eq_some h
  have hne : t ≠ [] := by
    rintro rfl
    cases hlast
  have hrephrased : ∃ tail, (tail = [] ∨ tail = [';']) ∧ x.rephrase scope t = .ok (t ++ tail) := by
    rw [Context.rephrase]
    split
    · exact ⟨_, .inr rfl, applyAll_swiftIdioms_grouped hchars hlast hstatic⟩
    · rename_i hd
      have hbar : '_' ∉ t := hdialect.resolve_left fun heq => hd (beq_iff_eq.mpr heq)
      refine ⟨[], .inl rfl, (applyAll_objcIdioms_numeral (fun c hc => ?_) hstatic).trans (by simp)⟩
      exact (List.mem_cons.mp (hchars c hc)).resolve_left fun heq => hbar (heq ▸ hc)
  obtain ⟨tail, htail, hrephrased⟩ := hrephrased
  have hsolid : (t ++ tail).trim = t ++ tail := by
    refine Listing.trim_eq_self (List.forall_mem_append.mpr ⟨hblank, ?_⟩)
    rcases htail with rfl | rfl <;> decide
  have hend : Text.trimEndOf (among ";") (t ++ tail) = t := by
    obtain ⟨u, c, rfl⟩ := (List.eq_nil_or_concat' t).resolve_left hne
    have hnone : ∀ d ∈ groupedChars, among ";" d = false := by decide
    have hc : among ";" c = false := hnone c (hchars c (by simp))
    have hsemi : among ";" ';' = true := by decide
    rcases htail with rfl | rfl <;> simp [Text.trimEndOf, hc, hsemi]
  rw [Context.expression, Listing.trim_eq_self hblank, if_neg (by simpa using hne), hrephrased]
  exact congrArg Except.ok ((congrArg _ hsolid).trans hend)

/-- An integer that does not pass the digit limit is written. -/
theorem writeInt_eq (h : n.natAbs < 10 ^ Number.digitLimit) :
    Number.writeInt n = .ok (Text.ofInt n) := by
  have hpos : 0 < Number.digitLimit := by decide
  have hlen : ¬ Number.digitLimit < (Text.ofNat n.natAbs).length :=
    Nat.not_lt.mpr ((Nat.length_toDigits_le_iff (by decide) hpos).mpr h)
  rw [Number.writeInt, if_neg hlen]

/-- A literal that is counted on from is read. -/
theorem readSigned_eq (h : integer? t = some n) (hplain : ¬ IsMarked t)
    (hlen : t.length ≤ Number.digitLimit) : Number.readSigned t = .ok n := by
  have hread {ds : Text} (hds : ds.length ≤ Number.digitLimit) :
      Number.readDigits ds = .ok (Number.ofDigits ds) := if_neg (Nat.not_lt.mpr hds)
  obtain ⟨ds, -, hall, ⟨rfl, rfl⟩ | ⟨rfl, rfl⟩⟩ := exists_digits h hplain
  · rw [Number.readSigned, hread (Nat.le_of_succ_le hlen)]
    rfl
  · unfold Number.readSigned
    split
    · have := hall '-' (List.mem_cons_self ..)
      cases this
    · rw [hread hlen]
      rfl

/-- Its number is below the power of ten that it is long. -/
theorem natAbs_lt (h : integer? t = some n) (hplain : ¬ IsMarked t) :
    n.natAbs < 10 ^ t.length := by
  obtain ⟨ds, -, hall, ⟨rfl, rfl⟩ | ⟨rfl, rfl⟩⟩ := exists_digits h hplain
  · rw [Int.natAbs_neg, Int.natAbs_natCast]
    exact (ofDigits_lt hall).trans (Nat.pow_lt_pow_right (by decide) (Nat.lt_succ_self _))
  · exact ofDigits_lt hall

variable {x : Context} {e : Enum} {c : EnumCase} {next : Int}

/-- One case: its text, and the number that is next. -/
theorem caseValue_eq (hraw : e.rawType = "Int".toList) (hc : IsIntCase x.module.dialect c)
    (hlen : c.rawValue.length ≤ Number.digitLimit) (hnext : next.natAbs < 10 ^ Number.digitLimit) :
    x.caseValue e next c = .ok (valueText next c, nextAfter next c) := by
  rcases hc with hnone | ⟨hint, hdialect⟩
  · have hamong : oneAmong ["Int", "UInt"] e.rawType = true := by
      rw [hraw]
      decide
    rw [Context.caseValue, valueText, nextAfter, hnone, writeInt_eq hnext, hamong]
    rfl
  · obtain ⟨n, hn⟩ := Option.isSome_iff_exists.mp hint
    have hne : c.rawValue ≠ [] := by
      intro hnil
      rw [hnil] at hn
      cases hn
    have hempty : c.rawValue.isEmpty = false := by simpa using hne
    rw [Context.caseValue, valueText, nextAfter, if_neg hne, if_neg hne, hempty,
      expression_literal x hn hdialect rfl, hn]
    simp only [Bool.not_false, if_true, bind, Except.bind, fitsAll_integerLiteral hn]
    by_cases hmarked : IsMarked c.rawValue
    · simp [hmarked]
      rfl
    · simp [hmarked, readSigned_eq hn hmarked hlen]
      rfl

/-- All cases, as long as no number passes the digit limit. -/
theorem caseValues_eq (hraw : e.rawType = "Int".toList) {cases : List EnumCase}
    (hcases : ∀ c ∈ cases, IsIntCase x.module.dialect c)
    (hlen : ∀ c ∈ cases, c.rawValue.length < Number.digitLimit)
    (hcount : cases.length ≤ 10 ^ (Number.digitLimit - 1))
    (hnext : next.natAbs + cases.length ≤ 10 ^ Number.digitLimit) :
    x.caseValues e next cases = .ok (valueTexts next cases) := by
  induction cases generalizing next with
  | nil => rfl
  | cons c cases ih =>
    rw [List.forall_mem_cons] at hcases hlen
    rw [List.length_cons] at hcount hnext
    have hrest : (nextAfter next c).natAbs + cases.length ≤ 10 ^ Number.digitLimit := by
      rw [nextAfter]
      split
      · omega
      · split
        · omega
        · rename_i hne hplain
          obtain ⟨n, hn⟩ := Option.isSome_iff_exists.mp (hcases.1.resolve_left hne).1
          have hbound := natAbs_lt hn hplain
          have hpow : 10 ^ c.rawValue.length ≤ 10 ^ (Number.digitLimit - 1) :=
            Nat.pow_le_pow_right (by decide) (Nat.le_sub_one_of_lt hlen.1)
          have hlimit := Nat.pow_pred_mul (x := 10) (show 0 < Number.digitLimit by decide)
          rw [hn, Option.getD_some, ← hlimit]
          omega
    have hfirst : x.caseValue e next c = .ok (valueText next c, nextAfter next c) :=
      caseValue_eq hraw hcases.1 hlen.1.le (by omega)
    rw [Context.caseValues, hfirst]
    simp only [bind, Except.bind, ih hcases.2 hlen.2 (by omega) hrest]
    rfl

theorem getElem?_valueTexts (cases : List EnumCase) (next : Int) (i : Nat) :
    (valueTexts next cases)[i]? =
      cases[i]?.map (valueText ((cases.take i).foldl nextAfter next)) := by
  induction cases generalizing next i with
  | nil => rfl
  | cons c cases ih =>
    cases i with
    | zero => rfl
    | succ i => exact ih (nextAfter next c) i

/-- The integer that one of several texts denotes. -/
def valueAt (texts : List Text) (i : Nat) : Option Int := texts[i]?.bind integer?

/-- Each case without a value has the number behind that of the case before it, and zero if it is
the first. -/
def IsNumbered (cases : List EnumCase) (texts : List Text) : Prop :=
  ∀ i c, cases[i]? = some c → c.rawValue = [] → valueAt texts i =
    match i with
    | 0 => some 0
    | j + 1 => (valueAt texts j).map (· + 1)

/-- What is counted is the number of a case, unless its literal is marked. -/
theorem upNext_succ {cases : List EnumCase} {i : Nat} (hi : cases[i]? = some c) :
    upNext (cases.take (i + 1)) = nextAfter (upNext (cases.take i)) c := by
  rw [upNext, List.take_add_one, hi, Option.toList_some, List.foldl_concat]
  rfl

/-- The cases are numbered on exactly where no case without a value stands behind a marked literal
that denotes another number than the one before what was counted. -/
theorem isNumbered_iff {cases : List EnumCase} {dialect : Dialect}
    (hcases : ∀ c ∈ cases, IsIntCase dialect c) :
    IsNumbered cases (valueTexts 0 cases) ↔ ∀ i c d, cases[i]? = some c → cases[i + 1]? = some d →
      IsMarked c.rawValue → d.rawValue = [] →
        integer? c.rawValue = some (upNext (cases.take i) - 1) := by
  have hvalue {i : Nat} {c : EnumCase} (hi : cases[i]? = some c) :
      valueAt (valueTexts 0 cases) i =
        if c.rawValue = [] then some (upNext (cases.take i)) else integer? c.rawValue := by
    rw [valueAt, getElem?_valueTexts, hi, Option.map_some, Option.bind_some, valueText]
    split
    · exact integer?_ofInt _
    · rfl
  have hbehind {i : Nat} {c d : EnumCase} (hi : cases[i]? = some c) (hd : cases[i + 1]? = some d)
      (hnone : d.rawValue = []) :
      valueAt (valueTexts 0 cases) (i + 1) = (valueAt (valueTexts 0 cases) i).map (· + 1) ↔
        (IsMarked c.rawValue → integer? c.rawValue = some (upNext (cases.take i) - 1)) := by
    rw [hvalue hi, hvalue hd, if_pos hnone, upNext_succ hi, nextAfter]
    split
    · rename_i hnil
      simp [IsMarked, hnil]
    · rename_i hne
      obtain ⟨n, hn⟩ := Option.isSome_iff_exists.mp
        ((hcases c (List.mem_of_getElem? hi)).resolve_left hne).1
      rw [hn]
      split
      · rename_i hmarked
        simp only [hmarked, Option.map_some, Option.some.injEq, true_imp_iff]
        omega
      · rename_i hplain
        simp [hplain]
  constructor
  · intro h i c d hi hd hmarked hnone
    exact (hbehind hi hd hnone).mp (h (i + 1) d hd hnone) hmarked
  · intro h i d hd hnone
    cases i with
    | zero =>
      rw [hvalue hd, if_pos hnone]
      rfl
    | succ i =>
      have hlt : i < cases.length :=
        Nat.lt_of_succ_lt (List.getElem?_eq_some_iff.mp hd).1
      have hi := List.getElem?_eq_getElem hlt
      exact (hbehind hi hd hnone).mpr fun hmarked => h i _ d hi hd hmarked hnone

/-! ## The rendered enumeration -/

/-- Each entry stands on a line of its own, with a comma behind it. -/
theorem lines_entries {indent : Text} (hindent : '\n' ∉ indent) {entries : List Text}
    (hne : entries ≠ []) (hentries : ∀ t ∈ entries, '\n' ∉ t) (rest : Text) :
    Text.lines (Text.unlines ((Text.join ",\n" entries).lines.map fun (l : Text) => indent ++ l)
        ++ ",\n" ++ rest) =
      (entries.map fun t => indent ++ t ++ ",") ++ rest.lines := by
  induction entries with
  | nil => exact absurd rfl hne
  | cons t entries ih =>
    rw [List.forall_mem_cons] at hentries
    have hline : '\n' ∉ indent ++ t ++ "," := by
      simp [hindent, hentries.1]
    rcases eq_or_ne entries [] with rfl | hmore
    · have hsplit : indent ++ t ++ ",\n" ++ rest = (indent ++ t ++ ",") ++ '\n' :: rest := by simp
      rw [Text.join, Text.lines_eq_singleton hentries.1, List.map_singleton, Text.unlines,
        Text.join, hsplit, Text.lines_append_break hline]
      rfl
    · have hcomma : '\n' ∉ t ++ "," := by simp [hentries.1]
      have hjoin : t ++ (",\n" ++ Text.join ",\n" entries) =
          (t ++ ",") ++ '\n' :: Text.join ",\n" entries := by simp
      have hlines : (Text.join ",\n" entries).lines.map (fun (l : Text) => indent ++ l) ≠ [] := by
        simpa using Text.lines_ne_nil _
      have hsplit (u : Text) : indent ++ (t ++ ",") ++ '\n' :: u ++ ",\n" ++ rest =
          (indent ++ t ++ ",") ++ '\n' :: (u ++ ",\n" ++ rest) := by simp
      rw [Text.join_cons _ t hmore, hjoin, Text.lines_append_break hcomma, List.map_cons,
        Text.unlines_cons _ hlines, hsplit, Text.lines_append_break hline, ih hmore hentries.2]
      rfl

/-- An enumeration of integers whose names stand on one line each. -/
structure CountsInts (x : Context) (e : Enum) : Prop where
  raw : e.rawType = "Int".toList
  cases : ∀ c ∈ e.cases, IsIntCase x.module.dialect c
  /-- No number of a case passes the digit limit. -/
  short : ∀ c ∈ e.cases, c.rawValue.length < Number.digitLimit
  few : e.cases.length ≤ 10 ^ (Number.digitLimit - 1)
  indent : '\n' ∉ x.options.indent
  name : '\n' ∉ e.name
  caseNames : ∀ c ∈ e.cases, '\n' ∉ c.name

/-- No text of a case's value goes over the end of a line. -/
theorem break_notMem_valueText {dialect : Dialect} (hc : IsIntCase dialect c) (next : Int) :
    '\n' ∉ valueText next c := by
  have hint {t : Text} {n : Int} (h : integer? t = some n) : '\n' ∉ t :=
    notMem_of_grouped (of_integer?_eq_some h).1 (by decide)
  rw [valueText]
  split
  · exact hint (integer?_ofInt next)
  · rename_i hne
    obtain ⟨n, hn⟩ := Option.isSome_iff_exists.mp (hc.resolve_left hne).1
    exact hint hn

theorem break_notMem_valueTexts {dialect : Dialect} {cases : List EnumCase}
    (hcases : ∀ c ∈ cases, IsIntCase dialect c) : ∀ t ∈ valueTexts next cases, '\n' ∉ t := by
  induction cases generalizing next with
  | nil => exact List.forall_mem_nil _
  | cons c cases ih =>
    rw [List.forall_mem_cons] at hcases
    exact List.forall_mem_cons.mpr ⟨break_notMem_valueText hcases.1 next, ih hcases.2⟩

/-- An enumeration of integers is rendered with a line for each case and one that lists all values
in the order of the cases. A case with a literal has that literal, and a case without one has the
number that is counted on from the last case before it with no literal or an unmarked one. So the
cases are numbered on exactly where each marked literal that such a case follows denotes the number
before that one. -/
theorem enum_isNumbered_iff (h : CountsInts x e) {methods : List Text}
    (hmethods : (e.methods.filter (!·.isDeclaration)).mapM (x.enumMethod e) = .ok methods) :
    ∃ texts out rest, x.enum e = .ok out ∧
      out.lines = ("const " ++ e.name ++ " = \x7b") ::
        ((e.cases.zip texts).map (fun (c, v) => x.options.indent ++ (c.name ++ ": " ++ v) ++ ",") ++
          (x.options.indent ++ ("allCases: [" ++ Text.join ", " texts ++ "]") ++ ",") :: rest) ∧
      (∀ i, texts[i]? = e.cases[i]?.map fun c =>
        if c.rawValue = [] then Text.ofInt (upNext (e.cases.take i)) else c.rawValue) ∧
      (IsNumbered e.cases texts ↔ ∀ i c d, e.cases[i]? = some c → e.cases[i + 1]? = some d →
        IsMarked c.rawValue → d.rawValue = [] →
          integer? c.rawValue = some (upNext (e.cases.take i) - 1)) := by
  obtain ⟨texts, htexts⟩ : ∃ texts, valueTexts 0 e.cases = texts := ⟨_, rfl⟩
  have hvalues : x.caseValues e 0 e.cases = .ok texts := by
    rw [← htexts]
    refine caseValues_eq h.raw h.cases h.short h.few ?_
    have hlimit := Nat.pow_le_pow_right (n := 10) (by decide)
      (show Number.digitLimit - 1 ≤ Number.digitLimit from Nat.sub_le _ _)
    rw [Int.natAbs_zero, Nat.zero_add]
    exact h.few.trans hlimit
  have hbreaks : ∀ t ∈ texts, '\n' ∉ t := htexts ▸ break_notMem_valueTexts h.cases
  have hindexed (i : Nat) : texts[i]? = e.cases[i]?.map fun c =>
      if c.rawValue = [] then Text.ofInt (upNext (e.cases.take i)) else c.rawValue :=
    htexts ▸ getElem?_valueTexts e.cases 0 i
  have hlisted : '\n' ∉ "allCases: [" ++ Text.join ", " texts ++ "]" := by
    have hjoined : '\n' ∉ Text.join ", " texts := by
      intro hmem
      rcases Text.mem_of_mem_join hmem with hsep | ⟨t, ht, hin⟩
      · exact absurd hsep (by decide)
      · exact hbreaks t ht hin
    simpa using hjoined
  have hentries : ∀ t ∈ ((e.cases.zip texts).map fun (c, v) => c.name ++ ": " ++ v) ++
      ["allCases: [" ++ Text.join ", " texts ++ "]"], '\n' ∉ t := by
    refine List.forall_mem_append.mpr ⟨fun t ht => ?_, List.forall_mem_singleton.mpr hlisted⟩
    obtain ⟨⟨c, v⟩, hcv, rfl⟩ := List.mem_map.mp ht
    obtain ⟨hc, hv⟩ := List.of_mem_zip hcv
    simp [h.caseNames c hc, hbreaks v hv]
  have hhead : '\n' ∉ "const " ++ e.name ++ " = \x7b" := by simp [h.name]
  have hout : x.enum e = .ok (("const " ++ e.name ++ " = \x7b") ++ '\n' ::
      (Text.unlines ((Text.join ",\n"
        (((e.cases.zip texts).map fun (c, v) => c.name ++ ": " ++ v) ++
          ["allCases: [" ++ Text.join ", " texts ++ "]"])).lines.map
            fun (l : Text) => x.options.indent ++ l) ++ ",\n" ++
        (Text.join ",\n" (x.fromRawValue :: methods) ++ "\n\x7d;"))) := by
    rw [Context.enum, hvalues]
    simp only [bind, Except.bind, hmethods]
    exact congrArg Except.ok (by simp)
  refine ⟨texts, _, (Text.join ",\n" (x.fromRawValue :: methods) ++ "\n\x7d;").lines, hout, ?_,
    hindexed, ?_⟩
  case refine_2 =>
    subst htexts
    exact isNumbered_iff h.cases
  rw [Text.lines_append_break hhead, lines_entries h.indent
    (List.append_ne_nil_of_right_ne_nil _ (List.cons_ne_nil _ _)) hentries, List.map_append,
    List.map_map, List.map_singleton]
  exact congrArg (_ :: ·) (List.append_assoc _ _ _)

/-- A module of no declarations. -/
def emptySwift : Context := ⟨{ dialect := .swift }, {}⟩

/-- Cases at the start, behind a decimal literal and behind a hexadecimal one that happens to be the
number that was due. -/
def directions : Enum :=
  { name := "Direction", rawType := "Int"
    cases := [⟨"north", []⟩, ⟨"south", []⟩, ⟨"east", "-7"⟩, ⟨"west", []⟩, ⟨"up", "-0x6"⟩,
      ⟨"down", []⟩, ⟨"away", "1_000"⟩] }

theorem countsInts_directions : CountsInts emptySwift directions where
  raw := rfl
  cases := by
    have hcase : ∀ c ∈ directions.cases, c.rawValue = [] ∨ (integer? c.rawValue).isSome := by decide
    exact fun c hc => (hcase c hc).imp_right fun hint => ⟨hint, .inl rfl⟩
  short := by decide
  few := by decide +kernel
  indent := by decide
  name := by decide
  caseNames := by decide

theorem enum_isNumbered_iff_directions :
    CountsInts emptySwift directions ∧
    (directions.methods.filter (!·.isDeclaration)).mapM (emptySwift.enumMethod directions) =
      .ok [] ∧
    ∃ texts out rest, texts = (["0", "1", "-7", "-6", "-0x6", "-5", "1_000"] : List Text) ∧
      emptySwift.enum directions = .ok out ∧
      out.lines = (["const Direction = \x7b", "  north: 0,", "  south: 1,", "  east: -7,",
        "  west: -6,", "  up: -0x6,", "  down: -5,", "  away: 1_000,",
        "  allCases: [0, 1, -7, -6, -0x6, -5, 1_000],"] : List Text) ++ rest ∧
      IsNumbered directions.cases texts := by
  have hmethods : (directions.methods.filter (!·.isDeclaration)).mapM
      (emptySwift.enumMethod directions) = .ok [] := rfl
  obtain ⟨texts, out, rest, hout, hlines, htexts, hnumbered⟩ :=
    enum_isNumbered_iff countsInts_directions hmethods
  obtain rfl : texts = (["0", "1", "-7", "-6", "-0x6", "-5", "1_000"] : List Text) := by
    refine List.ext_getElem? fun i => (htexts i).trans ?_
    rcases i with _ | _ | _ | _ | _ | _ | _ | i
    case succ.succ.succ.succ.succ.succ.succ => rfl
    all_goals decide
  have hmarked : ∀ i < 7, ∀ c ∈ directions.cases[i]?, ∀ d ∈ directions.cases[i + 1]?,
      IsMarked c.rawValue → d.rawValue = [] →
        integer? c.rawValue = some (upNext (directions.cases.take i) - 1) := by decide +kernel
  refine ⟨countsInts_directions, hmethods, _, out, rest, rfl, hout, hlines,
    hnumbered.mpr fun i c d hc hd => hmarked i ?_ c hc d hd⟩
  exact (List.getElem?_eq_some_iff.mp hc).1

/-- Two cases, the first of them with a hexadecimal literal. -/
def hexFirst : Enum :=
  { name := "E", rawType := "Int", cases := [⟨"a", "0x10"⟩, ⟨"b", []⟩] }

/-- Behind a hexadecimal literal the cases start again with zero. -/
theorem enum_isNumbered_iff_fails_hexFirst :
    emptySwift.enum hexFirst = .ok (("const E = \x7b\n  a: 0x10,\n  b: 0,\n" ++
      "  allCases: [0x10, 0],\n  fromRawValue(value) \x7b\n" ++
      "    return this.allCases.indexOf(value) === -1 ? null : value;\n  \x7d\n\x7d;" : Text)) ∧
    ¬ IsNumbered hexFirst.cases ["0x10", "0"] := by
  have henum : (emptySwift.enum hexFirst).toOption = some
      ("const E = \x7b\n  a: 0x10,\n  b: 0,\n" ++
      "  allCases: [0x10, 0],\n  fromRawValue(value) \x7b\n" ++
      "    return this.allCases.indexOf(value) === -1 ? null : value;\n  \x7d\n\x7d;" : Text) := by
    refine Eq.trans ?_ (congrArg some (congrArg₂ List.append (Text.toList_append_toList_eq rfl rfl)
      (Text.toList_eq rfl)).symm)
    decide +kernel
  refine ⟨Outcome.toOption_eq_some_iff.mp henum, fun h => ?_⟩
  have hb : valueAt ["0x10", "0"] 1 = (valueAt ["0x10", "0"] 0).map (· + 1) :=
    h 1 ⟨"b", []⟩ rfl rfl
  revert hb
  decide

end Render

end HostScript
