import HostScript.Optimize.Folding
import HostScript.Proofs.Outcome
import HostScript.Proofs.Script.Reword

/-!
# Folding constants edits the gaps only

What is folded consists of digits, blanks, operators and parentheses, and so does what takes its
place. Folded stretches start at no place inside a name, so they are code, and their new texts
cannot make part of a mark. Folding has a result unless a remainder is taken of an infinite number.
-/

namespace HostScript.Optimize

open Outcome Pattern Script

/-- The characters of computed numbers. -/
def isNumeric : CharSet := isDigit ||| among "-."

/-- The characters of arithmetic on number literals. -/
def isArithmetic : CharSet := isDigit ||| isBlank ||| among "+-*/%.eE()"

theorem isArithmetic_of_isDigit {c : Char} (h : isDigit c = true) : isArithmetic c = true := by
  change ((isDigit c || isBlank c) || among "+-*/%.eE()" c) = true
  rw [h, Bool.true_or, Bool.true_or]

theorem isArithmetic_of_isBlank {c : Char} (h : isBlank c = true) : isArithmetic c = true := by
  change ((isDigit c || isBlank c) || among "+-*/%.eE()" c) = true
  rw [h, Bool.or_true, Bool.true_or]

theorem isArithmetic_of_among {s : String} (hs : s.toList.all isArithmetic = true) {c : Char}
    (h : among s c = true) : isArithmetic c = true :=
  List.all_eq_true.mp hs c (by simpa [among] using h)

theorem isArithmetic_of_isNumeric {c : Char} (h : isNumeric c = true) : isArithmetic c = true := by
  rcases Bool.or_eq_true_iff.mp h with h | h
  · exact isArithmetic_of_isDigit h
  · exact isArithmetic_of_among (by decide) h

/-- No mark can take a character of arithmetic for one of its opening. -/
theorem not_mem_of_isArithmetic {c : Char} (h : isArithmetic c = true) :
    c ∉ '\x03' :: markHead := by
  intro hc
  have hall : ('\x03' :: markHead).any isArithmetic = false := by decide
  exact List.any_eq_false.mp hall c hc h

theorem within_lit {s : String} (hs : s.toList.all isArithmetic = true) :
    (lit s).Within isArithmetic :=
  within_text (List.all_eq_true.mp hs)

theorem within_digit : digit.Within isArithmetic := fun _ => isArithmetic_of_isDigit

theorem within_blanks : blanks.Within isArithmetic := fun _ => isArithmetic_of_isBlank

theorem within_among {s : String} (hs : s.toList.all isArithmetic = true) :
    (oneOf (among s)).Within isArithmetic := fun _ => isArithmetic_of_among hs

/-- Number literals are made of characters of arithmetic. -/
theorem within_numberLiteral : numberLiteral.Within isArithmetic := by
  have hnonzero : (oneOf (between '1' '9')).Within isArithmetic := by
    intro c hc
    apply isArithmetic_of_isDigit
    have hle : ('0' : Char) ≤ '1' := by decide
    simp only [between, Bool.and_eq_true, decide_eq_true_eq] at hc
    apply isDigit_of_char
    simp only [Char.isDigit, Bool.and_eq_true, decide_eq_true_eq]
    exact ⟨Char.le_trans hle hc.1, hc.2⟩
  have hzero := within_lit (s := "0") (by decide)
  have hdot := within_lit (s := ".") (by decide)
  have hexp := within_among (s := "eE") (by decide)
  have hsign := within_among (s := "+-") (by decide)
  simp only [numberLiteral, within_append, within_orElse, within_star, within_plus, within_opt]
  exact ⟨⟨⟨⟨hzero, hnonzero, within_digit⟩, hdot, within_digit⟩, hdot, within_digit⟩,
    ⟨hexp, hsign⟩, within_digit⟩

/-- Runs of number literals are made of characters of arithmetic. -/
theorem within_literalRun : literalRun.Within isArithmetic := by
  have hoperator : operator.Within isArithmetic := within_among (by decide)
  simp only [literalRun, within_append, within_plus]
  exact ⟨⟨⟨within_notAfter _, within_numberLiteral⟩,
    ⟨⟨within_blanks, hoperator⟩, within_blanks⟩, within_numberLiteral⟩, within_notAhead _⟩

/-- The characters of decimals that are written without exponent and sign. -/
def isDecimal : CharSet := isDigit ||| among "."

theorem isDecimal_of_char {c : Char} (h : c.isDigit = true) : isDecimal c = true :=
  Bool.or_eq_true_iff.mpr (Or.inl (isDigit_of_char h))

theorem isNumeric_of_isDecimal {c : Char} (h : isDecimal c = true) : isNumeric c = true := by
  rcases Bool.or_eq_true_iff.mp h with h | h
  · exact Bool.or_eq_true_iff.mpr (Or.inl h)
  · obtain rfl : c = '.' := by simpa [among] using h
    decide

/-- A decimal that is written without exponent is made of digits and a point. -/
theorem isDecimal_of_mem_write {style : Number.NumberStyle} {d : Number.Decimal}
    (he : 'e' ∉ d.write style) : d.write style ≠ [] ∧ ∀ c ∈ d.write style, isDecimal c = true := by
  have hdigits : ∀ c ∈ Text.ofNat d.digits, isDecimal c = true := fun c hc =>
    isDecimal_of_char (isDigit_of_mem_ofNat hc)
  have hzeros (n : Nat) : ∀ c ∈ List.replicate n '0', isDecimal c = true := by
    intro c hc
    rw [(List.mem_replicate.mp hc).2]
    decide
  have hne := ofNat_ne_nil d.digits
  generalize hwrite : d.write style = t at he
  rw [Number.Decimal.write] at hwrite
  dsimp only at hwrite
  split at hwrite
  · rw [← hwrite] at he
    simp at he
  split at hwrite
  · have htail : ∀ c ∈ (if style.pointZero then ".0".toList else [] : Text),
        isDecimal c = true := by
      apply List.all_eq_true.mp
      cases style.pointZero <;> decide
    rw [← hwrite]
    exact ⟨by simp [hne],
      List.forall_mem_append.mpr ⟨List.forall_mem_append.mpr ⟨hdigits, hzeros _⟩, htail⟩⟩
  split at hwrite
  · rw [← hwrite]
    refine ⟨by simp, List.forall_mem_append.mpr ⟨?_, List.forall_mem_cons.mpr ⟨by decide, ?_⟩⟩⟩
    · exact fun c hc => hdigits c (List.mem_of_mem_take hc)
    · exact fun c hc => hdigits c (List.mem_of_mem_drop hc)
  · have hhead : ∀ c ∈ ("0.".toList : Text), isDecimal c = true :=
      List.all_eq_true.mp (by decide)
    rw [← hwrite]
    exact ⟨by simp,
      List.forall_mem_append.mpr ⟨List.forall_mem_append.mpr ⟨hhead, hzeros _⟩, hdigits⟩⟩

/-- Digits and points, with a minus sign before them or not. -/
def IsSignedDecimal (t : Text) : Prop :=
  ∃ body, body ≠ [] ∧ (∀ c ∈ body, isDecimal c = true) ∧ (t = body ∨ t = '-' :: body)

theorem IsSignedDecimal.isNumeric {t : Text} (h : IsSignedDecimal t) :
    t ≠ [] ∧ ∀ c ∈ t, isNumeric c = true := by
  obtain ⟨body, hne, hbody, rfl | rfl⟩ := h
  · exact ⟨hne, fun c hc => isNumeric_of_isDecimal (hbody c hc)⟩
  · exact ⟨List.cons_ne_nil _ _,
      List.forall_mem_cons.mpr ⟨by decide, fun c hc => isNumeric_of_isDecimal (hbody c hc)⟩⟩

/-- A finite number that is written without exponent is a decimal with a sign or without. -/
theorem isSignedDecimal_text {b : Number.Binary} (he : 'e' ∉ b.text) : IsSignedDecimal b.text := by
  have hbody {body : Text} (he : 'e' ∉ body)
      (h : body = if b.significand == 0 then "0.0".toList else b.shortest.write Number.plainStyle) :
      body ≠ [] ∧ ∀ c ∈ body, isDecimal c = true := by
    split at h
    · rw [h]
      exact ⟨by decide, List.all_eq_true.mp (by decide)⟩
    · rw [h] at he ⊢
      exact isDecimal_of_mem_write he
  rw [Number.Binary.text] at he ⊢
  cases hnegative : b.negative with
  | false =>
    rw [hnegative, if_neg Bool.false_ne_true] at he
    exact ⟨_, (hbody he rfl).1, (hbody he rfl).2, Or.inl (if_neg Bool.false_ne_true)⟩
  | true =>
    rw [hnegative, if_pos rfl] at he
    have he := fun hmem => he (List.mem_cons_of_mem _ hmem)
    exact ⟨_, (hbody he rfl).1, (hbody he rfl).2, Or.inr (if_pos rfl)⟩

/-- The text of a computed number is a decimal with a sign or without. -/
theorem isSignedDecimal_foldedText? {x : Number.Double} {t : Text} (h : foldedText? x = some t) :
    IsSignedDecimal t := by
  have hnat (k : Nat) : Text.ofNat k ≠ [] ∧ ∀ c ∈ Text.ofNat k, isDecimal c = true :=
    ⟨ofNat_ne_nil k, fun c hc => isDecimal_of_char (isDigit_of_mem_ofNat hc)⟩
  have hint (n : Int) : IsSignedDecimal (Text.ofInt n) := by
    cases n with
    | ofNat k => exact ⟨_, (hnat k).1, (hnat k).2, Or.inl rfl⟩
    | negSucc k => exact ⟨_, (hnat (k + 1)).1, (hnat (k + 1)).2, Or.inr rfl⟩
  cases x with
  | finite b =>
    rw [foldedText?] at h
    dsimp only at h
    split at h
    · obtain rfl := Option.some.inj h
      exact hint _
    · obtain ⟨he, h⟩ := Option.ite_none_left_eq_some.mp h
      obtain rfl := Option.some.inj h
      exact isSignedDecimal_text (by simpa using he)
  | infinite negative => cases h
  | undefined => cases h

/-- So it is made of digits, a point and a sign. -/
theorem isNumeric_of_foldedText? {x : Number.Double} {t : Text} (h : foldedText? x = some t) :
    t ≠ [] ∧ ∀ c ∈ t, isNumeric c = true := (isSignedDecimal_foldedText? h).isNumeric

/-- A text that takes the place of arithmetic: it is not empty unless the arithmetic is, and holds
characters of it and of computed numbers only. -/
structure FoldsTo (run v : Text) : Prop where
  ne_nil : run ≠ [] → v ≠ []
  mem : ∀ c ∈ v, c ∈ run ∨ isNumeric c = true

theorem FoldsTo.refl (run : Text) : FoldsTo run run := ⟨id, fun _ => Or.inl⟩

theorem FoldsTo.trans {a b c : Text} (h : FoldsTo a b) (h' : FoldsTo b c) : FoldsTo a c where
  ne_nil ha := h'.ne_nil (h.ne_nil ha)
  mem d hd := (h'.mem d hd).elim (h.mem d) Or.inr

/-- A computed number may take the place of any part of a run. -/
theorem FoldsTo.of_foldedText? {x : Number.Double} {new : Text} (h : foldedText? x = some new)
    (run : Text) (i j : Nat) : FoldsTo run (run.take i ++ new ++ run.drop j) := by
  obtain ⟨hne, hnumeric⟩ := isNumeric_of_foldedText? h
  refine ⟨fun _ => by simp [hne], List.forall_mem_append.mpr ⟨List.forall_mem_append.mpr ?_, ?_⟩⟩
  · exact ⟨fun c hc => Or.inl (List.mem_of_mem_take hc), fun c hc => Or.inr (hnumeric c hc)⟩
  · exact fun c hc => Or.inl (List.mem_of_mem_drop hc)

/-- Folding products takes one part of a run after the other. -/
theorem foldsTo_foldProducts {ctx : RunContext} {count index : Nat} {ps : List Product}
    {run v : Text} (h : foldProducts ctx count index ps run = .ok v) : FoldsTo run v := by
  induction ps generalizing index v with
  | nil =>
    obtain rfl := Except.ok.inj h
    exact .refl run
  | cons p rest ih =>
    rw [foldProducts] at h
    obtain ⟨run', hrun', h⟩ := Outcome.bind_eq_ok_iff.mp h
    have hfold := ih hrun'
    split at h
    · obtain rfl := Except.ok.inj h
      exact hfold
    · obtain ⟨value, -, h⟩ := Outcome.bind_eq_ok_iff.mp h
      split at h
      · obtain rfl := Except.ok.inj h
        exact hfold
      · rename_i new hnew
        obtain ⟨x, -, hx⟩ := Option.bind_eq_some_iff.mp hnew
        obtain rfl := Except.ok.inj h
        exact hfold.trans (.of_foldedText? hx run' _ _)

/-- So does folding a run. -/
theorem foldsTo_foldRun {ctx : RunContext} {run v : Text} (h : foldRun ctx run = .ok v) :
    FoldsTo run v := by
  rw [foldRun] at h
  obtain ⟨total, -, h⟩ := Outcome.bind_eq_ok_iff.mp h
  split at h
  · rename_i new hnew
    obtain ⟨x, -, hx⟩ := Option.bind_eq_some_iff.mp hnew
    obtain rfl := Except.ok.inj h
    have hwhole := FoldsTo.of_foldedText? hx run 0 run.length
    simpa using hwhole
  · exact foldsTo_foldProducts h

/-- Arithmetic swapped for what takes its place. -/
structure Folds (old new : Text) : Prop where
  isArithmetic : ∀ c ∈ old, isArithmetic c = true
  ne_nil : new ≠ []
  mem : ∀ c ∈ new, c ∈ old ∨ isNumeric c = true

namespace Folds

variable {old new : Text}

theorem isArithmetic_new (h : Folds old new) : ∀ c ∈ new, Optimize.isArithmetic c = true :=
  fun c hc => (h.mem c hc).elim (h.isArithmetic c) isArithmetic_of_isNumeric

/-- Arithmetic holds no underscore. -/
theorem underscore_not_mem (h : Folds old new) : '_' ∉ old :=
  fun hmem => absurd (h.isArithmetic _ hmem) (by decide)

/-- What takes the place of arithmetic makes no part of a mark. -/
theorem isInert (h : Folds old new) : IsInert new where
  ne_nil := h.ne_nil
  not_mem c hc := not_mem_of_isArithmetic (h.isArithmetic_new c hc)

end Folds

/-- A run of literals may be swapped for what takes its place. -/
theorem rewords_literalRun {t v : Text} {m : Match} (hm : m ∈ literalRun.allIn t)
    (hv : FoldsTo m.text v) : Rewords Folds m v := by
  obtain ⟨subject, -, -, k, e, hrun⟩ := (fitsFrom_allIn literalRun t).of_mem hm
  obtain ⟨gs, hspells, -⟩ := spells_of_mem_allIn hm
  have hfolds : Folds m.text v :=
    ⟨hspells.mem_of_within within_literalRun, hv.ne_nil (hspells.ne_nil rfl), hv.mem⟩
  refine Or.inr ⟨?_, m.text, v, [], by simp, by simp, hfolds⟩
  simp only [literalRun, run_seq] at hrun
  rw [Match.before, subject]
  exact apart_of_run_fresh hrun _

/-- One round of folding rewords arithmetic. -/
theorem reworded_foldOnce {t u : Text} (h : foldOnce t = .ok u) : Reworded Folds none t u :=
  reworded_of_replaceM (fun _ hm _ hv => rewords_literalRun hm (foldsTo_foldRun hv)) h

/-- A number in parentheses of its own may be swapped for the number. -/
theorem rewords_wrappedNumber {t : Text} {m : Match} (hm : m ∈ wrappedNumber.allIn t) :
    Rewords Folds m (m.group 1) := by
  obtain ⟨gs, hspells, hgroup⟩ := spells_of_mem_allIn hm
  have hopen := within_lit (s := "(") (by decide)
  have hclose := within_lit (s := ")") (by decide)
  have hwithin : wrappedNumber.Within isArithmetic := by
    simp only [wrappedNumber, within_append, within_cap]
    exact ⟨⟨⟨⟨hopen, within_blanks⟩, within_numberLiteral⟩, within_blanks⟩, hclose⟩
  have harith := hspells.mem_of_within hwithin
  obtain ⟨x, n, y, htext, hn, hnumber⟩ : ∃ x n y, m.text = '(' :: x ++ n ++ y ∧ n ≠ [] ∧
      m.group 1 = n := by
    have hparen : lit "(" = Pattern.text ['('] := rfl
    have hparen' : lit ")" = Pattern.text [')'] := rfl
    generalize m.text = t at hspells
    rw [wrappedNumber, hparen, hparen'] at hspells
    cases hspells with
    | seq hrest hend =>
      obtain ⟨rfl, rfl⟩ := hend.eq_of_text
      cases hrest with
      | seq hrest hafter =>
        obtain ⟨-, -, rfl⟩ := hafter.of_rounds_one
        cases hrest with
        | seq hrest hliteral =>
          cases hliteral with
          | group hliteral =>
            cases hrest with
            | seq hstart _ =>
              obtain ⟨rfl, rfl⟩ := hstart.eq_of_text
              refine ⟨_, _, _, by simp only [List.append_assoc]; rfl, hliteral.ne_nil rfl, ?_⟩
              rw [Match.group, hgroup]
              rfl
  have hfolds : Folds m.text (m.group 1) := by
    refine ⟨harith, hnumber ▸ hn, fun c hc => Or.inl ?_⟩
    rw [htext]
    exact List.mem_append_left _ (List.mem_append_right _ (hnumber ▸ hc))
  refine Or.inr ⟨?_, m.text, m.group 1, [], by simp, by simp, hfolds⟩
  rintro ⟨-, hafter⟩
  have hparen : isIdentPart '(' = false := by decide
  rw [htext] at hafter
  simp [hparen] at hafter

/-- Unwrapping numbers rewords arithmetic. -/
theorem reworded_unwrapNumbers (t : Text) : Reworded Folds none t (unwrapNumbers t) := by
  refine reworded_replace fun m hm => ?_
  dsimp only
  split
  · exact Or.inl rfl
  · exact rewords_wrappedNumber hm

/-- Two texts that differ in arithmetic only. -/
def SameButArithmetic (t u : Text) : Prop :=
  u.filter (outside isArithmetic) = t.filter (outside isArithmetic)

/-- Folding changes nothing but arithmetic. -/
theorem sameButArithmetic_of_rewrites {t u : Text} (h : Rewrites Folds t u) :
    SameButArithmetic t u := by
  have hnone {x : Text} (hx : ∀ c ∈ x, isArithmetic c = true) :
      x.filter (outside isArithmetic) = [] := by
    rw [List.filter_eq_nil_iff]
    intro c hc
    simp [outside, hx c hc]
  induction h with
  | nil => rfl
  | copy c _ ih =>
    rw [SameButArithmetic, List.filter_cons, List.filter_cons, ih]
  | swap h _ ih =>
    rw [SameButArithmetic, List.filter_append, List.filter_append, hnone h.isArithmetic,
      hnone h.isArithmetic_new, ih]

/-- One more rewording of arithmetic leaves the rest as it was. -/
theorem showsEdit_of_folds {code t u : Text} (h : ShowsEdit SameButArithmetic code t)
    (hu : Reworded Folds none t u) : ShowsEdit SameButArithmetic code u :=
  h.reword hu (fun _ _ => Folds.underscore_not_mem) (fun _ _ => Folds.isInert)
    fun _ _ _ hab hbc => (sameButArithmetic_of_rewrites hbc).trans hab

/-- Whatever the number of rounds, folding edits the gaps of the script that is shown. -/
theorem showsEdit_foldAll {code t u : Text} {fuel : Nat} (h : ShowsEdit SameButArithmetic code t)
    (hu : foldAll fuel t = .ok u) : ShowsEdit SameButArithmetic code u := by
  induction fuel generalizing t with
  | zero =>
    obtain rfl := Except.ok.inj hu
    exact h
  | succ fuel ih =>
    rw [foldAll] at hu
    obtain ⟨folded, hfolded, hu⟩ := Outcome.bind_eq_ok_iff.mp hu
    have hround := showsEdit_of_folds (showsEdit_of_folds h (reworded_foldOnce hfolded))
      (reworded_unwrapNumbers folded)
    dsimp only at hu
    split at hu
    · obtain rfl := Except.ok.inj hu
      exact h
    · exact ih hround hu

/-- The shown text of a script, folded. -/
theorem showsEdit_folded {code u : Text} {fuel : Nat} (hu : Unmarked code)
    (h : foldAll fuel (mask .all code).text = .ok u) : ShowsEdit SameButArithmetic code u := by
  have hsame : ∀ a b : Text, a = b → SameButArithmetic a b := by
    rintro a _ rfl
    rfl
  exact showsEdit_foldAll ((ShowsEdit.mask hu).mono hsame) h

/-- If folding gives a script, it is the given one with arithmetic changed in its gaps. -/
theorem editsGaps_of_constantFolding {code out : Text} (hu : Unmarked code)
    (hlen : code.length ≤ 10 ^ Number.digitLimit) (h : constantFolding code = .ok out) :
    EditsGaps SameButArithmetic code out := by
  rw [constantFolding] at h
  obtain ⟨y, hy, h⟩ := Outcome.bind_eq_ok_iff.mp h
  obtain ⟨out', hout, hedits⟩ := (showsEdit_folded hu hy).restoreText hlen
  obtain rfl : out' = out := Except.ok.inj (hout.symm.trans h)
  exact hedits

/-- The factors at the start of some tokens, and those of the products behind, are tokens with an
operator of products. -/
theorem of_mem_splitFactors (tokens : List RunToken) :
    (∀ t ∈ (splitFactors tokens).1, t ∈ tokens ∧ t.isFactor = true) ∧
      ∀ p ∈ (splitFactors tokens).2, ∀ t ∈ p.factors, t ∈ tokens ∧ t.isFactor = true := by
  induction tokens with
  | nil => exact ⟨List.forall_mem_nil _, List.forall_mem_nil _⟩
  | cons token rest ih =>
    have hwider {t : RunToken} (h : t ∈ rest ∧ t.isFactor = true) :
        t ∈ token :: rest ∧ t.isFactor = true := ⟨List.mem_cons_of_mem _ h.1, h.2⟩
    rw [splitFactors]
    revert ih
    obtain ⟨factors, more⟩ := splitFactors rest
    rintro ⟨hfactors, hmore⟩
    dsimp only at hfactors hmore ⊢
    split
    · rename_i hfactor
      exact ⟨List.forall_mem_cons.mpr ⟨⟨List.mem_cons_self .., hfactor⟩,
        fun t ht => hwider (hfactors t ht)⟩, fun p hp t ht => hwider (hmore p hp t ht)⟩
    · exact ⟨List.forall_mem_nil _, List.forall_mem_cons.mpr ⟨fun t ht => hwider (hfactors t ht),
        fun p hp t ht => hwider (hmore p hp t ht)⟩⟩

/-- The factors of products are tokens with an operator of products. -/
theorem of_mem_factors {tokens : List RunToken} {p : Product} (hp : p ∈ products tokens)
    {token : RunToken} (ht : token ∈ p.factors) : token ∈ tokens ∧ token.isFactor = true := by
  cases tokens with
  | nil => cases hp
  | cons first rest =>
    obtain ⟨hfactors, hmore⟩ := of_mem_splitFactors rest
    rw [products, List.mem_cons] at hp
    have hmem : token ∈ rest ∧ token.isFactor = true := by
      rcases hp with rfl | hp
      · exact hfactors token ht
      · exact hmore p hp token ht
    exact ⟨List.mem_cons_of_mem _ hmem.1, hmem.2⟩

/-- The operator of a token stands in the run. -/
theorem mem_of_operator {run : Text} {token : RunToken} (ht : token ∈ runTokens run) {c : Char}
    (hc : token.operator = some c) : c ∈ run := by
  obtain ⟨m, hm, rfl⟩ := List.mem_map.mp ht
  obtain ⟨gs, hspells, hgroup⟩ := spells_of_mem_allIn hm
  obtain ⟨o, ho, hhead⟩ := Option.bind_eq_some_iff.mp hc
  rw [hgroup] at ho
  have hmem := (hspells.infix_of_lookup rfl ho).subset (List.mem_of_mem_head? hhead)
  have hsubject := ((fitsFrom_allIn runToken run).of_mem hm).1
  rw [Match.text, hsubject] at hmem
  exact List.mem_of_mem_take (List.mem_of_mem_drop hmem)

/-- The failure of taking the remainder of an infinite number. -/
abbrev domainError : Fault := .badValue "math domain error"

section failure

variable {P : Fault → Prop}

/-- A factor that can only fail as a remainder. -/
def FailsAsRemainder (P : Fault → Prop) (token : RunToken) : Prop :=
  token.isFactor = true ∧ (token.operator = some '%' → P domainError)

theorem failsOnly_applyFactor (value : Option Number.Double) {token : RunToken}
    (h : FailsAsRemainder P token) : FailsOnly P (applyFactor value token) := by
  cases value with
  | none => exact failsOnly_ok _
  | some v =>
    refine failsOnly_ite_iff.mpr ⟨fun _ => failsOnly_ok _, fun htimes =>
      failsOnly_ite_iff.mpr ⟨fun _ => failsOnly_ok _, fun _ =>
        failsOnly_ite_iff.mpr ⟨fun _ => failsOnly_ok _, fun hover => ?_⟩⟩⟩
    have hremainder : token.operator = some '%' := by
      simpa [RunToken.isFactor, htimes, hover] using h.1
    split
    · exact failsOnly_ok _
    · exact failsOnly_error_iff.mpr (h.2 hremainder)

theorem failsOnly_value? {p : Product} (h : ∀ token ∈ p.factors, FailsAsRemainder P token) :
    FailsOnly P p.value? :=
  failsOnly_bind_iff.mpr
    ⟨failsOnly_foldlM (fun v token ht => failsOnly_applyFactor v (h token ht)) _,
      fun _ _ => failsOnly_pure _⟩

theorem failsOnly_runTotal {ps : List Product}
    (h : ∀ p ∈ ps, ∀ token ∈ p.factors, FailsAsRemainder P token) (total : Option Number.Double) :
    FailsOnly P (runTotal total ps) := by
  induction ps generalizing total with
  | nil => exact failsOnly_ok _
  | cons p rest ih =>
    rw [List.forall_mem_cons] at h
    rw [runTotal]
    refine failsOnly_bind_iff.mpr ⟨failsOnly_value? h.1, fun v _ => ?_⟩
    split
    · exact failsOnly_pure _
    · exact ih h.2 _

theorem failsOnly_foldProducts {ps : List Product}
    (h : ∀ p ∈ ps, ∀ token ∈ p.factors, FailsAsRemainder P token) (ctx : RunContext)
    (count index : Nat) (run : Text) : FailsOnly P (foldProducts ctx count index ps run) := by
  induction ps generalizing index run with
  | nil => exact failsOnly_ok _
  | cons p rest ih =>
    rw [List.forall_mem_cons] at h
    rw [foldProducts]
    refine failsOnly_bind_iff.mpr ⟨ih h.2 _ _, fun run _ => failsOnly_ite_iff.mpr
      ⟨fun _ => failsOnly_pure _, fun _ => failsOnly_bind_iff.mpr ⟨failsOnly_value? h.1, ?_⟩⟩⟩
    intro v _
    split <;> exact failsOnly_pure _

/-- Folding a run fails as a remainder in it. -/
theorem failsOnly_foldRun {run : Text} (h : '%' ∈ run → P domainError) (ctx : RunContext) :
    FailsOnly P (foldRun ctx run) := by
  have hfactors : ∀ p ∈ products (runTokens run), ∀ token ∈ p.factors,
      FailsAsRemainder P token := by
    intro p hp token ht
    obtain ⟨hmem, hfactor⟩ := of_mem_factors hp ht
    exact ⟨hfactor, fun hc => h (mem_of_operator hmem hc)⟩
  refine failsOnly_bind_iff.mpr ⟨?_, fun total _ => ?_⟩
  · exact failsOnly_ite_iff.mpr ⟨fun _ => failsOnly_runTotal hfactors _, fun _ => failsOnly_pure _⟩
  · split
    · exact failsOnly_pure _
    · exact failsOnly_foldProducts hfactors _ _ _ _

/-- One round of folding fails as a remainder in the text. -/
theorem failsOnly_foldOnce {t : Text} (h : '%' ∈ t → P domainError) : FailsOnly P (foldOnce t) := by
  refine failsOnly_replaceM fun m hm => failsOnly_foldRun (fun hc => h ?_) _
  have hsubject := ((fitsFrom_allIn literalRun t).of_mem hm).1
  rw [Match.text, hsubject] at hc
  exact List.mem_of_mem_take (List.mem_of_mem_drop hc)

/-- Rewording arithmetic brings in no remainder. -/
theorem percent_mem_of_reworded {t u : Text} (h : Reworded Folds none t u) (hu : '%' ∈ u) :
    '%' ∈ t := by
  rcases h.toRewrites.mem hu with ht | ⟨old, new, hfolds, hold, hnew⟩
  · exact ht
  · rcases hfolds.mem _ hnew with hmem | hnumeric
    · exact hold _ hmem
    · exact absurd hnumeric (by decide)

/-- Folding fails as a remainder in the text, whatever the number of rounds. -/
theorem failsOnly_foldAll {t : Text} (h : '%' ∈ t → P domainError) (fuel : Nat) :
    FailsOnly P (foldAll fuel t) := by
  induction fuel generalizing t with
  | zero => exact failsOnly_ok _
  | succ fuel ih =>
    rw [foldAll]
    refine failsOnly_bind_iff.mpr ⟨failsOnly_foldOnce h, fun folded hfolded => ?_⟩
    have hnew := ih (t := unwrapNumbers folded) fun hc => h <|
      percent_mem_of_reworded (reworded_foldOnce hfolded)
        (percent_mem_of_reworded (reworded_unwrapNumbers folded) hc)
    exact failsOnly_ite_iff.mpr ⟨fun _ => failsOnly_pure _, fun _ => hnew⟩

/-- Folding a script fails as a remainder in its code. -/
theorem failsOnly_constantFolding {code : Text} (hu : Unmarked code)
    (hlen : code.length ≤ 10 ^ Number.digitLimit)
    (h : ∀ g ∈ (layout code).gaps, '%' ∈ g → P domainError) :
    FailsOnly P (constantFolding code) := by
  have hpercent : '%' ∈ (mask .all code).text → P domainError := by
    intro hc
    rw [mask_eq, pieces_all] at hc
    obtain ⟨g, hg, hcg⟩ :=
      exists_gap_of_mem_assemble (fun _ => isWhole_of_mem_cut) (by decide) hc
    exact h g hg hcg
  refine failsOnly_bind_iff.mpr ⟨failsOnly_foldAll hpercent _, fun y hy => ?_⟩
  obtain ⟨out, hout, -⟩ := (showsEdit_folded hu hy).restoreText hlen
  rw [hout]
  exact failsOnly_ok out

end failure

end HostScript.Optimize
