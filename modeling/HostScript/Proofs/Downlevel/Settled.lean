import HostScript.Downlevel
import HostScript.Proofs.Numeral
import HostScript.Proofs.Pattern.Plain
import HostScript.Proofs.Pattern.Ways
import HostScript.Proofs.Script.Collapse
import HostScript.Proofs.Script.Rescan
import HostScript.Proofs.Script.Reword

/-!
# Running the steps toward the older language again

Block scoped declarations are made plain by one walk over the shown text, and no declaration is left
behind or made up by it. The script that comes out is cut as the script that went in, with the words
swapped, so the last step has nothing to do on its own result. Running all steps again therefore
changes something only if one of the other steps finds something to do in the result.
-/

namespace HostScript

open Outcome Pattern Script

namespace Script

variable {rename : Text → Option Text}

/-- Texts that differ by a renaming of names that stand apart from others; `prev` is the character
before the texts. -/
inductive Respelt (rename : Text → Option Text) : (prev : Option Char) → Text → Text → Prop
  /-- Nothing is left to rename. -/
  | nil (prev : Option Char) : Respelt rename prev [] []
  /-- A character is kept. -/
  | copy {prev : Option Char} (c : Char) {t u : Text} (rest : Respelt rename (some c) t u) :
      Respelt rename prev (c :: t) (c :: u)
  /-- A name that no part of a name touches gets its new name. -/
  | swap {prev : Option Char} {n m t u : Text} (hprev : prev.any isIdentPart = false)
      (hnm : rename n = some m) (ht : startsIn isIdentPart t = false)
      (rest : Respelt rename n.getLast? t u) : Respelt rename prev (n ++ t) (m ++ u)

/-- Pieces that show as something else than a part of a name start with such code. -/
theorem startsIn_isSolid_of_assemble {i : Nat} {ps : List Piece} (hw : ∀ p ∈ ps, p.IsWhole)
    (h : startsIn isIdentPart (Piece.assemble i ps).1 = false) :
    startsIn Piece.isSolid ps = false := by
  cases ps with
  | nil => rfl
  | cons p ps =>
    rw [List.forall_mem_cons] at hw
    cases hw.1 with
    | code c =>
      rw [Piece.assemble_code] at h
      simpa [startsIn] using h
    | @hidden kind d span hk hd =>
      have hmark := fun c => isIdentPart_of_mem_mark hk (c := c) (i := i)
      obtain ⟨e, m, hm⟩ := List.exists_cons_of_ne_nil (kind.mark_ne_nil i)
      rw [hm, List.forall_mem_cons] at hmark
      rw [Piece.assemble_hidden, hm, startsIn, List.cons_append, List.head?_cons, Option.any_some,
        hmark.1] at h
      cases h

/-- Renaming in what pieces show is renaming in the pieces. In front of the pieces, `z` is the rest
of a mark. -/
theorem Respelt.renamed (hr : IsRenaming rename) (hold : ∀ n m, rename n = some m → '_' ∉ n)
    {prev : Option Char} {t u : Text} (h : Respelt rename prev t u) {i : Nat} {ps : List Piece}
    (hw : ∀ p ∈ ps, p.IsWhole) {z : Text} (hz : ∀ c ∈ z, isIdentPart c = true)
    (hprev : z ≠ [] → prev.any isIdentPart = true) (glued : Bool)
    (hglued : glued = true → prev.any isIdentPart = true) (ht : t = z ++ (Piece.assemble i ps).1) :
    ∃ qs, Renamed rename glued ps qs ∧ u = z ++ (Piece.assemble i qs).1 := by
  induction h generalizing i ps z glued with
  | nil =>
    obtain ⟨rfl, hps⟩ := List.append_eq_nil_iff.mp ht.symm
    have hnil : ps = [] := by
      by_contra hne
      exact assemble_ne_nil hw hne i hps
    subst hnil
    exact ⟨[], .nil glued, rfl⟩
  | @copy prev c t u rest ih =>
    cases z with
    | cons d z =>
      -- The character goes on with a mark.
      obtain ⟨rfl, hrest⟩ := List.cons.inj ht
      rw [List.forall_mem_cons] at hz
      obtain ⟨qs, hqs, hu⟩ := ih hw hz.2 (fun _ => hz.1) glued (fun _ => hz.1) hrest
      exact ⟨qs, hqs, by rw [hu, List.cons_append]⟩
    | nil =>
      cases ps with
      | nil => simp at ht
      | cons p ps =>
        rw [List.forall_mem_cons] at hw
        cases hw.1 with
        | code d =>
          rw [List.nil_append, Piece.assemble_code] at ht
          obtain ⟨rfl, hrest⟩ := List.cons.inj ht
          obtain ⟨qs, hqs, hu⟩ := ih hw.2 (List.forall_mem_nil _)
            (fun hne => absurd rfl hne) (Piece.code c).isSolid (by simp) hrest
          exact ⟨.code c :: qs, .keep _ hqs, by rw [hu]; rfl⟩
        | @hidden kind d span hk hd =>
          -- The character starts a mark.
          have hmark : ∀ c ∈ kind.mark i, isIdentPart c = true :=
            fun c => isIdentPart_of_mem_mark hk
          obtain ⟨e, m, hm⟩ := List.exists_cons_of_ne_nil (kind.mark_ne_nil i)
          rw [List.nil_append, Piece.assemble_hidden, hm] at ht
          obtain ⟨rfl, hrest⟩ := List.cons.inj ht
          rw [hm, List.forall_mem_cons] at hmark
          obtain ⟨qs, hqs, hu⟩ := ih hw.2 hmark.2 (fun _ => hmark.1)
            (Piece.hidden kind (d :: span)).isSolid (fun _ => hmark.1) hrest
          refine ⟨.hidden kind (d :: span) :: qs, .keep _ hqs, ?_⟩
          rw [hu, Piece.assemble_hidden, hm]
          rfl
  | @swap prev n m t u hapart hnm hstart rest ih =>
    have hnil : z = [] := by
      by_contra hne
      rw [hprev hne] at hapart
      cases hapart
    have hfree : glued = false := by
      rw [← Bool.not_eq_true]
      intro htrue
      rw [hglued htrue] at hapart
      cases hapart
    subst hnil hfree
    have hn := hr.old hnm
    obtain ⟨ps, rfl, hps⟩ := exists_spelled_append hw (hold n m hnm) ht.symm
    have hw' := fun p hp => hw p (List.mem_append_right _ hp)
    have hlast : n.getLast?.any isIdentPart = true := by
      rw [List.getLast?_eq_getLast_of_ne_nil hn.ne_nil, Option.any_some]
      exact hn.isIdentPart _ (List.getLast_mem hn.ne_nil)
    obtain ⟨qs, hqs, hu⟩ := ih hw' (List.forall_mem_nil _) (fun hne => absurd rfl hne) true
      (fun _ => hlast) hps.symm
    have hnext : startsIn Piece.isSolid ps = false :=
      startsIn_isSolid_of_assemble hw' (by rw [hps]; exact hstart)
    refine ⟨spelled m ++ qs, .swap hnm hnext hqs, ?_⟩
    rw [hu, List.nil_append, List.nil_append,
      assemble_append_fst i fun _ => isWhole_of_mem_spelled, assemble_spelled, spansOf_spelled]
    rfl

end Script

namespace Downlevel

/-! ### The walk that makes declarations plain -/

/-- The characters that names of a declaration start with. -/
def startsNames : CharSet := isAsciiLetter ||| among "_$[\x7b"

/-- The characters behind which no word starts. -/
def holdsBack : CharSet := isWord ||| among "$."

/-- White space, and names behind it. -/
def opensNames (t : Text) : Bool :=
  startsIn isBlank t && startsIn startsNames ((t.drop 1).dropWhile isBlank)

/-- How far a word that declares block scoped names fits. -/
def declarationFit : PlainFit := fun prev after =>
  if prev.any holdsBack then none
  else ["let", "const"].findSome? fun w =>
    if w.toList.isPrefixOf after && opensNames (after.drop w.toList.length) then
      some w.toList.length
    else none

theorem declarationFit_eq (prev : Option Char) (after : Text) : declarationFit prev after =
    if prev.any holdsBack then none
    else ["let", "const"].findSome? fun w =>
      if w.toList.isPrefixOf after && opensNames (after.drop w.toList.length) then
        some w.toList.length
      else none := rfl

theorem isBlank_of_startsNames {c : Char} (h : startsNames c = true) : isBlank c = false := by
  rcases Bool.or_eq_true_iff.mp h with hletter | hsign
  · have hword : isWord c = true := by
      simp [isWord, isAlnum, toNat_lt_of_isAlpha hletter, Char.isAlphanum,
        show c.isAlpha = true from hletter]
    exact isBlank_of_isWord hword
  · have hmem : c ∈ "_$[\x7b".toList := List.contains_iff_mem.mp hsign
    obtain rfl | rfl | rfl | rfl : c = '_' ∨ c = '$' ∨ c = '[' ∨ c = '\x7b' := by
      simpa using hmem
    all_goals decide

theorem holdsBack_of_isIdentPart {c : Char} (h : isIdentPart c = true) : holdsBack c = true := by
  rcases Bool.or_eq_true_iff.mp h with hword | hdollar
  · exact Bool.or_eq_true_iff.mpr (Or.inl hword)
  · obtain rfl := beq_iff_eq.mp hdollar
    decide

/-- Where no word is held back, no name goes on. -/
theorem any_isIdentPart_of_holdsBack {prev : Option Char} (h : prev.any holdsBack = false) :
    prev.any isIdentPart = false := by
  cases prev with
  | none => rfl
  | some c =>
    rw [Option.any_some, Bool.eq_false_iff] at h ⊢
    exact fun hident => h (holdsBack_of_isIdentPart hident)

theorem startsIn_isIdentPart_of_opensNames {t : Text} (h : opensNames t = true) :
    startsIn isIdentPart t = false := by
  cases t with
  | nil => rfl
  | cons c t => exact isIdentPart_of_isBlank (Bool.and_eq_true_iff.mp h).1

/-- The names of a declaration are looked for without moving. -/
theorem run_opensNames (k : Cursor → Option Cursor) (c : Cursor) :
    (isAhead (gap ++ oneOf startsNames)).run k c = if opensNames c.after then k c else none := by
  have hahead : (isAhead (gap ++ oneOf startsNames)).run k c =
      ((gap ++ oneOf startsNames).run some c).elim none fun d => k { c with groups := d.groups } := by
    rw [isAhead, run]
    beta_reduce
    cases (gap ++ oneOf startsNames).run some c <;> rfl
  have hstar (d : Cursor) : (star (one isBlank)).run ((oneOf startsNames).run some) d =
      if startsIn startsNames (d.after.dropWhile isBlank) then
        some (d.advance ((d.after.takeWhile isBlank).length + 1)) else none := by
    have hdrop : (d.advance (d.after.takeWhile isBlank).length).after =
        d.after.dropWhile isBlank := by
      have hleft : (d.after.takeWhile isBlank ++ d.after.dropWhile isBlank).drop
          (d.after.takeWhile isBlank).length = d.after.dropWhile isBlank := List.drop_left
      rwa [List.takeWhile_append_dropWhile] at hleft
    rw [run_star_one, oneOf, run_one, hdrop, Cursor.advance_advance, startsIn]
    -- Inside the white space no name starts.
    intro j hj
    have hdropj : (d.advance j).after = (d.after.takeWhile isBlank).drop j ++
        d.after.dropWhile isBlank := by
      rw [← List.drop_append_of_le_length hj.le, List.takeWhile_append_dropWhile]
      rfl
    rw [oneOf, run_one, hdropj, List.drop_eq_getElem_cons hj, List.cons_append, List.head?_cons,
      Option.any_some, if_neg]
    intro hstarts
    have hblank := List.mem_takeWhile_imp (List.getElem_mem hj)
    rw [isBlank_of_startsNames hstarts] at hblank
    cases hblank
  rw [hahead, run_seq, gap, blank, run_plus_one, run_one]
  cases hafter : c.after with
  | nil => rfl
  | cons a rest =>
    rw [hstar]
    have hrest : (c.advance 1).after = rest := by simp [Cursor.advance, hafter]
    have hopens : opensNames (a :: rest) =
        (isBlank a && startsIn startsNames (rest.dropWhile isBlank)) := rfl
    rw [hrest, hopens, List.head?_cons, Option.any_some, ← hafter]
    cases isBlank a <;> cases startsIn startsNames (rest.dropWhile isBlank) <;> rfl

theorem declarationFit_eq_some_iff {prev : Option Char} {t : Text} {n : Nat} :
    declarationFit prev t = some n ↔ prev.any holdsBack = false ∧
      ∃ w r, (w = "let".toList ∨ w = "const".toList) ∧ t = w ++ r ∧ opensNames r = true ∧
        n = w.length := by
  rw [declarationFit_eq]
  cases prev.any holdsBack with
  | true => simp
  | false =>
    rw [if_neg (by simp)]
    constructor
    · intro h
      obtain ⟨w, hw, hfit⟩ := List.exists_of_findSome?_eq_some h
      rw [Option.ite_none_right_eq_some, Bool.and_eq_true, List.isPrefixOf_iff_prefix] at hfit
      obtain ⟨⟨⟨r, rfl⟩, hopens⟩, hn⟩ := hfit
      rw [List.drop_left] at hopens
      refine ⟨rfl, w.toList, r, ?_, rfl, hopens, (Option.some.inj hn).symm⟩
      rcases List.mem_pair.mp hw with rfl | rfl
      · exact Or.inl rfl
      · exact Or.inr rfl
    · rintro ⟨-, w, r, hw, rfl, hopens, rfl⟩
      have hfit (s : String) : (if s.toList.isPrefixOf (s.toList ++ r) &&
          opensNames ((s.toList ++ r).drop s.toList.length) then some s.toList.length else none) =
            some s.toList.length := by
        rw [List.drop_left, hopens, Bool.and_true,
          if_pos (List.isPrefixOf_iff_prefix.mpr (List.prefix_append _ _))]
      rcases hw with rfl | rfl
      · rw [List.findSome?_cons, hfit "let"]
      · rw [List.findSome?_cons, List.findSome?_cons, hfit "const"]
        rfl

theorem run_blockScoped (c : Cursor) :
    blockScoped.run some c = (declarationFit c.before.head? c.after).map c.advance := by
  have hform : blockScoped = fresh ++ choice ["let", "const"] ++
    isAhead (gap ++ oneOf startsNames) := rfl
  rw [hform, run_seq, run_seq, fresh, run_notAfter, run_choice (by simp), declarationFit_eq,
    show (isWord ||| among "$.") = holdsBack from rfl]
  cases c.before.head?.any holdsBack with
  | true => rfl
  | false =>
    rw [if_neg (by simp), if_neg (by simp), List.map_findSome?]
    refine congrArg (List.findSome? · _) (funext fun w => ?_)
    have hafter : (c.advance w.toList.length).after = c.after.drop w.toList.length := rfl
    rw [Function.comp_apply, run_opensNames, hafter]
    cases w.toList.isPrefixOf c.after <;>
      cases opensNames (c.after.drop w.toList.length) <;> rfl

theorem isPlain_blockScoped : blockScoped.IsPlain declarationFit where
  run_eq := run_blockScoped
  pos h := by
    rw [declarationFit_eq_some_iff] at h
    obtain ⟨-, w, r, rfl | rfl, -, -, rfl⟩ := h <;> decide
  le h := by
    rw [declarationFit_eq_some_iff] at h
    obtain ⟨-, w, r, -, rfl, -, rfl⟩ := h
    simp

/-! ### The walk twice -/

/-- A text with its declarations made plain. -/
def plainFrom (prev : Option Char) (t : Text) : Text :=
  swapFits declarationFit "var".toList prev 0 t

theorem replace_blockScoped (t : Text) :
    blockScoped.replace (fun _ => "var") t = plainFrom none t :=
  isPlain_blockScoped.replace_eq _ t

@[simp] theorem plainFrom_nil (prev : Option Char) : plainFrom prev [] = [] := rfl

variable {prev prev' : Option Char} {c : Char} {t r s w : Text}

theorem plainFrom_copy (h : declarationFit prev (c :: t) = none) :
    plainFrom prev (c :: t) = c :: plainFrom (some c) t := by
  change swapFits declarationFit "var".toList prev 0 (c :: t) = _
  rw [swapFits, h]
  rfl

theorem plainFrom_word (hw : w = "let".toList ∨ w = "const".toList)
    (hprev : prev.any holdsBack = false) (hr : opensNames r = true) :
    plainFrom prev (w ++ r) = "var".toList ++ plainFrom w.getLast? r := by
  have hfit : declarationFit prev (w ++ r) = some w.length :=
    declarationFit_eq_some_iff.mpr ⟨hprev, w, r, hw, rfl, hr, rfl⟩
  obtain ⟨a, x, rfl⟩ : ∃ a x, w = a :: x := by rcases hw with rfl | rfl <;> exact ⟨_, _, rfl⟩
  rw [List.cons_append] at hfit
  change swapFits declarationFit "var".toList prev 0 (a :: x ++ r) = _
  rw [List.cons_append, isPlain_blockScoped.swapFits_of_fit _ hfit, ← List.cons_append,
    List.take_left, List.drop_left, List.getLast?_cons]
  rfl

/-- A place of the walk: a character is copied, or a word is swapped. -/
theorem plainFrom_cases (prev : Option Char) (c : Char) (t : Text) :
    plainFrom prev (c :: t) = c :: plainFrom (some c) t ∧ declarationFit prev (c :: t) = none ∨
      ∃ w r, (w = "let".toList ∨ w = "const".toList) ∧ c :: t = w ++ r ∧
        prev.any holdsBack = false ∧ opensNames r = true ∧
        plainFrom prev (c :: t) = "var".toList ++ plainFrom w.getLast? r := by
  cases hf : declarationFit prev (c :: t) with
  | none => exact Or.inl ⟨plainFrom_copy hf, rfl⟩
  | some n =>
    obtain ⟨hprev, w, r, hw, heq, hr, -⟩ := declarationFit_eq_some_iff.mp hf
    exact Or.inr ⟨w, r, hw, heq, hprev, hr, by rw [heq]; exact plainFrom_word hw hprev hr⟩

/-- What comes out without the first letter of the new word, has been copied. -/
theorem of_plainFrom_eq_append (hw : 'v' ∉ w) (h : plainFrom prev t = w ++ s) :
    ∃ prev' r, t = w ++ r ∧ s = plainFrom prev' r := by
  induction w generalizing prev t with
  | nil => exact ⟨prev, t, rfl, h.symm⟩
  | cons a w ih =>
    rw [List.mem_cons, not_or] at hw
    cases t with
    | nil => cases h
    | cons c t =>
      rcases plainFrom_cases prev c t with ⟨heq, -⟩ | ⟨w', r, -, -, -, -, heq⟩
      · rw [heq] at h
        obtain ⟨rfl, hrest⟩ := List.cons.inj h
        obtain ⟨prev', r, rfl, hs⟩ := ih hw.2 hrest
        exact ⟨prev', r, rfl, hs⟩
      · rw [heq] at h
        exact absurd (List.cons.inj h).1 hw.1

/-- Names that come out behind white space went in behind it. -/
theorem startsNames_of_plainFrom
    (h : startsIn startsNames ((plainFrom prev t).dropWhile isBlank) = true) :
    startsIn startsNames (t.dropWhile isBlank) = true := by
  induction t generalizing prev with
  | nil => exact h
  | cons c t ih =>
    rcases plainFrom_cases prev c t with ⟨heq, -⟩ | ⟨w, r, hw, hct, -, -, -⟩
    · rw [heq, List.dropWhile_cons] at h
      rw [List.dropWhile_cons]
      split_ifs with hc
      · rw [if_pos hc] at h
        exact ih h
      · rw [if_neg hc] at h
        exact h
    · rw [hct]
      rcases hw with rfl | rfl
      · rfl
      · rfl

theorem opensNames_of_plainFrom (h : opensNames (plainFrom prev t) = true) :
    opensNames t = true := by
  cases t with
  | nil => exact h
  | cons c t =>
    rcases plainFrom_cases prev c t with ⟨heq, -⟩ | ⟨w, r, -, -, -, -, heq⟩
    · rw [heq] at h
      obtain ⟨hc, hnames⟩ := Bool.and_eq_true_iff.mp h
      exact Bool.and_eq_true_iff.mpr ⟨hc, startsNames_of_plainFrom hnames⟩
    · rw [heq] at h
      cases (Bool.and_eq_true_iff.mp h).1

/-- No declaration is left behind: the walk has nothing to do on its own result. -/
theorem plainFrom_plainFrom (h : prev'.any holdsBack = prev.any holdsBack) :
    plainFrom prev' (plainFrom prev t) = plainFrom prev t := by
  induction hn : t.length using Nat.strong_induction_on generalizing t prev prev' with
  | _ n ih =>
    subst hn
    cases t with
    | nil => rfl
    | cons c t =>
      rcases plainFrom_cases prev c t with ⟨heq, hnone⟩ | ⟨w, r, hw, hct, -, -, heq⟩
      · have hnone' : declarationFit prev' (plainFrom prev (c :: t)) = none := by
          rw [Option.eq_none_iff_forall_ne_some]
          intro n hfit
          obtain ⟨hprev, w, s, hw, hs, hopens, -⟩ := declarationFit_eq_some_iff.mp hfit
          have hv : 'v' ∉ w := by rcases hw with rfl | rfl <;> decide
          obtain ⟨prev'', r, hr, rfl⟩ := of_plainFrom_eq_append hv hs
          have hfirst := declarationFit_eq_some_iff.mpr
            ⟨h ▸ hprev, w, r, hw, hr, opensNames_of_plainFrom hopens, rfl⟩
          rw [hnone] at hfirst
          cases hfirst
        rw [heq] at hnone' ⊢
        rw [plainFrom_copy hnone', ih t.length (by simp) rfl rfl]
      · have hlength : r.length < (c :: t).length := by
          rw [hct, List.length_append]
          rcases hw with rfl | rfl <;> simp
        have hlast : (some 'r').any holdsBack = w.getLast?.any holdsBack := by
          rcases hw with rfl | rfl <;> decide
        have hvar (p : Option Char) (x : Text) :
            plainFrom p ("var".toList ++ x) = "var".toList ++ plainFrom (some 'r') x := by
          have hnone (p : Option Char) {a : Char} (y : Text) (ha : a ∉ ['l', 'c']) :
              declarationFit p (a :: y) = none := by
            rw [Option.eq_none_iff_forall_ne_some]
            intro n hfit
            obtain ⟨-, w, s, rfl | rfl, hs, -⟩ := declarationFit_eq_some_iff.mp hfit
            · exact ha (by rw [show a = 'l' from (List.cons.inj hs).1]; decide)
            · exact ha (by rw [show a = 'c' from (List.cons.inj hs).1]; decide)
          rw [show "var".toList ++ x = 'v' :: 'a' :: 'r' :: x from rfl,
            plainFrom_copy (hnone _ _ (by decide)), plainFrom_copy (hnone _ _ (by decide)),
            plainFrom_copy (hnone _ _ (by decide))]
          rfl
        rw [heq, hvar, ih r.length hlength hlast rfl]

/-- Where the walk changes nothing, there is no declaration. -/
theorem declarationFit_of_plainFrom_eq_self {x y : Text} (h : plainFrom prev (x ++ y) = x ++ y) :
    declarationFit (x.getLast?.or prev) y = none := by
  induction x generalizing prev with
  | nil =>
    cases y with
    | nil => exact isPlain_blockScoped.fit_nil prev
    | cons c y =>
      rcases plainFrom_cases prev c y with ⟨-, hnone⟩ | ⟨w, r, hw, hcy, -, -, heq⟩
      · exact hnone
      · rw [List.nil_append, heq, hcy] at h
        rcases hw with rfl | rfl
        · cases (List.cons.inj h).1
        · cases (List.cons.inj h).1
  | cons c x ih =>
    rcases plainFrom_cases prev c (x ++ y) with ⟨heq, -⟩ | ⟨w, r, hw, hcy, -, -, heq⟩
    · rw [List.cons_append, heq] at h
      have hrest := ih (List.cons.inj h).2
      rw [List.getLast?_cons]
      cases hx : x.getLast? <;> simpa [hx] using hrest
    · rw [List.cons_append, heq, hcy] at h
      rcases hw with rfl | rfl
      · cases (List.cons.inj h).1
      · cases (List.cons.inj h).1

/-- No declaration that the step recognises stands in its result. -/
theorem occursIn_plainFrom (t : Text) : blockScoped.occursIn (plainFrom none t) = false := by
  rw [Bool.eq_false_iff, ne_eq, isPlain_blockScoped.occursIn_iff]
  rintro ⟨x, y, n, heq, hfit⟩
  have hself : plainFrom none (plainFrom none t) = plainFrom none t := plainFrom_plainFrom rfl
  rw [heq] at hself
  rw [← Option.or_none (o := x.getLast?), declarationFit_of_plainFrom_eq_self hself] at hfit
  cases hfit

/-! ### The walk as a renaming -/

/-- The words that declare block scoped names become the one that declares plain ones. -/
def declaresPlain? (n : Text) : Option Text :=
  if n = "let".toList ∨ n = "const".toList then some "var".toList else none

theorem declaresPlain?_eq_some_iff {n m : Text} : declaresPlain? n = some m ↔
    (n = "let".toList ∨ n = "const".toList) ∧ m = "var".toList := by
  change (if _ then some _ else none) = some m ↔ _
  rw [Option.ite_none_right_eq_some, Option.some.injEq, eq_comm (a := m)]

theorem isRenaming_declaresPlain? : IsRenaming declaresPlain? where
  old h := by
    obtain ⟨rfl | rfl, -⟩ := declaresPlain?_eq_some_iff.mp h <;>
      exact isName_of_all (by decide) (by decide)
  new h := by
    obtain ⟨-, rfl⟩ := declaresPlain?_eq_some_iff.mp h
    exact isName_of_all (by decide) (by decide)
  old_unmarked h := by
    obtain ⟨rfl | rfl, -⟩ := declaresPlain?_eq_some_iff.mp h <;> decide
  new_unmarked h := by
    obtain ⟨-, rfl⟩ := declaresPlain?_eq_some_iff.mp h
    decide

/-- Behind the old words as behind the new one a slash divides. -/
theorem slashAlike_declaresPlain? {n m : Text} (h : declaresPlain? n = some m) :
    SlashAlike n m := by
  obtain ⟨hn, rfl⟩ := declaresPlain?_eq_some_iff.mp h
  have hold : Divides n := by
    rcases hn with rfl | rfl <;> exact ⟨by decide, by decide, by decide, by decide⟩
  have hne : n ≠ [] := by rcases hn with rfl | rfl <;> decide
  intro same v v' hstart _ _
  exact hold.regexAllowed_nearby ⟨by decide, by decide, by decide, by decide⟩ hne (by decide)
    hstart v v'

theorem respelt_plainFrom (prev : Option Char) (t : Text) :
    Respelt declaresPlain? prev t (plainFrom prev t) := by
  induction hn : t.length using Nat.strong_induction_on generalizing t prev with
  | _ n ih =>
    subst hn
    cases t with
    | nil => exact .nil prev
    | cons c t =>
      rcases plainFrom_cases prev c t with ⟨heq, -⟩ | ⟨w, r, hw, hct, hprev, hopens, heq⟩
      · rw [heq]
        exact .copy c (ih t.length (by simp) _ _ rfl)
      · have hlength : r.length < (c :: t).length := by
          rw [hct, List.length_append]
          rcases hw with rfl | rfl <;> simp
        rw [heq, hct]
        exact .swap (any_isIdentPart_of_holdsBack hprev) (declaresPlain?_eq_some_iff.mpr ⟨hw, rfl⟩)
          (startsIn_isIdentPart_of_opensNames hopens) (ih r.length hlength _ _ rfl)

/-- A script with plain declarations is cut as before, and the step has nothing to do on it. -/
theorem blockScope_blockScope {code : Text} (hu : Unmarked code)
    (hlen : code.length ≤ 10 ^ Number.digitLimit) :
    ∃ out, blockScope code = .ok out ∧ blockScoped.occursIn (mask .all out).text = false ∧
      blockScope out = .ok out := by
  have hwhole := fun p (hp : p ∈ cut [] code) => isWhole_of_mem_cut hp
  have hrename := isRenaming_declaresPlain?
  have htext : (mask .all code).text = [] ++ (Piece.assemble 0 (cut [] code)).1 := by
    rw [mask_eq, pieces_all, List.nil_append]
  obtain ⟨qs, hqs, hplain⟩ := (respelt_plainFrom none (mask .all code).text).renamed hrename
    (fun n m h => by obtain ⟨rfl | rfl, -⟩ := declaresPlain?_eq_some_iff.mp h <;> decide)
    hwhole (List.forall_mem_nil _) (fun hne => absurd rfl hne) false (fun h => absurd h (by simp))
    htext
  rw [List.nil_append] at hplain
  have hout : (mask .all code).restoreText (Piece.assemble 0 qs).1 = .ok (sources qs) :=
    restoreText_assemble (hqs.isWhole hwhole) hqs.spansOf_eq
      (hqs.unmarked hrename hwhole (by rwa [sources_cut])) hlen
  have hcut : cut [] (sources qs) = qs :=
    hqs.cut_sources hrename slashAlike_declaresPlain? rfl (by simp) (fun _ => rfl) (Or.inl rfl)
  have hshown : (mask .all (sources qs)).text = (Piece.assemble 0 qs).1 := by
    rw [mask_eq, pieces_all, hcut]
  have hspans : (mask .all (sources qs)).spans = (mask .all code).spans := by
    rw [spans_mask, spans_mask, hcut, hqs.spansOf_eq]
  refine ⟨sources qs, ?_, ?_, ?_⟩
  · rw [blockScope, replace_blockScoped, hplain, hout]
  · rw [hshown, ← hplain]
    exact occursIn_plainFrom _
  · rw [blockScope, replace_blockScoped, hshown, ← hplain, plainFrom_plainFrom rfl, hplain,
      Masked.restoreText, hspans, ← Masked.restoreText, hout]

end Downlevel

/-! ### All steps again -/

namespace ScriptStep

/-- Steps in a row are the first ones and then the others. -/
theorem applyAll_append {steps others : List ScriptStep} {code d c : Text}
    {names more : List String} (h : applyAll steps code = .ok (d, names))
    (ho : applyAll others d = .ok (c, more)) :
    applyAll (steps ++ others) code = .ok (c, names ++ more) := by
  induction steps generalizing code names with
  | nil =>
    obtain ⟨rfl, rfl⟩ := Prod.mk.inj (Except.ok.inj h)
    exact ho
  | cons step steps ih =>
    rw [applyAll, bind_eq_ok_iff] at h
    obtain ⟨new, hnew, h⟩ := h
    rw [bind_eq_ok_iff] at h
    obtain ⟨⟨last, changed⟩, hrest, h⟩ := h
    obtain ⟨rfl, rfl⟩ := Prod.mk.inj (Except.ok.inj h)
    rw [List.cons_append, applyAll, bind_eq_ok_iff]
    refine ⟨new, hnew, ?_⟩
    rw [bind_eq_ok_iff]
    refine ⟨_, ih hrest, ?_⟩
    split_ifs <;> rfl

/-- Steps leave a text alone together if each of them does. -/
theorem applyAll_eq_nil_iff {steps : List ScriptStep} {c : Text} :
    applyAll steps c = .ok (c, []) ↔ ∀ step ∈ steps, step.apply c = .ok c := by
  induction steps with
  | nil => simp [applyAll]
  | cons step steps ih =>
    rw [List.forall_mem_cons, ← ih, applyAll, bind_eq_ok_iff]
    constructor
    · rintro ⟨new, hnew, h⟩
      rw [bind_eq_ok_iff] at h
      obtain ⟨⟨last, changed⟩, hrest, h⟩ := h
      obtain ⟨rfl, hnames⟩ := Prod.mk.inj (Except.ok.inj h)
      split_ifs at hnames with hsame
      obtain rfl := eq_of_beq hsame
      exact ⟨hnew, by rw [hrest, hnames]⟩
    · rintro ⟨hstep, hrest⟩
      refine ⟨c, hstep, bind_eq_ok_iff.mpr ⟨(c, []), hrest, ?_⟩⟩
      simp only [beq_self_eq_true, if_true]
      rfl

end ScriptStep

/-- A constant and its declaration in the older language. -/
def oneConstant : Text × Text := ("const a=1", "var a=1")

/-- A function with a default value that is a function with a default value. -/
def nestedDefault : Text := "function f(a=function(b=1){}){}"

end HostScript
