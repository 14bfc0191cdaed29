import HostScript.Body.ObjC
import HostScript.Proofs.Body.NestedSend
import HostScript.Proofs.Body.Interpolation
import HostScript.Proofs.Body.SwiftLibrary
import HostScript.Proofs.Body.SwiftLines

/-!
# Integer literals as bodies

The idioms of both dialects look for letters, brackets and marks that no integer literal has, so a
literal that is rephrased on its own stays as it is; only Swift puts a semicolon behind it.
-/

namespace HostScript.Body

open Script Pattern

variable {t alphabet : Text} {scope : Scope}

/-- The characters of an integer literal without groups of digits. -/
def numeralChars : Text := "0123456789abcdefABCDEFx+-"

/-- The characters of an integer literal. -/
def groupedChars : Text := '_' :: numeralChars

theorem groupedChars_of_numeralChars (h : ∀ c ∈ t, c ∈ numeralChars) :
    ∀ c ∈ t, c ∈ groupedChars := fun c hc => List.mem_cons_of_mem _ (h c hc)

/-- A character that is none of a literal's is not in it. -/
theorem notMem_of_grouped {c : Char} (h : ∀ c ∈ t, c ∈ groupedChars) (hc : c ∉ groupedChars) :
    c ∉ t := fun hmem => hc (h c hmem)

/-- No literal or mark starts in an integer literal, so steps outside literals see all of it. -/
theorem outsideLiterals_grouped (o : MaskOptions) {f : Scope → Text → Outcome Text}
    (h : ∀ c ∈ t, c ∈ groupedChars) (hf : f scope t = .ok t) :
    outsideLiterals o f scope t = .ok t := by
  refine outsideLiterals_bare (fun c hc hquote => ?_) hf ⟨fun hin => ?_, ?_⟩
  · have hnone : ∀ c ∈ ['\x22', '\x27', '\x60', '/'], c ∉ groupedChars := by decide
    exact hnone c hquote (h c hc)
  · exact notMem_of_grouped (c := 'J') h (by decide) (hin.subset (by decide))
  · exact notMem_of_grouped h (by decide)

/-- Edits whose patterns leave an alphabet change nothing of a text over it. -/
theorem applyAll_of_leaves {edits : List Edit}
    (hedits : ∀ e ∈ edits, e.pattern.leaves alphabet = true) (h : ∀ c ∈ t, c ∈ alphabet) :
    Edit.applyAll edits t = t :=
  foldl_eq_self fun e he => (misses_of_leaves (hedits e he) h).replace_eq _

/-- A text on one line is treated as a line. -/
theorem perLine_grouped {f : Scope → Text → Text} (h : ∀ c ∈ t, c ∈ groupedChars)
    (hf : f scope t = t) : perLine f scope t = t := by
  refine perLine_eq fun line hline => ?_
  rw [Text.lines_eq_singleton (notMem_of_grouped h (by decide)), List.mem_singleton] at hline
  rw [hline, hf]

/-- A static body names no members of an instance. -/
theorem qualifyMembers_static (h : scope.isStatic = true) : qualifyMembers scope t = t := by
  rw [qualifyMembers, h]
  rfl

namespace Swift

variable (h : ∀ c ∈ t, c ∈ groupedChars)
include h

theorem declarations_grouped : declarations scope t = t := by
  rw [declarations, (misses_of_leaves (by decide) h).match?_eq_none]

theorem optionals_grouped : optionals scope t = t := by
  have hedit {e : Edit} (he : e.pattern.leaves groupedChars = true) : e.apply t = t :=
    (misses_of_leaves he h).replace_eq _
  have hdefault (turns : Nat) : nilCoalescing turns t = t := by
    cases turns with
    | zero => rfl
    | succ turns =>
      rw [nilCoalescing, (misses_of_leaves (by decide) h).search?_eq_none]
  have haccess (turns : Nat) : optionalChaining turns t = t := by
    cases turns with
    | zero => rfl
    | succ turns =>
      rw [optionalChaining, (misses_of_leaves (by decide) h).search?_eq_none]
  rw [optionals, hedit (by decide), hedit (by decide), hdefault, haccess,
    hedit (by decide)]

theorem typeNames_grouped : typeNames scope t = t := by
  have hself : (if scope.typeName.isEmpty then t
      else (edge ++ "Self" ++ edge).replace (fun _ => scope.typeName) t) = t := by
    split
    · rfl
    · exact (misses_of_leaves (by decide) h).replace_eq _
  have hraw : rawValueInit.apply t = t := (misses_of_leaves (by decide) h).replace_eq _
  have hbuilt (types : List Text) :
      types.foldl (fun t type => (constructorCall type).apply t) t = t := by
    have hcall (type : Text) : (constructorCall type).pattern.leaves groupedChars = true := by
      rw [constructorCall, leaves_append, Bool.or_eq_true]
      exact .inr (by decide)
    exact foldl_eq_self fun type _ => (misses_of_leaves (hcall type) h).replace_eq _
  have hconvert (fuel pos : Nat) : conversionCalls fuel pos t = t := by
    cases fuel with
    | zero => rfl
    | succ fuel =>
      rw [conversionCalls, (misses_of_leaves (by decide) h).searchAt?_eq_none]
  rw [typeNames, applyAll_of_leaves (by decide) h, hself, hraw, hbuilt,
    dictionaryLiterals_eq (notMem_of_grouped h (by decide)), hconvert]

theorem libraryApi_grouped : libraryApi scope t = t := by
  have hempty (turns : Nat) : emptinessTests turns t = t := by
    cases turns with
    | zero => rfl
    | succ turns =>
      rw [emptinessTests, (misses_of_leaves (by decide) h).search?_eq_none]
  have hmembers (own : String → Bool) (edits : List (String × Edit))
      (hedits : ∀ e ∈ edits, e.2.pattern.leaves groupedChars = true) :
      edits.foldl (fun t e => if own e.1 then t else e.2.apply t) t = t := by
    refine foldl_eq_self fun e he => ?_
    rw [Edit.apply, (misses_of_leaves (hedits e he) h).replace_eq, ite_self]
  rw [libraryApi, applyAll_of_leaves (by decide) h]
  dsimp only
  rw [hempty, ite_self]
  exact hmembers (fun member => scope.properties.contains member.toList ||
    scope.methods.contains member.toList) memberEdits (by decide)

theorem argumentLabels_grouped : argumentLabels scope t = t :=
  (misses_of_leaves (by decide) h).replace_eq _

theorem implicitMembers_grouped : implicitMembers scope t = t := by
  rw [implicitMembers]
  split
  · rfl
  · exact (misses_of_leaves (by decide) h).replace_eq _

/-- A literal that ends in a digit ends a statement. -/
theorem terminateLine_grouped (hend : t.getLast?.any isHexDigit = true) :
    terminateLine t = t ++ [';'] := by
  obtain ⟨c, hlast, hdigit⟩ := (Option.any_eq_true _ _).mp hend
  have hends : ∀ d ∈ groupedChars, isHexDigit d = true →
      isBlank d = false ∧ continuesLine d = false := by decide
  obtain ⟨hblank, hcontinues⟩ := hends c (h c (List.mem_of_getLast? hlast)) hdigit
  exact terminateLine_eq hlast hblank hcontinues (misses_of_leaves (by decide) h).fits_eq_false

end Swift

open Swift in
/-- A literal in Swift becomes a statement. -/
theorem applyAll_swiftIdioms_grouped (h : ∀ c ∈ t, c ∈ groupedChars)
    (hend : t.getLast?.any isHexDigit = true) (hstatic : scope.isStatic = true) :
    applyAll scope swiftIdioms t = .ok (t ++ [';']) := by
  have hbrace : '{' ∉ t := notMem_of_grouped h (by decide)
  have hquote : '\x22' ∉ t := notMem_of_grouped h (by decide)
  have hloops : perLine rangeLoops scope t = t := perLine_grouped h
    (rangeLoops_eq hbrace (misses_of_leaves (by decide) h).match?_eq_none)
  have herrors : errorHandling scope t = t := by
    rw [errorHandling, Pattern.erase, (misses_of_leaves (by decide) h).replace_eq, doBlocks,
      (misses_of_leaves (by decide) h).search?_eq_none]
  have hdeclared : perLine declarations scope t = t := perLine_grouped h (declarations_grouped h)
  have hself : Edit.applyAll [.const (edge ++ "self" ++ edge) "this"] t = t :=
    applyAll_of_leaves (by decide) h
  have hcontrol : perLine parenthesizeControl scope t = t :=
    perLine_grouped h (parenthesizeControl_eq hbrace)
  have hended : terminateStatements scope t = t ++ [';'] := by
    rw [terminateStatements, Text.lines_eq_singleton (notMem_of_grouped h (by decide))]
    exact terminateLine_grouped h hend
  have hmasked (o : MaskOptions) {f : Scope → Text → Text} (hf : f scope t = t) :
      outsideLiterals o (always f) scope t = .ok t :=
    outsideLiterals_grouped o h (congrArg Except.ok hf)
  refine Eq.trans (applyAll_cons (convertClosures_eq hbrace)) ?_
  refine Eq.trans (applyAll_cons (congrArg Except.ok
    (interpolateWithin_of_quote_notMem hquote _))) ?_
  refine Eq.trans (applyAll_cons (congrArg Except.ok hloops)) ?_
  refine Eq.trans (applyAll_cons (hmasked .all herrors)) ?_
  refine Eq.trans (applyAll_cons (congrArg Except.ok (optionalBinding_eq hbrace))) ?_
  refine Eq.trans (applyAll_cons (congrArg Except.ok hdeclared)) ?_
  refine Eq.trans (applyAll_cons (hmasked .all (optionals_grouped h))) ?_
  refine Eq.trans (applyAll_cons (hmasked .chunked hself)) ?_
  refine Eq.trans (applyAll_cons (hmasked .chunked (typeNames_grouped h))) ?_
  refine Eq.trans (applyAll_cons (hmasked .chunked (libraryApi_grouped h))) ?_
  refine Eq.trans (applyAll_cons (hmasked .all (argumentLabels_grouped h))) ?_
  refine Eq.trans (applyAll_cons (hmasked .chunked (qualifyMembers_static hstatic))) ?_
  refine Eq.trans (applyAll_cons (hmasked .chunked (implicitMembers_grouped h))) ?_
  refine Eq.trans (applyAll_cons (hmasked .all hcontrol)) ?_
  refine Eq.trans (applyAll_cons (outsideLiterals_grouped .all h (switchCases_eq hbrace))) ?_
  exact applyAll_cons (congrArg Except.ok hended)

namespace ObjC

variable (h : ∀ c ∈ t, c ∈ numeralChars)
include h

theorem blockLiterals_numeral : blockLiterals scope t = .ok t := by
  rw [blockLiterals, (misses_of_leaves (by decide) h).replaceM_eq]
  dsimp only [bind, Except.bind]
  rw [(misses_of_leaves (by decide) h).replace_eq]
  rfl

theorem messageSends_numeral : messageSends scope t = t := by
  have hbracket : '[' ∉ t := notMem_of_grouped (groupedChars_of_numeralChars h) (by decide)
  rw [messageSends, sendRounds_eq_self (search?_eq_none hbracket)]
  conv_rhs => rw [← List.map_id t]
  refine List.map_congr_left fun c hc => ?_
  have hparked : ∀ c ∈ numeralChars, c ≠ parkedOpen ∧ c ≠ parkedClose := by decide
  simp [hparked c (h c hc)]

theorem wrapCalls_numeral {callOpen : Pattern} (hopen : callOpen.leaves numeralChars = true)
    (before after : String) (fuel pos : Nat) : wrapCalls callOpen before after fuel pos t = t := by
  cases fuel with
  | zero => rfl
  | succ fuel => rw [wrapCalls, (misses_of_leaves hopen h).searchAt?_eq_none]

theorem foundation_numeral : foundation scope t = t := by
  rw [foundation, applyAll_of_leaves (by decide) h]
  exact wrapCalls_numeral h (by decide) _ _ _ _

theorem selfAndIvars_numeral : selfAndIvars scope t = t := by
  have hself : (edge ++ "self" ++ edge).Misses t := misses_of_leaves (by decide) h
  rw [selfAndIvars, hself.replace_eq]
  exact (misses_of_leaves (by decide) h).replace_eq _

theorem mathFunctions_numeral : mathFunctions scope t = t := by
  rw [mathFunctions, wrapCalls_numeral h (by decide),
    (misses_of_leaves (by decide) h).replace_eq]
  exact (misses_of_leaves (by decide) h).replace_eq _

theorem localDeclarations_numeral : localDeclarations scope t = t := by
  rw [localDeclarations, (misses_of_leaves (by decide) h).match?_eq_none]

end ObjC

open ObjC in
/-- A literal in Objective-C stays as it is. -/
theorem applyAll_objcIdioms_numeral (h : ∀ c ∈ t, c ∈ numeralChars)
    (hstatic : scope.isStatic = true) : applyAll scope objcIdioms t = .ok t := by
  have hgrouped := groupedChars_of_numeralChars h
  have hmasked (o : MaskOptions) {f : Scope → Text → Text} (hf : f scope t = t) :
      outsideLiterals o (always f) scope t = .ok t :=
    outsideLiterals_grouped o hgrouped (congrArg Except.ok hf)
  have hedits (o : MaskOptions) {edits : List Edit}
      (hedits : ∀ e ∈ edits, e.pattern.leaves numeralChars = true) :
      outsideLiterals o (always fun _ => Edit.applyAll edits) scope t = .ok t :=
    hmasked o (applyAll_of_leaves hedits h)
  refine Eq.trans (applyAll_cons (hedits .all (by decide))) ?_
  refine Eq.trans (applyAll_cons (hedits .all (by decide))) ?_
  refine Eq.trans (applyAll_cons
    (outsideLiterals_grouped .all hgrouped (blockLiterals_numeral h))) ?_
  refine Eq.trans (applyAll_cons (hedits .all (by decide))) ?_
  refine Eq.trans (applyAll_cons (hedits .all (by decide))) ?_
  refine Eq.trans (applyAll_cons (hedits .all (by decide))) ?_
  refine Eq.trans (applyAll_cons (hmasked .all (messageSends_numeral h))) ?_
  refine Eq.trans (applyAll_cons (hedits .all (by decide))) ?_
  refine Eq.trans (applyAll_cons (hmasked .all
    (perLine_grouped hgrouped (localDeclarations_numeral h)))) ?_
  refine Eq.trans (applyAll_cons (hmasked .all (foundation_numeral h))) ?_
  refine Eq.trans (applyAll_cons (hmasked .all (selfAndIvars_numeral h))) ?_
  refine Eq.trans (applyAll_cons (hmasked .all (qualifyMembers_static hstatic))) ?_
  exact applyAll_cons (hmasked .all (mathFunctions_numeral h))

end HostScript.Body
