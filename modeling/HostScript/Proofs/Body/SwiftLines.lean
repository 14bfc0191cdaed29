import HostScript.Body.Swift
import HostScript.Proofs.Body.Keep
import HostScript.Proofs.Script.Divided

/-!
# Lines and blocks in straight-line code

Closures, loops, guards, blocks and switches of Swift open with a brace, and interpolations start
with a backslash, so a body without these keeps its lines. Declarations exchange what stands before
their values, and a statement ends in a semicolon behind all of its literals.
-/

namespace HostScript.Body

open Script Pattern

namespace Swift

variable {ls : List Text} {t : Text} {scope : Scope}

/-- Closures stand in braces. -/
theorem convertClosures_eq (h : '{' ∉ t) : convertClosures t = .ok t := by
  have hbrace : ¬ ['{'] <:+: t := fun hin => h ((List.singleton_infix_iff _ t).mp hin)
  have htrailing : trailingClosure.Needs ['{'] := .right (needs_lit (by decide))
  have hliteral : closureLiteral.Needs ['{'] := .right (needs_lit (by decide))
  have hfirst (convert : Text → Outcome Text) (fuel pos : Nat) :
      convertTrailing convert fuel pos t = .ok t := by
    cases fuel with
    | zero => rfl
    | succ fuel => rw [convertTrailing, htrailing.searchAt?_eq_none hbrace]
  have hsecond (convert : Text → Outcome Text) (fuel pos : Nat) :
      convertLiterals convert fuel pos t = .ok t := by
    cases fuel with
    | zero => rfl
    | succ fuel => rw [convertLiterals, hliteral.searchAt?_eq_none hbrace]
  rw [convertClosures, convertWithin, hfirst]
  exact hsecond _ _ _

/-- Loops open with a brace, and only one that tests its condition last closes with one. -/
theorem rangeLoops_eq (h : '{' ∉ t) (htail : whileTail.match? t = none) :
    rangeLoops scope t = t := by
  have hbrace : ¬ ['{'] <:+: t := fun hin => h ((List.singleton_infix_iff _ t).mp hin)
  have htails (index : Nat) : (loopTail index).Needs ['{'] :=
    .left (.left (.right (needs_lit (by decide))))
  have hfits {p : Pattern} (index : Nat) (f : Match → Text) :
      whenFits (p ++ loopTail index) f t = none := by
    rw [whenFits, (htails index).right.match?_eq_none hbrace]
    rfl
  have hline : loopLine? t = none := by
    rw [loopLine?, reversedRange, strideRange, enumeratedLoop, plainRange, collectionLoop, repeatHead,
      hfits, hfits, hfits, hfits, hfits, hfits]
    rfl
  rw [rangeLoops, hline, htail]

/-- Expressions that can throw are marked by a word. -/
theorem asks_tryWord : tryWord.Asks ["try"] := by
  have hmark : ((oneOf (among "?!")).opt ++ gap).Closes := by
    refine closes_of_spells fun x gs hx => ?_
    obtain ⟨y, z, gs₁, gs₂, rfl, -, hy, hz⟩ := spells_append_iff.mp hx
    obtain ⟨hne, hblank, -⟩ := of_spells_gap hz
    obtain ⟨d, z, rfl⟩ := List.exists_cons_of_ne_nil hne
    obtain ⟨rfl, -⟩ | hmark := hy.of_opt
    · exact ⟨d, z, rfl, isWord_of_isBlank (hblank d (List.mem_cons_self ..))⟩
    · obtain ⟨e, he, rfl, -⟩ := spells_oneOf_iff.mp hmark
      refine ⟨e, _, rfl, ?_⟩
      have hcases : e = '?' ∨ e = '!' := by simpa [among] using he
      rcases hcases with rfl | rfl <;> decide
  have hword : (fresh ++ lit "try" ++ ((oneOf (among "?!")).opt ++ gap)).Asks ["try"] :=
    asks_word opens_fresh (fun _ _ hx => List.mem_singleton.mpr (spells_lit_iff.mp hx).1)
      (by decide) hmark
  exact hword

/-- Blocks stand in braces. -/
theorem errorHandling_eq (h : '{' ∉ t) (htry : ¬ HasWord "try" t) : errorHandling scope t = t := by
  have herase : tryWord.erase t = t :=
    asks_tryWord.replace_eq (List.forall_mem_singleton.mpr htry) _
  have hblock : doBlock.Needs ['{'] := .right (needs_lit (by decide))
  rw [errorHandling, herase, doBlocks,
    hblock.search?_eq_none (mt (List.singleton_infix_iff '{' t).mp h)]

/-- Guards and bindings open with a brace. -/
theorem optionalBinding_eq (h : '{' ∉ t) : optionalBinding scope t = t := by
  have hguard : guardLine.Needs ['{'] := .left (.left (.right (needs_lit (by decide))))
  have hbinding : bindingLine.Needs ['{'] := .left (.left (.right (needs_lit (by decide))))
  have hlines (hoisted : List Text) (lines : List Text) (hlines : ∀ line ∈ lines, '{' ∉ line) :
      bindLines scope hoisted lines = (lines, hoisted) := by
    induction lines with
    | nil => rfl
    | cons line lines ih =>
      rw [List.forall_mem_cons] at hlines
      have hbrace : ¬ ['{'] <:+: line :=
        fun hin => hlines.1 ((List.singleton_infix_iff _ line).mp hin)
      rw [bindLines, hguard.match?_eq_none hbrace, hbinding.match?_eq_none hbrace]
      simp only [ih hlines.2]
      rfl
  rw [optionalBinding, hlines [] _ fun line hline hmem => h (Text.mem_of_mem_lines hline _ hmem)]
  exact Text.unlines_lines t

/-- Without an opening brace a control statement keeps its condition. -/
theorem parenthesizeControl_eq (h : '{' ∉ t) : parenthesizeControl scope t = t := by
  have hnone (depth : Int) (u : Text) (hu : '{' ∉ u) : braceOutside? depth u = none := by
    induction u generalizing depth with
    | nil => rfl
    | cons c u ih =>
      rw [List.mem_cons, not_or] at hu
      have hc : (c == '{') = false := beq_eq_false_iff_ne.mpr (Ne.symm hu.1)
      rw [braceOutside?]
      simp [ih _ hu.2, hc]
  rw [parenthesizeControl]
  split
  · rfl
  · rename_i m hm
    have hafter : '{' ∉ m.after := by
      obtain ⟨d, -, rfl⟩ := Option.map_eq_some_iff.mp hm
      exact fun hmem => h (List.mem_of_mem_drop hmem)
    rw [hnone 0 _ hafter]

/-- Switches open with a brace. -/
theorem switchCases_eq (h : '{' ∉ t) : switchCases scope t = .ok t := by
  have hcases (depth : Int) (out lines : List Text) (hlines : ∀ line ∈ lines, '{' ∉ line) :
      breakCases depth [] out lines = .ok (out.reverse ++ lines) := by
    induction lines generalizing depth out with
    | nil => rw [breakCases, List.append_nil]
    | cons line lines ih =>
      rw [List.forall_mem_cons] at hlines
      have hend : line.trim.endsWith ['{'] = false := by
        rw [Bool.eq_false_iff]
        intro hend
        have hsuffix : ['{'] <:+ line.trim := List.isSuffixOf_iff_suffix.mp hend
        exact hlines.1 (Text.mem_of_mem_trim _ (hsuffix.subset (List.mem_singleton_self _)))
      rw [breakCases]
      · simp [hend, ih _ _ hlines.2]
      · exact fun _ _ _ _ hnil => nomatch hnil
  rw [switchCases, hcases 0 [] _ fun line hline hmem => h (Text.mem_of_mem_lines hline _ hmem)]
  exact congrArg Except.ok (Text.unlines_lines t)

/-!
## Declarations
-/

/-- Names that a line declares: one, or several in parentheses. -/
inductive IsTarget : Text → Prop
  | name {n : Text} (h : ∀ c ∈ n, isWord c = true) : IsTarget n
  | tuple {inner : Text} (h : ∀ c ∈ inner, (isWord ||| isBlank ||| among ",") c = true) :
    IsTarget ('(' :: (inner ++ [')']))

/-- The names in script form. -/
def scriptTarget (target : Text) : Text :=
  if target.startsWith "(" then
    "[" ++ Text.join ", " (((target.trimOf (among "()")).splitOn ',').map Text.trim) ++ "]"
  else target

/-- What a line that declares variables consists of. -/
inductive DeclarationParts (line : Text) (m : Match) : Prop
  | intro (indent keyword g target b type value : Text)
    (split : line = (indent ++ (keyword ++ (g ++ (target ++ b)))) ++ (type ++ value))
    (hindent : ∀ c ∈ indent, isBlank c = true) (hkeyword : keyword ∈ (["let", "var"] : List Text))
    (hg : g ≠ [] ∧ ∀ c ∈ g, isBlank c = true) (htarget : IsTarget target)
    (hb : ∀ c ∈ b, isBlank c = true) (first : m.group 1 = indent) (third : m.group 3 = target)
    (htype : '=' ∉ type)
    (hvalue : value = [] ∧ m.group? 5 = none ∨ value.head? = some '=' ∧ m.group? 5 = some value)

/-- A line that declares variables has these parts. -/
theorem declarationParts_of_match? {line : Text} {m : Match} (hbreak : '\n' ∉ line)
    (h : declarationLine.match? line = some m) : DeclarationParts line m := by
  rw [declarationLine] at h
  obtain ⟨x, last, gs, hline, hlast, hx, hgroups⟩ := spells_of_match?_textEnd h
  obtain rfl : last = [] := by
    rcases hlast with rfl | rfl
    · rfl
    · exact absurd (hline ▸ List.mem_append_right x (List.mem_singleton_self _)) hbreak
  rw [List.append_nil] at hline
  subst hline
  obtain ⟨_, value, gs₁, gs₂, rfl, rfl, h₁, hvalue⟩ := spells_append_iff.mp hx
  obtain ⟨_, b₂, rfl, hb₂, h₂⟩ := h₁.of_append_blanks
  obtain ⟨_, type, gs₃, gs₄, rfl, rfl, h₃, htype⟩ := spells_append_iff.mp h₂
  obtain ⟨_, b₁, rfl, hb₁, h₄⟩ := h₃.of_append_blanks
  obtain ⟨_, target, gs₅, gs₆, rfl, rfl, htarget, h₅⟩ := h₄.of_append_cap
  obtain ⟨_, g, rfl, hgne, hg, h₆⟩ := h₅.of_append_gap
  obtain ⟨indent, keyword, gs₇, gs₈, rfl, rfl, hkeyword, h₇⟩ := h₆.of_append_cap
  obtain ⟨gs₉, rfl, hindent⟩ := spells_cap_iff.mp h₇
  obtain ⟨hblank, rfl⟩ := of_spells_blanks hindent
  obtain ⟨⟨k, hk, rfl⟩, rfl⟩ := (spells_choice_iff (by simp)).mp hkeyword
  obtain ⟨rfl, hnames⟩ : gs₆ = [] ∧ IsTarget target := by
    rcases spells_orElse_iff.mp htarget with hname | htuple
    · obtain ⟨-, hword, rfl⟩ := Spells.of_rounds_one hname
      exact ⟨rfl, .name hword⟩
    · obtain ⟨_, rfl, h₈⟩ := htuple.of_append_lit
      obtain ⟨_, inner, _, _, rfl, rfl, hopen, hinner⟩ := spells_append_iff.mp h₈
      obtain ⟨rfl, rfl⟩ := spells_lit_iff.mp hopen
      obtain ⟨-, hlist, rfl⟩ := Spells.of_rounds_one hinner
      exact ⟨rfl, .tuple hlist⟩
  have hword : k.toList ∈ (["let", "var"] : List Text) := by
    rcases List.mem_cons.mp hk with rfl | hk
    · decide
    · rw [List.mem_singleton.mp hk]
      decide
  have hvalue : (value = [] ∧ gs₂ = []) ∨ ∃ init, value = '=' :: init ∧ gs₂ = [(5, value)] := by
    refine hvalue.of_opt.imp_right fun hassign => ?_
    obtain ⟨gs, rfl, h₈⟩ := spells_cap_iff.mp hassign
    obtain ⟨_, init, _, _, rfl, rfl, hequals, hinit⟩ := spells_append_iff.mp h₈
    obtain ⟨rfl, rfl⟩ := spells_lit_iff.mp hequals
    obtain ⟨-, -, rfl⟩ := Spells.of_rounds_one hinit
    exact ⟨init, rfl, rfl⟩
  have htype : '=' ∉ type ∧ gs₄.lookup 1 = none ∧ gs₄.lookup 3 = none ∧ gs₄.lookup 5 = none := by
    rcases htype.of_opt with ⟨rfl, rfl⟩ | hcolon
    · exact ⟨List.not_mem_nil, rfl, rfl, rfl⟩
    · obtain ⟨_, t, _, _, rfl, rfl, hnamed, h₈⟩ := hcolon.of_append_cap
      obtain ⟨-, hfree, rfl⟩ := Spells.of_rounds_one hnamed
      obtain ⟨_, b, rfl, hblank, h₉⟩ := h₈.of_append_blanks
      obtain ⟨rfl, rfl⟩ := spells_lit_iff.mp h₉
      refine ⟨?_, rfl, rfl, rfl⟩
      simp [notMem_of_forall hblank (c := '=') (by decide), notMem_of_forall hfree (c := '=') (by decide)]
  have hfirst : m.group 1 = indent ∧ m.group 3 = target := by
    rcases hvalue with ⟨-, rfl⟩ | ⟨_, -, rfl⟩ <;>
      simp [Match.group, hgroups, List.lookup_cons, List.lookup_append, htype]
  refine .intro indent k.toList g target b₁ (type ++ b₂) value (by simp) hblank hword ⟨hgne, hg⟩
    hnames hb₁ hfirst.1 hfirst.2 ?_ ?_
  · simp [htype.1, notMem_of_forall hb₂ (c := '=') (by decide)]
  · rcases hvalue with ⟨rfl, rfl⟩ | ⟨init, rfl, rfl⟩
    · exact .inl ⟨rfl, by simp [hgroups, List.lookup_append, htype]⟩
    · exact .inr ⟨rfl, by simp [hgroups]⟩

/-- Declarations in script form. -/
theorem declarations_eq {line : Text} {m : Match} (h : declarationLine.match? line = some m)
    (scope : Scope) : ∃ keyword ∈ (["let", "const"] : List Text), declarations scope line =
      (m.group 1 ++ (keyword ++ ' ' :: scriptTarget (m.group 3))) ++
        ((m.group? 5).map (' ' :: ·)).getD [] := by
  rw [declarations, h]
  refine ⟨if m.group 2 == "let".toList && (m.group? 5).isSome then "const" else "let", ?_, ?_⟩
  · split_ifs <;> decide
  · simp only [scriptTarget, List.append_assoc]
    cases m.group? 5 <;> rfl

/-- Trimming takes away what encloses a text. -/
theorem trimOf_enclosed {s : CharSet} {a b : Char} {x : Text} (ha : s a = true) (hb : s b = true)
    (hx : ∀ c ∈ x, s c = false) : Text.trimOf s (a :: (x ++ [b])) = x := by
  have hkeep {y : Text} (hy : ∀ c ∈ y, s c = false) : y.dropWhile s = y := by
    cases y with
    | nil => rfl
    | cons c y => rw [List.dropWhile_cons_of_neg (by simp [hy c (List.mem_cons_self ..)])]
  have hstart : (x ++ [b]).dropWhile s = if x = [] then [] else x ++ [b] := by
    cases x with
    | nil => simp [hb]
    | cons c x =>
      rw [List.cons_append, List.dropWhile_cons_of_neg (by simp [hx c (List.mem_cons_self ..)])]
      rfl
  rw [Text.trimOf, Text.trimStartOf, Text.trimEndOf, List.dropWhile_cons_of_pos ha, hstart]
  split
  · simp_all
  · rw [List.reverse_concat, List.dropWhile_cons_of_pos hb,
      hkeep fun c hc => hx c (List.mem_reverse.mp hc), List.reverse_reverse]

/-- Several names in script form stand in square brackets. -/
theorem scriptTarget_tuple {inner : Text}
    (h : ∀ c ∈ inner, (isWord ||| isBlank ||| among ",") c = true) :
    scriptTarget ('(' :: (inner ++ [')'])) =
      ['['] ++ (Text.join ", " ((inner.splitOn ',').map Text.trim) ++ [']']) := by
  have hparens : ∀ c ∈ "()".toList, (isWord ||| isBlank ||| among ",") c = false :=
    List.all_iff_forall_prop.mp (by decide)
  have hinner : Text.trimOf (among "()") ('(' :: (inner ++ [')'])) = inner := by
    refine trimOf_enclosed (by decide) (by decide) fun c hc => ?_
    rw [among, ← Bool.not_eq_true, List.contains_iff_mem]
    exact fun hmem => Bool.noConfusion ((h c hc).symm.trans (hparens c hmem))
  have hstart : Text.startsWith ('(' :: (inner ++ [')'])) "(" = true := rfl
  rw [scriptTarget, if_pos hstart, hinner, List.append_assoc]
  rfl

theorem scriptTarget_name {n : Text} (h : ∀ c ∈ n, isWord c = true) : scriptTarget n = n := by
  have hstart : Text.startsWith n "(" = false := by
    cases n with
    | nil => rfl
    | cons c n =>
      have hc : c ≠ '(' := by
        rintro rfl
        exact absurd (h '(' (List.mem_cons_self ..)) (by decide)
      simp [Text.startsWith, List.isPrefixOf, hc.symm]
  rw [scriptTarget, hstart]
  rfl

theorem mem_of_mem_scriptTarget {target : Text} (h : IsTarget target) {c : Char}
    (hc : c ∈ scriptTarget target) :
    c ∈ "[], ".toList ∨ c ∈ target ∧ (isWord ||| isBlank ||| among ",") c = true := by
  cases h with
  | name h =>
    rw [scriptTarget_name h] at hc
    have hset : (isWord c || isBlank c || among "," c) = true := by rw [h c hc]; rfl
    exact .inr ⟨hc, hset⟩
  | @tuple inner h =>
    rw [scriptTarget_tuple h, List.mem_append, List.mem_append, List.mem_singleton,
      List.mem_singleton] at hc
    rcases hc with rfl | hc | rfl
    · exact .inl (by decide)
    · rcases Text.mem_of_mem_join hc with hc | ⟨_, hnames, hc⟩
      · exact .inl (List.mem_of_mem_drop (i := 2) hc)
      · obtain ⟨part, hpart, rfl⟩ := List.mem_map.mp hnames
        have hin : c ∈ inner := (Text.mem_of_mem_splitOn hpart c (Text.mem_of_mem_trim c hc)).1
        exact .inr ⟨by simp [hin], h c hin⟩
    · exact .inl (by decide)

/-- Names hold no sign of an assignment. -/
theorem IsTarget.equals_notMem {target : Text} (h : IsTarget target) : '=' ∉ target := by
  cases h with
  | name h => exact notMem_of_forall h (by decide)
  | @tuple inner h =>
    simp only [List.mem_cons, List.mem_append, List.not_mem_nil, or_false, not_or]
    exact ⟨by decide, notMem_of_forall h (by decide), by decide⟩

/-!
## Statements
-/

/-- A line that ends a statement gets a semicolon. -/
theorem terminateLine_eq {t : Text} {c : Char} (hlast : t.getLast? = some c)
    (hblank : isBlank c = false) (hends : continuesLine c = false)
    (hlabel : labelLine.fits t = false) : terminateLine t = t ++ [';'] := by
  have htrim : t.trimEnd = t := by
    obtain ⟨u, rfl⟩ := List.getLast?_eq_some_iff.mp hlast
    simp [Text.trimEnd, Text.trimEndOf, hblank]
  rw [terminateLine, htrim, hlast]
  simp [hends, hlabel]

end Swift

/-!
## Lines with literals
-/

variable {t line : Text} {scope : Scope} {kind : Text → Prop} {ls : List Text}

/-- Statements get their ends behind their literals. -/
theorem scripted_terminateStatements (h : Scripted kind ls t) :
    Scripted kind ls (terminateStatements scope t) := by
  refine Scripted.edit_lines h fun line _ ms hline => ?_
  rw [terminateLine]
  split
  · exact hline
  · split
    · exact hline
    · obtain ⟨y, hsplit, hy⟩ := Text.exists_trimEndOf isBlank line
      rw [hsplit] at hline
      exact (Scripted.cut_end hline (quoteless_blank hy)).append_code (by decide)

/-- A line without a literal in the type of what it declares. -/
def DeclarationSpares (line : Text) : Prop :=
  Swift.declarationLine.fits line = true → Quoteless (line.cutAt '=').1

instance (line : Text) : Decidable (DeclarationSpares line) := inferInstanceAs (Decidable (_ → _))

/-- Declared names in script form are code where they are. -/
theorem isTameCode_scriptTarget {target : Text} (h : Swift.IsTarget target)
    (ht : ∀ c ∈ target, isTameCode c = true) :
    ∀ c ∈ Swift.scriptTarget target, isTameCode c = true := by
  intro c hc
  have hmarks : ∀ c ∈ "[], ".toList, isTameCode c = true := by decide
  rcases Swift.mem_of_mem_scriptTarget h hc with hc | ⟨hc, -⟩
  · exact hmarks c hc
  · exact ht c hc

/-- Declarations keep their values. -/
theorem scripted_declarations (h : Scripted kind ls line) (hbreak : '\n' ∉ line)
    (hspares : DeclarationSpares line) : Scripted kind ls (Swift.declarations scope line) := by
  cases hmatch : Swift.declarationLine.match? line with
  | none => rwa [Swift.declarations, hmatch]
  | some m =>
    obtain ⟨indent, keyword, g, target, b, type, value, hline, hindent, hkeyword, hg, htarget, hb,
      hfirst, hthird, htype, hvalue⟩ := Swift.declarationParts_of_match? hbreak hmatch
    obtain ⟨word, hword, hnew⟩ := Swift.declarations_eq hmatch scope
    have hequals : ∀ c ∈ (indent ++ (keyword ++ (g ++ (target ++ b)))) ++ type, (c != '=') = true := by
      have hkeywords : ∀ w ∈ (["let", "var"] : List Text), '=' ∉ w := by decide
      have hnot : '=' ∉ (indent ++ (keyword ++ (g ++ (target ++ b)))) ++ type := by
        simp [notMem_of_forall hindent (c := '=') (by decide), hkeywords keyword hkeyword,
          notMem_of_forall hg.2 (c := '=') (by decide), htarget.equals_notMem,
          notMem_of_forall hb (c := '=') (by decide), htype]
      intro c hc
      rw [bne_iff_ne]
      rintro rfl
      exact hnot hc
    have hcode : Quoteless ((indent ++ (keyword ++ (g ++ (target ++ b)))) ++ type) := by
      have hbefore := hspares (by rw [Pattern.fits, hmatch]; rfl)
      rw [Text.fst_cutAt, hline, ← List.append_assoc, List.takeWhile_append_of_pos hequals] at hbefore
      exact (quoteless_append.mp hbefore).1
    rw [hline, ← List.append_assoc] at h
    have hrest := Scripted.cut_start h hcode
    have hfront : ∀ c ∈ indent ++ (word ++ ' ' :: Swift.scriptTarget target), isTameCode c = true := by
      have hkey : ∀ k ∈ (["let", "const"] : List Text), ∀ c ∈ k, isTameCode c = true := by decide
      have hnames := isTameCode_scriptTarget htarget fun c hc => hcode c (by simp [hc])
      rw [List.forall_mem_append, List.forall_mem_append, List.forall_mem_cons]
      exact ⟨fun c hc => hcode c (by simp [hc]), hkey word hword, by decide, hnames⟩
    rw [hnew, hfirst, hthird]
    refine Made.code_append ?_ hfront
    rcases hvalue with ⟨rfl, hnone⟩ | ⟨-, hsome⟩
    · rw [hnone]
      exact hrest
    · rw [hsome]
      exact hrest.code_append (t := [' ']) (by decide)

end HostScript.Body
