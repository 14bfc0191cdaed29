import HostScript.Proofs.Body.Coalescing
import HostScript.Proofs.Body.Interpolation
import HostScript.Proofs.Body.SwiftLibrary
import HostScript.Proofs.Body.SwiftLines

/-!
# Simple code

Code of words, white space and arithmetic operators has none of the brackets and marks that idioms
look for, and without certain words it has none of their words either. Of such code Swift's idioms
rephrase the declarations, drop the labels of arguments and end the statements.
-/

namespace HostScript.Body

open Script Pattern

variable {ws : List Text} {t u : Text} {scope : Scope}

/-- The characters of simple code. -/
def isSimpleCode : CharSet := isWord ||| isBlank ||| among "+-*%()<>&|^~=.,:"

/-- Code of words and operators without certain words, where dots stand behind words only. -/
structure IsSimple (ws : List Text) (t : Text) : Prop where
  chars : ∀ c ∈ t, isSimpleCode c = true
  words : ∀ w ∈ ws, ¬ HasWord w t
  marks : ¬ markHead <:+: t
  dots : ∀ u v, t = u ++ '.' :: v → u.getLast?.any isWord = true

theorem IsSimple.notMem {c : Char} (h : IsSimple ws t) (hc : isSimpleCode c = false) : c ∉ t :=
  notMem_of_forall h.chars hc

theorem IsSimple.unmarked (h : IsSimple ws t) : Unmarked t :=
  ⟨h.marks, h.notMem (by decide)⟩

theorem IsSimple.mono {ws' : List Text} (h : IsSimple ws t) (hsub : ws' ⊆ ws) : IsSimple ws' t :=
  { h with words := fun w hw => h.words w (hsub hw) }

theorem isSimple_nil (hws : ∀ w ∈ ws, w ≠ []) : IsSimple ws [] where
  chars := List.forall_mem_nil _
  words w hw := not_hasWord_nil (hws w hw)
  marks := by decide
  dots u _ h := absurd h.symm (List.append_ne_nil_of_right_ne_nil u (List.cons_ne_nil _ _))

/-- Code without dots needs no words in front of them. -/
theorem isSimple_of_notMem (hchars : ∀ c ∈ t, isSimpleCode c = true) (hdot : '.' ∉ t)
    (hwords : ∀ w ∈ ws, ¬ HasWord w t) (hmark : ¬ markHead <:+: t) : IsSimple ws t where
  chars := hchars
  words := hwords
  marks := hmark
  dots u _ h := absurd (h ▸ List.mem_append_right u (List.mem_cons_self ..)) hdot

/-- A word is simple code without other words. -/
theorem isSimple_word (ht : IsWordText t) (hnot : t ∉ ws) (hmark : ¬ markHead <:+: t) :
    IsSimple ws t := by
  have hword {c : Char} (hc : isWord c = true) : isSimpleCode c = true := by
    simp [isSimpleCode, HOr.hOr, OrOp.or, hc]
  refine isSimple_of_notMem (fun c hc => hword (ht.2 c hc)) (fun hdot => ?_) (fun w hw hin => ?_)
    hmark
  · have := ht.2 _ hdot
    revert this
    decide
  · obtain rfl := (hasWord_word_iff ht.2).mp hin
    exact hnot hw

/-- A character that stands between two pieces of simple code. -/
def isJoint : CharSet := fun c =>
  isSimpleCode c && !isWord c && c != '.' && !markHead.contains c

/-- Simple code with such a character between is simple. -/
theorem IsSimple.append_cons {c : Char} (ht : IsSimple ws t) (hu : IsSimple ws u)
    (hc : isJoint c = true) : IsSimple ws (t ++ c :: u) := by
  simp only [isJoint, Bool.and_eq_true, Bool.not_eq_true', bne_iff_ne, ne_eq,
    List.contains_eq_mem, decide_eq_false_iff_not] at hc
  obtain ⟨⟨⟨hsimple, hword⟩, hdot⟩, hmark⟩ := hc
  refine ⟨?_, fun w hw => ?_, ?_, fun x y hxy => ?_⟩
  · exact List.forall_mem_append.mpr ⟨ht.chars, List.forall_mem_cons.mpr ⟨hsimple, hu.chars⟩⟩
  · exact mt (hasWord_append_cons_iff hword).mp (not_or.mpr ⟨ht.words w hw, hu.words w hw⟩)
  · have hphrases : ∀ w ∈ [markHead], w ≠ [] ∧ c ∉ w :=
      List.forall_mem_singleton.mpr ⟨by decide, hmark⟩
    have hlacks : Lacks [markHead] (t ++ c :: u) := (lacks_append_cons_iff hphrases).mpr
      ⟨List.forall_mem_singleton.mpr ht.marks, List.forall_mem_singleton.mpr hu.marks⟩
    exact hlacks _ (List.mem_singleton_self _)
  · rcases List.append_eq_append_iff.mp hxy with ⟨a, rfl, ha⟩ | ⟨b, rfl, hb⟩
    · cases a with
      | nil => exact absurd (List.cons.inj ha).1 hdot
      | cons d a =>
        obtain ⟨rfl, rfl⟩ := List.cons.inj ha
        obtain ⟨e, he, hlast⟩ := (Option.any_eq_true _ _).mp (hu.dots a y rfl)
        rw [List.getLast?_append, List.getLast?_cons, he]
        exact hlast
    · cases b with
      | nil => exact absurd (List.cons.inj hb).1.symm hdot
      | cons d b =>
        obtain ⟨rfl, rfl⟩ := List.cons.inj hb
        exact ht.dots x b rfl

section Joined

variable (hws : ∀ w ∈ ws, w ≠ [])
include hws

theorem IsSimple.append {sep : Text} (ht : IsSimple ws t) (hu : IsSimple ws u) (hne : sep ≠ [])
    (hsep : ∀ c ∈ sep, isJoint c = true) : IsSimple ws (t ++ (sep ++ u)) := by
  induction sep generalizing t with
  | nil => exact absurd rfl hne
  | cons c sep ih =>
    rw [List.forall_mem_cons] at hsep
    cases sep with
    | nil => exact ht.append_cons hu hsep.1
    | cons d sep =>
      exact ht.append_cons (ih (isSimple_nil hws) (List.cons_ne_nil d sep) hsep.2) hsep.1

/-- Simple pieces joined are simple. -/
theorem isSimple_join {sep : Text} {ts : List Text} (hts : ∀ t ∈ ts, IsSimple ws t)
    (hne : sep ≠ []) (hsep : ∀ c ∈ sep, isJoint c = true) : IsSimple ws (Text.join sep ts) := by
  induction ts with
  | nil => exact isSimple_nil hws
  | cons t ts ih =>
    rw [List.forall_mem_cons] at hts
    rcases eq_or_ne ts [] with rfl | hmore
    · exact hts.1
    · rw [Text.join_cons sep t hmore]
      exact hts.1.append hws (ih hts.2) hne hsep

end Joined

/-- Steps outside literals see all of simple code. -/
theorem IsSimple.outsideLiterals_eq {f : Scope → Text → Outcome Text} (h : IsSimple ws t)
    (o : MaskOptions) (hf : f scope t = .ok u) (hu : IsSimple ws u) :
    outsideLiterals o f scope t = .ok u := by
  refine outsideLiterals_bare (fun c hc hquote => ?_) hf hu.unmarked
  have hnone : ∀ d ∈ ['\x22', '\x27', '\x60', '/'], isSimpleCode d = false := by decide
  exact h.notMem (hnone c hquote) hc

/-! ### The words of the idioms -/

namespace Swift

/-- The names of types that the idioms look for. -/
def typeWords : List Text :=
  ["Int", "Double", "Float", "CGFloat", "Bool", "Array", "Dictionary", "Set", "String"]

/-- The names of functions that the idioms look for. -/
def functionWords : List Text :=
  (["print", "fatalError", "assert", "precondition"] : List Text) ++ mathNames.map String.toList

/-- The names of members that the idioms look for. -/
def memberWords : List Text := "isEmpty".toList :: memberEdits.map (·.1.toList)

/-- The words that the idioms look for everywhere. -/
def idiomWords : List Text :=
  (["as", "is", "try", "self", "nil", "Self", "case", "default", "else"] : List Text) ++
    (typeWords ++ (functionWords ++ memberWords))

/-- The words that the idioms look for in a scope. -/
def wordsIn (scope : Scope) : List Text :=
  idiomWords ++ (scope.constructible ++
    (scope.properties ++ scope.methods).filter (!scope.parameters.contains ·))

theorem asks_self : (edge ++ lit "self" ++ edge).Asks ["self"] :=
  asks_word opens_edge (fun _ _ hx => List.mem_singleton.mpr (spells_lit_iff.mp hx).1) (by decide)
    closes_edge

/-- The edits of types look for the names of types, or for square brackets. -/
theorem typeEdits_eq (h : ∀ w ∈ typeWords, ¬ HasWord w t) (hnil : ¬ HasWord "nil" t)
    (hsquare : '[' ∉ t) : Edit.applyAll typeEdits t = t := by
  have hbracket : ¬ ['['] <:+: t := mt (List.singleton_infix_iff '[' t).mp hsquare
  have hasks {p : Pattern} {w : Text} (hp : p.Asks [w]) (hw : w ∈ typeWords) (f : Match → Text) :
      p.replace f t = t := hp.replace_eq (List.forall_mem_singleton.mpr (h w hw)) f
  have hmember {ss : List String} {member : String} {rest : Text} (hss : ss ≠ [])
      (hws : ∀ s ∈ ss, s.toList ∈ typeWords) (hmember : member.toList = '.' :: rest)
      (new : String) : Edit.apply (.const (edge ++ choice ss ++ lit member ++ edge) new) t = t := by
    have hall : ∀ w ∈ typeWords, IsWordText w := by decide
    refine ((asks_word opens_edge (fun x gs hx => ?_) hall
      (closes_lit hmember (by decide))).left edge).replace_eq h _
    obtain ⟨⟨s, hs, rfl⟩, -⟩ := (spells_choice_iff hss).mp hx
    exact hws s hs
  have hgeneric {type : String} (htype : type.toList ∈ typeWords) (hword : IsWordText type.toList) :
      (edge ++ lit type ++ typeArguments).Asks [type.toList] := by
    refine asks_word opens_edge (fun _ _ hx => List.mem_singleton.mpr (spells_lit_iff.mp hx).1)
      (List.forall_mem_singleton.mpr hword) ?_
    exact ((closes_lit (n := "<") rfl (by decide)).append _).append _
  have hset : (notAfterText "new " ++ fresh ++ lit "Set(").Asks ["Set"] :=
    asks_start (opens_fresh.behind_append _ _ _) rfl (by decide) (by decide)
  have hstart {n : String} {w rest : Text} {a : Char} (hn : n.toList = w ++ a :: rest)
      (hw : IsWordText w) (ha : isWord a = false) : (edge ++ lit n).Asks [w] :=
    asks_start opens_edge hn hw ha
  have hrepeating : (edge ++ lit "Array(repeating:").Asks ["Array"] :=
    hstart rfl (by decide) (by decide)
  refine foldl_eq_self (List.forall_iff_forall_mem.mp
    ⟨?nil, ?max, ?min, ?pi, ?infinity, ?greatest, ?repeating, ?noEntries, ?noItems, ?emptyEntries,
      ?dictionary, ?array, ?setOf, ?set, ?describing, ?format⟩)
  case nil =>
    exact (asks_word opens_edge (fun _ _ hx => List.mem_singleton.mpr (spells_lit_iff.mp hx).1)
      (by decide) closes_edge).replace_eq (List.forall_mem_singleton.mpr hnil) _
  case max =>
    have hword := hstart (n := "Int.max") (w := "Int") rfl (by decide) (by decide)
    exact hasks (hword.left _) (by decide) _
  case min =>
    have hword := hstart (n := "Int.min") (w := "Int") rfl (by decide) (by decide)
    exact hasks (hword.left _) (by decide) _
  case pi => exact hmember (by decide) (by decide) rfl _
  case infinity => exact hmember (by decide) (by decide) rfl _
  case greatest => exact hmember (by decide) (by decide) rfl _
  case repeating =>
    exact hasks ((((((((hrepeating.left _).left _).left _).left _).left _).left _).left _).left _)
      (by decide) _
  case noEntries =>
    have hneeds : (lit "[").Needs ['['] := needs_lit (by decide)
    exact hneeds.left.left.left.left.left.left.replace_eq hbracket _
  case noItems =>
    have hneeds : (lit "[").Needs ['['] := needs_lit (by decide)
    exact hneeds.left.left.replace_eq hbracket _
  case emptyEntries => exact (needs_lit (by decide) : (lit "[:]").Needs ['[']).replace_eq hbracket _
  case dictionary => exact hasks (hgeneric (by decide) (by decide)) (by decide) _
  case array => exact hasks (hgeneric (by decide) (by decide)) (by decide) _
  case setOf => exact hasks (hgeneric (by decide) (by decide)) (by decide) _
  case set => exact hasks hset (by decide) _
  case describing =>
    have hword := hstart (n := "String(describing:") (w := "String") rfl (by decide) (by decide)
    exact hasks (hword.left _) (by decide) _
  case format =>
    have hword := hstart (n := "String(format:") (w := "String") rfl (by decide) (by decide)
    exact hasks (hword.left _) (by decide) _

/-- Without square brackets there are no literals of entries. -/
theorem dictionaryLiterals_of_notMem (h : '[' ∉ t) (fuel pos : Nat) :
    dictionaryLiterals fuel pos t = t := by
  cases fuel with
  | zero => rfl
  | succ fuel =>
    have hnone : Text.indexFrom? "[" t pos = none := by
      rw [Text.indexFrom?, Option.map_eq_none_iff, ← Option.not_isSome_iff_eq_none]
      refine fun hsome => h (List.mem_of_mem_drop (i := pos) ?_)
      have hinfix : ['['] <:+: t.drop pos := infix_of_hasInfix hsome
      exact (List.singleton_infix_iff _ _).mp hinfix
    rw [dictionaryLiterals, hnone]

/-- Conversions start with the name of a type. -/
theorem asks_conversion : conversion.Asks typeWords := by
  refine asks_word opens_fresh (fun x gs hx => ?_) (by decide)
    (closes_lit (n := "(") rfl (by decide))
  obtain ⟨gs, -, hx⟩ := spells_cap_iff.mp hx
  obtain ⟨⟨s, hs, rfl⟩, -⟩ := (spells_choice_iff (by decide)).mp hx
  have hall : ∀ s ∈ ["Int", "Double", "Float", "CGFloat", "Bool"], s.toList ∈ typeWords := by decide
  exact hall s hs

/-- A value of a type is built by its name. -/
theorem asks_constructorCall {type : Text} (htype : IsWordText type) :
    (constructorCall type).pattern.Asks [type] := by
  have hopen : ((lit ".init").opt ++ lit "(").Closes := by
    refine closes_of_spells fun x gs hx => ?_
    obtain ⟨y, z, gs₁, gs₂, rfl, -, hy, hz⟩ := spells_append_iff.mp hx
    rw [(spells_lit_iff.mp hz).1]
    obtain ⟨rfl, -⟩ | hinit := hy.of_opt
    · exact ⟨'(', [], rfl, by decide⟩
    · rw [(spells_lit_iff.mp hinit).1]
      exact ⟨'.', _, rfl, by decide⟩
  have hword : (fresh ++ notAfterText "new " ++ Pattern.text type ++
      ((lit ".init").opt ++ lit "(")).Asks [type] :=
    asks_word (opens_fresh.append_behind _ _ _)
      (fun _ _ hx => List.mem_singleton.mpr (spells_text_iff.mp hx).1)
      (List.forall_mem_singleton.mpr htype) hopen
  exact hword

/-- The functions of the library are called by their names. -/
theorem functionEdits_eq (h : ∀ w ∈ functionWords, ¬ HasWord w t) :
    Edit.applyAll functionEdits t = t := by
  have hone {w : Text} {p : Pattern} (hp : p.Asks [w]) (hw : w ∈ functionWords)
      (f : Match → Text) : p.replace f t = t :=
    hp.replace_eq (List.forall_mem_singleton.mpr (h w hw)) f
  have hall : ∀ w ∈ functionWords, IsWordText w := by decide
  refine foldl_eq_self (List.forall_iff_forall_mem.mp ⟨?print, ?fatal, ?assert, ?math⟩)
  case print =>
    exact hone (asks_start (n := "print(") (w := "print") opens_fresh rfl (by decide) (by decide))
      (by decide) _
  case fatal =>
    have hword := asks_start (n := "fatalError(") (w := "fatalError") opens_fresh rfl (by decide)
      (by decide)
    exact hone hword (by decide) _
  case assert =>
    refine (asks_word opens_fresh (fun x gs hx => ?_) hall
      (closes_lit (n := "(") rfl (by decide))).replace_eq h _
    obtain ⟨⟨s, hs, rfl⟩, -⟩ := (spells_choice_iff (by decide)).mp hx
    have hnames : ∀ s ∈ ["assert", "precondition"], s.toList ∈ functionWords := by decide
    exact hnames s hs
  case math =>
    have hmath : (fresh ++ cap 1 (choice mathNames) ++ (blanks ++ lit "(")).Asks functionWords := by
      refine asks_word opens_fresh (fun x gs hx => ?_) hall
        (closes_blanks_lit (n := "(") rfl (by decide))
      obtain ⟨gs, -, hx⟩ := spells_cap_iff.mp hx
      obtain ⟨⟨s, hs, rfl⟩, -⟩ := (spells_choice_iff (by decide)).mp hx
      exact List.mem_append_right _ (List.mem_map.mpr ⟨s, hs, rfl⟩)
    exact Asks.replace_eq (p := fresh ++ cap 1 (choice mathNames) ++ blanks ++ lit "(") hmath h _

/-- The members of the library are called by their names. -/
theorem asks_memberEdits : ∀ e ∈ memberEdits, e.2.pattern.Asks [e.1.toList] := by
  have hcalled {n : String} {w : Text} (h : n.toList = '.' :: w ∧ IsWordText w) :
      (lit n ++ notCalled).Asks [w] :=
    asks_end h.1 (by decide) h.2 (closes_edge.append _)
  have hopened {n : String} {w : Text} (h : '.' :: (w ++ ['(']) <+: n.toList ∧ IsWordText w) :
      (lit n).Asks [w] := by
    obtain ⟨⟨rest, hrest⟩, hw⟩ := h
    have htext : n.toList = '.' :: (w ++ '(' :: rest) := by simp [← hrest]
    exact asks_inside htext (by decide) hw (by decide)
  refine List.forall_iff_forall_mem.mp
    ⟨?count, ?appendAll, ?append, ?insert, ?remove, ?removeLast, ?removeFirst, ?removeAll,
      ?contains, ?first, ?last, ?uppercased, ?lowercased, ?hasPrefix, ?hasSuffix, ?joinedWith,
      ?joined, ?sorted, ?reversed, ?components, ?split, ?trimming, ?description, ?rawValue⟩
  case count => exact hcalled (n := ".count") (by decide)
  case appendAll => exact (hopened (n := ".append(contentsOf:") (by decide)).left _
  case append => exact hopened (n := ".append(") (by decide)
  case insert =>
    exact ((((((((hopened (n := ".insert(") (by decide)).left _).left _).left
      _).left _).left _).left _).left _)
  case remove =>
    exact ((((hopened (n := ".remove(at:") (by decide)).left _).left _).left _)
  case removeLast => exact hopened (n := ".removeLast()") (by decide)
  case removeFirst => exact hopened (n := ".removeFirst()") (by decide)
  case removeAll => exact hopened (n := ".removeAll()") (by decide)
  case contains => exact hopened (n := ".contains(") (by decide)
  case first => exact hcalled (n := ".first") (by decide)
  case last => exact hcalled (n := ".last") (by decide)
  case uppercased => exact hopened (n := ".uppercased()") (by decide)
  case lowercased => exact hopened (n := ".lowercased()") (by decide)
  case hasPrefix => exact hopened (n := ".hasPrefix(") (by decide)
  case hasSuffix => exact hopened (n := ".hasSuffix(") (by decide)
  case joinedWith => exact (hopened (n := ".joined(separator:") (by decide)).left _
  case joined => exact hopened (n := ".joined()") (by decide)
  case sorted => exact hopened (n := ".sorted()") (by decide)
  case reversed => exact hopened (n := ".reversed()") (by decide)
  case components => exact (hopened (n := ".components(separatedBy:") (by decide)).left _
  case split => exact (hopened (n := ".split(separator:") (by decide)).left _
  case trimming =>
    exact ((hopened (n := ".trimmingCharacters(in:") (by decide)).left _).left _ |>.left _
  case description => exact hcalled (n := ".description") (by decide)
  case rawValue => exact asks_end (n := ".rawValue") rfl (by decide) (by decide) closes_edge

/-! ### What the idioms leave of simple code -/

/-- Sorting keeps texts. -/
theorem mem_of_mem_sorted {ts : List Text} (h : t ∈ Text.sorted ts) : t ∈ ts :=
  List.mem_eraseDups.mp (List.mem_mergeSort.mp h)

section Simple

variable (h : IsSimple (wordsIn scope) t)
include h

theorem lacksWord {w : Text} (hw : w ∈ idiomWords) : ¬ HasWord w t :=
  h.words w (List.mem_append_left _ hw)

theorem optionals_simple : optionals scope t = t := by
  have hmark : '?' ∉ t := h.notMem (by decide)
  rw [optionals, castSuffix_apply (lacksWord h (by decide)),
    typeTest_apply (lacksWord h (by decide)), nilCoalescing_eq hmark, optionalChaining_eq hmark,
    forcedValue_apply (marksApart_of_notMem (h.notMem (by decide)))]

theorem selfThis_simple : Edit.applyAll [.const (edge ++ "self" ++ edge) "this"] t = t :=
  asks_self.replace_eq (List.forall_mem_singleton.mpr (lacksWord h (by decide))) _

theorem typeNames_simple (hscope : ∀ n ∈ scope.constructible, IsWordText n) :
    typeNames scope t = t := by
  have htypes : ∀ w ∈ typeWords, ¬ HasWord w t := fun w hw =>
    lacksWord h (List.mem_append_right _ (List.mem_append_left _ hw))
  have hsquare : '[' ∉ t := h.notMem (by decide)
  have hself : (if scope.typeName.isEmpty then t
      else (edge ++ "Self" ++ edge).replace (fun _ => scope.typeName) t) = t := by
    split
    · rfl
    · exact (asks_word opens_edge
        (fun _ _ hx => List.mem_singleton.mpr (spells_lit_iff.mp hx).1) (by decide)
        closes_edge).replace_eq (List.forall_mem_singleton.mpr (lacksWord h (by decide))) _
  have hraw : rawValueInit.apply t = t := by
    have hword : (lit "(rawValue:").Asks ["rawValue"] :=
      asks_inside (n := "(rawValue:") rfl (by decide) (by decide) (by decide)
    exact ((hword.right _).left _).replace_eq
      (List.forall_mem_singleton.mpr (lacksWord h (by decide))) _
  have hbuilt : (Text.sorted scope.constructible).foldl
      (fun t type => (constructorCall type).apply t) t = t := by
    refine foldl_eq_self fun type htype => ?_
    have hmem := mem_of_mem_sorted htype
    refine (asks_constructorCall (hscope type hmem)).replace_eq
      (List.forall_mem_singleton.mpr (h.words type ?_)) _
    exact List.mem_append_right _ (List.mem_append_left _ hmem)
  have hconvert (fuel pos : Nat) : conversionCalls fuel pos t = t := by
    cases fuel with
    | zero => rfl
    | succ fuel => rw [conversionCalls, asks_conversion.searchAt?_eq_none htypes]
  rw [typeNames, typeEdits_eq htypes (lacksWord h (by decide)) hsquare, hself, hraw,
    hbuilt, dictionaryLiterals_of_notMem hsquare, hconvert]

theorem libraryApi_simple : libraryApi scope t = t := by
  have hwords {ws : List Text} (hws : ws ⊆ functionWords ++ memberWords) :
      ∀ w ∈ ws, ¬ HasWord w t := fun w hw =>
    lacksWord h (List.mem_append_right _ (List.mem_append_right _ (hws hw)))
  have hempty (turns : Nat) : emptinessTests turns t = t := by
    have hasks : (lit ".isEmpty" ++ edge).Asks ["isEmpty"] :=
      asks_end (n := ".isEmpty") rfl (by decide) (by decide) closes_edge
    cases turns with
    | zero => rfl
    | succ turns => rw [emptinessTests, hasks.search?_eq_none (hwords (by decide))]
  have hmembers (own : String → Bool) (edits : List (String × Edit))
      (hedits : ∀ e ∈ edits, e ∈ memberEdits) :
      edits.foldl (fun t e => if own e.1 then t else e.2.apply t) t = t := by
    refine foldl_eq_self fun e he => ?_
    have hword : ¬ HasWord e.1.toList t := hwords (List.Subset.refl _) _
      (List.mem_append_right _ (List.mem_cons_of_mem _ (List.mem_map.mpr ⟨e, hedits e he, rfl⟩)))
    rw [Edit.apply, (asks_memberEdits e (hedits e he)).replace_eq
      (List.forall_mem_singleton.mpr hword), ite_self]
  rw [libraryApi, functionEdits_eq (hwords (List.subset_append_left _ _))]
  dsimp only
  rw [hempty, ite_self]
  exact hmembers (fun member => scope.properties.contains member.toList ||
    scope.methods.contains member.toList) memberEdits fun _ he => he

theorem implicitMembers_simple : implicitMembers scope t = t := by
  rw [implicitMembers]
  split
  · rfl
  · refine replace_of_allIn_eq_nil (List.eq_nil_iff_forall_not_mem.mpr fun m hm => ?_) _
    obtain ⟨-, -, -, k, e, hrun⟩ := (fitsFrom_allIn _ t).of_mem hm
    have hstart : (notAfter (isWord ||| among "$)].") ++ (lit "." ++ (cap 1 cName ++
        (edge ++ notAhead (blanks ++ lit "("))))).run k (placeAt t m.start) = some e := hrun
    rw [run_seq, run_notAfter] at hstart
    obtain ⟨hbefore, hrest⟩ := Option.ite_none_left_eq_some.mp hstart
    obtain ⟨x, gs, d, hx, hpass, -⟩ := covers_run (lit ".") _ _ _ hrest
    have hdot : t.drop m.start = x ++ d.after := hpass.after
    rw [(spells_lit_iff.mp hx).1] at hdot
    have hword := h.dots _ _ ((List.take_append_drop m.start t).symm.trans (congrArg _ hdot))
    obtain ⟨c, hc, hcw⟩ := (Option.any_eq_true _ _).mp hword
    apply hbefore
    rw [placeAt, List.head?_reverse, hc]
    have hset : (isWord c || among "$)]." c) = true := by rw [hcw]; rfl
    exact hset

end Simple

end Swift

theorem qualifyMembers_simple (h : IsSimple (Swift.wordsIn scope) t)
    (hscope : ∀ n ∈ scope.properties ++ scope.methods, IsWordText n) :
    qualifyMembers scope t = t := by
  have hproperty {member : Text} (hm : IsWordText member) : (bareProperty member).Asks [member] :=
    (asks_word opens_fresh (fun _ _ hx => List.mem_singleton.mpr (spells_text_iff.mp hx).1)
      (List.forall_mem_singleton.mpr hm) closes_edge).left _
  have hmethod {member : Text} (hm : IsWordText member) : (bareMethod member).Asks [member] :=
    asks_word opens_fresh (fun _ _ hx => List.mem_singleton.mpr (spells_text_iff.mp hx).1)
      (List.forall_mem_singleton.mpr hm) (closes_blanks_lit (n := "(") rfl (by decide)).isAhead
  have hvisible {names : List Text} (hnames : names ⊆ scope.properties ++ scope.methods) :
      ∀ n ∈ Text.sorted (names.filter (!(scope.parameters ++ localNames t).contains ·)),
        IsWordText n ∧ ∀ w ∈ [n], ¬ HasWord w t := by
    intro n hn
    obtain ⟨hn, hshadow⟩ := List.mem_filter.mp (Swift.mem_of_mem_sorted hn)
    simp only [List.contains_append, Bool.not_or, Bool.and_eq_true] at hshadow
    refine ⟨hscope n (hnames hn), List.forall_mem_singleton.mpr (h.words n ?_)⟩
    exact List.mem_append_right _ (List.mem_append_right _
      (List.mem_filter.mpr ⟨hnames hn, hshadow.1⟩))
  have hproperties := hvisible (List.subset_append_left scope.properties scope.methods)
  have hmethods := hvisible (List.subset_append_right scope.properties scope.methods)
  rw [qualifyMembers]
  split
  · rfl
  · dsimp only
    rw [foldl_eq_self fun n hn =>
        (hproperty (hproperties n hn).1).replace_eq (hproperties n hn).2 _,
      foldl_eq_self fun n hn => (hmethod (hmethods n hn).1).replace_eq (hmethods n hn).2 _]

open Swift in
/-- Swift's idioms rephrase the declarations of simple code, drop its labels and end its
statements. -/
theorem applyAll_swiftIdioms_simple (h : IsSimple (wordsIn scope) t)
    (hu : IsSimple (wordsIn scope) (perLine declarations scope t))
    (hv : IsSimple (wordsIn scope) (argumentLabels scope (perLine declarations scope t)))
    (htypes : ∀ n ∈ scope.constructible, IsWordText n)
    (hmembers : ∀ n ∈ scope.properties ++ scope.methods, IsWordText n) :
    applyAll scope swiftIdioms t =
      .ok (terminateStatements scope (argumentLabels scope (perLine declarations scope t))) := by
  have hbrace : '{' ∉ t := h.notMem (by decide)
  have hclose : ∀ line ∈ t.lines, ¬ ['}'] <:+: line := fun line hline hin =>
    h.notMem (c := '}') (by decide)
      (Text.mem_of_mem_lines hline _ ((List.singleton_infix_iff _ _).mp hin))
  have htail : whileTail.Needs ['}'] := by
    have hneeds : (lit "\x7d").Needs ['}'] := needs_lit (by decide)
    exact hneeds.right.left.left.left.left.left.left.left.left
  have hloops : perLine rangeLoops scope t = t := perLine_eq fun line hline =>
    rangeLoops_eq (fun hmem => hbrace (Text.mem_of_mem_lines hline _ hmem))
      (htail.match?_eq_none (hclose line hline))
  have hkeep {t : Text} (h : IsSimple (wordsIn scope) t) (o : MaskOptions) {f : Scope → Text → Text}
      (hf : f scope t = t) : outsideLiterals o (always f) scope t = .ok t :=
    h.outsideLiterals_eq o (congrArg Except.ok hf) h
  refine Eq.trans (applyAll_cons (convertClosures_eq hbrace)) ?_
  refine Eq.trans (applyAll_cons (congrArg Except.ok
    (interpolateWithin_of_quote_notMem (h.notMem (by decide)) _))) ?_
  refine Eq.trans (applyAll_cons (congrArg Except.ok hloops)) ?_
  refine Eq.trans (applyAll_cons (hkeep h .all
    (errorHandling_eq hbrace (lacksWord h (by decide))))) ?_
  refine Eq.trans (applyAll_cons (congrArg Except.ok (optionalBinding_eq hbrace))) ?_
  refine Eq.trans (applyAll_cons rfl) ?_
  refine Eq.trans (applyAll_cons (hkeep hu .all (optionals_simple hu))) ?_
  refine Eq.trans (applyAll_cons (hkeep hu .chunked (selfThis_simple hu))) ?_
  refine Eq.trans (applyAll_cons (hkeep hu .chunked (typeNames_simple hu htypes))) ?_
  refine Eq.trans (applyAll_cons (hkeep hu .chunked (libraryApi_simple hu))) ?_
  refine Eq.trans (applyAll_cons (hu.outsideLiterals_eq .all rfl hv)) ?_
  refine Eq.trans (applyAll_cons (hkeep hv .chunked (qualifyMembers_simple hv hmembers))) ?_
  refine Eq.trans (applyAll_cons (hkeep hv .chunked (implicitMembers_simple hv))) ?_
  refine Eq.trans (applyAll_cons (hkeep hv .all (perLine_eq fun line hline =>
    parenthesizeControl_eq fun hmem =>
      hv.notMem (by decide) (Text.mem_of_mem_lines hline _ hmem)))) ?_
  refine Eq.trans (applyAll_cons (hv.outsideLiterals_eq .all
    (switchCases_eq (hv.notMem (by decide))) hv)) ?_
  exact applyAll_cons rfl

end HostScript.Body
