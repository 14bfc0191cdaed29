import HostScript.Body.Swift
import HostScript.Body.Swift.Library
import HostScript.Proofs.Body.SwiftOptionals
import HostScript.Proofs.Script.Divided

/-!
# Types, members and labels

What the idioms for types, for the library and for calls exchange stands apart. Most of it tells no
mark; what may hold one is the arguments of a few calls, whose places change, and what some edits
drop, a label or a set of characters.
-/

namespace HostScript.Body

open Script Pattern

namespace Swift

variable {n : Nat} {t : Text} {scope : Scope}

/-!
## Types
-/

/-- The arguments of an array of equal members change places. -/
theorem isSafe_repeating : ∀ e ∈ (typeEdits.drop 6).take 1, e.IsSafe := by
  intro e he n t m hm _ _
  obtain rfl := List.mem_singleton.mp he
  refine exchanged_whole (.left (.left (.left (.left (.left (.left (.left (.left
    (.left opens_edge.startsParted _) _) _) _) _) _) _) _) _)
    (EndsOutside.right (endsOutside_lit (by decide)) _).endsParted hm ?_
  obtain ⟨gs, hx, hgroups⟩ := spells_of_mem_allIn hm
  obtain ⟨_, htext, h₁⟩ := hx.of_append_lit
  obtain ⟨_, b, _, _, rfl, rfl, hb, h₂⟩ := h₁.of_append_cap
  obtain ⟨_, g₃, rfl, hg₃, h₃⟩ := h₂.of_append_blanks
  obtain ⟨_, rfl, h₄⟩ := h₃.of_append_lit
  obtain ⟨_, g₂, rfl, hg₂, h₅⟩ := h₄.of_append_blanks
  obtain ⟨_, rfl, h₆⟩ := h₅.of_append_lit
  obtain ⟨_, a, _, _, rfl, rfl, ha, h₇⟩ := h₆.of_append_cap
  obtain ⟨_, g₁, rfl, hg₁, h₈⟩ := h₇.of_append_blanks
  obtain ⟨_, rfl, h₉⟩ := h₈.of_append_lit
  obtain ⟨rfl, rfl⟩ := spells_edge_iff.mp h₉
  obtain ⟨-, -, rfl⟩ := ha.of_rounds_one
  obtain ⟨-, -, rfl⟩ := hb.of_rounds_one
  have hfirst : m.group 1 = a := by simp [Match.group, hgroups, List.lookup_cons]
  have hsecond : m.group 2 = b := by simp [Match.group, hgroups]
  have hswapped := keepsMarks_swapped (n := n) (a := a) (b := b) _
    ("," ++ (g₂ ++ ("count:" ++ g₃))) ")".toList "new Array(".toList ").fill(".toList ")".toList
    (StandsBefore.append_blanks (x := "Array(repeating:".toList) (by decide) hg₁)
    ⟨.append_right (by decide) (.append_right (tell_notMem_blank hg₂)
        (.append_blanks (by decide) hg₃) (by simp)) (by simp),
      .append_left (by decide) (by simp) (by simp [tell_notMem_blank hg₂, tell_notMem_blank hg₃])⟩
    (by simp) (by decide) (by decide) (by decide) (by decide)
  dsimp only
  rw [htext, hfirst, hsecond]
  simpa using hswapped

/-- Edits of types keep what they do not drop. -/
theorem isSafe_typeEdits : ∀ e ∈ typeEdits, e.IsSafe := by
  have hedge := opens_edge.startsParted
  have hend := opens_edge.endsParted
  have hempty : typeArguments.EndsParted :=
    (EndsOutside.right (endsOutside_lit (by decide)) _).endsParted
  refine List.forall_iff_forall_mem.mp
    ⟨?nil, ?max, ?min, ?pi, ?infinity, ?greatest, isSafe_repeating _ (List.mem_singleton_self _),
      ?noEntries, ?noItems, ?emptyEntries, ?dictionary, ?array, ?setOf, ?set, ?describing, ?format⟩
  case nil => exact isSafe_const (.left (.left hedge _) _) (hend.right _) (by decide)
  case max => exact isSafe_const (.left (.left hedge _) _) (hend.right _) (by decide)
  case min => exact isSafe_const (.left (.left hedge _) _) (hend.right _) (by decide)
  case pi => exact isSafe_const (.left (.left (.left hedge _) _) _) (hend.right _) (by decide)
  case infinity => exact isSafe_const (.left (.left (.left hedge _) _) _) (hend.right _) (by decide)
  case greatest => exact isSafe_const (.left (.left (.left hedge _) _) _) (hend.right _) (by decide)
  case noEntries =>
    exact isSafe_const
      (.left (.left (.left (.left (.left (.left (startsParted_lit (by decide)) _) _) _) _) _) _)
      (EndsOutside.right (endsOutside_lit (by decide)) _).endsParted (by decide)
  case noItems =>
    exact isSafe_const (.left (.left (startsParted_lit (by decide)) _) _)
      (EndsOutside.right (endsOutside_lit (by decide)) _).endsParted (by decide)
  case emptyEntries =>
    exact isSafe_const (startsParted_lit (by decide)) (endsOutside_lit (by decide)).endsParted (by decide)
  case dictionary => exact isSafe_const (.left (.left hedge _) _) (hempty.right _) (by decide)
  case array => exact isSafe_const (.left (.left hedge _) _) (hempty.right _) (by decide)
  case setOf => exact isSafe_const (.left (.left hedge _) _) (hempty.right _) (by decide)
  case set =>
    exact isSafe_const (.left (opens_fresh.behind_append _ _ _).startsParted _)
      (EndsOutside.right (endsOutside_lit (by decide)) _).endsParted (by decide)
  case describing =>
    exact isSafe_const (.left (.left hedge _) _)
      (EndsOutside.right (endsOutside_lit (by decide)) _).blanks.endsParted (by decide)
  case format =>
    exact isSafe_const (.left (.left hedge _) _)
      (EndsOutside.right (endsOutside_lit (by decide)) _).blanks.endsParted (by decide)

/-- The type of a raw value stays. -/
theorem keepsMarks_rawValueInit : KeepsMarks n t (rawValueInit.apply t) := by
  refine keepsMarks_replace fun m hm => ?_
  obtain ⟨-, hend⟩ := parted_of_mem_allIn hm
  have hafter := hend (EndsOutside.right (endsOutside_lit (by decide)) _).blanks.endsParted
  obtain ⟨gs, hx, hgroups⟩ := spells_of_mem_allIn hm
  obtain ⟨_, b, htext, hb, h₁⟩ := hx.of_append_blanks
  obtain ⟨_, rfl, h₂⟩ := h₁.of_append_lit
  obtain ⟨_, type, _, _, rfl, rfl, htype, h₃⟩ := h₂.of_append_cap
  obtain ⟨rfl, rfl⟩ := spells_fresh_iff.mp h₃
  have hgroup : m.group 1 = type := by simp [Match.group, hgroups]
  have hshape : m.text = type ++ (("(rawValue:".toList ++ b) ++ []) := by rw [htext]; simp
  refine ⟨type, "(rawValue:".toList ++ b, [], ".fromRawValue(".toList, hshape, ?_, .inr rfl, ?_, ?_⟩
  · rw [← hgroup, List.append_nil]
    rfl
  · rw [hshape, List.append_nil] at hafter
    exact hafter
  · exact keepsMarks_code (by simp [tell_notMem_blank hb]) (by decide)

/-- A constructor call keeps the name of its type. -/
theorem keepsMarks_constructorCall (type : Text) :
    KeepsMarks n t ((constructorCall type).apply t) := by
  refine keepsMarks_replace fun m hm => ?_
  refine exchanged_whole (.left (.left (.left (.left opens_fresh.startsParted _) _) _) _)
    (EndsOutside.right (endsOutside_lit (by decide)) _).endsParted hm ?_
  obtain ⟨gs, hx, -⟩ := spells_of_mem_allIn hm
  simp only [constructorCall, spells_append_iff, spells_lit_iff, spells_text_iff, notAfterText,
    spells_fresh_iff, spells_behind_iff] at hx
  obtain ⟨_, _, _, _, htext, -, ⟨_, init, _, _, rfl, -, ⟨_, _, _, _, rfl, -,
    ⟨_, _, _, _, rfl, -, ⟨rfl, -⟩, rfl, -⟩, htype, -⟩, hinit⟩, rfl, -⟩ := hx
  have hinit : init = [] ∨ init = ".init".toList :=
    hinit.of_opt.imp And.left fun h => (spells_lit_iff.mp h).1
  have hlast : StandsBehind (init ++ "(") := by
    rcases hinit with rfl | rfl <;> decide
  have hkept := keepsMarks_around (n := n) [] _ "new ".toList "(".toList (by decide) hlast
    (by decide) (by decide) (.refl type)
  have hvalue : (constructorCall type).replacement m = "new ".toList ++ (type ++ "(".toList) := by
    simp [constructorCall]
  rw [htext, htype, hvalue]
  simpa using hkept

/-- A conversion exchanges what stands around a value. -/
theorem convertedValue_eq (type inner : Text) : ∃ first last,
    (∀ c ∈ first, isTameCode c = true) ∧ (∀ c ∈ last, isTameCode c = true) ∧
      convertedValue type inner = first ++ (inner ++ last) := by
  rw [convertedValue]
  split_ifs
  · exact ⟨"Math.trunc(Number(".toList, "))".toList, by decide, by decide, List.append_assoc ..⟩
  · exact ⟨"Boolean(".toList, ")".toList, by decide, by decide, List.append_assoc ..⟩
  · exact ⟨"Number(".toList, ")".toList, by decide, by decide, List.append_assoc ..⟩

/-- Conversions exchange code around their values. -/
theorem keepsMarks_conversionCalls (fuel pos : Nat) (t : Text) :
    KeepsMarks n t (conversionCalls fuel pos t) := by
  induction fuel generalizing pos t with
  | zero => exact .refl t
  | succ fuel ih =>
    rw [conversionCalls]
    split
    · exact .refl t
    · rename_i m hm
      dsimp only
      split
      · exact ih _ _
      · rename_i close hclose
        refine .trans ?_ (ih _ _)
        obtain ⟨ht, -, hstop, gs, hx, hgroups, k, e, hrun⟩ := split_of_searchAt? hm
        obtain ⟨_, htext, h₁⟩ := hx.of_append_lit
        obtain ⟨_, type, _, _, rfl, rfl, htype, h₂⟩ := h₁.of_append_cap
        obtain ⟨rfl, rfl⟩ := spells_fresh_iff.mp h₂
        obtain ⟨⟨w, hw, rfl⟩, rfl⟩ := (spells_choice_iff (by decide)).mp htype
        have hstart : Parted m.before (m.text ++ m.after) := by
          have hparted := (StartsParted.left (.left opens_fresh.startsParted _) _) hrun
          rw [Cursor.IsParted, placeAt] at hparted
          dsimp only at hparted
          rwa [List.reverse_reverse, ht, List.take_left, List.drop_left] at hparted
        generalize m.before = u, m.after = v at *
        rw [htext] at ht hstop hstart
        have hopen : m.stop - 1 = (u ++ w.toList).length := by
          rw [hstop]
          simp
        have hshape : t = (u ++ w.toList) ++ '(' :: v := by rw [ht]; simp
        rw [hopen] at hclose ⊢
        obtain ⟨inner, more, rfl, -, hslice, hdrop⟩ :=
          Source.of_closing?_eq_some hshape rfl hclose
        obtain ⟨first, last, hfirst, hlast, hvalue⟩ := convertedValue_eq (m.group 1) inner
        have hnames : ∀ w ∈ ["Int", "Double", "Float", "CGFloat", "Bool"], 'J' ∉ w.toList := by
          decide
        have hkept : KeepsMarks n (u ++ ((w.toList ++ "(".toList) ++ (inner ++ (")".toList ++ more))))
            (u ++ (first ++ (inner ++ (last ++ more)))) :=
          .append (by simpa using hstart) (.refl u)
            (.append (.inl (endsIn_concat _ _ _)) (keepsMarks_code (by simp [hnames w hw]) hfirst)
              (.append (.inr rfl) (.refl inner)
                (.append (.inl rfl) (keepsMarks_code (by decide) hlast) (.refl more))))
        rw [hslice, hdrop, hvalue, hshape]
        simpa using hkept

/-- Lists of entries get other brackets. -/
theorem keepsMarks_dictionaryLiterals (fuel pos : Nat) (t : Text) :
    KeepsMarks n t (dictionaryLiterals fuel pos t) := by
  induction fuel generalizing pos t with
  | zero => exact .refl t
  | succ fuel ih =>
    rw [dictionaryLiterals]
    split
    · exact .refl t
    · rename_i open_ hopen
      refine .trans ?_ (ih _ _)
      split
      · exact .refl t
      · split
        · exact .refl t
        · rename_i close hclose
          dsimp only
          split
          case isFalse => exact .refl t
          obtain ⟨j, hj, rfl⟩ := Option.map_eq_some_iff.mp hopen
          obtain ⟨rest, hrest⟩ := Text.isPrefix_of_indexOf? hj
          rw [List.drop_drop, Nat.add_comm] at hrest
          have hle : j + pos < t.length := by
            have := congrArg List.length hrest
            simp at this
            omega
          have hlength : (t.take (j + pos)).length = j + pos := List.length_take_of_le hle.le
          have hshape : t = t.take (j + pos) ++ '[' :: rest :=
            (List.take_append_drop (j + pos) t).symm.trans (by rw [← hrest]; rfl)
          generalize t.take (j + pos) = u at *
          rw [← hlength] at hclose ⊢
          obtain ⟨inner, more, rfl, -, hslice, hdrop⟩ :=
            Source.of_closing?_eq_some hshape rfl hclose
          have hkept : KeepsMarks n (u ++ ("[".toList ++ (inner ++ ("]".toList ++ more))))
              (u ++ ("\x7b".toList ++ (inner ++ ("\x7d".toList ++ more)))) :=
            .append (.inr rfl) (.refl u) (.append (.inl rfl) (keepsMarks_code (by decide) (by decide))
              (.append (.inr rfl) (.refl inner)
                (.append (.inl rfl) (keepsMarks_code (by decide) (by decide)) (.refl more))))
          rw [hslice, hdrop, hshape]
          simpa using hkept

/-- Without colons no square brackets hold entries. -/
theorem dictionaryLiterals_eq (h : ':' ∉ t) (fuel pos : Nat) : dictionaryLiterals fuel pos t = t := by
  have hlist (inside : Text) (hin : ∀ c ∈ inside, c ∈ t) : isDictionaryBody inside = false := by
    rw [isDictionaryBody]
    cases hentries : Source.splitTopLevel .conditions inside with
    | nil => rfl
    | cons e es =>
      have he : ∀ c ∈ e, [c] ≠ Source.SplitRule.entries.separator := by
        intro c hc hsep
        have hmem : e ∈ Source.splitTopLevel .conditions inside := by
          rw [hentries]
          exact List.mem_cons_self ..
        have hcolon : c = ':' := (List.cons.inj hsep).1
        exact h (hcolon ▸ hin c (mem_of_mem_splitTopLevel hmem c hc))
      have hlen := length_splitTopLevel_le he
      have hne : ((Source.splitTopLevel .entries e).length == 2) = false := by
        rw [beq_eq_false_iff_ne]
        omega
      simp [hne]
  induction fuel generalizing pos with
  | zero => rfl
  | succ fuel ih =>
    rw [dictionaryLiterals]
    split
    · rfl
    · dsimp only
      split
      · exact ih _
      · split
        · exact ih _
        · rw [hlist (t.slice _ _) fun c hc => List.mem_of_mem_take (List.mem_of_mem_drop hc)]
          exact ih _

/-- The name of the enclosing type is tame code. -/
theorem keepsMarks_typeNames (hname : ∀ c ∈ scope.typeName, isTameCode c = true)
    (ht : Edit.SpareAll typeEdits t) : KeepsMarks n t (typeNames scope t) := by
  refine .trans (keepsMarks_applyAll isSafe_typeEdits ht) (.trans ?self (.trans keepsMarks_rawValueInit
    (.trans (keepsMarks_foldl fun type _ t => keepsMarks_constructorCall type)
      (.trans (keepsMarks_dictionaryLiterals _ _ _) (keepsMarks_conversionCalls _ _ _)))))
  split
  · exact .refl _
  · refine keepsMarks_replace fun m hm => exchanged_whole
      (.left (.left opens_edge.startsParted _) _) (opens_edge.endsParted.right _) hm ?_
    obtain ⟨gs, hx, -⟩ := spells_of_mem_allIn hm
    simp only [spells_append_iff, spells_lit_iff, spells_edge_iff] at hx
    obtain ⟨_, _, _, _, htext, -, ⟨_, _, _, _, rfl, -, ⟨rfl, -⟩, rfl, -⟩, rfl, -⟩ := hx
    rw [htext]
    exact keepsMarks_code (by decide) hname

/-!
## Library
-/

/-- The names of mathematical functions. -/
def mathNames : List String :=
  ["sqrt", "pow", "abs", "floor", "ceil", "round", "sin", "cos", "tan", "atan2", "exp", "log", "min",
    "max"]

/-- The arguments of an insertion change places. -/
theorem isSafe_insert : ∀ e ∈ (memberEdits.drop 3).take 1, e.2.IsSafe := by
  intro e he n t m hm _ _
  obtain rfl := List.mem_singleton.mp he
  refine exchanged_whole (.left (.left (.left (.left (.left (.left (.left
    (startsParted_lit (by decide)) _) _) _) _) _) _) _)
    (EndsOutside.right (endsOutside_lit (by decide)) _).endsParted hm ?_
  obtain ⟨gs, hx, hgroups⟩ := spells_of_mem_allIn hm
  obtain ⟨_, htext, h₁⟩ := hx.of_append_lit
  obtain ⟨_, b, _, _, rfl, rfl, hb, h₂⟩ := h₁.of_append_cap
  obtain ⟨_, g₂, rfl, hg₂, h₃⟩ := h₂.of_append_blanks
  obtain ⟨_, rfl, h₄⟩ := h₃.of_append_lit
  obtain ⟨_, g₁, rfl, hg₁, h₅⟩ := h₄.of_append_blanks
  obtain ⟨_, rfl, h₆⟩ := h₅.of_append_lit
  obtain ⟨_, a, _, _, rfl, rfl, ha, h₇⟩ := h₆.of_append_cap
  obtain ⟨rfl, rfl⟩ := spells_lit_iff.mp h₇
  obtain ⟨-, -, rfl⟩ := ha.of_rounds_one
  obtain ⟨-, -, rfl⟩ := hb.of_rounds_one
  have hfirst : m.group 1 = a := by simp [Match.group, hgroups, List.lookup_cons]
  have hsecond : m.group 2 = b := by simp [Match.group, hgroups]
  have hswapped := keepsMarks_swapped (n := n) (a := a) (b := b) ".insert(".toList
    ("," ++ (g₁ ++ ("at:" ++ g₂))) ")".toList ".splice(".toList ", 0, ".toList ")".toList (by decide)
    ⟨.append_right (by decide) (.append_right (tell_notMem_blank hg₁)
        (.append_blanks (by decide) hg₂) (by simp)) (by simp),
      .append_left (by decide) (by simp) (by simp [tell_notMem_blank hg₁, tell_notMem_blank hg₂])⟩
    (by simp) (by decide) (by decide) (by decide) (by decide)
  dsimp only
  rw [htext, hfirst, hsecond]
  simpa using hswapped

/-- The place of a removal stays. -/
theorem isSafe_remove : ∀ e ∈ (memberEdits.drop 4).take 1, e.2.IsSafe := by
  intro e he n t m hm _ _
  obtain rfl := List.mem_singleton.mp he
  refine exchanged_whole (.left (.left (.left (startsParted_lit (by decide)) _) _) _)
    (EndsOutside.right (endsOutside_lit (by decide)) _).endsParted hm ?_
  obtain ⟨gs, hx, hgroups⟩ := spells_of_mem_allIn hm
  obtain ⟨_, htext, h₁⟩ := hx.of_append_lit
  obtain ⟨_, a, _, _, rfl, rfl, ha, h₂⟩ := h₁.of_append_cap
  obtain ⟨_, g, rfl, hg, h₃⟩ := h₂.of_append_blanks
  obtain ⟨rfl, rfl⟩ := spells_lit_iff.mp h₃
  have hgroup : m.group 1 = a := by simp [Match.group, hgroups]
  have hkept := keepsMarks_around (n := n) (".remove(at:" ++ g) ")".toList ".splice(".toList
    ", 1)[0]".toList (.append_blanks (by decide) hg) (by decide) (by decide) (by decide) (.refl a)
  dsimp only
  rw [htext, hgroup]
  simpa using hkept

/-- Library members keep what they do not drop. -/
theorem isSafe_memberEdits : ∀ e ∈ memberEdits, e.2.IsSafe := by
  have hcalled : notCalled.EndsParted := (opens_edge.append_notAhead _).endsParted
  have hblanks {s : String} (hs : s.toList.getLast?.any (outside isWord) = true) :
      (lit s ++ blanks).EndsParted := (endsOutside_lit hs).blanks.endsParted
  refine List.forall_iff_forall_mem.mp
    ⟨?count, ?appendAll, ?append, isSafe_insert _ (List.mem_singleton_self _),
      isSafe_remove _ (List.mem_singleton_self _), ?removeLast, ?removeFirst, ?removeAll, ?contains,
      ?first, ?last, ?uppercased, ?lowercased, ?hasPrefix, ?hasSuffix, ?joinedWith, ?joined,
      ?sorted, ?reversed, ?components, ?split, ?trimming, ?description, ?rawValue⟩
  case count =>
    exact isSafe_const (.left (startsParted_lit (by decide)) _) (hcalled.right _) (by decide)
  case first =>
    exact isSafe_const (.left (startsParted_lit (by decide)) _) (hcalled.right _) (by decide)
  case last =>
    exact isSafe_const (.left (startsParted_lit (by decide)) _) (hcalled.right _) (by decide)
  case description =>
    exact isSafe_const (.left (startsParted_lit (by decide)) _) (hcalled.right _) (by decide)
  case rawValue =>
    exact isSafe_const (.left (startsParted_lit (by decide)) _) (opens_edge.endsParted.right _)
      (by decide)
  case appendAll =>
    exact isSafe_const (.left (startsParted_lit (by decide)) _) (hblanks (by decide)) (by decide)
  case joinedWith =>
    exact isSafe_const (.left (startsParted_lit (by decide)) _) (hblanks (by decide)) (by decide)
  case components =>
    exact isSafe_const (.left (startsParted_lit (by decide)) _) (hblanks (by decide)) (by decide)
  case split =>
    exact isSafe_const (.left (startsParted_lit (by decide)) _) (hblanks (by decide)) (by decide)
  case trimming =>
    exact isSafe_const (.left (.left (.left (startsParted_lit (by decide)) _) _) _)
      (EndsOutside.right (endsOutside_lit (by decide)) _).endsParted (by decide)
  all_goals
    refine isSafe_const (startsParted_lit ?_) (endsOutside_lit ?_).endsParted ?_ <;> decide

/-- Functions with a script form are known by their names. -/
theorem keepsMarks_functionEdits : KeepsMarks n t (Edit.applyAll functionEdits t) := by
  have hopens {p : Pattern} : (fresh ++ p).StartsParted := .left opens_fresh.startsParted _
  have hmath (t : Text) : KeepsMarks n t
      (Pattern.replace (fresh ++ cap 1 (choice mathNames) ++ blanks ++ "(")
        (fun m => "Math." ++ m.group 1 ++ "(") t) := by
    refine keepsMarks_replace fun m hm => exchanged_whole (.left (.left hopens _) _)
      (EndsOutside.right (endsOutside_lit (by decide)) _).endsParted hm ?_
    obtain ⟨gs, hx, hgroups⟩ := spells_of_mem_allIn hm
    obtain ⟨_, htext, h₁⟩ := hx.of_append_lit
    obtain ⟨_, b, rfl, hb, h₂⟩ := h₁.of_append_blanks
    obtain ⟨_, name, _, _, rfl, rfl, hname, h₃⟩ := h₂.of_append_cap
    obtain ⟨rfl, rfl⟩ := spells_fresh_iff.mp h₃
    obtain ⟨⟨w, hw, rfl⟩, rfl⟩ := (spells_choice_iff (by decide)).mp hname
    have hgroup : m.group 1 = w.toList := by simp [Match.group, hgroups]
    have hnames : ∀ w ∈ mathNames, ∀ c ∈ w.toList, isTameCode c = true ∧ c ≠ 'J' := by decide
    rw [htext, hgroup]
    refine keepsMarks_code ?_ ?_
    · have htell : 'J' ∉ w.toList := fun hmem => (hnames w hw _ hmem).2 rfl
      simp [htell, tell_notMem_blank hb]
    · simp only [List.forall_mem_append]
      exact ⟨⟨by decide, fun c hc => (hnames w hw c hc).1⟩, by decide⟩
  refine keepsMarks_foldl (List.forall_iff_forall_mem.mp ⟨?print, ?fatalError, ?assert, hmath⟩)
  case print =>
    exact fun _ => keepsMarks_const _ hopens (EndsOutside.right (endsOutside_lit (by decide)) _).endsParted
      ⟨trivial, within_text (by decide)⟩ (by decide)
  case fatalError =>
    exact fun _ => keepsMarks_const _ hopens (EndsOutside.right (endsOutside_lit (by decide)) _).endsParted
      ⟨trivial, within_text (by decide)⟩ (by decide)
  case assert =>
    exact fun _ => keepsMarks_const _ (.left hopens _)
      (EndsOutside.right (endsOutside_lit (by decide)) _).endsParted
      ⟨⟨trivial, within_choice (by decide)⟩, within_text (by decide)⟩ (by decide)

/-- Each test for emptiness becomes a test of its operand's length. -/
theorem keepsMarks_emptinessTests (turns : Nat) (t : Text) :
    KeepsMarks n t (emptinessTests turns t) := by
  induction turns generalizing t with
  | zero => exact .refl t
  | succ turns ih =>
    rw [emptinessTests]
    split
    · exact .refl t
    · rename_i m hm
      have hparted := (parted_of_mem_allIn (mem_allIn_of_search? hm)).2
        (opens_edge.endsParted.right _)
      refine .trans ?_ (ih _)
      obtain ⟨ht, hstart, -, gs, hx, -, -⟩ := split_of_searchAt? hm
      obtain ⟨_, _, _, _, htext, -, hx, hedge⟩ := spells_append_iff.mp hx
      obtain ⟨rfl, -⟩ := spells_lit_iff.mp hx
      obtain ⟨rfl, -⟩ := spells_edge_iff.mp hedge
      generalize m.before = u, m.after = v at *
      rw [htext, List.append_nil] at ht hparted
      obtain ⟨before, operand, rfl, hbefore, htake, hoperand⟩ :=
        exists_operand_parts u (".isEmpty".toList ++ v)
      rw [ht, hstart, htake, hoperand]
      have hkept : KeepsMarks n (before ++ (operand ++ (".isEmpty".toList ++ v)))
          (before ++ (("(".toList ++ operand) ++ (".length === 0)".toList ++ v))) :=
        .append (.inl hbefore) (.refl before) (.append (.inr rfl)
          (.code_append (by decide) (.refl operand)) (.append (.of_suffix _ hparted)
            (keepsMarks_code (by decide) (by decide)) (.refl v)))
      simpa using hkept

/-- The edits of members that the enclosing type does not declare itself. -/
def libraryEdits (scope : Scope) : List Edit :=
  (memberEdits.filter fun e =>
    !(scope.properties.contains e.1.toList || scope.methods.contains e.1.toList)).map (·.2)

/-- The text before members are rephrased. -/
def beforeMembers (scope : Scope) (t : Text) : Text :=
  if scope.properties.contains "isEmpty".toList || scope.methods.contains "isEmpty".toList then
    Edit.applyAll functionEdits t
  else emptinessTests operatorRounds (Edit.applyAll functionEdits t)

theorem libraryApi_eq (scope : Scope) (t : Text) :
    libraryApi scope t = Edit.applyAll (libraryEdits scope) (beforeMembers scope t) := by
  have hfold (edits : List (String × Edit)) (own : String → Bool) (t : Text) :
      edits.foldl (fun t e => if own e.1 then t else e.2.apply t) t =
        Edit.applyAll ((edits.filter fun e => !own e.1).map (·.2)) t := by
    rw [Edit.applyAll, List.foldl_map, List.foldl_filter]
    congr 1
    funext t e
    cases hown : own e.1 <;> simp
  exact hfold memberEdits (fun member =>
    scope.properties.contains member.toList || scope.methods.contains member.toList)
      (beforeMembers scope t)

/-- Functions and members of the library keep what the edits of members do not drop. -/
theorem keepsMarks_libraryApi (ht : Edit.SpareAll (libraryEdits scope) (beforeMembers scope t)) :
    KeepsMarks n t (libraryApi scope t) := by
  rw [libraryApi_eq]
  refine .trans keepsMarks_functionEdits (.trans ?tests (keepsMarks_applyAll (fun e he => ?_) ht))
  · rw [beforeMembers]
    split
    · exact .refl _
    · exact keepsMarks_emptinessTests _ _
  · obtain ⟨e', he', rfl⟩ := List.mem_map.mp he
    exact isSafe_memberEdits e' (List.mem_of_mem_filter he')

/-!
## Members and labels
-/

/-- The receiver changes its name. -/
theorem keepsMarks_selfThis :
    KeepsMarks n t (Edit.applyAll [.const (edge ++ "self" ++ edge) "this"] t) :=
  keepsMarks_const _ (.left (.left opens_edge.startsParted _) _) (.right opens_edge.endsParted _)
    ⟨⟨trivial, within_text (by decide)⟩, trivial⟩ (by decide)

/-- The owners of cases are tame code. -/
theorem keepsMarks_implicitMembers
    (howners : ∀ owner ∈ scope.enumCases, ∀ c ∈ owner.2, isTameCode c = true) :
    KeepsMarks n t (implicitMembers scope t) := by
  rw [implicitMembers]
  split
  · exact .refl t
  refine keepsMarks_replace fun m hm => ?_
  have hstart : (notAfter (isWord ||| among "$)].") ++ "." ++ cap 1 cName ++ edge ++
      notAhead (blanks ++ "(")).StartsParted := by
    refine .left (.left (.left ?_ _) _) _
    refine startsParted_of_spells fun x gs hx => ?_
    obtain ⟨y, rfl, hy⟩ := hx.of_append_lit
    obtain ⟨rfl, -⟩ := spells_behind_iff.mp hy
    exact ⟨'.', [], rfl, by decide⟩
  have hfront {w : Text} (hw : ∀ c ∈ w, isTameCode c = true) :=
    exchanged_front (n := n) hstart hm hw
  split
  case h_2 => exact hfront (List.forall_mem_nil _)
  rename_i owner howner
  split
  · exact hfront (List.forall_mem_nil _)
  · obtain ⟨gs, hx, hgroups⟩ := spells_of_mem_allIn hm
    obtain ⟨_, _, _, _, htext, rfl, h₁, h₂⟩ := spells_append_iff.mp hx
    obtain ⟨rfl, rfl⟩ := spells_notAhead_iff.mp h₂
    obtain ⟨_, _, _, _, rfl, rfl, h₃, h₄⟩ := spells_append_iff.mp h₁
    obtain ⟨rfl, rfl⟩ := spells_edge_iff.mp h₄
    obtain ⟨_, name, _, _, rfl, rfl, hname, h₅⟩ := h₃.of_append_cap
    obtain ⟨_, rfl, h₆⟩ := h₅.of_append_lit
    obtain ⟨rfl, rfl⟩ := spells_behind_iff.mp h₆
    have hgroup : m.group 1 = name := by simp [Match.group, hgroups]
    have hvalue : owner ++ "." ++ m.group 1 = owner ++ m.text := by
      rw [htext, hgroup]
      simp
    rw [hvalue]
    obtain ⟨l, r, hcases, -⟩ := List.lookup_eq_some_iff.mp howner
    exact hfront (howners _ (hcases ▸ List.mem_append_right _ (List.mem_cons_self ..)))

/-- Drops the labels of the calls in a text. -/
def labelEdit (t : Text) : Edit :=
  ⟨labelBefore, fun m =>
    if ((openBrackets [] t)[m.start]?).join == some '(' ||
      (m.start > 0 && t[m.start - 1]? == some '(') then m.group 1 else m.text⟩

/-- Labels go that are no literals. -/
theorem keepsMarks_argumentLabels (ht : (labelEdit t).Spares t) :
    KeepsMarks n t (argumentLabels scope t) := by
  refine keepsMarks_replace fun m hm => exchanged_whole (p := labelBefore) ?start ?stop hm ?_
  case start =>
    refine .left (.left (.left (.left (.left (.left (startsParted_after fun c hc => ?_) _) _) _) _) _) _
    have hword : ∀ c ∈ "(,".toList, isWord c = false := by decide
    exact hword c (List.contains_iff_mem.mp hc)
  case stop =>
    exact ((EndsOutside.right (endsOutside_lit (by decide)) _).append_notAhead _).blanks.endsParted
  have hspares := ht m hm
  have hvalue : (labelEdit t).replacement m =
      if ((openBrackets [] t)[m.start]?).join == some '(' ||
        (m.start > 0 && t[m.start - 1]? == some '(') then m.group 1 else m.text := rfl
  rw [hvalue] at hspares
  dsimp only
  split at hspares
  case isFalse hkeep =>
    rw [if_neg hkeep]
    exact .refl _
  rename_i hdrop
  rw [if_pos hdrop]
  obtain ⟨gs, hx, hgroups⟩ := spells_of_mem_allIn hm
  obtain ⟨_, b, -, -, h₁⟩ := hx.of_append_blanks
  obtain ⟨_, _, _, _, rfl, rfl, h₂, h₃⟩ := spells_append_iff.mp h₁
  obtain ⟨rfl, rfl⟩ := spells_notAhead_iff.mp h₃
  obtain ⟨_, rfl, h₄⟩ := h₂.of_append_lit
  obtain ⟨_, b', rfl, -, h₅⟩ := h₄.of_append_blanks
  obtain ⟨_, name, _, _, rfl, rfl, h₆, hname⟩ := spells_append_iff.mp h₅
  obtain ⟨_, front, _, _, rfl, rfl, hfront, h₇⟩ := h₆.of_append_cap
  have hnone := hname.lookup_eq_none (i := 1) (by decide)
  have hgroup : m.group 1 = front := by
    simp [Match.group, hgroups, List.lookup_append, hnone]
  obtain ⟨hblank, -⟩ := of_spells_blanks hfront
  rw [hgroup] at hspares ⊢
  refine keepsMarks_of_tell (fun hin => tell_notMem_blank hblank ?_) fun c hc =>
    isTameCode_of_isBlank (hblank c hc)
  exact (hspares.2 hin).subset (by decide)

end Swift

variable {n : Nat} {scope : Scope}

/-- Members get the receiver in front. -/
theorem keepsMarks_qualifyMembers (scope : Scope) (t : Text) :
    KeepsMarks n t (qualifyMembers scope t) := by
  have hfront {pattern : Text → Pattern} (hp : ∀ member, (pattern member).StartsParted)
      (htext : ∀ member x gs, (pattern member).Spells x gs → x = member) (members : List Text)
      (t : Text) : KeepsMarks n t (members.foldl (fun t member =>
        (pattern member).replace (fun _ => "this." ++ member) t) t) := by
    refine keepsMarks_foldl fun member _ t => keepsMarks_replace fun m hm => ?_
    obtain ⟨gs, hx, -⟩ := spells_of_mem_allIn hm
    have hmember := htext member _ _ hx
    change Exchanged n m ("this." ++ member)
    rw [← hmember]
    exact exchanged_front (hp member) hm (by decide)
  rw [qualifyMembers]
  split
  · exact .refl t
  · refine .trans (hfront (fun member => ?_) (fun member x gs hx => ?_) _ _)
      (hfront (fun member => ?_) (fun member x gs hx => ?_) _ _)
    · exact .left (.left (.left opens_fresh.startsParted _) _) _
    · simp only [bareProperty, spells_append_iff, spells_text_iff, spells_fresh_iff,
        spells_edge_iff, spells_notAhead_iff] at hx
      obtain ⟨_, _, _, _, rfl, -, ⟨_, _, _, _, rfl, -, ⟨_, _, _, _, rfl, -, ⟨rfl, -⟩, rfl, -⟩,
        rfl, -⟩, rfl, -⟩ := hx
      simp
    · exact .left (.left opens_fresh.startsParted _) _
    · simp only [bareMethod, spells_append_iff, spells_text_iff, spells_fresh_iff] at hx
      obtain ⟨_, _, _, _, rfl, -, ⟨_, _, _, _, rfl, -, ⟨rfl, -⟩, rfl, -⟩, hahead⟩ := hx
      obtain rfl := hahead.of_isAhead
      simp

end HostScript.Body
