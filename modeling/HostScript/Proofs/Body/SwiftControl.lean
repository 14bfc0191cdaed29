import HostScript.Body.Swift
import HostScript.Body.Swift.Control
import HostScript.Proofs.Body.Marks
import HostScript.Proofs.Outcome
import HostScript.Proofs.Script.Divided

/-!
# Control statements

Conditions get parentheses, cases a colon and a break, and blocks that catch errors one clause for
all. The statements inside stay with their marks; only what a clause catches may be dropped, so it
has to be code.
-/

namespace HostScript.Body

open Script Pattern

variable {n : Nat} {is : List Nat} {t u : Text} {scope : Scope}

/-!
## Conditions
-/

theorem break_notMem_mark (i : Nat) : '\n' ∉ SpanKind.literal.mark i := fun h =>
  absurd (isWord_of_mem_mark h) (by decide)

/-- What keeps the marks of each line keeps those of the text. -/
theorem keepsMarks_perLine {f : Scope → Text → Text}
    (hf : ∀ line ∈ t.lines, KeepsMarks n line (f scope line)) :
    KeepsMarks n t (perLine f scope t) :=
  fun _ h => Made.edit_lines h (fun i _ => mark_ne_nil i) (fun i _ => break_notMem_mark i)
    fun line hline _ hbs => hf line hline hbs

theorem of_braceOutside?_eq_some {depth : Int} {k : Nat} (h : braceOutside? depth t = some k) :
    ∃ rest, t.drop k = '\x7b' :: rest := by
  induction t generalizing depth k with
  | nil => cases h
  | cons c t ih =>
    have hnext {depth : Int} (h : (braceOutside? depth t).map (· + 1) = some k) :
        ∃ rest, (c :: t).drop k = '\x7b' :: rest := by
      obtain ⟨j, hj, rfl⟩ := Option.map_eq_some_iff.mp h
      exact ih hj
    rw [braceOutside?] at h
    split_ifs at h with hopen hclose hbrace
    · exact hnext h
    · exact hnext h
    · obtain rfl := Option.some.inj h
      rw [Bool.and_eq_true, beq_iff_eq] at hbrace
      exact ⟨t, by rw [hbrace.1]; rfl⟩
    · exact hnext h

/-- A condition in parentheses keeps its marks. -/
theorem keepsMarks_parenthesizeControl (line : Text) :
    KeepsMarks n line (parenthesizeControl scope line) := by
  rw [parenthesizeControl]
  split
  · exact .refl line
  · rename_i m hm
    split
    · exact .refl line
    · rename_i k hk
      dsimp only
      split
      · exact .refl line
      · obtain ⟨x, v, gs, hline, hx, hstop, hgroups⟩ := spells_of_match? hm
        have hafter : m.after = v := by
          obtain ⟨d, -, hd⟩ := Option.map_eq_some_iff.mp hm
          have hsubject : m.subject = line := by rw [← hd]; rfl
          rw [Match.after, hsubject, hstop, hline, List.drop_left]
        obtain ⟨_, g, rfl, hne, hg, h₁⟩ := hx.of_append_gap
        obtain ⟨front, word, _, _, rfl, rfl, hword, h₂⟩ := h₁.of_append_cap
        obtain ⟨_, rfl, -⟩ := spells_cap_iff.mp h₂
        have hwordNone := hword.lookup_eq_none (i := 1) (by decide)
        have hfirst : m.group 1 = front := by
          simp [Match.group, hgroups, List.lookup_cons, List.lookup_append, hwordNone]
        have hsecond : m.group 2 = word := by simp [Match.group, hgroups]
        rw [hafter] at hk ⊢
        obtain ⟨rest, hrest⟩ := of_braceOutside?_eq_some hk
        obtain ⟨c, g, rfl⟩ := List.exists_cons_of_ne_nil hne
        have hkept : KeepsMarks n ((front ++ word) ++ (c :: g ++ (v.take k ++ v.drop k)))
            ((front ++ word) ++ (" (".toList ++ (Text.trim (v.take k) ++ (") ".toList ++ v.drop k)))) :=
          .append (.inr (isWord_of_isBlank (hg c (List.mem_cons_self ..)))) (.refl _)
            (.append (parted_blank_left hg) (keepsMarks_code (tell_notMem_blank hg) (by decide))
              (.append (.inr (by rw [hrest]; rfl)) (keepsMarks_trim _)
                (.code_append (by decide) (.refl _))))
        rw [hline, hfirst, hsecond]
        rw [List.take_append_drop] at hkept
        simpa using hkept

/-!
## Switches
-/

/-- A label for each value keeps the marks. -/
theorem legible_labelText {line : Text} {m : Match} (hm : Swift.caseLine.match? line.trim = some m)
    (h : Legible n is line) : Legible n is (Swift.labelText line m) := by
  rw [Swift.labelText]
  split
  · exact h
  · rename_i values hvalues
    obtain ⟨x, last, gs, htrim, hlast, hx, hgroups⟩ := spells_of_match?_textEnd hm
    obtain ⟨_, tail, _, gs₁, rfl, rfl, htail, h₁⟩ := hx.of_append_cap
    obtain ⟨-, -, rfl⟩ := htail.of_rounds_one
    obtain ⟨_, _, gs₂, _, rfl, rfl, h₂, hnot⟩ := spells_append_iff.mp h₁
    obtain ⟨rfl, rfl⟩ := spells_notAhead_iff.mp hnot
    obtain ⟨_, rfl, h₃⟩ := h₂.of_append_lit
    obtain ⟨_, b, rfl, hb, h₄⟩ := h₃.of_append_blanks
    obtain ⟨gs₃, rfl, h₅⟩ := spells_cap_iff.mp h₄
    rcases spells_orElse_iff.mp h₅ with hcase | hdefault
    case inr =>
      obtain ⟨-, rfl⟩ := spells_lit_iff.mp hdefault
      rw [hgroups] at hvalues
      cases hvalues
    obtain ⟨_, vs, _, _, rfl, rfl, hvs, h₆⟩ := hcase.of_append_cap
    obtain ⟨_, g, rfl, hne, hg, h₇⟩ := h₆.of_append_gap
    obtain ⟨rfl, rfl⟩ := spells_lit_iff.mp h₇
    obtain ⟨-, -, rfl⟩ := hvs.of_rounds_one
    obtain rfl : vs = values := by
      rw [hgroups] at hvalues
      exact Option.some.inj hvalues
    have hthird : m.group 3 = tail := by simp [Match.group, hgroups]
    have hblank : ∀ c ∈ last, isBlank c = true := by
      rcases hlast with rfl | rfl
      · exact List.forall_mem_nil _
      · decide
    have hline := keepsMarks_trim line h
    have hshape : line.trim = ("case".toList ++ g) ++ (vs ++ ((b ++ ":".toList) ++ (tail ++ last))) := by
      rw [htrim]
      simp
    rw [hshape] at hline
    obtain ⟨is₁, js, hsub, hcase, hline⟩ := Legible.cut hline (.inl (by
      rw [endsIn_append _ hne]
      exact any_getLast?_of_isBlank hg))
    obtain ⟨is₂, js', hsub', hvalues, hline⟩ := Legible.cut hline (.inr (by
      cases b with
      | nil => rfl
      | cons c b => exact isWord_of_isBlank (hb c (List.mem_cons_self ..))))
    obtain ⟨is₃, is₄, hsub₃, hcolon, hline⟩ := Legible.cut hline (.inl (endsIn_concat _ _ _))
    obtain ⟨is₅, is₆, hsub₄, htail, hlast⟩ := Legible.cut hline
      (by simpa using parted_blank_right (t := tail) (y := []) hblank (.inr rfl))
    obtain ⟨rfl, -⟩ := Legible.code hcase (by simp [tell_notMem_blank hg])
    obtain ⟨rfl, -⟩ := Legible.code hcolon (by simp [tell_notMem_blank hb])
    obtain ⟨rfl, -⟩ := Legible.code hlast (tell_notMem_blank hblank)
    obtain ⟨iss, hiss, hparts⟩ := Legible.splitTopLevel hvalues .arguments (by decide)
    rw [hthird]
    refine Made.mono (?_ : Legible n (iss.flatten ++ is₅) _) ?_
    · exact Made.append (made_join (by decide) (List.forall₂_map_right_iff.mpr (hparts.imp
        fun _ v hv => Made.append_code (hv.code_append (by decide)) (by decide)))) htail
    intro i hi
    rcases List.mem_append.mp (hsub' (hsub hi)) with h | h
    · exact List.mem_append_left _ (hiss h)
    · exact List.mem_append_right _ (by simpa using hsub₄ (hsub₃ h))

/-- Where the jumps of a switch are found, its lines keep their marks. -/
theorem legible_breakCases {depth : Int} {switches : List Swift.OpenSwitch}
    {out lines res : List Text}
    {iss jss : List (List Nat)} (hout : List.Forall₂ (Legible n) jss out)
    (hlines : List.Forall₂ (Legible n) iss lines)
    (h : Swift.breakCases depth switches out lines = .ok res) :
    ∃ kss, iss.flatten ⊆ kss.flatten ∧ jss.flatten ⊆ kss.flatten ∧
      List.Forall₂ (Legible n) kss res := by
  induction hlines generalizing depth switches out jss with
  | nil =>
    obtain rfl := Except.ok.inj h
    refine ⟨jss.reverse, List.nil_subset _, fun i hi => ?_, List.forall₂_reverse_iff.mpr hout⟩
    obtain ⟨js, hjs, hi⟩ := List.mem_flatten.mp hi
    exact List.mem_flatten.mpr ⟨js, List.mem_reverse.mpr hjs, hi⟩
  | @cons is line iss lines hline _ ih =>
    -- A line may be relabelled, and a jump may be put before it.
    have hgoes {depth switches} (jss' : List (List Nat)) {out' : List Text} {line' : Text}
        (hsub : jss.flatten ⊆ jss'.flatten) (hout' : List.Forall₂ (Legible n) jss' out')
        (hline' : Legible n is line')
        (h : Swift.breakCases depth switches (line' :: out') lines = .ok res) :
        ∃ kss, (is :: iss).flatten ⊆ kss.flatten ∧ jss.flatten ⊆ kss.flatten ∧
          List.Forall₂ (Legible n) kss res := by
      obtain ⟨kss, hkss, hkss', hres⟩ := ih (.cons hline' hout') h
      rw [List.flatten_cons, List.append_subset] at hkss'
      refine ⟨kss, ?_, List.Subset.trans hsub hkss'.2, hres⟩
      rw [List.flatten_cons]
      exact List.append_subset.mpr ⟨hkss'.1, hkss⟩
    by_cases hlabel : ∃ m current outer, Swift.caseLine.match? line.trim = some m ∧
        switches = current :: outer
    · obtain ⟨m, current, outer, hm, rfl⟩ := hlabel
      rw [Swift.breakCases.eq_2 _ _ _ _ m current outer hm] at h
      split at h
      · obtain ⟨_, hstep, h⟩ := Outcome.bind_eq_ok_iff.mp h
        obtain ⟨falls, -, hstep⟩ := Outcome.bind_eq_ok_iff.mp hstep
        obtain rfl := Except.ok.inj hstep
        have hlabelled := legible_labelText hm hline
        dsimp only at h
        cases falls with
        | false => exact hgoes _ (List.Subset.refl _) hout hlabelled h
        | true =>
          exact hgoes ([] :: jss) (List.Subset.refl _) (.cons (made_code (by decide)) hout)
            hlabelled h
      · exact hgoes _ (List.Subset.refl _) hout hline h
    · rw [Swift.breakCases.eq_3 _ _ _ _ _ fun m current outer hm hs =>
        hlabel ⟨m, current, outer, hm, hs⟩] at h
      exact hgoes _ (List.Subset.refl _) hout hline h

/-- Where the jumps of its switches are found, a text keeps its marks. -/
theorem keepsMarks_switchCases (h : Swift.switchCases scope t = .ok u) : KeepsMarks n t u := by
  intro is ht
  obtain ⟨lines, hlines, hu⟩ := Outcome.bind_eq_ok_iff.mp h
  obtain rfl := Except.ok.inj hu
  obtain ⟨iss, hiss, hparts⟩ := Made.lines ht (fun i _ => mark_ne_nil i) fun i _ => break_notMem_mark i
  obtain ⟨kss, hkss, -, hres⟩ := legible_breakCases .nil hparts hlines
  exact (made_join (by decide) hres).mono (List.Subset.trans hiss hkss)

namespace Swift

/-!
## Error handling
-/

variable {is js : List Nat}

/-- What the clauses hold, one after the other. -/
def clausesText (cs : List Clause) : Text :=
  cs.flatMap fun c => c.pattern ++ ("\x7b" ++ (c.body ++ "\x7d"))

/-- Whether clauses hold no literal in what they catch, and none stands behind one that catches
everything. -/
def Clause.spare : List Clause → Bool
  | [] => true
  | c :: rest =>
    decide (¬ tell <:+: c.pattern) && (c.condition?.isSome || rest.isEmpty) && Clause.spare rest

/-- A name for the error stands in what its clause catches. -/
theorem mem_of_catchName {m : Match} (h : catchName.matchAll? t = some m) :
    ∀ d ∈ m.group 1, d ∈ t := by
  obtain ⟨gs, hx, hgroups⟩ := spells_of_matchAll? h
  obtain ⟨x, cast, _, gs₂, rfl, rfl, h₁, hcast⟩ := spells_append_iff.mp hx
  obtain ⟨_, name, _, _, rfl, rfl, -, -⟩ := h₁.of_append_cap
  have hnone := hcast.lookup_eq_none (i := 1) (by decide)
  have hgroup : m.group 1 = name := by
    simp [Match.group, hgroups, List.lookup_append, hnone]
  rw [hgroup]
  exact fun d hd => List.mem_append_left _ (List.mem_append_right _ hd)

/-- So does the type of the error. -/
theorem mem_of_catchType {m : Match} (h : catchType.matchAll? t = some m) :
    ∀ d ∈ m.group 1, d ∈ t := by
  obtain ⟨gs, hx, hgroups⟩ := spells_of_matchAll? h
  obtain ⟨_, name, _, _, rfl, rfl, -, -⟩ := hx.of_append_cap
  have hgroup : m.group 1 = name := by simp [Match.group, hgroups]
  rw [hgroup]
  exact fun d hd => List.mem_append_right _ hd

/-- Clauses with their statements. -/
theorem legible_clauses {cs : List Clause} (h : Legible n is (clausesText cs))
    (hcs : Clause.spare cs = true) : ∃ iss, is ⊆ iss.flatten ∧ List.Forall₂ (fun js c =>
      (∀ d ∈ c.pattern, isTameCode d = true) ∧ Legible n js c.body) iss cs := by
  induction cs generalizing is with
  | nil =>
    obtain ⟨rfl, -⟩ := Legible.code h List.not_mem_nil
    exact ⟨[], List.Subset.refl _, .nil⟩
  | cons c cs ih =>
    have hcons : clausesText (c :: cs) =
        c.pattern ++ ("\x7b".toList ++ (c.body ++ ("\x7d".toList ++ clausesText cs))) := by
      simp [clausesText]
    rw [hcons] at h
    obtain ⟨ks, ls, hsub, hpattern, h⟩ := Legible.cut h (.inr rfl)
    obtain ⟨ks₁, ls₁, hsub₁, hopen, h⟩ := Legible.cut h (.inl rfl)
    obtain ⟨js, ls₂, hsub₂, hbody, h⟩ := Legible.cut h (.inr rfl)
    obtain ⟨ks₃, ls₃, hsub₃, hclose, hrest⟩ := Legible.cut h (.inl rfl)
    rw [Clause.spare, Bool.and_eq_true, Bool.and_eq_true] at hcs
    obtain ⟨rfl, hcode⟩ := Legible.code_of_tell hpattern (of_decide_eq_true hcs.1.1)
    obtain ⟨rfl, -⟩ := Legible.code hopen (by decide)
    obtain ⟨rfl, -⟩ := Legible.code hclose (by decide)
    obtain ⟨iss, hiss, hclauses⟩ := ih hrest hcs.2
    refine ⟨js :: iss, ?_, .cons ⟨hcode, hbody⟩ hclauses⟩
    rw [List.flatten_cons]
    exact List.Subset.trans hsub (List.Subset.trans hsub₁ (List.Subset.trans hsub₂
      (List.append_subset.mpr ⟨List.subset_append_left _ _, List.subset_append_of_subset_right _
        (List.Subset.trans hsub₃ hiss)⟩)))

/-- A condition is code. -/
theorem isTameCode_of_mem_condition {c : Clause} (hc : ∀ d ∈ c.pattern, isTameCode d = true)
    {condition : Text} (h : c.condition? = some condition) :
    ∀ d ∈ condition, isTameCode d = true := by
  rw [Clause.condition?] at h
  split at h
  · cases h
  · split at h
    · rename_i m hm
      obtain rfl := Option.some.inj h
      exact List.forall_mem_append.mpr ⟨by decide, fun d hd => hc d (mem_of_catchType hm d hd)⟩
    · obtain ⟨-, hcondition⟩ := Option.ite_none_right_eq_some.mp h
      obtain rfl := Option.some.inj hcondition
      exact List.forall_mem_append.mpr ⟨by decide, hc⟩

/-- A name for the error is code. -/
theorem isTameCode_of_mem_binding {c : Clause} (hc : ∀ d ∈ c.pattern, isTameCode d = true)
    {name : Text} (h : c.binding? = some name) : ∀ d ∈ name, isTameCode d = true := by
  obtain ⟨m, hm, rfl⟩ := Option.map_eq_some_iff.mp h
  exact fun d hd => hc d (mem_of_catchName hm d hd)

theorem legible_fallback {c : Clause} (hc : ∀ d ∈ c.pattern, isTameCode d = true)
    (h : Legible n js c.body) : Legible n js c.fallback := by
  rw [Clause.fallback]
  split
  · rename_i name hname
    exact h.code_append (List.forall_mem_append.mpr ⟨List.forall_mem_append.mpr
      ⟨by decide, isTameCode_of_mem_binding hc hname⟩, by decide⟩)
  · exact h

/-- The branches of the clauses hold all their statements. -/
theorem legible_branches {cs : List Clause} {iss : List (List Nat)} (h : List.Forall₂ (fun js c =>
      (∀ d ∈ c.pattern, isTameCode d = true) ∧ Legible n js c.body) iss cs)
    (hcs : Clause.spare cs = true) : ∃ jss ks, iss.flatten ⊆ jss.flatten ++ ks ∧
      List.Forall₂ (Legible n) jss ((Clause.branches cs).1.map fun branch =>
        "if (" ++ branch.1 ++ ") \x7b" ++ branch.2 ++ "\x7d") ∧
      ∀ last : Text, (∀ d ∈ last, isTameCode d = true) →
        Legible n ks ((Clause.branches cs).2.getD last) := by
  induction h with
  | nil => exact ⟨[], [], List.Subset.refl _, .nil, fun last hlast => made_code hlast⟩
  | @cons js c iss cs hclause hrest ih =>
    obtain ⟨hpattern, hbody⟩ := hclause
    rw [Clause.spare, Bool.and_eq_true, Bool.and_eq_true] at hcs
    rw [Clause.branches]
    cases hcondition : c.condition? with
    | none =>
      have hlast : cs = [] := by simpa [hcondition] using hcs.1.2
      subst hlast
      cases hrest
      exact ⟨[], js, by simp, .nil, fun _ _ => legible_fallback hpattern hbody⟩
    | some condition =>
      obtain ⟨jss, ks, hsub, hbranches, hlast⟩ := ih hcs.2
      refine ⟨js :: jss, ks, ?_, .cons ?_ hbranches, hlast⟩
      · rw [List.flatten_cons, List.flatten_cons, List.append_assoc]
        exact List.append_subset.mpr ⟨List.subset_append_left _ _,
          List.subset_append_of_subset_right _ hsub⟩
      · refine Made.append_code (hbody.code_append ?_) (by decide)
        exact List.forall_mem_append.mpr ⟨List.forall_mem_append.mpr
          ⟨by decide, isTameCode_of_mem_condition hpattern hcondition⟩, by decide⟩

/-- One clause for all holds what they hold. -/
theorem keepsMarks_catchChain {cs : List Clause} (hcs : Clause.spare cs = true) :
    KeepsMarks n (clausesText cs) (catchChain cs) := by
  intro is h
  obtain ⟨iss, hsub, hclauses⟩ := legible_clauses h hcs
  refine Made.mono (?_ : Legible n iss.flatten _) hsub
  -- Several clauses, or one with a condition.
  obtain ⟨jss, ks, hsub', hbranches, hlast⟩ := legible_branches hclauses hcs
  have hgeneral : Legible n iss.flatten (
      if (Clause.branches cs).1.isEmpty then
        " catch (error) \x7b" ++ (Clause.branches cs).2.getD [] ++ "\x7d"
      else
        let chain := Text.join " else " ((Clause.branches cs).1.map fun branch =>
          "if (" ++ branch.1 ++ ") \x7b" ++ branch.2 ++ "\x7d")
        " catch (error) \x7b " ++ chain ++ " else \x7b" ++
          (Clause.branches cs).2.getD " throw error; " ++ "\x7d \x7d") := by
    dsimp only
    split
    · rename_i hempty
      rw [List.isEmpty_iff.mp hempty] at hbranches
      cases hbranches
      exact Made.mono (Made.append_code (Made.code_append (hlast [] (List.forall_mem_nil _)) (by decide))
        (by decide)) hsub'
    · have hsep : ∀ c ∈ " else ".toList, isTameCode c = true := by decide
      have hchain := made_join hsep hbranches
      exact Made.mono (Made.append_code (Made.append (Made.append_code (hchain.code_append (by decide)) (by decide))
        (hlast " throw error; ".toList (by decide))) (by decide)) hsub'
  cases hclauses with
  | nil => exact hgeneral
  | @cons js c iss cs hclause hrest =>
  cases hrest with
  | cons => exact hgeneral
  | nil =>
  obtain ⟨hpattern, hbody⟩ := hclause
  have hplain : Legible n [js].flatten (" catch (error) \x7b" ++ c.body ++ "\x7d") := by
    rw [List.flatten_singleton]
    exact Made.append_code (hbody.code_append (by decide)) (by decide)
  rw [catchChain]
  dsimp only
  cases hname : c.binding? with
  | some name =>
    rw [List.flatten_singleton]
    refine Made.append_code (hbody.code_append ?_) (by decide)
    exact List.forall_mem_append.mpr ⟨List.forall_mem_append.mpr
      ⟨by decide, isTameCode_of_mem_binding hpattern hname⟩, by decide⟩
  | none =>
    dsimp only
    split
    · exact hplain
    · exact hgeneral

/-!
### Blocks
-/

theorem separates_of_notMem {x y : Text} (hx : '_' ∉ x) :
    Separates SpanKind.literal.mark (· < n) x y := by
  intro i _ u v x' y' hmark hu _ hxu _
  obtain ⟨c, u, rfl⟩ := List.exists_cons_of_ne_nil hu
  rw [mark_literal_eq] at hmark
  obtain rfl : '_' = c := (List.cons.inj hmark).1
  exact hx (hxu ▸ List.mem_append_right _ (List.mem_cons_self ..))

mutual

/-- Whether the clauses of the blocks of a text drop no literal. -/
def sparesBlocks : (fuel : Nat) → Text → Bool
  | 0, _ => true
  | fuel + 1, t =>
    match doBlock.search? t with
    | none => true
    | some m =>
      match Source.blockEnd? t (m.stop - 1) with
      | none => true
      | some close =>
        let (clauses, rest) := catchClauses fuel (t.drop (close + 1))
        sparesBlocks fuel (t.slice m.stop close) && sparesClauses fuel (t.drop (close + 1))
          && Clause.spare clauses && sparesBlocks fuel rest

/-- Whether that holds inside the clauses at the start of a text. -/
def sparesClauses : (fuel : Nat) → Text → Bool
  | 0, _ => true
  | fuel + 1, t =>
    match catchClause.match? t with
    | none => true
    | some m =>
      match Source.blockEnd? t (m.stop - 1) with
      | none => true
      | some close =>
        sparesBlocks fuel (t.slice m.stop close) && sparesClauses fuel (t.drop (close + 1))

end

/-- A block where it starts. -/
theorem of_search?_doBlock {m : Match} {close : Nat} (hm : doBlock.search? t = some m)
    (hclose : Source.blockEnd? t (m.stop - 1) = some close) : ∃ head inner more : Text,
      t = m.before ++ (head ++ (inner ++ ("\x7d".toList ++ more))) ∧
      t.slice m.stop close = inner ∧ t.drop (close + 1) = more ∧
      StandsBefore head ∧ Parted m.before (head ++ (inner ++ ("\x7d".toList ++ more))) := by
  have hstart := (parted_of_mem_allIn (mem_allIn_of_search? hm)).1
    (.left (.left (.left opens_fresh.startsParted _) _) _)
  obtain ⟨hsplit, -, hstop, gs, hx, -, -⟩ := split_of_searchAt? hm
  obtain ⟨_, htext, h₁⟩ := hx.of_append_lit
  obtain ⟨_, b, rfl, hb, h₂⟩ := h₁.of_append_blanks
  obtain ⟨_, rfl, h₃⟩ := h₂.of_append_lit
  obtain ⟨rfl, -⟩ := spells_fresh_iff.mp h₃
  generalize m.before = u, m.after = v at *
  rw [htext] at hsplit hstop hstart
  have hshape : t = (u ++ ("do".toList ++ b)) ++ '\x7b' :: v := by rw [hsplit]; simp
  have hopen : m.stop - 1 = (u ++ ("do".toList ++ b)).length := by
    rw [hstop]
    simp
  have hnext : m.stop = (u ++ ("do".toList ++ b)).length + 1 := by
    rw [hstop]
    simp
    omega
  rw [hopen] at hclose
  obtain ⟨inner, more, rfl, -, hslice, hdrop⟩ := Source.of_blockEnd?_eq_some hshape rfl hclose
  rw [← hnext] at hslice
  exact ⟨"do".toList ++ b ++ "\x7b".toList, inner, more, by rw [hshape]; simp, hslice, hdrop,
    ⟨by simp [tell_notMem_blank hb], endsIn_concat _ _ _⟩, by simpa using hstart⟩

/-- A clause at the start of a text. -/
theorem of_match?_catchClause {m : Match} {close : Nat} (hm : catchClause.match? t = some m)
    (hclose : Source.blockEnd? t (m.stop - 1) = some close) : ∃ head inner more : Text,
      t = head ++ (m.group 1 ++ ("\x7b".toList ++ (inner ++ ("\x7d".toList ++ more)))) ∧
      t.slice m.stop close = inner ∧ t.drop (close + 1) = more ∧ 'J' ∉ head ∧ '_' ∉ head := by
  obtain ⟨x, v, gs, hsplit, hx, hstop, hgroups⟩ := spells_of_match? hm
  obtain ⟨_, rfl, h₁⟩ := hx.of_append_lit
  obtain ⟨_, pattern, _, _, rfl, rfl, hpattern, h₂⟩ := h₁.of_append_cap
  obtain ⟨_, _, _, _, rfl, -, h₃, h₄⟩ := spells_append_iff.mp h₂
  obtain ⟨rfl, -⟩ := spells_edge_iff.mp h₄
  obtain ⟨b, rfl, h₅⟩ := h₃.of_append_lit
  obtain ⟨hb, -⟩ := of_spells_blanks h₅
  have hgroup : m.group 1 = pattern := by simp [Match.group, hgroups]
  have hshape : t = (b ++ "catch".toList ++ pattern) ++ '\x7b' :: v := by rw [hsplit]; simp
  have hopen : m.stop - 1 = (b ++ "catch".toList ++ pattern).length := by
    rw [hstop]
    simp
  have hnext : m.stop = (b ++ "catch".toList ++ pattern).length + 1 := by
    rw [hstop]
    simp
    omega
  rw [hopen] at hclose
  obtain ⟨inner, more, rfl, -, hslice, hdrop⟩ := Source.of_blockEnd?_eq_some hshape rfl hclose
  rw [← hnext] at hslice
  exact ⟨b ++ "catch".toList, inner, more, by rw [hshape, hgroup]; simp, hslice, hdrop,
    by simp [tell_notMem_blank hb], by simp [notMem_of_forall hb (c := '_') (by decide)]⟩

/-- No word reaches over the end of the clauses. -/
theorem parted_clausesText (cs : List Clause) (rest : Text) : Parted (clausesText cs) rest := by
  left
  rcases List.eq_nil_or_concat' cs with rfl | ⟨cs, c, rfl⟩
  · rfl
  · have hlast : clausesText (cs ++ [c]) =
        (clausesText cs ++ c.pattern ++ "\x7b" ++ c.body) ++ ['\x7d'] := by
      simp [clausesText]
    rw [hlast]
    exact endsIn_concat _ _ _

/-- Blocks and clauses keep the marks, at any depth. -/
theorem keepsMarks_blocks (fuel : Nat) (t : Text) :
    (sparesBlocks fuel t = true → KeepsMarks n t (doBlocks fuel t)) ∧
      (sparesClauses fuel t = true →
        KeepsMarks n t (clausesText (catchClauses fuel t).1 ++ (catchClauses fuel t).2)) := by
  induction fuel generalizing t with
  | zero => exact ⟨fun _ => .refl t, fun _ => .refl t⟩
  | succ fuel ih =>
    constructor
    · intro ht
      rw [doBlocks]
      split
      · exact .refl t
      · rename_i m hm
        split
        · exact .refl t
        · rename_i close hclose
          obtain ⟨head, inner, more, hshape, hslice, hdrop, hhead, hstart⟩ :=
            of_search?_doBlock hm hclose
          rw [sparesBlocks, hm] at ht
          dsimp only at ht
          rw [hclose] at ht
          dsimp only at ht
          rw [hslice, hdrop] at ht
          simp only [Bool.and_eq_true] at ht
          obtain ⟨⟨⟨hinner, hmore⟩, hspare⟩, hrest⟩ := ht
          have hclauses := (ih more).2 hmore
          have hkept (first : Text) {chain : Text} (hfirst : ∀ c ∈ first, isTameCode c = true)
              (hchain : KeepsMarks n (clausesText (catchClauses fuel more).1) chain) :
              KeepsMarks n t (m.before ++ (first ++ (doBlocks fuel inner ++ ("\x7d".toList ++
                (chain ++ doBlocks fuel (catchClauses fuel more).2))))) := by
            have hall : KeepsMarks n (m.before ++ (head ++ (inner ++ ("\x7d".toList ++ more)))) _ :=
              .append hstart (.refl _)
                (.append (.inl hhead.2) (keepsMarks_code hhead.1 hfirst)
                  (.append (.inr rfl) ((ih inner).1 hinner)
                    (.append (u := "\x7d".toList) (.inl rfl) (.refl _)
                      (.trans hclauses (KeepsMarks.append (parted_clausesText _ _) hchain
                        ((ih _).1 hrest))))))
            exact hshape ▸ hall
          rw [hslice, hdrop]
          dsimp only
          split
          · simpa using hkept "try \x7b".toList (by decide) (keepsMarks_catchChain hspare)
          · rename_i hempty
            have hchain : KeepsMarks n (clausesText (catchClauses fuel more).1) [] := by
              have hnil : (catchClauses fuel more).1 = [] := by simpa using hempty
              rw [hnil]
              exact .refl _
            split
            · simpa using hkept "do \x7b".toList (by decide) hchain
            · simpa using hkept "\x7b".toList (by decide) hchain
    · intro ht
      rw [catchClauses]
      split
      · exact .refl t
      · rename_i m hm
        split
        · exact .refl t
        · rename_i close hclose
          obtain ⟨head, inner, more, hshape, hslice, hdrop, htell, hfirst⟩ :=
            of_match?_catchClause hm hclose
          rw [sparesClauses, hm] at ht
          dsimp only at ht
          rw [hclose] at ht
          dsimp only at ht
          rw [hslice, hdrop, Bool.and_eq_true] at ht
          have hall : KeepsMarks n (head ++ (m.group 1 ++ ("\x7b".toList ++
              (inner ++ ("\x7d".toList ++ more))))) ([] ++ (Text.trim (m.group 1) ++ ("\x7b".toList ++
                (doBlocks fuel inner ++ ("\x7d".toList ++
                  (clausesText (catchClauses fuel more).1 ++ (catchClauses fuel more).2)))))) :=
            Kept.append (separates_of_notMem hfirst) (keepsMarks_code htell (List.forall_mem_nil _))
              (KeepsMarks.append (.inr rfl) (keepsMarks_trim _)
                (KeepsMarks.append (.inl rfl) (.refl _) (KeepsMarks.append (.inr rfl)
                  ((ih inner).1 ht.1) (KeepsMarks.append (.inl rfl) (.refl _) ((ih more).2 ht.2)))))
          rw [hslice, hdrop]
          rw [← hshape] at hall
          simpa [clausesText] using hall

/-- Error handling keeps the marks where all clauses are spare. -/
theorem keepsMarks_errorHandling
    (ht : sparesBlocks (2 * (tryWord.erase t).length + 2) (tryWord.erase t) = true) :
    KeepsMarks n t (errorHandling scope t) := by
  refine .trans ?_ ((keepsMarks_blocks _ _).1 ht)
  have hwithin {set : CharSet} (hset : set 'J' = false) : ∀ c, set c = true → notTell c = true := by
    intro c hc
    rw [notTell, bne_iff_ne]
    rintro rfl
    rw [hset] at hc
    cases hc
  exact keepsMarks_const "" (.left (.left (.left opens_fresh.startsParted _) _) _)
    (EndsOutside.right endsOutside_gap _).endsParted
    ⟨⟨⟨trivial, within_text (by decide)⟩, hwithin (by decide)⟩, hwithin (by decide)⟩ (by decide)

end Swift

end HostScript.Body
