import HostScript.Body.Swift
import HostScript.Proofs.Pattern.Longer
import HostScript.Proofs.Script.Divided

/-!
# Optional bindings with literals

A guard or a binding condition works on whole lines, literals included. Where no literal of such a
line holds an opening brace and none stands in the type of what is bound, the conditions are divided
in code, and their literals stay: in a test, in a declaration before the line, or in both.
-/

namespace HostScript.Body

open Script Pattern

variable {t u x y w line : Text} {scope : Scope} {kind : Text → Prop} {ls : List Text}

namespace Swift

/-- A condition without a literal in the type of what it binds. -/
def BoundSpares (condition : Text) : Prop :=
  boundValue.fits condition = true → Quoteless (condition.cutAt '=').1

instance (condition : Text) : Decidable (BoundSpares condition) :=
  inferInstanceAs (Decidable (_ → _))

/-- A line with bindings whose literals hold no brace. -/
def BindingSpares (line : Text) : Prop :=
  ∀ m ∈ (guardLine.match? line).toList ++ (bindingLine.match? line).toList,
    (IsTameScript line ∧ ∀ l ∈ (mask .all line).spans, '\x7b' ∉ l) ∧
      ∀ condition ∈ Source.splitTopLevel .conditions (m.group 2), BoundSpares condition

instance (line : Text) : Decidable (BindingSpares line) := inferInstanceAs (Decidable (∀ _ ∈ _, _))

variable {m : Match} {condition name value : Text}

/-- What a condition binds is code and a value with its literals. -/
theorem scripted_boundPair (h : Scripted kind ls condition) (hbreak : '\n' ∉ condition)
    (hspares : BoundSpares condition) (hpair : boundPair? condition = some (name, value)) :
    (∀ c ∈ name, isWord c = true) ∧ Scripted kind ls value := by
  rw [boundPair?] at hpair
  split at hpair
  · rename_i m hm
    obtain ⟨rfl, rfl⟩ := Prod.mk.inj (Option.some.inj hpair)
    obtain ⟨x, last, gs, hcondition, hlast, hx, hgroups⟩ := spells_of_match?_textEnd hm
    obtain rfl : last = [] := by
      rcases hlast with rfl | rfl
      · rfl
      · exact absurd (hcondition ▸ List.mem_append_right x (List.mem_singleton_self _)) hbreak
    obtain ⟨_, v, _, _, rfl, rfl, hv, h₁⟩ := hx.of_append_cap
    obtain ⟨-, -, rfl⟩ := hv.of_rounds_one
    obtain ⟨_, b₂, rfl, hb₂, h₂⟩ := h₁.of_append_blanks
    obtain ⟨_, rfl, h₃⟩ := h₂.of_append_lit
    obtain ⟨_, b₁, rfl, hb₁, h₄⟩ := h₃.of_append_blanks
    obtain ⟨_, type, _, gs', rfl, rfl, h₅, htype⟩ := spells_append_iff.mp h₄
    obtain ⟨_, name, _, _, rfl, rfl, hname, h₆⟩ := h₅.of_append_cap
    obtain ⟨-, hword, rfl⟩ := hname.of_rounds_one
    obtain ⟨_, g, rfl, -, hg, h₇⟩ := h₆.of_append_gap
    obtain ⟨⟨k, hk, rfl⟩, rfl⟩ := (spells_choice_iff (by decide)).mp h₇
    have hkeys : ∀ k ∈ ["let", "var"], '=' ∉ k.toList := by decide
    obtain ⟨hequals, hnone⟩ : '=' ∉ type ∧ gs'.lookup 1 = none := by
      rcases htype.of_opt with ⟨rfl, rfl⟩ | htype
      · exact ⟨List.not_mem_nil, rfl⟩
      · obtain ⟨_, t, _, _, rfl, rfl, h₈, ht⟩ := spells_append_iff.mp htype
        obtain ⟨-, hfree, rfl⟩ := ht.of_rounds_one
        obtain ⟨_, b₄, rfl, hb₄, h₉⟩ := h₈.of_append_blanks
        obtain ⟨b₃, rfl, h₁₀⟩ := h₉.of_append_lit
        obtain ⟨hb₃, rfl⟩ := of_spells_blanks h₁₀
        refine ⟨?_, rfl⟩
        simp [notMem_of_forall hb₃ (c := '=') (by decide),
          notMem_of_forall hb₄ (c := '=') (by decide),
          notMem_of_forall hfree (c := '=') (by decide)]
    have hgroup : m.group 1 = name ∧ m.group 2 = v := by
      simp [Match.group, hgroups, List.lookup_cons, List.lookup_append, hnone]
    have hshape : condition = (k.toList ++ g ++ name ++ type ++ b₁) ++ ("=".toList ++ (b₂ ++ v)) := by
      rw [hcondition]
      simp
    have hbefore : ∀ c ∈ k.toList ++ g ++ name ++ type ++ b₁, (c != '=') = true := by
      have hnot : '=' ∉ k.toList ++ g ++ name ++ type ++ b₁ := by
        simp [hkeys k hk, notMem_of_forall hg (c := '=') (by decide), hequals,
          notMem_of_forall hword (c := '=') (by decide), notMem_of_forall hb₁ (c := '=') (by decide)]
      intro c hc
      rw [bne_iff_ne]
      rintro rfl
      exact hnot hc
    have hfront : Quoteless (k.toList ++ g ++ name ++ type ++ b₁) := by
      have hcut := hspares (by rw [Pattern.fits, hm]; rfl)
      rw [Text.fst_cutAt, hshape, List.takeWhile_append_of_pos hbefore] at hcut
      exact (quoteless_append.mp hcut).1
    rw [hshape] at h
    replace h := Scripted.cut_start h hfront
    rw [← List.append_assoc] at h
    have hvalue := Scripted.cut_start h (by simp +decide [quoteless_blank hb₂])
    rw [hgroup.1, hgroup.2]
    exact ⟨hword, Scripted.trim hvalue⟩
  · obtain ⟨m, hm, hsame⟩ := Option.map_eq_some_iff.mp hpair
    obtain ⟨rfl, rfl⟩ := Prod.mk.inj hsame
    obtain ⟨x, last, gs, hcondition, hlast, hx, hgroups⟩ := spells_of_match?_textEnd hm
    obtain ⟨_, name, _, _, rfl, rfl, hname, h₁⟩ := hx.of_append_cap
    obtain ⟨-, hword, rfl⟩ := hname.of_rounds_one
    obtain ⟨_, g, rfl, -, hg, h₂⟩ := h₁.of_append_gap
    obtain ⟨⟨k, hk, rfl⟩, rfl⟩ := (spells_choice_iff (by decide)).mp h₂
    have hkeys : ∀ k ∈ ["let", "var"], Quoteless k.toList := by decide
    have hend : Quoteless last := by
      rcases hlast with rfl | rfl <;> decide
    have hgroup : m.group 1 = name := by simp [Match.group, hgroups]
    obtain rfl := Scripted.eq_nil h (by
      rw [hcondition]
      simp [hkeys k hk, quoteless_blank hg, quoteless_word hword, hend])
    rw [hgroup]
    exact ⟨hword, made_code (quoteless_word hword)⟩

/-- Texts in a row that hold the literals between them. -/
def Hold (kind : Text → Prop) (ls : List Text) (ts : List Text) : Prop :=
  ∃ lss : List (List Text), ls ⊆ lss.flatten ∧ List.Forall₂ (Scripted kind) lss ts

variable {ms : List Text} {ts us : List Text}

theorem Hold.nil : Hold kind [] [] := ⟨[], List.Subset.refl _, .nil⟩

theorem Hold.singleton (h : Scripted kind ls t) : Hold kind ls [t] := ⟨[ls], by simp, .cons h .nil⟩

theorem Hold.append (ht : Hold kind ls ts) (hu : Hold kind ms us) :
    Hold kind (ls ++ ms) (ts ++ us) := by
  obtain ⟨lss, hls, hts⟩ := ht
  obtain ⟨mss, hms, hus⟩ := hu
  refine ⟨lss ++ mss, ?_, List.rel_append hts hus⟩
  rw [List.flatten_append]
  exact List.append_subset.mpr ⟨List.subset_append_of_subset_left _ hls,
    List.subset_append_of_subset_right _ hms⟩

theorem Hold.mono (h : Hold kind ls ts) (hsub : ms ⊆ ls) : Hold kind ms ts :=
  h.imp fun _ h => ⟨List.Subset.trans hsub h.1, h.2⟩

theorem Hold.join {sep : Text} (h : Hold kind ls ts) (hsep : ∀ c ∈ sep, isTameCode c = true) :
    Scripted kind ls (Text.join sep ts) := by
  obtain ⟨lss, hls, hts⟩ := h
  exact (made_join hsep hts).mono hls

/-- A name that is its own value holds no literal. -/
theorem eq_nil_of_name (hname : ∀ c ∈ name, isWord c = true) (h : Scripted kind ls name) :
    ls = [] := Scripted.eq_nil h (quoteless_word hname)

/-- The declaration and the test of a condition of a guard. -/
def guardPart (scope : Scope) (indent condition : Text) : List Text × Text :=
  match boundPair? condition with
  | none => ([], "!(" ++ condition ++ ")")
  | some (name, value) =>
    let declaration := indent ++ (if scope.parameters.contains name then "" else "const ") ++ name
      ++ " = " ++ value ++ ";"
    (if value == name then [] else [declaration], name ++ " == null")

theorem guardLines_eq (scope : Scope) (m : Match) : guardLines scope m =
    (Source.splitTopLevel .conditions (m.group 2)).flatMap
        (fun condition => (guardPart scope (m.group 1) condition).1)
      ++ [m.group 1 ++ "if (" ++ Text.join " || " ((Source.splitTopLevel .conditions (m.group 2)).map
        fun condition => (guardPart scope (m.group 1) condition).2) ++ ") \x7b" ++ m.group 3] := by
  have hflat : (Source.splitTopLevel .conditions (m.group 2)).flatMap
      (fun condition => (guardPart scope (m.group 1) condition).1) =
        ((Source.splitTopLevel .conditions (m.group 2)).map (guardPart scope (m.group 1))).flatMap
          (·.1) := by rw [List.flatMap_map]
  have hmap : (Source.splitTopLevel .conditions (m.group 2)).map
      (fun condition => (guardPart scope (m.group 1) condition).2) =
        ((Source.splitTopLevel .conditions (m.group 2)).map (guardPart scope (m.group 1))).map
          (·.2) := by rw [List.map_map]; rfl
  rw [hflat, hmap]
  rfl

/-- Both hold what the condition does. -/
theorem hold_guardPart (scope : Scope) {indent : Text}
    (hindent : ∀ c ∈ indent, isTameCode c = true)
    (h : Scripted kind ls condition) (hbreak : '\n' ∉ condition) (hspares : BoundSpares condition) :
    ∃ ms ks, ls ⊆ ms ++ ks ∧ Hold kind ms (guardPart scope indent condition).1 ∧
      Scripted kind ks (guardPart scope indent condition).2 := by
  rw [guardPart]
  split
  · exact ⟨[], ls, List.Subset.refl _, .nil, (h.code_append (by decide)).append_code (by decide)⟩
  · rename_i name value hpair
    obtain ⟨hname, hvalue⟩ := scripted_boundPair h hbreak hspares hpair
    have htame : ∀ c ∈ name, isTameCode c = true := quoteless_word hname
    have htest : Scripted kind [] (name ++ " == null") :=
      made_code (List.forall_mem_append.mpr ⟨htame, by decide⟩)
    dsimp only
    split
    · rename_i hsame
      rw [beq_iff_eq] at hsame
      subst hsame
      rw [eq_nil_of_name hname hvalue]
      exact ⟨[], [], List.Subset.refl _, .nil, htest⟩
    · refine ⟨ls, [], by simp, .singleton ((hvalue.code_append ?_).append_code (by decide)), htest⟩
      simp only [List.forall_mem_append]
      refine ⟨⟨⟨hindent, ?_⟩, htame⟩, by decide⟩
      split <;> decide

/-- A guard keeps the literals of its conditions. -/
theorem hold_guardParts (scope : Scope) {indent : Text}
    (hindent : ∀ c ∈ indent, isTameCode c = true)
    {conditions : List Text} (h : Hold kind ls conditions) (hbreak : ∀ c ∈ conditions, '\n' ∉ c)
    (hspares : ∀ c ∈ conditions, BoundSpares c) : ∃ ms ks, ls ⊆ ms ++ ks ∧
      Hold kind ms (conditions.flatMap fun c => (guardPart scope indent c).1) ∧
      Hold kind ks (conditions.map fun c => (guardPart scope indent c).2) := by
  obtain ⟨lss, hls, hconditions⟩ := h
  suffices hall : ∃ ms ks, lss.flatten ⊆ ms ++ ks ∧
      Hold kind ms (conditions.flatMap fun c => (guardPart scope indent c).1) ∧
      Hold kind ks (conditions.map fun c => (guardPart scope indent c).2) from
    hall.imp fun ms hks => hks.imp fun ks h => ⟨List.Subset.trans hls h.1, h.2⟩
  clear hls
  induction hconditions with
  | nil => exact ⟨[], [], List.Subset.refl _, .nil, .nil⟩
  | @cons ls condition lss conditions hcondition _ ih =>
    rw [List.forall_mem_cons] at hbreak hspares
    obtain ⟨ms, ks, hsub, hms, hks⟩ := ih hbreak.2 hspares.2
    obtain ⟨ms', ks', hsub', hms', hks'⟩ :=
      hold_guardPart scope hindent hcondition hbreak.1 hspares.1
    refine ⟨ms' ++ ms, ks' ++ ks, ?_, hms'.append hms, (Hold.singleton hks').append hks⟩
    rw [List.flatten_cons]
    intro l hl
    rcases List.mem_append.mp hl with hl | hl
    · have := hsub' hl
      simp only [List.mem_append] at this ⊢
      tauto
    · have := hsub hl
      simp only [List.mem_append] at this ⊢
      tauto

/-- The lines of a guard hold its literals. -/
theorem hold_guardLines (h : Scripted (fun l => '\x7b' ∉ l) ls line) (hbreak : '\n' ∉ line)
    (hm : guardLine.match? line = some m)
    (hspares : ∀ c ∈ Source.splitTopLevel .conditions (m.group 2), BoundSpares c) :
    Hold (fun l => '\x7b' ∉ l) ls (guardLines scope m) := by
  obtain ⟨x, last, gs, hline, hlast, hx, hgroups⟩ := spells_of_match?_textEnd hm
  obtain rfl : last = [] := by
    rcases hlast with rfl | rfl
    · rfl
    · exact absurd (hline ▸ List.mem_append_right x (List.mem_singleton_self _)) hbreak
  obtain ⟨_, tail, _, _, rfl, rfl, htail, h₁⟩ := hx.of_append_cap
  obtain ⟨-, -, rfl⟩ := htail.of_rounds_one
  obtain ⟨_, rfl, h₂⟩ := h₁.of_append_lit
  obtain ⟨_, b, rfl, hb, h₃⟩ := h₂.of_append_blanks
  obtain ⟨_, rfl, h₄⟩ := h₃.of_append_lit
  obtain ⟨_, g₂, rfl, -, hg₂, h₅⟩ := h₄.of_append_gap
  obtain ⟨_, conditions, _, _, rfl, rfl, hconditions, h₆⟩ := h₅.of_append_cap
  obtain ⟨-, -, rfl⟩ := hconditions.of_rounds_one
  obtain ⟨_, g₁, rfl, -, hg₁, h₇⟩ := h₆.of_append_gap
  obtain ⟨indent, rfl, h₈⟩ := h₇.of_append_lit
  obtain ⟨_, rfl, h₉⟩ := spells_cap_iff.mp h₈
  obtain ⟨hindent, rfl⟩ := of_spells_blanks h₉
  have hshape : line = (indent ++ "guard".toList ++ g₁) ++
      (conditions ++ ((g₂ ++ "else".toList ++ b ++ "\x7b".toList) ++ tail)) := by
    rw [hline]
    simp
  obtain ⟨hgroup₁, hgroup₂, hgroup₃⟩ : m.group 1 = indent ∧ m.group 2 = conditions ∧
      m.group 3 = tail := by simp [Match.group, hgroups, List.lookup_cons]
  rw [hgroup₂] at hspares
  have hfree : '\n' ∉ conditions := fun hmem => hbreak (by rw [hshape]; simp [hmem])
  rw [hshape] at h
  replace h := Scripted.cut_start h (by
    simp +decide [quoteless_blank hindent, quoteless_blank hg₁])
  obtain ⟨as, cs, hsub, ha, hc⟩ := Scripted.cut h (by
    simp +decide [quoteless_blank hg₂, quoteless_blank hb]) fun l hl => not_infix_of_brace hl
  obtain ⟨ass, hass, hparts⟩ := Scripted.splitTopLevel ha .conditions
  have hindentcode : ∀ c ∈ indent, isTameCode c = true := quoteless_blank hindent
  obtain ⟨ms, ks, hsub', hms, hks⟩ := hold_guardParts scope hindentcode ⟨ass, hass, hparts⟩
    (fun c hc hmem => hfree (mem_of_mem_splitTopLevel hc _ hmem)) hspares
  rw [guardLines_eq, hgroup₁, hgroup₂, hgroup₃]
  refine Hold.mono (hms.append (.singleton ((((hks.join (by decide)).code_append ?_).append_code
    (by decide)).append hc))) (List.Subset.trans hsub (List.append_subset.mpr ⟨?_, ?_⟩))
  · exact List.forall_mem_append.mpr ⟨hindentcode, by decide⟩
  · refine List.Subset.trans hsub' ?_
    rw [← List.append_assoc]
    exact List.subset_append_left _ _
  · rw [← List.append_assoc]
    exact List.subset_append_right _ _

/-- A condition, and the names that are bound anew. -/
def bindingPart (scope : Scope) (hoisted : List Text) (condition : Text) : Text × List Text :=
  match boundPair? condition with
  | none => ("(" ++ condition ++ ")", hoisted)
  | some (name, value) =>
    if value == name then (name ++ " != null", hoisted)
    else
      ("(" ++ name ++ " = " ++ value ++ ") != null",
        if scope.parameters.contains name || hoisted.contains name then hoisted
        else hoisted ++ [name])

/-- Names that are code. -/
def AreCode (names : List Text) : Prop := ∀ name ∈ names, ∀ c ∈ name, isTameCode c = true

/-- A condition holds its literals, and the names are code. -/
theorem scripted_bindingPart (scope : Scope) {hoisted : List Text} (h : Scripted kind ls condition)
    (hbreak : '\n' ∉ condition) (hspares : BoundSpares condition) (hhoisted : AreCode hoisted) :
    Scripted kind ls (bindingPart scope hoisted condition).1 ∧
      AreCode (bindingPart scope hoisted condition).2 := by
  rw [bindingPart]
  split
  · exact ⟨(h.code_append (by decide)).append_code (by decide), hhoisted⟩
  · rename_i name value hpair
    obtain ⟨hname, hvalue⟩ := scripted_boundPair h hbreak hspares hpair
    have htame : ∀ c ∈ name, isTameCode c = true := quoteless_word hname
    split
    · rename_i hsame
      rw [beq_iff_eq] at hsame
      subst hsame
      rw [eq_nil_of_name hname hvalue]
      exact ⟨made_code (List.forall_mem_append.mpr ⟨htame, by decide⟩), hhoisted⟩
    · refine ⟨(hvalue.code_append ?_).append_code (by decide), ?_⟩
      · simp only [List.forall_mem_append]
        exact ⟨⟨by decide, htame⟩, by decide⟩
      · dsimp only
        split
        · exact hhoisted
        · exact List.forall_mem_append.mpr ⟨hhoisted, List.forall_mem_singleton.mpr htame⟩

/-- Conditions one after the other hold their literals, and the names are code. -/
theorem hold_bindingParts (scope : Scope) {conditions checks hoisted : List Text}
    (h : Hold kind ls conditions)
    (hchecks : Hold kind ms checks) (hhoisted : AreCode hoisted)
    (hbreak : ∀ c ∈ conditions, '\n' ∉ c) (hspares : ∀ c ∈ conditions, BoundSpares c) :
    let step := fun (state : List Text × List Text) condition =>
      (state.1 ++ [(bindingPart scope state.2 condition).1], (bindingPart scope state.2 condition).2)
    Hold kind (ms ++ ls) (conditions.foldl step (checks, hoisted)).1 ∧
      AreCode (conditions.foldl step (checks, hoisted)).2 := by
  intro step
  obtain ⟨lss, hls, hconditions⟩ := h
  suffices hall : Hold kind (ms ++ lss.flatten) (conditions.foldl step (checks, hoisted)).1 ∧
      AreCode (conditions.foldl step (checks, hoisted)).2 from
    ⟨hall.1.mono (List.append_subset.mpr ⟨List.subset_append_left _ _,
      List.subset_append_of_subset_right _ hls⟩), hall.2⟩
  clear hls
  induction hconditions generalizing ms checks hoisted with
  | nil => exact ⟨by simpa using hchecks, hhoisted⟩
  | @cons ls condition lss conditions hcondition _ ih =>
    rw [List.forall_mem_cons] at hbreak hspares
    obtain ⟨hcheck, hnames⟩ :=
      scripted_bindingPart scope hcondition hbreak.1 hspares.1 hhoisted
    have hnext := ih (hchecks.append (.singleton hcheck)) hnames hbreak.2 hspares.2
    rw [List.foldl_cons, List.flatten_cons, ← List.append_assoc]
    exact hnext

theorem bindingParts_eq (scope : Scope) (hoisted : List Text) (m : Match) :
    bindingParts scope hoisted m =
      let step := fun (state : List Text × List Text) condition =>
        (state.1 ++ [(bindingPart scope state.2 condition).1],
          (bindingPart scope state.2 condition).2)
      let parts := (Source.splitTopLevel .conditions (m.group 2)).foldl step ([], hoisted)
      (m.group 1 ++ "if (" ++ Text.join " && " parts.1 ++ ") \x7b" ++ m.group 3, parts.2) := by
  refine congrArg (fun parts : List Text × List Text =>
    (m.group 1 ++ "if (" ++ Text.join " && " parts.1 ++ ") \x7b" ++ m.group 3, parts.2))
    (congrArg (List.foldl · _ _) (funext₂ fun state condition => ?_))
  rw [bindingPart]
  cases boundPair? condition with
  | none => rfl
  | some pair =>
    dsimp only
    split <;> rfl

/-- A line with bindings holds its literals, and the names are code. -/
theorem scripted_bindingParts (scope : Scope) {hoisted : List Text}
    (h : Scripted (fun l => '\x7b' ∉ l) ls line)
    (hbreak : '\n' ∉ line) (hm : bindingLine.match? line = some m) (hhoisted : AreCode hoisted)
    (hspares : ∀ c ∈ Source.splitTopLevel .conditions (m.group 2), BoundSpares c) :
    Scripted (fun l => '\x7b' ∉ l) ls (bindingParts scope hoisted m).1 ∧
      AreCode (bindingParts scope hoisted m).2 := by
  obtain ⟨x, last, gs, hline, hlast, hx, hgroups⟩ := spells_of_match?_textEnd hm
  obtain rfl : last = [] := by
    rcases hlast with rfl | rfl
    · rfl
    · exact absurd (hline ▸ List.mem_append_right x (List.mem_singleton_self _)) hbreak
  obtain ⟨_, tail, _, _, rfl, rfl, htail, h₁⟩ := hx.of_append_cap
  obtain ⟨-, -, rfl⟩ := htail.of_rounds_one
  obtain ⟨_, rfl, h₂⟩ := h₁.of_append_lit
  obtain ⟨_, b, rfl, hb, h₃⟩ := h₂.of_append_blanks
  obtain ⟨_, conditions, gs₁, _, rfl, rfl, hconditions, h₄⟩ := h₃.of_append_cap
  obtain ⟨_, g, rfl, -, hg, h₅⟩ := h₄.of_append_gap
  obtain ⟨front, rfl, h₆⟩ := h₅.of_append_lit
  obtain ⟨gs₂, rfl, hfront⟩ := spells_cap_iff.mp h₆
  have hcode : Quoteless front :=
    hfront.mem_of_within (s := isTameCode) ⟨⟨⟨fun _ => isTameCode_of_isBlank,
      within_text (by decide)⟩, fun _ => isTameCode_of_isBlank⟩,
        ⟨within_text (by decide), fun _ => isTameCode_of_isBlank⟩⟩
  have hshape : line = (front ++ "if".toList ++ g) ++
      (conditions ++ ((b ++ "\x7b".toList) ++ tail)) := by
    rw [hline]
    simp
  have hnone := hconditions.lookup_eq_none (i := 1) (by decide)
  obtain ⟨hgroup₁, hgroup₂, hgroup₃⟩ : m.group 1 = front ∧ m.group 2 = conditions ∧
      m.group 3 = tail := by simp [Match.group, hgroups, List.lookup_cons, List.lookup_append, hnone]
  rw [hgroup₂] at hspares
  have hfree : '\n' ∉ conditions := fun hmem => hbreak (by rw [hshape]; simp [hmem])
  rw [hshape] at h
  replace h := Scripted.cut_start h (by simp +decide [hcode, quoteless_blank hg])
  obtain ⟨as, cs, hsub, ha, hc⟩ := Scripted.cut h (by simp +decide [quoteless_blank hb])
    fun l hl => not_infix_of_brace hl
  obtain ⟨ass, hass, hparts⟩ := Scripted.splitTopLevel ha .conditions
  obtain ⟨hchecks, hnames⟩ := hold_bindingParts scope ⟨ass, hass, hparts⟩ .nil hhoisted
    (fun c hc hmem => hfree (mem_of_mem_splitTopLevel hc _ hmem)) hspares
  rw [bindingParts_eq, hgroup₁, hgroup₂, hgroup₃]
  refine ⟨((((hchecks.join (by decide)).code_append ?_).append_code (by decide)).append hc).mono hsub,
    hnames⟩
  exact List.forall_mem_append.mpr ⟨hcode, by decide⟩

/-- Lines with their bindings rephrased hold their literals, and the names are code. -/
theorem hold_bindLines (scope : Scope) (hoisted : List Text) {lines : List Text}
    (h : Hold (fun _ => True) ls lines)
    (hhoisted : AreCode hoisted) (hbreak : ∀ line ∈ lines, '\n' ∉ line)
    (hspares : ∀ line ∈ lines, BindingSpares line) :
    Hold (fun _ => True) ls (bindLines scope hoisted lines).1 ∧
      AreCode (bindLines scope hoisted lines).2 := by
  obtain ⟨lss, hls, hlines⟩ := h
  suffices hall : Hold (fun _ => True) lss.flatten (bindLines scope hoisted lines).1 ∧
      AreCode (bindLines scope hoisted lines).2 from ⟨hall.1.mono hls, hall.2⟩
  clear hls
  have hforget {kind : Text → Prop} {ls ts : List Text} (h : Hold kind ls ts) :
      Hold (fun _ => True) ls ts :=
    h.imp fun _ h => ⟨h.1, h.2.imp fun _ _ => Scripted.forget⟩
  induction hlines generalizing hoisted with
  | nil => exact ⟨.nil, hhoisted⟩
  | @cons ls line lss lines hline _ ih =>
    rw [List.forall_mem_cons] at hbreak hspares
    rw [bindLines, List.flatten_cons]
    cases hguard : guardLine.match? line with
    | some m =>
      obtain ⟨⟨htame, hliterals⟩, hbound⟩ := hspares.1 m (by simp [hguard])
      obtain ⟨hmore, hnames⟩ := ih _ hhoisted hbreak.2 hspares.2
      exact ⟨(hforget (hold_guardLines (hline.of_spans htame hliterals) hbreak.1 hguard
        hbound)).append hmore, hnames⟩
    | none =>
      cases hbinding : bindingLine.match? line with
      | some m =>
        obtain ⟨⟨htame, hliterals⟩, hbound⟩ := hspares.1 m (by simp [hguard, hbinding])
        obtain ⟨hnew, hnames⟩ := scripted_bindingParts scope (hline.of_spans htame hliterals)
          hbreak.1 hbinding hhoisted hbound
        obtain ⟨hmore, hnames⟩ := ih _ hnames hbreak.2 hspares.2
        exact ⟨(hforget (.singleton hnew)).append hmore, hnames⟩
      | none =>
        obtain ⟨hmore, hnames⟩ := ih _ hhoisted hbreak.2 hspares.2
        exact ⟨(Hold.singleton hline).append hmore, hnames⟩

end Swift

/-- Bindings keep the literals. -/
theorem scripted_optionalBinding (h : PlainScript ls t)
    (hspares : ∀ line ∈ t.lines, Swift.BindingSpares line) :
    PlainScript ls (Swift.optionalBinding scope t) := by
  obtain ⟨lss, hls, hlines⟩ := Made.lines h (fun _ hl => hl.1.ne_nil) fun _ hl => hl.1.break_notMem
  obtain ⟨hnew, hnames⟩ := Swift.hold_bindLines scope [] ⟨lss, hls, hlines⟩
    (List.forall_mem_nil _) (fun line hline => Text.break_notMem_of_mem_lines hline) hspares
  have hdeclared (names : List Text) (hnames : Swift.AreCode names) :
      Swift.Hold (fun _ => True) [] (names.map fun (n : Text) => "let " ++ n ++ ";") := by
    induction names with
    | nil => exact .nil
    | cons name names ih =>
      rw [Swift.AreCode, List.forall_mem_cons] at hnames
      exact (Swift.Hold.singleton (made_code (List.forall_mem_append.mpr
        ⟨List.forall_mem_append.mpr ⟨by decide, hnames.1⟩, by decide⟩))).append (ih hnames.2)
  exact ((hdeclared _ hnames).append hnew).join (by decide)

end HostScript.Body
