import HostScript.Body.Swift
import HostScript.Proofs.Pattern.Longer
import HostScript.Proofs.Script.Divided

/-!
# Loops over lines with literals

The idiom for loops works on whole lines, literals included. Where no literal of a loop holds one of
the phrases that separate its parts, the parts are divided in code, and their literals stay.
-/

namespace HostScript.Body

open Script Pattern

variable {t u x y w line : Text} {scope : Scope} {kind : Text → Prop} {ls : List Text}

namespace Swift

/-- What separates the parts of a loop over something. -/
def loopMarks : List String := ["\x7b", "..<", "...", "to:", "through:", "by:", "where"]

/-- A literal that holds no separator of a loop. -/
def LacksLoopMarks (l : Text) : Prop := ∀ w ∈ loopMarks, ¬ w.toList <:+: l

instance (l : Text) : Decidable (LacksLoopMarks l) := inferInstanceAs (Decidable (∀ _ ∈ _, _))

/-- A line that is no loop over something, or holds no separator of a loop in a literal. -/
def LoopSpares (line : Text) : Prop :=
  loopLine? line = none ∨ IsTameScript line ∧ ∀ l ∈ (mask .all line).spans, LacksLoopMarks l

instance (line : Text) : Decidable (LoopSpares line) := inferInstanceAs (Decidable (_ ∨ _))

variable {p : Pattern} {i : Nat} {m : Match} {gs : GroupTexts}

/-- What a line that opens a loop consists of. -/
theorem parts_of_loopTail (hbreak : '\n' ∉ line) (h : (p ++ loopTail i).match? line = some m) :
    ∃ x b tail gs, line = x ++ ((b ++ "\x7b".toList) ++ tail) ∧ (∀ c ∈ b, isBlank c = true) ∧
      p.Spells x gs ∧ ∀ j, m.group? j = ((i, tail) :: gs).lookup j := by
  have hend : ((p ++ (blanks ++ lit "\x7b" ++ cap i any.star)) ++ textEnd).match? line = some m := h
  obtain ⟨z, last, gs, hline, hlast, hz, hgroups⟩ := spells_of_match?_textEnd hend
  obtain rfl : last = [] := by
    rcases hlast with rfl | rfl
    · rfl
    · exact absurd (hline ▸ List.mem_append_right z (List.mem_singleton_self _)) hbreak
  obtain ⟨x, y, gs₁, gs₂, rfl, rfl, hx, hy⟩ := spells_append_iff.mp hz
  obtain ⟨_, tail, _, _, rfl, rfl, htail, h₁⟩ := hy.of_append_cap
  obtain ⟨-, -, rfl⟩ := htail.of_rounds_one
  obtain ⟨_, rfl, h₂⟩ := h₁.of_append_lit
  obtain ⟨hb, rfl⟩ := of_spells_blanks h₂
  exact ⟨x, _, tail, gs₁, by rw [hline, List.append_nil], hb, hx, by simpa using hgroups⟩

/-- The head of a loop over something. -/
theorem of_spells_loopHead (h : loopHead.Spells x gs) : ∃ indent var : Text,
    gs = [(2, var), (1, indent)] ∧ (∀ c ∈ indent ++ var, c ∈ x) ∧ Quoteless x := by
  obtain ⟨_, g₃, rfl, -, hg₃, h₁⟩ := h.of_append_gap
  obtain ⟨_, rfl, h₂⟩ := h₁.of_append_lit
  obtain ⟨_, g₂, rfl, -, hg₂, h₃⟩ := h₂.of_append_gap
  obtain ⟨_, var, _, _, rfl, rfl, hvar, h₄⟩ := h₃.of_append_cap
  obtain ⟨-, hword, rfl⟩ := hvar.of_rounds_one
  obtain ⟨_, g₁, rfl, -, hg₁, h₅⟩ := h₄.of_append_gap
  obtain ⟨indent, rfl, h₆⟩ := h₅.of_append_lit
  obtain ⟨_, rfl, h₇⟩ := spells_cap_iff.mp h₆
  obtain ⟨hindent, rfl⟩ := of_spells_blanks h₇
  refine ⟨indent, var, rfl, fun c hc => ?_, ?_⟩
  · rcases List.mem_append.mp hc with hc | hc <;> simp [hc]
  · simp +decide [quoteless_blank hindent, quoteless_blank hg₁, quoteless_blank hg₂,
      quoteless_blank hg₃, quoteless_word hword]

/-- A phrase with a separator stands in no such literal. -/
theorem LacksLoopMarks.not_infix {w : String} (hw : w ∈ loopMarks) {v : Text} (hv : w.toList <:+: v)
    {l : Text} (hl : LacksLoopMarks l) : ¬ v <:+: l := fun h => hl w hw (hv.trans h)

variable {ms as bs cs : List Text} {indent var start test bound step rest : Text} {m : Match}

/-- A counting loop keeps the literals of its parts. -/
theorem scripted_countingLoop (hhead : ∀ c ∈ indent ++ var, isTameCode c = true)
    (htest : ∀ c ∈ test, isTameCode c = true) (hstart : Scripted kind as start)
    (hbound : Scripted kind bs bound) (hstep : Scripted kind ms step)
    (hrest : Scripted kind cs rest) :
    Scripted kind (as ++ (bs ++ (ms ++ cs)))
      (countingLoop indent var start test bound step rest) := by
  rw [List.forall_mem_append] at hhead
  have hcode (s : String) (hs : ∀ c ∈ s.toList, isTameCode c = true) : Scripted kind [] s.toList :=
    made_code hs
  have hvar : Scripted kind [] var := made_code hhead.2
  have hloop := (((((((((((((((made_code hhead.1).append (hcode "for (let " (by decide))).append
    hvar).append (hcode " = " (by decide))).append hstart).append (hcode "; " (by decide))).append
    hvar).append (hcode " " (by decide))).append (made_code htest)).append (hcode " " (by decide))).append
    hbound).append (hcode "; " (by decide))).append hvar).append hstep).append
    (hcode ") \x7b" (by decide))).append hrest
  exact hloop.mono (by simp)

/-- A range between its ends. -/
theorem of_spells_range (h : (p ++ cap 3 any.plusLazy ++ blanks ++ cap 4 rangeMark ++ blanks ++
    cap 5 any.plusLazy).Spells x gs) : ∃ head start v bound gs' mark,
      x = head ++ (start ++ (v ++ bound)) ∧ p.Spells head gs' ∧
      gs = (5, bound) :: (4, mark) :: (3, start) :: gs' ∧ Quoteless v ∧
      ∀ l, LacksLoopMarks l → ¬ v <:+: l := by
  obtain ⟨_, bound, _, _, rfl, rfl, hbound, h₂⟩ := h.of_append_cap
  obtain ⟨-, -, rfl⟩ := hbound.of_rounds_one
  obtain ⟨_, b₂, rfl, hb₂, h₃⟩ := h₂.of_append_blanks
  obtain ⟨_, mark, _, _, rfl, rfl, hmark, h₄⟩ := h₃.of_append_cap
  obtain ⟨⟨w, hw, rfl⟩, rfl⟩ := (spells_choice_iff (by decide)).mp hmark
  obtain ⟨_, b₁, rfl, hb₁, h₅⟩ := h₄.of_append_blanks
  obtain ⟨head, start, _, gs', rfl, rfl, hstart, h₆⟩ := h₅.of_append_cap
  obtain ⟨-, -, rfl⟩ := hstart.of_rounds_one
  have hmarks : ∀ w ∈ ["..<", "..."], w ∈ loopMarks ∧ Quoteless w.toList := by decide
  exact ⟨head, start, b₁ ++ w.toList ++ b₂, bound, _, w.toList, by simp, h₆, rfl,
    by simp +decide [quoteless_blank hb₁, quoteless_blank hb₂, hmarks w hw],
    fun l => LacksLoopMarks.not_infix (hmarks w hw).1 ⟨b₁, b₂, rfl⟩⟩

/-- The brace of a loop stands in no literal. -/
theorem not_infix_brace (w : Text) {l : Text} (hl : LacksLoopMarks l) : ¬ w ++ "\x7b".toList <:+: l :=
  hl.not_infix (w := "\x7b") (by decide) (List.suffix_append _ _).isInfix

/-- A loop over a range from its end keeps the ends. -/
theorem scripted_reversedRange (h : Scripted LacksLoopMarks ls line) (hbreak : '\n' ∉ line)
    (hm : reversedRange.match? line = some m) : Scripted LacksLoopMarks ls
      (countingLoop (m.group 1) (m.group 2)
        (if m.group 4 == "..<".toList then m.group 5 ++ " - 1" else m.group 5) ">=" (m.group 3) "--"
        (m.group 6)) := by
  obtain ⟨x, b, tail, gs, hline, hb, hx, hgroups⟩ := parts_of_loopTail hbreak hm
  obtain ⟨_, rfl, h₁⟩ := hx.of_append_lit
  obtain ⟨_, start, v, bound, _, mark, rfl, h₂, rfl, hv, hlacks⟩ := of_spells_range h₁
  obtain ⟨head, rfl, h₃⟩ := h₂.of_append_lit
  obtain ⟨indent, var, rfl, hnames, hhead⟩ := of_spells_loopHead h₃
  have hshape : line = (head ++ "(".toList) ++ (start ++ (v ++ (bound ++
      ((").reversed()".toList ++ b ++ "\x7b".toList) ++ tail)))) := by rw [hline]; simp
  rw [hshape] at h
  obtain ⟨as, bs, cs, hsub, ha, hb', hc⟩ := Scripted.cut_three h (by simp +decide [hhead])
    ⟨hv, hlacks⟩ ⟨by simp +decide [quoteless_blank hb], fun l => not_infix_brace _⟩
  obtain ⟨h₁, h₂, h₃, h₅, h₆⟩ : m.group 1 = indent ∧ m.group 2 = var ∧ m.group 3 = start ∧
      m.group 5 = bound ∧ m.group 6 = tail := by simp [Match.group, hgroups, List.lookup_cons]
  rw [h₁, h₂, h₃, h₅, h₆]
  have hend : Scripted LacksLoopMarks bs
      (if m.group 4 == "..<".toList then bound ++ " - 1" else bound) := by
    split
    · exact hb'.append_code (by decide)
    · exact hb'
  refine (scripted_countingLoop (fun c hc => hhead c (hnames c hc)) (by decide) hend ha
    (made_code (by decide)) hc).mono fun l hl => ?_
  have := hsub hl
  simp only [List.mem_append] at this ⊢
  tauto

/-- So does a loop over a range. -/
theorem scripted_plainRange (h : Scripted LacksLoopMarks ls line) (hbreak : '\n' ∉ line)
    (hm : plainRange.match? line = some m) : Scripted LacksLoopMarks ls
      (countingLoop (m.group 1) (m.group 2) (m.group 3)
        (if m.group 4 == "..<".toList then "<" else "<=") (m.group 5) "++" (m.group 6)) := by
  obtain ⟨x, b, tail, gs, hline, hb, hx, hgroups⟩ := parts_of_loopTail hbreak hm
  obtain ⟨head, start, v, bound, _, mark, rfl, h₁, rfl, hv, hlacks⟩ := of_spells_range hx
  obtain ⟨indent, var, rfl, hnames, hhead⟩ := of_spells_loopHead h₁
  have hshape : line = head ++ (start ++ (v ++ (bound ++ ((b ++ "\x7b".toList) ++ tail)))) := by
    rw [hline]
    simp
  rw [hshape] at h
  obtain ⟨as, bs, cs, hsub, ha, hb', hc⟩ := Scripted.cut_three h hhead ⟨hv, hlacks⟩
    ⟨by simp +decide [quoteless_blank hb], fun l => not_infix_brace _⟩
  obtain ⟨h₁, h₂, h₃, h₅, h₆⟩ : m.group 1 = indent ∧ m.group 2 = var ∧ m.group 3 = start ∧
      m.group 5 = bound ∧ m.group 6 = tail := by simp [Match.group, hgroups, List.lookup_cons]
  rw [h₁, h₂, h₃, h₅, h₆]
  refine (scripted_countingLoop (fun c hc => hhead c (hnames c hc)) ?_ ha hb'
    (made_code (by decide)) hc).mono (by simpa using hsub)
  split_ifs <;> decide

/-- A loop over numbers at equal distances keeps its three numbers. -/
theorem scripted_strideRange (h : Scripted LacksLoopMarks ls line) (hbreak : '\n' ∉ line)
    (hm : strideRange.match? line = some m) {test : Text} (htest : ∀ c ∈ test, isTameCode c = true) :
    Scripted LacksLoopMarks ls (countingLoop (m.group 1) (m.group 2) (m.group 3) test (m.group 5)
      (" += " ++ m.group 6) (m.group 7)) := by
  obtain ⟨x, b, tail, gs, hline, hb, hx, hgroups⟩ := parts_of_loopTail hbreak hm
  obtain ⟨_, rfl, h₁⟩ := hx.of_append_lit
  obtain ⟨_, step, _, _, rfl, rfl, hstep, h₂⟩ := h₁.of_append_cap
  obtain ⟨-, -, rfl⟩ := hstep.of_rounds_one
  obtain ⟨_, b₅, rfl, hb₅, h₃⟩ := h₂.of_append_blanks
  obtain ⟨_, rfl, h₄⟩ := h₃.of_append_lit
  obtain ⟨_, b₄, rfl, hb₄, h₅⟩ := h₄.of_append_blanks
  obtain ⟨_, rfl, h₆⟩ := h₅.of_append_lit
  obtain ⟨_, bound, _, _, rfl, rfl, hbound, h₇⟩ := h₆.of_append_cap
  obtain ⟨-, -, rfl⟩ := hbound.of_rounds_one
  obtain ⟨_, b₃, rfl, hb₃, h₈⟩ := h₇.of_append_blanks
  obtain ⟨_, rfl, h₉⟩ := h₈.of_append_lit
  obtain ⟨_, mark, _, _, rfl, rfl, hmark, h₁₀⟩ := h₉.of_append_cap
  obtain ⟨⟨w, hw, rfl⟩, rfl⟩ := (spells_choice_iff (by decide)).mp hmark
  obtain ⟨_, b₂, rfl, hb₂, h₁₁⟩ := h₁₀.of_append_blanks
  obtain ⟨_, rfl, h₁₂⟩ := h₁₁.of_append_lit
  obtain ⟨_, start, _, _, rfl, rfl, hstart, h₁₃⟩ := h₁₂.of_append_cap
  obtain ⟨-, -, rfl⟩ := hstart.of_rounds_one
  obtain ⟨_, b₁, rfl, hb₁, h₁₄⟩ := h₁₃.of_append_blanks
  obtain ⟨_, rfl, h₁₅⟩ := h₁₄.of_append_lit
  obtain ⟨_, b₀, rfl, hb₀, h₁₆⟩ := h₁₅.of_append_blanks
  obtain ⟨head, rfl, h₁₇⟩ := h₁₆.of_append_lit
  obtain ⟨indent, var, rfl, hnames, hhead⟩ := of_spells_loopHead h₁₇
  have hmarks : ∀ w ∈ ["to", "through"], w ++ ":" ∈ loopMarks ∧ Quoteless w.toList := by decide
  have hshape : line = (head ++ "stride(".toList ++ b₀ ++ "from:".toList ++ b₁) ++ (start ++
      ((",".toList ++ b₂ ++ (w ++ ":").toList ++ b₃) ++ (bound ++
        ((",".toList ++ b₄ ++ "by:".toList ++ b₅) ++
          (step ++ ((")".toList ++ b ++ "\x7b".toList) ++ tail)))))) := by
    rw [hline]
    simp
  rw [hshape] at h
  obtain ⟨as, bs, ks, hsub, ha, hb', hk⟩ := Scripted.cut_three h
    (by simp +decide [hhead, quoteless_blank hb₀, quoteless_blank hb₁])
    ⟨by simp +decide [quoteless_blank hb₂, quoteless_blank hb₃, hmarks w hw],
      fun l hl => hl.not_infix (hmarks w hw).1 ⟨",".toList ++ b₂, b₃, rfl⟩⟩
    ⟨by simp +decide [quoteless_blank hb₄, quoteless_blank hb₅],
      fun l hl => hl.not_infix (w := "by:") (by decide) ⟨",".toList ++ b₄, b₅, rfl⟩⟩
  obtain ⟨ms, cs, hsub', hs, hc⟩ := Scripted.cut hk (by simp +decide [quoteless_blank hb])
    fun l => not_infix_brace _
  obtain ⟨h₁, h₂, h₃, h₅, h₆, h₇⟩ : m.group 1 = indent ∧ m.group 2 = var ∧ m.group 3 = start ∧
      m.group 5 = bound ∧ m.group 6 = step ∧ m.group 7 = tail := by
    simp [Match.group, hgroups, List.lookup_cons]
  rw [h₁, h₂, h₃, h₅, h₆, h₇]
  refine (scripted_countingLoop (fun c hc => hhead c (hnames c hc)) htest ha hb'
    (hs.code_append (t := " += ".toList) (by decide)) hc).mono ?_
  exact List.Subset.trans hsub (List.append_subset.mpr ⟨List.subset_append_left _ _,
    List.subset_append_of_subset_right _ (List.append_subset.mpr ⟨List.subset_append_left _ _,
      List.subset_append_of_subset_right _ hsub'⟩)⟩)

/-- A loop over members with their places keeps the collection. -/
theorem scripted_enumeratedLoop (h : Scripted LacksLoopMarks ls line) (hbreak : '\n' ∉ line)
    (hm : enumeratedLoop.match? line = some m) : Scripted LacksLoopMarks ls
      (m.group 1 ++ "for (const [" ++ m.group 2 ++ ", " ++ m.group 3 ++ "] of " ++ m.group 4
        ++ ".entries()) \x7b" ++ m.group 5) := by
  obtain ⟨x, b, tail, gs, hline, hb, hx, hgroups⟩ := parts_of_loopTail hbreak hm
  obtain ⟨_, rfl, h₁⟩ := hx.of_append_lit
  obtain ⟨_, members, _, _, rfl, rfl, hmembers, h₂⟩ := h₁.of_append_cap
  obtain ⟨-, -, rfl⟩ := hmembers.of_rounds_one
  obtain ⟨_, g₃, rfl, -, hg₃, h₃⟩ := h₂.of_append_gap
  obtain ⟨_, rfl, h₄⟩ := h₃.of_append_lit
  obtain ⟨_, g₂, rfl, -, hg₂, h₅⟩ := h₄.of_append_gap
  obtain ⟨_, rfl, h₆⟩ := h₅.of_append_lit
  obtain ⟨_, second, _, _, rfl, rfl, hsecond, h₇⟩ := h₆.of_append_cap
  obtain ⟨-, hword₂, rfl⟩ := hsecond.of_rounds_one
  obtain ⟨_, b₁, rfl, hb₁, h₈⟩ := h₇.of_append_blanks
  obtain ⟨_, rfl, h₉⟩ := h₈.of_append_lit
  obtain ⟨_, first, _, _, rfl, rfl, hfirst, h₁₀⟩ := h₉.of_append_cap
  obtain ⟨-, hword₁, rfl⟩ := hfirst.of_rounds_one
  obtain ⟨_, rfl, h₁₁⟩ := h₁₀.of_append_lit
  obtain ⟨_, g₁, rfl, -, hg₁, h₁₂⟩ := h₁₁.of_append_gap
  obtain ⟨indent, rfl, h₁₃⟩ := h₁₂.of_append_lit
  obtain ⟨_, rfl, h₁₄⟩ := spells_cap_iff.mp h₁₃
  obtain ⟨hindent, rfl⟩ := of_spells_blanks h₁₄
  have hshape : line = (indent ++ "for".toList ++ g₁ ++ "(".toList ++ first ++ ",".toList ++ b₁ ++
      second ++ ")".toList ++ g₂ ++ "in".toList ++ g₃) ++
        (members ++ ((".enumerated()".toList ++ b ++ "\x7b".toList) ++ tail)) := by
    rw [hline]
    simp
  rw [hshape] at h
  replace h := Scripted.cut_start h (by
    simp +decide [quoteless_blank hindent, quoteless_blank hg₁, quoteless_blank hb₁,
      quoteless_blank hg₂, quoteless_blank hg₃, quoteless_word hword₁, quoteless_word hword₂])
  obtain ⟨as, cs, hsub, ha, hc⟩ := Scripted.cut h (by simp +decide [quoteless_blank hb])
    fun l => not_infix_brace _
  obtain ⟨h₁, h₂, h₃, h₄, h₅⟩ : m.group 1 = indent ∧ m.group 2 = first ∧ m.group 3 = second ∧
      m.group 4 = members ∧ m.group 5 = tail := by simp [Match.group, hgroups, List.lookup_cons]
  rw [h₁, h₂, h₃, h₄, h₅]
  refine (((ha.code_append ?_).append_code (by decide)).append hc).mono hsub
  simp only [List.forall_mem_append]
  exact ⟨⟨⟨⟨⟨quoteless_blank hindent, by decide⟩, quoteless_word hword₁⟩, by decide⟩,
    quoteless_word hword₂⟩, by decide⟩

/-- A loop over members keeps the collection and the condition. -/
theorem scripted_collectionLoop (h : Scripted LacksLoopMarks ls line) (hbreak : '\n' ∉ line)
    (hm : collectionLoop.match? line = some m) : Scripted LacksLoopMarks ls
      (m.group 1 ++ "for (const " ++ m.group 2 ++ " of " ++ m.group 3 ++ ") \x7b" ++
        (match m.group? 4 with
        | some condition => " if (!(" ++ condition ++ ")) continue;"
        | none => []) ++ m.group 5) := by
  obtain ⟨x, b, tail, gs, hline, hb, hx, hgroups⟩ := parts_of_loopTail hbreak hm
  obtain ⟨_, opt, _, gs₁, rfl, rfl, h₁, hopt⟩ := spells_append_iff.mp hx
  obtain ⟨head, members, _, _, rfl, rfl, hmembers, h₂⟩ := h₁.of_append_cap
  obtain ⟨-, -, rfl⟩ := hmembers.of_rounds_one
  obtain ⟨indent, var, rfl, hnames, hhead⟩ := of_spells_loopHead h₂
  rcases hopt.of_opt with ⟨rfl, rfl⟩ | hwhere
  · have hshape : line = head ++ (members ++ ((b ++ "\x7b".toList) ++ tail)) := by
      rw [hline]
      simp
    rw [hshape] at h
    obtain ⟨as, cs, hsub, ha, hc⟩ := Scripted.cut (Scripted.cut_start h hhead) (by simp +decide [quoteless_blank hb])
      fun l => not_infix_brace _
    obtain ⟨h₁, h₂, h₃, h₅⟩ : m.group 1 = indent ∧ m.group 2 = var ∧ m.group 3 = members ∧
        m.group 5 = tail := by simp [Match.group, hgroups, List.lookup_cons]
    have h₄ : m.group? 4 = none := by simp [hgroups, List.lookup_cons]
    rw [h₁, h₂, h₃, h₄, h₅, List.append_nil]
    refine (((ha.code_append ?_).append_code (by decide)).append hc).mono hsub
    simp only [List.forall_mem_append]
    exact ⟨⟨⟨fun c hc => hhead c (hnames c (by simp [hc])), by decide⟩,
      fun c hc => hhead c (hnames c (by simp [hc]))⟩, by decide⟩
  · obtain ⟨_, condition, _, _, rfl, rfl, hcondition, h₃⟩ := hwhere.of_append_cap
    obtain ⟨-, -, rfl⟩ := hcondition.of_rounds_one
    obtain ⟨_, g₂, rfl, -, hg₂, h₄⟩ := h₃.of_append_gap
    obtain ⟨g₁, rfl, h₅⟩ := h₄.of_append_lit
    obtain ⟨-, hg₁, rfl⟩ := of_spells_gap h₅
    have hshape : line = head ++ (members ++ ((g₁ ++ "where".toList ++ g₂) ++
        (condition ++ ((b ++ "\x7b".toList) ++ tail)))) := by
      rw [hline]
      simp
    rw [hshape] at h
    obtain ⟨as, bs, cs, hsub, ha, hb', hc⟩ := Scripted.cut_three h hhead
      ⟨by simp +decide [quoteless_blank hg₁, quoteless_blank hg₂],
        fun l hl => hl.not_infix (w := "where") (by decide) ⟨g₁, g₂, rfl⟩⟩
      ⟨by simp +decide [quoteless_blank hb], fun l => not_infix_brace _⟩
    obtain ⟨h₁, h₂, h₃, h₅⟩ : m.group 1 = indent ∧ m.group 2 = var ∧ m.group 3 = members ∧
        m.group 5 = tail := by simp [Match.group, hgroups, List.lookup_cons]
    have h₄ : m.group? 4 = some condition := by simp [hgroups, List.lookup_cons]
    rw [h₁, h₂, h₃, h₄, h₅]
    dsimp only
    refine ((((ha.code_append ?_).append_code (by decide)).append
      ((hb'.code_append (by decide)).append_code (by decide))).append hc).mono (by simpa using hsub)
    simp only [List.forall_mem_append]
    exact ⟨⟨⟨fun c hc => hhead c (hnames c (by simp [hc])), by decide⟩,
      fun c hc => hhead c (hnames c (by simp [hc]))⟩, by decide⟩

/-- The start of a loop that tests its condition last keeps what follows it. -/
theorem scripted_repeatHead (h : Scripted kind ls line) (hbreak : '\n' ∉ line)
    (hm : repeatHead.match? line = some m) :
    Scripted kind ls (m.group 1 ++ "do \x7b" ++ m.group 2) := by
  obtain ⟨x, b, tail, gs, hline, hb, hx, hgroups⟩ := parts_of_loopTail hbreak hm
  obtain ⟨indent, rfl, h₁⟩ := hx.of_append_lit
  obtain ⟨_, rfl, h₂⟩ := spells_cap_iff.mp h₁
  obtain ⟨hindent, rfl⟩ := of_spells_blanks h₂
  rw [hline, ← List.append_assoc] at h
  have hc := Scripted.cut_start h (by
    simp +decide [quoteless_blank hindent, quoteless_blank hb])
  obtain ⟨h₁, h₂⟩ : m.group 1 = indent ∧ m.group 2 = tail := by
    simp [Match.group, hgroups, List.lookup_cons]
  rw [h₁, h₂]
  exact hc.code_append (List.forall_mem_append.mpr ⟨quoteless_blank hindent, by decide⟩)

/-- The end of such a loop keeps its condition. -/
theorem scripted_whileTail (h : Scripted kind ls line)
    (hm : whileTail.match? line = some m) :
    Scripted kind ls (m.group 1 ++ "\x7d while (" ++ m.group 2 ++ ");") := by
  obtain ⟨x, last, gs, hline, hlast, hx, hgroups⟩ := spells_of_match?_textEnd hm
  obtain ⟨_, b₃, rfl, hb₃, h₁⟩ := hx.of_append_blanks
  obtain ⟨_, semi, _, gs', rfl, rfl, h₂, hsemi⟩ := spells_append_iff.mp h₁
  obtain ⟨_, b₂, rfl, hb₂, h₃⟩ := h₂.of_append_blanks
  obtain ⟨_, condition, _, _, rfl, rfl, hcondition, h₄⟩ := h₃.of_append_cap
  obtain ⟨-, -, rfl⟩ := hcondition.of_rounds_one
  obtain ⟨_, g, rfl, -, hg, h₅⟩ := h₄.of_append_gap
  obtain ⟨_, rfl, h₆⟩ := h₅.of_append_lit
  obtain ⟨_, b₁, rfl, hb₁, h₇⟩ := h₆.of_append_blanks
  obtain ⟨indent, rfl, h₈⟩ := h₇.of_append_lit
  obtain ⟨_, rfl, h₉⟩ := spells_cap_iff.mp h₈
  obtain ⟨hindent, rfl⟩ := of_spells_blanks h₉
  obtain ⟨hsolid, rfl⟩ : Quoteless semi ∧ gs' = [] := by
    rcases hsemi.of_opt with ⟨rfl, rfl⟩ | hsemi
    · exact ⟨quoteless_nil, rfl⟩
    · obtain ⟨rfl, rfl⟩ := spells_lit_iff.mp hsemi
      exact ⟨by decide, rfl⟩
  have hend : Quoteless last := by
    rcases hlast with rfl | rfl <;> decide
  have hshape : line = (indent ++ "\x7d".toList ++ b₁ ++ "while".toList ++ g) ++
      (condition ++ (b₂ ++ semi ++ b₃ ++ last)) := by
    rw [hline]
    simp
  rw [hshape] at h
  replace h := Scripted.cut_start h (by
    simp +decide [quoteless_blank hindent, quoteless_blank hb₁, quoteless_blank hg])
  have hc := Scripted.cut_end h (by
    simp +decide [quoteless_blank hb₂, hsolid, quoteless_blank hb₃, hend])
  obtain ⟨h₁, h₂⟩ : m.group 1 = indent ∧ m.group 2 = condition := by
    simp [Match.group, hgroups, List.lookup_cons]
  rw [h₁, h₂]
  exact (hc.code_append (List.forall_mem_append.mpr
    ⟨quoteless_blank hindent, by decide⟩)).append_code (by decide)

/-- A loop line keeps its literals that hold no separator of a loop. -/
theorem scripted_loopLine (h : Scripted LacksLoopMarks ls line) (hbreak : '\n' ∉ line)
    (hnew : loopLine? line = some t) : Scripted LacksLoopMarks ls t := by
  have hfits {p : Pattern} {f : Match → Text} (hf : whenFits p f line = some t) :
      ∃ m, p.match? line = some m ∧ f m = t := Option.map_eq_some_iff.mp hf
  have hor {a b : Option Text} (h : (a <|> b) = some t) : a = some t ∨ b = some t := by
    cases a with
    | none => exact .inr h
    | some => exact .inl h
  rw [loopLine?] at hnew
  rcases hor hnew with hreversed | hnew
  · obtain ⟨m, hm, rfl⟩ := hfits hreversed
    exact scripted_reversedRange h hbreak hm
  rcases hor hnew with hstride | hnew
  · obtain ⟨m, hm, rfl⟩ := hfits hstride
    refine scripted_strideRange h hbreak hm ?_
    split_ifs <;> decide
  rcases hor hnew with henumerated | hnew
  · obtain ⟨m, hm, rfl⟩ := hfits henumerated
    exact scripted_enumeratedLoop h hbreak hm
  rcases hor hnew with hplain | hnew
  · obtain ⟨m, hm, rfl⟩ := hfits hplain
    exact scripted_plainRange h hbreak hm
  rcases hor hnew with hcollection | hrepeat
  · obtain ⟨m, hm, rfl⟩ := hfits hcollection
    exact scripted_collectionLoop h hbreak hm
  · obtain ⟨m, hm, rfl⟩ := hfits hrepeat
    exact scripted_repeatHead h hbreak hm

end Swift

/-- Loops keep the literals. -/
theorem scripted_rangeLoops (h : PlainScript ls line) (hbreak : '\n' ∉ line)
    (hspares : Swift.LoopSpares line) : PlainScript ls (Swift.rangeLoops scope line) := by
  rw [Swift.rangeLoops]
  split
  · rename_i new hnew
    rcases hspares with hnone | ⟨htame, hliterals⟩
    · rw [hnone] at hnew
      cases hnew
    · exact Scripted.forget
        (Swift.scripted_loopLine (Scripted.of_spans h htame hliterals) hbreak hnew)
  · split
    · rename_i m hm
      split
      · exact h
      · exact Swift.scripted_whileTail h hm
    · exact h

end HostScript.Body
