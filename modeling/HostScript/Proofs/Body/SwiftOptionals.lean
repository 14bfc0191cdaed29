import HostScript.Body.Swift
import HostScript.Proofs.Body.Marks
import HostScript.Proofs.Source.Block

/-!
# Optional values

Casts go, and tests, defaults and chained accesses are written out with the operand before them,
which may be written twice. Nothing of this divides a mark. Without the word `as` and without a
question mark nothing happens.
-/

namespace HostScript.Body

open Script Pattern

namespace Swift

variable {n : Nat} {t : Text} {scope : Scope}

/-! ### Without optional values -/

/-- Without the word `as` no cast goes. -/
theorem castSuffix_apply (has : ¬ HasWord "as" t) : castSuffix.apply t = t := by
  apply replace_of_allIn_eq_nil
  rw [List.eq_nil_iff_forall_not_mem]
  intro m hm
  obtain ⟨gs, hx, -⟩ := spells_of_mem_allIn hm
  obtain ⟨u, v, ht⟩ := infix_of_mem_allIn hm
  simp only [castSuffix, Edit.const, spells_append_iff, spells_lit_iff] at hx
  obtain ⟨_, last, _, _, htext, -, ⟨_, type, _, _, rfl, -, ⟨_, x, _, _, rfl, -,
    ⟨_, mark, _, _, rfl, -, ⟨y, _, _, _, rfl, -, hy, rfl, -⟩, hmark⟩, hx⟩, -⟩, -⟩ := hx
  obtain ⟨hy, hyb, -⟩ := of_spells_gap hy
  obtain ⟨hx, hxb, -⟩ := of_spells_gap hx
  obtain ⟨y, c, rfl⟩ := (List.eq_nil_or_concat' y).resolve_left hy
  obtain ⟨d, x, rfl⟩ := List.exists_cons_of_ne_nil hx
  have hc : (u ++ y ++ [c]).getLast?.any isWord = false := by
    simpa using isWord_of_isBlank (hyb c (by simp))
  rw [htext] at ht
  apply has
  obtain ⟨rfl, -⟩ | hmark := hmark.of_opt
  · have hword := hasWord_of_apart (w := "as") (by decide) hc
      (isWord_of_isBlank (hxb d (by simp))) (x ++ (type ++ last ++ v))
    simpa [← ht] using hword
  · obtain ⟨mark, hset, rfl, -⟩ := spells_oneOf_iff.mp hmark
    have hmarkWord : isWord mark = false := by
      have hcases : mark = '?' ∨ mark = '!' := by simpa [among] using hset
      rcases hcases with rfl | rfl
      · decide
      · decide
    have hword := hasWord_of_apart (w := "as") (by decide) hc hmarkWord
      (d :: x ++ (type ++ last ++ v))
    simpa [← ht] using hword

theorem nilCoalescing_eq (h : '?' ∉ t) (turns : Nat) : nilCoalescing turns t = t := by
  have hneeds : coalescing.Needs ['?'] := .left (.right (needs_lit (by decide)))
  cases turns with
  | zero => rfl
  | succ turns =>
    rw [nilCoalescing, hneeds.search?_eq_none (mt (List.singleton_infix_iff '?' t).mp h)]

theorem optionalChaining_eq (h : '?' ∉ t) (turns : Nat) : optionalChaining turns t = t := by
  have hneeds : chainedMember.Needs ['?'] := .left (needs_lit (by decide))
  cases turns with
  | zero => rfl
  | succ turns =>
    rw [optionalChaining, hneeds.search?_eq_none (mt (List.singleton_infix_iff '?' t).mp h)]

/-! ### Casts and tests -/

/-- A cast goes. -/
theorem isSafe_castSuffix : castSuffix.IsSafe := by
  refine isSafe_const (.left (.left (.left (.left (.left ?start _) _) _) _) _) ?stop (by decide)
  case start =>
    refine startsParted_of_spells fun x gs hx => ?_
    obtain ⟨hne, hblank, -⟩ := of_spells_gap hx
    obtain ⟨c, x, rfl⟩ := List.exists_cons_of_ne_nil hne
    exact ⟨c, x, rfl, isWord_of_isBlank (hblank c (List.mem_cons_self ..))⟩
  case stop =>
    intro k c e hk hrun
    rw [run_seq, run_seq] at hrun
    obtain ⟨x, gs, d, hx, hpass, hd⟩ := covers_run _ _ _ _ hrun
    have hmoved : c.pos < d.pos := by
      obtain ⟨_, b, rfl, hne, -, -⟩ := hx.of_append_gap
      have := List.length_pos_of_ne_nil hne
      rw [hpass.pos, List.length_append]
      omega
    rw [oneOf, run_plus_one, run_one] at hd
    obtain ⟨-, hd⟩ := Option.ite_none_right_eq_some.mp hd
    have hnext : d.pos ≤ (d.advance 1).pos := Nat.le_add_right ..
    obtain ⟨y, hy, hstop, hstar⟩ := run_star_one_eq (k := (lit "?").opt.run k)
      (c := d.advance 1) fun y hy => isSome_run_opt_iff.mpr (.inr (by rw [hk y (by omega)]; rfl))
    have hopt : (lit "?").opt.run k y = Fit.orTry
      ((lit "?").run (fun z => if z.pos == y.pos then none else k z) y) fun _ => k y := rfl
    rw [hstar, hopt] at hd
    rcases Fit.of_orTry_eq_some hd with hmark | hd
    · obtain ⟨z, _, y', hz, hpass', hy'⟩ := covers_run (lit "?") _ _ _ hmark
      obtain ⟨rfl, -⟩ := spells_lit_iff.mp hz
      refine ⟨y', (Option.ite_none_left_eq_some.mp hy').2, .inl ?_⟩
      rw [hpass'.before, List.reverse_append]
      exact endsIn_concat _ _ _
    · refine ⟨y, hd, .inr ?_⟩
      rw [startsIn]
      cases hhead : y.after.head? with
      | none => rfl
      | some a =>
        rw [hhead] at hstop
        exact (Bool.or_eq_false_iff.mp hstop).1

/-- The operands of a test for a type stay. -/
theorem keepsMarks_typeTest : KeepsMarks n t (typeTest.apply t) := by
  refine keepsMarks_replace fun m hm => ?_
  obtain ⟨gs, hx, hgroups⟩ := spells_of_mem_allIn hm
  obtain ⟨_, type, _, _, htext, rfl, htype, h₁⟩ := hx.of_append_cap
  obtain ⟨_, y, rfl, hy, hyb, h₂⟩ := h₁.of_append_gap
  obtain ⟨_, rfl, h₃⟩ := h₂.of_append_lit
  obtain ⟨_, x, rfl, hne, hxb, h₄⟩ := h₃.of_append_gap
  obtain ⟨_, value, _, _, rfl, rfl, hvalue, h₅⟩ := h₄.of_append_cap
  obtain ⟨rfl, rfl⟩ := spells_edge_iff.mp h₅
  obtain ⟨-, -, rfl⟩ := hvalue.of_rounds_one
  have hfirst : m.group 1 = value := by
    have hnone := htype.lookup_eq_none (i := 1) (by decide)
    simp [Match.group, hgroups, List.lookup_cons, List.lookup_append, hnone]
  have hsecond : m.group 2 = type := by simp [Match.group, hgroups]
  have hstart : StandsBehind (x ++ ("is" ++ y)) := by
    refine .append_left ⟨tell_notMem_blank hxb, ?_⟩ hne (by simp [tell_notMem_blank hyb])
    obtain ⟨c, x, rfl⟩ := List.exists_cons_of_ne_nil hne
    exact isWord_of_isBlank (hxb c (List.mem_cons_self ..))
  refine ⟨value, x ++ ("is" ++ y), type, " instanceof ".toList, by rw [htext]; simp, ?_, ?_, ?_, ?_⟩
  · rw [← hfirst, ← hsecond, ← List.append_assoc]
    rfl
  · right
    rw [startsIn, List.head?_append_of_ne_nil _ (by simp [hne])]
    exact hstart.2
  · left
    simp only [← List.append_assoc]
    rw [endsIn_append _ hy]
    exact any_getLast?_of_isBlank hyb
  · exact keepsMarks_code hstart.1 (by decide)

/-- A mark for a forced unwrapping goes. -/
theorem keepsMarks_forcedValue : KeepsMarks n t (forcedValue.apply t) := by
  refine keepsMarks_replace fun m hm => ?_
  obtain ⟨gs, hx, hgroups⟩ := spells_of_mem_allIn hm
  obtain ⟨_, _, _, _, htext, rfl, h₁, h₂⟩ := spells_append_iff.mp hx
  obtain ⟨rfl, rfl⟩ := spells_notAhead_iff.mp h₂
  obtain ⟨_, rfl, h₃⟩ := h₁.of_append_lit
  obtain ⟨_, rfl, hone⟩ := spells_cap_iff.mp h₃
  obtain ⟨c, -, rfl, rfl⟩ := spells_oneOf_iff.mp hone
  have hgroup : m.group 1 = [c] := by simp [Match.group, hgroups]
  refine ⟨[c], "!".toList, [], [], by simpa using htext, hgroup, .inr rfl, ?_, ?_⟩
  · left
    simp only [← List.append_assoc]
    exact endsIn_concat _ _ _
  · exact keepsMarks_code (by decide) (List.forall_mem_nil _)

/-! ### Operands -/

/-- The operand before an operator starts at a place that does not divide a name. -/
theorem operandLength_spec (depth : Nat) (x : Text) :
    operandLength depth x ≤ x.length ∧
      ∀ c, x[operandLength depth x]? = some c → isIdentPart c = false := by
  fun_induction operandLength depth x with
  | case1 => simp
  | case2 c rest hclose ih =>
    rw [Nat.add_comm 1, List.getElem?_cons_succ]
    exact ⟨Nat.succ_le_succ ih.1, ih.2⟩
  | case3 c rest _ hpart ih =>
    rw [Nat.add_comm 1, List.getElem?_cons_succ]
    exact ⟨Nat.succ_le_succ ih.1, ih.2⟩
  | case4 c rest hclose hpart =>
    refine ⟨Nat.zero_le _, fun d hd => ?_⟩
    obtain rfl : c = d := by simpa using hd
    simp only [Bool.or_eq_true, not_or, Bool.not_eq_true] at hpart
    obtain ⟨⟨⟨halnum, hunder⟩, hdollar⟩, -⟩ := hpart
    simp [isIdentPart, isWord, halnum, hunder, hdollar]
  | case5 depth c rest hclose ih =>
    rw [Nat.add_comm 1, List.getElem?_cons_succ]
    exact ⟨Nat.succ_le_succ ih.1, ih.2⟩
  | case6 depth c rest hclose hopen ih =>
    rw [Nat.add_comm 1, List.getElem?_cons_succ]
    exact ⟨Nat.succ_le_succ ih.1, ih.2⟩
  | case7 depth c rest hclose hopen ih =>
    rw [Nat.add_comm 1, List.getElem?_cons_succ]
    exact ⟨Nat.succ_le_succ ih.1, ih.2⟩

/-- What ends before an offset falls into the operand there and what stands before it. -/
theorem exists_operand (u v : Text) : ∃ before operand, u = before ++ operand ∧
    operandStart (u ++ v) u.length = before.length ∧
      ∀ c, before.getLast? = some c → isIdentPart c = false := by
  obtain ⟨hle, hprev⟩ := operandLength_spec 0 u.reverse
  rw [List.length_reverse] at hle
  have hstart : operandStart (u ++ v) u.length = u.length - operandLength 0 u.reverse := by
    rw [operandStart, List.take_left]
  refine ⟨u.take (u.length - operandLength 0 u.reverse), u.drop (u.length - operandLength 0 u.reverse),
    (List.take_append_drop _ _).symm, ?_, fun c hc => hprev c ?_⟩
  · rw [hstart, List.length_take_of_le (Nat.sub_le _ _)]
  · rw [← hc, ← List.head?_drop, List.drop_reverse, List.head?_reverse]

/-- The text of a default ends where a separator, white space or the end follows. -/
theorem startsIn_of_defaultValue {v : Text} {m : Match} (h : defaultValue.match? v = some m) :
    ∃ rest, v = m.group 1 ++ rest ∧ startsIn isWord rest = false := by
  obtain ⟨e, he, rfl⟩ := Option.map_eq_some_iff.mp h
  obtain ⟨x, gs, d, hx, hpass, hd⟩ := covers_run (cap 1 (noneOf (among ",;)]\x7d\n")).plusLazy) _ _ _ he
  obtain ⟨gs₁, rfl, -⟩ := spells_cap_iff.mp hx
  rw [isAhead, Pattern.run] at hd
  beta_reduce at hd
  split at hd
  case h_2 => cases hd
  rename_i d' hd'
  obtain rfl := Option.some.inj hd
  refine ⟨d.after, ?_, ?_⟩
  · obtain ⟨y, gs', _, hy, hpass', hsame⟩ := covers_run (blanks ++ (oneOf (among ",;)]\x7d\n") <|> textEnd)) _ _ _ hd'
    cases hsame
    have hnone := hy.lookup_eq_none (i := 1) (by decide)
    have hgroups : (Match.ofCursors v (Cursor.atOffset v 0) { d with groups := d'.groups }).group? 1 =
        some x := by
      rw [group?_ofCursors]
      have hsame : Cursor.groupTexts { d with groups := d'.groups } = d'.groupTexts := rfl
      rw [hsame, hpass'.groupTexts, hpass.groupTexts, List.lookup_append, hnone]
      rfl
    have hgroup : (Match.ofCursors v (Cursor.atOffset v 0) { d with groups := d'.groups }).group 1 =
        x := by rw [Match.group, hgroups]; rfl
    have hsplit := hpass.after
    rw [hgroup]
    simpa [Cursor.atOffset] using hsplit
  · obtain ⟨b, _, d₁, hb, hpass₁, hd₁⟩ := covers_run blanks _ _ _ hd'
    obtain ⟨hblank, -⟩ := of_spells_blanks hb
    rw [startsIn, hpass₁.after]
    cases b with
    | cons c b => exact isWord_of_isBlank (hblank c (List.mem_cons_self ..))
    | nil =>
      rw [run_orElse] at hd₁
      rcases Fit.of_orTry_eq_some hd₁ with hone | hend
      · rw [oneOf, run_one] at hone
        obtain ⟨hsep, -⟩ := Option.ite_none_right_eq_some.mp hone
        obtain ⟨c, hc, hcs⟩ := (Option.any_eq_true _ _).mp hsep
        have hword : ∀ c ∈ ",;)]\x7d\n".toList, isWord c = false :=
          List.all_iff_forall_prop.mp (by decide)
        rw [List.nil_append, hc]
        exact hword c (List.contains_iff_mem.mp hcs)
      · obtain ⟨hend, -⟩ := Option.ite_none_right_eq_some.mp hend
        rw [Cursor.onEnd, Bool.or_eq_true, List.isEmpty_iff, beq_iff_eq] at hend
        rcases hend with hend | hend <;> rw [hend] <;> rfl

/-- The operand before an offset, and what stands before it. -/
theorem exists_operand_parts (u v : Text) : ∃ before operand, u = before ++ operand ∧
    endsIn isWord before = false ∧ (u ++ v).take (operandStart (u ++ v) u.length) = before ∧
      Text.slice (u ++ v) (operandStart (u ++ v) u.length) u.length = operand := by
  obtain ⟨before, operand, rfl, hstart, hfree⟩ := exists_operand u v
  refine ⟨before, operand, rfl, ?_, ?_, ?_⟩
  · cases hlast : before.getLast? with
    | none => rw [endsIn, hlast]; rfl
    | some c =>
      rw [endsIn, hlast]
      exact (Bool.or_eq_false_iff.mp (hfree c hlast)).1
  · rw [hstart, List.append_assoc, List.take_left]
  · rw [hstart, Text.slice, List.take_left, List.drop_left]

/-- An operand may be written twice. -/
theorem keepsMarks_twice (operand w₁ w₂ w₃ : Text) (h₁ : ∀ c ∈ w₁, isTameCode c = true)
    (h₂ : ∀ c ∈ w₂, isTameCode c = true) (h₃ : ∀ c ∈ w₃, isTameCode c = true) :
    KeepsMarks n operand (w₁ ++ (operand ++ (w₂ ++ (operand ++ w₃)))) :=
  .code_append h₁ (.append_twice (.refl _) (.code_append h₂ (.append_code h₃ (.refl _))))

/-- A default operator starts and ends outside words. -/
theorem of_spells_coalescing {x : Text} {gs : GroupTexts} (h : coalescing.Spells x gs) :
    StandsBefore x ∧ StandsBehind x ∧ x ≠ [] := by
  obtain ⟨_, b₂, rfl, hb₂, h₁⟩ := h.of_append_blanks
  obtain ⟨b₁, rfl, h₂⟩ := h₁.of_append_lit
  obtain ⟨hb₁, -⟩ := of_spells_blanks h₂
  refine ⟨.append_blanks (.append_right (tell_notMem_blank hb₁) (by decide) (by decide)) hb₂,
    ⟨by simp [tell_notMem_blank hb₁, tell_notMem_blank hb₂], ?_⟩, by simp⟩
  rw [List.append_assoc]
  cases b₁ with
  | nil => rfl
  | cons c b => exact isWord_of_isBlank (hb₁ c (List.mem_cons_self ..))

/-- Each default operator becomes a test of its operand. -/
theorem keepsMarks_nilCoalescing (turns : Nat) (t : Text) :
    KeepsMarks n t (nilCoalescing turns t) := by
  induction turns generalizing t with
  | zero => exact .refl t
  | succ turns ih =>
    rw [nilCoalescing]
    split
    · exact .refl t
    · rename_i m hm
      refine .trans ?_ (ih _)
      obtain ⟨u, x, v, gs, rfl, hsubject, hstart, hstop, hx, -, -⟩ := of_searchAt?_eq_some hm
      obtain ⟨hxbefore, hxbehind, hxne⟩ := of_spells_coalescing hx
      obtain ⟨before, operand, rfl, hbefore, htake, hslice⟩ := exists_operand_parts u (x ++ v)
      have hafter : m.after = v := by
        rw [Match.after, hsubject, hstop, ← List.append_assoc, ← List.length_append, List.drop_left]
      obtain ⟨right, rest, rfl, hparted, hright⟩ : ∃ right rest, v = right ++ rest ∧
          Parted (x ++ right) rest ∧
          ((defaultValue.match? m.after).map (·.group 1)).getD [] = right := by
        cases hdefault : defaultValue.match? m.after with
        | none => exact ⟨[], v, rfl, .inl (by rw [List.append_nil]; exact hxbefore.2), rfl⟩
        | some m' =>
          obtain ⟨rest, hv, hrest⟩ := startsIn_of_defaultValue hdefault
          exact ⟨_, rest, hafter ▸ hv, .inr hrest, rfl⟩
      have hdrop : (before ++ operand ++ (x ++ (right ++ rest))).drop (m.stop + right.length) =
          rest := by
        have hshape : before ++ operand ++ (x ++ (right ++ rest)) =
            (before ++ operand ++ x ++ right) ++ rest := by simp
        have hlength : m.stop + right.length = (before ++ operand ++ x ++ right).length := by
          rw [hstop]
          simp only [List.length_append]
        rw [hshape, hlength, List.drop_left]
      rw [hstart, htake, hslice, hright, hdrop]
      have htwice := keepsMarks_twice (n := n) operand "(".toList " != null ? ".toList " : ".toList
        (by decide) (by decide) (by decide)
      have htrimmed : KeepsMarks n (x ++ right) right.trim :=
        .append (u := []) (.inl hxbefore.2) (keepsMarks_code hxbefore.1 (List.forall_mem_nil _))
          (keepsMarks_trim right)
      have hkept : KeepsMarks n (before ++ (operand ++ ((x ++ right) ++ rest))) _ :=
        .append (.inl hbefore) (.refl before)
          (.append (.inr (by rw [List.append_assoc, startsIn_append_left _ hxne]; exact hxbehind.2))
            htwice
            (.append hparted (.append_code (w := ")".toList) (by decide) htrimmed) (.refl rest)))
      simpa using hkept

/-- A chained access ends where its name does. -/
theorem endsParted_chainedMember : chainedMember.EndsParted := by
  intro k c e hk hrun
  rw [chainedMember, run_seq] at hrun
  obtain ⟨x, gs, d, hx, hpass, hd⟩ := covers_run (lit "?.") _ _ _ hrun
  obtain ⟨rfl, -⟩ := spells_lit_iff.mp hx
  have hmoved : d.pos = c.pos + 2 := hpass.pos
  have hname : (one isIdentStart).run ((star (one isIdentPart)).run fun y =>
      k { y with groups := (1, ⟨d.pos, d.textTo y⟩) :: y.groups }) d = some e := hd
  rw [run_one] at hname
  obtain ⟨-, hname⟩ := Option.ite_none_right_eq_some.mp hname
  have hnext : d.pos ≤ (d.advance 1).pos := Nat.le_add_right ..
  obtain ⟨y, hy, hstop, hstar⟩ := run_star_one_eq (s := isIdentPart) (c := d.advance 1)
    (k := fun y => k { y with groups := (1, ⟨d.pos, d.textTo y⟩) :: y.groups })
    fun y hy => Option.isSome_iff_exists.mpr ⟨_, hk _ (show c.pos < y.pos by omega)⟩
  rw [hstar] at hname
  refine ⟨_, hname, .inr ?_⟩
  change startsIn isWord y.after = false
  rw [startsIn]
  cases hhead : y.after.head? with
  | none => rfl
  | some a =>
    rw [hhead] at hstop
    exact (Bool.or_eq_false_iff.mp hstop).1

/-- Each chained access becomes a test of its operand. -/
theorem keepsMarks_optionalChaining (turns : Nat) (t : Text) :
    KeepsMarks n t (optionalChaining turns t) := by
  induction turns generalizing t with
  | zero => exact .refl t
  | succ turns ih =>
    rw [optionalChaining]
    split
    · exact .refl t
    · rename_i m hm
      have hparted := (parted_of_mem_allIn (mem_allIn_of_search? hm)).2 endsParted_chainedMember
      obtain ⟨ht, hstart, hstop, gs, hx, -, -⟩ := split_of_searchAt? hm
      obtain ⟨_, name, _, _, htext, -, hmark, -⟩ := spells_append_iff.mp hx
      obtain ⟨rfl, -⟩ := spells_lit_iff.mp hmark
      refine .trans ?_ (ih _)
      generalize m.before = u, m.after = v at *
      rw [htext] at ht hstop hparted
      have hshape : t = (u ++ "?.".toList ++ name) ++ v := by rw [ht]; simp
      have hlength : m.stop = (u ++ "?.".toList ++ name).length := by
        rw [hstop]
        simp only [List.length_append]
        omega
      -- What is reached, and what follows it.
      obtain ⟨reached, rest, hsplit, hrest, hslice, hdrop⟩ : ∃ reached rest,
          name ++ v = reached ++ rest ∧ Parted reached rest ∧
          t.slice (m.start + 2) (if t[m.stop]? == some '(' then
              ((Source.closing? t m.stop).map (· + 1)).getD m.stop
            else m.stop) = reached ∧
          t.drop (if t[m.stop]? == some '(' then
              ((Source.closing? t m.stop).map (· + 1)).getD m.stop
            else m.stop) = rest := by
        have hplain : name ++ v = name ++ v ∧ Parted name v ∧
            t.slice (m.start + 2) m.stop = name ∧ t.drop m.stop = v := by
          refine ⟨rfl, .of_suffix (u ++ "?.".toList) (by simpa using hparted), ?_, ?_⟩
          · rw [Text.slice, hlength, hshape, List.take_left, hstart, List.append_assoc]
            simp
          · rw [hlength, hshape, List.drop_left]
        split
        case isFalse => exact ⟨name, v, hplain⟩
        rename_i hcall
        cases hclosing : Source.closing? t m.stop with
        | none => exact ⟨name, v, hplain⟩
        | some close =>
          obtain ⟨args, rfl⟩ : ∃ args, v = '(' :: args := by
            rw [hlength, hshape, List.getElem?_append_right le_rfl, Nat.sub_self] at hcall
            cases v with
            | nil => cases hcall
            | cons c args => exact ⟨args, by simpa using hcall⟩
          rw [hlength] at hclosing
          obtain ⟨inner, more, rfl, rfl, -, hdrop⟩ :=
            Source.of_closing?_eq_some hshape rfl hclosing
          refine ⟨name ++ '(' :: (inner ++ [')']), more, by simp, .inl ?_, ?_, hdrop⟩
          · rw [← List.cons_append, ← List.append_assoc]
            exact endsIn_concat _ _ _
          · have hcall : t = (u ++ "?.".toList) ++ (name ++ '(' :: (inner ++ [')'])) ++ more := by
              rw [hshape]
              simp
            have hend : (u ++ "?.".toList ++ name).length + 1 + inner.length + 1 =
                ((u ++ "?.".toList) ++ (name ++ '(' :: (inner ++ [')']))).length := by
              simp only [List.length_append, List.length_cons, List.length_nil]
              omega
            have hbegin : m.start + 2 = (u ++ "?.".toList).length := by
              rw [hstart, List.length_append]
              rfl
            rw [Option.map_some, Option.getD_some, Text.slice, hend, hbegin, hcall, List.take_left,
              List.drop_left]
      obtain ⟨before, operand, rfl, hbefore, htake, hoperand⟩ :=
        exists_operand_parts u ("?.".toList ++ name ++ v)
      rw [ht, hstart, htake, hoperand, ← hstart, ← ht, hslice, hdrop]
      have htwice := keepsMarks_twice (n := n) operand "(".toList " == null ? undefined : ".toList []
        (by decide) (by decide) (by decide)
      have hkept : KeepsMarks n (before ++ (operand ++ ("?.".toList ++ (reached ++ rest)))) _ :=
        .append (.inl hbefore) (.refl before) (.append (.inr rfl) htwice
          (.append (u := ".".toList) (.inl rfl) (keepsMarks_code (by decide) (by decide))
            (.append hrest (.append_code (w := ")".toList) (by decide) (.refl reached))
              (.refl rest))))
      rw [← hsplit] at hkept
      rw [ht]
      simpa using hkept

/-- What is missing is tested and taken out, whatever casts the first edit drops. -/
theorem keepsMarks_optionals (ht : castSuffix.Spares t) :
    KeepsMarks n t (optionals scope t) :=
  .trans (isSafe_castSuffix.keepsMarks ht) (.trans keepsMarks_typeTest
    (.trans (keepsMarks_nilCoalescing _ _) (.trans (keepsMarks_optionalChaining _ _)
      keepsMarks_forcedValue)))

end Swift

end HostScript.Body
