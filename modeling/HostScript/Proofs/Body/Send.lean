import HostScript.Body.ObjC.Send
import HostScript.Proofs.Numeral
import HostScript.Proofs.Pattern.Found
import HostScript.Proofs.Script.Collapse
import HostScript.Proofs.Script.FreeName

/-!
# Message sends in script form

A pair of brackets is read when what stands between them is already in script form. A receiver in
script form ends where white space follows outside groups, and labels are found only where white
space precedes outside groups, so the brackets give back the receiver, the labels and the arguments
that were put between them.
-/

namespace HostScript.Body.ObjC

open Pattern Script

variable {t x y : Text}

/-! ## Groups -/

/-- A text that closes the groups that it opens, and no others. -/
def IsLevel (t : Text) : Prop :=
  ∀ (depth : Int) (rest : Text),
    groupDepths depth (t ++ rest) = groupDepths depth t ++ groupDepths depth rest

theorem IsLevel.append (hx : IsLevel x) (hy : IsLevel y) : IsLevel (x ++ y) := by
  intro depth rest
  rw [List.append_assoc, hx, hy, hx, List.append_assoc]

theorem isLevel_of_flat (h : ∀ c ∈ t, opensGroup c = false ∧ closesGroup c = false) :
    IsLevel t := by
  intro depth rest
  induction t with
  | nil => rfl
  | cons c t ih =>
    obtain ⟨⟨hopens, hcloses⟩, ht⟩ := List.forall_mem_cons.mp h
    rw [List.cons_append, groupDepths, groupDepths, hopens, hcloses, if_neg Bool.false_ne_true,
      if_neg Bool.false_ne_true, ih ht, List.cons_append]

/-- Parentheses around such a text close. -/
theorem IsLevel.parens (h : IsLevel t) : IsLevel ('(' :: t ++ [')']) := by
  intro depth rest
  have hopen : opensGroup '(' = true := rfl
  have hclose : opensGroup ')' = false ∧ closesGroup ')' = true := ⟨rfl, rfl⟩
  simp only [List.cons_append, List.append_assoc, List.nil_append, groupDepths, hopen, if_true,
    h (depth + 1), hclose, Bool.false_eq_true, if_false, Int.add_sub_cancel]

theorem length_groupDepths (depth : Int) (t : Text) : (groupDepths depth t).length = t.length := by
  induction t generalizing depth with
  | nil => rfl
  | cons c t ih => rw [groupDepths, List.length_cons, ih, List.length_cons]

/-- As many groups are open behind such a text as before it. -/
theorem IsLevel.getElem?_groupDepths (h : IsLevel x) (depth : Int) (hy : y ≠ []) :
    (groupDepths depth (x ++ y))[x.length]? = some depth := by
  obtain ⟨c, y, rfl⟩ := List.exists_cons_of_ne_nil hy
  rw [h, ← length_groupDepths depth x, List.getElem?_append_right le_rfl, Nat.sub_self, groupDepths,
    List.getElem?_cons_zero]

/-- A text that a receiver goes on behind, where at least so many groups are open. -/
def IsUnbroken (least : Int) (t : Text) : Prop :=
  ∀ depth, least ≤ depth → ∀ rest,
    receiverLength depth (t ++ rest) = t.length + receiverLength depth rest

theorem IsUnbroken.mono {least more : Int} (h : IsUnbroken least t) (hle : least ≤ more) :
    IsUnbroken more t :=
  fun depth hdepth => h depth (Int.le_trans hle hdepth)

theorem IsUnbroken.append {least : Int} (hx : IsUnbroken least x) (hy : IsUnbroken least y) :
    IsUnbroken least (x ++ y) := by
  intro depth hdepth rest
  rw [List.append_assoc, hx depth hdepth, hy depth hdepth, List.length_append, Nat.add_assoc]

/-- White space breaks a text only where no group is open. -/
theorem isUnbroken_of_flat {least : Int}
    (h : ∀ c ∈ t, opensGroup c = false ∧ closesGroup c = false)
    (hblank : 1 ≤ least ∨ ∀ c ∈ t, isBlank c = false) : IsUnbroken least t := by
  intro depth hdepth rest
  induction t with
  | nil => exact (Nat.zero_add _).symm
  | cons c t ih =>
    obtain ⟨⟨hopens, hcloses⟩, ht⟩ := List.forall_mem_cons.mp h
    have hstays : (isBlank c && depth == 0) = false := by
      rcases hblank with hleast | hblank
      · have hne : (depth == 0) = false := beq_eq_false_iff_ne.mpr (by omega)
        rw [hne, Bool.and_false]
      · rw [hblank c (List.mem_cons_self ..), Bool.false_and]
    rw [List.cons_append, receiverLength, hopens, hcloses, hstays, if_neg Bool.false_ne_true,
      if_neg Bool.false_ne_true, if_neg Bool.false_ne_true,
      ih ht (hblank.imp_right fun h => (List.forall_mem_cons.mp h).2), List.length_cons]
    omega

/-- White space in parentheses breaks nothing. -/
theorem IsUnbroken.parens (h : IsUnbroken 1 t) : IsUnbroken 0 ('(' :: t ++ [')']) := by
  intro depth hdepth rest
  have hopen : opensGroup '(' = true := rfl
  have hclose : opensGroup ')' = false ∧ closesGroup ')' = true := ⟨rfl, rfl⟩
  have hinner := h (depth + 1) (by omega) (')' :: rest)
  rw [List.append_assoc, List.cons_append, receiverLength, hopen, if_pos rfl,
    List.singleton_append, hinner, receiverLength, hclose.1, hclose.2, if_neg Bool.false_ne_true,
    if_pos rfl, Int.add_sub_cancel]
  simp only [List.length_cons, List.length_append, List.length_nil]
  omega

/-! ## Texts in script form -/

/-- The characters of names, calls and lists of arguments. -/
def isCallPart : CharSet := isWord ||| among ".(), "

theorem not_isWord_of_mem {c : Char} (h : c ∈ ".(), [\x7b\x01)]\x7d\x02:?\n".toList) :
    isWord c = false := by
  have hall : ∀ c ∈ ".(), [\x7b\x01)]\x7d\x02:?\n".toList, isWord c = false := by decide
  exact hall c h

/-- Characters of a word open and close no group. -/
theorem flat_of_isWord {c : Char} (h : isWord c = true) :
    opensGroup c = false ∧ closesGroup c = false := by
  constructor <;> rw [Bool.eq_false_iff]
  · intro hopens
    have hmem : c ∈ ".(), [\x7b\x01)]\x7d\x02:?\n".toList := by
      simp only [opensGroup, parkedOpen, Bool.or_eq_true, beq_iff_eq] at hopens
      rcases hopens with ((rfl | rfl) | rfl) | rfl <;> decide
    rw [not_isWord_of_mem hmem] at h
    cases h
  · intro hcloses
    have hmem : c ∈ ".(), [\x7b\x01)]\x7d\x02:?\n".toList := by
      simp only [closesGroup, parkedClose, Bool.or_eq_true, beq_iff_eq] at hcloses
      rcases hcloses with ((rfl | rfl) | rfl) | rfl <;> decide
    rw [not_isWord_of_mem hmem] at h
    cases h

/-- A text that stands for a value in script form: a name, a number or a call. -/
structure IsOperand (t : Text) : Prop where
  starts : startsIn isWord t = true
  chars : ∀ c ∈ t, isCallPart c = true
  ends : (∀ c ∈ t, isWord c = true) ∨ ∃ u, t = u ++ [')']
  level : IsLevel t
  unbroken : IsUnbroken 0 t

theorem IsOperand.ne_nil (h : IsOperand t) : t ≠ [] := by
  rintro rfl
  cases h.starts

/-- Words are operands. -/
theorem isOperand_of_word (hne : t ≠ []) (h : ∀ c ∈ t, isWord c = true) : IsOperand t where
  starts := by rw [startsIn_eq isWord hne, h _ (List.head_mem hne)]
  chars c hc := by
    change (isWord c || _) = true
    rw [h c hc, Bool.true_or]
  ends := Or.inl h
  level := isLevel_of_flat fun c hc => flat_of_isWord (h c hc)
  unbroken := isUnbroken_of_flat (fun c hc => flat_of_isWord (h c hc))
    (Or.inr fun c hc => isBlank_of_isWord (h c hc))

/-- An operand does not end in white space. -/
theorem IsOperand.endsIn_isBlank (h : IsOperand t) : endsIn isBlank t = false := by
  rcases h.ends with hword | ⟨u, rfl⟩
  · rw [endsIn_eq isBlank h.ne_nil]
    exact isBlank_of_isWord (hword _ (List.getLast_mem h.ne_nil))
  · rw [endsIn_append isBlank (List.cons_ne_nil ')' [])]
    rfl

theorem IsOperand.startsIn_isBlank (h : IsOperand t) : startsIn isBlank t = false := by
  have hstarts := h.starts
  rw [startsIn_eq isWord h.ne_nil] at hstarts
  rw [startsIn_eq isBlank h.ne_nil]
  exact isBlank_of_isWord hstarts

theorem IsOperand.notMem (h : IsOperand t) {c : Char} (hc : isCallPart c = false) : c ∉ t := by
  intro hmem
  rw [h.chars c hmem] at hc
  cases hc

/-- The arguments of a call, divided by commas. -/
theorem of_join_operands {ts : List Text} (h : ∀ a ∈ ts, IsOperand a) :
    IsLevel (Text.join ", " ts) ∧ IsUnbroken 1 (Text.join ", " ts) ∧
      ∀ c ∈ Text.join ", " ts, isCallPart c = true := by
  induction ts with
  | nil =>
    exact ⟨isLevel_of_flat (List.forall_mem_nil _),
      isUnbroken_of_flat (List.forall_mem_nil _) (Or.inl (Int.le_refl 1)), List.forall_mem_nil _⟩
  | cons a ts ih =>
    obtain ⟨ha, hts⟩ := List.forall_mem_cons.mp h
    cases ts with
    | nil => exact ⟨ha.level, ha.unbroken.mono Int.one_nonneg, ha.chars⟩
    | cons b ts =>
      obtain ⟨hlevel, hunbroken, hchars⟩ := ih hts
      have hcomma : ∀ c ∈ ", ".toList, opensGroup c = false ∧ closesGroup c = false := by decide
      rw [Text.join]
      · refine ⟨(ha.level.append (isLevel_of_flat hcomma)).append hlevel,
          ((ha.unbroken.mono Int.one_nonneg).append
            (isUnbroken_of_flat hcomma (Or.inl (Int.le_refl 1)))).append hunbroken, ?_⟩
        exact List.forall_mem_append.mpr
          ⟨List.forall_mem_append.mpr ⟨ha.chars, by decide⟩, hchars⟩
      · exact List.cons_ne_nil b ts

/-- A call in script form. -/
def callText (receiver method : Text) (args : List Text) : Text :=
  receiver ++ '.' :: method ++ ('(' :: Text.join ", " args ++ [')'])

/-- A call of operands is an operand. -/
theorem IsOperand.call {receiver method : Text} {args : List Text} (hr : IsOperand receiver)
    (hm : ∀ c ∈ method, isWord c = true) (hargs : ∀ a ∈ args, IsOperand a) :
    IsOperand (callText receiver method args) := by
  obtain ⟨hlevel, hunbroken, hchars⟩ := of_join_operands hargs
  have hdot : ∀ c ∈ '.' :: method, (opensGroup c = false ∧ closesGroup c = false) ∧
      isBlank c = false ∧ isCallPart c = true := by
    intro c hc
    rcases List.mem_cons.mp hc with rfl | hc
    · decide
    · refine ⟨flat_of_isWord (hm c hc), isBlank_of_isWord (hm c hc), ?_⟩
      change (isWord c || _) = true
      rw [hm c hc, Bool.true_or]
  rw [callText, List.append_assoc]
  refine ⟨?_, ?_, Or.inr ⟨receiver ++ ('.' :: method ++ '(' :: Text.join ", " args), ?_⟩, ?_, ?_⟩
  · rw [startsIn_append_left isWord hr.ne_nil]
    exact hr.starts
  · refine List.forall_mem_append.mpr ⟨hr.chars, List.forall_mem_append.mpr
      ⟨fun c hc => (hdot c hc).2.2, List.forall_mem_append.mpr
        ⟨List.forall_mem_cons.mpr ⟨by decide, hchars⟩, by decide⟩⟩⟩
  · simp
  · exact hr.level.append ((isLevel_of_flat fun c hc => (hdot c hc).1).append hlevel.parens)
  · exact hr.unbroken.append ((isUnbroken_of_flat (fun c hc => (hdot c hc).1)
      (Or.inr fun c hc => (hdot c hc).2.1)).append hunbroken.parens)

/-- An operand that a send can go to: it starts as a name and goes on with words and dots to its end
or to a parenthesis. -/
structure IsReceiver (t : Text) : Prop extends IsOperand t where
  form : ∃ a x y, t = a :: x ++ y ∧ isNameStart a = true ∧
    (∀ c ∈ x, (isWord ||| among "$.") c = true) ∧ (y = [] ∨ ∃ z, y = '(' :: z)
  ne_new : t ≠ "new".toList

/-- A call of a receiver is a receiver. -/
theorem IsReceiver.call {receiver method : Text} {args : List Text} (hr : IsReceiver receiver)
    (hm : ∀ c ∈ method, isWord c = true) (hargs : ∀ a ∈ args, IsOperand a) :
    IsReceiver (callText receiver method args) where
  toIsOperand := hr.toIsOperand.call hm hargs
  form := by
    obtain ⟨a, x, y, rfl, ha, hx, hy⟩ := hr.form
    rw [callText]
    rcases hy with rfl | ⟨z, rfl⟩
    · refine ⟨a, x ++ '.' :: method, '(' :: (Text.join ", " args ++ [')']), by simp, ha, ?_,
        Or.inr ⟨_, rfl⟩⟩
      refine List.forall_mem_append.mpr ⟨hx, List.forall_mem_cons.mpr ⟨by decide, fun c hc => ?_⟩⟩
      change (isWord c || _) = true
      rw [hm c hc, Bool.true_or]
    · exact ⟨a, x, '(' :: (z ++ '.' :: method ++ ('(' :: Text.join ", " args ++ [')'])), by simp,
        ha, hx, Or.inr ⟨_, rfl⟩⟩
  ne_new := by
    intro h
    have hdot : '.' ∈ callText receiver method args := by simp [callText]
    rw [h] at hdot
    revert hdot
    decide

/-! ## Reading a receiver -/

/-- A name as labels and selectors are spelled. -/
structure IsName (t : Text) : Prop where
  starts : startsIn isNameStart t = true
  word : ∀ c ∈ t, isWord c = true

theorem IsName.ne_nil (h : IsName t) : t ≠ [] := by
  rintro rfl
  cases h.starts

theorem isWord_of_isNameStart {c : Char} (h : isNameStart c = true) : isWord c = true := by
  rcases Bool.or_eq_true_iff.mp h with halpha | hunderscore
  · simp [isWord, isAlnum, toNat_lt_of_isAlpha halpha, Char.isAlphanum, halpha]
  · simp [isWord, hunderscore]

/-- No name starts with a digit. -/
theorem isDigitLike_of_isNameStart {c : Char} (h : isNameStart c = true) :
    isDigitLike c = false := by
  rcases Bool.or_eq_true_iff.mp h with halpha | hunderscore
  · rw [isDigitLike, if_pos (toNat_lt_of_isAlpha halpha), isDigit_of_isAlpha halpha]
  · obtain rfl := beq_iff_eq.mp hunderscore
    decide

/-- A receiver ends where white space follows it. -/
theorem IsUnbroken.receiverLength_eq (h : IsUnbroken 0 t) (rest : Text) :
    receiverLength 0 (t ++ ' ' :: rest) = t.length := by
  rw [h 0 (Int.le_refl 0)]
  rfl

/-- A receiver with text behind it is no allocation. -/
theorem IsReceiver.startsWith_new (h : IsReceiver t) (rest : Text) :
    Text.startsWith (t ++ ' ' :: rest) "new " = false := by
  rw [Text.startsWith, Bool.eq_false_iff]
  intro hp
  obtain ⟨r, hr⟩ := List.isPrefixOf_iff_prefix.mp hp
  obtain ⟨a, x, y, rfl, ha, hx, hy⟩ := h.form
  -- Both texts are cut at their first space or parenthesis.
  let stays : CharSet := fun c => c != ' ' && c != '('
  have hstop : ∀ c, stays c = false → (isWord ||| among "$.") c = false := by
    intro c hc
    rw [Bool.and_eq_false_iff, bne_eq_false_iff_eq, bne_eq_false_iff_eq] at hc
    rcases hc with rfl | rfl <;> decide
  have hname : ∀ c ∈ a :: x, stays c = true := by
    intro c hc
    by_contra hne
    have hout := hstop c (Bool.eq_false_iff.mpr hne)
    rcases List.mem_cons.mp hc with rfl | hc
    · have hword : (isWord ||| among "$.") c = true := by
        change (isWord c || _) = true
        rw [isWord_of_isNameStart ha, Bool.true_or]
      rw [hword] at hout
      cases hout
    · rw [hx c hc] at hout
      cases hout
  have hbehind : (y ++ ' ' :: rest).takeWhile stays = [] ∧
      (y ++ ' ' :: rest).dropWhile stays = y ++ ' ' :: rest := by
    rcases hy with rfl | ⟨z, rfl⟩ <;> exact ⟨rfl, rfl⟩
  have hsplit : a :: x ++ (y ++ ' ' :: rest) = "new".toList ++ ' ' :: r := by
    rw [← List.append_assoc, ← hr]
    rfl
  have htake := congrArg (List.takeWhile stays) hsplit
  have hdrop := congrArg (List.dropWhile stays) hsplit
  rw [List.takeWhile_append_of_pos hname, hbehind.1, List.append_nil] at htake
  rw [List.dropWhile_append_of_pos hname, hbehind.2] at hdrop
  rcases hy with rfl | ⟨z, rfl⟩
  · exact h.ne_new (by rw [List.append_nil]; exact htake)
  · have := (List.cons.inj hdrop).1
    revert this
    decide

/-- A receiver has the form that the reader asks for. -/
theorem IsReceiver.fitsAll (h : IsReceiver t) : receiverForm.fitsAll t = true := by
  obtain ⟨a, x, y, rfl, ha, hx, hy⟩ := h.form
  have hstart : isIdentPart a = true := by rw [isIdentPart, isWord_of_isNameStart ha, Bool.true_or]
  rw [Pattern.fitsAll, matchAll?, Option.isSome_map, receiverForm, isSome_run_orElse_iff]
  left
  rw [run_seq, run_seq, run_seq, isSome_run_opt_iff]
  right
  refine isSome_run_one_iff.mpr ⟨a, x ++ y, rfl, hstart, ?_⟩
  refine isSome_run_star_one_iff.mpr ⟨x, ⟨y, by simp [Cursor.start, Cursor.advance]⟩, hx, ?_⟩
  rw [isSome_run_opt_iff]
  rcases hy with rfl | ⟨z, rfl⟩
  · right
    simp [Cursor.start, Cursor.advance]
  · left
    rw [run_seq]
    refine isSome_run_one_iff.mpr ⟨'(', z, by simp [Cursor.start, Cursor.advance], rfl, ?_⟩
    refine isSome_run_star_one_iff.mpr ⟨z, ⟨[], by simp [Cursor.start, Cursor.advance]⟩,
      fun _ _ => rfl, ?_⟩
    simp [Cursor.start, Cursor.advance]
    omega

/-! ## Reading labels and arguments -/

/-- Labels stand at the start of a text or behind white space. -/
theorem run_keywordLabel_of_inside {k : Cursor → Option Cursor} {c : Cursor}
    (hne : c.before ≠ []) (hblank : c.before.head?.any isBlank = false) :
    keywordLabel.run k c = none := by
  obtain ⟨b, before, hbefore⟩ := List.exists_cons_of_ne_nil hne
  rw [keywordLabel, run_seq, run_seq, run_seq, run_seq, run_orElse, run_after, hblank]
  simp [run, hbefore, Fit.orTry]

/-- A label does not reach over a parenthesis. -/
theorem run_keywordLabel_of_closed {k : Cursor → Option Cursor} {c : Cursor}
    (hafter : c.after = x ++ ')' :: y) (hx : ':' ∉ x) : keywordLabel.run k c = none := by
  rw [Option.eq_none_iff_forall_ne_some]
  intro e he
  obtain ⟨_, gs, d, hall, hpass, -⟩ := covers_run _ _ _ _ he
  obtain ⟨_, z, gs₁, gs₂, rfl, -, hlabel, hz⟩ := spells_append_iff.mp hall
  obtain ⟨rfl, -⟩ := spells_notAhead_iff.mp hz
  obtain ⟨w, rfl, hw⟩ := hlabel.of_append_lit
  have hpart := hw.mem_of_within (s := isWord ||| isBlank) (by
    refine ⟨⟨⟨trivial, trivial⟩, ?_, ?_⟩, ?_⟩
    · intro c hc
      change (isWord c || isBlank c) = true
      rw [isWord_of_isNameStart hc, Bool.true_or]
    · intro c hc
      change (isWord c || isBlank c) = true
      rw [show isWord c = true from hc, Bool.true_or]
    · intro c hc
      change (isWord c || isBlank c) = true
      rw [show isBlank c = true from hc, Bool.or_true])
  -- The first character that is neither part of a word nor white space is the colon.
  have hsplit : x ++ ')' :: y = w ++ ':' :: d.after := by
    rw [← hafter, hpass.after]
    simp
  have hfind := congrArg (List.find? (outside (isWord ||| isBlank))) hsplit
  have hnone : w.find? (outside (isWord ||| isBlank)) = none := by
    rw [List.find?_eq_none]
    intro c hc
    simp [outside, hpart c hc]
  have hparen : outside (isWord ||| isBlank) ')' = true := by decide
  have hcolon : outside (isWord ||| isBlank) ':' = true := by decide
  rw [List.find?_append, List.find?_append, hnone, List.find?_cons_of_pos hparen,
    List.find?_cons_of_pos hcolon, Option.none_or] at hfind
  cases hfound : x.find? (outside (isWord ||| isBlank)) with
  | none => rw [hfound] at hfind; cases hfind
  | some b =>
    rw [hfound] at hfind
    obtain rfl := Option.some.inj hfind
    exact hx (List.mem_of_find?_eq_some hfound)

/-- A label that starts a text or follows white space is taken with its colon. -/
theorem run_keywordLabel {label before : Text} {a : Char} (hlabel : IsName label)
    (hplace : before = [] ∨ before.head?.any isBlank = true) (ha : a ≠ ':') (pos : Nat) :
    keywordLabel.run some ⟨before, label ++ ':' :: a :: y, pos, []⟩ =
      some ⟨':' :: (label.reverse ++ before), a :: y, pos + (label.length + 1),
        [(1, ⟨pos, label⟩)]⟩ := by
  set c : Cursor := ⟨before, label ++ ':' :: a :: y, pos, []⟩
  set d : Cursor := ⟨':' :: (label.reverse ++ before), a :: y, pos + (label.length + 1),
    [(1, ⟨pos, label⟩)]⟩
  have hbehind : (c.behind (label ++ [':']) fun pos => [(1, ⟨pos, label⟩)]) = d := by
    simp [c, d, Cursor.behind, Cursor.advance, List.take_append, List.drop_append]
  have hname : (cap 1 cName).Takes label ([':'] ++ a :: y) fun pos => [(1, ⟨pos, label⟩)] := by
    obtain ⟨b, label, rfl⟩ := List.exists_cons_of_ne_nil hlabel.ne_nil
    obtain ⟨-, hword⟩ := List.forall_mem_cons.mp hlabel.word
    exact ((takes_one hlabel.starts _).append (takes_star hword rfl)).cap 1
  have hblanks : blanks.Takes [] ([':'] ++ a :: y) noGroups := takes_star (List.forall_mem_nil _) rfl
  have hcolon : (lit ":").Takes [':'] (a :: y) noGroups := takes_text [':'] (a :: y)
  have htakes : (cap 1 cName ++ (blanks ++ lit ":")).Takes (label ++ [':']) (a :: y)
      fun pos => [(1, ⟨pos, label⟩)] := hname.append (hblanks.append hcolon)
  have hend : (notAhead (lit ":")).run some d = some d := by
    have hother : (a == ':') = false := beq_eq_false_iff_ne.mpr ha
    have hrun := run_notAhead_one (· == ':') some d
    rw [List.head?_cons, Option.any_some, hother, if_neg Bool.false_ne_true] at hrun
    exact hrun
  have hrest := htakes ((notAhead (lit ":")).run some) c d (by simp [c]) (hbehind ▸ hend)
  rw [keywordLabel, run_seq, run_seq, run_seq, run_seq, run_orElse, run_after]
  rcases hplace with hstart | hblank
  · have hrun (k : Cursor → Option Cursor) : textStart.run k c = k c := by simp [run, c, hstart]
    rw [hrun]
    exact congrArg (Fit.orTry · _) hrest
  · have hrun (k : Cursor → Option Cursor) : textStart.run k c = none := by
      cases before with
      | nil => simp at hblank
      | cons b before => simp [run, c]
    rw [hrun, if_pos hblank]
    exact hrest

/-- No label is found in an operand behind a colon, nor right behind it. -/
theorem searchFrom_operand {arg : Text} (h : IsOperand arg) (before y : Text) (pos : Nat) :
    keywordLabel.searchFrom (':' :: before) pos false (arg ++ y) =
      keywordLabel.searchFrom (arg.reverse ++ ':' :: before) (pos + arg.length) false y := by
  refine searchFrom_append arg fun u c v harg => ?_
  rcases h.ends with hword | ⟨w, hw⟩
  · refine run_keywordLabel_of_inside (List.append_ne_nil_of_right_ne_nil _ (List.cons_ne_nil _ _)) ?_
    dsimp only
    rw [List.head?_append, List.head?_reverse]
    cases hlast : u.getLast? with
    | none => rfl
    | some b =>
      have hmem : b ∈ arg := by
        rw [harg]
        exact List.mem_append_left _ (List.mem_of_getLast? hlast)
      exact isBlank_of_isWord (hword b hmem)
  · have hlast : (c :: v).getLast (List.cons_ne_nil c v) = ')' := by
      have hends : arg.getLast? = some ')' := by rw [hw, List.getLast?_concat]
      rw [harg, List.getLast?_append_of_ne_nil _ (List.cons_ne_nil c v),
        List.getLast?_eq_getLast_of_ne_nil (List.cons_ne_nil c v)] at hends
      exact Option.some.inj hends
    have hsplit := List.dropLast_append_getLast (List.cons_ne_nil c v)
    rw [hlast] at hsplit
    refine run_keywordLabel_of_closed (x := (c :: v).dropLast) (y := y) ?_ fun hcolon => ?_
    · dsimp only
      rw [List.append_cons _ ')', hsplit]
    · refine h.notMem (by decide : isCallPart ':' = false) ?_
      rw [harg]
      exact List.mem_append_right _ (List.mem_of_mem_dropLast hcolon)

/-- Right behind an operand there is no label. -/
theorem run_keywordLabel_behind {arg : Text} (h : IsOperand arg) (before y : Text) (pos : Nat) :
    keywordLabel.run some ⟨arg.reverse ++ before, y, pos, []⟩ = none := by
  refine run_keywordLabel_of_inside (List.append_ne_nil_of_left_ne_nil
    (List.reverse_ne_nil_iff.mpr h.ne_nil) _) ?_
  dsimp only
  rw [List.head?_append_of_ne_nil _ (List.reverse_ne_nil_iff.mpr h.ne_nil), List.head?_reverse]
  exact h.endsIn_isBlank

/-- The marks of labels, each with its colon, whose arguments are divided by spaces. -/
def labelMarks (t : Text) : (pos : Nat) → List (Text × Text) → List Match
  | _, [] => []
  | pos, (label, arg) :: parts =>
    ⟨t, pos, pos + (label.length + 1), [(1, ⟨pos, label⟩)]⟩ ::
      labelMarks t (pos + (label.length + 1) + (arg.length + 1)) parts

/-- Labels with their arguments, as a send spells them. -/
def partsText (parts : List (Text × Text)) : Text :=
  Text.join " " (parts.map fun p => p.1 ++ ':' :: p.2)

theorem partsText_cons (label arg : Text) {parts : List (Text × Text)} (h : parts ≠ []) :
    partsText ((label, arg) :: parts) = label ++ ':' :: (arg ++ ' ' :: partsText parts) := by
  obtain ⟨p, parts, rfl⟩ := List.exists_cons_of_ne_nil h
  rw [partsText, List.map_cons, List.map_cons, Text.join]
  · simp [partsText]
  · exact List.cons_ne_nil _ _

/-- The labels found in such a text are the labels of its parts. -/
theorem matchesFrom_keywordLabel {s before : Text} {parts : List (Text × Text)} {fuel : Nat}
    {groups : List (Nat × Capture)} (hparts : ∀ p ∈ parts, IsName p.1 ∧ IsOperand p.2)
    (hne : parts ≠ []) (hplace : before = [] ∨ before.head?.any isBlank = true)
    (hfuel : parts.length < fuel) :
    keywordLabel.matchesFrom s fuel false ⟨before, partsText parts, before.length, groups⟩ =
      labelMarks s before.length parts := by
  induction parts generalizing before fuel groups with
  | nil => exact absurd rfl hne
  | cons p parts ih =>
    obtain ⟨label, arg⟩ := p
    obtain ⟨⟨hlabel, harg⟩, hparts⟩ := List.forall_mem_cons.mp hparts
    obtain ⟨fuel, rfl⟩ : ∃ n, fuel = n + 2 := ⟨fuel - 2, by rw [List.length_cons] at hfuel; omega⟩
    rw [List.length_cons] at hfuel
    obtain ⟨a, arg', hfirst⟩ := List.exists_cons_of_ne_nil harg.ne_nil
    have ha : a ≠ ':' := by
      rintro rfl
      refine harg.notMem (by decide : isCallPart ':' = false) ?_
      rw [hfirst]
      exact List.mem_cons_self ..
    cases parts with
    | nil =>
      have hrun := run_keywordLabel (y := arg') hlabel hplace ha before.length
      have hnone : keywordLabel.searchFrom (':' :: (label.reverse ++ before))
          (before.length + (label.length + 1)) false arg = none := by
        have hsearch := searchFrom_operand harg (label.reverse ++ before) []
          (before.length + (label.length + 1))
        rw [List.append_nil] at hsearch
        rw [hsearch, searchFrom]
        simp only [Bool.false_and, Bool.false_eq_true, if_false, run_keywordLabel_behind harg,
          Option.map_none]
      rw [← hfirst] at hrun
      rw [partsText, List.map_singleton, Text.join, matchesFrom_of_run hrun (by simp), matchesFrom,
        hnone]
      rfl
    | cons q parts =>
      have hrun := run_keywordLabel (y := arg' ++ ' ' :: partsText (q :: parts)) hlabel hplace ha
        before.length
      rw [← List.cons_append, ← hfirst] at hrun
      have hsearch : keywordLabel.searchFrom (':' :: (label.reverse ++ before))
            (before.length + (label.length + 1)) false (arg ++ ' ' :: partsText (q :: parts)) =
          keywordLabel.searchFrom (' ' :: (arg.reverse ++ ':' :: (label.reverse ++ before)))
            (before.length + (label.length + 1) + (arg.length + 1)) false
              (partsText (q :: parts)) := by
        rw [searchFrom_operand harg, searchFrom]
        simp only [Bool.false_and, Bool.false_eq_true, if_false, run_keywordLabel_behind harg,
          Nat.add_assoc]
      have hnext := @ih (' ' :: (arg.reverse ++ ':' :: (label.reverse ++ before))) (fuel + 1)
        [(1, ⟨before.length, label⟩)] hparts (List.cons_ne_nil q parts) (Or.inr rfl) (by omega)
      have hlength : (' ' :: (arg.reverse ++ ':' :: (label.reverse ++ before))).length =
          before.length + (label.length + 1) + (arg.length + 1) := by
        simp only [List.length_cons, List.length_append, List.length_reverse]
        omega
      rw [hlength, matchesFrom] at hnext
      dsimp only at hnext
      rw [partsText_cons label arg (List.cons_ne_nil q parts), matchesFrom_of_run hrun (by simp),
        labelMarks, matchesFrom]
      dsimp only
      rw [hsearch, hnext]
      rfl

/-- All labels outside groups are kept in a text without question marks. -/
theorem keepLabels_eq {rest : Text} {depths : List Int} {marks kept : List Match}
    (hquestion : '?' ∉ rest) (hdepths : ∀ m ∈ marks, depths[m.start]? = some 0) :
    keepLabels rest depths kept marks = kept ++ marks := by
  induction marks generalizing kept with
  | nil => rw [keepLabels, List.append_nil]
  | cons m marks ih =>
    obtain ⟨hm, hmarks⟩ := List.forall_mem_cons.mp hdepths
    have hpending (x : Text) (hx : x <:+: rest) : x.contains '?' = false := by
      rw [Bool.eq_false_iff]
      intro hcontains
      exact hquestion (hx.subset (List.contains_iff_mem.mp hcontains))
    have hslice (i j : Nat) : rest.slice i j <:+: rest :=
      (List.drop_suffix i _).isInfix.trans (List.take_prefix j rest).isInfix
    rw [keepLabels, if_neg, ih hmarks, List.append_assoc, List.singleton_append]
    rw [hm]
    cases kept.getLast? with
    | none => simp
    | some last =>
      have hnone := hpending _ (hslice last.stop m.start)
      simpa using hnone

/-- A part of a send with the space behind it closes its groups. -/
theorem isLevel_part {label arg : Text} (hlabel : IsName label) (harg : IsOperand arg) :
    IsLevel (label ++ ':' :: (arg ++ [' '])) := by
  have hspace : IsLevel [' '] := isLevel_of_flat (by decide)
  have hcolon : IsLevel [':'] := isLevel_of_flat (by decide)
  exact (isLevel_of_flat fun c hc => flat_of_isWord (hlabel.word c hc)).append
    (hcolon.append (harg.level.append hspace))

theorem partsText_ne_nil {parts : List (Text × Text)} (hne : parts ≠ []) :
    partsText parts ≠ [] := by
  obtain ⟨⟨label, arg⟩, parts, rfl⟩ := List.exists_cons_of_ne_nil hne
  cases parts with
  | nil => simp [partsText, Text.join]
  | cons q parts =>
    rw [partsText_cons label arg (List.cons_ne_nil q parts)]
    simp

theorem append_partsText_cons (x label arg : Text) {parts : List (Text × Text)}
    (hne : parts ≠ []) :
    x ++ partsText ((label, arg) :: parts) =
      x ++ (label ++ ':' :: (arg ++ [' '])) ++ partsText parts := by
  rw [partsText_cons label arg hne]
  simp

theorem length_append_part (x label arg : Text) :
    (x ++ (label ++ ':' :: (arg ++ [' ']))).length =
      x.length + (label.length + 1) + (arg.length + 1) := by
  simp only [List.length_append, List.length_cons, List.length_nil]
  omega

/-- Every label of a row of parts stands outside groups. -/
theorem getElem?_groupDepths_labelMarks {x : Text} {parts : List (Text × Text)} (hx : IsLevel x)
    (hparts : ∀ p ∈ parts, IsName p.1 ∧ IsOperand p.2) :
    ∀ m ∈ labelMarks (x ++ partsText parts) x.length parts,
      (groupDepths 0 (x ++ partsText parts))[m.start]? = some 0 := by
  induction parts generalizing x with
  | nil => exact List.forall_mem_nil _
  | cons p parts ih =>
    obtain ⟨label, arg⟩ := p
    obtain ⟨⟨hlabel, harg⟩, hrest⟩ := List.forall_mem_cons.mp hparts
    refine List.forall_mem_cons.mpr ⟨?_, ?_⟩
    · exact hx.getElem?_groupDepths 0 (partsText_ne_nil (List.cons_ne_nil _ _))
    · cases parts with
      | nil => exact List.forall_mem_nil _
      | cons q parts =>
        have hmoved := ih (hx.append (isLevel_part hlabel harg)) hrest
        rwa [← append_partsText_cons x label arg (List.cons_ne_nil q parts),
          length_append_part] at hmoved

/-- An operand with a space behind it is trimmed to the operand. -/
theorem IsOperand.trim_append_space {arg : Text} (h : IsOperand arg) :
    Text.trim (arg ++ [' ']) = arg := by
  have hstart : (arg ++ [' ']).dropWhile isBlank = arg ++ [' '] := by
    obtain ⟨a, arg, rfl⟩ := List.exists_cons_of_ne_nil h.ne_nil
    have ha : isBlank a = false := by simpa [startsIn] using h.startsIn_isBlank
    exact List.dropWhile_cons_of_neg (by simp [ha])
  have hend := Text.trimEnd_append arg [' ']
  rw [if_pos (by decide), trimEnd_eq_self h.endsIn_isBlank] at hend
  rw [Text.trim, Text.trimOf, Text.trimStartOf, hstart]
  exact hend

/-- The arguments between the labels of a row of parts. -/
theorem labelArguments_labelMarks {x : Text} {parts : List (Text × Text)}
    (hparts : ∀ p ∈ parts, IsName p.1 ∧ IsOperand p.2) :
    labelArguments (x ++ partsText parts) (labelMarks (x ++ partsText parts) x.length parts) =
      parts.map (·.2) := by
  induction parts generalizing x with
  | nil => rfl
  | cons p parts ih =>
    obtain ⟨label, arg⟩ := p
    obtain ⟨⟨hlabel, harg⟩, hrest⟩ := List.forall_mem_cons.mp hparts
    have hstop : x.length + (label.length + 1) = (x ++ (label ++ [':'])).length := by simp
    cases parts with
    | nil =>
      have hdrop : (x ++ partsText [(label, arg)]).since (x.length + (label.length + 1)) = arg := by
        have htext : x ++ partsText [(label, arg)] = x ++ (label ++ [':']) ++ arg := by
          simp [partsText, Text.join]
        rw [htext, hstop]
        exact List.drop_left
      have htrim : arg.trim = arg := trim_eq_self harg.startsIn_isBlank harg.endsIn_isBlank
      rw [labelMarks, labelMarks, labelArguments, hdrop, htrim]
      rfl
    | cons q parts =>
      have hmoved := @ih (x ++ (label ++ ':' :: (arg ++ [' ']))) hrest
      rw [← append_partsText_cons x label arg (List.cons_ne_nil q parts),
        length_append_part] at hmoved
      have hslice : (x ++ partsText ((label, arg) :: q :: parts)).slice
          (x.length + (label.length + 1)) (x.length + (label.length + 1) + (arg.length + 1)) =
            arg ++ [' '] := by
        rw [append_partsText_cons x label arg (List.cons_ne_nil q parts),
          ← length_append_part x label arg, Text.slice, List.take_left, hstop]
        have hsplit : x ++ (label ++ ':' :: (arg ++ [' '])) =
            x ++ (label ++ [':']) ++ (arg ++ [' ']) := by simp
        rw [hsplit]
        exact List.drop_left
      rw [labelMarks] at hmoved ⊢
      rw [labelMarks, labelArguments, hmoved, hslice, harg.trim_append_space]
      rfl

theorem fitsAll_cName (h : IsName t) : cName.fitsAll t = true := by
  obtain ⟨a, t, rfl⟩ := List.exists_cons_of_ne_nil h.ne_nil
  rw [Pattern.fitsAll, matchAll?, Option.isSome_map, cName]
  refine isSome_run_one_iff.mpr ⟨a, t, rfl, h.starts, ?_⟩
  refine isSome_run_star_one_iff.mpr ⟨t, ⟨[], by simp [Cursor.start, Cursor.advance]⟩,
    (List.forall_mem_cons.mp h.word).2, ?_⟩
  simp [Cursor.start, Cursor.advance]

/-- A text with a colon is no name. -/
theorem fitsAll_cName_of_mem (h : ':' ∈ t) : cName.fitsAll t = false := by
  rw [Bool.eq_false_iff]
  intro hfits
  obtain ⟨gs, hspells⟩ := spells_of_fitsAll hfits
  have hword := hspells.mem_of_within (s := isWord)
    ⟨fun c hc => isWord_of_isNameStart hc, fun c hc => hc⟩ ':' h
  revert hword
  decide

/-- The send that stands behind a receiver: one name, or labels with their arguments. -/
def sendTo? (receiver rest : Text) : Option Send :=
  if cName.fitsAll rest then some ⟨receiver, [rest], []⟩
  else
    let marks := keepLabels rest (groupDepths 0 rest) [] (keywordLabel.allIn rest)
    match marks with
    | [] => none
    | first :: _ =>
      let args := labelArguments rest marks
      if first.start != 0 || args.any (·.isEmpty) then none
      else some ⟨receiver, marks.map (·.group 1), args⟩

/-- What is read behind a receiver in script form. -/
theorem parse?_receiver {receiver rest : Text} (hr : IsReceiver receiver) (hne : rest ≠ [])
    (hstart : startsIn isBlank rest = false) (hend : endsIn isBlank rest = false) :
    Send.parse? (receiver ++ ' ' :: rest) = sendTo? receiver rest := by
  have htrim : Text.trim (receiver ++ ' ' :: rest) = receiver ++ ' ' :: rest := by
    refine trim_eq_self ?_ ?_
    · rw [startsIn_append_left isBlank hr.ne_nil]
      exact hr.startsIn_isBlank
    · rw [List.append_cons, endsIn_append isBlank hne]
      exact hend
  have hrest : Text.trim (' ' :: rest) = rest := by
    have hblank : isBlank ' ' = true := by decide
    have hdrop : Text.trimStartOf isBlank (' ' :: rest) = Text.trimStartOf isBlank rest :=
      List.dropWhile_cons_of_pos hblank
    rw [Text.trim, Text.trimOf, hdrop]
    exact trim_eq_self hstart hend
  have hdigit : receiver.head?.any isDigitLike = false := by
    obtain ⟨a, x, y, rfl, ha, -, -⟩ := hr.form
    exact isDigitLike_of_isNameStart ha
  have hempty : receiver.isEmpty = false := by simpa using hr.ne_nil
  have hempty' : rest.isEmpty = false := by simpa using hne
  unfold Send.parse?
  simp only [htrim, hr.startsWith_new, Bool.false_eq_true, if_false, List.drop_zero, Nat.zero_add,
    hr.unbroken.receiverLength_eq, List.take_left, Text.since, List.drop_left, hrest, hempty,
    hempty', hr.fitsAll, hdigit, Bool.not_true, Bool.or_false]
  rfl

theorem parse?_unary {receiver selector : Text} (hr : IsReceiver receiver)
    (hs : IsName selector) :
    Send.parse? (receiver ++ ' ' :: selector) = some ⟨receiver, [selector], []⟩ := by
  have hoperand := isOperand_of_word hs.ne_nil hs.word
  rw [parse?_receiver hr hs.ne_nil hoperand.startsIn_isBlank hoperand.endsIn_isBlank, sendTo?,
    if_pos (fitsAll_cName hs)]

/-- A row of parts neither starts nor ends in white space. -/
theorem startsIn_partsText {parts : List (Text × Text)}
    (hparts : ∀ p ∈ parts, IsName p.1 ∧ IsOperand p.2) (hne : parts ≠ []) :
    startsIn isBlank (partsText parts) = false := by
  obtain ⟨⟨label, arg⟩, parts, rfl⟩ := List.exists_cons_of_ne_nil hne
  obtain ⟨⟨hlabel, -⟩, -⟩ := List.forall_mem_cons.mp hparts
  have hstart := (isOperand_of_word hlabel.ne_nil hlabel.word).startsIn_isBlank
  cases parts with
  | nil => rwa [partsText, List.map_singleton, Text.join, startsIn_append_left _ hlabel.ne_nil]
  | cons q parts =>
    rwa [partsText_cons label arg (List.cons_ne_nil q parts), startsIn_append_left _ hlabel.ne_nil]

theorem endsIn_partsText {parts : List (Text × Text)}
    (hparts : ∀ p ∈ parts, IsName p.1 ∧ IsOperand p.2) (hne : parts ≠ []) :
    endsIn isBlank (partsText parts) = false := by
  induction parts with
  | nil => exact absurd rfl hne
  | cons p parts ih =>
    obtain ⟨label, arg⟩ := p
    obtain ⟨⟨-, harg⟩, hrest⟩ := List.forall_mem_cons.mp hparts
    cases parts with
    | nil =>
      rw [partsText, List.map_singleton, Text.join, List.append_cons,
        endsIn_append isBlank harg.ne_nil]
      exact harg.endsIn_isBlank
    | cons q parts =>
      have hcons := List.cons_ne_nil q parts
      rw [← List.nil_append (partsText _), append_partsText_cons [] label arg hcons,
        endsIn_append isBlank (partsText_ne_nil hcons)]
      exact ih hrest hcons

theorem of_mem_partsText {parts : List (Text × Text)}
    (hparts : ∀ p ∈ parts, IsName p.1 ∧ IsOperand p.2) :
    ∀ c ∈ partsText parts, isCallPart c = true ∨ c = ':' := by
  induction parts with
  | nil => exact List.forall_mem_nil _
  | cons p parts ih =>
    obtain ⟨label, arg⟩ := p
    obtain ⟨⟨hlabel, harg⟩, hrest⟩ := List.forall_mem_cons.mp hparts
    have hword : ∀ c ∈ label, isCallPart c = true ∨ c = ':' := fun c hc =>
      Or.inl ((isOperand_of_word hlabel.ne_nil hlabel.word).chars c hc)
    have hend : ∀ c ∈ arg, isCallPart c = true ∨ c = ':' := fun c hc => Or.inl (harg.chars c hc)
    cases parts with
    | nil =>
      rw [partsText, List.map_singleton, Text.join]
      exact List.forall_mem_append.mpr ⟨hword, List.forall_mem_cons.mpr ⟨Or.inr rfl, hend⟩⟩
    | cons q parts =>
      rw [partsText_cons label arg (List.cons_ne_nil q parts)]
      exact List.forall_mem_append.mpr ⟨hword, List.forall_mem_cons.mpr ⟨Or.inr rfl,
        List.forall_mem_append.mpr ⟨hend, List.forall_mem_cons.mpr ⟨by decide, ih hrest⟩⟩⟩⟩

theorem mem_partsText {parts : List (Text × Text)} (hne : parts ≠ []) : ':' ∈ partsText parts := by
  obtain ⟨⟨label, arg⟩, parts, rfl⟩ := List.exists_cons_of_ne_nil hne
  cases parts with
  | nil => simp [partsText, Text.join]
  | cons q parts => simp [partsText_cons label arg (List.cons_ne_nil q parts)]

theorem length_le_partsText (parts : List (Text × Text)) :
    parts.length ≤ (partsText parts).length := by
  induction parts with
  | nil => exact Nat.zero_le _
  | cons p parts ih =>
    obtain ⟨label, arg⟩ := p
    cases parts with
    | nil => simp [partsText, Text.join]; omega
    | cons q parts =>
      rw [partsText_cons label arg (List.cons_ne_nil q parts)]
      simp only [List.length_append, List.length_cons] at ih ⊢
      omega

theorem map_group_labelMarks (s : Text) (pos : Nat) (parts : List (Text × Text)) :
    (labelMarks s pos parts).map (·.group 1) = parts.map (·.1) := by
  induction parts generalizing pos with
  | nil => rfl
  | cons p parts ih =>
    rw [labelMarks, List.map_cons, ih, List.map_cons]
    rfl

theorem parse?_keyword {receiver : Text} {parts : List (Text × Text)} (hr : IsReceiver receiver)
    (hparts : ∀ p ∈ parts, IsName p.1 ∧ IsOperand p.2) (hne : parts ≠ []) :
    Send.parse? (receiver ++ ' ' :: partsText parts) =
      some ⟨receiver, parts.map (·.1), parts.map (·.2)⟩ := by
  have hmarks : keywordLabel.allIn (partsText parts) = labelMarks (partsText parts) 0 parts := by
    have hlength := length_le_partsText parts
    have hbefore : ([] : Text) = [] ∨ ([] : Text).head?.any isBlank = true := Or.inl rfl
    exact matchesFrom_keywordLabel hparts hne hbefore (by omega)
  have hdepths := getElem?_groupDepths_labelMarks (x := []) (isLevel_of_flat (List.forall_mem_nil _))
    hparts
  have hargs := labelArguments_labelMarks (x := []) hparts
  rw [List.nil_append, List.length_nil] at hdepths hargs
  have hquestion : '?' ∉ partsText parts := by
    intro hmem
    have := of_mem_partsText hparts '?' hmem
    revert this
    decide
  have hfull : (parts.map (·.2)).any (·.isEmpty) = false := by
    rw [List.any_eq_false]
    intro arg harg
    obtain ⟨p, hp, rfl⟩ := List.mem_map.mp harg
    simpa using (hparts p hp).2.ne_nil
  rw [parse?_receiver hr (partsText_ne_nil hne) (startsIn_partsText hparts hne)
    (endsIn_partsText hparts hne), sendTo?, fitsAll_cName_of_mem (mem_partsText hne),
    if_neg Bool.false_ne_true, hmarks, keepLabels_eq hquestion hdepths, List.nil_append]
  dsimp only
  rw [hargs, map_group_labelMarks, hfull]
  obtain ⟨⟨label, arg⟩, parts, rfl⟩ := List.exists_cons_of_ne_nil hne
  rfl

/-! ## Writing a call -/

/-- The script name of a selector is a word. -/
theorem isWord_of_mem_methodName {labels : List Text} (h : ∀ label ∈ labels, IsName label) :
    ∀ c ∈ Selector.methodName labels, isWord c = true := by
  cases labels with
  | nil => exact List.forall_mem_nil _
  | cons first rest =>
    obtain ⟨hfirst, hrest⟩ := List.forall_mem_cons.mp h
    refine List.forall_mem_append.mpr ⟨hfirst.word, fun c hc => ?_⟩
    obtain ⟨label, hlabel, hc⟩ := List.mem_flatMap.mp hc
    obtain ⟨a, label, rfl⟩ := List.exists_cons_of_ne_nil (hrest _ hlabel).ne_nil
    have ha : isNameStart a = true := (hrest _ hlabel).starts
    have hsmall : a.toNat < 128 := by
      rcases Bool.or_eq_true_iff.mp ha with halpha | hunderscore
      · exact toNat_lt_of_isAlpha halpha
      · obtain rfl := beq_iff_eq.mp hunderscore
        decide
    have hupper : ∀ n < 128, isNameStart (Char.ofNat n) = true →
        isWord (Char.ofNat n).toUpper = true := by decide
    rw [capitalizeFirst, upperChar, if_pos hsmall] at hc
    rcases List.mem_cons.mp hc with rfl | hc
    · have := hupper a.toNat hsmall
      rw [Char.ofNat_toNat] at this
      exact this ha
    · exact (hrest _ hlabel).word c (List.mem_cons_of_mem _ hc)

/-- Whether a selector has a script form of its own. -/
def isSpecial (selector : Text) : Bool := selectorForms.any fun form => form.1.toList == selector

/-- Where nothing is known, a send becomes a call, unless its selector has a form of its own or
allocates. -/
theorem write_nothing {s : Send} (hr : startsIn isNameStart s.receiver = true)
    (hspecial : isSpecial s.selector = false)
    (hnew : s.args = [] → s.labels.head? ≠ some "new".toList) :
    s.write .nothing = callText s.receiver (Selector.methodName s.labels) s.args := by
  have hunary : (s.args.isEmpty && s.labels.head? == some "new".toList) = false := by
    rw [Bool.and_eq_false_imp, List.isEmpty_iff]
    exact fun hargs => beq_eq_false_iff_ne.mpr (hnew hargs)
  have hgroup : s.receiver.startsWith "(new " = false := by
    rw [Text.startsWith, Bool.eq_false_iff]
    intro hp
    obtain ⟨rest, hrest⟩ := List.isPrefixOf_iff_prefix.mp hp
    rw [← hrest, startsIn_append_left isNameStart (by decide)] at hr
    revert hr
    decide
  have hnone : s.special? .nothing = none := by
    have hfind : (selectorForms.find? fun form => form.1.toList == s.selector) = none := by
      rw [List.find?_eq_none]
      exact List.any_eq_false.mp hspecial
    rw [Send.special?, if_neg (by simp [Scope.nothing]), hfind]
    rfl
  have hplain : s.plain .nothing = callText s.receiver (Selector.methodName s.labels) s.args := by
    rw [Send.plain, callText]
    cases hargs : s.args with
    | nil => simp [Scope.nothing, Text.join]
    | cons arg args => cases s.assigned? <;> simp [Scope.nothing]
  rw [Send.write]
  beta_reduce
  rw [hunary, hgroup, hnone, Bool.and_false, if_neg Bool.false_ne_true,
    if_neg Bool.false_ne_true, Option.getD_none, hplain]

end HostScript.Body.ObjC
