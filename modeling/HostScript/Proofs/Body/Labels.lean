import HostScript.Body.Swift.Library
import HostScript.Proofs.Body.Keep
import HostScript.Proofs.Pattern.Found

/-!
# Labels of arguments

In a call, a label with its colon goes, and the value behind it stays as it is. The bracket that is
open in front of a label tells a call from a literal, so the values have their own brackets closed.
-/

namespace HostScript.Body.Swift

open Pattern Script

/-! ### Open brackets -/

/-- The brackets that are open behind a text. -/
def bracketsBehind : (stack : List Char) → Text → List Char
  | stack, [] => stack
  | stack, c :: rest =>
    bracketsBehind (if c == '(' || c == '[' || c == '\x7b' then c :: stack
      else if c == ')' || c == ']' || c == '\x7d' then stack.tail else stack) rest

theorem bracketsBehind_append (stack : List Char) (x y : Text) :
    bracketsBehind stack (x ++ y) = bracketsBehind (bracketsBehind stack x) y := by
  induction x generalizing stack with
  | nil => rfl
  | cons c x ih => exact ih _

/-- Characters of a set without brackets open and close none. -/
theorem bracketsBehind_eq {s : CharSet} {t : Text} (hs : ∀ c ∈ "()[]\x7b\x7d".toList, s c = false)
    (ht : ∀ c ∈ t, s c = true) (stack : List Char) : bracketsBehind stack t = stack := by
  induction t with
  | nil => rfl
  | cons c t ih =>
    rw [List.forall_mem_cons] at ht
    have hne : ∀ d ∈ "()[]\x7b\x7d".toList, (c == d) = false := by
      intro d hd
      refine beq_eq_false_iff_ne.mpr fun heq => ?_
      rw [heq, hs d hd] at ht
      cases ht.1
    have hstep : bracketsBehind stack (c :: t) = bracketsBehind stack t := by
      simp [bracketsBehind, hne '(' (by decide), hne ')' (by decide), hne '[' (by decide),
        hne ']' (by decide), hne '\x7b' (by decide), hne '\x7d' (by decide)]
    rw [hstep]
    exact ih ht.2

/-- The innermost bracket is listed for each character. -/
theorem getElem?_openBrackets (stack : List Char) (x : Text) (c : Char) (y : Text) :
    (openBrackets stack (x ++ c :: y))[x.length]? = some (bracketsBehind stack x).head? := by
  induction x generalizing stack with
  | nil => rfl
  | cons d x ih => exact ih _

/-- Whether a text closes the round brackets that it opens, with some open in front of it, and has
no other brackets. -/
def isNested : (depth : Nat) → Text → Bool
  | depth, [] => depth == 0
  | depth, c :: rest =>
    if c == '(' then isNested (depth + 1) rest
    else if c == ')' then depth != 0 && isNested (depth - 1) rest
    else !among "[]\x7b\x7d" c && isNested depth rest

/-- Such a text leaves the brackets around it open. -/
theorem bracketsBehind_of_isNested {depth : Nat} {t : Text} (h : isNested depth t = true)
    (stack : List Char) :
    bracketsBehind (List.replicate depth '(' ++ stack) t = stack := by
  induction t generalizing depth with
  | nil =>
    obtain rfl : depth = 0 := beq_iff_eq.mp h
    rfl
  | cons c t ih =>
    rw [isNested] at h
    by_cases hopen : c = '('
    · subst hopen
      exact ih h
    by_cases hclose : c = ')'
    · subst hclose
      obtain ⟨hdepth, hrest⟩ := Bool.and_eq_true_iff.mp (show (depth != 0 && _) = true from h)
      obtain ⟨depth, rfl⟩ := Nat.exists_eq_add_one_of_ne_zero (bne_iff_ne.mp hdepth)
      exact ih hrest
    · rw [if_neg (by simpa using hopen), if_neg (by simpa using hclose)] at h
      obtain ⟨hother, hrest⟩ := Bool.and_eq_true_iff.mp h
      have hothers : ∀ d ∈ ['[', ']', '\x7b', '\x7d'], c ≠ d := by
        rintro d hd rfl
        have hall : ∀ d ∈ ['[', ']', '\x7b', '\x7d'], among "[]\x7b\x7d" d = true := by decide
        rw [hall c hd] at hother
        cases hother
      have hstep : bracketsBehind (List.replicate depth '(' ++ stack) (c :: t) =
          bracketsBehind (List.replicate depth '(' ++ stack) t := by
        simp [bracketsBehind, hopen, hclose, hothers '[' (by decide), hothers ']' (by decide),
          hothers '\x7b' (by decide), hothers '\x7d' (by decide)]
      rw [hstep]
      exact ih hrest

/-! ### Arguments -/

/-- An argument of a call: its label, empty if it has none, and its value. -/
structure Argument where
  label : Text
  value : Text

/-- An argument as it is written. -/
def Argument.written (a : Argument) : Text :=
  if a.label = [] then a.value else a.label ++ (": " ++ a.value)

/-- A label is a word, and a value has neither colons nor open brackets. -/
structure Argument.IsPlain (a : Argument) : Prop where
  label : ∀ c ∈ a.label, isWord c = true
  start : ∀ c ∈ a.label.head?, isNameStart c = true
  value : a.value.head?.any isBlank = false
  colon : ':' ∉ a.value
  nested : isNested 0 a.value = true

/-! ### Where labels fit -/

/-- The characters of labels, with their colons and the white space around them. -/
def isLabelPart : CharSet := isWord ||| isNameStart ||| isBlank ||| among ":"

theorem isBlank_of_isLabelPart {c : Char} (h : isLabelPart c = false) : isBlank c = false := by
  simp only [isLabelPart, HOr.hOr, OrOp.or, Bool.or_eq_false_iff] at h
  exact h.1.2

/-- A label ends in a colon, with nothing but itself and white space in front. -/
theorem refuses_labelBefore {t : Text}
    (h : ∀ w rest, t = w ++ rest → ':' ∈ w → ∃ c ∈ w, isLabelPart c = false) :
    labelBefore.Refuses t := by
  intro k c hc
  rw [Option.eq_none_iff_forall_ne_some]
  intro e he
  obtain ⟨w, gs, d, hw, hpass, -⟩ := covers_run labelBefore _ _ _ he
  have hneeds : labelBefore.Needs [':'] := .left (.left (.right (needs_lit (by decide))))
  have hcolon := (List.singleton_infix_iff _ _).mp (hneeds w gs hw)
  obtain ⟨a, ha, hother⟩ := h w _ (hc.symm.trans hpass.after) hcolon
  have hblank {a : Char} (ha : isBlank a = true) : isLabelPart a = true := by
    simp [isLabelPart, HOr.hOr, OrOp.or, ha]
  have hword {a : Char} (ha : isWord a = true) : isLabelPart a = true := by
    simp [isLabelPart, HOr.hOr, OrOp.or, ha]
  have hstart {a : Char} (ha : isNameStart a = true) : isLabelPart a = true := by
    simp [isLabelPart, HOr.hOr, OrOp.or, ha]
  have hwithin : labelBefore.Within isLabelPart :=
    ⟨⟨⟨⟨⟨⟨trivial, fun _ => hblank⟩, fun _ => hstart, fun _ => hword⟩, fun _ => hblank⟩,
      within_text (by decide)⟩, trivial⟩, fun _ => hblank⟩
  rw [hw.mem_of_within hwithin a ha] at hother
  cases hother

/-- No label starts in a text without colons in front of a bracket or a comma. -/
theorem refuses_labelBefore_cons {t r : Text} {c : Char} (ht : ':' ∉ t)
    (hc : isLabelPart c = false) : labelBefore.Refuses (t ++ c :: r) := by
  refine refuses_labelBefore fun w rest hsplit hcolon => ⟨c, ?_, hc⟩
  rcases List.append_eq_append_iff.mp hsplit with ⟨a, rfl, ha⟩ | ⟨b, rfl, -⟩
  · cases a with
    | nil => exact absurd (by simpa using hcolon) ht
    | cons d a =>
      obtain ⟨rfl, -⟩ := List.cons.inj ha
      simp
  · exact absurd (List.mem_append_left b hcolon) ht

theorem refuses_labelBefore_of_notMem {t : Text} (ht : ':' ∉ t) : labelBefore.Refuses t :=
  refuses_labelBefore fun _ rest hsplit hcolon =>
    absurd (hsplit ▸ List.mem_append_left rest hcolon) ht

/-- A label fits behind a bracket or a comma; white space in front of it is the first group. -/
theorem run_labelBefore {x b label r : Text} (hx : x.getLast?.any (among "(,") = true)
    (hb : ∀ c ∈ b, isBlank c = true) (hne : label ≠ []) (hlabel : ∀ c ∈ label, isWord c = true)
    (hstart : ∀ c ∈ label.head?, isNameStart c = true) (hr : r.head?.any isBlank = false) :
    labelBefore.run some ⟨x.reverse, b ++ (label ++ (": " ++ r)), x.length, []⟩ =
      some ⟨(x ++ (b ++ (label ++ ": "))).reverse, r, (x ++ (b ++ (label ++ ": "))).length,
        [(1, ⟨x.length, b⟩)]⟩ := by
  obtain ⟨l, label, rfl⟩ := List.exists_cons_of_ne_nil hne
  have hl : isNameStart l = true := hstart l rfl
  have hsolid (y : Text) : ((l :: label) ++ y).head?.any isBlank = false := by
    cases hblank : isBlank l with
    | false => exact hblank
    | true =>
      have hword := hlabel l (List.mem_cons_self ..)
      rw [isWord_of_isBlank hblank] at hword
      cases hword
  have hblanks : (cap 1 blanks).Takes b (([l] ++ label) ++ ':' :: ' ' :: r) _ :=
    (takes_star hb (hsolid _)).cap 1
  have hname : cName.Takes ([l] ++ label) (':' :: ' ' :: r) noGroups :=
    (takes_one hl _).append (takes_star (fun c hc => hlabel c (List.mem_cons_of_mem l hc)) rfl)
  have hnone : blanks.Takes [] (':' :: ' ' :: r) noGroups := takes_star (by simp) rfl
  have hcolon : (lit ":").Takes [':'] (' ' :: r) noGroups := takes_text _ _
  have hahead : (notAhead (lit ":")).Takes [] (' ' :: r) noGroups := takes_notAhead_one rfl
  have hspace : blanks.Takes [' '] r noGroups := takes_star (by decide) hr
  have htakes := ((((hblanks.append hname).append hnone).append hcolon).append hahead).append hspace
  have hrun : labelBefore.run some = (after (among "(,")).run ((cap 1 blanks ++ cName ++ blanks ++
      ":" ++ notAhead (lit ":") ++ blanks).run some) := rfl
  rw [hrun, run_after, List.head?_reverse, hx, if_pos rfl]
  have hsplit : b ++ ((l :: label) ++ (": ".toList ++ r)) =
      (b ++ ([l] ++ label) ++ [] ++ [':'] ++ [] ++ [' ']) ++ r := by simp
  rw [hsplit]
  refine htakes some _ _ rfl ?_
  rw [Cursor.behind_start]
  have hgroups (pos : Nat) : noGroups pos = [] := rfl
  simp only [hgroups, List.nil_append, List.append_nil]
  simp

/-! ### Calls -/

/-- What the step on labels puts in place of a fit in a text. -/
def unlabelled (t : Text) (m : Match) : Text :=
  if ((openBrackets [] t)[m.start]?).join == some '(' ||
      m.start > 0 && t[m.start - 1]? == some '(' then m.group 1 else m.text

/-- One argument behind a bracket or a comma loses its label. -/
theorem Argument.IsPlain.replaced {a : Argument} (ha : a.IsPlain) {t x b r out : Text} {c : Char}
    (ht : t = x ++ (b ++ (a.written ++ c :: r)))
    (hx : x.getLast?.any (among "(,") = true) (hopen : (bracketsBehind [] x).head? = some '(')
    (hb : ∀ c ∈ b, isBlank c = true) (hc : isLabelPart c = false)
    (h : labelBefore.Replaced (unlabelled t) (x ++ (b ++ a.written)) (c :: r) out) :
    labelBefore.Replaced (unlabelled t) x (b ++ (a.written ++ c :: r)) (b ++ (a.value ++ out)) := by
  have hcopy {y : Text} (x : Text) (hy : ':' ∉ y)
      (h : labelBefore.Replaced (unlabelled t) (x ++ y) (c :: r) out) :
      labelBefore.Replaced (unlabelled t) x (y ++ c :: r) (y ++ out) := by
    refine h.copy fun u d v huv => ?_
    have hv : ':' ∉ d :: v := fun hmem => hy (huv ▸ List.mem_append_right u hmem)
    exact refuses_labelBefore_cons hv hc some _ rfl
  by_cases hlabel : a.label = []
  · have hwritten : a.written = a.value := if_pos hlabel
    rw [hwritten] at h ⊢
    have hblank : ':' ∉ b := fun hmem => by
      have := hb _ hmem
      revert this
      decide
    simpa using hcopy x (y := b ++ a.value) (by simp [hblank, ha.colon]) h
  · have hwritten : a.written = a.label ++ (": " ++ a.value) := if_neg hlabel
    rw [hwritten] at h ht ⊢
    have hvalue : (a.value ++ c :: r).head?.any isBlank = false := by
      cases hv : a.value with
      | nil => exact (isBlank_of_isLabelPart hc)
      | cons d v => simpa [hv] using ha.value
    have hrun := run_labelBefore (r := a.value ++ c :: r) hx hb hlabel ha.label ha.start hvalue
    have hgroup : unlabelled t ⟨t, x.length, (x ++ (b ++ (a.label ++ ": "))).length,
        [(1, ⟨x.length, b⟩)]⟩ = b := by
      obtain ⟨d, rest, hrest⟩ :
          ∃ d rest, b ++ (a.label ++ (": ".toList ++ a.value) ++ c :: r) = d :: rest :=
        List.exists_cons_of_ne_nil (by simp)
      have hbracket := getElem?_openBrackets [] x d rest
      rw [← hrest, ← ht, hopen] at hbracket
      rw [unlabelled, hbracket]
      rfl
    have hlabelled : b ++ (a.label ++ ": ".toList) ≠ [] := by simp [hlabel]
    have hfit := (hcopy (x ++ (b ++ (a.label ++ ": ".toList))) ha.colon (by simpa using h)).fit
      hlabelled (by simpa using hrun)
    have hsubject : x ++ (b ++ (a.label ++ ": ".toList) ++ (a.value ++ c :: r)) = t := by
      rw [ht]
      simp
    rw [hsubject, hgroup] at hfit
    simpa using hfit

/-- An argument leaves the brackets around it open. -/
theorem Argument.IsPlain.bracketsBehind_written {a : Argument} (ha : a.IsPlain)
    (stack : List Char) : bracketsBehind stack a.written = stack := by
  have hvalue : bracketsBehind stack a.value = stack := bracketsBehind_of_isNested ha.nested stack
  rw [Argument.written]
  split
  · exact hvalue
  · rw [bracketsBehind_append, bracketsBehind_eq (by decide) ha.label]
    exact hvalue

/-- So do all arguments, each without its label. -/
theorem replaced_arguments {args : List Argument} (hargs : ∀ a ∈ args, a.IsPlain)
    {t x b tail : Text}
    (ht : t = x ++ (b ++ (Text.join ", " (args.map Argument.written) ++ ')' :: tail)))
    (hx : x.getLast?.any (among "(,") = true) (hopen : (bracketsBehind [] x).head? = some '(')
    (hb : ∀ c ∈ b, isBlank c = true) (htail : ':' ∉ tail) :
    labelBefore.Replaced (unlabelled t) x
      (b ++ (Text.join ", " (args.map Argument.written) ++ ')' :: tail))
      (b ++ (Text.join ", " (args.map Argument.value) ++ ')' :: tail)) := by
  have hrest {x y : Text} (hy : ':' ∉ y) : labelBefore.Replaced (unlabelled t) x y y := by
    refine replaced_of_forall fun u v huv => ?_
    have hv : ':' ∉ v := fun hmem => hy (huv ▸ List.mem_append_right u hmem)
    exact refuses_labelBefore_of_notMem hv some _ rfl
  have hclosing : ':' ∉ ')' :: tail := by simp [htail]
  induction args generalizing x b with
  | nil =>
    have hblank : ':' ∉ b := fun hmem => by
      have := hb _ hmem
      revert this
      decide
    exact hrest (List.not_mem_append hblank hclosing)
  | cons a args ih =>
    rw [List.forall_mem_cons] at hargs
    cases args with
    | nil => exact hargs.1.replaced ht hx hopen hb (by decide) (hrest hclosing)
    | cons a' args =>
      have hjoin (f : Argument → Text) : Text.join ", " ((a :: a' :: args).map f) ++ ')' :: tail =
          f a ++ ',' :: ([' '] ++ (Text.join ", " ((a' :: args).map f) ++ ')' :: tail)) := by
        have hne : (a' :: args).map f ≠ [] := List.cons_ne_nil _ _
        rw [List.map_cons, Text.join_cons _ _ hne]
        simp
      rw [hjoin] at ht
      rw [hjoin, hjoin]
      refine hargs.1.replaced ht hx hopen hb (by decide) ?_
      have hstack : bracketsBehind [] (x ++ (b ++ a.written) ++ [',']) = bracketsBehind [] x := by
        rw [bracketsBehind_append, bracketsBehind_append, bracketsBehind_append,
          bracketsBehind_eq (by decide) hb, hargs.1.bracketsBehind_written]
        rfl
      have hnext := ih hargs.2 (x := x ++ (b ++ a.written) ++ [',']) (b := [' '])
        (by simpa using ht) (by simp [among]) (hstack ▸ hopen) (by decide)
      refine hnext.copy (y := [',']) fun u d v huv => ?_
      obtain ⟨rfl, hd⟩ := List.append_eq_singleton_iff.mp huv.symm |>.resolve_right (by simp)
      obtain ⟨rfl, rfl⟩ := List.cons.inj hd
      exact refuses_labelBefore_cons (t := []) List.not_mem_nil (by decide) some _ rfl

/-- The arguments of a call lose their labels. -/
theorem argumentLabels_call {args : List Argument} (hargs : ∀ a ∈ args, a.IsPlain)
    {head tail : Text} (hhead : ':' ∉ head) (htail : ':' ∉ tail) (scope : Scope) :
    argumentLabels scope
        (head ++ '(' :: (Text.join ", " (args.map Argument.written) ++ ')' :: tail)) =
      head ++ '(' :: (Text.join ", " (args.map Argument.value) ++ ')' :: tail) := by
  have hopen : (bracketsBehind [] (head ++ ['('])).head? = some '(' := by
    rw [bracketsBehind_append]
    rfl
  have hcall := replaced_arguments hargs (t := (head ++ ['(']) ++ ([] ++
    (Text.join ", " (args.map Argument.written) ++ ')' :: tail))) rfl (by simp [among]) hopen
    (List.forall_mem_nil _) htail
  have hwhole := hcall.copy (x := []) (y := head ++ ['(']) fun u d v huv => ?_
  case refine_1 =>
    obtain ⟨w, e, hw⟩ := (List.eq_nil_or_concat' (d :: v)).resolve_left (List.cons_ne_nil d v)
    rw [hw, ← List.append_assoc] at huv
    obtain ⟨rfl, he⟩ := List.append_inj' huv rfl
    obtain rfl := (List.cons.inj he).1
    have hcolon : ':' ∉ w := fun hmem => hhead (List.mem_append_right u hmem)
    rw [← List.cons_append, hw, List.append_assoc]
    exact refuses_labelBefore_cons hcolon (by decide) some _ rfl
  have hlabels (t : Text) : argumentLabels scope t = labelBefore.replace (unlabelled t) t := rfl
  rw [hlabels]
  simpa using hwhole.replace_eq

end HostScript.Body.Swift
