import HostScript.Proofs.Listing.Jvm
import HostScript.Proofs.Pattern.Longer
import HostScript.Proofs.Pattern.Ways
import HostScript.Proofs.Script.Collapse
import HostScript.Proofs.Script.Spans
import HostScript.Proofs.Text
import Mathlib.Algebra.Group.Nat.Even

/-!
# String constants

The comment of a load shows its constant. A string constant becomes a literal in double quotes with
a backslash before each double quote of it, but its own backslashes stay as they are. So the literal
closes where it should exactly if all runs of backslashes before a double quote and at the end of
the constant have even length.
-/

namespace HostScript.Script

/-- What follows an opening double quote closes the string with its last character, whatever comes
behind it. -/
def ClosesString (t : Text) : Prop := ∀ rest, stringRest '\x22' (t ++ rest) = t.length

/-- All runs of backslashes right before a double quote and at the end have even length. -/
def EvenEscapes (t : Text) : Prop :=
  ∀ u k v, t = u ++ (List.replicate k '\\' ++ v) → u.getLast? ≠ some '\\' →
    (∀ c ∈ v.head?, c = '\x22') → Even k

/-- A backslash put before each double quote. -/
def escapeQuotes (t : Text) : Text := Text.replaceAll "\x22" "\\\x22" t

variable {c d : Char} {t : Text}

@[simp] theorem escapeQuotes_nil : escapeQuotes [] = [] := rfl

theorem escapeQuotes_quote (t : Text) :
    escapeQuotes ('\x22' :: t) = '\\' :: '\x22' :: escapeQuotes t := by
  rw [escapeQuotes, Text.replaceAll, Text.replaceAll.go]
  rfl

theorem escapeQuotes_cons (hc : c ≠ '\x22') (t : Text) :
    escapeQuotes (c :: t) = c :: escapeQuotes t := by
  rw [escapeQuotes, Text.replaceAll, Text.replaceAll.go, if_neg (by simp),
    if_neg (by simp [hc.symm])]
  rfl

/-! ### Scanning -/

/-- One character that hides nothing and does not end the string. -/
theorem closesString_cons (hescape : c ≠ '\\') (hquote : c ≠ '\x22') (hbreak : c ≠ '\n')
    (t : Text) : ClosesString (c :: t) ↔ ClosesString t := by
  refine forall_congr' fun rest => ?_
  have hstep : Frame.step (.quoted '\x22') [] c = [.quoted '\x22'] := by
    simp [Frame.step, hquote, hbreak]
  rw [stringRest, stringRest, List.cons_append, spanLength_cons, if_neg (by simp [hescape]),
    if_neg (by simp), hstep, List.length_cons]
  omega

/-- A backslash hides the next character. -/
theorem closesString_escape (d : Char) (t : Text) :
    ClosesString ('\\' :: d :: t) ↔ ClosesString t := by
  refine forall_congr' fun rest => ?_
  rw [stringRest, stringRest, List.cons_append, spanLength_cons, if_pos (by decide),
    if_neg (by simp), List.cons_append, List.tail_cons, List.length_cons, List.length_cons]
  omega

/-- The first double quote that is not hidden ends the string. -/
theorem closesString_quote_iff (t : Text) : ClosesString ('\x22' :: t) ↔ t = [] := by
  have hend (rest : Text) : stringRest '\x22' ('\x22' :: rest) = 1 := by
    rw [stringRest, spanLength_cons, if_neg (by decide), if_neg (by simp)]
    simp [Frame.step, spanLength]
  refine ⟨fun h => ?_, ?_⟩
  · have hlen := h []
    rw [List.append_nil, hend, List.length_cons] at hlen
    exact List.length_eq_zero_iff.mp (by omega)
  · rintro rfl rest
    exact hend rest

theorem not_closesString_hidden : ¬ ClosesString ['\\', '\x22'] := by
  rw [closesString_escape]
  intro h
  exact absurd (h ['x']) (by decide)

/-! ### Runs of backslashes -/

theorem evenEscapes_nil : EvenEscapes [] := by
  intro u k v heq _ _
  simp at heq
  simp [heq]

theorem evenEscapes_cons (hescape : c ≠ '\\') (t : Text) :
    EvenEscapes (c :: t) ↔ EvenEscapes t := by
  constructor
  · rintro h u k v rfl hu hv
    refine h (c :: u) k v rfl ?_ hv
    cases u with
    | nil => simpa using hescape
    | cons a u => simpa using hu
  · intro h u k v heq hu hv
    cases u with
    | nil =>
      cases k with
      | zero => exact ⟨0, rfl⟩
      | succ k => exact absurd (List.cons.inj heq).1 hescape
    | cons a u =>
      refine h u k v (List.cons.inj heq).2 ?_ hv
      cases u with
      | nil => simp
      | cons b u => simpa using hu

/-- A backslash and a character other than a double quote go together. -/
theorem evenEscapes_escape (hquote : d ≠ '\x22') (t : Text) :
    EvenEscapes ('\\' :: d :: t) ↔ EvenEscapes t := by
  constructor
  · rintro h u k v rfl hu hv
    cases u with
    | nil =>
      by_cases hd : d = '\\'
      · have heven := h [] (k + 2) v (by simp [hd, List.replicate_succ]) hu hv
        exact (Nat.even_add.mp heven).mpr (by decide)
      · exact h ['\\', d] k v rfl (by simpa using hd) hv
    | cons a u => exact h ('\\' :: d :: a :: u) k v rfl (by simpa using hu) hv
  · intro h u k v heq hu hv
    match u, k with
    | [], 0 => exact ⟨0, rfl⟩
    | [], 1 =>
      obtain rfl := (List.cons.inj heq).2
      exact absurd (hv d rfl) hquote
    | [], k + 2 =>
      simp only [List.replicate_succ, List.nil_append, List.cons_append, List.cons.injEq,
        true_and] at heq
      exact Nat.even_add.mpr (iff_of_true (h [] k v heq.2 (by simp) hv) (by decide))
    | [a], k => exact absurd (by simp [(List.cons.inj heq).1.symm]) hu
    | a :: b :: u, k =>
      refine h u k v (List.cons.inj (List.cons.inj heq).2).2 ?_ hv
      cases u with
      | nil => simp
      | cons e u => simpa using hu

theorem not_evenEscapes_quote {t : Text} (h : ∀ c ∈ t.head?, c = '\x22') :
    ¬ EvenEscapes ('\\' :: t) :=
  fun heven => absurd (heven [] 1 t rfl (by simp) h) (by decide)

/-- With its double quotes escaped and one at the end, a text closes a string exactly if its runs of
backslashes are even. -/
theorem closesString_escapeQuotes_iff {t : Text} (hbreak : '\n' ∉ t) :
    ClosesString (escapeQuotes t ++ ['\x22']) ↔ EvenEscapes t := by
  induction hlen : t.length using Nat.strong_induction_on generalizing t with
  | _ len ih =>
    subst hlen
    cases t with
    | nil => exact iff_of_true ((closesString_quote_iff []).mpr rfl) evenEscapes_nil
    | cons c t =>
      have hnone : '\n' ∉ t := fun h => hbreak (List.mem_cons_of_mem c h)
      by_cases hescape : c = '\\'
      · subst hescape
        rw [escapeQuotes_cons (by decide), List.cons_append]
        cases t with
        | nil => exact iff_of_false not_closesString_hidden (not_evenEscapes_quote (by simp))
        | cons d t =>
          by_cases hquote : d = '\x22'
          · subst hquote
            rw [escapeQuotes_quote, List.cons_append, List.cons_append, closesString_escape,
              closesString_quote_iff]
            exact iff_of_false (by simp) (not_evenEscapes_quote (by simp))
          · rw [escapeQuotes_cons hquote, List.cons_append, closesString_escape,
              evenEscapes_escape hquote]
            exact ih t.length (by simp only [List.length_cons]; omega)
              (fun h => hnone (List.mem_cons_of_mem d h)) rfl
      · rw [evenEscapes_cons hescape, ← ih t.length (by simp) hnone rfl]
        by_cases hquote : c = '\x22'
        · subst hquote
          rw [escapeQuotes_quote, List.cons_append, List.cons_append, closesString_escape]
        · have hc : c ≠ '\n' := fun h => hbreak (h ▸ List.mem_cons_self)
          rw [escapeQuotes_cons hquote, List.cons_append, closesString_cons hescape hquote hc]

end HostScript.Script

namespace HostScript.Listing.Jvm

open Pattern Script

/-! ### Loads of constants -/

section Reading

variable {line ds : Text} {m : Match}

/-- A line of code starts with a number and a colon. -/
theorem exists_offset_of_match? (h : instructionLine.match? line = some m) :
    ∃ d ds t, line = d :: t ∧ d :: ds ++ [':'] <+: d :: t ∧
      ∀ c ∈ d :: ds, isDigit c = true := by
  have hhead : (cap 1 digit.plus ++ ":").Begins line :=
    (begins_of_match? h).left.left.left.left.left.left.left
  obtain ⟨x, _, hpre, hx⟩ := hhead
  obtain ⟨ds, rfl, hds⟩ := hx.of_append_lit
  obtain ⟨_, -, hds⟩ := spells_cap_iff.mp hds
  obtain ⟨hlen, hdigits, -⟩ := hds.of_rounds_one
  obtain ⟨d, ds, rfl⟩ := List.exists_cons_of_ne_nil (List.ne_nil_of_length_pos hlen)
  obtain ⟨rest, rfl⟩ := hpre
  exact ⟨d, ds, _, rfl, List.prefix_append _ rest, hdigits⟩

/-- No white space follows the characters of a set if digits, a colon and nothing else do. -/
theorem not_begins_gap {s : CharSet} (hs : s ':' = false) (hds : ∀ c ∈ ds, isDigit c = true)
    (hpre : ds ++ [':'] <+: line) : ¬ ((oneOf s).plus ++ gap).Begins line := by
  rintro ⟨x, gs, hx, hspells⟩
  obtain ⟨word, blanks, rfl, hne, hblanks, hword⟩ := hspells.of_append_gap
  obtain ⟨-, hword, -⟩ := hword.of_rounds_one
  obtain ⟨b, bs, rfl⟩ := List.exists_cons_of_ne_nil hne
  have hblank : isBlank b = true := hblanks b List.mem_cons_self
  have hcolon : b ≠ ':' := by
    rintro rfl
    exact absurd hblank (by decide)
  have hb : word ++ [b] <+: line :=
    ((List.prefix_append_right_inj word).mpr (by simp)).trans hx
  rcases List.prefix_or_prefix_of_prefix hb hpre with h | h
  · rcases List.mem_append.mp (h.subset List.mem_concat_self) with hmem | hmem
    · exact absurd (hds b hmem) (by simp [isDigit_of_isBlank hblank])
    · exact hcolon (List.mem_singleton.mp hmem)
  · rcases List.mem_append.mp (h.subset List.mem_concat_self) with hmem | hmem
    · exact absurd (hword ':' hmem) (by simp [hs])
    · exact hcolon (List.mem_singleton.mp hmem).symm

/-- The words that a class or a method starts with do not start with a digit. -/
theorem not_prefix_of_isDigit {d : Char} {t : Text} {w : String} (hd : isDigit d = true)
    (hw : w.toList.head?.all isDigit = false) : ¬ w.toList <+: d :: t := by
  rintro ⟨r, hr⟩
  cases hsplit : w.toList with
  | nil =>
    rw [hsplit] at hw
    cases hw
  | cons c u =>
    rw [hsplit] at hw hr
    obtain rfl := (List.cons.inj hr).1
    exact absurd hd (by simpa using hw)

theorem refuses_choice_of_isDigit {d : Char} {t : Text} {ws : List String} (hne : ws ≠ [])
    (hd : isDigit d = true) (hws : ∀ w ∈ ws, w.toList.head?.all isDigit = false) :
    (choice ws).Refuses (d :: t) :=
  refuses_choice hne fun w hw => not_prefix_of_isDigit hd (hws w hw)

theorem match?_classHead_of_isDigit {d : Char} (hd : isDigit d = true) (t : Text) :
    classHead.match? (d :: t) = none := by
  have hkeyword (w : String) (hw : w.toList.head?.all isDigit = false) :
      (lit w).Refuses (d :: t) := by
    have hchoice : (choice [w]).Refuses (d :: t) :=
      refuses_choice_of_isDigit (by simp) hd (by simpa using hw)
    exact hchoice
  have hmodifier : ("public" ++ gap <|> "final" ++ gap <|> "abstract" ++ gap).Refuses (d :: t) :=
    ((hkeyword "public" (by decide)).append _).orElse
      (((hkeyword "final" (by decide)).append _).orElse
        ((hkeyword "abstract" (by decide)).append _))
  have hclass := hmodifier.star_append (hkeyword "class" (by decide))
  exact ((hclass.append gap).append _).match?_eq_none

theorem match?_methodHead_of_digits {d : Char} (hdigits : ∀ c ∈ d :: ds, isDigit c = true)
    (hpre : d :: ds ++ [':'] <+: d :: line) : methodHead.match? (d :: line) = none := by
  have hmodifier : (choice ["public", "private", "protected", "static", "final", "synchronized",
      "native", "abstract", "strictfp"]).Refuses (d :: line) :=
    refuses_choice_of_isDigit (by simp) (hdigits d List.mem_cons_self) (by decide)
  have htype : ((oneOf (isWord ||| among ".$<>[]")).plus ++ gap).Refuses (d :: line) :=
    refuses_of_not_begins (not_begins_gap (by decide) hdigits hpre)
  have hhead := (hmodifier.append gap).cap_star_append htype 1
  exact Refuses.match?_eq_none (((((((hhead.append _).append _).append _).append _).append
    _).append _).append _)

/-- A line of code is added to the method that is open. -/
theorem step_of_match? {st : State} {method : Method} (hopen : st.current = some method)
    (h : instructionLine.match? line = some m) :
    step st line = { st with current := some { method with
      lines := method.lines ++ [⟨m.group 1, m.group 2, m.group 3, m.group 4⟩] } } := by
  obtain ⟨d, ds, t, rfl, hpre, hdigits⟩ := exists_offset_of_match? h
  have hd : isDigit d = true := hdigits d List.mem_cons_self
  have hend : endsMethod (d :: t) = false := by
    have hfits : instructionLine.fits (d :: t) = true := by rw [fits, h]; rfl
    have hstart : ¬ "static \x7b\x7d".toList <+: d :: t := not_prefix_of_isDigit hd (by decide)
    rw [endsMethod, hfits, Bool.not_true, Bool.and_false, Bool.or_false, Text.startsWith]
    rwa [← Bool.not_eq_true, List.isPrefixOf_iff_prefix]
  rw [step, match?_classHead_of_isDigit hd, match?_methodHead_of_digits hdigits hpre, hend, hopen,
    h]
  rfl

end Reading

/-- What the load of a constant stands for. -/
theorem ofLine_ldc {l : Line} (h : l.op.startsWith "ldc" = true) : Op.ofLine l =
    match constantValue? l.comment with
    | some v => .push v
    | none => .other l.raw := by
  obtain ⟨rest, hrest⟩ := List.isPrefixOf_iff_prefix.mp h
  have hop : l.op = 'l' :: 'd' :: 'c' :: rest := hrest.symm
  have hfits : ∀ p ∈ [arithmeticOp, loadOp, storeOp],
      p.fits ('l' :: 'd' :: 'c' :: rest) = false := by
    simp only [List.mem_cons, List.not_mem_nil, or_false, forall_eq_or_imp, forall_eq]
    exact ⟨rfl, rfl, rfl⟩
  have hdigit : constantOp.fitsAll ('l' :: 'd' :: 'c' :: rest) = false := rfl
  rw [ofLine_named hop hfits, Op.named, matchAll?_eq_none (hop ▸ hdigit), if_pos h, hop]
  rfl

/-- The value of a string constant with something visible in it. -/
theorem constantValue?_string {gap v : Text} (hgap : gap ≠ [])
    (hblank : ∀ c ∈ gap, isBlank c = true) (hbreak : '\n' ∉ v) (hv : v.trim ≠ []) :
    constantValue? (Text.trim ("String" ++ (gap ++ v))) =
      some ('\x22' :: (escapeQuotes v.trim ++ ['\x22'])) := by
  obtain ⟨x, y, hsplit, hx, hy⟩ := Text.exists_trimOf isBlank v
  have hfirst : (v.trim ++ []).head?.any isBlank = false := by
    rw [List.append_nil, Option.any_eq_false]
    simpa using fun c => Text.isBlank_of_head?_trim (t := v) c
  have hcomment : Text.trim ("String" ++ (gap ++ v)) = "String" ++ (gap ++ x) ++ v.trim := by
    have hlast : ∀ c ∈ ("String" ++ (gap ++ x) ++ v.trim : Text).getLast?,
        isBlank c = false := by
      rw [List.getLast?_append_of_ne_nil _ hv]
      exact Text.isBlank_of_getLast?_trim
    have htrim := Text.trim_surrounded (x := []) (by simp) hy
      (Text.trim_eq_self (t := "String" ++ (gap ++ x) ++ v.trim)
        (by rintro c ⟨⟩; decide) hlast)
    rw [← htrim]
    conv_lhs => rw [hsplit]
    simp only [List.nil_append, List.append_assoc]
    rfl
  have hnone : ∀ a ∈ v.trim, (a != '\n') = true := by
    intro a ha
    rw [bne_iff_ne]
    rintro rfl
    exact hbreak (Text.mem_of_mem_trim _ ha)
  have htype : (cap 1 (choice ["int", "long", "float", "double", "String"])).Takes "String"
      ((gap ++ x) ++ (v.trim ++ [])) (fun pos => [(1, ⟨pos, "String"⟩)]) :=
    (@takes_choice _ ["int", "long", "float", "double"] "String" []
      (by simp [List.cons_prefix_cons])).cap 1
  have htakes := (htype.append (takes_plus (by simp [hgap])
    (List.forall_mem_append.mpr ⟨hblank, hx⟩) hfirst)).append
      ((@takes_star _ _ [] hnone rfl).cap 2)
  obtain ⟨f, hf, hstring, hvalue⟩ : ∃ f,
      constantComment.match? ("String" ++ (gap ++ x) ++ v.trim) = some f ∧
        f.group 1 = "String".toList ∧ f.group 2 = v.trim := ⟨_, htakes.match?, rfl, rfl⟩
  rw [hcomment, constantValue?, hf, Option.map_some]
  simp only [hstring, hvalue, Text.trim_trim, beq_self_eq_true, if_true]
  rfl

/-- A string constant with nothing visible in it has no value. -/
theorem constantValue?_blank {gap v : Text} (hblank : ∀ c ∈ gap, isBlank c = true)
    (hv : v.trim = []) : constantValue? (Text.trim ("String" ++ (gap ++ v))) = none := by
  have hcomment : Text.trim ("String" ++ (gap ++ v)) = "String" := by
    have hblanks : ∀ c ∈ gap ++ v, isBlank c = true :=
      List.forall_mem_append.mpr ⟨hblank, Text.trim_eq_nil_iff.mp hv⟩
    exact Text.trim_surrounded (x := []) (t := "String".toList) (by simp) hblanks (by decide)
  rw [hcomment]
  decide +kernel

/-- A line that loads a string constant is added to its method. It pushes the constant between
double quotes, and what it pushes is one closed literal exactly if the backslashes of the constant
are even before each double quote and at its end. A constant with nothing visible in it is not
pushed: its line is not understood. -/
theorem string_closed_iff {st : State} {method : Method} {line gap v : Text} {m : Match}
    (hopen : st.current = some method) (hline : instructionLine.match? line = some m)
    (hload : (m.group 2).startsWith "ldc" = true)
    (hcomment : m.group 4 = Text.trim ("String" ++ (gap ++ v))) (hgap : gap ≠ [])
    (hblank : ∀ c ∈ gap, isBlank c = true) (hbreak : '\n' ∉ v) :
    ∃ l : Line,
      step st line = { st with current := some { method with lines := method.lines ++ [l] } } ∧
      (v.trim = [] → ∀ host s, run host s (Op.ofLine l) = s.emitUnknown l.raw) ∧
      (v.trim ≠ [] → ∃ t, (∀ host s, run host s (Op.ofLine l) = s.push ('\x22' :: t)) ∧
        (ClosesString t ↔ EvenEscapes v.trim)) := by
  refine ⟨_, step_of_match? hopen hline, fun hv host s => ?_, fun hv => ⟨_, fun host s => ?_,
    closesString_escapeQuotes_iff fun h => hbreak (Text.mem_of_mem_trim _ h)⟩⟩
  · rw [ofLine_ldc hload, hcomment, constantValue?_blank hblank hv]
    rfl
  · rw [ofLine_ldc hload, hcomment, constantValue?_string hgap hblank hbreak hv]
    rfl

/-- The start of a method without parameters. -/
def opened : State := ⟨[], some ⟨"greet", "Main", [], [], [], []⟩, "Main"⟩

theorem string_closed_iff_pair :
    ∃ l t, step opened "0: ldc #2 // String a\\\\" =
        ⟨[], some ⟨"greet", "Main", [], [], [], [l]⟩, "Main"⟩ ∧
      (∀ host s, run host s (Op.ofLine l) = s.push ('\x22' :: t)) ∧ ClosesString t := by
  have hgroups : (instructionLine.match? "0: ldc #2 // String a\\\\").map
      (fun m => (m.group 2, m.group 4)) = some ("ldc".toList, "String a\\\\".toList) := by
    decide +kernel
  obtain ⟨m, hm, hparts⟩ := Option.map_eq_some_iff.mp hgroups
  obtain ⟨hop, hcomment⟩ := Prod.mk.inj hparts
  have hopen : opened.current = some ⟨"greet", "Main", [], [], [], []⟩ := rfl
  have hpayload : m.group 4 = Text.trim ("String" ++ (" " ++ "a\\\\")) :=
    hcomment.trans (by decide +kernel)
  obtain ⟨l, hstep, -, hpush⟩ := string_closed_iff hopen hm (by rw [hop]; rfl) hpayload (by decide)
    (by decide) (by decide)
  obtain ⟨t, hpush, hcloses⟩ := hpush (by decide)
  refine ⟨l, t, hstep, hpush, hcloses.mpr ?_⟩
  exact (evenEscapes_cons (by decide) _).mpr
    ((evenEscapes_escape (by decide) _).mpr evenEscapes_nil)

/-- The literal that a line with the constant `v` pushes in the opened method is not closed. -/
def LeavesOpen (v : Text) : Prop :=
  ∃ l t, step opened ("0: ldc #2 // String " ++ v) =
      ⟨[], some ⟨"greet", "Main", [], [], [], [l]⟩, "Main"⟩ ∧
    (∀ host s, run host s (Op.ofLine l) = s.push ('\x22' :: t)) ∧ ¬ ClosesString t

/-- The literal of a constant is not closed if the scanner does not stop at its end when a letter
follows. -/
theorem leavesOpen_of_stringRest {v : Text}
    (hgroups : (instructionLine.match? ("0: ldc #2 // String " ++ v)).map
      (fun m => (m.group 2, m.group 4)) = some ("ldc".toList, "String " ++ v))
    (hvalue : constantValue? ("String " ++ v) = some ('\x22' :: (escapeQuotes v ++ ['\x22'])))
    (hends : stringRest '\x22' (escapeQuotes v ++ ['\x22', 'x']) ≠
      (escapeQuotes v ++ ['\x22']).length) : LeavesOpen v := by
  obtain ⟨m, hm, hparts⟩ := Option.map_eq_some_iff.mp hgroups
  obtain ⟨hop, hcomment⟩ := Prod.mk.inj hparts
  have hopen : opened.current = some ⟨"greet", "Main", [], [], [], []⟩ := rfl
  refine ⟨_, escapeQuotes v ++ ['\x22'], step_of_match? hopen hm, fun host s => ?_, ?_⟩
  · rw [ofLine_ldc (by rw [hop]; rfl), hcomment, hvalue]
    rfl
  · intro hcloses
    have hrest := hcloses ['x']
    rw [List.append_assoc] at hrest
    exact hends hrest

/-- A backslash hides the double quote that ends the literal, and two of them before a double quote
of the constant leave it unescaped. -/
theorem string_not_closed : LeavesOpen "a\\" ∧ LeavesOpen "\\\x22" := by
  constructor
  · exact leavesOpen_of_stringRest (by decide +kernel) (by decide +kernel) (by decide +kernel)
  · exact leavesOpen_of_stringRest (by decide +kernel) (by decide +kernel) (by decide +kernel)

end HostScript.Listing.Jvm
