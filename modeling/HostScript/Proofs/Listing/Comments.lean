import HostScript.Listing.Smali
import HostScript.Listing.Wat
import HostScript.Proofs.Pattern.Longer
import HostScript.Proofs.Pattern.Found
import HostScript.Proofs.Text
import Mathlib.Algebra.GroupWithZero.Nat

/-!
# Comments and strings

Comments are taken out of a listing before anything else is read, so a comment mark within a string
counts as one. In a Dalvik listing a string keeps its load exactly if it has no `#` in it. In the
WebAssembly text format expressions are read back from a text exactly if neither `;;` nor `(;` with
a `;)` behind it occurs in the text; for expressions without such marks in their other atoms these
can only stem from strings. That no other text gives the expressions back is a matter of counting:
reading adds no semicolon, and taking out a comment loses some.
-/

namespace HostScript.Listing.Smali

open Pattern

/-- A load of a string up to its first quote. -/
def opening : Text := "const-string v0, \x22"

section Line

variable {u : Text}

/-- The patterns of lines that start otherwise. -/
theorem match?_eq_none_of_mayStart {p : Pattern} (hp : p.advances = true)
    (h : p.mayStart 'c' = false) : p.match? (opening ++ u) = none :=
  (refuses_of_mayStart (t := opening.tail ++ u) hp h).match?_eq_none

theorem match?_constLine_opening : constLine.match? (opening ++ u) = none := by
  rw [Option.eq_none_iff_forall_ne_some]
  intro m hm
  obtain ⟨x, gs, hpre, hx⟩ := (begins_of_match? hm).left.left.left.left.left
  obtain ⟨y, b, rfl, hne, hblank, hy⟩ := hx.of_append_gap
  obtain ⟨_, form, _, _, rfl, -, hconst, hform⟩ := spells_append_iff.mp hy
  obtain ⟨rfl, -⟩ := spells_lit_iff.mp hconst
  have hrest : form ++ b <+: "-string v0, \x22" ++ u := by
    rw [List.append_assoc] at hpre
    exact (List.prefix_append_right_inj _).mp hpre
  rcases hform.of_opt with ⟨rfl, -⟩ | hform
  · obtain ⟨a, b, rfl⟩ := List.exists_cons_of_ne_nil hne
    obtain ⟨rfl, -⟩ := List.cons_prefix_cons.mp hrest
    exact absurd (hblank '-' List.mem_cons_self) (by decide)
  · rcases spells_orElse_iff.mp hform with hform | hform
    · obtain ⟨⟨w, hw, rfl⟩, -⟩ := (spells_choice_iff (by simp)).mp hform
      simp only [List.mem_cons, List.not_mem_nil, or_false] at hw
      rcases hw with rfl | rfl | rfl
      all_goals exact absurd (List.cons_prefix_cons.mp hrest).1 (by decide)
    · obtain ⟨_, z, _, _, rfl, -, hwide, -⟩ := spells_append_iff.mp hform
      obtain ⟨rfl, -⟩ := spells_lit_iff.mp hwide
      exact absurd (List.cons_prefix_cons.mp (List.cons_prefix_cons.mp hrest).2).1 (by decide)

theorem instruction_opening (r : Registers) : instruction r (opening ++ u) =
    (string? r (opening ++ u)).getD (.unknown (opening ++ u)) := by
  have hnone : ∀ p ∈ [arithmeticLine, moveLine, invokeLine, returnLine, ifLine, gotoLine],
      p.match? (opening ++ u) = none := by
    simp only [List.forall_mem_cons]
    refine ⟨?_, ?_, ?_, ?_, ?_, ?_, nofun⟩
    all_goals exact match?_eq_none_of_mayStart (by decide) (by decide)
  have hvoid : returnVoid? (opening ++ u) = none := rfl
  simp only [List.forall_mem_cons] at hnone
  simp only [instruction, arithmetic?, const?, move?, invoke?, return?, if?, goto?, hnone, hvoid,
    match?_constLine_opening, Option.map_none]
  cases string? r (opening ++ u) <;> rfl

/-- A line with a closed literal and nothing behind it loads it. -/
theorem string?_closed (r : Registers) {s : Text} (hbreak : '\n' ∉ s) :
    string? r (opening ++ (s ++ ['\x22'])) =
      some ⟨.load, [r.name "v0", '\x22' :: (s ++ ['\x22'])], [], []⟩ := by
  have hany : ∀ a ∈ s, (a != '\n') = true := by
    intro a ha
    rw [bne_iff_ne]
    rintro rfl
    exact hbreak ha
  have hliteral : (cap 2 ("\x22" ++ any.star ++ "\x22")).Takes ("\x22".toList ++ (s ++ ['\x22']))
      ([] ++ []) _ :=
    ((takes_text "\x22" (s ++ ['\x22'] ++ [])).append
      (takes_star_last hany (by decide))).assoc.cap 2
  have hblanks : blanks.Takes " " ("\x22".toList ++ (s ++ ['\x22']) ++ ([] ++ [])) noGroups :=
    takes_star (by decide) rfl
  have hname (rest : Text) : (cap 1 name).Takes "v0" (",".toList ++ rest)
      fun pos => [(1, ⟨pos, "v0"⟩)] :=
    (takes_plus (by decide) (by decide) rfl).cap 1
  have hgap (rest : Text) : gap.Takes " " ("v0".toList ++ rest) noGroups :=
    takes_plus (by decide) (by decide) rfl
  have hjumbo (rest : Text) : (lit "/jumbo").Refuses (" ".toList ++ rest) :=
    refuses_of_mayStart (by decide) (by decide)
  have htakes := (((((((takes_text "const-string" _).append (takes_opt_nil (hjumbo _))).append
    (hgap _)).append (hname _)).append (takes_text "," _)).append hblanks).append hliteral).append
      takes_textEnd
  have hopening : opening = "const-string".toList ++ (" ".toList ++ ("v0".toList ++
      (",".toList ++ (" ".toList ++ "\x22".toList)))) := by decide +kernel
  obtain ⟨m, hm, hregister, hvalue⟩ : ∃ m, stringLine.match? _ = some m ∧
      m.group 1 = "v0".toList ∧ m.group 2 = "\x22".toList ++ (s ++ ['\x22']) :=
    ⟨_, htakes.match?, rfl, rfl⟩
  simp only [List.append_assoc, List.append_nil] at hm
  rw [string?, hopening]
  simp only [List.append_assoc]
  rw [hm, Option.map_some, hregister, hvalue]
  rfl

/-- A line with one quote only loads no string. -/
theorem string?_open (r : Registers) (hquote : '\x22' ∉ u) : string? r (opening ++ u) = none := by
  have hnone : stringLine.match? (opening ++ u) = none := by
    rw [Option.eq_none_iff_forall_ne_some]
    intro m hm
    obtain ⟨x, gs, hpre, hx⟩ := (begins_of_match? hm).left
    obtain ⟨y, _, _, _, rfl, -, hliteral, -⟩ := hx.of_append_cap
    obtain ⟨_, rfl, hstart⟩ := hliteral.of_append_lit
    obtain ⟨_, z, _, _, rfl, -, hstart, -⟩ := spells_append_iff.mp hstart
    obtain ⟨rfl, -⟩ := spells_lit_iff.mp hstart
    have hcount := hpre.sublist.count_le '\x22'
    have hopening : List.count '\x22' opening = 1 := by decide +kernel
    simp only [List.count_append, hopening, List.count_eq_zero.mpr hquote] at hcount
    have hone : List.count '\x22' "\x22".toList = 1 := by decide
    omega
  rw [string?, hnone, Option.map_none]

end Line

/-! ### Registers -/

/-- Registers that are not written with a `p` keep their names. -/
def Registers.RenamesParams (r : Registers) : Prop := ∀ e ∈ r.names, e.1.head? = some 'p'

theorem Registers.RenamesParams.name_eq {r : Registers} (h : r.RenamesParams) {token : Text}
    (htoken : token.head? ≠ some 'p') : r.name token = token := by
  have hnone : r.names.lookup token = none := by
    rw [List.lookup_eq_none_iff]
    intro e he
    rw [bne_iff_ne]
    rintro rfl
    exact htoken (h e he)
  rw [Registers.name, hnone, Option.getD_none]

theorem renamesParams_registers (modifiers descriptor : Text) :
    (registers modifiers descriptor).RenamesParams := by
  intro e he
  rw [registers] at he
  rcases List.mem_append.mp he with he | he
  · split at he
    · cases he
    · obtain rfl := List.mem_singleton.mp he
      rfl
  · obtain ⟨p, hp, rfl⟩ := List.mem_map.mp he
    obtain ⟨i, -, rfl⟩ := List.mem_map.mp hp
    rfl

/-- A line leaves the registers of a method as they are, or opens another one. -/
theorem renamesParams_step {st : State} (h : ∀ m ∈ st.current, m.2.RenamesParams) (line : Text) :
    ∀ m ∈ (step st line).current, m.2.RenamesParams := by
  rw [step]
  split
  · exact h
  generalize line.startsWith ".end method" = ends
  generalize (line.startsWith "." || line.startsWith ":") = skips
  cases methodHead.match? line with
  | some m =>
    intro opened hopened
    obtain rfl := Option.some.inj hopened
    exact renamesParams_registers _ _
  | none =>
    dsimp only
    split
    · exact h
    rename_i routine r hopen
    have hr : r.RenamesParams := h (routine, r) hopen
    cases ends with
    | true => exact nofun
    | false =>
      cases skips with
      | true => exact h
      | false =>
        intro m hm
        obtain rfl := Option.some.inj hm
        exact hr

theorem renamesParams_foldl {st : State} (h : ∀ m ∈ st.current, m.2.RenamesParams)
    (lines : List Text) : ∀ m ∈ (lines.foldl step st).current, m.2.RenamesParams := by
  induction lines generalizing st with
  | nil => exact h
  | cons line lines ih => exact ih (renamesParams_step h line)

/-! ### The line of a string -/

/-- A line that loads a string adds one instruction. -/
theorem step_opening {st : State} {routine : Routine} {r : Registers}
    (hopen : st.current = some (routine, r)) (u : Text) :
    step st (opening ++ u) =
      ⟨st.done, some (routine.add (instruction r (opening ++ u)), r)⟩ := by
  have hempty : (opening ++ u).isEmpty = false := rfl
  have hhead : methodHead.match? (opening ++ u) = none :=
    match?_eq_none_of_mayStart (by decide) (by decide)
  have hresult : moveResultLine.match? (opening ++ u) = none :=
    match?_eq_none_of_mayStart (by decide) (by decide)
  have hend : (opening ++ u).startsWith ".end method" = false := rfl
  have hdirective : (opening ++ u).startsWith "." = false := rfl
  have hlabel : (opening ++ u).startsWith ":" = false := rfl
  simp only [step, hempty, hhead, hopen, hend, hdirective, hlabel, addLine, hresult,
    Bool.false_eq_true, Bool.or_self, if_false]

/-- Without its comment a line ends before its first `#`. -/
theorem withoutComment_opening {indent : Text} (hindent : ∀ c ∈ indent, isBlank c = true)
    (u : Text) : withoutComment (indent ++ (opening ++ u)) =
      opening ++ Text.trimEnd (u.takeWhile (· != '#')) := by
  have hblank : ∀ c ∈ indent, (c != '#') = true := by
    intro c hc
    rw [bne_iff_ne]
    rintro rfl
    exact absurd (hindent '#' hc) (by decide)
  have hmark : ∀ c ∈ opening, (c != '#') = true := by decide +kernel
  have hend : Text.trimEnd opening = opening := by decide +kernel
  have hstart (v : Text) : Text.trimStartOf isBlank (indent ++ (opening ++ v)) = opening ++ v := by
    rw [Text.trimStartOf, List.dropWhile_append_of_pos hindent]
    have hfirst : opening ++ v = 'c' :: (opening.tail ++ v) := rfl
    rw [hfirst, List.dropWhile_cons_of_neg (by decide)]
  rw [withoutComment, Text.fst_cutAt, List.takeWhile_append_of_pos hblank,
    List.takeWhile_append_of_pos hmark, Text.trim, Text.trimOf, hstart]
  refine (Text.trimEnd_append _ _).trans ?_
  split
  · rename_i hnil
    rw [hnil, hend, List.append_nil]
  · rfl

/-- A line that loads a string without a line break or a quote in it is read as that load exactly if
there is no comment mark in the string. -/
theorem step_string_iff {st : State} {routine : Routine} {r : Registers} {indent s : Text}
    (hopen : st.current = some (routine, r)) (hregisters : r.RenamesParams)
    (hindent : ∀ c ∈ indent, isBlank c = true) (hbreak : '\n' ∉ s) (hquote : '\x22' ∉ s) :
    step st (withoutComment (indent ++ (opening ++ (s ++ ['\x22'])))) =
      ⟨st.done, some (routine.add ⟨.load, ["v0", '\x22' :: (s ++ ['\x22'])], [], []⟩, r)⟩ ↔
      '#' ∉ s := by
  rw [withoutComment_opening hindent, step_opening hopen, instruction_opening]
  by_cases hmark : '#' ∈ s
  · have hcut : '\x22' ∉ Text.trimEnd ((s ++ ['\x22']).takeWhile (· != '#')) := by
      obtain ⟨x, y, rfl, hx⟩ := List.eq_append_cons_of_mem hmark
      have hall : ∀ c ∈ x, (c != '#') = true := by
        intro c hc
        rw [bne_iff_ne]
        rintro rfl
        exact hx hc
      rw [List.append_assoc, List.takeWhile_append_of_pos hall, List.cons_append,
        List.takeWhile_cons_of_neg (by decide), List.append_nil]
      obtain ⟨_, hsplit, -⟩ := Text.exists_trimEndOf isBlank x
      intro hmem
      refine hquote (List.mem_append_left _ ?_)
      rw [hsplit]
      exact List.mem_append_left _ hmem
    rw [string?_open r hcut, Option.getD_none]
    refine iff_of_false (fun heq => ?_) (not_not_intro hmark)
    have hadded := congrArg (fun st : State => st.current.map (·.1.instructions)) heq
    have hlast := List.append_cancel_left (Option.some.inj hadded)
    have hopcode : Opcode.unknown = Opcode.load :=
      congrArg Instruction.opcode (List.cons.inj hlast).1
    exact absurd hopcode (by decide)
  · have hall : ∀ c ∈ s ++ ['\x22'], (c != '#') = true := by
      intro c hc
      rw [bne_iff_ne]
      rintro rfl
      rcases List.mem_append.mp hc with hc | hc
      · exact hmark hc
      · exact absurd hc (by decide)
    have hend : Text.trimEnd (s ++ ['\x22']) = s ++ ['\x22'] :=
      (Text.trimEnd_append s ['\x22']).trans (by rfl)
    rw [List.takeWhile_eq_self_iff.mpr hall, hend, string?_closed r hbreak, Option.getD_some,
      hregisters.name_eq (by decide)]
    exact iff_of_true rfl hmark

end HostScript.Listing.Smali

namespace HostScript.Listing.Wat

open Pattern

/-! ### Expressions as they are written -/

/-- The characters of atoms. -/
def isAtomChar : CharSet := outside (isBlank ||| among "()\x22")

/-- An atom that is no string and has no comment mark in it. -/
def IsPlain (t : Text) : Prop := t ≠ [] ∧ ∀ c ∈ t, isAtomChar c = true ∧ c ≠ ';'

/-- A string without quotes and backslashes in it. -/
def IsQuoted (t : Text) : Prop :=
  ∃ s, t = '\x22' :: (s ++ ['\x22']) ∧ ∀ c ∈ s, c ≠ '\x22' ∧ c ≠ '\\'

/-- An expression over such atoms and strings. -/
inductive Writable : Expr → Prop where
  | plain {t : Text} (h : IsPlain t) : Writable (.atom t)
  | quoted {t : Text} (h : IsQuoted t) : Writable (.atom t)
  | list {es : List Expr} (h : ∀ e ∈ es, Writable e) : Writable (.list es)

mutual

/-- The tokens of an expression. -/
def lexemes : Expr → List Text
  | .atom t => [t]
  | .list es => ['('] :: (lexemesOf es ++ [[')']])

/-- The tokens of expressions. -/
def lexemesOf : List Expr → List Text
  | [] => []
  | e :: es => lexemes e ++ lexemesOf es

end

/-- A text with the given tokens, white space around them and between any two atoms that are no
strings. -/
inductive LaidOut : List Text → Text → Prop where
  | nil {b : Text} (blank : ∀ c ∈ b, isBlank c = true) : LaidOut [] b
  | cons {b t rest : Text} {ts : List Text} (blank : ∀ c ∈ b, isBlank c = true)
    (apart : t.head?.any isAtomChar = true → rest.head?.any isAtomChar = false)
    (more : LaidOut ts rest) : LaidOut (t :: ts) (b ++ (t ++ rest))

/-- A token of such an expression. -/
def IsLexeme (t : Text) : Prop := t = ['('] ∨ t = [')'] ∨ IsPlain t ∨ IsQuoted t

theorem IsLexeme.ne_nil {t : Text} (h : IsLexeme t) : t ≠ [] := by
  rcases h with rfl | rfl | h | ⟨s, rfl, -⟩
  · exact List.cons_ne_nil _ _
  · exact List.cons_ne_nil _ _
  · exact h.1
  · exact List.cons_ne_nil _ _

theorem mem_lexemesOf {t : Text} {es : List Expr} :
    t ∈ lexemesOf es ↔ ∃ e ∈ es, t ∈ lexemes e := by
  induction es with
  | nil => simp [lexemesOf]
  | cons e es ih => simp [lexemesOf, ih]

theorem Writable.isLexeme {e : Expr} (h : Writable e) : ∀ t ∈ lexemes e, IsLexeme t := by
  induction h with
  | plain h =>
    rw [lexemes, List.forall_mem_singleton]
    exact Or.inr (Or.inr (Or.inl h))
  | quoted h =>
    rw [lexemes, List.forall_mem_singleton]
    exact Or.inr (Or.inr (Or.inr h))
  | list _ ih =>
    rw [lexemes, List.forall_mem_cons, List.forall_mem_append, List.forall_mem_singleton]
    refine ⟨Or.inl rfl, fun t ht => ?_, Or.inr (Or.inl rfl)⟩
    obtain ⟨e, he, ht⟩ := mem_lexemesOf.mp ht
    exact ih e he t ht

/-! ### Reading tokens -/

section Tokens

variable {t rest : Text} {a : Char}

theorem isAtomChar_of_isBlank (h : isBlank a = true) : isAtomChar a = false := by
  change (!(isBlank a || among "()\x22" a)) = false
  rw [h]
  rfl

theorem refuses_bracket (hopen : a ≠ '(') (hclose : a ≠ ')') (x : Text) :
    (choice ["(", ")"]).Refuses (a :: x) := by
  refine refuses_choice (by simp) ?_
  simp [List.cons_prefix_cons, hopen.symm, hclose.symm]

theorem refuses_token_of_isBlank (h : isBlank a = true) (x : Text) : token.Refuses (a :: x) := by
  have hne (b : Char) (hb : isBlank b = false) : a ≠ b := by
    rintro rfl
    exact Bool.false_ne_true (hb.symm.trans h)
  have hquote : (lit "\x22").Refuses (a :: x) :=
    refuses_text_of_ne (hne '\x22' (by decide)) [] x
  have hatom : (noneOf (isBlank ||| among "()\x22")).Refuses (a :: x) :=
    refuses_one (isAtomChar_of_isBlank h)
  refine (refuses_bracket (hne _ (by decide)) (hne _ (by decide)) x).orElse
    (((hquote.append _).append _).orElse fun k c hc => ?_)
  rw [noneOf, run_plus_one]
  exact hatom _ c hc

theorem takes_string {s : Text} (hs : ∀ c ∈ s, c ≠ '\x22' ∧ c ≠ '\\') (rest : Text) :
    ∃ gs, ("\x22" ++ ("\\" ++ any <|> noneOf (among "\x22\\")).star ++ "\x22" : Pattern).Takes
      ('\x22' :: (s ++ ['\x22'])) rest gs := by
  have hround : ("\\" ++ any <|> noneOf (among "\x22\\") : Pattern).star.Takes s
      ("\x22".toList ++ rest) noGroups := by
    refine takes_star_of_takes (fun u c v huv => ?_) ?_
    · obtain ⟨hquote, hescape⟩ := hs c (huv ▸ by simp)
      have hrefuses : (lit "\\").Refuses ([c] ++ (v ++ ("\x22".toList ++ rest))) :=
        refuses_text_of_ne hescape [] _
      refine Takes.right (hrefuses.append any) (takes_one ?_ _)
      have hcontains : "\x22\\".toList.contains c = false := by
        change (c == '\x22' || (c == '\\' || false)) = false
        simp [hquote, hescape]
      rw [outside, among, hcontains]
      rfl
    · have hescape : (lit "\\").Refuses ("\x22".toList ++ rest) :=
        refuses_text (a := '\\') (by simp) []
      exact (hescape.append any).orElse (refuses_one rfl)
  exact ⟨_, ((takes_text "\x22" _).append hround).append (takes_text "\x22" rest)⟩

theorem IsLexeme.takes (h : IsLexeme t)
    (hrest : t.head?.any isAtomChar = true → rest.head?.any isAtomChar = false) :
    ∃ gs, token.Takes t rest gs := by
  rcases h with rfl | rfl | ⟨hne, hall⟩ | ⟨s, rfl, hs⟩
  · exact ⟨_, (@takes_choice _ [] "(" [")"] nofun).left⟩
  · exact ⟨_, (@takes_choice _ ["("] ")" [] (by simp [List.cons_prefix_cons])).left⟩
  · obtain ⟨a, x, rfl⟩ := List.exists_cons_of_ne_nil hne
    have ha := (hall a List.mem_cons_self).1
    have hmark (b : Char) (hb : isAtomChar b = false) : a ≠ b := by
      rintro rfl
      exact Bool.false_ne_true (hb.symm.trans ha)
    have hquote : (lit "\x22").Refuses (a :: x ++ rest) :=
      refuses_text_of_ne (hmark '\x22' (by decide)) [] _
    exact ⟨_, Takes.right (refuses_bracket (hmark _ (by decide)) (hmark _ (by decide)) _)
      (Takes.right ((hquote.append _).append _)
        (takes_plus hne (fun c hc => (hall c hc).1) (hrest ha)))⟩
  · obtain ⟨gs, htakes⟩ := takes_string hs rest
    exact ⟨gs, Takes.right (refuses_bracket (by decide) (by decide) _) (Takes.left htakes)⟩

/-- The tokens of a text that lays them out are read one after the other. -/
theorem LaidOut.matchesFrom_token {ts : List Text} {y : Text} (h : LaidOut ts y)
    (hts : ∀ t ∈ ts, IsLexeme t) (before : Text) {fuel : Nat} (hfuel : ts.length < fuel)
    (groups : List (Nat × Capture)) :
    (token.matchesFrom (before.reverse ++ y) fuel false ⟨before, y, before.length, groups⟩).map
      (·.text) = ts := by
  have hskip {b : Text} (hb : ∀ c ∈ b, isBlank c = true) (before x : Text) (u : Text) (c : Char)
      (v : Text) (huv : b = u ++ c :: v) :
      token.run some ⟨u.reverse ++ before, c :: v ++ x, before.length + u.length, []⟩ = none :=
    refuses_token_of_isBlank (hb c (huv ▸ by simp)) (v ++ x) _ _ rfl
  induction h generalizing before fuel groups with
  | @nil b hblank =>
    have hcopy := @matchesFrom_append token (before.reverse ++ b) before [] before.length fuel
      groups b (hskip hblank before [])
    rw [List.append_nil] at hcopy
    rw [hcopy, matchesFrom_nil (by decide)]
    rfl
  | @cons b t rest ts hblank hapart _ ih =>
    rw [List.forall_mem_cons] at hts
    obtain ⟨gs, htakes⟩ := hts.1.takes hapart
    obtain ⟨fuel, rfl⟩ : ∃ n, fuel = n + 1 := ⟨fuel - 1, by omega⟩
    have hspare : ts.length < fuel := by
      rw [List.length_cons] at hfuel
      omega
    have hnext := ih hts.2 (t.reverse ++ (b.reverse ++ before)) hspare
      (gs (b.reverse ++ before).length)
    have hlength : before.length + b.length = (b.reverse ++ before).length := by
      simp [Nat.add_comm]
    rw [matchesFrom_append b (hskip hblank before (t ++ rest)), hlength,
      matchesFrom_takes hts.1.ne_nil htakes, List.map_cons]
    have htext : (⟨before.reverse ++ (b ++ (t ++ rest)), (b.reverse ++ before).length,
        (b.reverse ++ before).length + t.length, gs (b.reverse ++ before).length⟩ : Match).text =
          t := by
      have hsubject : before.reverse ++ (b ++ (t ++ rest)) =
          (b.reverse ++ before).reverse ++ (t ++ rest) := by simp
      rw [Match.text, Text.slice, hsubject, ← @List.length_reverse _ (b.reverse ++ before),
        List.take_length_add_append, List.drop_left, List.take_left]
    have hsubject : (t.reverse ++ (b.reverse ++ before)).reverse ++ rest =
        before.reverse ++ (b ++ (t ++ rest)) := by simp
    rw [hsubject] at hnext
    rw [htext, hnext]

/-- A text has at least as many characters as tokens. -/
theorem LaidOut.length_le {ts : List Text} {y : Text} (h : LaidOut ts y)
    (hts : ∀ t ∈ ts, IsLexeme t) : ts.length ≤ y.length := by
  induction h with
  | nil => exact Nat.zero_le _
  | cons _ _ _ ih =>
    rw [List.forall_mem_cons] at hts
    have hpos := List.length_pos_of_ne_nil hts.1.ne_nil
    have hrest := ih hts.2
    simp only [List.length_cons, List.length_append]
    omega

/-- Tokens without comments between them are read as they are. -/
theorem LaidOut.allIn_token {ts : List Text} {y : Text} (h : LaidOut ts y)
    (hts : ∀ t ∈ ts, IsLexeme t) : (token.allIn y).map (·.text) = ts := by
  have hlength := h.length_le hts
  have hfuel : ts.length < 2 * y.length + 2 := by omega
  exact h.matchesFrom_token hts [] hfuel []

end Tokens

/-! ### Reading expressions -/

/-- An atom and what it may be read as: not a bracket. -/
theorem ne_bracket_of_plain_or_quoted {t : Text} (h : IsPlain t ∨ IsQuoted t) :
    t ≠ ['('] ∧ t ≠ [')'] := by
  rcases h with ⟨-, hall⟩ | ⟨s, rfl, -⟩
  · refine ⟨?_, ?_⟩
    all_goals
      rintro rfl
      exact absurd (hall _ (List.mem_singleton_self _)).1 (by decide)
  · exact ⟨fun h => absurd (List.cons.inj h).1 (by decide),
      fun h => absurd (List.cons.inj h).1 (by decide)⟩

section Steps

variable (items next : List Expr) (outer : List (List Expr)) (rest : List Text)

theorem forest_open :
    forest items outer (['('] :: rest) = forest [] (items :: outer) rest := rfl

theorem forest_close : forest items (next :: outer) ([')'] :: rest) =
    forest (.list items.reverse :: next) outer rest := rfl

/-- A closing bracket too many is passed over. -/
theorem forest_close_nil : forest items [] ([')'] :: rest) = forest items [] rest := rfl

theorem forest_atom {t : Text} (hopen : t ≠ ['(']) (hclose : t ≠ [')']) :
    forest items outer (t :: rest) = forest (.atom t :: items) outer rest := by
  rw [forest.eq_def]
  dsimp only
  rw [if_neg (by simpa using hopen), if_neg (by simpa using hclose)]

end Steps

/-- Expressions whose tokens are read back one by one are read back together. -/
theorem forest_row {es : List Expr}
    (h : ∀ e ∈ es, ∀ items outer rest, forest items outer (lexemes e ++ rest) =
      forest (e :: items) outer rest) (items : List Expr) (outer : List (List Expr))
    (rest : List Text) :
    forest items outer (lexemesOf es ++ rest) = forest (es.reverse ++ items) outer rest := by
  induction es generalizing items with
  | nil => rfl
  | cons e es ih =>
    rw [List.forall_mem_cons] at h
    rw [lexemesOf, List.append_assoc, h.1, ih h.2, List.reverse_cons, List.append_assoc]
    rfl

/-- The tokens of an expression are read back as that expression. -/
theorem Writable.forest_lexemes {e : Expr} (h : Writable e) (items : List Expr)
    (outer : List (List Expr)) (rest : List Text) :
    forest items outer (lexemes e ++ rest) = forest (e :: items) outer rest := by
  induction h generalizing items outer rest with
  | plain h =>
    obtain ⟨hopen, hclose⟩ := ne_bracket_of_plain_or_quoted (Or.inl h)
    exact forest_atom items outer rest hopen hclose
  | quoted h =>
    obtain ⟨hopen, hclose⟩ := ne_bracket_of_plain_or_quoted (Or.inr h)
    exact forest_atom items outer rest hopen hclose
  | @list es _ ih =>
    rw [lexemes, List.cons_append, List.append_assoc, forest_open, forest_row ih, List.append_nil,
      List.singleton_append, forest_close, List.reverse_reverse]

/-- Expressions laid out without comments between them are read back. -/
theorem forest_lexemesOf {es : List Expr} (h : ∀ e ∈ es, Writable e) :
    forest [] [] (lexemesOf es) = es := by
  have hread := forest_row (fun e he => (h e he).forest_lexemes) [] [] []
  rw [List.append_nil, List.append_nil] at hread
  rw [hread, forest, closeAll, List.reverse_reverse]

/-! ### Counting comment marks -/

/-- The number of semicolons in an expression. -/
def semicolons (e : Expr) : Nat := List.count ';' (lexemes e).flatten

/-- The number of semicolons in expressions. -/
def semicolonsOf (es : List Expr) : Nat := (es.map semicolons).sum

theorem count_lexemesOf (es : List Expr) :
    List.count ';' (lexemesOf es).flatten = semicolonsOf es := by
  induction es with
  | nil => rfl
  | cons e es ih =>
    rw [lexemesOf, List.flatten_append, List.count_append, ih]
    rfl

theorem semicolons_list (es : List Expr) : semicolons (.list es) = semicolonsOf es := by
  simp [semicolons, lexemes, count_lexemesOf]

theorem semicolonsOf_cons (e : Expr) (es : List Expr) :
    semicolonsOf (e :: es) = semicolons e + semicolonsOf es := rfl

theorem semicolonsOf_reverse (es : List Expr) : semicolonsOf es.reverse = semicolonsOf es := by
  rw [semicolonsOf, List.map_reverse, List.sum_reverse, semicolonsOf]

theorem semicolonsOf_closeAll (items : List Expr) (outer : List (List Expr)) :
    semicolonsOf (closeAll items outer) = semicolonsOf items + (outer.map semicolonsOf).sum := by
  induction outer generalizing items with
  | nil => rw [closeAll, semicolonsOf_reverse]; rfl
  | cons next outer ih =>
    rw [closeAll, ih, semicolonsOf_cons, semicolons_list, semicolonsOf_reverse, List.map_cons,
      List.sum_cons]
    omega

/-- What is read has the semicolons of its tokens. -/
theorem semicolonsOf_forest (items : List Expr) (outer : List (List Expr)) (ts : List Text) :
    semicolonsOf (forest items outer ts) =
      semicolonsOf items + (outer.map semicolonsOf).sum + List.count ';' ts.flatten := by
  induction ts generalizing items outer with
  | nil => rw [forest, semicolonsOf_closeAll]; rfl
  | cons t ts ih =>
    rw [List.flatten_cons, List.count_append]
    by_cases hopen : t = ['(']
    · subst hopen
      have hnone : List.count ';' ['('] = 0 := by decide
      rw [forest_open, ih, hnone, List.map_cons, List.sum_cons]
      simp only [semicolonsOf, List.map_nil, List.sum_nil]
      omega
    by_cases hclose : t = [')']
    · subst hclose
      have hnone : List.count ';' [')'] = 0 := by decide
      rw [hnone]
      cases outer with
      | nil => rw [forest_close_nil, ih, Nat.zero_add]
      | cons next outer =>
        rw [forest_close, ih, semicolonsOf_cons, semicolons_list, semicolonsOf_reverse,
          List.map_cons, List.sum_cons]
        omega
    · have hatom : semicolons (.atom t) = List.count ';' t := by simp [semicolons, lexemes]
      rw [forest_atom items outer ts hopen hclose, ih, semicolonsOf_cons, hatom]
      omega

/-- A text has the semicolons of the tokens that it lays out. -/
theorem LaidOut.count_semicolon {ts : List Text} {y : Text} (h : LaidOut ts y) :
    List.count ';' y = List.count ';' ts.flatten := by
  have hblank {b : Text} (hb : ∀ c ∈ b, isBlank c = true) : List.count ';' b = 0 :=
    List.count_eq_zero.mpr fun hmem => absurd (hb ';' hmem) (by decide)
  induction h with
  | nil hb => rw [hblank hb]; rfl
  | cons hb _ _ ih =>
    rw [List.count_append, List.count_append, hblank hb, ih, List.flatten_cons,
      List.count_append, Nat.zero_add]

/-! ### Comments -/

/-- What is left of a text without its fits, and the fits, have its semicolons. -/
theorem count_erase (p : Pattern) (t : Text) :
    List.count ';' (p.erase t) + List.count ';' ((p.allIn t).flatMap (·.text)) =
      List.count ';' t :=
  (fitsFrom_allIn p t).count_splice (Nat.zero_le _) ';'

/-- Taking out comments takes out their semicolons. -/
theorem count_erase_lt {p : Pattern} (hp : p.Needs [';']) {t : Text} (h : p.allIn t ≠ []) :
    List.count ';' (p.erase t) < List.count ';' t := by
  obtain ⟨m, ms, hms⟩ := List.exists_cons_of_ne_nil h
  have hm : m ∈ p.allIn t := hms ▸ List.mem_cons_self
  obtain ⟨gs, hspells, -⟩ := spells_of_mem_allIn hm
  have hmem : ';' ∈ m.text := (hp _ _ hspells).subset (List.mem_singleton_self _)
  have hpos : 0 < List.count ';' m.text := List.count_pos_iff.mpr hmem
  have hsum := count_erase p t
  rw [hms, List.flatMap_cons, List.count_append] at hsum
  omega

theorem needs_lineComment : lineComment.Needs ";;" := (needs_lit (List.infix_refl _)).left

theorem needs_lineComment_semicolon : lineComment.Needs [';'] :=
  (needs_lit (s := ";;") ⟨[';'], [], rfl⟩).left

theorem needs_blockComment : blockComment.Needs [';'] :=
  (needs_lit (s := "(;") ⟨['('], [], rfl⟩).left.left

/-- A comment up to the end of its line is found where one starts. -/
theorem allIn_lineComment_ne_nil {t : Text} (h : ";;" <:+: t) : lineComment.allIn t ≠ [] := by
  obtain ⟨u, v, rfl⟩ := h
  have hrun : (lineComment.run some (placeAt (u ++ ";;".toList ++ v) u.length)).isSome = true := by
    have hafter : (placeAt (u ++ ";;".toList ++ v) u.length).after = ";;".toList ++ v := by
      rw [placeAt, List.append_assoc, List.drop_left]
    refine isSome_run_text_iff.mpr ⟨hafter ▸ List.prefix_append _ v, ?_⟩
    exact isSome_run_star_one_iff.mpr ⟨[], List.nil_prefix, List.forall_mem_nil _, rfl⟩
  obtain ⟨m, hm, -⟩ := exists_mem_allIn_of_run (by decide) (by simp) hrun
  exact List.ne_nil_of_mem hm

/-- A comment between brackets is found where one is. -/
theorem allIn_blockComment_ne_nil {t x : Text} (h : "(;".toList ++ (x ++ ";)".toList) <:+: t) :
    blockComment.allIn t ≠ [] := by
  obtain ⟨u, v, rfl⟩ := h
  have hrun : (blockComment.run some
      (placeAt (u ++ ("(;".toList ++ (x ++ ";)".toList)) ++ v) u.length)).isSome = true := by
    have hafter : (placeAt (u ++ ("(;".toList ++ (x ++ ";)".toList)) ++ v) u.length).after =
        "(;".toList ++ (x ++ (";)".toList ++ v)) := by
      rw [placeAt, List.append_assoc, List.drop_left, List.append_assoc, List.append_assoc]
    have hinner := Cursor.after_behind hafter noGroups
    refine isSome_run_text_iff.mpr ⟨hafter ▸ List.prefix_append _ _, ?_⟩
    refine isSome_run_starLazy_one (fun _ _ => rfl) hinner (isSome_run_text_iff.mpr ⟨?_, rfl⟩)
    have hbehind := Cursor.after_behind hinner noGroups
    exact hbehind ▸ List.prefix_append _ v
  obtain ⟨m, hm, -⟩ := exists_mem_allIn_of_run (by decide) (by simp) hrun
  exact List.ne_nil_of_mem hm

/-- A text has no comment in it, in strings or elsewhere. -/
def LacksComments (t : Text) : Prop :=
  ¬ ";;" <:+: t ∧ ∀ x, ¬ "(;".toList ++ (x ++ ";)".toList) <:+: t

theorem tokens_of_lacksComments {t : Text} (h : LacksComments t) :
    tokens t = (token.allIn t).map (·.text) := by
  have hline : lineComment.erase t = t := needs_lineComment.replace_eq h.1 _
  have hblock : blockComment.Misses t := by
    intro x gs hx hin
    obtain ⟨y, rfl, hy⟩ := hx.of_append_lit
    obtain ⟨_, z, _, _, rfl, -, hy, -⟩ := spells_append_iff.mp hy
    obtain ⟨rfl, -⟩ := spells_lit_iff.mp hy
    rw [List.append_assoc] at hin
    exact h.2 z hin
  have hblock : blockComment.erase t = t := hblock.replace_eq _
  rw [tokens, hline, hblock]

/-- Expressions that are laid out are read back exactly if there is no comment in the text. -/
theorem parse_laidOut_iff {es : List Expr} {t : Text} (hes : ∀ e ∈ es, Writable e)
    (h : LaidOut (lexemesOf es) t) : parse t = es ↔ LacksComments t := by
  have hlexemes : ∀ u ∈ lexemesOf es, IsLexeme u := by
    intro u hu
    obtain ⟨e, he, hu⟩ := mem_lexemesOf.mp hu
    exact (hes e he).isLexeme u hu
  constructor
  · intro hparse
    have hread : semicolonsOf es = List.count ';' (tokens t).flatten := by
      conv_lhs => rw [← hparse, parse, semicolonsOf_forest]
      simp [semicolonsOf]
    have htext : List.count ';' t = semicolonsOf es := by
      rw [h.count_semicolon, count_lexemesOf]
    have htokens := count_erase token (blockComment.erase (lineComment.erase t))
    have hline := count_erase lineComment t
    have hblock := count_erase blockComment (lineComment.erase t)
    rw [List.flatMap_def] at htokens
    rw [tokens] at hread
    refine ⟨fun hin => ?_, fun x hin => ?_⟩
    · have := count_erase_lt (needs_lineComment_semicolon) (allIn_lineComment_ne_nil hin)
      omega
    · by_cases hnone : ";;" <:+: t
      · have := count_erase_lt (needs_lineComment_semicolon) (allIn_lineComment_ne_nil hnone)
        omega
      · have hsame : lineComment.erase t = t := needs_lineComment.replace_eq hnone _
        rw [hsame] at hread hblock htokens
        have := count_erase_lt needs_blockComment (allIn_blockComment_ne_nil hin)
        omega
  · intro hlacks
    rw [parse, tokens_of_lacksComments hlacks, h.allIn_token hlexemes, forest_lexemesOf hes]

end HostScript.Listing.Wat

/-! ## Both formats -/

namespace HostScript.Listing

/-- Wherever a method is open, a line that loads a string is read as that load exactly if the string
has no comment mark in it. Expressions that are laid out in a text are read back from it exactly if
there is no comment in the text. -/
theorem strings_kept_iff (before : List Text) (es : List Wat.Expr) (t : Text) :
    (∀ (st : Smali.State) (routine : Routine) (r : Smali.Registers),
      (before.map Smali.withoutComment).foldl Smali.step ⟨[], none⟩ = st →
      st.current = some (routine, r) → ∀ indent s : Text, (∀ c ∈ indent, isBlank c = true) →
      '\n' ∉ s → '\x22' ∉ s →
      (Smali.step st
          (Smali.withoutComment (indent ++ (Smali.opening ++ (s ++ ['\x22'])))) =
        ⟨st.done, some (routine.add ⟨.load, ["v0", '\x22' :: (s ++ ['\x22'])], [], []⟩, r)⟩ ↔
        '#' ∉ s)) ∧
    ((∀ e ∈ es, Wat.Writable e) → Wat.LaidOut (Wat.lexemesOf es) t →
      (Wat.parse t = es ↔ Wat.LacksComments t)) := by
  refine ⟨?_, fun hes ht => Wat.parse_laidOut_iff hes ht⟩
  rintro st routine r rfl hopen indent s hindent hbreak hquote
  have hfresh : ∀ m ∈ (⟨[], none⟩ : Smali.State).current, m.2.RenamesParams := nofun
  have hregisters := Smali.renamesParams_foldl hfresh (before.map Smali.withoutComment)
    (routine, r) hopen
  exact Smali.step_string_iff hopen hregisters hindent hbreak hquote

/-- A text with one expression in it, a list of an atom and a string. -/
def pairText : Text := "(a \x22b\x22)"

theorem strings_kept_iff_pair :
    (∃ st routine r,
      [Smali.withoutComment ".method public f()V"].foldl Smali.step ⟨[], none⟩ = st ∧
      st.current = some (routine, r) ∧
      Smali.step st (Smali.withoutComment ("  " ++ (Smali.opening ++ ("hi" ++ ['\x22'])))) =
        ⟨st.done, some (routine.add ⟨.load, ["v0", "\x22hi\x22"], [], []⟩, r)⟩) ∧
    Wat.parse pairText = [.list [.atom "a", .atom "\x22b\x22"]] := by
  obtain ⟨hload, hread⟩ := strings_kept_iff [".method public f()V"]
    [.list [.atom "a", .atom "\x22b\x22"]] pairText
  refine ⟨?_, ?_⟩
  · have hopen : ([Smali.withoutComment ".method public f()V"].foldl Smali.step
        ⟨[], none⟩).current.isSome = true := by decide +kernel
    obtain ⟨⟨routine, r⟩, hopen⟩ := Option.isSome_iff_exists.mp hopen
    exact ⟨_, routine, r, rfl, hopen, (hload _ routine r rfl hopen "  " "hi"
      (by decide) (by decide) (by decide)).mpr (by decide)⟩
  · have htext : pairText = [] ++ (['('] ++ ([] ++ (['a'] ++ ([' '] ++ ("\x22b\x22".toList ++
        ([] ++ ([')'] ++ []))))))) := by decide +kernel
    have hquoted : Wat.IsQuoted "\x22b\x22" := ⟨['b'], by decide +kernel, by decide⟩
    have hplain : Wat.IsPlain "a" := ⟨by decide, by decide⟩
    refine (hread ?_ ?_).mpr ⟨by decide, fun x h => ?_⟩
    · rw [List.forall_mem_singleton]
      refine .list ?_
      rw [List.forall_mem_cons, List.forall_mem_singleton]
      exact ⟨.plain hplain, .quoted hquoted⟩
    · rw [htext]
      exact .cons nofun nofun (.cons nofun (fun _ => rfl) (.cons (by decide) nofun
        (.cons nofun nofun (.nil nofun))))
    · have hstart : "(;".toList <:+: pairText := (List.prefix_append _ _).isInfix.trans h
      exact absurd hstart (by decide)

/-- A method that loads a string with a comment mark in it. -/
def markedText : Text :=
  ".method public f()V\nconst-string v0, \x22a#b\x22\n.end method"

/-- A string is cut at a comment mark in it, and what stands between two strings is lost with the
marks in them. -/
theorem strings_not_kept :
    Smali.read markedText =
      [⟨"f", [], [⟨.unknown, [], [], "const-string v0, \x22a"⟩], []⟩] ∧
    Wat.parse "(\x22a;;b\x22)" = [.list [.atom "a"]] ∧
    Wat.parse "(\x22(;\x22 \x22;)\x22)" = [.list [.atom "\x22\x22"]] := by
  have hline : Wat.tokens "(\x22a;;b\x22)" = ["(", "a"].map String.toList := by decide +kernel
  have hblock : Wat.tokens "(\x22(;\x22 \x22;)\x22)" =
      ["(", "\x22\x22", ")"].map String.toList := by
    decide +kernel
  refine ⟨by decide +kernel, ?_, ?_⟩
  · rw [Wat.parse, hline]
    rfl
  · rw [Wat.parse, hblock]
    rfl

end HostScript.Listing
