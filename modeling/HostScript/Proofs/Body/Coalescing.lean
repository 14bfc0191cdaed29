import HostScript.Proofs.Body.SwiftOptionals
import HostScript.Proofs.Pattern.Found
import HostScript.Proofs.Script.Expression

/-!
# Default values of optional ones

The operator `??` binds tighter than comparisons and logical operators. The script form of a chain
`a ?? b ?? c < d` finds the first operand of each default operator by reading backwards over a
word, but the second one by reading up to the next separator, so an operator behind the chain ends
up in the innermost conditional. It stays outside when the chain stands in brackets.
-/

namespace HostScript.Body.Swift

open Pattern Script

/-! ### Chains -/

/-- An operand: a name or a numeral. The words that stand between a value and its type are none. -/
structure IsOperand (t : Text) : Prop where
  nonempty : t ≠ []
  word : ∀ c ∈ t, isIdentPart c = true
  notCast : ¬ HasWord "as" t
  notTest : ¬ HasWord "is" t

/-- A chain of a value and its defaults. -/
def chain (a : Text) : List Text → Text
  | [] => a
  | b :: bs => a ++ " ?? " ++ chain b bs

/-- The script form of a chain after a number of turns, with what stands behind the chain in the
innermost place. -/
def phrased (behind : Text) : (turns : Nat) → Text → List Text → Text
  | turns + 1, a, b :: bs =>
    "(" ++ a ++ " != null ? " ++ a ++ " : " ++ phrased behind turns b bs ++ ")"
  | _, a, bs => chain a bs ++ behind

/-! ### One turn -/

section Turn

variable {x y : Text}

/-- White space in front of a text that is not all white space ends in the text. -/
theorem exists_of_blank_prefix {b v r : Text} (hv : ∃ d ∈ v, isBlank d = false)
    (hb : ∀ c ∈ b, isBlank c = true) (h : b <+: v ++ r) : ∃ c w, v = b ++ c :: w := by
  obtain ⟨d, hd, hsolid⟩ := hv
  have hnotMem : d ∉ b := fun hmem => Bool.false_ne_true (hsolid.symm.trans (hb d hmem))
  rcases List.prefix_or_prefix_of_prefix h (List.prefix_append v r) with ⟨w, rfl⟩ | hvb
  · cases w with
    | nil => exact absurd (List.append_nil b ▸ hd) hnotMem
    | cons c w => exact ⟨c, w, rfl⟩
  · exact absurd (hvb.mem hd) hnotMem

/-- A text that does not end in white space. -/
def EndsSolid (x : Text) : Prop := ∃ u c, x = u ++ [c] ∧ isBlank c = false

theorem EndsSolid.exists_mem {u v : Text} (h : EndsSolid (u ++ v)) (hv : v ≠ []) :
    ∃ d ∈ v, isBlank d = false := by
  obtain ⟨v, d, rfl⟩ := (List.eq_nil_or_concat' v).resolve_left hv
  obtain ⟨w, c, heq, hc⟩ := h
  rw [← List.append_assoc] at heq
  obtain ⟨-, hd⟩ := List.append_inj' heq rfl
  obtain rfl := (List.cons.inj hd).1
  exact ⟨d, by simp, hc⟩

/-- The first default operator stands where the first double question mark does. -/
theorem search?_coalescing (hx : EndsSolid x) (hno : ¬ "??".toList <:+: x)
    (hy : y.head?.any isBlank = false) :
    coalescing.search? (x ++ (" ?? ".toList ++ y)) =
      some ⟨x ++ (" ?? ".toList ++ y), x.length, x.length + 4, []⟩ := by
  have hearlier : ∀ u d v, x = u ++ d :: v → coalescing.run some
      ⟨u.reverse ++ [], d :: v ++ (" ?? ".toList ++ y), 0 + u.length, []⟩ = none := by
    intro u d v hsplit
    rw [Option.eq_none_iff_forall_ne_some]
    intro e he
    obtain ⟨b, hb, hblank, hmark⟩ := (isSome_run_star_one_iff (s := isBlank)).mp
      (Option.isSome_of_eq_some he)
    obtain ⟨a, w, hw⟩ := exists_of_blank_prefix
      (EndsSolid.exists_mem (hsplit ▸ hx) (List.cons_ne_nil d v)) hblank hb
    have hnext : ['?', '?'] <+: _ := (isSome_run_text_iff.mp hmark).1
    simp only [Cursor.advance, hw, List.append_assoc, List.drop_left, List.cons_append] at hnext
    obtain ⟨rfl, hsecond⟩ := List.cons_prefix_cons.mp hnext
    cases w with
    | nil => exact absurd (List.cons_prefix_cons.mp hsecond).1 (by decide)
    | cons a w =>
      obtain ⟨rfl, -⟩ := List.cons_prefix_cons.mp hsecond
      exact hno ⟨u ++ b, w, by rw [hsplit, hw]; simp⟩
  have hhere : coalescing.run some ⟨x.reverse ++ [], " ?? ".toList ++ y, 0 + x.length, []⟩ =
      some (Cursor.behind ⟨x.reverse ++ [], " ?? ".toList ++ y, 0 + x.length, []⟩ " ?? ".toList
        noGroups) := by
    have htakes : coalescing.Takes ([' '] ++ "??".toList ++ [' ']) y noGroups :=
      ((takes_star (by decide) rfl).append (takes_text _ _)).append (takes_star (by decide) hy)
    exact htakes some _ _ rfl rfl
  have hsearch := searchFrom_append x hearlier
  rw [searchFrom_of_run hhere] at hsearch
  rw [search?, searchAt?]
  simp only [Cursor.atOffset, List.take_zero, List.reverse_nil, List.drop_zero, Nat.zero_min]
  rw [hsearch]
  simp [Match.ofCursors, Cursor.behind, Cursor.advance, noGroups]

/-- The separators that end a default. -/
def isSeparator : CharSet := among ",;)]\x7d\n"

/-- Nothing but white space and a separator, or the end, stands ahead of a default that is over. -/
theorem refuses_default {v : Text} (hv : ∃ d ∈ v, isBlank d = false)
    (hsep : ∀ c ∈ v, isSeparator c = false) :
    (blanks ++ (oneOf isSeparator <|> textEnd)).Refuses (v ++ y) := by
  intro k c hc
  rw [Option.eq_none_iff_forall_ne_some]
  intro e he
  obtain ⟨b, hb, hblank, hend⟩ := (isSome_run_star_one_iff (s := isBlank)).mp
    (Option.isSome_of_eq_some he)
  rw [hc] at hb
  obtain ⟨a, w, rfl⟩ := exists_of_blank_prefix hv hblank hb
  have ha : isSeparator a = false := hsep a (by simp)
  have hafter : (c.advance b.length).after = a :: (w ++ y) := by simp [Cursor.advance, hc]
  rcases isSome_run_orElse_iff.mp hend with hone | hstop
  · obtain ⟨a', _, heq, ha', -⟩ := isSome_run_one_iff.mp hone
    rw [hafter] at heq
    rw [← (List.cons.inj heq).1, ha] at ha'
    cases ha'
  · have honEnd : (c.advance b.length).onEnd = true := by
      by_contra hno
      have hrun : textEnd.run k (c.advance b.length) = none := if_neg hno
      rw [hrun] at hstop
      cases hstop
    simp only [Cursor.onEnd, hafter, List.isEmpty_cons, Bool.false_or, beq_iff_eq] at honEnd
    rw [(List.cons.inj honEnd).1] at ha
    cases ha

/-- A bracket or the end stands ahead of itself. -/
theorem run_over (hy : y = [] ∨ ∃ r, y = ')' :: r) {d : Cursor} (hd : d.after = y) :
    ((blanks ++ (oneOf isSeparator <|> textEnd)).run some d).map (·.groups) = some d.groups := by
  have hstar (hblank : d.after.head?.any isBlank = false) :
      (blanks ++ (oneOf isSeparator <|> textEnd)).run some d =
        (oneOf isSeparator <|> textEnd).run some d := run_star_one_stop hblank
  rcases hy with rfl | ⟨r, rfl⟩
  · have hend : textEnd.run some d = some d := if_pos (by rw [Cursor.onEnd, hd]; rfl)
    have hnone : (oneOf isSeparator).run some d = none := refuses_one rfl _ _ hd
    rw [hstar (by rw [hd]; rfl), run_orElse, hnone]
    simp only [Fit.orTry, hend, Option.map_some]
  · have hone : (oneOf isSeparator).run some d = some (d.advance 1) := by
      rw [oneOf, run_one, hd]
      rfl
    rw [hstar (by rw [hd]; rfl), run_orElse, hone]
    rfl

/-- The default that is read reaches up to the bracket behind it, or to the end. -/
theorem match?_defaultValue (hne : x ≠ []) (hx : EndsSolid x)
    (hsep : ∀ c ∈ x, isSeparator c = false) (hy : y = [] ∨ ∃ r, y = ')' :: r) :
    (defaultValue.match? (x ++ y)).map (·.group 1) = some x := by
  let start : Cursor := ⟨[], x ++ y, 0, []⟩
  let filled (d : Cursor) : Cursor := { d with groups := (1, ⟨0, start.textTo d⟩) :: d.groups }
  let k (d : Cursor) : Option Cursor :=
    (isAhead (blanks ++ (oneOf isSeparator <|> textEnd))).run some (filled d)
  have hk (d : Cursor) : k d =
      ((blanks ++ (oneOf isSeparator <|> textEnd)).run some (filled d)).map fun e =>
        { filled d with groups := e.groups } := by
    dsimp only [k, isAhead, Pattern.run]
    cases (blanks ++ (oneOf isSeparator <|> textEnd)).run some (filled d) <;> rfl
  have hrun : defaultValue.run some start = some (filled (start.advance x.length)) := by
    refine run_plusLazy_one (s := outside isSeparator) (k := k) hne ?_ rfl ?_ ?_
    · intro c hc
      rw [outside, hsep c hc]
      rfl
    · rintro u v rfl - hv
      have hrefuses := refuses_default (y := y) (EndsSolid.exists_mem hx hv)
        (fun c hc => hsep c (List.mem_append_right u hc)) some (filled (start.advance u.length))
        (by simp [filled, start, Cursor.advance])
      rw [hk, hrefuses]
      rfl
    · have hover := run_over hy (d := filled (start.advance x.length))
        (by simp [filled, start, Cursor.advance])
      obtain ⟨e, he, hgroups⟩ := Option.map_eq_some_iff.mp hover
      rw [hk, he, Option.map_some, hgroups]
  have hmatch : defaultValue.match? (x ++ y) =
      some (Match.ofCursors (x ++ y) start (filled (start.advance x.length))) := by
    rw [match?, matchAt?]
    have hstart : Cursor.atOffset (x ++ y) 0 = start := by simp [Cursor.atOffset, start]
    rw [hstart, hrun]
    rfl
  rw [hmatch]
  simp [Match.group, Match.group?, Match.ofCursors, filled, start, Cursor.textTo, Cursor.advance]

/-- An operand that is read backwards ends where a bracket, white space or the start stands. -/
theorem operandLength_word {a pre : Text} (ha : ∀ c ∈ a, isIdentPart c = true)
    (hpre : operandLength 0 pre = 0) : operandLength 0 (a ++ pre) = a.length := by
  induction a with
  | nil => exact hpre
  | cons c a ih =>
    rw [List.forall_mem_cons] at ha
    have hclose : (c == ')' || c == ']') = false := by
      refine Bool.eq_false_iff.mpr fun h => ?_
      have hcases : c = ')' ∨ c = ']' := by simpa using h
      rcases hcases with rfl | rfl
      · exact absurd ha.1 (by decide)
      · exact absurd ha.1 (by decide)
    have hpart : (isAlnum c || c == '_' || c == '$' || c == '.') = true := by
      have hword : (isAlnum c || c == '_' || c == '$') = true := ha.1
      rw [hword]
      rfl
    rw [List.cons_append, operandLength, hclose, hpart, if_neg Bool.false_ne_true, if_pos rfl,
      ih ha.2, List.length_cons, Nat.add_comm]

/-- Where a chain can start: no operand ends there, and no default operator is left before it. -/
structure IsStart (pre : Text) : Prop where
  stop : operandLength 0 pre.reverse = 0
  noDefault : ¬ "??".toList <:+: pre

/-- Without a question mark behind it, a text has no more default operators. -/
theorem not_infix_append {pre t : Text} (hpre : ¬ "??".toList <:+: pre) (ht : '?' ∉ t) :
    ¬ "??".toList <:+: pre ++ t := by
  intro h
  rcases List.infix_append_iff_ne_nil.mp h with h | h | ⟨u, v, -, hv, huv, -, hstart⟩
  · exact hpre h
  · exact ht (h.subset (by decide))
  · obtain ⟨c, v, rfl⟩ := List.exists_cons_of_ne_nil hv
    have hc : c ∈ "??".toList := huv ▸ List.mem_append_right u (List.mem_cons_self ..)
    obtain rfl : c = '?' := by simpa using hc
    exact ht (hstart.subset (List.mem_cons_self ..))

/-- One turn puts a test around a value and everything up to the end of its surroundings. -/
theorem nilCoalescing_step {pre a right post : Text} (hpre : IsStart pre) (ha : IsOperand a)
    (hne : right ≠ []) (hright : EndsSolid right) (hstart : right.head?.any isBlank = false)
    (hsep : ∀ c ∈ right, isSeparator c = false) (hpost : post = [] ∨ ∃ r, post = ')' :: r)
    (turns : Nat) :
    nilCoalescing (turns + 1) (pre ++ a ++ (" ?? ".toList ++ (right ++ post))) =
      nilCoalescing turns
        (pre ++ ("(" ++ a ++ " != null ? " ++ a ++ " : " ++ right ++ ")") ++ post) := by
  have hquestion : '?' ∉ a := fun h => absurd (ha.word '?' h) (by decide)
  have hsolid : EndsSolid (pre ++ a) := by
    obtain ⟨u, c, rfl⟩ := (List.eq_nil_or_concat' a).resolve_left ha.nonempty
    exact ⟨pre ++ u, c, (List.append_assoc ..).symm, isBlank_of_isIdentPart (ha.word c (by simp))⟩
  have hhead : (right ++ post).head?.any isBlank = false := by
    rwa [List.head?_append_of_ne_nil right hne]
  have hsearch := search?_coalescing hsolid (not_infix_append hpre.noDefault hquestion) hhead
  have hoperand : operandStart (pre ++ a ++ (" ?? ".toList ++ (right ++ post))) (pre ++ a).length =
      pre.length := by
    have hword : ∀ c ∈ a.reverse, isIdentPart c = true :=
      fun c hc => ha.word c (List.mem_reverse.mp hc)
    rw [operandStart, List.take_left, List.reverse_append, operandLength_word hword hpre.stop,
      List.length_reverse, List.length_append, Nat.add_sub_cancel]
  have hleft : Text.slice (pre ++ a ++ (" ?? ".toList ++ (right ++ post))) pre.length
      (pre ++ a).length = a := by
    rw [Text.slice, List.take_left, List.drop_left]
  have hbefore : (pre ++ a ++ (" ?? ".toList ++ (right ++ post))).take pre.length = pre := by
    rw [List.append_assoc, List.take_left]
  have hafter (n : Nat) : (pre ++ a ++ (" ?? ".toList ++ (right ++ post))).drop
      ((pre ++ a).length + 4 + n) = (right ++ post).drop n := by
    have hmark : (" ?? ".toList : Text).length = 4 := rfl
    rw [Nat.add_assoc, List.drop_length_add_append, ← hmark, List.drop_length_add_append]
  have hdefault := match?_defaultValue hne hright hsep hpost
  have htrim : right.trim = right := by
    refine Text.trim_eq_self (fun c hc => ?_) fun c hc => ?_
    · rw [Option.mem_def.mp hc] at hstart
      exact hstart
    · obtain ⟨u, d, rfl, hd⟩ := hright
      obtain rfl : d = c := by simpa using hc
      exact hd
  rw [nilCoalescing, hsearch]
  dsimp only
  rw [hoperand, hleft, hbefore, Match.after]
  dsimp only
  rw [← Nat.add_zero ((pre ++ a).length + 4), hafter, List.drop_zero, hdefault, Option.getD_some,
    htrim, Nat.add_zero, hafter, List.drop_left]
  simp only [List.append_assoc]

end Turn

/-! ### All turns -/

section Turns

variable {a behind : Text} {bs : List Text}

/-- What can stand behind a chain: no further default operator and no separator. -/
structure IsRest (behind : Text) : Prop where
  noMark : '?' ∉ behind
  noSeparator : ∀ c ∈ behind, isSeparator c = false
  solid : behind = [] ∨ EndsSolid behind

theorem EndsSolid.append_left {x : Text} (h : EndsSolid x) (u : Text) : EndsSolid (u ++ x) := by
  obtain ⟨v, c, rfl, hc⟩ := h
  exact ⟨u ++ v, c, (List.append_assoc ..).symm, hc⟩

theorem IsOperand.endsSolid (ha : IsOperand a) : EndsSolid a := by
  obtain ⟨u, c, rfl⟩ := (List.eq_nil_or_concat' a).resolve_left ha.nonempty
  exact ⟨u, c, rfl, isBlank_of_isIdentPart (ha.word c (by simp))⟩

theorem IsOperand.head?_any (ha : IsOperand a) (t : Text) :
    (a ++ t).head?.any isBlank = false := by
  obtain ⟨c, u, rfl⟩ := List.exists_cons_of_ne_nil ha.nonempty
  exact isBlank_of_isIdentPart (ha.word c (by simp))

theorem chain_eq (a : Text) (bs : List Text) : ∃ t, chain a bs = a ++ t := by
  cases bs with
  | nil => exact ⟨[], (List.append_nil a).symm⟩
  | cons b bs => exact ⟨" ?? ".toList ++ chain b bs, by simp [chain]⟩

theorem endsSolid_chain (h : ∀ t ∈ a :: bs, IsOperand t) : EndsSolid (chain a bs) := by
  induction bs generalizing a with
  | nil => exact (h a (List.mem_singleton_self a)).endsSolid
  | cons b bs ih => exact (ih (List.forall_mem_cons.mp h).2).append_left _

/-- A chain is made of words, blanks and question marks. -/
theorem of_mem_chain (h : ∀ t ∈ a :: bs, IsOperand t) {c : Char} (hc : c ∈ chain a bs) :
    isIdentPart c = true ∨ c = ' ' ∨ c = '?' := by
  induction bs generalizing a with
  | nil => exact Or.inl ((h a (List.mem_singleton_self a)).word c hc)
  | cons b bs ih =>
    rw [List.forall_mem_cons] at h
    simp only [chain, List.append_assoc, List.mem_append] at hc
    rcases hc with hc | hc | hc
    · exact Or.inl (h.1.word c hc)
    · have hmarks : ∀ d ∈ " ?? ".toList, d = ' ' ∨ d = '?' := by decide
      exact Or.inr (hmarks c hc)
    · exact ih h.2 hc

theorem notMem_chain (h : ∀ t ∈ a :: bs, IsOperand t) {c : Char}
    (hc : isIdentPart c = false ∧ c ≠ ' ' ∧ c ≠ '?') : c ∉ chain a bs := by
  intro hmem
  rcases of_mem_chain h hmem with hword | hblank | hmark
  · exact Bool.false_ne_true (hc.1.symm.trans hword)
  · exact hc.2.1 hblank
  · exact hc.2.2 hmark

theorem isSeparator_of_isIdentPart {c : Char} (hc : isIdentPart c = true) :
    isSeparator c = false := by
  refine Bool.eq_false_iff.mpr fun hsep => ?_
  have hseparators : ∀ d ∈ ",;)]\x7d\n".toList, isIdentPart d = false := by decide
  have hmem : c ∈ ",;)]\x7d\n".toList := by simpa [isSeparator, among] using hsep
  exact Bool.false_ne_true ((hseparators c hmem).symm.trans hc)

theorem isSeparator_of_mem_chain (h : ∀ t ∈ a :: bs, IsOperand t) :
    ∀ c ∈ chain a bs, isSeparator c = false := by
  intro c hc
  rcases of_mem_chain h hc with hword | rfl | rfl
  · exact isSeparator_of_isIdentPart hword
  · decide
  · decide

/-- The text before the next value of a chain. -/
theorem IsStart.extend {pre : Text} (h : IsStart pre) (ha : IsOperand a) :
    IsStart (pre ++ ("(" ++ a ++ " != null ? " ++ a ++ " : ")) := by
  have hphrase {c : Char} (hc : c ≠ '?') : ∀ w ∈ [['?', '?']], w ≠ [] ∧ c ∉ w := by
    simp [hc]
  have hword : Lacks [['?', '?']] a := by
    intro w hw hin
    obtain rfl := List.mem_singleton.mp hw
    exact absurd (ha.word '?' (hin.subset (List.mem_cons_self ..))) (by decide)
  have hlacks : Lacks [['?', '?']] (pre ++ '(' :: (a ++ ' ' :: ("!= null".toList ++ ' ' ::
      ("?".toList ++ ' ' :: (a ++ ' ' :: ": ".toList))))) := by
    rw [lacks_append_cons_iff (hphrase (by decide)), lacks_append_cons_iff (hphrase (by decide)),
      lacks_append_cons_iff (hphrase (by decide)), lacks_append_cons_iff (hphrase (by decide)),
      lacks_append_cons_iff (hphrase (by decide))]
    exact ⟨fun w hw => List.mem_singleton.mp hw ▸ h.noDefault, hword, by decide, by decide, hword,
      by decide⟩
  constructor
  · simp [operandLength, isAlnum]
  · have hin := hlacks _ (List.mem_singleton_self _)
    simpa using hin

/-- A default operator is rephrased at each turn, as long as there are turns and operators. -/
theorem nilCoalescing_chain (hbehind : IsRest behind) (turns : Nat) (pre post : Text)
    (hchain : ∀ t ∈ a :: bs, IsOperand t) (hpre : IsStart pre) (hmark : '?' ∉ post)
    (hpost : post = [] ∨ ∃ r, post = ')' :: r) :
    nilCoalescing turns (pre ++ ((chain a bs ++ behind) ++ post)) =
      pre ++ (phrased behind turns a bs ++ post) := by
  have hrest {bs : List Text} {a : Text} (hchain : ∀ t ∈ a :: bs, IsOperand t) :
      chain a bs ++ behind ≠ [] ∧ EndsSolid (chain a bs ++ behind) ∧
        (chain a bs ++ behind).head?.any isBlank = false ∧
        ∀ c ∈ chain a bs ++ behind, isSeparator c = false := by
    obtain ⟨t, ht⟩ := chain_eq a bs
    have ha := (List.forall_mem_cons.mp hchain).1
    refine ⟨by simp [ht, ha.nonempty], ?_, ?_, ?_⟩
    · rcases hbehind.solid with rfl | hsolid
      · rw [List.append_nil]
        exact endsSolid_chain hchain
      · exact hsolid.append_left _
    · rw [ht, List.append_assoc]
      exact ha.head?_any _
    · rw [List.forall_mem_append]
      exact ⟨isSeparator_of_mem_chain hchain, hbehind.noSeparator⟩
  induction turns generalizing a bs pre post with
  | zero => simp [nilCoalescing, phrased]
  | succ turns ih =>
    cases bs with
    | nil =>
      have hnone : ¬ "??".toList <:+: pre ++ ((chain a [] ++ behind) ++ post) := by
        have ha : '?' ∉ a := fun h =>
          absurd ((hchain a (List.mem_singleton_self a)).word '?' h) (by decide)
        refine not_infix_append hpre.noDefault ?_
        simp [chain, ha, hbehind.noMark, hmark]
      have hneeds : coalescing.Needs "??".toList := .left (.right (needs_lit List.infix_rfl))
      rw [nilCoalescing, hneeds.search?_eq_none hnone]
      rfl
    | cons b bs =>
      obtain ⟨ha, hbs⟩ := List.forall_mem_cons.mp hchain
      obtain ⟨hne, hsolid, hstart, hsep⟩ := hrest hbs
      have hpost' : ')' :: post = [] ∨ ∃ r, ')' :: post = ')' :: r := Or.inr ⟨post, rfl⟩
      have hmark' : '?' ∉ ')' :: post := by simp [hmark]
      have hstep := nilCoalescing_step hpre ha hne hsolid hstart hsep hpost turns
      have hturns := ih _ (')' :: post) hbs (hpre.extend ha) hmark' hpost'
      have htext : pre ++ ((chain a (b :: bs) ++ behind) ++ post) =
          pre ++ a ++ (" ?? ".toList ++ ((chain b bs ++ behind) ++ post)) := by simp [chain]
      have hnext : pre ++ ("(" ++ a ++ " != null ? " ++ a ++ " : " ++ (chain b bs ++ behind) ++ ")")
          ++ post = pre ++ ("(" ++ a ++ " != null ? " ++ a ++ " : ") ++
            ((chain b bs ++ behind) ++ ')' :: post) := by simp
      rw [htext, hstep, hnext, hturns]
      simp [phrased]

end Turns

/-! ### The other rules for optional values -/

section Others

variable {t : Text}

/-- Without the word `is` there is no test for a type. -/
theorem typeTest_apply (his : ¬ HasWord "is" t) : typeTest.apply t = t := by
  apply replace_of_allIn_eq_nil
  rw [List.eq_nil_iff_forall_not_mem]
  intro m hm
  obtain ⟨gs, hx, -⟩ := spells_of_mem_allIn hm
  obtain ⟨u, v, ht⟩ := infix_of_mem_allIn hm
  simp only [typeTest, spells_append_iff, spells_lit_iff, spells_cap_iff, spells_edge_iff] at hx
  obtain ⟨_, type, _, _, htext, -, ⟨_, y, _, _, rfl, -, ⟨_, _, _, _, rfl, -,
    ⟨_, x, _, _, rfl, -, ⟨_, value, _, _, rfl, -, ⟨rfl, -⟩, -⟩, hx⟩, rfl, -⟩, hy⟩, -⟩ := hx
  obtain ⟨hx, hxb, -⟩ := of_spells_gap hx
  obtain ⟨hy, hyb, -⟩ := of_spells_gap hy
  obtain ⟨x, c, rfl⟩ := (List.eq_nil_or_concat' x).resolve_left hx
  obtain ⟨d, y, rfl⟩ := List.exists_cons_of_ne_nil hy
  have hc : (u ++ value ++ x ++ [c]).getLast?.any isWord = false := by
    simpa using isWord_of_isBlank (hxb c (by simp))
  have hword := hasWord_of_apart (w := "is") (by decide) hc
    (isWord_of_isBlank (hyb d (by simp))) (y ++ (type ++ v))
  apply his
  rw [htext] at ht
  simpa [← ht] using hword

/-- An exclamation mark is written behind white space only. -/
def MarksApart (t : Text) : Prop := ∀ u v, t = u ++ '!' :: v → u.getLast? = some ' '

theorem marksApart_of_notMem (h : '!' ∉ t) : MarksApart t := by
  rintro u v rfl
  exact absurd (List.mem_append_right u (List.mem_cons_self ..)) h

theorem MarksApart.append {u : Text} (ht : MarksApart t) (hu : MarksApart u) :
    MarksApart (t ++ u) := by
  intro x y h
  rcases List.append_eq_append_iff.mp h with ⟨a, rfl, ha⟩ | ⟨b, rfl, hb⟩
  · have hlast := hu a y ha
    rw [List.getLast?_append, hlast]
    rfl
  · cases b with
    | nil => exact absurd (hu [] y (by simpa using hb.symm)) (by simp)
    | cons c b =>
      obtain ⟨rfl, -⟩ := List.cons.inj hb
      exact ht x b rfl

theorem marksApart_cons_cons (h : '!' ∉ t) : MarksApart (' ' :: '!' :: t) := by
  intro u v heq
  match u, heq with
  | [], heq => exact absurd (List.cons.inj heq).1 (by decide)
  | [c], heq => rw [(List.cons.inj heq).1, List.getLast?_singleton]
  | c :: d :: u, heq =>
    rw [(List.cons.inj (List.cons.inj heq).2).2] at h
    exact absurd (List.mem_append_right u (List.mem_cons_self ..)) h

/-- Marks behind white space are no forced unwrappings. -/
theorem forcedValue_apply (h : MarksApart t) : forcedValue.apply t = t := by
  apply replace_of_allIn_eq_nil
  rw [List.eq_nil_iff_forall_not_mem]
  intro m hm
  obtain ⟨gs, hx, -⟩ := spells_of_mem_allIn hm
  obtain ⟨u, v, ht⟩ := infix_of_mem_allIn hm
  simp only [forcedValue, spells_append_iff, spells_lit_iff, spells_cap_iff,
    spells_notAhead_iff] at hx
  obtain ⟨_, _, _, _, htext, -, ⟨_, _, _, _, rfl, -, ⟨_, rfl, hmark⟩, rfl, -⟩, rfl, -⟩ := hx
  obtain ⟨c, hc, rfl, -⟩ := spells_oneOf_iff.mp hmark
  have hlast := h (u ++ [c]) v (by rw [← ht, htext]; simp)
  obtain rfl : c = ' ' := by simpa using hlast
  exact absurd hc (by decide)

/-- Texts without casts, tests and accesses only get conditionals for default operators. -/
theorem optionals_eq (has : ¬ HasWord "as" t) (his : ¬ HasWord "is" t)
    (hdot : '.' ∉ nilCoalescing operatorRounds t)
    (hmarks : MarksApart (nilCoalescing operatorRounds t)) (scope : Scope) :
    optionals scope t = nilCoalescing operatorRounds t := by
  have hneeds : chainedMember.Needs ['.'] := .left (needs_lit (by decide))
  have hchaining (turns : Nat) (u : Text) (hu : '.' ∉ u) : optionalChaining turns u = u := by
    cases turns with
    | zero => rfl
    | succ turns =>
      rw [optionalChaining, hneeds.search?_eq_none (mt (List.singleton_infix_iff '.' u).mp hu)]
  rw [optionals, castSuffix_apply has, typeTest_apply his, hchaining _ _ hdot,
    forcedValue_apply hmarks]

end Others

/-! ### What a chain is read as -/

/-- The value if there is one, and something else otherwise. -/
def defaulted (a : Text) (rest : Expression) : Expression :=
  .conditional (.binary .unequal (.operand a) (.operand "null")) (.operand a) rest

/-- The conditionals of a chain, with the last default made into something. -/
def nested (last : Text → Expression) (a : Text) : List Text → Expression
  | [] => last a
  | b :: bs => defaulted a (nested last b bs)

/-- The value that a chain stands for. -/
def coalesced (a : Text) (bs : List Text) : Expression := nested .operand a bs

section Reading

variable {a c : Text} {bs : List Text}

/-- The words of a chain are those of its values. -/
theorem hasWord_chain_iff {w : Text} (hw : w ≠ []) :
    HasWord w (chain a bs) ↔ ∃ t ∈ a :: bs, HasWord w t := by
  induction bs generalizing a with
  | nil => simp [chain]
  | cons b bs ih =>
    rw [chain, List.append_assoc, hasWord_append_iff hw (by decide) (by decide), ih]
    simp only [List.exists_mem_cons_iff]

/-- What is made of a chain holds no other characters than it, those of conditionals and those of
what stands behind it. -/
theorem dot_notMem_phrased {behind : Text} (h : ∀ t ∈ a :: bs, IsOperand t) (hdot : '.' ∉ behind)
    (turns : Nat) : '.' ∉ phrased behind turns a bs := by
  have hchain {a : Text} {bs : List Text} (h : ∀ t ∈ a :: bs, IsOperand t) :
      '.' ∉ chain a bs ++ behind := by
    rw [List.mem_append, not_or]
    exact ⟨notMem_chain h (by decide), hdot⟩
  induction turns generalizing a bs with
  | zero => exact hchain h
  | succ turns ih =>
    cases bs with
    | nil => exact hchain h
    | cons b bs =>
      obtain ⟨ha, hbs⟩ := List.forall_mem_cons.mp h
      have hword : '.' ∉ a := fun hmem => absurd (ha.word '.' hmem) (by decide)
      simp [phrased, hword, ih hbs]

theorem marksApart_phrased {behind : Text} (h : ∀ t ∈ a :: bs, IsOperand t)
    (hbehind : MarksApart behind) (turns : Nat) : MarksApart (phrased behind turns a bs) := by
  have hchain {a : Text} {bs : List Text} (h : ∀ t ∈ a :: bs, IsOperand t) :
      MarksApart (chain a bs ++ behind) :=
    (marksApart_of_notMem (notMem_chain h (by decide))).append hbehind
  induction turns generalizing a bs with
  | zero => exact hchain h
  | succ turns ih =>
    cases bs with
    | nil => exact hchain h
    | cons b bs =>
      obtain ⟨ha, hbs⟩ := List.forall_mem_cons.mp h
      have hword : MarksApart a :=
        marksApart_of_notMem fun hmem => absurd (ha.word '!' hmem) (by decide)
      have hmark (s : String) (hs : '!' ∉ s.toList) : MarksApart s.toList := marksApart_of_notMem hs
      have htest : MarksApart " != null ? ".toList := marksApart_cons_cons (by decide)
      exact ((((((hmark "(" (by decide)).append hword).append htest).append hword).append
        (hmark " : " (by decide))).append (ih hbs)).append (hmark ")" (by decide))

/-- What stands behind a chain that is compared. -/
def comparedWith (op : BinaryOp) (c : Text) : Text := " " ++ op.symbol ++ " " ++ c

theorem comparedWith_eq (op : BinaryOp) (c : Text) :
    comparedWith op c = " " ++ op.symbol ++ " " ++ c := rfl

theorem text_compared (op : BinaryOp) (b c : Text) :
    (Expression.binary op (.operand b) (.operand c)).text = b ++ comparedWith op c := by
  have htext : (Expression.binary op (.operand b) (.operand c)).text =
      b ++ " " ++ op.symbol ++ " " ++ c := by cases op <;> rfl
  rw [htext, comparedWith_eq]
  simp only [List.append_assoc]

theorem text_defaulted (a : Text) (e : Expression) :
    (defaulted a e).text = "(" ++ a ++ " != null ? " ++ a ++ " : " ++ e.text ++ ")" := by
  have htext : (defaulted a e).text = "(" ++ (Expression.binary .unequal (.operand a)
      (.operand "null")).text ++ " ? " ++ a ++ " : " ++ e.text ++ ")" := rfl
  rw [htext, text_compared]
  simp [comparedWith_eq, BinaryOp.symbol]

/-- With turns for all defaults, nested conditionals are written. -/
theorem phrased_eq {behind : Text} {last : Text → Expression}
    (hlast : ∀ b ∈ a :: bs, (last b).text = b ++ behind) {turns : Nat}
    (hturns : bs.length ≤ turns) : phrased behind turns a bs = (nested last a bs).text := by
  induction bs generalizing a turns with
  | nil =>
    have htext := hlast a (List.mem_singleton_self a)
    cases turns with
    | zero => exact htext.symm
    | succ turns => exact htext.symm
  | cons b bs ih =>
    obtain ⟨turns, rfl⟩ := Nat.exists_eq_add_of_le' (Nat.le_trans (Nat.le_add_left 1 _) hturns)
    have hrest := ih (List.forall_mem_cons.mp hlast).2 (Nat.le_of_succ_le_succ hturns)
    rw [phrased, hrest, nested, text_defaulted]

/-- With fewer, a default operator is left. -/
theorem exists_phrased_eq (behind : Text) {turns : Nat} (hturns : turns < bs.length) :
    ∃ x y, phrased behind turns a bs = x ++ " ?? " ++ y := by
  induction turns generalizing a bs with
  | zero =>
    obtain ⟨b, bs, rfl⟩ := List.exists_cons_of_length_pos hturns
    exact ⟨a, chain b bs ++ behind, by simp [phrased, chain]⟩
  | succ turns ih =>
    obtain ⟨b, bs, rfl⟩ := List.exists_cons_of_length_pos (Nat.zero_lt_of_lt hturns)
    obtain ⟨x, y, hrest⟩ := ih (a := b) (Nat.lt_of_succ_lt_succ hturns)
    exact ⟨"(" ++ a ++ " != null ? " ++ a ++ " : " ++ x, y ++ ")", by simp [phrased, hrest]⟩

theorem hasWords_nested {last : Text → Expression}
    (hlast : ∀ b ∈ a :: bs, (last b).HasWords) (h : ∀ t ∈ a :: bs, IsOperand t) :
    (nested last a bs).HasWords := by
  induction bs generalizing a with
  | nil => exact hlast a (List.mem_singleton_self a)
  | cons b bs ih =>
    rw [List.forall_mem_cons] at h
    have ha : (Expression.operand a).HasWords := ⟨h.1.nonempty, h.1.word⟩
    have hnull : (Expression.operand "null").HasWords := ⟨by decide, by decide⟩
    exact ⟨⟨ha, hnull⟩, ha, ih (List.forall_mem_cons.mp hlast).2 h.2⟩

/-- A character that stands in no word and in no operator does not stand in what is compared. -/
theorem notMem_comparedWith {d : Char} (op : BinaryOp) (hc : IsOperand c)
    (hword : isIdentPart d = false) (hop : d ∉ " ".toList ++ op.symbol ++ " ".toList) :
    d ∉ comparedWith op c := by
  have hnot : d ∉ c := fun h => absurd (hc.word d h) (by simp [hword])
  rw [comparedWith_eq, List.mem_append, not_or]
  exact ⟨hop, hnot⟩

theorem isRest_comparedWith (op : BinaryOp) (hc : IsOperand c) : IsRest (comparedWith op c) where
  noMark := notMem_comparedWith op hc (by decide) (by cases op <;> decide)
  noSeparator := by
    have hop : ∀ d ∈ " ".toList ++ op.symbol ++ " ".toList, isSeparator d = false := by
      cases op <;> decide
    rw [comparedWith_eq, List.forall_mem_append]
    exact ⟨hop, fun d hd => isSeparator_of_isIdentPart (hc.word d hd)⟩
  solid := Or.inr (hc.endsSolid.append_left _)

theorem marksApart_comparedWith (op : BinaryOp) (hc : IsOperand c) :
    MarksApart (comparedWith op c) := by
  have hword : '!' ∉ c := fun h => absurd (hc.word '!' h) (by decide)
  cases op with
  | unequal => exact marksApart_cons_cons (t := '=' :: ' ' :: c) (by simp [hword])
  | _ => exact marksApart_of_notMem (notMem_comparedWith _ hc (by decide) (by decide))

theorem dot_notMem_comparedWith (op : BinaryOp) (hc : IsOperand c) : '.' ∉ comparedWith op c :=
  notMem_comparedWith op hc (by decide) (by cases op <;> decide)

/-- A comparison behind other text adds the words of its second operand. -/
theorem hasWord_comparedWith_iff {w t : Text} (hw : w ≠ []) (op : BinaryOp) :
    HasWord w (t ++ comparedWith op c) ↔ HasWord w t ∨ HasWord w c := by
  have hop : ∀ d ∈ " ".toList ++ op.symbol ++ " ".toList, isWord d = false := by
    cases op <;> decide
  rw [comparedWith_eq, hasWord_append_iff hw (by simp) hop]

variable (h : ∀ t ∈ a :: c :: bs, IsOperand t)
include h

theorem IsOperand.of_compared : IsOperand c ∧ ∀ t ∈ a :: bs, IsOperand t := by
  simp only [List.mem_cons, forall_eq_or_imp] at h ⊢
  exact ⟨h.2.1, h.1, h.2.2⟩

/-- No word of a chain and of what it is compared with stands between a value and its type. -/
theorem not_hasWord {x y : Text} (hx : ∀ d ∈ x, isWord d = false) (hy : ∀ d ∈ y, isWord d = false)
    (op : BinaryOp) {w : Text} (hw : w = ['a', 's'] ∨ w = ['i', 's']) :
    ¬ HasWord w (x ++ chain a bs ++ y ++ comparedWith op c) := by
  obtain ⟨hc, hchain⟩ := IsOperand.of_compared h
  have hne : w ≠ [] := by rcases hw with rfl | rfl <;> decide
  have hnot (t : Text) (ht : IsOperand t) : ¬ HasWord w t := by
    rcases hw with rfl | rfl
    · exact ht.notCast
    · exact ht.notTest
  rw [hasWord_comparedWith_iff hne op, hasWord_append_right_iff hne hy,
    hasWord_append_left_iff hne hx, hasWord_chain_iff hne]
  rintro (⟨t, ht, hword⟩ | hword)
  · exact hnot t (hchain t ht) hword
  · exact hnot c hc hword

/-- A comparison behind a chain ends up in the innermost conditional. -/
theorem optionals_chain (op : BinaryOp) (scope : Scope) :
    optionals scope (chain a bs ++ comparedWith op c) =
      phrased (comparedWith op c) operatorRounds a bs := by
  obtain ⟨hc, hchain⟩ := IsOperand.of_compared h
  have hturns := nilCoalescing_chain (isRest_comparedWith op hc) operatorRounds [] [] hchain
    ⟨rfl, by decide⟩ List.not_mem_nil (Or.inl rfl)
  rw [List.nil_append, List.append_nil, List.nil_append, List.append_nil] at hturns
  have hword {w : Text} (hw : w = ['a', 's'] ∨ w = ['i', 's']) :
      ¬ HasWord w (chain a bs ++ comparedWith op c) := by
    simpa using not_hasWord h (List.forall_mem_nil _) (List.forall_mem_nil _) op hw
  rw [← hturns]
  refine optionals_eq (hword (Or.inl rfl)) (hword (Or.inr rfl)) ?_ ?_ scope
  · rw [hturns]
    exact dot_notMem_phrased hchain (dot_notMem_comparedWith op hc) _
  · rw [hturns]
    exact marksApart_phrased hchain (marksApart_comparedWith op hc) _

/-- A comparison behind a chain in brackets stays behind it. -/
theorem optionals_bracketed (op : BinaryOp) (scope : Scope) :
    optionals scope ("(" ++ chain a bs ++ ")" ++ comparedWith op c) =
      "(" ++ phrased [] operatorRounds a bs ++ ")" ++ comparedWith op c := by
  obtain ⟨hc, hchain⟩ := IsOperand.of_compared h
  have hrest : IsRest [] := ⟨List.not_mem_nil, List.forall_mem_nil _, Or.inl rfl⟩
  have hmark : '?' ∉ ')' :: comparedWith op c := by
    simp [(isRest_comparedWith op hc).noMark]
  have hturns := nilCoalescing_chain hrest operatorRounds ['('] (')' :: comparedWith op c) hchain
    ⟨rfl, by decide⟩ hmark (Or.inr ⟨_, rfl⟩)
  have htext : ("(" ++ chain a bs ++ ")" ++ comparedWith op c : Text) =
      ['('] ++ ((chain a bs ++ []) ++ ')' :: comparedWith op c) := by simp
  have hresult : ("(" ++ phrased [] operatorRounds a bs ++ ")" ++ comparedWith op c : Text) =
      ['('] ++ (phrased [] operatorRounds a bs ++ ')' :: comparedWith op c) := by simp
  have hword {w : Text} (hw : w = ['a', 's'] ∨ w = ['i', 's']) :
      ¬ HasWord w ("(" ++ chain a bs ++ ")" ++ comparedWith op c) :=
    not_hasWord h (by decide) (by decide) op hw
  rw [hresult, ← hturns, ← htext]
  refine optionals_eq (hword (Or.inl rfl)) (hword (Or.inr rfl)) ?_ ?_ scope
  · rw [htext, hturns]
    simp [dot_notMem_phrased hchain List.not_mem_nil, dot_notMem_comparedWith op hc]
  · have hnone (s : String) (hs : '!' ∉ s.toList) : MarksApart s.toList := marksApart_of_notMem hs
    rw [htext, hturns, ← hresult]
    exact (((hnone "(" (by decide)).append (marksApart_phrased hchain
      (marksApart_of_notMem List.not_mem_nil) _)).append (hnone ")" (by decide))).append
        (marksApart_comparedWith op hc)

end Reading

/-- The default operator binds tighter than an operator behind its chain, but the script form of
the chain is read with that operator in the innermost conditional, unless there is no default or
the chain stands in brackets. Defaults beyond the number of turns are not read at all. -/
theorem expression?_optionals_chain {a c : Text} {bs : List Text}
    (h : ∀ t ∈ a :: c :: bs, IsOperand t) (op : BinaryOp) (scope : Scope) :
    (expression? (optionals scope (chain a bs ++ comparedWith op c)) =
      if bs.length ≤ operatorRounds then
        some (nested (fun b => .binary op (.operand b) (.operand c)) a bs)
      else none) ∧
    (expression? (optionals scope (chain a bs ++ comparedWith op c)) =
      some (.binary op (coalesced a bs) (.operand c)) ↔ bs = []) ∧
    expression? (optionals scope ("(" ++ chain a bs ++ ")" ++ comparedWith op c)) =
      if bs.length ≤ operatorRounds then some (.binary op (coalesced a bs) (.operand c))
      else none := by
  obtain ⟨hc, hchain⟩ := IsOperand.of_compared h
  have hoperand {t : Text} (ht : IsOperand t) : (Expression.operand t).HasWords :=
    ⟨ht.nonempty, ht.word⟩
  have hplain : expression? (optionals scope (chain a bs ++ comparedWith op c)) =
      if bs.length ≤ operatorRounds then
        some (nested (fun b => .binary op (.operand b) (.operand c)) a bs)
      else none := by
    rw [optionals_chain h]
    split_ifs with hturns
    · rw [phrased_eq (fun b _ => text_compared op b c) hturns, Expression.expression?_text]
      exact hasWords_nested (fun b hb => ⟨hoperand (hchain b hb), hoperand hc⟩) hchain
    · obtain ⟨x, y, htext⟩ := exists_phrased_eq (comparedWith op c) (Nat.lt_of_not_le hturns)
      rw [htext, expression?_defaulted]
  refine ⟨hplain, ?_, ?_⟩
  · rw [hplain]
    cases bs with
    | nil => simp [nested, coalesced]
    | cons b bs => split_ifs <;> simp [nested, defaulted]
  · rw [optionals_bracketed h]
    split_ifs with hturns
    · have hlast : ∀ b ∈ a :: bs, (Expression.operand b).text = b ++ [] :=
        fun b _ => (List.append_nil b).symm
      rw [phrased_eq hlast hturns]
      have htext : "(" ++ (nested Expression.operand a bs).text ++ ")" ++ comparedWith op c =
          "(" ++ (nested Expression.operand a bs).text ++ ") " ++ op.symbol ++ " " ++ c := by
        simp [comparedWith]
      have hwords := hasWords_nested (fun b hb => hoperand (hchain b hb)) hchain
      exact htext ▸ Expression.expression?_bracketed hwords ⟨hc.nonempty, hc.word⟩ op
    · obtain ⟨x, y, htext⟩ := exists_phrased_eq [] (Nat.lt_of_not_le hturns)
      have hlong : "(" ++ (x ++ " ?? " ++ y) ++ ")" ++ comparedWith op c =
          ("(" ++ x) ++ " ?? " ++ (y ++ ")" ++ comparedWith op c) := by simp
      rw [htext, hlong, expression?_defaulted]

/-- `a ?? b ?? 0 && c` becomes `(a != null ? a : (b != null ? b : 0 && c))`. -/
theorem expression?_optionals_chain_twoDefaults :
    (∀ t ∈ ([("a" : Text), "c", "b", "0"] : List Text), IsOperand t) ∧
    expression? (optionals .nothing "a ?? b ?? 0 && c") =
      some (defaulted "a" (defaulted "b" (.binary .and (.operand "0") (.operand "c")))) ∧
    expression? (optionals .nothing "(a ?? b ?? 0) && c") =
      some (.binary .and (defaulted "a" (defaulted "b" (.operand "0"))) (.operand "c")) := by
  have hoperands : ∀ t ∈ ([("a" : Text), "c", "b", "0"] : List Text), IsOperand t := by
    simp only [List.mem_cons, List.not_mem_nil, or_false, forall_eq_or_imp, forall_eq]
    refine ⟨?_, ?_, ?_, ?_⟩
    all_goals exact ⟨by decide, by decide, by decide, by decide⟩
  obtain ⟨hplain, -, hbracketed⟩ := expression?_optionals_chain hoperands .and .nothing
  exact ⟨hoperands, hplain, hbracketed⟩

/-- The comparison with `c` is read as a part of the default. -/
theorem expression?_optionals_chain_fails_comparedDefault :
    expression? (optionals .nothing "a ?? b < c") =
      some (defaulted "a" (.binary .less (.operand "b") (.operand "c"))) ∧
    coalesced "a" ["b"] = defaulted "a" (.operand "b") ∧
    expression? (optionals .nothing "a ?? b < c") ≠
      some (.binary .less (coalesced "a" ["b"]) (.operand "c")) := by
  decide +kernel

end HostScript.Body.Swift
