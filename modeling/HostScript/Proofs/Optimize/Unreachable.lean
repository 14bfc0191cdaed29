import HostScript.Proofs.Optimize.DeadCode
import HostScript.Proofs.Outcome

/-!
# Dropping dead code keeps behaviour

A small language of calls, jumps, blocks, conditionals and loops, with its text and its meaning: the
calls made, the conditions tested and how a run ends, for answers to the conditions that may depend
on all that happened before. In the text of a program exactly the jumps are taken for jumps, unless
the name of a called function reads as one, and the rest of a block in the text is the text of the
rest of the block. So the text without dead code is the text of a program that behaves the same.
-/

namespace HostScript.Optimize

open Script

/-! ## Programs and their text -/

/-- The reserved words. -/
def keywords : List Text :=
  ["break", "case", "catch", "class", "const", "continue", "debugger", "default", "delete", "do",
    "else", "enum", "export", "extends", "false", "finally", "for", "function", "if", "import", "in",
    "instanceof", "new", "null", "return", "super", "switch", "this", "throw", "true", "try",
    "typeof", "var", "void", "while", "with"]

/-- A name that a program may call: an identifier that is not reserved. -/
structure Callee where
  text : Text
  isIdent : startsIn isIdentStart text = true ∧ ∀ c ∈ text, isIdentPart c = true
  notReserved : text ∉ keywords

/-- A condition or a thrown value, as a text without brackets, quotes, slashes and semicolons. -/
structure Phrase where
  text : Text
  isPlain : ∀ c ∈ text, c ∉ "();\x7b\x7d\x22\x27\x60/".toList

/-- A jump out of a block. -/
inductive Jump where
  | back
  | stop
  | next
  | raise (value : Phrase)

/-- A statement without a block of its own. -/
inductive Simple where
  | call (f : Callee)
  | jump (j : Jump)

/-- A sequence of statements: nothing, or a first statement and the rest. -/
inductive Program where
  | done
  | simple (first : Simple) (rest : Program)
  | block (body rest : Program)
  | branch (condition : Phrase) (body rest : Program)
  | choose (condition : Phrase) (yes no rest : Program)
  | guard (condition : Phrase) (body : Simple) (rest : Program)
  | loop (condition : Phrase) (body rest : Program)

/-- A jump without its semicolon. -/
def Jump.text : Jump → Text
  | .back => "return"
  | .stop => "break"
  | .next => "continue"
  | .raise value => "throw " ++ value.text

/-- A simple statement without its semicolon. -/
def Simple.text : Simple → Text
  | .call f => f.text ++ "()"
  | .jump j => j.text

/-- Statements as a block. -/
def braced (body : Text) : Text := '\x7b' :: (body ++ [' ', '\x7d'])

/-- A condition behind its keyword. -/
def headed (keyword : Text) (c : Phrase) : Text := ' ' :: (keyword ++ (" (" ++ (c.text ++ ") ")))

/-- The statements, each behind a space. -/
def Program.spaced : Program → Text
  | .done => []
  | .simple first rest => ' ' :: first.text ++ [';'] ++ rest.spaced
  | .block body rest => [' '] ++ braced body.spaced ++ rest.spaced
  | .branch c body rest => headed "if" c ++ braced body.spaced ++ rest.spaced
  | .choose c yes no rest =>
    headed "if" c ++ braced yes.spaced ++ (" else " ++ braced no.spaced) ++ rest.spaced
  | .guard c body rest => headed "if" c ++ body.text ++ [';'] ++ rest.spaced
  | .loop c body rest => headed "while" c ++ braced body.spaced ++ rest.spaced

/-- The text of a program: its statements with single spaces between them. -/
def Program.text (p : Program) : Text := p.spaced.drop 1

/-! ## What programs do -/

/-- What can be seen of a run. -/
inductive Event where
  | called (f : Text)
  | tested (condition : Text) (answer : Bool)

/-- How a run of statements ends. A run that goes round a loop too often is left unfinished. -/
inductive Ending where
  | normal
  | returned
  | stopped
  | continued
  | raised (value : Text)
  | unfinished

/-- The answers to conditions, by what happened before, latest first. -/
abbrev Oracle := List Event → Text → Bool

/-- What happened, latest first, and how it ended. -/
abbrev Run := List Event × Ending

/-- Goes on where a run ended normally. -/
def Run.next (r : Run) (rest : List Event → Run) : Run :=
  match r.2 with
  | .normal => rest r.1
  | _ => r

/-- Asks for a condition. -/
def ask (o : Oracle) (c : Phrase) (past : List Event) (yes no : List Event → Run) : Run :=
  let answer := o past c.text
  (if answer then yes else no) (.tested c.text answer :: past)

def Jump.ending : Jump → Ending
  | .back => .returned
  | .stop => .stopped
  | .next => .continued
  | .raise value => .raised value.text

def Simple.run : Simple → List Event → Run
  | .call f, past => (.called f.text :: past, .normal)
  | .jump j, past => (past, j.ending)

/-- At most so many rounds of a loop. -/
def loopRun (o : Oracle) (c : Phrase) (body : List Event → Run) : (bound : Nat) → List Event → Run
  | 0, past => (past, .unfinished)
  | bound + 1, past =>
    ask o c past (fun past =>
      let r := body past
      match r.2 with
      | .normal | .continued => loopRun o c body bound r.1
      | .stopped => (r.1, .normal)
      | _ => r) fun past => (past, .normal)

/-- The run of a program in which every loop goes round at most `bound` times. -/
def Program.run (o : Oracle) (bound : Nat) : Program → List Event → Run
  | .done, past => (past, .normal)
  | .simple first rest, past => (first.run past).next (rest.run o bound)
  | .block body rest, past => (body.run o bound past).next (rest.run o bound)
  | .branch c body rest, past =>
    (ask o c past (body.run o bound) fun past => (past, .normal)).next (rest.run o bound)
  | .choose c yes no rest, past =>
    (ask o c past (yes.run o bound) (no.run o bound)).next (rest.run o bound)
  | .guard c body rest, past =>
    (ask o c past body.run fun past => (past, .normal)).next (rest.run o bound)
  | .loop c body rest, past =>
    (loopRun o c (body.run o bound) bound past).next (rest.run o bound)

/-! ## Programs without dead statements -/

/-- The program without the statements behind its jumps, unless something in their text keeps them
alive. -/
def Program.prune : Program → Program
  | .done => .done
  | .simple (.call f) rest => .simple (.call f) rest.prune
  | .simple (.jump j) rest =>
    .simple (.jump j) (if keptAlive.occursIn rest.spaced then rest.prune else .done)
  | .block body rest => .block body.prune rest.prune
  | .branch c body rest => .branch c body.prune rest.prune
  | .choose c yes no rest => .choose c yes.prune no.prune rest.prune
  | .guard c body rest => .guard c body rest.prune
  | .loop c body rest => .loop c body.prune rest.prune

/-- What follows a jump never runs. -/
theorem Program.run_prune (o : Oracle) (bound : Nat) (p : Program) :
    p.prune.run o bound = p.run o bound := by
  induction p with
  | done => rfl
  | simple first rest ih =>
    cases first with
    | call f =>
      funext past
      simp only [prune, run, ih]
    | jump j =>
      funext past
      cases j <;> rfl
  | block body rest ihb ih =>
    funext past
    simp only [prune, run, ihb, ih]
  | branch c body rest ihb ih =>
    funext past
    simp only [prune, run, ihb, ih]
  | choose c yes no rest ihy ihn ih =>
    funext past
    simp only [prune, run, ihy, ihn, ih]
  | guard c body rest ih =>
    funext past
    simp only [prune, run, ih]
  | loop c body rest ihb ih =>
    funext past
    simp only [prune, run, ihb, ih]

/-! ## The parts of a text -/

variable {s t x y z : Text} {c : Char}

/-- A text in which no statement ends and no block starts or ends. -/
def IsPhrase (s : Text) : Prop := ∀ a ∈ s, isStop a = false

instance decidableIsPhrase (s : Text) : Decidable (IsPhrase s) :=
  List.decidableBAll (isStop · = false) s

/-- A text that takes up a part of any block it stands in, and does not end the block. -/
def IsBalanced (x : Text) : Prop :=
  ∀ d z, blockRest d (x ++ z) = x ++ blockRest d z ∧ blockEnd d (x ++ z) = blockEnd d z

/-- A text that is empty or ends where a statement or block does. -/
def IsClosed (x : Text) : Prop := x = [] ∨ endsIn isStop x = true

theorem IsPhrase.append (hs : IsPhrase s) (ht : IsPhrase t) : IsPhrase (s ++ t) :=
  List.forall_mem_append.mpr ⟨hs, ht⟩

theorem IsBalanced.append (hx : IsBalanced x) (hy : IsBalanced y) : IsBalanced (x ++ y) := by
  intro d z
  rw [List.append_assoc, (hx d _).1, (hx d _).2, (hy d z).1, (hy d z).2]
  exact ⟨(List.append_assoc ..).symm, rfl⟩

theorem IsPhrase.isBalanced (hs : IsPhrase s) : IsBalanced s := fun d z => blockRest_append hs d z

/-- A block is balanced if what stands in it is. -/
theorem IsBalanced.braced (hx : IsBalanced x) : IsBalanced (braced x) := by
  intro d z
  have hspace : IsBalanced [' '] := IsPhrase.isBalanced (by decide)
  have hparts : Optimize.braced x ++ z = '\x7b' :: (x ++ ([' '] ++ '\x7d' :: z)) := by
    simp [Optimize.braced]
  rw [hparts, (blockRest_open d _).1, (blockRest_open d _).2, (hx _ _).1, (hx _ _).2,
    (hspace _ _).1, (hspace _ _).2, (blockRest_close_succ d z).1, (blockRest_close_succ d z).2]
  exact ⟨by simp [Optimize.braced], rfl⟩

theorem isBalanced_semicolon : IsBalanced [';'] :=
  fun d z => blockRest_cons (by decide) (by decide) d z

theorem IsClosed.append (hx : IsClosed x) (hy : IsClosed y) : IsClosed (x ++ y) := by
  rcases hy with rfl | hy
  · rwa [List.append_nil]
  · refine Or.inr ?_
    rw [endsIn_append _ (by rintro rfl; cases hy)]
    exact hy

theorem isClosed_append_singleton (hc : isStop c = true) (x : Text) : IsClosed (x ++ [c]) := by
  refine Or.inr ?_
  rw [endsIn_append _ (List.cons_ne_nil c [])]
  exact hc

theorem isClosed_append_braced (s x : Text) : IsClosed (s ++ braced x) := by
  have hparts : s ++ braced x = s ++ '\x7b' :: (x ++ [' ']) ++ ['\x7d'] := by simp [braced]
  rw [hparts]
  exact isClosed_append_singleton (by decide) _

theorem Callee.isPhrase (f : Callee) : IsPhrase f.text := by
  intro a ha
  rw [← Bool.not_eq_true]
  intro hstop
  have := (of_isStop hstop).2.1
  rw [f.isIdent.2 a ha] at this
  cases this

theorem Phrase.isPhrase (c : Phrase) : IsPhrase c.text := by
  intro a ha
  rw [← Bool.not_eq_true]
  intro hstop
  refine c.isPlain a ha ?_
  rcases isStop_iff.mp hstop with rfl | rfl | rfl <;> decide

theorem headed_isPhrase {keyword : Text} (h : IsPhrase keyword) (c : Phrase) :
    IsPhrase (headed keyword c) := by
  have hopen : IsPhrase " (" := by decide
  have hclose : IsPhrase ") " := by decide
  exact List.forall_mem_cons.mpr ⟨by decide, h.append (hopen.append (c.isPhrase.append hclose))⟩

theorem Simple.isPhrase (first : Simple) : IsPhrase first.text := by
  have hcall : IsPhrase "()" := by decide
  have hraise : IsPhrase "throw " := by decide
  cases first with
  | call f => exact f.isPhrase.append hcall
  | jump j =>
    cases j with
    | back => exact (by decide : IsPhrase "return")
    | stop => exact (by decide : IsPhrase "break")
    | next => exact (by decide : IsPhrase "continue")
    | raise value => exact hraise.append value.isPhrase

theorem isPhrase_if : IsPhrase "if" := by decide

theorem isPhrase_while : IsPhrase "while" := by decide

theorem isPhrase_else : IsPhrase " else " := by decide

/-- The statements of a program are a balanced part of a block. -/
theorem Program.isBalanced_spaced (p : Program) : IsBalanced p.spaced := by
  induction p with
  | done => exact fun d z => ⟨rfl, rfl⟩
  | simple first rest ih =>
    have hspace : IsPhrase [' '] := by decide
    exact ((hspace.append first.isPhrase).isBalanced.append isBalanced_semicolon).append ih
  | block body rest ihb ih =>
    have hspace : IsPhrase [' '] := by decide
    exact (hspace.isBalanced.append ihb.braced).append ih
  | branch c body rest ihb ih =>
    exact ((headed_isPhrase isPhrase_if c).isBalanced.append ihb.braced).append ih
  | choose c yes no rest ihy ihn ih =>
    have hyes := (headed_isPhrase isPhrase_if c).isBalanced.append ihy.braced
    exact (hyes.append (isPhrase_else.isBalanced.append ihn.braced)).append ih
  | guard c body rest ih =>
    have hhead := ((headed_isPhrase isPhrase_if c).append body.isPhrase).isBalanced
    exact (hhead.append isBalanced_semicolon).append ih
  | loop c body rest ihb ih =>
    exact ((headed_isPhrase isPhrase_while c).isBalanced.append ihb.braced).append ih

/-- The statements of a program end where a statement or block does. -/
theorem Program.isClosed_spaced (p : Program) : IsClosed p.spaced := by
  have hsemi (x : Text) : IsClosed (x ++ [';']) := isClosed_append_singleton (by decide) x
  induction p with
  | done => exact Or.inl rfl
  | simple first rest ih => exact (hsemi _).append ih
  | block body rest _ ih => exact (isClosed_append_braced _ _).append ih
  | branch c body rest _ ih => exact (isClosed_append_braced _ _).append ih
  | choose c yes no rest _ _ ih =>
    have hyes := isClosed_append_braced (headed "if" c) yes.spaced
    exact (hyes.append (isClosed_append_braced " else " no.spaced)).append ih
  | guard c body rest ih => exact (hsemi _).append ih
  | loop c body rest _ ih => exact (isClosed_append_braced _ _).append ih

/-! ## Jumps in the text of a program -/

/-- A space before a statement does not make it a jump. -/
theorem isJump_space (s : Text) (c : Char) : isJump (' ' :: s) c = isJump s c := by
  have hspace : isBlank ' ' = true := by decide
  rw [isJump, isJump, List.dropWhile_cons_of_pos hspace]

/-- A jump reads as one. -/
theorem isJump_jump (j : Jump) : isJump j.text ';' = true := by
  cases j with
  | back => decide
  | stop => decide
  | next => decide
  | raise value => rfl

/-- Whether the text of a call would read as a jump: its name goes on with a dollar sign behind a
jumping word. -/
def Callee.readsAsJump (f : Callee) : Bool :=
  jumpWords.any fun w => (w ++ ['$']).isPrefixOf f.text

/-- A call is no jump unless it reads as one. -/
theorem isJump_call {f : Callee} (hf : f.readsAsJump = false) :
    isJump (f.text ++ "()") ';' = false := by
  obtain ⟨hstart, hident⟩ := f.isIdent
  have hblank : (f.text ++ "()").dropWhile isBlank = f.text ++ "()" := by
    cases htext : f.text with
    | nil => rfl
    | cons a rest =>
      have ha : isBlank a = false := by
        rw [← Bool.not_eq_true]
        intro ha
        have := isIdentPart_of_isBlank ha
        rw [hident a (htext ▸ List.mem_cons_self)] at this
        cases this
      rw [List.cons_append, List.dropWhile_cons_of_neg (by simp [ha])]
  rw [isJump, hblank, beq_self_eq_true, Bool.true_and, leadsJump, List.any_eq_false]
  intro w hw
  rw [Bool.and_eq_true, not_and, Bool.not_eq_true, Bool.not_eq_false']
  intro hp
  have hbracket : '(' ∉ w := by
    have hall : ∀ v ∈ jumpWords, '(' ∉ v := by decide
    exact hall w hw
  obtain ⟨r, hr⟩ := (prefix_append_cons_iff hbracket).mp (List.isPrefixOf_iff_prefix.mp hp)
  have hreserved : ∀ v ∈ jumpWords, v ∈ keywords := by decide
  cases r with
  | nil =>
    rw [List.append_nil] at hr
    exact absurd (hr ▸ hreserved w hw) f.notReserved
  | cons d r =>
    have hd : isIdentPart d = true := hident d (by simp [← hr])
    have hdollar : d ≠ '$' := by
      rintro rfl
      have := List.any_eq_false.mp hf w hw
      rw [← hr] at this
      simp at this
    rw [← hr, List.append_assoc, List.drop_left, List.cons_append, startsIn, List.head?_cons,
      Option.any_some]
    simpa [isIdentPart, hdollar] using hd

/-- What starts with a conditional is no jump. -/
theorem isJump_guard (c : Phrase) (s : Text) : isJump (headed "if" c ++ s) ';' = false := rfl

/-! ## The text without dead code -/

/-- What follows the statements of a block or program: nothing, or the end of the block. -/
def Follows (t : Text) : Prop := t = [] ∨ ∃ z, t = ' ' :: '\x7d' :: z

/-- Up to the end of the block only white space follows. -/
theorem Follows.blockRest (ht : Follows t) :
    ∀ a ∈ blockRest 0 t, isBlank a = true := by
  rcases ht with rfl | ⟨z, rfl⟩
  · exact List.forall_mem_nil _
  · have hspace : isBlank ' ' = true := by decide
    simpa [Optimize.blockRest, blockRestLength] using hspace

/-- White space keeps nothing alive. -/
theorem occursIn_keptAlive_of_blank (hs : ∀ a ∈ s, isBlank a = true) :
    keptAlive.occursIn s = false := by
  rw [← Bool.not_eq_true, occursIn_keptAlive_iff]
  have hcolon : ':' ∉ s := fun hmem => absurd (hs _ hmem) (by decide)
  rintro (⟨w, hw, x, y, rfl, -⟩ | ⟨b, a, n, b', y, rfl, -⟩ | ⟨x, c, y, rfl, -, b, a, n, b', y', rfl, -⟩)
  · have hall : ∀ v ∈ keptWords, v.any isWord = true := by decide
    obtain ⟨a, ha, hword⟩ := List.any_eq_true.mp (hall w hw)
    rw [isWord_of_isBlank (hs a (by simp [ha]))] at hword
    cases hword
  · exact hcolon (by simp)
  · exact hcolon (by simp)

/-- White space behind statements keeps nothing alive either. -/
theorem occursIn_keptAlive_append_blank (hx : IsClosed x) (hs : ∀ a ∈ s, isBlank a = true) :
    keptAlive.occursIn (x ++ s) = keptAlive.occursIn x := by
  have hnil : keptAlive.occursIn [] = false := occursIn_keptAlive_of_blank (List.forall_mem_nil _)
  rcases List.eq_nil_or_concat' x with rfl | ⟨x, c, rfl⟩
  · rw [List.nil_append, occursIn_keptAlive_of_blank hs, hnil]
  · have hc : isStop c = true := by
      rcases hx with hx | hx
      · simp at hx
      · rwa [endsIn_append _ (List.cons_ne_nil c [])] at hx
    rw [List.append_assoc, List.singleton_append, occursIn_keptAlive_append_cons hc,
      occursIn_keptAlive_append_cons hc, occursIn_keptAlive_of_blank hs, hnil]

/-- Behind a jump the other statements of a block are left if something in them is kept alive, and
nothing of them otherwise. -/
theorem leftBehind_spaced (p : Program) (ht : Follows t) :
    leftBehind (p.spaced ++ t) = if keptAlive.occursIn p.spaced then p.spaced ++ t else t := by
  obtain ⟨hrest, hend⟩ := p.isBalanced_spaced 0 t
  have hkept : keptAlive.occursIn (blockRest 0 (p.spaced ++ t)) = keptAlive.occursIn p.spaced := by
    rw [hrest, occursIn_keptAlive_append_blank p.isClosed_spaced ht.blockRest]
  cases halive : keptAlive.occursIn p.spaced with
  | true =>
    rw [if_pos rfl, leftBehind_of_isIdle]
    rw [isIdle, hkept, halive, Bool.or_true]
  | false =>
    rw [if_neg Bool.false_ne_true]
    rcases p.isClosed_spaced with hnil | hlast
    · rw [hnil, List.nil_append, leftBehind_of_isIdle]
      rw [isIdle, Text.trim_eq_nil_iff.mpr ht.blockRest]
      rfl
    · have hne : p.spaced ≠ [] := fun hnil => by
        rw [hnil] at hlast
        cases hlast
      rw [endsIn_eq _ hne] at hlast
      have hstop := (of_isStop hlast).2.2.1
      have hidle : isIdle (p.spaced ++ t) = false := by
        rw [isIdle, hkept, halive, Bool.or_false, ← Bool.not_eq_true, List.isEmpty_iff,
          Text.trim_eq_nil_iff, hrest]
        intro hblank
        rw [hblank _ (List.mem_append_left _ (List.getLast_mem hne))] at hstop
        cases hstop
      have htrim : Text.trimEnd (blockRest 0 (p.spaced ++ t)) = p.spaced := by
        rw [hrest, Text.trimEnd_append, if_pos (Text.trimEnd_eq_nil_iff.mpr ht.blockRest)]
        exact trimEnd_eq_self (by rw [endsIn_eq _ hne]; exact hstop)
      rw [leftBehind, hidle, if_neg Bool.false_ne_true, htrim, hrest, hend, List.drop_left,
        blockRest_append_blockEnd]

/-- A program in which no call reads as a jump, where jumps could stand. -/
def Program.CallsAreCalls : Program → Prop
  | .done => True
  | .simple (.call f) rest => f.readsAsJump = false ∧ rest.CallsAreCalls
  | .simple (.jump _) rest => rest.CallsAreCalls
  | .block body rest => body.CallsAreCalls ∧ rest.CallsAreCalls
  | .branch _ body rest => body.CallsAreCalls ∧ rest.CallsAreCalls
  | .choose _ yes no rest => yes.CallsAreCalls ∧ no.CallsAreCalls ∧ rest.CallsAreCalls
  | .guard _ _ rest => rest.CallsAreCalls
  | .loop _ body rest => body.CallsAreCalls ∧ rest.CallsAreCalls

/-- What is no jump stays, with all that follows. -/
theorem pruned_pass (hs : IsPhrase s) (hc : isStop c = true) (hjump : isJump s c = false) (z : Text) :
    pruned (s ++ [c] ++ z) = s ++ [c] ++ pruned z := by
  rw [List.append_assoc, List.singleton_append, pruned_append hs hc, hjump,
    if_neg Bool.false_ne_true, List.append_assoc]
  rfl

/-- A block stays, without the dead statements in it. -/
theorem pruned_braced (hs : IsPhrase s) {x' : Text}
    (hx : ∀ {t}, Follows t → pruned (x ++ t) = x' ++ pruned t) (z : Text) :
    pruned (s ++ braced x ++ z) = s ++ braced x' ++ pruned z := by
  have hparts (x z : Text) : s ++ braced x ++ z = s ++ ['\x7b'] ++ (x ++ ([' '] ++ ['\x7d'] ++ z)) := by
    simp [braced]
  rw [hparts, hparts, pruned_pass hs (by decide) rfl,
    hx (t := [' '] ++ ['\x7d'] ++ z) (Or.inr ⟨z, rfl⟩), pruned_pass (by decide) (by decide) rfl]

/-- The text of statements without dead code is the text of the statements that are not dead. -/
theorem Program.pruned_spaced (p : Program) (hp : p.CallsAreCalls) (ht : Follows t) :
    pruned (p.spaced ++ t) = p.prune.spaced ++ pruned t := by
  induction p generalizing t with
  | done => rfl
  | simple first rest ih =>
    have hspace (s : Text) (hs : IsPhrase s) : IsPhrase (' ' :: s) :=
      List.forall_mem_cons.mpr ⟨by decide, hs⟩
    cases first with
    | call f =>
      have hcall : isJump (' ' :: Simple.text (.call f)) ';' = false :=
        (isJump_space _ _).trans (isJump_call hp.1)
      rw [spaced, List.append_assoc, pruned_pass (hspace _ (Simple.isPhrase _)) (by decide) hcall,
        ih hp.2 ht, prune, spaced]
      simp only [List.append_assoc]
    | jump j =>
      have hjump : isJump (' ' :: Simple.text (.jump j)) ';' = true :=
        (isJump_space _ _).trans (isJump_jump j)
      rw [spaced, List.append_assoc, List.append_assoc, List.singleton_append,
        pruned_append (hspace _ (Simple.isPhrase _)) (by decide), hjump, if_pos rfl,
        leftBehind_spaced rest ht, prune, spaced]
      cases keptAlive.occursIn rest.spaced with
      | true => simp [ih hp ht]
      | false => simp [spaced]
  | block body rest ihb ih =>
    rw [spaced, List.append_assoc, pruned_braced (by decide) (ihb hp.1), ih hp.2 ht, prune, spaced]
    simp only [List.append_assoc]
  | branch c body rest ihb ih =>
    rw [spaced, List.append_assoc, pruned_braced (headed_isPhrase isPhrase_if c) (ihb hp.1),
      ih hp.2 ht, prune, spaced]
    simp only [List.append_assoc]
  | choose c yes no rest ihy ihn ih =>
    rw [spaced, List.append_assoc, List.append_assoc,
      pruned_braced (headed_isPhrase isPhrase_if c) (ihy hp.1),
      pruned_braced isPhrase_else (ihn hp.2.1), ih hp.2.2 ht, prune, spaced]
    simp only [List.append_assoc]
  | guard c body rest ih =>
    have hhead := (headed_isPhrase isPhrase_if c).append body.isPhrase
    rw [spaced, List.append_assoc, pruned_pass hhead (by decide) (isJump_guard c _), ih hp ht, prune,
      spaced]
    simp only [List.append_assoc]
  | loop c body rest ihb ih =>
    rw [spaced, List.append_assoc, pruned_braced (headed_isPhrase isPhrase_while c) (ihb hp.1),
      ih hp.2 ht, prune, spaced]
    simp only [List.append_assoc]

/-- A space before a text stays there. -/
theorem pruned_space (t : Text) : pruned (' ' :: t) = ' ' :: pruned t := by
  have hspace {s : Text} (hs : ∀ a ∈ s, isStop a = false) : ∀ a ∈ ' ' :: s, isStop a = false :=
    List.forall_mem_cons.mpr ⟨by decide, hs⟩
  rcases exists_statement t with hs | ⟨s, c, z, rfl, hs, hc⟩
  · rw [pruned_of_endless hs, pruned_of_endless (hspace hs)]
  · rw [pruned_append hs hc, ← List.cons_append, pruned_append (hspace hs) hc, isJump_space]
    rfl

/-- Each statement stands behind a space. -/
theorem Program.spaced_eq (p : Program) : p.spaced = [] ∨ p.spaced = ' ' :: p.text := by
  cases p with
  | done => exact Or.inl rfl
  | _ => exact Or.inr rfl

/-- The text of a program without dead code is the text of the program that is not dead. -/
theorem Program.pruned_text (p : Program) (hp : p.CallsAreCalls) : pruned p.text = p.prune.text := by
  have hnil : pruned [] = [] := pruned_of_endless (List.forall_mem_nil _)
  have hspaced := p.pruned_spaced hp (Or.inl rfl)
  rw [List.append_nil, hnil, List.append_nil] at hspaced
  rw [text, text, ← hspaced]
  rcases p.spaced_eq with h | h
  · rw [h, List.drop_nil, hnil, List.drop_nil]
  · rw [h, pruned_space]
    rfl

theorem IsBare.append {x y : Text} (hx : IsBare x) (hy : IsBare y) : IsBare (x ++ y) :=
  List.forall_mem_append.mpr ⟨hx, hy⟩

theorem Callee.isBare (f : Callee) : IsBare f.text := by
  have hnone : ∀ d ∈ ['\x22', '\x27', '\x60', '/'], isIdentPart d = false :=
    List.all_iff_forall_prop.mp (by decide)
  intro c hc hmem
  have := hnone c hmem
  rw [f.isIdent.2 c hc] at this
  cases this

theorem Phrase.isBare (c : Phrase) : IsBare c.text := by
  have hall : ∀ d ∈ ['\x22', '\x27', '\x60', '/'], d ∈ "();\x7b\x7d\x22\x27\x60/".toList :=
    List.all_iff_forall_prop.mp (by decide)
  exact fun d hd hmem => c.isPlain d hd (hall d hmem)

theorem Simple.isBare (first : Simple) : IsBare first.text := by
  have hcall : IsBare "()" := by decide
  have hraise : IsBare "throw " := by decide
  cases first with
  | call f => exact f.isBare.append hcall
  | jump j =>
    cases j with
    | back => exact (by decide : IsBare "return")
    | stop => exact (by decide : IsBare "break")
    | next => exact (by decide : IsBare "continue")
    | raise value => exact hraise.append value.isBare

theorem headed_isBare {keyword : Text} (h : IsBare keyword) (c : Phrase) :
    IsBare (headed keyword c) := by
  have hopen : IsBare " (" := by decide
  have hclose : IsBare ") " := by decide
  have hspace : IsBare [' '] := by decide
  exact hspace.append (h.append (hopen.append (c.isBare.append hclose)))

theorem IsBare.braced {x : Text} (hx : IsBare x) : IsBare (braced x) := by
  have hopen : IsBare ['\x7b'] := by decide
  exact hopen.append (hx.append (by decide))

/-- Nothing in the text of a program is a literal or a comment. -/
theorem Program.isBare_spaced (p : Program) : IsBare p.spaced := by
  have hif : IsBare "if" := by decide
  have hwhile : IsBare "while" := by decide
  have helse : IsBare " else " := by decide
  have hsemi : IsBare [';'] := by decide
  have hspace : IsBare [' '] := by decide
  induction p with
  | done => exact List.forall_mem_nil _
  | simple first rest ih => exact ((hspace.append first.isBare).append hsemi).append ih
  | block body rest ihb ih => exact (hspace.append ihb.braced).append ih
  | branch c body rest ihb ih => exact ((headed_isBare hif c).append ihb.braced).append ih
  | choose c yes no rest ihy ihn ih =>
    exact (((headed_isBare hif c).append ihy.braced).append (helse.append ihn.braced)).append ih
  | guard c body rest ih =>
    exact (((headed_isBare hif c).append body.isBare).append hsemi).append ih
  | loop c body rest ihb ih => exact ((headed_isBare hwhile c).append ihb.braced).append ih

theorem Program.isBare_text (p : Program) : IsBare p.text :=
  fun c hc => p.isBare_spaced c (List.mem_of_mem_drop hc)

/-- Dropping dead code from a program gives a program with the same calls, the same tests and the
same ending, whatever the answers to the conditions are and however often loops go round. -/
theorem deadCodeElimination_keeps_run (p : Program) (hu : Unmarked p.text) (hp : p.CallsAreCalls) :
    ∃ q : Program, deadCodeElimination p.text = .ok q.text ∧
      ∀ (o : Oracle) (bound : Nat) (past : List Event), q.run o bound past = p.run o bound past := by
  refine ⟨p.prune, ?_, fun o bound past => congrFun (p.run_prune o bound) past⟩
  rw [deadCodeElimination_eq p.isBare_text hu, p.pruned_text hp]

/-- A name as a callee, if it is one. -/
def Callee.named (name : String)
    (h : (startsIn isIdentStart name.toList = true ∧ name.toList.all isIdentPart = true) ∧
      name.toList ∉ keywords) : Callee :=
  ⟨name.toList, h.1.imp_right List.all_eq_true.mp, h.2⟩

/-- A loop that is left early, with statements behind the jump, and a conditional return. -/
def leavingLoop : Program :=
  let call (name : String) (h) := Simple.call (Callee.named name h)
  let a : Phrase := ⟨"a", List.all_iff_forall_prop.mp (by decide)⟩
  .loop a (.simple (call "f" (by decide)) (.guard a (.jump .next)
      (.simple (.jump .stop) (.simple (call "returned" (by decide)) .done))))
    (.choose a (.simple (.jump (.raise a)) (.block (.simple (.jump .back) .done) .done))
      (.simple (call "case$" (by decide)) .done) (.simple (.jump .back)
        (.simple (call "g" (by decide)) .done)))

theorem deadCodeElimination_keeps_run_leavingLoop :
    Unmarked leavingLoop.text ∧ leavingLoop.CallsAreCalls ∧
      ∃ q : Program, deadCodeElimination leavingLoop.text = .ok q.text ∧
        ∀ (o : Oracle) (bound : Nat) (past : List Event),
          q.run o bound past = leavingLoop.run o bound past :=
  have hu : Unmarked leavingLoop.text := by decide
  have hp : leavingLoop.CallsAreCalls := by
    simp only [leavingLoop, Program.CallsAreCalls]
    decide +kernel
  ⟨hu, hp, deadCodeElimination_keeps_run leavingLoop hu hp⟩

/-- A call whose name starts with a jumping word and a dollar sign, and a call behind it. -/
def callBehindCall : Program :=
  .simple (.call (Callee.named "return$" (by decide)))
    (.simple (.call (Callee.named "f" (by decide))) .done)

/-- Only one program has the text of the first call alone. -/
theorem Program.run_of_text_eq {q : Program} (h : q.text = "return$();".toList) (o : Oracle) :
    q.run o 0 [] = ([.called "return$"], .normal) := by
  cases q with
  | done => cases h
  | simple first rest =>
    have hrest : first.text ++ [';'] ++ rest.spaced = "return$();".toList := h
    cases first with
    | jump j => cases j <;> cases hrest
    | call f =>
      have hname : f.text ++ '(' :: ([')', ';'] ++ rest.spaced) = "return$();".toList := by
        rw [← hrest]
        simp [Simple.text]
      have hident : (f.text ++ '(' :: ([')', ';'] ++ rest.spaced)).takeWhile isIdentPart = f.text := by
        rw [List.takeWhile_append_of_pos f.isIdent.2, List.takeWhile_cons_of_neg (by decide),
          List.append_nil]
      have hf : f.text = "return$".toList := by
        rw [← hident, hname]
        decide
      have hnil : rest.spaced = [] := by
        rw [hf] at hname
        simpa using hname
      cases rest with
      | done =>
        rw [Program.run, Simple.run, hf]
        rfl
      | _ => cases hnil
  | block body rest => cases h
  | branch c body rest => cases h
  | choose c yes no rest => cases h
  | guard c body rest => cases h
  | loop c body rest => cases h

/-- A call behind one whose name reads as a jump is dropped. -/
theorem deadCodeElimination_drops_call :
    ¬ ∃ q : Program, deadCodeElimination callBehindCall.text = .ok q.text ∧
      ∀ (o : Oracle) (bound : Nat) (past : List Event),
        q.run o bound past = callBehindCall.run o bound past := by
  rintro ⟨q, htext, hrun⟩
  have hout : deadCodeElimination callBehindCall.text = .ok "return$();".toList :=
    Outcome.toOption_eq_some_iff.mp (by decide +kernel)
  have hq := hrun (fun _ _ => true) 0 []
  rw [Program.run_of_text_eq (Except.ok.inj (htext.symm.trans hout))] at hq
  cases hq

end HostScript.Optimize
