import HostScript.Proofs.Body.Send
import HostScript.Proofs.Optimize.LiteralRun
import HostScript.Proofs.Pattern.Longer

/-!
# Nested message sends

Sends are rephrased from the inside out: each round finds the first pair of brackets with none
inside, and what it writes in their place holds no bracket. So a send is read when its receiver and
its arguments are in script form, and one round for each opening bracket rephrases a whole tree of
sends.
-/

namespace HostScript.Body.ObjC

open Pattern Script

variable {t x y : Text}

/-! ## Rounds -/

/-- Brackets with a bracket inside are passed over. -/
theorem run_innermostBrackets_eq_none {k : Cursor → Option Cursor} {c : Cursor}
    (hafter : c.after = x ++ '[' :: y) (hne : x ≠ []) (hx : ']' ∉ x) :
    innermostBrackets.run k c = none := by
  rw [Option.eq_none_iff_forall_ne_some]
  intro e he
  obtain ⟨_, gs, d, hall, hpass, -⟩ := covers_run _ _ _ _ he
  obtain ⟨w, rfl, hw⟩ := hall.of_append_lit
  obtain ⟨_, inner, gs₁, gs₂, rfl, -, hopen, hinner⟩ := spells_append_iff.mp hw
  obtain ⟨rfl, -⟩ := spells_lit_iff.mp hopen
  obtain ⟨gs₃, -, hinner⟩ := spells_cap_iff.mp hinner
  have hflat := hinner.mem_of_within (s := outside (among "[]")) (fun c hc => hc)
  obtain ⟨a, x, rfl⟩ := List.exists_cons_of_ne_nil hne
  -- The first bracket behind the opening one closes on the one side and opens on the other.
  have hsplit : x ++ '[' :: y = inner ++ ']' :: d.after := by
    have := hafter.symm.trans hpass.after
    simpa using (List.cons.inj this).2
  have hfind := congrArg (List.find? (among "[]")) hsplit
  have hnone : inner.find? (among "[]") = none := by
    rw [List.find?_eq_none]
    intro c hc
    simpa [outside] using hflat c hc
  have hopens : among "[]" '[' = true := by decide
  have hcloses : among "[]" ']' = true := by decide
  rw [List.find?_append, List.find?_append, hnone, List.find?_cons_of_pos hopens,
    List.find?_cons_of_pos hcloses, Option.none_or] at hfind
  cases hfound : x.find? (among "[]") with
  | none =>
    rw [hfound] at hfind
    revert hfind
    decide
  | some b =>
    rw [hfound] at hfind
    obtain rfl := Option.some.inj hfind
    exact hx (List.mem_cons_of_mem _ (List.mem_of_find?_eq_some hfound))

/-- The first pair of brackets with none inside lies behind the last opening bracket before the
first closing one. -/
theorem search?_innermostBrackets {u inner v : Text} (hu : ']' ∉ u)
    (hinner : ∀ c ∈ inner, c ≠ '[' ∧ c ≠ ']') :
    innermostBrackets.search? (u ++ ('[' :: inner ++ ']' :: v)) =
      some ⟨u ++ ('[' :: inner ++ ']' :: v), u.length, u.length + (inner.length + 2),
        [(1, ⟨u.length + 1, inner⟩)]⟩ := by
  set c : Cursor := ⟨u.reverse, '[' :: inner ++ ']' :: v, u.length, []⟩ with hc
  have hflat : ∀ c ∈ inner, outside (among "[]") c = true := by
    intro c hmem
    have := hinner c hmem
    simp [outside, among, this.1, this.2]
  have hstar : (star (noneOf (among "[]"))).Takes inner ([']'] ++ v) noGroups :=
    takes_star hflat rfl
  have htakes := (takes_text ['['] (inner ++ [']'] ++ v)).append
    ((hstar.cap 1).append (takes_text [']'] v))
  have hrun : innermostBrackets.run some c =
      some (c.behind ('[' :: (inner ++ [']'])) fun pos => [(1, ⟨pos + 1, inner⟩)]) :=
    htakes some c _ (by simp [c]) rfl
  have hskip : innermostBrackets.searchFrom [] 0 false (u ++ ('[' :: inner ++ ']' :: v)) =
      innermostBrackets.searchFrom u.reverse u.length false ('[' :: inner ++ ']' :: v) := by
    have hnone : ∀ x₁ a x₂, u = x₁ ++ a :: x₂ → innermostBrackets.run some
        ⟨x₁.reverse ++ [], a :: x₂ ++ ('[' :: inner ++ ']' :: v), 0 + x₁.length, []⟩ = none := by
      intro x₁ a x₂ hsplit
      refine run_innermostBrackets_eq_none (x := a :: x₂) (y := inner ++ ']' :: v) rfl
        (List.cons_ne_nil _ _) fun hmem => hu ?_
      rw [hsplit]
      exact List.mem_append_right _ hmem
    simpa using searchFrom_append u hnone
  rw [search?, searchAt?]
  simp only [Cursor.atOffset, List.take_zero, List.reverse_nil, List.drop_zero, Nat.zero_min]
  rw [hskip, searchFrom_of_run hrun]
  simp [Match.ofCursors, Cursor.behind, Cursor.advance, c, Nat.add_assoc]

/-- One round turns the send in such a pair into its script form. -/
theorem sendRounds_succ {scope : Scope} {u inner v : Text} {s : Send} (hu : ']' ∉ u)
    (hinner : ∀ c ∈ inner, c ≠ '[' ∧ c ≠ ']') (hs : Send.parse? inner = some s) (n : Nat) :
    sendRounds scope (n + 1) (u ++ ('[' :: inner ++ ']' :: v)) =
      sendRounds scope n (u ++ (s.write scope ++ v)) := by
  have hsplit : u ++ ('[' :: inner ++ ']' :: v) = u ++ ('[' :: inner ++ [']']) ++ v := by simp
  have hafter : (u ++ ('[' :: inner ++ ']' :: v)).drop (u.length + (inner.length + 2)) = v := by
    rw [hsplit]
    exact List.drop_left' (by simp)
  rw [sendRounds, search?_innermostBrackets hu hinner]
  simp only [Match.group, Match.group?, List.lookup_cons_self, Option.map_some, Option.getD_some,
    hs, Match.before, Match.after, List.take_left, hafter, List.append_assoc]

/-! ## Trees of sends -/

/-- A name as it is spelled. -/
structure Name where
  text : Text
  isName : IsName text

/-- An unsigned integer as it is spelled. -/
structure Numeral where
  text : Text
  ne_nil : text ≠ []
  digits : ∀ c ∈ text, isDigit c = true

mutual

/-- A name, a number or a message send. -/
inductive Phrase where
  | name (n : Name)
  | number (n : Numeral)
  | unary (receiver : Phrase) (selector : Name)
  | keyword (receiver : Phrase) (parts : Parts)

/-- The labels of a selector with their arguments, at least one. -/
inductive Parts where
  | last (label : Name) (argument : Phrase)
  | more (label : Name) (argument : Phrase) (rest : Parts)

end

/-- The labels alone. -/
def Parts.labels : Parts → List Text
  | .last label _ => [label.text]
  | .more label _ rest => label.text :: rest.labels

/-- The selector: every label with its colon. -/
def Parts.selector (parts : Parts) : Text := parts.labels.flatMap (· ++ [':'])

mutual

/-- The text of a phrase, with single spaces. -/
def Phrase.source : Phrase → Text
  | .name n => n.text
  | .number n => n.text
  | .unary receiver selector => '[' :: (receiver.source ++ ' ' :: selector.text) ++ [']']
  | .keyword receiver parts => '[' :: (receiver.source ++ ' ' :: parts.source) ++ [']']

/-- The text of labels with their arguments. -/
def Parts.source : Parts → Text
  | .last label argument => label.text ++ ':' :: argument.source
  | .more label argument rest => label.text ++ ':' :: (argument.source ++ ' ' :: rest.source)

end

mutual

/-- A phrase in script form: every send is a call of the method that its labels name. -/
def Phrase.script : Phrase → Text
  | .name n => n.text
  | .number n => n.text
  | .unary receiver selector =>
    callText receiver.script (Selector.methodName [selector.text]) []
  | .keyword receiver parts =>
    callText receiver.script (Selector.methodName parts.labels) parts.scripts

/-- The arguments in script form. -/
def Parts.scripts : Parts → List Text
  | .last _ argument => [argument.script]
  | .more _ argument rest => argument.script :: rest.scripts

end

/-- Whether a phrase can be sent to; a number cannot, and a bare `new` allocates. -/
def Phrase.isReceiver : Phrase → Bool
  | .name n => n.text != "new".toList
  | .number _ => false
  | _ => true

mutual

/-- Whether every send of a phrase is a plain one: it goes to a receiver, does not allocate, and its
selector has no script form of its own. -/
def Phrase.isPlain : Phrase → Bool
  | .name _ => true
  | .number _ => true
  | .unary receiver selector =>
    receiver.isReceiver && receiver.isPlain && selector.text != "new".toList &&
      !isSpecial selector.text
  | .keyword receiver parts =>
    receiver.isReceiver && receiver.isPlain && !isSpecial parts.selector && parts.isPlain

/-- Whether every send in the arguments is a plain one. -/
def Parts.isPlain : Parts → Bool
  | .last _ argument => argument.isPlain
  | .more _ argument rest => argument.isPlain && rest.isPlain

end

/-- The labels and arguments as they stand in the text once the arguments are in script form. -/
def Parts.halfway (parts : Parts) : List (Text × Text) := parts.labels.zip parts.scripts

theorem isName_of_mem_labels : (parts : Parts) → ∀ label ∈ parts.labels, IsName label
  | .last label _ => List.forall_mem_singleton.mpr label.isName
  | .more label _ rest => List.forall_mem_cons.mpr ⟨label.isName, isName_of_mem_labels rest⟩

theorem Parts.length_labels : (parts : Parts) → parts.labels.length = parts.scripts.length
  | .last _ _ => rfl
  | .more _ _ rest => by rw [labels, scripts, List.length_cons, rest.length_labels, List.length_cons]

theorem isReceiver_of_name (n : Name) (h : n.text ≠ "new".toList) : IsReceiver n.text where
  toIsOperand := isOperand_of_word n.isName.ne_nil n.isName.word
  form := by
    obtain ⟨a, x, hx⟩ := List.exists_cons_of_ne_nil n.isName.ne_nil
    have hstart := n.isName.starts
    have hword := n.isName.word
    rw [hx] at hstart hword ⊢
    refine ⟨a, x, [], (List.append_nil _).symm, hstart, fun c hc => ?_, Or.inl rfl⟩
    change (isWord c || _) = true
    rw [(List.forall_mem_cons.mp hword).2 c hc, Bool.true_or]
  ne_new := h

mutual

/-- A phrase in script form is an operand, and a receiver if it can be sent to. -/
theorem Phrase.isOperand : (e : Phrase) → e.isPlain = true →
    IsOperand e.script ∧ (e.isReceiver = true → IsReceiver e.script)
  | .name n, _ =>
    ⟨isOperand_of_word n.isName.ne_nil n.isName.word, fun h => isReceiver_of_name n (bne_iff_ne.mp h)⟩
  | .number n, _ =>
    ⟨isOperand_of_word n.ne_nil fun c hc => isWord_of_isDigit (n.digits c hc), fun h => nomatch h⟩
  | .unary receiver selector, h => by
    simp only [Phrase.isPlain, Bool.and_eq_true] at h
    have hr := (receiver.isOperand h.1.1.2).2 h.1.1.1
    have hcall := hr.call (isWord_of_mem_methodName (List.forall_mem_singleton.mpr selector.isName))
      (List.forall_mem_nil IsOperand)
    exact ⟨hcall.toIsOperand, fun _ => hcall⟩
  | .keyword receiver parts, h => by
    simp only [Phrase.isPlain, Bool.and_eq_true] at h
    have hr := (receiver.isOperand h.1.1.2).2 h.1.1.1
    have hcall := hr.call (isWord_of_mem_methodName (isName_of_mem_labels parts))
      (parts.isOperand h.2)
    exact ⟨hcall.toIsOperand, fun _ => hcall⟩

/-- Arguments in script form are operands. -/
theorem Parts.isOperand : (parts : Parts) → parts.isPlain = true → ∀ a ∈ parts.scripts, IsOperand a
  | .last _ argument, h => List.forall_mem_singleton.mpr (argument.isOperand h).1
  | .more _ argument rest, h => by
    rw [Parts.isPlain, Bool.and_eq_true] at h
    exact List.forall_mem_cons.mpr ⟨(argument.isOperand h.1).1, rest.isOperand h.2⟩

end

theorem Parts.of_mem_halfway {parts : Parts} (h : parts.isPlain = true) :
    ∀ p ∈ parts.halfway, IsName p.1 ∧ IsOperand p.2 := by
  rintro ⟨label, arg⟩ hp
  obtain ⟨hlabel, harg⟩ := List.of_mem_zip hp
  exact ⟨isName_of_mem_labels parts label hlabel, parts.isOperand h arg harg⟩

theorem Parts.halfway_ne_nil : (parts : Parts) → parts.halfway ≠ []
  | .last _ _ => List.cons_ne_nil _ _
  | .more _ _ _ => List.cons_ne_nil _ _

theorem Parts.scripts_ne_nil : (parts : Parts) → parts.scripts ≠ []
  | .last _ _ => List.cons_ne_nil _ _
  | .more _ _ _ => List.cons_ne_nil _ _

theorem selector_eq {receiver : Text} {parts : Parts} :
    Send.selector ⟨receiver, parts.labels, parts.scripts⟩ = parts.selector :=
  if_neg (by simpa using parts.scripts_ne_nil)

theorem IsReceiver.startsIn_isNameStart (h : IsReceiver t) : startsIn isNameStart t = true := by
  obtain ⟨a, x, y, rfl, ha, -, -⟩ := h.form
  exact ha

theorem not_bracket_of_isCallPart {c : Char} (h : isCallPart c = true) : c ≠ '[' ∧ c ≠ ']' := by
  constructor <;> rintro rfl <;> revert h <;> decide

theorem IsOperand.not_bracket (h : IsOperand t) : ∀ c ∈ t, c ≠ '[' ∧ c ≠ ']' :=
  fun c hc => not_bracket_of_isCallPart (h.chars c hc)

theorem notMem_name {n : Text} (h : IsName n) {c : Char} (hc : isCallPart c = false) : c ∉ n :=
  (isOperand_of_word h.ne_nil h.word).notMem hc

mutual

/-- As many rounds as a phrase has opening brackets turn it into its script form, wherever it stands
behind all closing brackets. -/
theorem Phrase.sendRounds_source : (e : Phrase) → e.isPlain = true → ∀ {u : Text}, ']' ∉ u →
    ∀ (v : Text) (n : Nat), sendRounds .nothing (e.source.count '[' + n) (u ++ (e.source ++ v)) =
      sendRounds .nothing n (u ++ (e.script ++ v))
  | .name m, _, u, _, v, n => by
    have hcount : Text.count '[' m.text = 0 :=
      List.count_eq_zero.mpr (notMem_name m.isName (by decide))
    rw [Phrase.source, Phrase.script, hcount, Nat.zero_add]
  | .number m, _, u, _, v, n => by
    have hoperand := isOperand_of_word m.ne_nil fun c hc => isWord_of_isDigit (m.digits c hc)
    have hcount : Text.count '[' m.text = 0 := List.count_eq_zero.mpr (hoperand.notMem (by decide))
    rw [Phrase.source, Phrase.script, hcount, Nat.zero_add]
  | .unary receiver selector, h, u, hu, v, n => by
    simp only [Phrase.isPlain, Bool.and_eq_true, Bool.not_eq_true', bne_iff_ne, ne_eq] at h
    obtain ⟨⟨⟨hreceiver, hplain⟩, hnew⟩, hspecial⟩ := h
    have hr := (receiver.isOperand hplain).2 hreceiver
    have hcount : Text.count '[' (Phrase.unary receiver selector).source =
        receiver.source.count '[' + 1 := by
      have hnone : List.count '[' selector.text = 0 :=
        List.count_eq_zero.mpr (notMem_name selector.isName (by decide))
      simp [Phrase.source, Text.count, hnone]
    have hopen : ']' ∉ u ++ ['['] := by simpa using hu
    have hinner : ∀ c ∈ receiver.script ++ ' ' :: selector.text, c ≠ '[' ∧ c ≠ ']' :=
      List.forall_mem_append.mpr ⟨hr.not_bracket, List.forall_mem_cons.mpr ⟨by decide,
        (isOperand_of_word selector.isName.ne_nil selector.isName.word).not_bracket⟩⟩
    have hwrite := write_nothing (s := ⟨receiver.script, [selector.text], []⟩) hr.startsIn_isNameStart
      hspecial fun _ => fun h => hnew (Option.some.inj h)
    calc sendRounds .nothing ((Phrase.unary receiver selector).source.count '[' + n)
          (u ++ ((Phrase.unary receiver selector).source ++ v))
        = sendRounds .nothing (receiver.source.count '[' + (n + 1))
            (u ++ ['['] ++ (receiver.source ++ (' ' :: selector.text ++ ']' :: v))) := by
          rw [hcount, Nat.add_assoc, Nat.add_comm 1 n]
          simp [Phrase.source]
      _ = sendRounds .nothing (n + 1)
            (u ++ ['['] ++ (receiver.script ++ (' ' :: selector.text ++ ']' :: v))) :=
          receiver.sendRounds_source hplain hopen _ _
      _ = sendRounds .nothing (n + 1)
            (u ++ ('[' :: (receiver.script ++ ' ' :: selector.text) ++ ']' :: v)) := by simp
      _ = sendRounds .nothing n (u ++ ((Phrase.unary receiver selector).script ++ v)) := by
          rw [sendRounds_succ hu hinner (parse?_unary hr selector.isName), hwrite]
          rfl
  | .keyword receiver parts, h, u, hu, v, n => by
    simp only [Phrase.isPlain, Bool.and_eq_true, Bool.not_eq_true'] at h
    obtain ⟨⟨⟨hreceiver, hplain⟩, hspecial⟩, hparts⟩ := h
    have hr := (receiver.isOperand hplain).2 hreceiver
    have hhalfway := Parts.of_mem_halfway hparts
    have hlabels : parts.halfway.map (·.1) = parts.labels :=
      List.map_fst_zip (Nat.le_of_eq parts.length_labels)
    have hscripts : parts.halfway.map (·.2) = parts.scripts :=
      List.map_snd_zip (Nat.le_of_eq parts.length_labels.symm)
    have hparse := parse?_keyword hr hhalfway parts.halfway_ne_nil
    rw [hlabels, hscripts] at hparse
    have hcount : Text.count '[' (Phrase.keyword receiver parts).source =
        receiver.source.count '[' + (parts.source.count '[' + 1) := by
      simp [Phrase.source, Text.count, Nat.add_assoc]
    have hopen : ']' ∉ u ++ ['['] := by simpa using hu
    have hbehind : ']' ∉ u ++ ['['] ++ (receiver.script ++ [' ']) := by
      simp only [List.mem_append, not_or] at hopen ⊢
      exact ⟨hopen, fun h => (hr.not_bracket _ h).2 rfl, by decide⟩
    have hinner : ∀ c ∈ receiver.script ++ ' ' :: partsText parts.halfway, c ≠ '[' ∧ c ≠ ']' := by
      refine List.forall_mem_append.mpr ⟨hr.not_bracket, List.forall_mem_cons.mpr ⟨by decide, ?_⟩⟩
      intro c hc
      rcases of_mem_partsText hhalfway c hc with hpart | rfl
      · exact not_bracket_of_isCallPart hpart
      · decide
    have hwrite := write_nothing (s := ⟨receiver.script, parts.labels, parts.scripts⟩)
      hr.startsIn_isNameStart (by rw [selector_eq]; exact hspecial)
      fun hnil => absurd hnil parts.scripts_ne_nil
    calc sendRounds .nothing ((Phrase.keyword receiver parts).source.count '[' + n)
          (u ++ ((Phrase.keyword receiver parts).source ++ v))
        = sendRounds .nothing (receiver.source.count '[' + (parts.source.count '[' + (n + 1)))
            (u ++ ['['] ++ (receiver.source ++ (' ' :: parts.source ++ ']' :: v))) := by
          rw [hcount, Nat.add_assoc, Nat.add_assoc, Nat.add_comm 1 n]
          simp [Phrase.source]
      _ = sendRounds .nothing (parts.source.count '[' + (n + 1))
            (u ++ ['['] ++ (receiver.script ++ (' ' :: parts.source ++ ']' :: v))) :=
          receiver.sendRounds_source hplain hopen _ _
      _ = sendRounds .nothing (parts.source.count '[' + (n + 1))
            (u ++ ['['] ++ (receiver.script ++ [' ']) ++ (parts.source ++ ']' :: v)) := by simp
      _ = sendRounds .nothing (n + 1)
            (u ++ ['['] ++ (receiver.script ++ [' ']) ++ (partsText parts.halfway ++ ']' :: v)) :=
          parts.sendRounds_source hparts hbehind _ _
      _ = sendRounds .nothing (n + 1)
            (u ++ ('[' :: (receiver.script ++ ' ' :: partsText parts.halfway) ++ ']' :: v)) := by
          simp
      _ = sendRounds .nothing n (u ++ ((Phrase.keyword receiver parts).script ++ v)) := by
          rw [sendRounds_succ hu hinner hparse, hwrite]
          rfl

/-- So is every argument behind its label. -/
theorem Parts.sendRounds_source : (parts : Parts) → parts.isPlain = true → ∀ {u : Text}, ']' ∉ u →
    ∀ (v : Text) (n : Nat),
      sendRounds .nothing (parts.source.count '[' + n) (u ++ (parts.source ++ v)) =
        sendRounds .nothing n (u ++ (partsText parts.halfway ++ v))
  | .last label argument, h, u, hu, v, n => by
    have hnone : List.count '[' label.text = 0 :=
      List.count_eq_zero.mpr (notMem_name label.isName (by decide))
    have hcount : Text.count '[' (Parts.last label argument).source =
        argument.source.count '[' := by
      simp [Parts.source, Text.count, hnone]
    have hbehind : ']' ∉ u ++ (label.text ++ [':']) := by
      simp only [List.mem_append, not_or]
      exact ⟨hu, notMem_name label.isName (by decide), by decide⟩
    have hargument := argument.sendRounds_source h hbehind v n
    rw [hcount]
    simpa [Parts.source, Parts.halfway, Parts.labels, Parts.scripts, partsText, Text.join]
      using hargument
  | .more label argument rest, h, u, hu, v, n => by
    rw [Parts.isPlain, Bool.and_eq_true] at h
    have hnone : List.count '[' label.text = 0 :=
      List.count_eq_zero.mpr (notMem_name label.isName (by decide))
    have hcount : Text.count '[' (Parts.more label argument rest).source =
        argument.source.count '[' + rest.source.count '[' := by
      simp [Parts.source, Text.count, hnone]
    have hbehind : ']' ∉ u ++ (label.text ++ [':']) := by
      simp only [List.mem_append, not_or]
      exact ⟨hu, notMem_name label.isName (by decide), by decide⟩
    have hbehind' : ']' ∉ u ++ (label.text ++ ':' :: (argument.script ++ [' '])) := by
      simp only [List.mem_append, List.mem_cons, not_or]
      exact ⟨hu, notMem_name label.isName (by decide), by decide,
        (argument.isOperand h.1).1.notMem (by decide), by decide, List.not_mem_nil⟩
    have hargument := argument.sendRounds_source h.1 hbehind (' ' :: rest.source ++ v)
      (rest.source.count '[' + n)
    have hrest := rest.sendRounds_source h.2 hbehind' v n
    have hhalfway : partsText (Parts.more label argument rest).halfway =
        label.text ++ ':' :: (argument.script ++ ' ' :: partsText rest.halfway) :=
      partsText_cons label.text argument.script rest.halfway_ne_nil
    rw [hcount, Nat.add_assoc, hhalfway]
    simp only [Parts.source, List.append_assoc, List.cons_append, List.nil_append] at hargument hrest ⊢
    rw [hargument, hrest]

end

/-- Without an opening bracket no round changes anything. -/
theorem search?_eq_none (h : '[' ∉ t) : innermostBrackets.search? t = none := by
  have hneeds : innermostBrackets.Needs ['['] := (needs_lit List.infix_rfl).left.left
  refine hneeds.search?_eq_none fun hinfix => h ?_
  exact hinfix.subset (List.mem_singleton_self _)

theorem sendRounds_eq_self {scope : Scope} (h : innermostBrackets.search? t = none) (n : Nat) :
    sendRounds scope n t = t := by
  cases n with
  | zero => rfl
  | succ n => rw [sendRounds, h]

/-- A phrase of plain sends is rephrased as a whole: every send, at any depth, becomes the call of
the method that its labels name on its receiver with its arguments. After fewer rounds than are
allowed no bracket is left. -/
theorem messageSends_source (e : Phrase) (h : e.isPlain = true) :
    messageSends .nothing e.source = e.script ∧
      ∃ rounds < 3 * e.source.count '[' + 10,
        sendRounds .nothing rounds e.source = e.script ∧
          innermostBrackets.search? e.script = none := by
  obtain ⟨hoperand, -⟩ := e.isOperand h
  have hnone : innermostBrackets.search? e.script = none :=
    search?_eq_none (hoperand.notMem (by decide))
  have hrounds (n : Nat) : sendRounds .nothing (e.source.count '[' + n) e.source = e.script := by
    have hsend := e.sendRounds_source h (u := []) List.not_mem_nil [] n
    rw [List.nil_append, List.append_nil, List.nil_append, List.append_nil] at hsend
    rw [hsend, sendRounds_eq_self hnone]
  have hparked : e.script.map (fun c =>
      if c == parkedOpen then '[' else if c == parkedClose then ']' else c) = e.script := by
    have hmap : ∀ c ∈ e.script,
        (if c == parkedOpen then '[' else if c == parkedClose then ']' else c) = c := by
      intro c hc
      have hpart := hoperand.chars c hc
      have hopen : c ≠ parkedOpen := by
        rintro rfl
        revert hpart
        decide
      have hclose : c ≠ parkedClose := by
        rintro rfl
        revert hpart
        decide
      simp [hopen, hclose]
    rw [List.map_congr_left hmap, List.map_id']
  refine ⟨?_, e.source.count '[', by omega, hrounds 0, hnone⟩
  have hbudget := hrounds (2 * e.source.count '[' + 10)
  rw [← Nat.add_assoc, show e.source.count '[' + 2 * e.source.count '[' =
    3 * e.source.count '[' by omega] at hbudget
  rw [messageSends, hbudget, hparked]

/-- Sends as receiver and as argument, with one label and with two. -/
theorem messageSends_source_nested :
    messageSends .nothing "[[a b] put:[c d] at:1]".toList = "a.b().putAt(c.d(), 1)".toList ∧
      ∃ rounds < 19,
        sendRounds .nothing rounds "[[a b] put:[c d] at:1]".toList =
            "a.b().putAt(c.d(), 1)".toList ∧
          innermostBrackets.search? "a.b().putAt(c.d(), 1)".toList = none := by
  let name (s : String) (h : startsIn isNameStart s.toList = true ∧
    ∀ c ∈ s.toList, isWord c = true) : Name := ⟨s.toList, h.1, h.2⟩
  let nested : Phrase :=
    .keyword (.unary (.name (name "a" (by decide))) (name "b" (by decide)))
      (.more (name "put" (by decide))
        (.unary (.name (name "c" (by decide))) (name "d" (by decide)))
        (.last (name "at" (by decide)) (.number ⟨"1".toList, by decide, by decide⟩)))
  have hsource : nested.source = "[[a b] put:[c d] at:1]".toList := by decide +kernel
  have hscript : nested.script = "a.b().putAt(c.d(), 1)".toList := by decide +kernel
  have hnested := messageSends_source nested (by decide +kernel)
  rw [hsource, hscript] at hnested
  exact hnested

end HostScript.Body.ObjC
