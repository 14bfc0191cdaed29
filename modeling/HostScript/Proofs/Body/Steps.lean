import HostScript.Proofs.Body.Labels
import HostScript.Proofs.Body.SimpleCode

/-!
# Steps of a body

A body of simple code declares constants and performs statements, one a line, with a call of the
superclass in between. Its idioms make each declaration one of a script constant, take the labels
off the arguments of the call and end each line.
-/

namespace HostScript.Body

open Script Pattern

/-- A line of a body: the declaration of a constant, or any other statement. -/
inductive Step where
  | declare (name value : Text)
  | perform (code : Text)

namespace Step

/-- The line, with the keyword that a declaration starts with. -/
def line (keyword : String) : Step → Text
  | declare name value => keyword.toList ++ ' ' :: (name ++ ' ' :: '=' :: ' ' :: value)
  | perform code => code

/-- The line of the script. -/
def script (s : Step) : Text := s.line "const" ++ [';']

/-- The name that the line declares. -/
def name? : Step → Option Text
  | declare name _ => some name
  | perform _ => none

end Step

/-! ### Declarations -/

namespace Swift

variable {name value : Text}

/-- The declaration of a constant becomes one of a script constant. -/
theorem declarations_declare (hname : IsWordText name) (hvalue : '\n' ∉ value) (scope : Scope) :
    declarations scope ((Step.declare name value).line "let") =
      (Step.declare name value).line "const" := by
  obtain ⟨n, more, rfl⟩ := List.exists_cons_of_ne_nil hname.1
  have hn : isBlank n = false := by
    cases hblank : isBlank n with
    | false => rfl
    | true =>
      have hword := hname.2 n (List.mem_cons_self ..)
      rw [isWord_of_isBlank hblank] at hword
      cases hword
  obtain ⟨init, hinit⟩ : ∃ init : Text, init = '=' :: ' ' :: value := ⟨_, rfl⟩
  have hhead : (init ++ []).head? = some '=' := by rw [hinit]; rfl
  have hblank : (init ++ []).head?.any isBlank = false := by rw [hhead]; rfl
  have hindent : (cap 1 blanks).Takes []
      ("let".toList ++ ([' '] ++ ((n :: more) ++ ([' '] ++ (init ++ []))))) _ :=
    (takes_star (List.forall_mem_nil _) rfl).cap 1
  have hkeyword : (cap 2 (choice ["let", "var"])).Takes "let"
      ([' '] ++ ((n :: more) ++ ([' '] ++ (init ++ [])))) _ :=
    (Takes.left (takes_text _ _)).cap 2
  have hgap : gap.Takes [' '] ((n :: more) ++ ([' '] ++ (init ++ []))) noGroups :=
    takes_plus (by simp) (by decide) hn
  have htarget : (cap 3 (Pattern.name <|> "(" ++ (oneOf (isWord ||| isBlank ||| among ",")).plus ++
      ")")).Takes (n :: more) ([' '] ++ (init ++ [])) _ :=
    (Takes.left (takes_plus hname.1 hname.2 rfl)).cap 3
  have hspace : blanks.Takes [' '] (init ++ []) noGroups := takes_star (by decide) (hblank)
  have htype : (":" ++ blanks ++ cap 4 (noneOf (among "=")).plusLazy).opt.Takes []
      (init ++ []) noGroups :=
    takes_opt_nil (((refuses_text (hhead ▸ by decide) []).append _).append _)
  have hnone : blanks.Takes [] (init ++ []) noGroups :=
    takes_star (List.forall_mem_nil _) hblank
  have hany : ∀ c ∈ ' ' :: value, (c != '\n') = true := by
    refine List.forall_mem_cons.mpr ⟨by decide, fun c hc => bne_iff_ne.mpr ?_⟩
    rintro rfl
    exact hvalue hc
  have hassign : (cap 5 ("=" ++ any.star)).opt.Takes init []
      fun pos => [(5, ⟨pos, init⟩)] := by
    rw [hinit]
    exact (((takes_text ['='] _).append (takes_star hany rfl)).cap 5).opt (by simp)
  have hhead := (((hindent.append hkeyword).append hgap).append htarget).append hspace
  have htakes := (((hhead.append (y := []) htype).append (y := []) hnone).append hassign).append
    takes_textEnd
  have hline : (Step.declare (n :: more) value).line "let" =
      [] ++ "let".toList ++ [' '] ++ (n :: more) ++ [' '] ++ [] ++ [] ++ init ++ [] := by
    rw [hinit]
    simp [Step.line]
  have hmatch := Takes.match? (p := declarationLine) htakes
  have hparen : Text.startsWith (n :: more) "(" = false := by
    have hne : ('(' == n) = false := by
      refine beq_eq_false_iff_ne.mpr ?_
      rintro rfl
      exact absurd (hname.2 '(' (List.mem_cons_self ..)) (by decide)
    change ('(' == n && List.isPrefixOf [] more) = false
    rw [hne]
    rfl
  rw [declarations, hline, hmatch]
  change [] ++ "const".toList ++ " ".toList ++ (if Text.startsWith (n :: more) "(" then "[" ++
    Text.join ", " (((Text.trimOf (among "()") (n :: more)).splitOn ',').map Text.trim) ++ "]"
    else n :: more) ++ (' ' :: init) = _
  rw [hparen, hinit]
  simp [Step.line]

/-- A line without the keywords declares nothing. -/
theorem declarations_eq_self {line : Text} (hbreak : '\n' ∉ line) (hlet : ¬ HasWord "let" line)
    (hvar : ¬ HasWord "var" line) (scope : Scope) : declarations scope line = line := by
  cases hmatch : declarationLine.match? line with
  | none => rw [declarations, hmatch]
  | some m =>
    obtain ⟨indent, keyword, g, target, b, type, value, hline, hindent, hkeyword, ⟨hg, hblank⟩, -⟩ :=
      declarationParts_of_match? hbreak hmatch
    obtain ⟨d, g, rfl⟩ := List.exists_cons_of_ne_nil hg
    have hd : isWord d = false := isWord_of_isBlank (hblank d (List.mem_cons_self ..))
    have hlast := any_getLast?_of_isBlank hindent
    have hall : ∀ w ∈ (["let", "var"] : List Text), ∀ c ∈ w, isWord c = true := by decide
    have hword : HasWord keyword line := by
      have hbetween := hasWord_between (u := d :: (g ++ (target ++ (b ++ (type ++ value)))))
        (hall keyword hkeyword) hlast hd
      rw [hline]
      simpa using hbetween
    have hnone : ∀ w ∈ (["let", "var"] : List Text), ¬ HasWord w line := by
      exact List.forall_mem_cons.mpr ⟨hlet, List.forall_mem_singleton.mpr hvar⟩
    exact absurd hword (hnone keyword hkeyword)

/-- A line without colons and without the words of labels is no label. -/
theorem labelLine_fits_eq_false {line : Text} (hcase : ¬ HasWord "case" line)
    (helse : ¬ HasWord "else" line) (hcolon : ':' ∉ line) : labelLine.fits line = false := by
  rw [Pattern.fits, Option.isSome_eq_false_iff, Option.isNone_iff_eq_none,
    Option.eq_none_iff_forall_ne_some]
  intro m hm
  rw [Pattern.match?, matchAt?] at hm
  obtain ⟨e, hrun, -⟩ := Option.map_eq_some_iff.mp hm
  obtain ⟨b, gs, d, hb, hpass, hd⟩ := covers_run blanks _ _ _ hrun
  obtain ⟨hblank, -⟩ := of_spells_blanks hb
  have hline : line = b ++ d.after := hpass.after
  have hword {n : String} (hn : IsWordText n.toList)
      (h : (lit n ++ edge).run some d = some e) : HasWord n line := by
    obtain ⟨w, gs, c, hw, hpass, hc⟩ := covers_run (lit n) _ _ _ h
    obtain ⟨rfl, -⟩ := spells_lit_iff.mp hw
    have hends := closes_edge hc (hpass.before ▸ hn.any_head?_reverse _)
    rw [hline, hpass.after]
    exact hasWord_between hn.2 (any_getLast?_of_isBlank hblank) hends
  rw [run_orElse, run_orElse] at hd
  rcases Fit.of_orTry_eq_some hd with h | h
  · exact hcase (hword (n := "case") (by decide) h)
  · rcases Fit.of_orTry_eq_some h with h | h
    · have hneeds : ("default" ++ blanks ++ ":").Needs [':'] := .right (needs_lit (by decide))
      obtain ⟨w, gs, c, hw, hpass, -⟩ := covers_run _ _ _ _ h
      have hmem := (List.singleton_infix_iff _ _).mp (hneeds w gs hw)
      rw [hline, hpass.after] at hcolon
      exact hcolon (List.mem_append_right _ (List.mem_append_left _ hmem))
    · exact helse (hword (n := "else") (by decide) h)

end Swift

open Swift

/-! ### Plain steps -/

/-- The words that only the lines themselves may have. -/
def keywords : List Text := ["let", "var", "super"]

/-- Simple code on a line of its own. -/
structure IsLine (ws : List Text) (t : Text) : Prop where
  simple : IsSimple ws t
  nonempty : t ≠ []
  trimmed : t.trim = t
  line : '\n' ∉ t
  colon : ':' ∉ t

/-- A line of simple code that is over where it ends. -/
def Step.IsPlain (ws : List Text) : Step → Prop
  | declare name value => IsWordText name ∧ IsSimple ws name ∧ IsLine ws value ∧
      value.getLast?.any continuesLine = false
  | perform code => IsLine ws code ∧ code.getLast?.any continuesLine = false

/-- The label of an argument is a word, and its value simple code with its brackets closed. -/
structure Swift.Argument.IsSimpleIn (ws : List Text) (a : Argument) : Prop where
  label : IsSimple ws a.label
  word : ∀ c ∈ a.label, isWord c = true
  start : ∀ c ∈ a.label.head?, isNameStart c = true
  value : IsLine ws a.value
  nested : isNested 0 a.value = true

variable {ws : List Text} {s : Step} {a : Argument}

namespace Step.IsPlain

variable (h : s.IsPlain ws) (keyword : String)
include h

/-- A line is simple, whatever word its declaration starts with. -/
theorem isSimple_line {words : List Text} (hsub : words ⊆ ws) (hwords : ∀ w ∈ words, w ≠ [])
    (hkeyword : IsSimple words keyword) : IsSimple words (s.line keyword) := by
  cases s with
  | declare name value =>
    obtain ⟨-, hname, hvalue, -⟩ := h
    have hset : IsSimple words (name ++ (" = " ++ value)) :=
      (hname.mono hsub).append hwords (hvalue.simple.mono hsub) (by decide) (by decide)
    exact hkeyword.append_cons hset (by decide)
  | perform code => exact h.1.simple.mono hsub

theorem notMem_line {c : Char} (hc : c ∈ ['\n', ':']) (hkeyword : c ∉ keyword.toList) :
    c ∉ s.line keyword := by
  have hword {name : Text} (hname : IsWordText name) : c ∉ name := fun hmem => by
    have hall : ∀ c ∈ ['\n', ':'], isWord c = false := by decide
    exact Bool.false_ne_true ((hall c hc).symm.trans (hname.2 c hmem))
  have hcode {t : Text} (ht : IsLine ws t) : c ∉ t := by
    rcases List.mem_pair.mp hc with rfl | rfl
    · exact ht.line
    · exact ht.colon
  have hmarks : ∀ c ∈ ['\n', ':'], c ≠ ' ' ∧ c ≠ '=' := by decide
  cases s with
  | declare name value =>
    obtain ⟨hname, -, hvalue, -⟩ := h
    simp [line, hkeyword, hword hname, hcode hvalue, hmarks c hc]
  | perform code => exact hcode h.1

/-- A line ends where its statement does. -/
theorem exists_getLast?_line :
    ∃ c, (s.line keyword).getLast? = some c ∧ isBlank c = false ∧ continuesLine c = false := by
  have hcode {t : Text} (ht : IsLine ws t) (hends : t.getLast?.any continuesLine = false) :
      ∃ c, t.getLast? = some c ∧ isBlank c = false ∧ continuesLine c = false := by
    obtain ⟨c, hc⟩ := Option.isSome_iff_exists.mp (List.getLast?_isSome.mpr ht.nonempty)
    rw [hc] at hends
    exact ⟨c, hc, Text.isBlank_of_getLast?_trim c (ht.trimmed.symm ▸ hc), hends⟩
  cases s with
  | declare name value =>
    obtain ⟨-, -, hvalue, hends⟩ := h
    obtain ⟨c, hc, hrest⟩ := hcode hvalue hends
    obtain ⟨u, rfl⟩ := List.getLast?_eq_some_iff.mp hc
    exact ⟨c, List.getLast?_eq_some_iff.mpr
      ⟨keyword.toList ++ ' ' :: (name ++ ' ' :: '=' :: ' ' :: u), by simp [line]⟩, hrest⟩
  | perform code => exact hcode h.1 h.2

omit keyword in
theorem declarations_line (hsub : keywords ⊆ ws) (scope : Scope) :
    declarations scope (s.line "let") = s.line "const" := by
  cases s with
  | declare name value =>
    obtain ⟨hname, -, hvalue, -⟩ := h
    exact declarations_declare hname hvalue.line scope
  | perform code =>
    exact declarations_eq_self h.1.line (h.1.simple.words _ (hsub (by decide)))
      (h.1.simple.words _ (hsub (by decide))) scope

omit keyword in
theorem terminateLine_line (hcase : ¬ HasWord "case" (s.line "const"))
    (helse : ¬ HasWord "else" (s.line "const")) : terminateLine (s.line "const") = s.script := by
  obtain ⟨c, hlast, hblank, hends⟩ := h.exists_getLast?_line "const"
  exact terminateLine_eq hlast hblank hends
    (labelLine_fits_eq_false hcase helse (h.notMem_line _ (by decide) (by decide)))

omit keyword in
/-- A line of the script has nothing to trim. -/
theorem trim_script : s.script.trim = s.script := by
  obtain ⟨c, rest, hline, hc⟩ : ∃ c rest, s.line "const" = c :: rest ∧ isBlank c = false := by
    cases s with
    | declare name value => exact ⟨'c', _, rfl, by decide⟩
    | perform code =>
      obtain ⟨c, rest, hcode⟩ := List.exists_cons_of_ne_nil h.1.nonempty
      refine ⟨c, rest, hcode, Text.isBlank_of_head?_trim (t := code) c ?_⟩
      rw [h.1.trimmed, hcode]
      rfl
  refine Text.trim_eq_self ?_ ?_
  · rw [script, hline]
    simpa using hc
  · rw [script, List.getLast?_concat]
    simpa using (by decide : isBlank ';' = false)

omit keyword in
theorem break_notMem_script : '\n' ∉ s.script :=
  List.not_mem_append (h.notMem_line "const" (by decide) (by decide)) (by decide)

end Step.IsPlain

/-! ### A call among steps -/

/-- The text of a call. -/
def callOf (callee : String) (args : List Text) : Text :=
  callee.toList ++ '(' :: (Text.join ", " args ++ [')'])

/-- The lines of steps around a call. -/
def linesAround (call : Text) (keyword : String) (before after : List Step) : List Text :=
  before.map (Step.line keyword) ++ call :: after.map (Step.line keyword)

/-- What stands in front of the call and behind it. -/
theorem unlines_linesAround (callee : String) (ts : List Text) (keyword : String)
    (before after : List Step) :
    Text.unlines (linesAround (callOf callee ts) keyword before after) =
      (before.map (Step.line keyword)).flatMap (· ++ ['\n']) ++ (callee.toList ++ '(' ::
        (Text.join ", " ts ++ ')' :: (after.map (Step.line keyword)).flatMap ('\n' :: ·))) := by
  rw [linesAround, Text.unlines_append_cons, callOf]
  simp

/-- Steps around a call of the superclass, in a scope where they name no members. -/
structure IsPlainBody (scope : Scope) (before : List Step) (args : List Argument)
    (after : List Step) : Prop where
  types : ∀ n ∈ scope.constructible, IsWordText n
  members : ∀ n ∈ scope.properties ++ scope.methods, IsWordText n
  reserved : ∀ w ∈ (["let", "const", "super"] : List Text), w ∉ wordsIn scope
  steps : ∀ s ∈ before ++ after, s.IsPlain (keywords ++ wordsIn scope)
  args : ∀ a ∈ args, a.IsSimpleIn (keywords ++ wordsIn scope)

section Around

variable {scope : Scope} {before after : List Step} {args : List Argument}

theorem ne_nil_of_mem_wordsIn (htypes : ∀ n ∈ scope.constructible, IsWordText n)
    (hmembers : ∀ n ∈ scope.properties ++ scope.methods, IsWordText n) :
    ∀ w ∈ wordsIn scope, w ≠ [] := by
  have hidioms : ∀ w ∈ idiomWords, w ≠ [] := by decide
  refine List.forall_mem_append.mpr ⟨hidioms, List.forall_mem_append.mpr
    ⟨fun w hw => (htypes w hw).1, fun w hw => (hmembers w (List.mem_of_mem_filter hw)).1⟩⟩

theorem isSimple_call {words : List Text} (hwords : ∀ w ∈ words, w ≠ [])
    (hsuper : "super".toList ∉ words) {ts : List Text} (hts : ∀ t ∈ ts, IsSimple words t) :
    IsSimple words (callOf "super" ts) := by
  have hjoined : IsSimple words (Text.join ", " ts) :=
    isSimple_join hwords hts (by decide) (by decide)
  exact (isSimple_word (by decide) hsuper (by decide)).append_cons
    (hjoined.append_cons (isSimple_nil hwords) (by decide)) (by decide)

theorem notMem_callOf {c : Char} (hc : c ∉ "super(), ".toList) {ts : List Text}
    (hts : ∀ t ∈ ts, c ∉ t) : c ∉ callOf "super" ts := by
  have hjoined : c ∉ Text.join ", " ts := fun hmem => by
    rcases Text.mem_of_mem_join hmem with hsep | ⟨t, ht, hin⟩
    · have hall : ∀ d ∈ ", ".toList, d ∈ "super(), ".toList := by decide
      exact hc (hall c hsep)
    · exact hts t ht hin
  have hall : ∀ d ∈ "super()".toList, d ∈ "super(), ".toList := by decide
  have hfixed : c ∉ "super()".toList := fun h => hc (hall c h)
  simp only [callOf, List.mem_append, List.mem_cons, hjoined, false_or]
  rintro (h | rfl | rfl | h)
  · exact hfixed (List.mem_append_left ['(', ')'] h)
  · exact hfixed (by decide)
  · exact hfixed (by decide)
  · cases h

/-- The call declares nothing and is a statement. -/
theorem call_eq (scope : Scope) {ts : List Text}
    (hts : ∀ t ∈ ts, IsSimple (keywords ++ wordsIn scope) t)
    (hbreak : ∀ t ∈ ts, '\n' ∉ t) :
    declarations scope (callOf "super" ts) = callOf "super" ts ∧
      ((∀ t ∈ ts, ':' ∉ t) → terminateLine (callOf "super" ts) = callOf "super" ts ++ [';']) := by
  have hcall {w : Text} (hne : w ≠ []) (hw : w ∈ keywords ++ wordsIn scope)
      (hsuper : "super".toList ≠ w) : ¬ HasWord w (callOf "super" ts) := by
    have hsub : [w] ⊆ keywords ++ wordsIn scope := List.cons_subset.mpr ⟨hw, List.nil_subset _⟩
    have hone : IsSimple [w] (callOf "super" ts) :=
      isSimple_call (List.forall_mem_singleton.mpr hne) (mt List.mem_singleton.mp hsuper)
        fun t ht => (hts t ht).mono hsub
    exact hone.words w (List.mem_singleton_self w)
  have hidiom {w : Text} (hw : w ∈ idiomWords) : w ∈ keywords ++ wordsIn scope :=
    List.mem_append_right _ (List.mem_append_left _ hw)
  have hkeyword {w : Text} (hw : w ∈ keywords) : w ∈ keywords ++ wordsIn scope :=
    List.mem_append_left _ hw
  have hlast : (callOf "super" ts).getLast? = some ')' :=
    List.getLast?_eq_some_iff.mpr ⟨"super".toList ++ '(' :: Text.join ", " ts, by simp [callOf]⟩
  refine ⟨declarations_eq_self (notMem_callOf (by decide) hbreak)
    (hcall (by decide) (hkeyword (by decide)) (by decide))
    (hcall (by decide) (hkeyword (by decide)) (by decide)) scope, fun hcolon => ?_⟩
  exact terminateLine_eq hlast (by decide) (by decide) (labelLine_fits_eq_false
    (hcall (by decide) (hidiom (by decide)) (by decide))
    (hcall (by decide) (hidiom (by decide)) (by decide)) (notMem_callOf (by decide) hcolon))

namespace Swift.Argument.IsSimpleIn

variable (h : a.IsSimpleIn ws)
include h

theorem isSimple_written {words : List Text} (hsub : words ⊆ ws) (hwords : ∀ w ∈ words, w ≠ []) :
    IsSimple words a.written := by
  rw [Argument.written]
  split
  · exact h.value.simple.mono hsub
  · have hpair : IsSimple words (a.label ++ (": " ++ a.value)) :=
      (h.label.mono hsub).append hwords (h.value.simple.mono hsub) (by decide) (by decide)
    exact hpair

theorem break_notMem_written : '\n' ∉ a.written := by
  have hlabel : '\n' ∉ a.label := fun hmem => absurd (h.word _ hmem) (by decide)
  rw [Argument.written]
  split
  · exact h.value.line
  · simp [hlabel, h.value.line]

theorem isPlain : a.IsPlain where
  label := h.word
  start := h.start
  value := by
    obtain ⟨c, v, hv⟩ := List.exists_cons_of_ne_nil h.value.nonempty
    have hc : c ∈ a.value.trim.head? := by rw [h.value.trimmed, hv]; rfl
    rw [hv]
    exact Text.isBlank_of_head?_trim c hc
  colon := h.value.colon
  nested := h.nested

end Swift.Argument.IsSimpleIn

namespace IsPlainBody

variable (h : IsPlainBody scope before args after)
include h

theorem ne_nil : ∀ w ∈ keywords ++ wordsIn scope, w ≠ [] := by
  have hkeywords : ∀ w ∈ keywords, w ≠ [] := by decide
  exact List.forall_mem_append.mpr ⟨hkeywords, ne_nil_of_mem_wordsIn h.types h.members⟩

/-- What holds of the call and of each step holds of each line. -/
theorem forall_mem_linesAround {P : Text → Prop} {call : Text} {keyword : String} (hcall : P call)
    (hsteps : ∀ s : Step, s.IsPlain (keywords ++ wordsIn scope) → P (s.line keyword)) :
    ∀ t ∈ linesAround call keyword before after, P t := by
  have hboth := List.forall_mem_append.mp h.steps
  refine List.forall_mem_append.mpr ⟨?_, List.forall_mem_cons.mpr ⟨hcall, ?_⟩⟩
  · exact List.forall_mem_map.mpr fun s hs => hsteps s (hboth.1 s hs)
  · exact List.forall_mem_map.mpr fun s hs => hsteps s (hboth.2 s hs)

/-- So does what a function makes of them. -/
theorem map_linesAround {f : Text → Text} {call call' : Text} {keyword : String}
    {g : Step → Text} (hcall : f call = call')
    (hsteps : ∀ s : Step, s.IsPlain (keywords ++ wordsIn scope) → f (s.line keyword) = g s) :
    (linesAround call keyword before after).map f = before.map g ++ call' :: after.map g := by
  have hboth := List.forall_mem_append.mp h.steps
  have hmap {ss : List Step} (hss : ∀ s ∈ ss, s.IsPlain (keywords ++ wordsIn scope)) :
      (ss.map (Step.line keyword)).map f = ss.map g := by
    rw [List.map_map]
    exact List.map_congr_left fun s hs => hsteps s (hss s hs)
  rw [linesAround, List.map_append, List.map_cons, hcall, hmap hboth.1, hmap hboth.2]

/-- The text is simple, with labels and without. -/
theorem isSimple {keyword : String} {ts : List Text}
    (hkeyword : IsSimple (wordsIn scope) keyword) (hts : ∀ t ∈ ts, IsSimple (wordsIn scope) t) :
    IsSimple (wordsIn scope)
      (Text.unlines (linesAround (callOf "super" ts) keyword before after)) := by
  have hsub : wordsIn scope ⊆ keywords ++ wordsIn scope := List.subset_append_right _ _
  have hwords : ∀ w ∈ wordsIn scope, w ≠ [] := fun w hw => h.ne_nil w (hsub hw)
  refine isSimple_join hwords (h.forall_mem_linesAround ?_ fun s hs => ?_) (by decide) (by decide)
  · exact isSimple_call hwords (h.reserved _ (by decide)) hts
  · exact hs.isSimple_line keyword hsub hwords hkeyword

/-- The lines are the lines of the text. -/
theorem lines_unlines {keyword : String} {ts : List Text} (hkeyword : '\n' ∉ keyword.toList)
    (hts : ∀ t ∈ ts, '\n' ∉ t) :
    (Text.unlines (linesAround (callOf "super" ts) keyword before after)).lines =
      linesAround (callOf "super" ts) keyword before after := by
  refine Text.lines_unlines (by simp [linesAround]) (h.forall_mem_linesAround ?_ fun s hs => ?_)
  · exact notMem_callOf (by decide) hts
  · exact hs.notMem_line keyword (by decide) hkeyword

/-- The arguments lose their labels. -/
theorem argumentLabels_unlines {keyword : String} (hkeyword : ':' ∉ keyword.toList) :
    argumentLabels scope (Text.unlines
        (linesAround (callOf "super" (args.map Argument.written)) keyword before after)) =
      Text.unlines
        (linesAround (callOf "super" (args.map Argument.value)) keyword before after) := by
  have hboth := List.forall_mem_append.mp h.steps
  have hline {ss : List Step} (hss : ∀ s ∈ ss, s.IsPlain (keywords ++ wordsIn scope))
      {f : Text → Text} (hf : ∀ t, ':' ∈ f t → ':' ∈ t) :
      ':' ∉ (ss.map (Step.line keyword)).flatMap f := by
    simp only [List.mem_flatMap, List.mem_map, not_exists, not_and]
    rintro _ ⟨s, hs, rfl⟩ hmem
    exact (hss s hs).notMem_line keyword (by decide) hkeyword (hf _ hmem)
  rw [unlines_linesAround, unlines_linesAround, ← List.append_assoc, ← List.append_assoc]
  refine argumentLabels_call (fun a ha => (h.args a ha).isPlain) ?_ ?_ scope
  · exact List.not_mem_append (hline hboth.1 (by simp)) (by decide)
  · exact hline hboth.2 (by simp)

/-- Swift's idioms make the declarations script constants, drop the labels of the call and end each
line. -/
theorem applyAll_eq :
    applyAll scope swiftIdioms (Text.unlines
        (linesAround (callOf "super" (args.map Argument.written)) "let" before after)) =
      .ok (Text.unlines (before.map Step.script ++
        (callOf "super" (args.map Argument.value) ++ [';']) :: after.map Step.script)) := by
  have hsub : wordsIn scope ⊆ keywords ++ wordsIn scope := List.subset_append_right _ _
  have hwritten : ∀ t ∈ args.map Argument.written, IsSimple (keywords ++ wordsIn scope) t :=
    List.forall_mem_map.mpr fun a ha =>
      (h.args a ha).isSimple_written (List.Subset.refl _) h.ne_nil
  have hwrittenBreak : ∀ t ∈ args.map Argument.written, '\n' ∉ t :=
    List.forall_mem_map.mpr fun a ha => (h.args a ha).break_notMem_written
  have hvalues : ∀ t ∈ args.map Argument.value, IsSimple (keywords ++ wordsIn scope) t :=
    List.forall_mem_map.mpr fun a ha => (h.args a ha).value.simple
  have hvaluesBreak : ∀ t ∈ args.map Argument.value, '\n' ∉ t :=
    List.forall_mem_map.mpr fun a ha => (h.args a ha).value.line
  have hvaluesColon : ∀ t ∈ args.map Argument.value, ':' ∉ t :=
    List.forall_mem_map.mpr fun a ha => (h.args a ha).value.colon
  have hlet : IsSimple (wordsIn scope) "let".toList :=
    isSimple_word (by decide) (h.reserved _ (by decide)) (by decide)
  have hconst : IsSimple (wordsIn scope) "const".toList :=
    isSimple_word (by decide) (h.reserved _ (by decide)) (by decide)
  have hdeclared : perLine declarations scope (Text.unlines
      (linesAround (callOf "super" (args.map Argument.written)) "let" before after)) =
        Text.unlines
          (linesAround (callOf "super" (args.map Argument.written)) "const" before after) := by
    rw [perLine, h.lines_unlines (by decide) hwrittenBreak,
      h.map_linesAround (call_eq scope hwritten hwrittenBreak).1 fun s hs =>
        hs.declarations_line (List.subset_append_left _ _) scope]
    rfl
  have hidiom {s : Step} (hs : s.IsPlain (keywords ++ wordsIn scope)) {w : Text}
      (hw : w ∈ idiomWords) : ¬ HasWord w (s.line "const") :=
    (hs.isSimple_line "const" hsub (fun w hw => h.ne_nil w (hsub hw)) hconst).words w
      (List.mem_append_left _ hw)
  have hended : terminateStatements scope (Text.unlines
      (linesAround (callOf "super" (args.map Argument.value)) "const" before after)) =
        Text.unlines (before.map Step.script ++
          (callOf "super" (args.map Argument.value) ++ [';']) :: after.map Step.script) := by
    rw [terminateStatements, h.lines_unlines (by decide) hvaluesBreak,
      h.map_linesAround ((call_eq scope hvalues hvaluesBreak).2 hvaluesColon) fun s hs =>
        hs.terminateLine_line (hidiom hs (by decide)) (hidiom hs (by decide))]
  rw [applyAll_swiftIdioms_simple (h.isSimple hlet fun t ht => (hwritten t ht).mono hsub) ?_ ?_
    h.types h.members, hdeclared, h.argumentLabels_unlines (by decide), hended]
  · rw [hdeclared]
    exact h.isSimple hconst fun t ht => (hwritten t ht).mono hsub
  · rw [hdeclared, h.argumentLabels_unlines (by decide)]
    exact h.isSimple hconst fun t ht => (hvalues t ht).mono hsub

end IsPlainBody

end Around

end HostScript.Body
