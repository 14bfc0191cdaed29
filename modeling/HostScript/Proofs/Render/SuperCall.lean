import HostScript.Proofs.Body.Steps
import HostScript.Proofs.Text
import HostScript.Render.Context
import HostScript.Render.TypeMembers

/-!
# The call of the superclass

The constructor of a derived class calls the superclass in its first line, wherever the initializer
does. So nothing that the initializer declares is declared above the call, and the call may name
none of it.
-/

/-!
### The lines of a block

A block is its head, the lines of its body without the blank ones, and its brace. Indentation only
puts white space in front of them.
-/

namespace HostScript.Render

theorem solidLines_unlines (ts : List Text) :
    solidLines (Text.unlines ts) = ts.flatMap solidLines := by
  have happend (t u : Text) : solidLines (t ++ '\n' :: u) = solidLines t ++ solidLines u := by
    rw [solidLines, Text.lines, Text.splitOn_append_cons, List.map_append, List.filter_append]
    rfl
  induction ts with
  | nil => rfl
  | cons t ts ih =>
    cases ts with
    | nil => simp [Text.unlines, Text.join]
    | cons u ts =>
      rw [Text.unlines_cons t (List.cons_ne_nil u ts), happend, ih]
      rfl

theorem solidLines_of_solid {t : Text} (hbreak : '\n' ∉ t) (htrim : t.trim = t) (hne : t ≠ []) :
    solidLines t = [t] := by
  rw [solidLines, Text.lines_eq_singleton hbreak]
  simp [htrim, hne]

/-- Lines with nothing to trim are left. -/
theorem solidLines_unlines_of_solid {ls : List Text}
    (h : ∀ l ∈ ls, '\n' ∉ l ∧ l.trim = l ∧ l ≠ []) : solidLines (Text.unlines ls) = ls := by
  rw [solidLines_unlines]
  induction ls with
  | nil => rfl
  | cons l ls ih =>
    obtain ⟨⟨hbreak, htrim, hne⟩, hrest⟩ := List.forall_mem_cons.mp h
    rw [List.flatMap_cons, solidLines_of_solid hbreak htrim hne, ih hrest]
    rfl

/-- What is left of a text are lines without white space around them. -/
theorem of_mem_solidLines {t l : Text} (h : l ∈ solidLines t) :
    l.trim = l ∧ '\n' ∉ l ∧ l ≠ [] := by
  obtain ⟨hl, hsolid⟩ := List.mem_filter.mp h
  obtain ⟨line, hline, rfl⟩ := List.mem_map.mp hl
  refine ⟨Text.trim_trim line, fun hmem => ?_, by simpa using hsolid⟩
  exact Text.break_notMem_of_mem_lines hline (Text.mem_of_mem_trim _ hmem)

/-- Nothing is left of white space only. -/
theorem solidLines_eq_nil_iff {t : Text} : solidLines t = [] ↔ t.trim = [] := by
  have hline (l : Text) : (!l.trim.isEmpty) = true ↔ l.trim ≠ [] := by simp
  rw [solidLines, List.filter_eq_nil_iff, List.forall_mem_map, Text.trim_eq_nil_iff]
  simp only [hline, not_not, Text.trim_eq_nil_iff]
  refine ⟨fun h c hc => ?_, fun h l hl c hc => h c (Text.mem_of_mem_lines hl c hc)⟩
  rw [← Text.unlines_lines t] at hc
  rcases Text.mem_of_mem_join hc with hsep | ⟨l, hl, hin⟩
  · rw [List.mem_singleton.mp hsep]
    decide
  · exact h l hl c hin

/-- Indenting lines adds white space in front. -/
theorem map_trim_indentLines {unit : Text} (hunit : ∀ c ∈ unit, isBlank c = true) (level : Int)
    {ls : List Text} (hls : ∀ l ∈ ls, l.trim = l) (depth : Int) :
    (indentLines level unit depth ls).map Text.trim = ls := by
  induction ls generalizing depth with
  | nil => rfl
  | cons l ls ih =>
    rw [List.forall_mem_cons] at hls
    rw [indentLines, List.map_cons, ih hls.2, Text.trim_append_of_blank ?_ hls.1]
    intro c hc
    obtain ⟨u, hu, hcu⟩ := List.mem_flatten.mp hc
    exact hunit c (List.eq_of_mem_replicate hu ▸ hcu)

theorem break_notMem_of_mem_indentLines {unit : Text} (hunit : '\n' ∉ unit) (level : Int)
    {ls : List Text} (hls : ∀ l ∈ ls, '\n' ∉ l) (depth : Int) :
    ∀ l ∈ indentLines level unit depth ls, '\n' ∉ l := by
  induction ls generalizing depth with
  | nil => exact List.forall_mem_nil _
  | cons l ls ih =>
    rw [List.forall_mem_cons] at hls
    rw [indentLines, List.forall_mem_cons]
    refine ⟨List.not_mem_append (fun hmem => ?_) hls.1, ih hls.2 _⟩
    obtain ⟨u, hu, hin⟩ := List.mem_flatten.mp hmem
    exact hunit (List.eq_of_mem_replicate hu ▸ hin)

/-- The lines of a block: its head, what stands in it, and its brace. -/
theorem map_trim_lines_block {unit head body : Text} {level : Nat}
    (hunit : ∀ c ∈ unit, isBlank c = true) (hline : '\n' ∉ unit)
    (hhead : (head ++ " \x7b").trim = head ++ " \x7b") (hbreak : '\n' ∉ head)
    (hbody : body.trim ≠ []) :
    (block unit level head body).lines.map Text.trim =
      (head ++ " \x7b") :: (solidLines body ++ ["\x7d".toList]) := by
  have hpad : ∀ c ∈ Text.times level unit, c ∈ unit := by
    intro c hc
    obtain ⟨u, hu, hin⟩ := List.mem_flatten.mp hc
    exact List.eq_of_mem_replicate hu ▸ hin
  have hblank : ∀ c ∈ Text.times level unit, isBlank c = true := fun c hc => hunit c (hpad c hc)
  have hindented := break_notMem_of_mem_indentLines hline (level + 1)
    (fun l (hl : l ∈ solidLines body) => (of_mem_solidLines hl).2.1) 0
  have hne : indentLines (level + 1) unit 0 (solidLines body) ≠ [] := by
    obtain ⟨l, ls, hls⟩ := List.exists_cons_of_ne_nil (mt solidLines_eq_nil_iff.mp hbody)
    rw [hls, indentLines]
    exact List.cons_ne_nil _ _
  have hblock : block unit level head body =
      Text.unlines ((Text.times level unit ++ (head ++ " \x7b")) ::
        (indentLines (level + 1) unit 0 (solidLines body) ++
          [Text.times level unit ++ "\x7d"])) := by
    rw [block, if_neg (by simpa using hbody), reindent, Text.unlines_cons _ (by simp),
      Text.unlines_append hne (List.cons_ne_nil _ _)]
    simp [Text.unlines, Text.join]
  have hlines : ∀ l ∈ (Text.times level unit ++ (head ++ " \x7b")) ::
      (indentLines (level + 1) unit 0 (solidLines body) ++ [Text.times level unit ++ "\x7d"]),
      '\n' ∉ l := by
    have hmargin : '\n' ∉ Text.times level unit := fun hmem => hline (hpad _ hmem)
    refine List.forall_mem_cons.mpr ⟨?_, List.forall_mem_append.mpr ⟨hindented,
      List.forall_mem_singleton.mpr (List.not_mem_append hmargin (by decide))⟩⟩
    exact List.not_mem_append hmargin (List.not_mem_append hbreak (by decide))
  rw [hblock, Text.lines_unlines (List.cons_ne_nil _ _) hlines, List.map_cons, List.map_append,
    map_trim_indentLines hunit _ fun l hl => (of_mem_solidLines hl).1,
    Text.trim_append_of_blank hblank hhead, List.map_singleton,
    Text.trim_append_of_blank hblank (by decide)]

end HostScript.Render

namespace HostScript

open Body

namespace Render

/-! ### The call in the initializer -/

open Pattern Script

/-- A call of an initializer of the superclass starts with a word. -/
theorem run_superInit_eq_none {x y : Text}
    (h : ∀ r, y = "super.init" ++ r → x.getLast?.any isWord = true) :
    superInit.run some ⟨x.reverse, y, x.length, []⟩ = none := by
  rw [Option.eq_none_iff_forall_ne_some]
  intro e he
  rw [superInit, run_seq, run_seq, run_seq] at he
  obtain ⟨hrun, hedge⟩ := opens_edge he
  obtain ⟨w, gs, d, hw, hpass, -⟩ := covers_run (lit "super.init") _ _ _ hrun
  obtain ⟨rfl, -⟩ := spells_lit_iff.mp hw
  have hy : y = "super.init" ++ d.after := hpass.after
  have hfirst : isWord 's' = true := by decide
  have hword : y.head?.any isWord = true := by
    rw [hy]
    exact hfirst
  have hbefore := hedge hword
  rw [List.head?_reverse, h _ hy] at hbefore
  cases hbefore

/-- The call of an initializer of the superclass becomes one of the superclass itself. -/
theorem replace_superInit {x y : Text} (hx : ¬ HasWord "super" x) (hy : ¬ HasWord "super" y)
    (hline : ∀ c ∈ x.getLast?, c = '\n') :
    superInit.replace (fun _ => "super(") (x ++ ("super.init(".toList ++ y)) =
      x ++ ("super(".toList ++ y) := by
  have hword {u r : Text} (hu : u.getLast?.any isWord = false) :
      HasWord "super" (u ++ ("super.init".toList ++ r)) :=
    hasWord_between (w := "super") (u := ".init".toList ++ r) (by decide) hu rfl
  have hbehind : superInit.Replaced (fun _ => "super(") (x ++ "super.init(".toList) y y := by
    refine replaced_of_forall fun u v huv => run_superInit_eq_none fun r hr => ?_
    by_contra hno
    rw [Bool.not_eq_true] at hno
    refine hy (huv ▸ hr ▸ hword ?_)
    cases u with
    | nil => rfl
    | cons c u =>
      rw [List.getLast?_append_of_ne_nil _ (List.cons_ne_nil c u)] at hno
      exact hno
  have hrun : superInit.run some ⟨x.reverse, "super.init(".toList ++ y, x.length, []⟩ =
      some ⟨(x ++ "super.init(".toList).reverse, y, (x ++ "super.init(".toList).length, []⟩ := by
    have hplace : Cursor.onEdge ⟨x.reverse, "super.init(".toList ++ y, x.length, []⟩ = true := by
      have hbefore : x.getLast?.any isWord = false := by
        cases hlast : x.getLast? with
        | none => rfl
        | some c =>
          rw [hline c hlast]
          decide
      have hfirst : isWord 's' = true := by decide
      rw [Cursor.onEdge, List.head?_reverse, hbefore]
      change (false != isWord 's') = true
      rw [hfirst]
      rfl
    have hedge (k : Cursor → Option Cursor) :
        edge.run k ⟨x.reverse, "super.init(".toList ++ y, x.length, []⟩ =
          k ⟨x.reverse, "super.init(".toList ++ y, x.length, []⟩ := if_pos hplace
    have hblank : (['('] ++ y).head?.any isBlank = false := by
      have hfirst : isBlank '(' = false := by decide
      exact hfirst
    have htakes : (lit "super.init" ++ blanks ++ lit "(").Takes
        ("super.init".toList ++ [] ++ ['(']) y noGroups :=
      ((takes_text _ _).append (takes_star (List.forall_mem_nil _) hblank)).append
        (takes_text ['('] y)
    rw [superInit, run_seq, run_seq, run_seq, hedge, ← run_seq, ← run_seq]
    have hstart : "super.init(".toList = "super.init".toList ++ [] ++ ['('] := by decide
    rw [hstart]
    refine htakes some _ _ rfl ?_
    rw [Cursor.behind_start]
    rfl
  have hcall := hbehind.fit (by simp) hrun
  have hwhole := Replaced.copy (x := []) (y := x) hcall fun u c v huv => ?_
  case refine_1 =>
    refine run_superInit_eq_none fun r hr => ?_
    by_contra hno
    rw [Bool.not_eq_true] at hno
    rw [← List.cons_append] at hr
    rcases List.append_eq_append_iff.mp hr with ⟨a, ha, -⟩ | ⟨b, hb, -⟩
    · obtain ⟨w, e, hw⟩ := (List.eq_nil_or_concat' (c :: v)).resolve_left (List.cons_ne_nil c v)
      have hlast : e = '\n' := hline e (by rw [huv, hw]; simp)
      have hmem : '\n' ∈ "super.init".toList := by
        rw [ha, hw, hlast]
        simp
      exact absurd hmem (by decide)
    · exact hx (huv ▸ hb ▸ hword hno)
  exact hwhole.replace_eq

/-- The shape of a line that calls the superclass. -/
theorem of_fits_superCall {line : Text} (h : superCall.fits line = true) :
    ∃ b r, line = b ++ ("super".toList ++ r) ∧ (∀ c ∈ b, isBlank c = true) ∧
      r.head?.any isWord = false := by
  obtain ⟨m, hm⟩ := Option.isSome_iff_exists.mp h
  rw [Pattern.match?, matchAt?] at hm
  obtain ⟨e, hrun, -⟩ := Option.map_eq_some_iff.mp hm
  obtain ⟨x, gs, d, hx, hpass, -⟩ := covers_run superCall _ _ _ hrun
  obtain ⟨_, rfl, hopen⟩ := hx.of_append_lit
  obtain ⟨_, b', rfl, hb', hname⟩ := hopen.of_append_blanks
  obtain ⟨b, rfl, hblank⟩ := hname.of_append_lit
  obtain ⟨hb, -⟩ := of_spells_blanks hblank
  refine ⟨b, b' ++ ('(' :: d.after), ?_, hb, ?_⟩
  · have hline : line = _ ++ d.after := hpass.after
    rw [hline]
    simp
  · cases b' with
    | nil =>
      have hparen : isWord '(' = false := by decide
      exact hparen
    | cons c b' => exact isWord_of_isBlank (hb' c (List.mem_cons_self ..))

/-- Such a line has the word. -/
theorem hasWord_of_fits_superCall {line : Text} (h : superCall.fits line = true) :
    HasWord "super" line := by
  obtain ⟨b, r, rfl, hb, hr⟩ := of_fits_superCall h
  exact hasWord_between (by decide) (any_getLast?_of_isBlank hb) hr

theorem superCall_fits_callOf (ts : List Text) (r : Text) :
    superCall.fits (callOf "super" ts ++ r) = true := by
  have hname : isBlank 's' = false := by decide
  have hparen : isBlank '(' = false := by decide
  obtain ⟨rest, hrest⟩ : ∃ rest, Text.join ", " ts ++ [')'] ++ r = rest := ⟨_, rfl⟩
  have hfirst : blanks.Takes [] ("super".toList ++ ([] ++ (['('] ++ rest))) noGroups :=
    takes_star (List.forall_mem_nil _) hname
  have hsecond : blanks.Takes [] (['('] ++ rest) noGroups :=
    takes_star (List.forall_mem_nil _) hparen
  have htakes : (blanks ++ lit "super" ++ blanks ++ lit "(").Takes
      ([] ++ "super".toList ++ [] ++ ['(']) rest noGroups :=
    ((hfirst.append (takes_text _ _)).append hsecond).append (takes_text ['('] _)
  have hcall : callOf "super" ts ++ r =
      ([] ++ "super".toList ++ [] ++ ['(']) ++ rest := by
    rw [← hrest]
    simp [callOf]
  rw [hcall]
  exact Takes.fits (p := superCall) htakes

/-! ### The constructor -/

section Constructor

open Declaration Swift

variable {x : Context} {typeName : Text} {stored : List Property} {i : Initializer}
  {before after : List Step} {args : List Argument}

/-- The initializer in a scope where its parameters are known. -/
def initScope (x : Context) (typeName : Text) (i : Initializer) : Scope :=
  { x.scopeIn typeName with parameters := Context.names i.parameters, inInitializer := true }

/-- The body of the constructor, with the call where the initializer has it. -/
theorem constructorBody_eq (hswift : x.module.dialect = .swift)
    (hbody : i.body = Text.unlines
      (linesAround (callOf "super.init" (args.map Argument.written)) "let" before after))
    (h : IsPlainBody (initScope x typeName i) before args after) :
    x.constructorBody typeName (some i) = .ok (Text.unlines (before.map Step.script ++
      (callOf "super" (args.map Argument.value) ++ [';']) :: after.map Step.script)) := by
  have hboth := List.forall_mem_append.mp h.steps
  have hsuper : ["super".toList] ⊆ keywords ++ wordsIn (initScope x typeName i) :=
    List.cons_subset.mpr ⟨List.mem_append_left _ (by decide), List.nil_subset _⟩
  have hline {ss : List Step}
      (hss : ∀ s ∈ ss, s.IsPlain (keywords ++ wordsIn (initScope x typeName i))) :
      ∀ t ∈ ss.map (Step.line "let"), ¬ HasWord "super" t := by
    refine List.forall_mem_map.mpr fun s hs => ?_
    refine ((hss s hs).isSimple_line "let" hsuper (by decide) ?_).words _
      (List.mem_singleton_self _)
    exact isSimple_word (by decide) (by decide) (by decide)
  have hbefore : ¬ HasWord "super" ((before.map (Step.line "let")).flatMap (· ++ ['\n'])) := by
    intro hword
    obtain ⟨t, ht, hin⟩ := exists_hasWord_of_flatMap_end (by decide) (by decide) hword
    exact hline hboth.1 t ht hin
  have hafter : ¬ HasWord "super" (Text.join ", " (args.map Argument.written) ++
      ')' :: (after.map (Step.line "let")).flatMap ('\n' :: ·)) := by
    rw [hasWord_append_cons_iff (by decide), hasWord_join_iff (by decide) (by decide) (by decide)]
    rintro (⟨t, ht, hin⟩ | hword)
    · obtain ⟨a, ha, rfl⟩ := List.mem_map.mp ht
      have hsimple := (h.args a ha).isSimple_written hsuper (by decide)
      exact hsimple.words _ (List.mem_singleton_self _) hin
    · obtain ⟨t, ht, hin⟩ := exists_hasWord_of_flatMap_start (by decide) (by decide) hword
      exact hline hboth.2 t ht hin
  have hreplaced : superInit.replace (fun _ => "super(") i.body = Text.unlines
      (linesAround (callOf "super" (args.map Argument.written)) "let" before after) := by
    rw [hbody, unlines_linesAround, unlines_linesAround]
    have hends :
        ∀ c ∈ ((before.map (Step.line "let")).flatMap (· ++ ['\n'])).getLast?, c = '\n' := by
      rcases List.eq_nil_or_concat' (before.map (Step.line "let")) with hnil | ⟨ts, t, hts⟩
      · simp [hnil]
      · simp [hts]
    simpa using replace_superInit hbefore hafter hends
  have hsolid : (Text.unlines (linesAround (callOf "super" (args.map Argument.written)) "let"
      before after)).trim ≠ [] := by
    intro hnil
    have hmem : 's' ∈ Text.unlines
        (linesAround (callOf "super" (args.map Argument.written)) "let" before after) := by
      rw [unlines_linesAround]
      exact List.mem_append_right _ (List.mem_cons_self ..)
    exact absurd (Text.trim_eq_nil_iff.mp hnil 's' hmem) (by decide)
  have hidioms := h.applyAll_eq
  rw [Context.constructorBody, hreplaced]
  dsimp only
  rw [Context.body, if_neg (by simpa using hsolid), Context.rephrase, hswift]
  exact hidioms

/-- What a constructor consists of: the call, the initial values, the other lines. -/
theorem constructor_eq {code head : Text} {values : List Text}
    (hcode : x.constructorBody typeName (some i) = .ok code)
    (hvalues : x.defaults typeName stored = .ok values)
    (hhead : x.parameters { x.scopeIn typeName with parameters := Context.names i.parameters }
      i.parameters = .ok head) :
    x.constructor typeName stored (some i) true = .ok (x.block 1 ("constructor(" ++ head ++ ")")
      (Text.unlines (((code.lines.filter superCall.fits).head?.map Text.trim).getD "super();" ::
        (values ++ if (Text.unlines (code.lines.filter (!superCall.fits ·))).trim.isEmpty then []
          else [Text.unlines (code.lines.filter (!superCall.fits ·))])))) := by
  rw [Context.constructor]
  simp only [bind, Except.bind, hcode, hvalues, Option.map_some, Option.getD_some, hhead]
  rfl

/-- Of the lines of the script only the call is one. -/
theorem filter_superCall {ws : List Text} (hws : "super".toList ∈ ws) (ts : List Text)
    (hsteps : ∀ s ∈ before ++ after, s.IsPlain ws) :
    (before.map Step.script ++ (callOf "super" ts ++ [';']) :: after.map Step.script).filter
        superCall.fits = [callOf "super" ts ++ [';']] ∧
      (before.map Step.script ++ (callOf "super" ts ++ [';']) :: after.map Step.script).filter
        (!superCall.fits ·) = (before ++ after).map Step.script := by
  have hnone {s : Step} (hs : s.IsPlain ws) : superCall.fits s.script = false := by
    rw [← Bool.not_eq_true]
    intro hfits
    have hword := hasWord_of_fits_superCall hfits
    rw [Step.script, hasWord_append_cons_iff (by decide)] at hword
    have hsimple : IsSimple ["super".toList] (s.line "const") := hs.isSimple_line "const"
      (List.cons_subset.mpr ⟨hws, List.nil_subset _⟩) (by decide)
      (isSimple_word (by decide) (by decide) (by decide))
    exact hword.elim (hsimple.words _ (List.mem_singleton_self _)) (by decide)
  have hcall := superCall_fits_callOf ts [';']
  have hboth := List.forall_mem_append.mp hsteps
  have hdropped {ss : List Step} (hss : ∀ s ∈ ss, s.IsPlain ws) :
      (ss.map Step.script).filter superCall.fits = [] := by
    simp only [List.filter_eq_nil_iff, List.forall_mem_map, Bool.not_eq_true]
    exact fun s hs => hnone (hss s hs)
  have hkept {ss : List Step} (hss : ∀ s ∈ ss, s.IsPlain ws) :
      (ss.map Step.script).filter (!superCall.fits ·) = ss.map Step.script := by
    simp only [List.filter_eq_self, List.forall_mem_map, Bool.not_eq_true']
    exact fun s hs => hnone (hss s hs)
  constructor
  · rw [List.filter_append, List.filter_cons_of_pos hcall, hdropped hboth.1, hdropped hboth.2]
    rfl
  · rw [List.filter_append, List.filter_cons_of_neg (by simp [hcall]), hkept hboth.1,
      hkept hboth.2, List.map_append]

/-- The names of some that the first call of the superclass has are declared above it. -/
def DeclaresAboveSuper (names lines : List Text) : Prop :=
  ∀ above call below, lines = above ++ call :: below → superCall.fits call = true →
    (∀ l ∈ above, superCall.fits l = false) →
      ∀ n ∈ names, HasWord n call → ∃ value, (Step.declare n value).script ∈ above

/-- In the first two lines nothing is declared. -/
theorem declaresAboveSuper_iff {names ts rest : List Text} {head : Text}
    (hnames : ∀ n ∈ names, IsWordText n ∧ n ≠ "super".toList) :
    DeclaresAboveSuper names
        (("constructor(".toList ++ head) :: (callOf "super" ts ++ [';']) :: rest) ↔
      ∀ n ∈ names, ∀ t ∈ ts, ¬ HasWord n t := by
  have hhead : superCall.fits ("constructor(".toList ++ head) = false := by
    rw [← Bool.not_eq_true]
    intro hfits
    obtain ⟨b, r, hline, hb, -⟩ := of_fits_superCall hfits
    cases b with
    | nil => exact absurd (List.cons.inj hline).1 (by decide)
    | cons c b =>
      have hc := hb c (List.mem_cons_self ..)
      rw [← (List.cons.inj hline).1] at hc
      exact absurd hc (by decide)
  have hword {n : Text} (hn : IsWordText n ∧ n ≠ "super".toList) :
      HasWord n (callOf "super" ts ++ [';']) ↔ ∃ t ∈ ts, HasWord n t := by
    have hnone : ¬ HasWord n [] := not_hasWord_nil hn.1.1
    have hcallee : ¬ HasWord n "super".toList := mt (hasWord_word_iff (by decide)).mp hn.2
    rw [callOf, List.append_assoc, List.cons_append, List.append_assoc,
      hasWord_append_cons_iff (by decide), List.cons_append, List.nil_append,
      hasWord_append_cons_iff (by decide), hasWord_cons_iff hn.1.1 (by decide),
      hasWord_join_iff hn.1.1 (by decide) (by decide)]
    simp only [hcallee, hnone, false_or, or_false]
  constructor
  · intro h n hn t ht hin
    obtain ⟨value, hvalue⟩ := h ["constructor(".toList ++ head] _ rest rfl
      (superCall_fits_callOf ts [';']) (List.forall_mem_singleton.mpr hhead) n hn
      ((hword (hnames n hn)).mpr ⟨t, ht, hin⟩)
    have hsame := List.mem_singleton.mp hvalue
    have hfifth := congrArg (fun l : Text => l[5]?) hsame
    simp [Step.script, Step.line] at hfifth
  · intro h above call below hlines hcall habove n hn hin
    rcases above with _ | ⟨_, _ | ⟨line, below'⟩⟩
    · rw [← (List.cons.inj hlines).1, hhead] at hcall
      cases hcall
    · rw [← (List.cons.inj (List.cons.inj hlines).2).1] at hin
      obtain ⟨t, ht, hword⟩ := (hword (hnames n hn)).mp hin
      exact absurd hword (h n hn t ht)
    · have hfits := habove line (by simp)
      rw [← (List.cons.inj (List.cons.inj hlines).2).1, superCall_fits_callOf] at hfits
      cases hfits

/-- The call comes first in the constructor, whatever the initializer has in front of it. -/
theorem map_trim_lines_constructor {values : List Text} {head : Text}
    (hswift : x.module.dialect = .swift)
    (hbody : i.body = Text.unlines
      (linesAround (callOf "super.init" (args.map Argument.written)) "let" before after))
    (h : IsPlainBody (initScope x typeName i) before args after)
    (hvalues : x.defaults typeName stored = .ok values)
    (hhead : x.parameters { x.scopeIn typeName with parameters := Context.names i.parameters }
      i.parameters = .ok head)
    (hbreak : '\n' ∉ head) (hindent : ∀ c ∈ x.options.indent, isBlank c = true)
    (hline : '\n' ∉ x.options.indent) :
    ∃ out, x.constructor typeName stored (some i) true = .ok out ∧
      out.lines.map Text.trim = ("constructor(" ++ head ++ ") \x7b") ::
        (callOf "super" (args.map Argument.value) ++ [';']) :: (values.flatMap solidLines ++
          ((before ++ after).map Step.script ++ [['\x7d']])) := by
  obtain ⟨ts, hts⟩ : ∃ ts, args.map Argument.value = ts := ⟨_, rfl⟩
  have hkeyword : "super".toList ∈ keywords ++ wordsIn (initScope x typeName i) :=
    List.mem_append_left _ (by decide)
  have hcall : (callOf "super" ts ++ [';']).trim = callOf "super" ts ++ [';'] ∧
      '\n' ∉ callOf "super" ts ++ [';'] := by
    refine ⟨Text.trim_eq_self ?_ ?_, List.not_mem_append (notMem_callOf (by decide) ?_) (by decide)⟩
    · have hfirst : isBlank 's' = false := by decide
      simpa [callOf] using hfirst
    · rw [List.getLast?_concat]
      simpa using (by decide : isBlank ';' = false)
    · exact hts ▸ List.forall_mem_map.mpr fun a ha => (h.args a ha).value.line
  obtain ⟨code, hcode⟩ : ∃ code, Text.unlines (before.map Step.script ++
      (callOf "super" ts ++ [';']) :: after.map Step.script) = code := ⟨_, rfl⟩
  have hboth := List.forall_mem_append.mp h.steps
  have hlines : code.lines =
      before.map Step.script ++ (callOf "super" ts ++ [';']) :: after.map Step.script := by
    rw [← hcode]
    refine Text.lines_unlines (by simp) (List.forall_mem_append.mpr
      ⟨List.forall_mem_map.mpr fun s hs => (hboth.1 s hs).break_notMem_script,
        List.forall_mem_cons.mpr
          ⟨hcall.2, List.forall_mem_map.mpr fun s hs => (hboth.2 s hs).break_notMem_script⟩⟩)
  obtain ⟨hcalls, hrest⟩ := filter_superCall hkeyword ts h.steps
  have hbody := constructorBody_eq hswift hbody h
  rw [hts, hcode] at hbody
  have hout := constructor_eq hbody hvalues hhead
  rw [hlines, hcalls, hrest, List.head?_cons, Option.map_some, Option.getD_some, hcall.1] at hout
  have hscripts : solidLines (Text.unlines ((before ++ after).map Step.script)) =
      (before ++ after).map Step.script := by
    refine solidLines_unlines_of_solid (List.forall_mem_map.mpr fun s hs => ?_)
    exact ⟨(h.steps s hs).break_notMem_script, (h.steps s hs).trim_script,
      List.append_ne_nil_of_right_ne_nil _ (List.cons_ne_nil _ _)⟩
  have hsolid : solidLines (Text.unlines ((callOf "super" ts ++ [';']) :: (values ++
      if (Text.unlines ((before ++ after).map Step.script)).trim.isEmpty then []
      else [Text.unlines ((before ++ after).map Step.script)]))) =
        (callOf "super" ts ++ [';']) ::
          (values.flatMap solidLines ++ (before ++ after).map Step.script) := by
    rw [solidLines_unlines, List.flatMap_cons, List.flatMap_append,
      solidLines_of_solid hcall.2 hcall.1 (by simp)]
    split
    case isTrue hnone =>
      rw [← hscripts, solidLines_eq_nil_iff.mpr (List.isEmpty_iff.mp hnone)]
      rfl
    case isFalse =>
      rw [List.flatMap_singleton, hscripts]
      rfl
  have hnonempty : (Text.unlines ((callOf "super" ts ++ [';']) :: (values ++
      if (Text.unlines ((before ++ after).map Step.script)).trim.isEmpty then []
      else [Text.unlines ((before ++ after).map Step.script)]))).trim ≠ [] := by
    rw [ne_eq, ← solidLines_eq_nil_iff, hsolid]
    exact List.cons_ne_nil _ _
  have hfirst : Text.trim ("constructor(" ++ head ++ ")" ++ " \x7b") =
      "constructor(" ++ head ++ ")" ++ " \x7b" := by
    refine Text.trim_eq_self ?_ ?_
    · have hc : isBlank 'c' = false := by decide
      simpa using hc
    · have hlast : ("constructor(" ++ head ++ ")" ++ " \x7b").getLast? = some '\x7b' :=
        List.getLast?_eq_some_iff.mpr ⟨"constructor(" ++ head ++ ") ", by simp⟩
      have hbrace : isBlank '\x7b' = false := by decide
      rw [hlast]
      simpa using hbrace
  have hheadLine : '\n' ∉ "constructor(" ++ head ++ ")" :=
    List.not_mem_append (List.not_mem_append (by decide) hbreak) (by decide)
  have hblock := @map_trim_lines_block _ _ _ 1 hindent hline hfirst hheadLine hnonempty
  rw [hsolid] at hblock
  refine ⟨_, hout, ?_⟩
  rw [hts]
  refine hblock.trans ?_
  simp

/-- The call comes first in the constructor, whatever the initializer declares in front of it. So
what it declares is declared above the call exactly if the call has none of it. -/
theorem constructor_declaresAboveSuper_iff {values : List Text} {head : Text}
    (hswift : x.module.dialect = .swift)
    (hbody : i.body = Text.unlines
      (linesAround (callOf "super.init" (args.map Argument.written)) "let" before after))
    (h : IsPlainBody (initScope x typeName i) before args after)
    (hvalues : x.defaults typeName stored = .ok values)
    (hhead : x.parameters { x.scopeIn typeName with parameters := Context.names i.parameters }
      i.parameters = .ok head)
    (hbreak : '\n' ∉ head) (hindent : ∀ c ∈ x.options.indent, isBlank c = true)
    (hline : '\n' ∉ x.options.indent) :
    ∃ out, x.constructor typeName stored (some i) true = .ok out ∧
      out.lines.map Text.trim = ("constructor(" ++ head ++ ") \x7b") ::
        (callOf "super" (args.map Argument.value) ++ [';']) :: (values.flatMap solidLines ++
          ((before ++ after).map Step.script ++ [['\x7d']])) ∧
      (DeclaresAboveSuper ((before ++ after).filterMap Step.name?) (out.lines.map Text.trim) ↔
        ∀ n ∈ (before ++ after).filterMap Step.name?, ∀ a ∈ args, ¬ HasWord n a.value) := by
  obtain ⟨out, hout, hlines⟩ :=
    map_trim_lines_constructor hswift hbody h hvalues hhead hbreak hindent hline
  have hnames : ∀ n ∈ (before ++ after).filterMap Step.name?,
      IsWordText n ∧ n ≠ "super".toList := by
    intro n hn
    obtain ⟨s, hs, hname⟩ := List.mem_filterMap.mp hn
    cases s with
    | perform code => cases hname
    | declare name value =>
      obtain rfl := Option.some.inj hname
      obtain ⟨hword, hsimple, -⟩ := h.steps _ hs
      refine ⟨hword, ?_⟩
      rintro rfl
      exact hsimple.words _ (List.mem_append_left _ (by decide)) (hasWord_self (by decide))
  refine ⟨out, hout, hlines, ?_⟩
  have hshape : "constructor(" ++ head ++ ") \x7b" = "constructor(".toList ++ (head ++ ") \x7b") :=
    List.append_assoc ..
  rw [hlines, hshape, declaresAboveSuper_iff hnames]
  simp only [List.forall_mem_map]

/-- An initializer with a parameter. -/
def initOf (body : Text) : Initializer :=
  { parameters := [{ name := "x", typeName := "Int", label := "x" }], body := body }

/-- A class and one derived from it, which has a property and an initializer. -/
def derivedClass (body : Text) : Context :=
  ⟨{ dialect := .swift
     classes := [{ name := "A" }, { name := "B", superclass := "A"
                                    properties := [{ name := "total", typeName := "Int" }]
                                    initializers := [initOf body] }] }, {}⟩

/-- The words that are looked for in the initializer. -/
def derivedWords : List Text := keywords ++ (idiomWords ++ (["A", "B", "total"] : List Text))

theorem isSimple_derivedWords : ∀ t ∈ (["x + 1", "2 * (x - 1)", "report(y)", "x", "y", "value", []]
    : List Text), IsSimple derivedWords t := by
  intro t ht
  have hall : ∀ t ∈ (["x + 1", "2 * (x - 1)", "report(y)", "x", "y", "value", []] : List Text),
      (∀ c ∈ t, isSimpleCode c = true) ∧ '.' ∉ t ∧ ¬ markHead <:+: t := by decide
  have hwords : ∀ t ∈ (["x + 1", "2 * (x - 1)", "report(y)", "x", "y", "value", []] : List Text),
      ∀ w ∈ derivedWords, ¬ HasWord w t := by decide
  obtain ⟨hchars, hdot, hmark⟩ := hall t ht
  exact isSimple_of_notMem hchars hdot (hwords t ht) hmark

theorem isLine_derivedWords : ∀ t ∈ (["x + 1", "2 * (x - 1)", "report(y)", "x", "y"] : List Text),
    IsLine derivedWords t := by
  intro t ht
  have hall : ∀ t ∈ (["x + 1", "2 * (x - 1)", "report(y)", "x", "y"] : List Text),
      t ≠ [] ∧ t.trim = t ∧ '\n' ∉ t ∧ ':' ∉ t := by decide
  obtain ⟨hne, htrim, hbreak, hcolon⟩ := hall t ht
  have hsimple := isSimple_derivedWords t (List.mem_append_left ["value".toList, []] ht)
  exact ⟨hsimple, hne, htrim, hbreak, hcolon⟩

/-- Bodies of these texts are plain. -/
theorem isPlainBody_derivedClass {body : Text}
    (hsteps : ∀ s ∈ before ++ after, s.IsPlain derivedWords)
    (hargs : ∀ a ∈ args, a.IsSimpleIn derivedWords) :
    IsPlainBody (initScope (derivedClass body) "B" (initOf body)) before args after where
  types := by change ∀ n ∈ (["A", "B"] : List Text), IsWordText n; decide
  members := by change ∀ n ∈ (["total"] : List Text), IsWordText n; decide
  reserved := by
    change ∀ w ∈ (["let", "const", "super"] : List Text),
      w ∉ idiomWords ++ (["A", "B", "total"] : List Text)
    decide
  steps := hsteps
  args := hargs

theorem isPlain_declared : (Step.declare "y" "x + 1").IsPlain derivedWords :=
  ⟨by decide, isSimple_derivedWords _ (by decide),
    isLine_derivedWords _ (by decide), by decide⟩

/-- A body that passes on the parameter, behind a declaration. -/
def passedOn : Text := "let y = x + 1\nsuper.init(value: x, 2 * (x - 1))\nreport(y)"

theorem constructor_declaresAboveSuper_iff_passedOn :
    IsPlainBody (initScope (derivedClass passedOn) "B" (initOf passedOn))
      [.declare "y" "x + 1"] [⟨"value", "x"⟩, ⟨[], "2 * (x - 1)"⟩] [.perform "report(y)"] ∧
    ∃ out, (derivedClass passedOn).constructor "B" [{ name := "total", typeName := "Int" }]
        (some (initOf passedOn)) true = .ok out ∧
      out.lines.map Text.trim = (["constructor(x) \x7b", "super(x, 2 * (x - 1));",
        "this.total = 0;", "const y = x + 1;", "report(y);", "\x7d"] : List Text) ∧
      DeclaresAboveSuper ["y"] (out.lines.map Text.trim) := by
  have hplain : IsPlainBody (initScope (derivedClass passedOn) "B" (initOf passedOn))
      [.declare "y" "x + 1"] [⟨"value", "x"⟩, ⟨[], "2 * (x - 1)"⟩] [.perform "report(y)"] := by
    refine isPlainBody_derivedClass ?_ ?_
    · exact List.forall_mem_cons.mpr ⟨isPlain_declared, List.forall_mem_singleton.mpr
        ⟨isLine_derivedWords _ (by decide), by decide⟩⟩
    · refine List.forall_mem_cons.mpr ⟨?_, List.forall_mem_singleton.mpr ?_⟩ <;>
        exact ⟨isSimple_derivedWords _ (by decide), by decide, by rintro _ ⟨⟩ <;> decide,
          isLine_derivedWords _ (by decide), by decide⟩
  have hvalues : (derivedClass passedOn).defaults "B" [{ name := "total", typeName := "Int" }] =
      .ok ["this.total = 0;"] := rfl
  have hhead : (derivedClass passedOn).parameters
      { (derivedClass passedOn).scopeIn "B" with
        parameters := Context.names (initOf passedOn).parameters }
      (initOf passedOn).parameters = .ok "x" := rfl
  obtain ⟨out, hout, hlines, hiff⟩ := constructor_declaresAboveSuper_iff rfl rfl hplain hvalues
    hhead (by decide) (by decide) (by decide)
  exact ⟨hplain, out, hout, hlines.trans rfl, hiff.mpr (by decide)⟩

/-- A body that passes on a constant which it declares. -/
def ownConstant : Text := "let y = x + 1\nsuper.init(y)"

/-- The constant is declared behind the call. -/
theorem constructor_declaresAboveSuper_fails_ownConstant :
    (derivedClass ownConstant).constructor "B" [] (some (initOf ownConstant)) true =
      .ok "  constructor(x) \x7b\n    super(y);\n    const y = x + 1;\n  \x7d" ∧
    ¬ DeclaresAboveSuper ["y"] ((Text.lines
      "  constructor(x) \x7b\n    super(y);\n    const y = x + 1;\n  \x7d").map Text.trim) := by
  have hplain : IsPlainBody (initScope (derivedClass ownConstant) "B" (initOf ownConstant))
      [.declare "y" "x + 1"] [⟨[], "y"⟩] [] := by
    refine isPlainBody_derivedClass (List.forall_mem_singleton.mpr isPlain_declared) ?_
    exact List.forall_mem_singleton.mpr ⟨isSimple_derivedWords _ (by decide), by decide,
      nofun, isLine_derivedWords _ (by decide), by decide⟩
  have hvalues : (derivedClass ownConstant).defaults "B" [] = .ok [] := rfl
  have hhead : (derivedClass ownConstant).parameters
      { (derivedClass ownConstant).scopeIn "B" with
        parameters := Context.names (initOf ownConstant).parameters }
      (initOf ownConstant).parameters = .ok "x" := rfl
  have hout := constructor_eq (constructorBody_eq rfl rfl hplain) hvalues hhead
  refine ⟨hout.trans (congrArg Except.ok (by decide +kernel)), fun h => ?_⟩
  have hnames : ∀ n ∈ (["y"] : List Text), IsWordText n ∧ n ≠ "super".toList := by decide
  have hlines : (Text.lines
      "  constructor(x) \x7b\n    super(y);\n    const y = x + 1;\n  \x7d").map Text.trim =
        ("constructor(".toList ++ "x) \x7b".toList) :: (callOf "super" ["y"] ++ [';']) ::
          ["const y = x + 1;", "\x7d"] := by decide
  rw [hlines] at h
  exact (declaresAboveSuper_iff hnames).mp h "y" (by decide) "y" (by decide) (by decide)

end Constructor

end Render

end HostScript
