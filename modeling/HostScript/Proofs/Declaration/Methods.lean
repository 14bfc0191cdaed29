import HostScript.Proofs.Declaration.MethodLine
import HostScript.Proofs.Source.Text

/-!
# Methods that stay

The methods of a class are told apart by name and kind, and the name of a method is its labels run
together. So a method that was read stays until a later one of the class has the same name, whatever
their selectors are. Every remark is about a line that was read or about a section that stays open.
-/

namespace HostScript.Declaration.ObjC

open Pattern Source

/-! ## Runs -/

/-- What is left to read, and what has been read, at the start of a source. -/
def start (source : Text) : State × List Line :=
  (⟨{ dialect := .objc }, []⟩, significantLines source)

section Run

variable {s : State × List Line} {source : Text} {i j : Nat} {n : Text}

/-- A step leaves a part of the lines behind the one it reads. -/
theorem step_suffix (st : State) (line : Line) (rest : List Line) :
    (step (st, line :: rest)).2 <:+ rest := List.drop_suffix _ _

theorem iterate_suffix (s : State × List Line) (k : Nat) : (step^[k] s).2 <:+ s.2 := by
  induction k with
  | zero => exact List.suffix_rfl
  | succ k ih =>
    rw [Function.iterate_succ_apply']
    generalize step^[k] s = s' at ih ⊢
    match s' with
    | (st, []) => exact ih
    | (st, line :: rest) => exact (step_suffix st line rest).trans ((List.suffix_cons _ _).trans ih)

/-- Lines are read in their order. -/
theorem number_lt (hij : i < j) {st st' : State} {line line' : Line} {rest rest' : List Line}
    (hi : step^[i] (start source) = (st, line :: rest))
    (hj : step^[j] (start source) = (st', line' :: rest')) : line.number < line'.number := by
  obtain ⟨k, rfl⟩ : ∃ k, j = k + (i + 1) := ⟨j - (i + 1), by omega⟩
  rw [Function.iterate_add_apply, Function.iterate_succ_apply', hi] at hj
  have hsuffix := iterate_suffix (step (st, line :: rest)) k
  rw [hj] at hsuffix
  have hmem : line' ∈ rest :=
    (step_suffix st line rest).subset (hsuffix.subset List.mem_cons_self)
  have hall := iterate_suffix (start source) i
  rw [hi] at hall
  have hpairwise := (pairwise_numberLines 1 (blankComments source.unifyBreaks).lines).sublist
    hall.sublist
  exact (List.pairwise_cons.mp hpairwise).1 line' hmem

/-- The sections that are open stand for declared classes, after any number of lines. -/
theorem sectionsStand_iterate (source : Text) (k : Nat) :
    SectionsStand (step^[k] (start source)).1 := by
  induction k with
  | zero => exact fun s hs => nomatch hs
  | succ k ih =>
    rw [Function.iterate_succ_apply']
    generalize step^[k] (start source) = s' at ih ⊢
    match s' with
    | (st, []) => exact ih
    | (st, line :: rest) =>
      intro s hs n hn
      rcases sections_readLine hs with hs | ⟨-, hclass⟩
      · exact (reads_readLine ih).classes n (ih s hs n hn)
      · exact hclass n hn

/-! ### Methods over a run -/

/-- The methods of a class after one more step. -/
theorem methodsOf_step (k : Nat) (n : Text) :
    methodsOf (step^[k + 1] (start source)).1.module n =
      (added? n (step^[k] (start source))).elim
        (methodsOf (step^[k] (start source)).1.module n)
        (addMethod (methodsOf (step^[k] (start source)).1.module n)) := by
  have hst := sectionsStand_iterate source k
  rw [Function.iterate_succ_apply']
  generalize step^[k] (start source) = s' at hst ⊢
  match s' with
  | (st, []) => rfl
  | (st, line :: rest) => exact (reads_readLine hst).methods n

/-- What is added to a class was read at the line that comes next. -/
theorem of_added?_eq_some {f : Method} (h : added? n s = some f) :
    ∃ st line rest, s = (st, line :: rest) ∧ methodOf? line rest = some f := by
  match s with
  | (st, []) => cases h
  | (st, line :: rest) =>
    rw [added?] at h
    obtain ⟨-, h⟩ := Option.ite_none_right_eq_some.mp h
    exact ⟨st, line, rest, rfl, (Option.filter_eq_some_iff.mp h).1⟩

theorem line_of_methodOf? {line : Line} {rest : List Line} {f : Method}
    (h : methodOf? line rest = some f) : f.line = line.number := by
  obtain ⟨g, -, h⟩ := Option.bind_eq_some_iff.mp h
  obtain ⟨read, -, rfl⟩ := Option.map_eq_some_iff.mp h
  rfl

theorem of_mem_addMethod {fs : List Method} {f g : Method} (h : g ∈ addMethod fs f) :
    g ∈ fs ∨ g = f := by
  simp only [addMethod] at h
  split at h
  · rcases of_mem_modifyFirst h with h | ⟨c, hc, -, hg⟩
    · exact Or.inl h
    · split at hg
      · exact Or.inr hg
      · exact Or.inl (hg ▸ hc)
  · simpa using h

/-- Every method of a class was read at a line before. -/
theorem exists_of_mem_methodsOf {f : Method}
    (h : f ∈ methodsOf (step^[j] (start source)).1.module n) :
    ∃ i st line rest, step^[i] (start source) = (st, line :: rest) ∧
      methodOf? line rest = some f := by
  induction j with
  | zero => cases h
  | succ j ih =>
    rw [methodsOf_step] at h
    cases hadded : added? n (step^[j] (start source)) with
    | none =>
      rw [hadded] at h
      exact ih h
    | some g =>
      rw [hadded] at h
      rcases of_mem_addMethod h with h | rfl
      · exact ih h
      · obtain ⟨st, line, rest, hs, hread⟩ := of_added?_eq_some hadded
        exact ⟨j, st, line, rest, hs, hread⟩

/-- A line is read in one step only. -/
theorem eq_of_number_eq {st st' : State} {line line' : Line} {rest rest' : List Line}
    (hi : step^[i] (start source) = (st, line :: rest))
    (hj : step^[j] (start source) = (st', line' :: rest')) (h : line.number = line'.number) :
    i = j := by
  rcases Nat.lt_trichotomy i j with hij | hij | hij
  · exact absurd h (Nat.ne_of_lt (number_lt hij hi hj))
  · exact hij
  · exact absurd h.symm (Nat.ne_of_lt (number_lt hij hj hi))

/-- A method with a body is among the methods that it is added to. -/
theorem mem_addMethod_self {fs : List Method} {f : Method} (hf : f.isDeclaration = false) :
    f ∈ addMethod fs f := by
  have hmodify {test : Method → Bool} {g : Method → Method} (hg : ∀ x, g x = f) {fs : List Method}
      (h : fs.any test = true) : f ∈ modifyFirst test g fs := by
    induction fs with
    | nil => cases h
    | cons x fs ih =>
      rw [modifyFirst]
      split
      case isTrue => exact hg x ▸ List.mem_cons_self
      case isFalse hx =>
        refine List.mem_cons_of_mem _ (ih ?_)
        rwa [List.any_cons, Bool.eq_false_iff.mpr hx, Bool.false_or] at h
  simp only [addMethod]
  split
  case isTrue h => exact hmodify (fun x => by rw [hf]; rfl) h
  case isFalse => exact List.mem_append_right _ List.mem_cons_self

/-- A method with a body stays unless one with a body and the same key is added. -/
theorem mem_addMethod_iff {fs : List Method} (hfs : (fs.map Method.key).Nodup) {f g : Method}
    (hg : g.isDeclaration = false) (hne : f ≠ g) :
    g ∈ addMethod fs f ↔ g ∈ fs ∧ ¬ (f.key = g.key ∧ f.isDeclaration = false) := by
  constructor
  · intro h
    refine ⟨(of_mem_addMethod h).resolve_right hne.symm, fun hsame => hne ?_⟩
    exact List.inj_on_of_nodup_map (nodup_addMethod hfs f) (mem_addMethod_self hsame.2) h hsame.1
  · rintro ⟨h, hother⟩
    simp only [addMethod]
    split
    · rcases mem_modifyFirst (fun x : Method => x.name == f.name && x.isStatic == f.isStatic)
        (fun x => if !f.isDeclaration || x.isDeclaration then f else x) h with h | ⟨hsame, h⟩
      · exact h
      · have hf : f.isDeclaration = true := by
          rw [← Bool.not_eq_false]
          exact fun hf => hother ⟨(key_eq_of_sameAs hsame).symm, hf⟩
        simpa [hf, hg] using h
    · exact List.mem_append_left _ h

theorem nodup_methodsOf (source : Text) (k : Nat) (n : Text) :
    ((methodsOf (step^[k] (start source)).1.module n).map Method.key).Nodup := by
  have hempty : (start source).1.module.IsDistinct :=
    ⟨⟨List.nodup_nil, fun _ h => nomatch h⟩, ⟨List.nodup_nil, fun _ h => nomatch h⟩⟩
  have hdistinct := (advances_iterate (start source) k).distinct hempty
  rw [methodsOf]
  cases hfind : (step^[k] (start source)).1.module.classes.find? (·.name == n) with
  | none => exact List.nodup_nil
  | some c => exact (hdistinct.classes.inOrder c (List.mem_of_find?_eq_some hfind)).methods

/-- A later line of the class defines a method with the same key. -/
def Redefined (source : Text) (first : Nat) (n : Text) (key : Text × Bool) : Prop :=
  ∃ i ≥ first, ∃ f, added? n (step^[i] (start source)) = some f ∧ f.key = key ∧
    f.isDeclaration = false

/-- A method with a body stays in its class as long as it is not defined again. -/
theorem mem_methodsOf_iff {k : Nat} {f : Method} (hf : f.isDeclaration = false)
    (hadded : added? n (step^[k] (start source)) = some f) (more : Nat) :
    f ∈ methodsOf (step^[k + 1 + more] (start source)).1.module n ↔
      ∀ i < more, ∀ g, added? n (step^[k + 1 + i] (start source)) = some g → g.key = f.key →
        g.isDeclaration = true := by
  induction more with
  | zero =>
    rw [Nat.add_zero, methodsOf_step, hadded]
    exact iff_of_true (mem_addMethod_self hf) fun i hi => absurd hi (Nat.not_lt_zero i)
  | succ more ih =>
    rw [← Nat.add_assoc, methodsOf_step]
    cases hnext : added? n (step^[k + 1 + more] (start source)) with
    | none =>
      rw [Option.elim_none, ih]
      refine ⟨fun h i hi g hg => ?_, fun h i hi => h i (Nat.lt_succ_of_lt hi)⟩
      rcases Nat.lt_succ_iff_lt_or_eq.mp hi with hi | rfl
      · exact h i hi g hg
      · rw [hnext] at hg
        cases hg
    | some g =>
      have hne : g ≠ f := by
        rintro rfl
        obtain ⟨_, line, _, hs, hread⟩ := of_added?_eq_some hadded
        obtain ⟨_, line', _, hs', hread'⟩ := of_added?_eq_some hnext
        have := eq_of_number_eq hs hs' ((line_of_methodOf? hread).symm.trans (line_of_methodOf? hread'))
        omega
      rw [Option.elim_some, mem_addMethod_iff (nodup_methodsOf source _ n) hf hne, ih]
      constructor
      · rintro ⟨h, hother⟩ i hi g' hg' hkey
        rcases Nat.lt_succ_iff_lt_or_eq.mp hi with hi | rfl
        · exact h i hi g' hg' hkey
        · obtain rfl := Option.some.inj (hnext.symm.trans hg')
          rw [← Bool.not_eq_false]
          exact fun hbody => hother ⟨hkey, hbody⟩
      · intro h
        refine ⟨fun i hi => h i (Nat.lt_succ_of_lt hi), fun hsame => ?_⟩
        rw [h more (Nat.lt_succ_self more) g hnext hsame.1] at hsame
        cases hsame.2

/-! ### Remarks over a run -/

/-- A method with a closed body in a class leaves no remark. -/
theorem warnings_readMethod {st : State} {line : Line} {rest : List Line} {f : Match} {g : Method}
    (hf : methodLine.match? line.text = some f) (hread : methodOf? line rest = some g)
    (hbody : g.isDeclaration = false) (hclosed : (captureBlock (line :: rest) 0).closed = true)
    (hclass : st.class? = some n) :
    (readMethod st f line rest).1.warnings = st.module.warnings := by
  rw [methodOf?, hf, Option.bind_some] at hread
  obtain ⟨⟨name, params⟩, hsome, rfl⟩ := Option.map_eq_some_iff.mp hread
  obtain ⟨s, hs, hclass⟩ := Option.bind_eq_some_iff.mp hclass
  obtain ⟨outer, hsections⟩ := List.head?_eq_some_iff.mp hs
  have hopen := (Bool.not_eq_false' _).mp hbody
  cases hfour : f.group? 4 <;> rw [hfour] at hopen <;>
    simp only [readMethod, hsome, hsections, hfour, hopen, hclosed, addMethodTo,
      owner_of_class? hclass, Bool.not_true, Bool.and_false, Bool.false_and, Bool.false_eq_true,
      if_false, if_true] <;>
    split <;> rfl

/-- Where a line leaves no remark and opens no section, none is about it in the end. -/
theorem line_ne {k : Nat} {st : State} {line : Line} {rest : List Line}
    (hat : step^[k] (start source) = (st, line :: rest))
    (hwarnings : (readLine st line rest).1.module.warnings = st.module.warnings)
    (hsections : (readLine st line rest).1.sections = st.sections) (j : Nat) :
    (∀ w ∈ (step^[j] (start source)).1.module.warnings, w.line ≠ line.number) ∧
      ∀ s ∈ (step^[j] (start source)).1.sections, s.line ≠ line.number := by
  induction j with
  | zero =>
    exact ⟨fun w hw => absurd hw List.not_mem_nil, fun s hs => absurd hs List.not_mem_nil⟩
  | succ j ih =>
    have hst := sectionsStand_iterate source j
    rw [Function.iterate_succ_apply']
    cases hj : step^[j] (start source) with
    | mk st' lines =>
      rw [hj] at ih hst
      cases lines with
      | nil => exact ih
      | cons line' rest' =>
        by_cases hnumber : line'.number = line.number
        · obtain rfl := eq_of_number_eq hj hat hnumber
          rw [hat] at hj
          cases hj
          refine ⟨fun w hw => ih.1 w (hwarnings ▸ hw), fun s hs => ih.2 s (hsections ▸ hs)⟩
        · refine ⟨fun w hw => ?_, fun s hs => ?_⟩
          · rcases (reads_readLine hst).warnings w hw with hw | hw
            · exact ih.1 w hw
            · exact hw ▸ hnumber
          · rcases sections_readLine hs with hs | hs
            · exact ih.2 s hs
            · exact hs.1 ▸ hnumber

/-- A remark stays. -/
theorem mem_warnings_iterate {w : Warning} {k : Nat}
    (h : w ∈ (step^[k] (start source)).1.module.warnings) (more : Nat) :
    w ∈ (step^[k + more] (start source)).1.module.warnings := by
  induction more with
  | zero => exact h
  | succ more ih =>
    have hst := sectionsStand_iterate source (k + more)
    rw [← Nat.add_assoc, Function.iterate_succ_apply']
    generalize step^[k + more] (start source) = s' at hst ih ⊢
    match s' with
    | (st, []) => exact ih
    | (st, line :: rest) => exact (reads_readLine hst).kept w ih

/-- Closing remarks leave the classes alone and are about open sections. -/
theorem foldl_warn (message : Module → Section → Text) (sections : List Section) (m : Module) :
    let m' := sections.foldl (fun m s => m.warn s.line (message m s) []) m
    m'.classes = m.classes ∧ (∀ w ∈ m.warnings, w ∈ m'.warnings) ∧
      ∀ w ∈ m'.warnings, w ∈ m.warnings ∨ ∃ s ∈ sections, w.line = s.line := by
  induction sections generalizing m with
  | nil => exact ⟨rfl, fun w h => h, fun w h => Or.inl h⟩
  | cons s sections ih =>
    obtain ⟨hclasses, hkept, hnew⟩ := ih (m.warn s.line (message m s) [])
    refine ⟨hclasses, fun w hw => hkept w (List.mem_append_left _ hw), fun w hw => ?_⟩
    rcases hnew w hw with hw | ⟨s', hs', hline⟩
    · rcases List.mem_append.mp hw with hw | hw
      · exact Or.inl hw
      · exact Or.inr ⟨s, List.mem_cons_self, List.mem_singleton.mp hw ▸ rfl⟩
    · exact Or.inr ⟨s', List.mem_cons_of_mem _ hs', hline⟩

/-- What is read of a source is what the steps give, with the closing remarks. -/
theorem read_spec {k : Nat} (hk : (significantLines source).length ≤ k) :
    (read source).classes = (step^[k] (start source)).1.module.classes ∧
      (∀ w ∈ (step^[k] (start source)).1.module.warnings, w ∈ (read source).warnings) ∧
        ∀ w ∈ (read source).warnings, w ∈ (step^[k] (start source)).1.module.warnings ∨
          ∃ s ∈ (step^[k] (start source)).1.sections, w.line = s.line := by
  rw [read, readLines_eq_iterate _ _ hk]
  exact foldl_warn (fun m s => "missing @end for @" ++ s.kind.name ++ " " ++ ownerName m s.owner) _ _

end Run

/-! ## Definitions in a source -/

namespace Definition

variable {d : Definition} {line : Line} {rest : List Line}

/-- A definition stands at a line: a brace on it or on the next line opens its body, which is
closed. -/
structure StandsAt (d : Definition) (line : Line) (rest : List Line) : Prop extends d.IsProper where
  text : line.text = d.text
  opens : d.opening = none → rest.head?.any (Text.startsWith ·.text "\x7b") = true
  closed : (captureBlock (line :: rest) 0).closed = true

/-- The method that a definition defines: its selector with the labels run together, its parameters
and its body. -/
def method (d : Definition) (line : Line) (rest : List Line) : Method :=
  { name := d.selector.name, parameters := d.selector.parameters,
    returnType := withoutStars d.returnType, body := (captureBlock (line :: rest) 0).body,
    isStatic := d.isStatic, line := line.number }

/-- A definition is read with what the plain parts of its selector say. -/
theorem StandsAt.methodOf?_eq (hd : d.StandsAt line rest) (hline : '\n' ∉ line.text) :
    methodOf? line rest = d.selector.read?.map fun read =>
      { d.method line rest with name := read.1, parameters := read.2 } := by
  obtain ⟨f, hf, hsign, hreturn, hselector, hopening⟩ :=
    exists_match?_methodLine hd.toIsProper (hd.text ▸ hline)
  have hstatic : ([if d.isStatic then '+' else '-'] == ['+']) = d.isStatic := by
    cases d.isStatic <;> rfl
  rw [methodOf?, hd.text, hf, Option.bind_some, hselector, Signature.readSelector?_text hd.selector]
  refine congrArg (Option.map · _) (funext fun read => ?_)
  simp only [hopening, hsign, hreturn, hstatic]
  cases hopen : d.opening with
  | none =>
    have hbody : opensBlock line rest = true := Bool.or_eq_true_iff.mpr (Or.inr (hd.opens hopen))
    simp only [Option.map_none, hbody]
    rfl
  | some o => rfl

end Definition

/-- No line that is read has a line feed in it. -/
theorem break_notMem {source : Text} {k : Nat} {st : State} {line : Line} {rest : List Line}
    (hat : step^[k] (start source) = (st, line :: rest)) : '\n' ∉ line.text := by
  have hnumbered : ∀ (first : Nat) (ts : List Text), (∀ t ∈ ts, '\n' ∉ t) →
      ∀ l ∈ numberLines first ts, '\n' ∉ l.text := by
    intro first ts hts
    induction ts generalizing first with
    | nil => exact List.forall_mem_nil _
    | cons t ts ih =>
      rw [List.forall_mem_cons] at hts
      rw [numberLines]
      split
      · exact ih (first + 1) hts.2
      · exact List.forall_mem_cons.mpr ⟨fun h => hts.1 (Text.mem_of_mem_trim _ h), ih (first + 1) hts.2⟩
  have hsuffix := iterate_suffix (start source) k
  rw [hat] at hsuffix
  exact hnumbered 1 _ (fun t ht => Text.break_notMem_of_mem_lines ht) line
    (hsuffix.subset List.mem_cons_self)

/-- The line of a method whose selector cannot be read leaves a remark. -/
theorem exists_warning_readLine {st : State} {line : Line} {rest : List Line} {f : Match}
    (hf : methodLine.match? line.text = some f) (hnone : readSelector? (f.group 3) = none) :
    ∃ w ∈ (readLine st line rest).1.module.warnings, w.line = line.number := by
  rw [readLine_of_methodLine hf]
  simp only [readMethod, hnone]
  exact ⟨_, List.mem_append_right _ List.mem_cons_self, rfl⟩

/-- The methods of a class are those of the declaration of its name. -/
theorem exists_class_iff {m : Module} (hm : (m.classes.map (·.name)).Nodup) {n : Text}
    {f : Method} : (∃ c ∈ m.classes, c.name = n ∧ f ∈ c.methods) ↔ f ∈ methodsOf m n := by
  constructor
  · rintro ⟨c, hc, hname, hf⟩
    obtain ⟨c', hfind⟩ : ∃ c', m.classes.find? (·.name == n) = some c' := by
      rw [← Option.isSome_iff_exists, List.find?_isSome]
      exact ⟨c, hc, beq_iff_eq.mpr hname⟩
    have hname' : c'.name = n := by simpa using List.find?_some hfind
    have hsame : c' = c := List.inj_on_of_nodup_map hm (List.mem_of_find?_eq_some hfind) hc
      (hname'.trans hname.symm)
    rw [methodsOf, hfind, hsame]
    exact hf
  · intro hf
    cases hfind : m.classes.find? (·.name == n) with
    | none =>
      rw [methodsOf, hfind] at hf
      cases hf
    | some c =>
      rw [methodsOf, hfind] at hf
      exact ⟨c, List.mem_of_find?_eq_some hfind, by simpa using List.find?_some hfind, hf⟩

/-- What is kept in the end is among the methods of the class after enough steps. -/
theorem exists_class_read_iff {source : Text} {k : Nat} (hk : (significantLines source).length ≤ k)
    {n : Text} {f : Method} :
    (∃ c ∈ (read source).classes, c.name = n ∧ f ∈ c.methods) ↔
      f ∈ methodsOf (step^[k] (start source)).1.module n := by
  have hempty : (start source).1.module.IsDistinct :=
    ⟨⟨List.nodup_nil, fun _ h => nomatch h⟩, ⟨List.nodup_nil, fun _ h => nomatch h⟩⟩
  rw [(read_spec hk).1]
  exact exists_class_iff ((advances_iterate (start source) k).distinct hempty).classes.nodup

/-- A definition in a class is kept with its own parameters and body, or leaves a remark, in
exactly these cases: its selector has parts and none of them is plain, which leaves a remark; or
all its parts are plain, and no later line of the class defines a method of the same kind whose
labels run together to the same name. -/
theorem method_kept_iff {source : Text} {k : Nat} {st : State} {line : Line} {rest : List Line}
    {n : Text} {d : Definition} (hat : step^[k] (start source) = (st, line :: rest))
    (hclass : st.class? = some n) (hd : d.StandsAt line rest)
    (hinit : Method.isInit (d.method line rest) = false) :
    ((∃ c ∈ (read source).classes, c.name = n ∧ d.method line rest ∈ c.methods) ∨
        ∃ w ∈ (read source).warnings, w.line = line.number) ↔
      (d.selector.parts ≠ [] ∧ ∀ p ∈ d.selector.parts, p.isPlain = false) ∨
        (∀ p ∈ d.selector.parts, p.isPlain = true) ∧
          ¬ Redefined source (k + 1) n (d.method line rest).key := by
  have hline := break_notMem hat
  obtain ⟨f, hf, -, -, hselector, -⟩ := Definition.exists_match?_methodLine hd.toIsProper
    (hd.text ▸ hline)
  rw [← hd.text] at hf
  have hread := hd.methodOf?_eq hline
  have hlast : (significantLines source).length ≤ k + 1 + (significantLines source).length :=
    Nat.le_add_left ..
  have hnext : step^[k + 1] (start source) = step (st, line :: rest) := by
    rw [Function.iterate_succ_apply', hat]
  cases hsome : d.selector.read? with
  | none =>
    have hnone : readSelector? (f.group 3) = none := by
      rw [hselector, Signature.readSelector?_text hd.selector, hsome]
    obtain ⟨w, hw, hnumber⟩ : ∃ w ∈ (readLine st line rest).1.module.warnings,
        w.line = line.number := exists_warning_readLine hf hnone
    have hw : w ∈ (step^[k + 1] (start source)).1.module.warnings := hnext ▸ hw
    exact iff_of_true (Or.inr ⟨w, (read_spec hlast).2.1 w (mem_warnings_iterate hw _), hnumber⟩)
      (Or.inl (Signature.read?_eq_none_iff.mp hsome))
  | some read =>
    rw [hsome, Option.map_some] at hread
    have hwarnings : (readLine st line rest).1.module.warnings = st.module.warnings := by
      rw [readLine_of_methodLine hf]
      exact warnings_readMethod hf hread rfl hd.closed hclass
    have hsections : (readLine st line rest).1.sections = st.sections := by
      rw [readLine_of_methodLine hf]
    have hunmarked : ¬ ∃ w ∈ (ObjC.read source).warnings, w.line = line.number := by
      rintro ⟨w, hw, hnumber⟩
      obtain ⟨hne, hopen⟩ := line_ne hat hwarnings hsections
        (k + 1 + (significantLines source).length)
      rcases (read_spec hlast).2.2 w hw with hw | ⟨s, hs, hsame⟩
      · exact hne w hw hnumber
      · exact hopen s hs (hsame.symm.trans hnumber)
    have hfound : ¬ (d.selector.parts ≠ [] ∧ ∀ p ∈ d.selector.parts, p.isPlain = false) := by
      rw [← Signature.read?_eq_none_iff, hsome]
      exact Option.some_ne_none _
    rw [or_iff_left hunmarked, or_iff_right hfound]
    by_cases hplain : ∀ p ∈ d.selector.parts, p.isPlain = true
    · rw [and_iff_right hplain]
      rw [Signature.read?_of_isPlain hplain] at hsome
      obtain rfl := Option.some.inj hsome
      have hadded : added? n (step^[k] (start source)) = some (d.method line rest) := by
        have hown : methodOf? line rest = some (d.method line rest) := hread
        rw [hat, added?, if_pos hclass, hown]
        exact if_pos ((Bool.not_eq_true' _).mpr hinit)
      constructor
      · rintro hkept ⟨i, hi, g, hg, hkey, hbody⟩
        obtain ⟨i, rfl⟩ := Nat.exists_eq_add_of_le hi
        rw [exists_class_read_iff (k := k + 1 + (i + 1 + (significantLines source).length))
          (by omega), mem_methodsOf_iff rfl hadded] at hkept
        have := hkept i (by omega) g hg hkey
        rw [hbody] at this
        cases this
      · intro hnone
        rw [exists_class_read_iff hlast, mem_methodsOf_iff rfl hadded]
        intro i _ g hg hkey
        rw [← Bool.not_eq_false]
        exact fun hbody => hnone ⟨k + 1 + i, Nat.le_add_right .., g, hg, hkey, hbody⟩
    · refine iff_of_false (fun hkept => hplain ?_) fun h => hplain h.1
      rw [exists_class_read_iff hlast] at hkept
      obtain ⟨i, st', line', rest', hi, hread'⟩ := exists_of_mem_methodsOf hkept
      obtain rfl := eq_of_number_eq hi hat (line_of_methodOf? hread').symm
      obtain ⟨rfl, hlines⟩ := Prod.mk.inj (hi.symm.trans hat)
      obtain ⟨rfl, rfl⟩ := List.cons.inj hlines
      rw [hread] at hread'
      exact Signature.isPlain_of_read? hsome (congrArg Method.parameters (Option.some.inj hread'))

/-! ### Two selectors with one name -/

/-- A class with two methods, whose selectors are a name and the same name with a parameter. -/
def clashing : Text :=
  "@implementation A\n- (void)foo \x7b\na;\n\x7d\n- (void)foo:(int)x \x7b\nb;\n\x7d\n@end"

def unaryFoo : Definition :=
  { isStatic := false, beforeType := " ", returnType := "void", beforeSelector := "",
    selector := .unary "foo", opening := some (" ", "") }

def labelledFoo : Definition :=
  { unaryFoo with selector := .keyword ⟨"foo", "", "", some "int", "", "x"⟩ [] }

/-- The lines that follow the second definition. -/
def behindLabelled : List Line := [⟨6, "b;"⟩, ⟨7, "\x7d"⟩, ⟨8, "@end"⟩]

/-- The lines that follow the first one. -/
def behindUnary : List Line := ⟨3, "a;"⟩ :: ⟨4, "\x7d"⟩ :: ⟨5, labelledFoo.text⟩ :: behindLabelled

/-- The lines of the class, which are found once for all that is said about it. -/
theorem significantLines_clashing :
    significantLines clashing =
      [⟨1, "@implementation A"⟩, ⟨2, "- (void)foo \x7b"⟩, ⟨3, "a;"⟩, ⟨4, "\x7d"⟩,
        ⟨5, "- (void)foo:(int)x \x7b"⟩, ⟨6, "b;"⟩, ⟨7, "\x7d"⟩, ⟨8, "@end"⟩] := by
  have hcode : clashing = _ := Text.toList_eq rfl
  rw [hcode]
  decide

theorem start_clashing :
    start clashing = (⟨{ dialect := .objc }, []⟩,
      [⟨1, "@implementation A"⟩, ⟨2, "- (void)foo \x7b"⟩, ⟨3, "a;"⟩, ⟨4, "\x7d"⟩,
        ⟨5, "- (void)foo:(int)x \x7b"⟩, ⟨6, "b;"⟩, ⟨7, "\x7d"⟩, ⟨8, "@end"⟩]) := by
  rw [start, significantLines_clashing]

theorem standsAt_labelledFoo : labelledFoo.StandsAt ⟨5, labelledFoo.text⟩ behindLabelled where
  beforeType := by decide
  returnType := by decide
  beforeSelector := by decide
  selector := by
    refine ⟨⟨⟨by decide, by decide⟩, ⟨by decide, by decide⟩, by decide, by decide, by decide, ?_,
      ?_⟩, List.forall_mem_nil _⟩
    · rintro t ⟨⟩
      decide
    · intro u v htype _
      have hmem : ')' ∈ "int".toList := by
        rw [Option.some.inj htype]
        exact List.mem_append_right _ List.mem_cons_self
      exact absurd hmem (by decide)
  opening := by
    rintro o ⟨⟩
    decide
  text := rfl
  opens := fun h => nomatch h
  closed := by decide

theorem standsAt_unaryFoo : unaryFoo.StandsAt ⟨2, unaryFoo.text⟩ behindUnary where
  beforeType := by decide
  returnType := by decide
  beforeSelector := by decide
  selector := ⟨by decide, by decide⟩
  opening := by
    rintro o ⟨⟩
    decide
  text := rfl
  opens := fun h => nomatch h
  closed := by decide

theorem not_redefined_labelledFoo (key : Text × Bool) :
    ¬ Redefined clashing 3 "A".toList key := by
  rintro ⟨i, hi, f, hf, -, -⟩
  obtain ⟨st, line, rest, hs, -⟩ := of_added?_eq_some hf
  rcases Nat.lt_or_ge i 4 with hlt | hge
  · obtain rfl : i = 3 := by omega
    have hend : added? "A".toList (step^[3] (start clashing)) = none := by
      rw [start_clashing]
      decide +kernel
    exact Option.some_ne_none f (hf.symm.trans hend)
  · obtain ⟨j, rfl⟩ := Nat.exists_eq_add_of_le' hge
    have hnil : (step^[4] (start clashing)).2 = [] := by
      rw [start_clashing]
      decide +kernel
    have hsuffix := iterate_suffix (step^[4] (start clashing)) j
    rw [← Function.iterate_add_apply, hs, hnil] at hsuffix
    exact List.cons_ne_nil line rest (List.suffix_nil.mp hsuffix)

/-- The second of the two methods is kept. -/
theorem method_kept_iff_labelledFoo :
    (step^[2] (start clashing)).2 = ⟨5, labelledFoo.text⟩ :: behindLabelled ∧
      (step^[2] (start clashing)).1.class? = some "A".toList ∧
        Method.isInit (labelledFoo.method ⟨5, labelledFoo.text⟩ behindLabelled) = false ∧
          ((∃ c ∈ (read clashing).classes, c.name = "A" ∧
              labelledFoo.method ⟨5, labelledFoo.text⟩ behindLabelled ∈ c.methods) ∨
            ∃ w ∈ (read clashing).warnings, w.line = 5) := by
  have hlines : (step^[2] (start clashing)).2 = ⟨5, labelledFoo.text⟩ :: behindLabelled := by
    rw [start_clashing]
    decide +kernel
  have hclass : (step^[2] (start clashing)).1.class? = some "A".toList := by
    rw [start_clashing]
    decide +kernel
  have hinit : Method.isInit (labelledFoo.method ⟨5, labelledFoo.text⟩ behindLabelled) = false := by
    decide
  have hplain : ∀ p ∈ labelledFoo.selector.parts, p.isPlain = true := by decide
  have hat : step^[2] (start clashing) =
      ((step^[2] (start clashing)).1, ⟨5, labelledFoo.text⟩ :: behindLabelled) := by
    rw [← hlines]
  exact ⟨hlines, hclass, hinit, (method_kept_iff hat hclass standsAt_labelledFoo hinit).mpr
    (Or.inr ⟨hplain, not_redefined_labelledFoo _⟩)⟩

/-- The first of the two, of another selector and with a closed body, is lost without a remark. -/
theorem method_lost_unaryFoo :
    (step^[1] (start clashing)).2 = ⟨2, unaryFoo.text⟩ :: behindUnary ∧
      (step^[1] (start clashing)).1.class? = some "A".toList ∧
        unaryFoo.StandsAt ⟨2, unaryFoo.text⟩ behindUnary ∧
          Method.isInit (unaryFoo.method ⟨2, unaryFoo.text⟩ behindUnary) = false ∧
            (unaryFoo.method ⟨2, unaryFoo.text⟩ behindUnary).selector ≠
                (labelledFoo.method ⟨5, labelledFoo.text⟩ behindLabelled).selector ∧
              ¬ ((∃ c ∈ (read clashing).classes, c.name = "A" ∧
                  unaryFoo.method ⟨2, unaryFoo.text⟩ behindUnary ∈ c.methods) ∨
                ∃ w ∈ (read clashing).warnings, w.line = 2) := by
  have hlength : (significantLines clashing).length ≤ 8 := by
    rw [significantLines_clashing]
    decide
  refine ⟨by rw [start_clashing]; decide +kernel, by rw [start_clashing]; decide +kernel,
    standsAt_unaryFoo, by decide, by decide, ?_⟩
  rintro (hkept | ⟨w, hw, -⟩)
  · rw [exists_class_read_iff hlength] at hkept
    revert hkept
    decide +kernel
  · have hwarnings : (step^[8] (start clashing)).1.module.warnings.length = 0 := by
      rw [start_clashing]
      decide +kernel
    have hsections : (step^[8] (start clashing)).1.sections.length = 0 := by
      rw [start_clashing]
      decide +kernel
    rcases (read_spec hlength).2.2 w hw with hw | ⟨s, hs, -⟩
    · rw [List.length_eq_zero_iff.mp hwarnings] at hw
      cases hw
    · rw [List.length_eq_zero_iff.mp hsections] at hs
      cases hs

end HostScript.Declaration.ObjC
