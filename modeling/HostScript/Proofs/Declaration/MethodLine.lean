import HostScript.Proofs.Declaration.Distinct
import HostScript.Proofs.Declaration.Signature
import Mathlib

/-!
# The method that a line adds

Only the line of a method changes the methods of a class, and it adds the one method that it reads
as. Every remark of a line is about that line, and no line takes a class away.
-/

namespace HostScript.Declaration.ObjC

open Pattern Source

/-- The methods of a class. -/
def methodsOf (m : Module) (n : Text) : List Method :=
  ((m.classes.find? (·.name == n)).map (·.methods)).getD []

/-- The method that a line reads as, with its body, none if it has no proper name. -/
def methodOf? (line : Line) (rest : List Line) : Option Method :=
  (methodLine.match? line.text).bind fun f =>
    (readSelector? (f.group 3)).map fun read =>
      let hasBody := match f.group? 4 with
        | some terminator => terminator.startsWith "\x7b"
        | none => opensBlock line rest
      { name := read.1, parameters := read.2, returnType := withoutStars (f.group 2),
        body := if hasBody then (captureBlock (line :: rest) 0).body else [],
        isStatic := f.group 1 == ['+'], isDeclaration := !hasBody, line := line.number }

/-- Whether a method is read as an initializer. -/
def Method.isInit (f : Method) : Bool := !f.isStatic && isInitName f.name

/-- The class that a section is about, if it is about a class. -/
def Section.class? (s : Section) : Option Text :=
  match s.owner with
  | .ofClass n => some n
  | _ => none

/-- The class that the innermost open section is about. -/
def State.class? (st : State) : Option Text := st.sections.head?.bind Section.class?

/-- The method that the next line adds to a class. -/
def added? (n : Text) : State × List Line → Option Method
  | (st, line :: rest) =>
    if st.class? = some n then (methodOf? line rest).filter (!Method.isInit ·) else none
  | (_, []) => none

/-- What reading a line does to the methods of each class, to the classes and to the remarks. -/
structure Reads (number : Nat) (new : Text → Option Method) (m m' : Module) : Prop where
  methods : ∀ n, methodsOf m' n = (new n).elim (methodsOf m n) (addMethod (methodsOf m n))
  classes : ∀ n ∈ m.classes.map (·.name), n ∈ m'.classes.map (·.name)
  warnings : ∀ w ∈ m'.warnings, w ∈ m.warnings ∨ w.line = number
  kept : ∀ w ∈ m.warnings, w ∈ m'.warnings

/-- No method is added. -/
abbrev Quiet (number : Nat) (m m' : Module) : Prop := Reads number (fun _ => none) m m'

section Quiet

variable {m m' m'' : Module} {number : Nat} {new : Text → Option Method}

theorem quiet_refl (m : Module) : Quiet number m m where
  methods _ := rfl
  classes _ h := h
  warnings _ h := Or.inl h
  kept _ h := h

theorem Reads.trans (h : Reads number new m m') (h' : Quiet number m' m'') :
    Reads number new m m'' where
  methods n := (h'.methods n).trans (h.methods n)
  classes n hn := h'.classes n (h.classes n hn)
  warnings w hw := (h'.warnings w hw).elim (h.warnings w) Or.inr
  kept w hw := h'.kept w (h.kept w hw)

theorem Quiet.trans (h : Quiet number m m') (h' : Reads number new m' m'') :
    Reads number new m m'' where
  methods n := by
    have hm : methodsOf m' n = methodsOf m n := h.methods n
    rw [h'.methods n, hm]
  classes n hn := h'.classes n (h.classes n hn)
  warnings w hw := (h'.warnings w hw).elim (h.warnings w) Or.inr
  kept w hw := h'.kept w (h.kept w hw)

theorem quiet_of_eq (hc : m'.classes = m.classes) (hw : m'.warnings = m.warnings) :
    Quiet number m m' where
  methods n := by rw [methodsOf, hc]; rfl
  classes n hn := by rwa [hc]
  warnings w h := Or.inl (hw ▸ h)
  kept w h := hw ▸ h

theorem Reads.warn (h : Reads number new m m') (message text : Text) :
    Reads number new m (m'.warn number message text) where
  methods := h.methods
  classes := h.classes
  warnings w hw := by
    rcases List.mem_append.mp hw with hw | hw
    · exact h.warnings w hw
    · exact Or.inr (List.mem_singleton.mp hw ▸ rfl)
  kept w hw := List.mem_append_left _ (h.kept w hw)

theorem Reads.warnIf {p : Prop} [Decidable p] (h : Reads number new m m') (message text : Text) :
    Reads number new m (if p then m'.warn number message text else m') := by
  split
  · exact h.warn ..
  · exact h

theorem Reads.warnUnless (h : Reads number new m m') (closed : Bool) (message text : Text) :
    Reads number new m (if closed then m' else m'.warn number message text) := by
  split
  · exact h
  · exact h.warn ..

theorem Reads.keep (h : Reads number new m m') (text : Text) (line : Nat) (reason : Text) :
    Reads number new m (m'.keep text line reason) := h.trans (quiet_of_eq rfl rfl)

/-- Changing the class of a name changes what is found under that name. -/
theorem find?_modifyFirst {cs : List ClassType} {f : ClassType → ClassType} (a n : Text)
    (hname : ∀ c, (f c).name = c.name) :
    (modifyFirst (·.name == a) f cs).find? (·.name == n) =
      if a = n then (cs.find? (·.name == n)).map f else cs.find? (·.name == n) := by
  induction cs with
  | nil => simp [modifyFirst]
  | cons c cs ih =>
    rw [modifyFirst]
    by_cases ha : c.name = a
    · by_cases hn : a = n
      · simp [ha, hn, hname]
      · simp [ha, hn, hname]
    · by_cases hn : c.name = n
      · have han : a ≠ n := fun h => ha (hn.trans h.symm)
        simp [hn, han, han.symm]
      · simp [ha, hn, ih]

theorem classes_modifyClass (m : Module) (a : Text) {f : ClassType → ClassType}
    (hname : ∀ c, (f c).name = c.name) :
    (modifyClass m a f).classes.map (·.name) = m.classes.map (·.name) :=
  map_modifyFirst fun c _ _ => hname c

theorem methodsOf_modifyClass (m : Module) (a n : Text) (f : ClassType → ClassType)
    (hname : ∀ c, (f c).name = c.name) :
    methodsOf (modifyClass m a f) n =
      if a = n then ((m.classes.find? (·.name == n)).map fun c => (f c).methods).getD []
      else methodsOf m n := by
  rw [methodsOf, modifyClass, find?_modifyFirst a n hname]
  split
  · rw [Option.map_map]
    rfl
  · rfl

theorem quiet_modifyClass (a : Text) {f : ClassType → ClassType}
    (hname : ∀ c, (f c).name = c.name) (hmethods : ∀ c, (f c).methods = c.methods) :
    Quiet number m (modifyClass m a f) where
  methods n := by
    rw [methodsOf_modifyClass m a n f hname]
    split
    · simp only [methodsOf, hmethods, Option.elim_none]
    · rfl
  classes n hn := by rwa [classes_modifyClass m a hname]
  warnings _ h := Or.inl h
  kept _ h := h

theorem quiet_ensureClass (a : Text) (line : Nat) : Quiet number m (ensureClass m a line) := by
  unfold ensureClass
  split
  case isTrue => exact quiet_refl m
  case isFalse hnew =>
    have hnone : m.classes.find? (·.name == a) = none := by simpa using hnew
    refine ⟨fun n => ?_, fun n hn => ?_, fun w h => Or.inl h, fun w h => h⟩
    · simp only [methodsOf, List.find?_append, Option.elim_none]
      by_cases hn : a = n
      · subst hn
        simp [hnone]
      · cases m.classes.find? (·.name == n) <;> simp [hn]
    · rw [List.map_append]
      exact List.mem_append_left _ hn

theorem quiet_ensureExtension (type category : Text) (line : Nat) :
    Quiet number m (ensureExtension m type category line) := by
  unfold ensureExtension
  split
  · exact quiet_refl m
  · exact quiet_of_eq rfl rfl

theorem quiet_addPropertyTo (owner : Owner) (p : Property) :
    Quiet number m (addPropertyTo m owner p) := by
  cases owner with
  | ofClass a => exact quiet_modifyClass a (fun _ => rfl) fun _ => rfl
  | ofExtension type category => exact quiet_of_eq rfl rfl
  | ofProtocol index => exact quiet_of_eq rfl rfl

/-! ### Lines that add no method -/

variable {line : Line} {rest : List Line} {st : State}

theorem quiet_readIvars (owner : Owner) (line : Line) (rest : List Line) :
    Quiet line.number m (readIvars m owner line rest).1 := by
  simp only [readIvars]
  refine Reads.warnUnless (List.foldlRecOn _ _ (quiet_refl m) fun m' h raw _ => ?_) ..
  split
  · exact h
  · split
    · exact h.warn ..
    · exact h.trans (quiet_addPropertyTo owner _)

theorem quiet_readEnum (line : Line) (rest : List Line) (name : Text) :
    Quiet line.number m (readEnum m line rest name).1 := by
  simp only [readEnum]
  refine @Reads.trans m (ite (_ = true) _ _) _ _ _ (Reads.warnUnless ?_ ..) (quiet_of_eq rfl rfl)
  refine List.foldlRecOn _ _ (motive := fun s : Module × List EnumCase => Quiet line.number m s.1)
    (quiet_refl m) fun s h part _ => ?_
  split
  · exact h.warn ..
  · exact h

theorem quiet_readStruct (line : Line) (rest : List Line) (name : Text) :
    Quiet line.number m (readStruct m line rest name).1 := by
  simp only [readStruct]
  refine @Reads.trans m (ite (_ = true) _ _) _ _ _ (Reads.warnUnless ?_ ..) (quiet_of_eq rfl rfl)
  refine List.foldlRecOn _ _ (motive := fun s : Module × List Property => Quiet line.number m s.1)
    (quiet_refl m) fun s h raw _ => ?_
  refine List.foldlRecOn _ _ (motive := fun s : Module × List Property => Quiet line.number m s.1) h
    fun s h field _ => ?_
  split
  · exact h
  · split
    · exact h.warn ..
    · exact h

theorem quiet_readFunction (line : Line) (rest : List Line) (what : String) (f : Function) :
    Quiet line.number m (readFunction m line rest what f).1 := by
  simp only [readFunction]
  refine Reads.warnUnless ?_ ..
  exact quiet_of_eq rfl rfl

theorem quiet_readOther (st : State) (line : Line) (rest : List Line) :
    Quiet line.number st.module (readOther st line rest).1 := by
  have hglobal (globals : List Variable) : Quiet line.number st.module { st.module with globals } :=
    quiet_of_eq rfl rfl
  have hunknown (remark text kept reason : Text) : Quiet line.number st.module
      ((st.module.warn line.number remark text).keep kept line.number reason) :=
    ((quiet_refl _).warn ..).keep ..
  simp only [readOther]
  split
  case h_1 =>
    split
    · split
      · exact quiet_readFunction ..
      · exact quiet_refl _
    · split
      · split
        · exact hglobal _
        · exact hunknown ..
      · exact hunknown ..
  case h_2 =>
    split
    · split
      · exact hglobal _
      · exact hunknown ..
    · exact hunknown ..

theorem quiet_readMember (hline : methodLine.match? line.text = none) :
    Quiet line.number st.module (readMember st line rest).1 := by
  simp only [readMember, hline]
  split
  case h_1 =>
    split
    · exact (quiet_refl _).warn ..
    · exact quiet_addPropertyTo ..
  case h_2 =>
    split
    · exact ((quiet_refl _).warn ..).keep ..
    split
    · exact quiet_readEnum ..
    split
    · split
      · exact quiet_readEnum ..
      · exact quiet_readStruct ..
    split
    · exact quiet_readFunction ..
    · exact quiet_readOther ..

theorem quiet_openSection (h : Quiet line.number m m') (sections : List Section) (s : Section)
    (rest : List Line) : Quiet line.number m (openSection m' sections s line rest).1.module := by
  simp only [openSection]
  split
  · exact h.trans (quiet_readIvars ..)
  · exact h

theorem quiet_readSection? {result : State × Nat}
    (h : readSection? st line rest = some result) :
    Quiet line.number st.module result.1.module := by
  simp only [readSection?] at h
  split at h
  case h_1 => cases h; exact quiet_of_eq rfl rfl
  case h_2 =>
    split at h
    case h_1 =>
      cases h
      exact (quiet_ensureExtension ..).trans (quiet_of_eq rfl rfl)
    case h_2 =>
      split at h
      case h_1 =>
        cases h
        refine quiet_openSection ?_ ..
        exact (quiet_ensureClass ..).trans (quiet_modifyClass _ (fun _ => rfl) fun _ => rfl)
      case h_2 =>
        obtain ⟨i, -, rfl⟩ := Option.map_eq_some_iff.mp h
        refine quiet_openSection ?_ ..
        split
        · exact quiet_ensureExtension ..
        · exact quiet_ensureClass ..

theorem quiet_readLine (hline : methodLine.match? line.text = none) :
    Quiet line.number st.module (readLine st line rest).1.module := by
  simp only [readLine]
  split
  case h_1 => exact quiet_of_eq rfl rfl
  case h_2 =>
    split
    · exact (quiet_refl _).warn ..
    split
    · split
      · exact quiet_refl _
      · exact (quiet_refl _).warn ..
    split
    · exact quiet_refl _
    split
    case h_1 hsection => exact quiet_readSection? hsection
    case h_2 =>
      dsimp only
      exact quiet_readMember hline

/-! ### Lines of methods -/

theorem owner_of_class? {s : Section} {n : Text} (h : s.class? = some n) : s.owner = .ofClass n := by
  rw [Section.class?] at h
  split at h
  case h_1 n' howner => rw [howner, Option.some.inj h]
  case h_2 => cases h

/-- A method that is no initializer is added to the class that its section is about. -/
theorem reads_addMethodTo {s : Section} {owner : Text} (hs : s.class? = some owner)
    (howner : owner ∈ m.classes.map (·.name)) (hasBody : Bool) {f : Method}
    (hf : Method.isInit f = false) :
    Reads line.number (fun n => if owner = n then some f else none) m
      (addMethodTo m s line hasBody f) := by
  have hs : s.owner = .ofClass owner := owner_of_class? hs
  rw [Method.isInit] at hf
  simp only [addMethodTo, hs, hf, Bool.false_eq_true, if_false]
  have hname : ∀ c : ClassType, { c with methods := addMethod c.methods f }.name = c.name :=
    fun _ => rfl
  have hadd : Reads line.number (fun n => if owner = n then some f else none) m
      (modifyClass m owner fun c => { c with methods := addMethod c.methods f }) := by
    refine ⟨fun n => ?_, fun n hn => ?_, fun w h => Or.inl h, fun w h => h⟩
    · rw [methodsOf_modifyClass m owner n _ hname]
      split
      case isTrue hn =>
        subst hn
        obtain ⟨c, hc⟩ : ∃ c, m.classes.find? (·.name == owner) = some c := by
          rw [← Option.isSome_iff_exists, List.find?_isSome]
          obtain ⟨c, hc, hname⟩ := List.mem_map.mp howner
          exact ⟨c, hc, beq_iff_eq.mpr hname⟩
        simp [methodsOf, hc]
      case isFalse => rfl
    · rwa [classes_modifyClass m owner hname]
  exact hadd.warnIf _ _

/-- An initializer leaves the methods alone. -/
theorem quiet_addMethodTo {s : Section} (hasBody : Bool) {f : Method}
    (hs : s.class? = none ∨ Method.isInit f = true) :
    Quiet line.number m (addMethodTo m s line hasBody f) := by
  simp only [addMethodTo]
  split
  case h_1 => exact quiet_of_eq rfl rfl
  case h_2 type category _ =>
    have hmodify : Quiet line.number m (modifyExtension m type category fun e =>
      { e with methods := addMethod e.methods f }) := quiet_of_eq rfl rfl
    exact hmodify.warnIf _ _
  case h_3 owner howner =>
    have hinit : (!f.isStatic && isInitName f.name) = true := by
      refine hs.resolve_left fun hnone => ?_
      rw [Section.class?, howner] at hnone
      cases hnone
    rw [if_pos hinit]
    split
    · exact quiet_modifyClass owner (fun _ => rfl) fun _ => rfl
    · exact quiet_refl m

/-- The classes that open sections are about have been declared. -/
def SectionsStand (st : State) : Prop :=
  ∀ s ∈ st.sections, ∀ n, s.class? = some n → n ∈ st.module.classes.map (·.name)

theorem reads_readMethod (hst : SectionsStand st) {f : Match}
    (hf : methodLine.match? line.text = some f) :
    Reads line.number (fun n => added? n (st, line :: rest)) st.module
      (readMethod st f line rest).1 := by
  simp only [readMethod]
  split
  case h_1 hnone =>
    have hread : methodOf? line rest = none := by simp [methodOf?, hf, hnone]
    simp only [added?, hread, Option.filter_none, ite_self]
    exact ((quiet_refl _).warn ..).keep ..
  case h_2 name params hsome =>
    set hasBody : Bool := match f.group? 4 with
      | some terminator => terminator.startsWith "\x7b"
      | none => opensBlock line rest with hbody
    set method : Method :=
      { name := name, parameters := params, returnType := withoutStars (f.group 2),
        body := if hasBody then (captureBlock (line :: rest) 0).body else [],
        isStatic := f.group 1 == ['+'], isDeclaration := !hasBody, line := line.number }
      with hmethod
    have hread : methodOf? line rest = some method := by
      simp only [methodOf?, hf, Option.bind_some, hsome, Option.map_some]
      rfl
    have hwarn : Quiet line.number st.module
        (if hasBody && !(captureBlock (line :: rest) 0).closed then
          st.module.warn line.number ("unterminated body of method '".toList ++ name ++ "'".toList)
            line.text
        else st.module) :=
      (quiet_refl _).warnIf ..
    split
    case h_1 hsections =>
      have hclass : st.class? = none := by rw [State.class?, hsections]; rfl
      simp only [added?, hclass, reduceCtorEq, if_false]
      exact (hwarn.warn ..).keep ..
    case h_2 s outer hsections =>
      have hclass : st.class? = s.class? := by rw [State.class?, hsections]; rfl
      simp only [added?, hclass, hread, Option.filter_some, Bool.not_eq_true']
      refine hwarn.trans ?_
      cases hs : s.class? with
      | none =>
        simp only [reduceCtorEq, if_false]
        exact quiet_addMethodTo _ (Or.inl hs)
      | some owner =>
        simp only [Option.some.injEq]
        cases hinit : Method.isInit method with
        | true =>
          simp only [Bool.true_eq_false, if_false, ite_self]
          exact quiet_addMethodTo _ (Or.inr hinit)
        | false =>
          simp only [if_true]
          refine reads_addMethodTo hs ?_ _ hinit
          have howner := hst s (hsections ▸ List.mem_cons_self) owner hs
          exact hwarn.classes owner howner

/-- The part of a pattern that has to fit first. -/
def leading : Pattern → Pattern
  | .seq p _ => leading p
  | p => p

/-- A pattern does not fit where its first part does not. -/
theorem match?_eq_none_of_leading {p : Pattern} {s : CharSet} (hp : leading p = .one s ∨
    ∃ i, leading p = .group i (.one s)) {t : Text} (ht : t.head?.any s = false) :
    p.match? t = none := by
  have hlead : (leading p).Refuses t := by
    rcases hp with h | ⟨i, h⟩ <;> rw [h]
    · exact refuses_one ht
    · exact fun k c hc => refuses_one ht _ c hc
  have hrefuses : ∀ p : Pattern, (leading p).Refuses t → p.Refuses t := by
    intro p
    induction p with
    | seq p q ihp _ => exact fun h => (ihp h).append q
    | _ => exact id
  rw [match?, matchAt?, hrefuses p hlead some (Cursor.atOffset t 0) rfl]
  rfl

/-- The line of a method starts with its sign. -/
theorem exists_sign {t : Text} {f : Match} (hf : methodLine.match? t = some f) :
    ∃ w, t = '-' :: w ∨ t = '+' :: w := by
  cases hsign : t.head?.any (among "-+") with
  | true =>
    cases t with
    | nil => cases hsign
    | cons a w =>
      refine ⟨w, ?_⟩
      simpa [among] using hsign
  | false =>
    rw [match?_eq_none_of_leading (Or.inr ⟨1, rfl⟩) hsign] at hf
    cases hf

/-- The line of a method is read as one. -/
theorem readLine_of_methodLine {f : Match} (hf : methodLine.match? line.text = some f) :
    readLine st line rest =
      (⟨(readMethod st f line rest).1, st.sections⟩, (readMethod st f line rest).2) := by
  obtain ⟨w, hw⟩ := exists_sign hf
  have hhash : line.text.head?.any (· == '#') = false := by rcases hw with h | h <;> rw [h] <;> rfl
  have hat : line.text.head?.any (· == '@') = false := by rcases hw with h | h <;> rw [h] <;> rfl
  have himport : importLine.match? line.text = none :=
    match?_eq_none_of_leading (Or.inl rfl) hhash
  have hdirective : directiveLine.fits line.text = false := by
    rw [fits, match?_eq_none_of_leading (Or.inl rfl) hhash]
    rfl
  have hforward : forwardLine.fits line.text = false := by
    rw [fits, match?_eq_none_of_leading (Or.inl rfl) hat]
    rfl
  have hprotocol : protocolLine.match? line.text = none :=
    match?_eq_none_of_leading (Or.inl rfl) hat
  have hcategory : categoryLine.match? line.text = none :=
    match?_eq_none_of_leading (Or.inl rfl) hat
  have hinterface : interfaceLine.match? line.text = none :=
    match?_eq_none_of_leading (Or.inl rfl) hat
  have himplementation : implementationLine.match? line.text = none :=
    match?_eq_none_of_leading (Or.inl rfl) hat
  have hproperty : propertyLine.match? line.text = none :=
    match?_eq_none_of_leading (Or.inl rfl) hat
  have hends : line.text.startsWith "@end" = false := by rcases hw with h | h <;> rw [h] <;> rfl
  have hproperties : line.text.startsWith "@property" = false := by
    rcases hw with h | h <;> rw [h] <;> rfl
  have hskips : (line.text == "@optional".toList || line.text == "@required".toList
      || line.text.startsWith "@synthesize" || line.text.startsWith "@dynamic"
        || forwardLine.fits line.text) = false := by
    rw [hforward]
    rcases hw with h | h <;> rw [h] <;> rfl
  simp only [readLine, himport, hdirective, Bool.false_eq_true, if_false, hends, hskips,
    readSection?, hprotocol, hcategory, Option.filter_none, hinterface, himplementation,
    Option.map_none, readMember, hproperty, hproperties, hf]

theorem reads_readLine (hst : SectionsStand st) :
    Reads line.number (fun n => added? n (st, line :: rest)) st.module
      (readLine st line rest).1.module := by
  cases hline : methodLine.match? line.text with
  | none =>
    have hread : methodOf? line rest = none := by rw [methodOf?, hline]; rfl
    simp only [added?, hread, Option.filter_none, ite_self]
    exact quiet_readLine hline
  | some f =>
    rw [readLine_of_methodLine hline]
    exact reads_readMethod hst hline

/-! ### Sections -/

theorem mem_ensureClass (m : Module) (n : Text) (line : Nat) :
    n ∈ (ensureClass m n line).classes.map (·.name) := by
  unfold ensureClass
  split
  case isTrue h => simpa using h
  case isFalse => simp

/-- A section that a line opens is about that line, and its class has been declared. -/
theorem sections_readSection? {result : State × Nat} (h : readSection? st line rest = some result) :
    ∃ s, result.1.sections = s :: st.sections ∧ s.line = line.number ∧
      ∀ n, s.class? = some n → n ∈ result.1.module.classes.map (·.name) := by
  have hopen {m' : Module} {s : Section} (hs : s.line = line.number)
      (hclass : ∀ n, s.class? = some n → n ∈ m'.classes.map (·.name)) :
      ∃ s', (openSection m' st.sections s line rest).1.sections = s' :: st.sections ∧
        s'.line = line.number ∧ ∀ n, s'.class? = some n →
          n ∈ (openSection m' st.sections s line rest).1.module.classes.map (·.name) :=
    ⟨s, rfl, hs, fun n hn => (quiet_openSection (quiet_refl m') ..).classes n (hclass n hn)⟩
  simp only [readSection?] at h
  split at h
  case h_1 => cases h; exact ⟨_, rfl, rfl, fun n hn => by cases hn⟩
  case h_2 =>
    split at h
    case h_1 => cases h; exact ⟨_, rfl, rfl, fun n hn => by cases hn⟩
    case h_2 =>
      split at h
      case h_1 i _ =>
        cases h
        refine hopen rfl fun n hn => ?_
        obtain rfl := Option.some.inj hn
        rw [classes_modifyClass]
        · exact mem_ensureClass ..
        · exact fun _ => rfl
      case h_2 =>
        obtain ⟨i, -, rfl⟩ := Option.map_eq_some_iff.mp h
        refine hopen rfl fun n hn => ?_
        cases hcategory : (i.group 2).isEmpty with
        | true =>
          rw [hcategory] at hn
          obtain rfl := Option.some.inj hn
          exact mem_ensureClass ..
        | false =>
          rw [hcategory] at hn
          cases hn

theorem sections_readLine {s : Section} (h : s ∈ (readLine st line rest).1.sections) :
    s ∈ st.sections ∨ s.line = line.number ∧
      ∀ n, s.class? = some n → n ∈ (readLine st line rest).1.module.classes.map (·.name) := by
  revert h
  simp only [readLine]
  split
  case h_1 => exact Or.inl
  case h_2 =>
    split
    · exact Or.inl
    split
    · split
      case h_1 hsections =>
        intro h
        exact Or.inl (hsections ▸ List.mem_cons_of_mem _ h)
      case h_2 =>
        intro h
        cases h
    split
    · exact Or.inl
    split
    case h_1 result hsection =>
      intro h
      obtain ⟨new, hsections, hline, hclass⟩ := sections_readSection? hsection
      rw [hsections] at h
      rcases List.mem_cons.mp h with rfl | h
      · exact Or.inr ⟨hline, hclass⟩
      · exact Or.inl h
    case h_2 => exact Or.inl

end Quiet

end HostScript.Declaration.ObjC
