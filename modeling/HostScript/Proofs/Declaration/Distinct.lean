import HostScript.Declaration.ObjC
import Mathlib.Logic.Function.Iterate
import Mathlib.Data.List.Nodup

/-!
# Distinct declarations

However the sections of an Objective-C source are opened, reopened and nested, each class and each
category is one declaration, and its members have different names. A method that has a body keeps
one. Both are preserved by every line that is read, so they hold after any number of lines.
-/

namespace HostScript.Declaration

/-- What tells methods apart: the name, and whether the method belongs to the type itself. -/
def Method.key (f : Method) : Text × Bool := (f.name, f.isStatic)

/-- What tells extensions apart: the extended type and the category. -/
def Extension.key (e : Extension) : Text × Text := (e.extendedType, e.category)

/-- Some method of a list has the key and a body. -/
def HasBody (fs : List Method) (key : Text × Bool) : Prop :=
  ∃ f ∈ fs, f.key = key ∧ f.isDeclaration = false

/-- The members of a class have different names. -/
structure ClassType.IsDistinct (c : ClassType) : Prop where
  properties : (c.properties.map (·.name)).Nodup
  methods : (c.methods.map Method.key).Nodup
  initializers : (c.initializers.map (·.name)).Nodup

/-- The members of an extension have different names. -/
structure Extension.IsDistinct (e : Extension) : Prop where
  properties : (e.properties.map (·.name)).Nodup
  methods : (e.methods.map Method.key).Nodup

/-- Declarations with their own keys: no two share a key, and each is in order itself. -/
structure Keyed {α κ : Type} (key : α → κ) (inOrder : α → Prop) (ds : List α) : Prop where
  nodup : (ds.map key).Nodup
  inOrder : ∀ d ∈ ds, inOrder d

/-- Every declaration is still there, and every method that had a body has one. -/
def BodiesStay {α κ : Type} (key : α → κ) (methods : α → List Method) (ds ds' : List α) : Prop :=
  ∀ d ∈ ds, ∃ d' ∈ ds', key d' = key d ∧ ∀ k, HasBody (methods d) k → HasBody (methods d') k

namespace Module

/-- The classes of a module have different names, its extensions different keys, and the members
of each different names. -/
structure IsDistinct (m : Module) : Prop where
  classes : Keyed (·.name) ClassType.IsDistinct m.classes
  extensions : Keyed Extension.key Extension.IsDistinct m.extensions

/-- Every class and every extension stays, and no method of theirs loses its body. -/
structure KeepsBodies (m m' : Module) : Prop where
  classes : BodiesStay (·.name) (·.methods) m.classes m'.classes
  extensions : BodiesStay Extension.key (·.methods) m.extensions m'.extensions

/-- A step of reading: what was distinct stays distinct, and bodies stay. -/
structure Advances (m m' : Module) : Prop where
  distinct : m.IsDistinct → m'.IsDistinct
  bodies : m.KeepsBodies m'

end Module

section Lists

open ObjC (modifyFirst)

variable {α κ : Type} {key : α → κ} {inOrder : α → Prop} {methods : α → List Method}
variable {test : α → Bool} {f : α → α} {ds : List α}

theorem bodiesStay_refl (ds : List α) : BodiesStay key methods ds ds :=
  fun d hd => ⟨d, hd, rfl, fun _ h => h⟩

theorem BodiesStay.trans {ds ds' ds'' : List α} (h : BodiesStay key methods ds ds')
    (h' : BodiesStay key methods ds' ds'') : BodiesStay key methods ds ds'' := by
  intro d hd
  obtain ⟨d', hd', hkey, hbody⟩ := h d hd
  obtain ⟨d'', hd'', hkey', hbody'⟩ := h' d' hd'
  exact ⟨d'', hd'', hkey'.trans hkey, fun k hk => hbody' k (hbody k hk)⟩

/-- Changing one member keeps the keys if the change keeps its key. -/
theorem map_modifyFirst (hkey : ∀ d ∈ ds, test d = true → key (f d) = key d) :
    (modifyFirst test f ds).map key = ds.map key := by
  induction ds with
  | nil => rfl
  | cons d ds ih =>
    rw [List.forall_mem_cons] at hkey
    rw [modifyFirst]
    split
    case isTrue htest => rw [List.map_cons, List.map_cons, hkey.1 htest]
    case isFalse => rw [List.map_cons, List.map_cons, ih hkey.2]

/-- A member after a change is an old one or a changed one. -/
theorem of_mem_modifyFirst {d : α} (h : d ∈ modifyFirst test f ds) :
    d ∈ ds ∨ ∃ c ∈ ds, test c = true ∧ d = f c := by
  induction ds with
  | nil => cases h
  | cons a ds ih =>
    rw [modifyFirst] at h
    split at h
    case isTrue htest =>
      rcases List.mem_cons.mp h with rfl | h
      · exact Or.inr ⟨a, List.mem_cons_self .., htest, rfl⟩
      · exact Or.inl (List.mem_cons_of_mem _ h)
    case isFalse =>
      rcases List.mem_cons.mp h with rfl | h
      · exact Or.inl (List.mem_cons_self ..)
      · refine (ih h).imp (List.mem_cons_of_mem _) ?_
        rintro ⟨c, hc, hd⟩
        exact ⟨c, List.mem_cons_of_mem _ hc, hd⟩

/-- A member is there after a change, as it was or changed. -/
theorem mem_modifyFirst (test : α → Bool) (f : α → α) {d : α} (h : d ∈ ds) :
    d ∈ modifyFirst test f ds ∨ test d = true ∧ f d ∈ modifyFirst test f ds := by
  induction ds with
  | nil => cases h
  | cons a ds ih =>
    rw [modifyFirst]
    split
    case isTrue htest =>
      rcases List.mem_cons.mp h with rfl | h
      · exact Or.inr ⟨htest, List.mem_cons_self ..⟩
      · exact Or.inl (List.mem_cons_of_mem _ h)
    case isFalse =>
      rcases List.mem_cons.mp h with rfl | h
      · exact Or.inl (List.mem_cons_self ..)
      · exact (ih h).imp (List.mem_cons_of_mem _) fun h => ⟨h.1, List.mem_cons_of_mem _ h.2⟩

/-- A change that keeps a declaration's key and order keeps those of the list. -/
theorem Keyed.modifyFirst (h : Keyed key inOrder ds) (hkey : ∀ d, key (f d) = key d)
    (horder : ∀ d, inOrder d → inOrder (f d)) :
    Keyed key inOrder (ObjC.modifyFirst test f ds) where
  nodup := by
    rw [map_modifyFirst fun d _ _ => hkey d]
    exact h.nodup
  inOrder := by
    intro d hd
    rcases of_mem_modifyFirst hd with hd | ⟨c, hc, -, rfl⟩
    · exact h.inOrder d hd
    · exact horder c (h.inOrder c hc)

/-- A change that keeps a declaration's key and bodies keeps those of the list. -/
theorem bodiesStay_modifyFirst (hkey : ∀ d, key (f d) = key d)
    (hbody : ∀ d k, HasBody (methods d) k → HasBody (methods (f d)) k) :
    BodiesStay key methods ds (modifyFirst test f ds) := by
  intro d hd
  rcases mem_modifyFirst test f hd with hd' | ⟨-, hd'⟩
  · exact ⟨d, hd', rfl, fun _ h => h⟩
  · exact ⟨f d, hd', hkey d, hbody d⟩

theorem nodup_concat (h : (ds.map key).Nodup) {d : α} (hd : key d ∉ ds.map key) :
    ((ds ++ [d]).map key).Nodup := by
  rw [List.map_append, List.map_singleton]
  refine List.nodup_append.mpr ⟨h, List.nodup_singleton _, fun k hk k' hk' heq => ?_⟩
  rw [List.mem_singleton] at hk'
  exact hd (hk' ▸ heq ▸ hk)

/-- A declaration with a key of its own may be added. -/
theorem Keyed.concat (h : Keyed key inOrder ds) {d : α} (hd : key d ∉ ds.map key)
    (horder : inOrder d) : Keyed key inOrder (ds ++ [d]) where
  nodup := nodup_concat h.nodup hd
  inOrder := by
    intro x hx
    rcases List.mem_append.mp hx with hx | hx
    · exact h.inOrder x hx
    · exact List.mem_singleton.mp hx ▸ horder

theorem bodiesStay_append (ds more : List α) : BodiesStay key methods ds (ds ++ more) :=
  fun d hd => ⟨d, List.mem_append_left _ hd, rfl, fun _ h => h⟩

end Lists

namespace ObjC

open Source

/-! ### Adding members -/

theorem nodup_addProperty {ps : List Property} (h : (ps.map (·.name)).Nodup) (p : Property) :
    ((addProperty ps p).map (·.name)).Nodup := by
  unfold addProperty
  split
  case isTrue => exact h
  case isFalse hnew =>
    have hnew : p.name ∉ ps.map (·.name) := by simpa using hnew
    exact nodup_concat h hnew

/-- The test for a method of the same name and kind compares keys. -/
theorem key_eq_of_sameAs {x f : Method}
    (h : (x.name == f.name && x.isStatic == f.isStatic) = true) : x.key = f.key := by
  simp only [Bool.and_eq_true, beq_iff_eq] at h
  exact Prod.ext h.1 h.2

theorem nodup_addMethod {fs : List Method} (h : (fs.map Method.key).Nodup) (f : Method) :
    ((addMethod fs f).map Method.key).Nodup := by
  simp only [addMethod]
  split
  case isTrue =>
    rw [map_modifyFirst]
    · exact h
    · intro x _ hx
      split
      · exact (key_eq_of_sameAs hx).symm
      · rfl
  case isFalse hnew =>
    have hnew : f.key ∉ fs.map Method.key := by
      rw [List.mem_map]
      rintro ⟨x, hx, hkey⟩
      refine hnew (List.any_eq_true.mpr ⟨x, hx, ?_⟩)
      simp only [Method.key, Prod.mk.injEq] at hkey
      simp [hkey]
    exact nodup_concat h hnew

/-- A signature does not take the place of a method with a body. -/
theorem hasBody_addMethod {fs : List Method} {k : Text × Bool} (h : HasBody fs k) (f : Method) :
    HasBody (addMethod fs f) k := by
  obtain ⟨x, hx, hkey, hbody⟩ := h
  simp only [addMethod]
  split
  case isTrue =>
    rcases mem_modifyFirst (fun x : Method => x.name == f.name && x.isStatic == f.isStatic)
      (fun x => if !f.isDeclaration || x.isDeclaration then f else x) hx with hx | ⟨hsame, hx⟩
    · exact ⟨x, hx, hkey, hbody⟩
    · simp only [hbody, Bool.or_false] at hx
      split at hx
      case isTrue hf =>
        exact ⟨f, hx, (key_eq_of_sameAs hsame).symm.trans hkey, by simpa using hf⟩
      case isFalse => exact ⟨x, hx, hkey, hbody⟩
  case isFalse => exact ⟨x, List.mem_append_left _ hx, hkey, hbody⟩

theorem nodup_addInitializer {is : List Initializer} (h : (is.map (·.name)).Nodup)
    (i : Initializer) : ((addInitializer is i).map (·.name)).Nodup := by
  have hrest : ((is.filter (·.name != i.name)).map (·.name)).Nodup :=
    h.sublist (List.filter_sublist.map _)
  have hnew : i.name ∉ (is.filter (·.name != i.name)).map (·.name) := by simp
  exact nodup_concat hrest hnew

/-! ### Steps of a module -/

section Steps

variable {m m' m'' : Module}

theorem advances_refl (m : Module) : m.Advances m where
  distinct := id
  bodies := ⟨bodiesStay_refl _, bodiesStay_refl _⟩

theorem advances_trans (h : m.Advances m') (h' : m'.Advances m'') : m.Advances m'' where
  distinct := h'.distinct ∘ h.distinct
  bodies :=
    ⟨BodiesStay.trans h.bodies.classes h'.bodies.classes,
      BodiesStay.trans h.bodies.extensions h'.bodies.extensions⟩

/-- Where neither classes nor extensions change there is nothing to show. -/
theorem advances_of_eq (hc : m'.classes = m.classes) (he : m'.extensions = m.extensions) :
    m.Advances m' where
  distinct h := ⟨hc ▸ h.classes, he ▸ h.extensions⟩
  bodies := ⟨hc ▸ bodiesStay_refl _, he ▸ bodiesStay_refl _⟩

theorem advances_modifyClass (name : Text) {f : ClassType → ClassType}
    (hname : ∀ c, (f c).name = c.name) (hdistinct : ∀ c, c.IsDistinct → (f c).IsDistinct)
    (hbody : ∀ c k, HasBody c.methods k → HasBody (f c).methods k) :
    m.Advances (modifyClass m name f) where
  distinct h := ⟨h.classes.modifyFirst hname hdistinct, h.extensions⟩
  bodies := ⟨bodiesStay_modifyFirst hname hbody, bodiesStay_refl _⟩

theorem advances_modifyExtension (type category : Text) {f : Extension → Extension}
    (hkey : ∀ e, (f e).key = e.key) (hdistinct : ∀ e, e.IsDistinct → (f e).IsDistinct)
    (hbody : ∀ e k, HasBody e.methods k → HasBody (f e).methods k) :
    m.Advances (modifyExtension m type category f) where
  distinct h := ⟨h.classes, h.extensions.modifyFirst hkey hdistinct⟩
  bodies := ⟨bodiesStay_refl _, bodiesStay_modifyFirst hkey hbody⟩

theorem advances_modifyProtocol (index : Nat) (f : Protocol → Protocol) :
    m.Advances (modifyProtocol m index f) := advances_of_eq rfl rfl

theorem advances_ensureClass (name : Text) (line : Nat) : m.Advances (ensureClass m name line) := by
  unfold ensureClass
  split
  case isTrue => exact advances_refl m
  case isFalse hnew =>
    have hnew : name ∉ m.classes.map (·.name) := by simpa using hnew
    exact {
      distinct := fun h =>
        ⟨h.classes.concat hnew ⟨List.nodup_nil, List.nodup_nil, List.nodup_nil⟩, h.extensions⟩
      bodies := ⟨bodiesStay_append _ _, bodiesStay_refl _⟩ }

theorem advances_ensureExtension (type category : Text) (line : Nat) :
    m.Advances (ensureExtension m type category line) := by
  unfold ensureExtension
  split
  case isTrue => exact advances_refl m
  case isFalse hnew =>
    have hnew : (type, category) ∉ m.extensions.map Extension.key := by
      simpa [Extension.key] using hnew
    exact {
      distinct := fun h =>
        ⟨h.classes, h.extensions.concat hnew ⟨List.nodup_nil, List.nodup_nil⟩⟩
      bodies := ⟨bodiesStay_refl _, bodiesStay_append _ _⟩ }

theorem advances_addPropertyTo (owner : Owner) (p : Property) :
    m.Advances (addPropertyTo m owner p) := by
  cases owner with
  | ofClass name =>
    exact advances_modifyClass name (fun _ => rfl)
      (fun c h => ⟨nodup_addProperty h.properties p, h.methods, h.initializers⟩) fun _ _ h => h
  | ofExtension type category =>
    exact advances_modifyExtension type category (fun _ => rfl)
      (fun e h => ⟨nodup_addProperty h.properties p, h.methods⟩) fun _ _ h => h
  | ofProtocol index => exact advances_modifyProtocol index _

theorem advances_warn (h : m.Advances m') (line : Nat) (message text : Text) :
    m.Advances (m'.warn line message text) := advances_trans h (advances_of_eq rfl rfl)

theorem advances_keep (h : m.Advances m') (text : Text) (line : Nat) (reason : Text) :
    m.Advances (m'.keep text line reason) := advances_trans h (advances_of_eq rfl rfl)

theorem advances_warnUnless (h : m.Advances m') (closed : Bool) (line : Nat)
    (message text : Text) : m.Advances (if closed then m' else m'.warn line message text) := by
  split
  · exact h
  · exact advances_warn h ..

theorem advances_addMethodTo (s : Section) (line : Line) (hasBody : Bool) (f : Method) :
    m.Advances (addMethodTo m s line hasBody f) := by
  have hbodiless : ∀ (p : Prop) [Decidable p] (message : Text) {m' : Module},
      m.Advances m' → m.Advances (if p then m'.warn line.number message line.text else m') := by
    intro p _ message m' h
    split
    · exact advances_warn h ..
    · exact h
  simp only [addMethodTo]
  split
  case h_1 index _ => exact advances_modifyProtocol index _
  case h_2 type category _ =>
    refine hbodiless _ _ (advances_modifyExtension type category (fun _ => rfl) ?_ ?_)
    · exact fun e h => ⟨h.properties, nodup_addMethod h.methods f⟩
    · exact fun e k h => hasBody_addMethod h f
  case h_3 name _ =>
    split
    case isTrue =>
      split
      · refine advances_modifyClass name (fun _ => rfl) ?_ fun _ _ h => h
        exact fun c h => ⟨h.properties, h.methods, nodup_addInitializer h.initializers _⟩
      · exact advances_refl m
    case isFalse =>
      refine hbodiless _ _ (advances_modifyClass name (fun _ => rfl) ?_ ?_)
      · exact fun c h => ⟨h.properties, nodup_addMethod h.methods f, h.initializers⟩
      · exact fun c k h => hasBody_addMethod h f

theorem advances_readIvars (owner : Owner) (line : Line) (rest : List Line) :
    m.Advances (readIvars m owner line rest).1 := by
  simp only [readIvars]
  refine advances_warnUnless (List.foldlRecOn _ _ (advances_refl m) fun m' h raw _ => ?_) ..
  refine advances_trans h ?_
  split
  · exact advances_refl m'
  · split
    · exact advances_warn (advances_refl m') ..
    · exact advances_addPropertyTo owner _

theorem advances_readEnum (line : Line) (rest : List Line) (name : Text) :
    m.Advances (readEnum m line rest name).1 := by
  simp only [readEnum]
  refine @advances_trans _ (ite (_ = true) _ _) _ (advances_warnUnless ?_ ..)
    (advances_of_eq rfl rfl)
  refine List.foldlRecOn _ _ (motive := fun s : Module × List EnumCase => m.Advances s.1)
    (advances_refl m) fun s h part _ => ?_
  split
  · exact advances_warn h ..
  · exact h

theorem advances_readStruct (line : Line) (rest : List Line) (name : Text) :
    m.Advances (readStruct m line rest name).1 := by
  simp only [readStruct]
  refine @advances_trans _ (ite (_ = true) _ _) _ (advances_warnUnless ?_ ..)
    (advances_of_eq rfl rfl)
  refine List.foldlRecOn _ _ (motive := fun s : Module × List Property => m.Advances s.1)
    (advances_refl m) fun s h raw _ => ?_
  refine List.foldlRecOn _ _ (motive := fun s : Module × List Property => m.Advances s.1) h
    fun s h field _ => ?_
  split
  · exact h
  · split
    · exact advances_warn h ..
    · exact h

theorem advances_readFunction (line : Line) (rest : List Line) (what : String) (f : Function) :
    m.Advances (readFunction m line rest what f).1 := by
  simp only [readFunction]
  refine advances_warnUnless ?_ ..
  exact advances_of_eq rfl rfl

theorem advances_readMethod (st : State) (f : Match) (line : Line) (rest : List Line) :
    st.module.Advances (readMethod st f line rest).1 := by
  simp only [readMethod]
  split
  case h_1 => exact advances_keep (advances_warn (advances_refl _) ..) ..
  case h_2 name params _ =>
    have hwarn : ∀ (p : Prop) [Decidable p] (message : Text), st.module.Advances
        (if p then st.module.warn line.number message line.text else st.module) := by
      intro p _ message
      split
      · exact advances_warn (advances_refl _) ..
      · exact advances_refl _
    split
    case h_1 => exact advances_keep (advances_warn (hwarn _ _) ..) ..
    case h_2 => exact advances_trans (hwarn _ _) (advances_addMethodTo ..)

theorem advances_readOther (st : State) (line : Line) (rest : List Line) :
    st.module.Advances (readOther st line rest).1 := by
  have hglobal (globals : List Variable) : st.module.Advances { st.module with globals } :=
    advances_of_eq rfl rfl
  have hunknown (remark text kept reason : Text) : st.module.Advances
      ((st.module.warn line.number remark text).keep kept line.number reason) :=
    advances_keep (advances_warn (advances_refl _) ..) ..
  simp only [readOther]
  split
  case h_1 =>
    split
    · split
      · exact advances_readFunction ..
      · exact advances_refl _
    · split
      · split
        · exact hglobal _
        · exact hunknown ..
      · exact hunknown ..
  case h_2 =>
    split
    · split
      · exact hglobal _
      · exact hunknown ..
    · exact hunknown ..

theorem advances_readMember (st : State) (line : Line) (rest : List Line) :
    st.module.Advances (readMember st line rest).1 := by
  simp only [readMember]
  split
  case h_1 =>
    split
    · exact advances_warn (advances_refl _) ..
    · exact advances_addPropertyTo ..
  case h_2 =>
    split
    · exact advances_of_eq rfl rfl
    split
    · exact advances_readMethod ..
    split
    · exact advances_readEnum ..
    split
    · split
      · exact advances_readEnum ..
      · exact advances_readStruct ..
    split
    · exact advances_readFunction ..
    · exact advances_readOther ..

theorem advances_openSection (h : m.Advances m') (sections : List Section) (s : Section)
    (line : Line) (rest : List Line) :
    m.Advances (openSection m' sections s line rest).1.module := by
  simp only [openSection]
  split
  · exact advances_trans h (advances_readIvars ..)
  · exact h

theorem advances_readSection? {st : State} {line : Line} {rest : List Line} {result : State × Nat}
    (h : readSection? st line rest = some result) : st.module.Advances result.1.module := by
  simp only [readSection?] at h
  split at h
  case h_1 => cases h; exact advances_of_eq rfl rfl
  case h_2 =>
    split at h
    case h_1 =>
      cases h
      exact advances_trans (advances_ensureExtension ..) <|
        advances_modifyExtension _ _ (fun _ => rfl) (fun _ h => ⟨h.properties, h.methods⟩)
          fun _ _ h => h
    case h_2 =>
      split at h
      case h_1 =>
        cases h
        refine advances_openSection ?_ ..
        exact advances_trans (advances_ensureClass ..) <|
          advances_modifyClass _ (fun _ => rfl)
            (fun _ h => ⟨h.properties, h.methods, h.initializers⟩) fun _ _ h => h
      case h_2 =>
        obtain ⟨i, -, rfl⟩ := Option.map_eq_some_iff.mp h
        refine advances_openSection ?_ ..
        split
        · exact advances_ensureExtension ..
        · exact advances_ensureClass ..

/-- Every line that is read, in every section, keeps declarations distinct and methods with their
bodies. -/
theorem advances_readLine (st : State) (line : Line) (rest : List Line) :
    st.module.Advances (readLine st line rest).1.module := by
  simp only [readLine]
  split
  case h_1 => exact advances_of_eq rfl rfl
  case h_2 =>
    split
    · exact advances_warn (advances_refl _) ..
    split
    · split
      · exact advances_refl _
      · exact advances_warn (advances_refl _) ..
    split
    · exact advances_refl _
    split
    case h_1 hsection => exact advances_readSection? hsection
    case h_2 =>
      dsimp only
      exact advances_readMember st line rest

end Steps

/-! ### Runs -/

/-- One step of reading: the next line, with the further lines that it takes. -/
def step : State × List Line → State × List Line
  | (st, []) => (st, [])
  | (st, line :: rest) => ((readLine st line rest).1, rest.drop (readLine st line rest).2)

/-- What has been read of a source after some steps. -/
def stateAfter (source : Text) (steps : Nat) : State :=
  (step^[steps] (⟨{ dialect := .objc }, []⟩, significantLines source)).1

theorem advances_step (s : State × List Line) : s.1.module.Advances (step s).1.module := by
  match s with
  | (st, []) => exact advances_refl _
  | (st, line :: rest) => exact advances_readLine st line rest

theorem advances_iterate (s : State × List Line) (steps : Nat) :
    s.1.module.Advances (step^[steps] s).1.module := by
  induction steps with
  | zero => exact advances_refl _
  | succ steps ih =>
    rw [Function.iterate_succ_apply']
    exact advances_trans ih (advances_step _)

/-- Each step takes a line, so there are no more steps than lines. -/
theorem readLines_eq_iterate (st : State) (lines : List Line) {steps : Nat}
    (h : lines.length ≤ steps) : readLines st lines = (step^[steps] (st, lines)).1 := by
  induction steps generalizing st lines with
  | zero =>
    rw [List.length_eq_zero_iff.mp (Nat.le_zero.mp h), readLines]
    rfl
  | succ steps ih =>
    rw [Function.iterate_succ_apply]
    cases lines with
    | nil =>
      rw [readLines, step, ← ih st [] (Nat.zero_le _), readLines]
    | cons line rest =>
      rw [readLines, step]
      refine ih _ _ ?_
      rw [List.length_drop]
      rw [List.length_cons] at h
      omega

theorem advances_read (source : Text) (steps : Nat) :
    (stateAfter source steps).module.Advances (read source) := by
  have hall : readLines ⟨{ dialect := .objc }, []⟩ (significantLines source) =
      stateAfter source (steps + (significantLines source).length) :=
    readLines_eq_iterate _ _ (Nat.le_add_left ..)
  have hrun : (stateAfter source steps).module.Advances
      (stateAfter source (steps + (significantLines source).length)).module := by
    rw [stateAfter, stateAfter, Nat.add_comm, Function.iterate_add_apply]
    exact advances_iterate _ _
  rw [read, hall]
  exact List.foldlRecOn _ _ hrun fun _ h _ _ => advances_warn h ..

/-- After any number of lines of any source, the classes, the categories and their members have
different names, a method that has a body keeps one from there on, and both hold of what is read in
the end. -/
theorem declarations_distinct (source : Text) (steps : Nat) :
    (stateAfter source steps).module.IsDistinct ∧
      (∀ more, (stateAfter source steps).module.KeepsBodies
        (stateAfter source (steps + more)).module) ∧
      (read source).IsDistinct ∧ (stateAfter source steps).module.KeepsBodies (read source) := by
  have hstart : (⟨.objc, [], [], [], [], [], [], [], [], [], []⟩ : Module).IsDistinct :=
    ⟨⟨List.nodup_nil, fun _ h => nomatch h⟩, ⟨List.nodup_nil, fun _ h => nomatch h⟩⟩
  have hdistinct : (stateAfter source steps).module.IsDistinct :=
    (advances_iterate _ _).distinct hstart
  refine ⟨hdistinct, fun more => ?_, (advances_read source steps).distinct hdistinct,
    (advances_read source steps).bodies⟩
  rw [stateAfter, stateAfter, Nat.add_comm, Function.iterate_add_apply]
  exact (advances_iterate _ _).bodies

end ObjC

end HostScript.Declaration
