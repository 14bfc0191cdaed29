import HostScript.Adapt.Cached
import HostScript.Declaration.Reading
import HostScript.Listing
import HostScript.Optimize.Cached
import HostScript.Proofs.Optimize.Folding
import HostScript.Proofs.Outcome
import HostScript.Render

/-!
# What refuses a request

A fault in a script, a source or a listing ends its own step; it refuses no request.
-/

namespace HostScript

open Outcome

/-!
## No step on a script refuses the request

Optimizing a script and adapting it to a host can fail, but with no fault that refuses a request.
One lemma stands for each function, in the order in which they call one another.
-/

namespace Number

@[simp]
theorem neverRefuses_readDigits (digits : Text) : NeverRefuses (readDigits digits) := by
  simp [readDigits, tooManyDigits]

@[simp]
theorem neverRefuses_readSigned (t : Text) : NeverRefuses (readSigned t) := by
  unfold readSigned
  split <;> simp

@[simp]
theorem neverRefuses_writeInt (n : Int) : NeverRefuses (writeInt n) := by
  rw [writeInt]
  split <;> simp

end Number

namespace Script

theorem neverRefuses_fill (spans : List Text) (dropComments : Bool) (m : Mark) :
    NeverRefuses (Masked.fill spans dropComments m) := by
  refine failsOnly_bind_iff.mpr ⟨Number.neverRefuses_readDigits _, fun index _ => ?_⟩
  split <;> simp

theorem neverRefuses_fillAll (spans : List Text) (dropComments : Bool) (skip : Nat) (t : Text) :
    NeverRefuses (Masked.fillAll spans dropComments skip t) := by
  fun_induction Masked.fillAll spans dropComments skip t <;> simp [neverRefuses_fill, *]

@[simp]
theorem neverRefuses_restoreText (m : Masked) (t : Text) : NeverRefuses (m.restoreText t) :=
  neverRefuses_fillAll _ _ _ _

@[simp]
theorem neverRefuses_stripComments (code : Text) : NeverRefuses (stripComments code) :=
  neverRefuses_fillAll _ _ _ _

@[simp]
theorem neverRefuses_collapseWhitespace (code : Text) : NeverRefuses (collapseWhitespace code) :=
  neverRefuses_restoreText _ _

end Script

namespace Optimize

open Script

theorem neverRefuses_foldAll (fuel : Nat) (t : Text) : NeverRefuses (foldAll fuel t) :=
  failsOnly_foldAll (fun _ => Fault.isOfWork_badValue _) fuel

theorem neverRefuses_isMarked (m : Masked) (before : Text) : NeverRefuses (isMarked m before) := by
  rw [isMarked]
  split
  · simp
  · refine failsOnly_bind_iff.mpr ⟨Number.neverRefuses_readDigits _, fun index _ => ?_⟩
    split <;> simp

@[simp]
theorem neverRefuses_loopRecognition (code : Text) : NeverRefuses (loopRecognition code) := by
  refine failsOnly_bind_iff.mpr ⟨failsOnly_replaceM fun loop _ => ?_, fun text _ => by simp⟩
  simp [neverRefuses_isMarked]

/-- No step of the optimizer refuses a request. -/
theorem neverRefuses_of_mem_passes {p : Pass} (hp : p ∈ passes) (code : Text) :
    NeverRefuses (p.step.apply code) := by
  simp only [passes, List.mem_cons, List.not_mem_nil, or_false] at hp
  rcases hp with rfl | rfl | rfl | rfl | rfl
  · exact neverRefuses_restoreText _ _
  · simp [constantFolding, neverRefuses_foldAll]
  · exact neverRefuses_restoreText _ _
  · exact neverRefuses_loopRecognition code
  · exact neverRefuses_restoreText _ _

end Optimize

/-- Steps in order do not refuse if none of them does. -/
theorem ScriptStep.neverRefuses_applyAll {steps : List ScriptStep}
    (h : ∀ step ∈ steps, ∀ code, NeverRefuses (step.apply code)) (code : Text) :
    NeverRefuses (applyAll steps code) := by
  induction steps generalizing code with
  | nil => simp [applyAll]
  | cons step rest ih =>
    have hstep := h step (List.mem_cons_self ..)
    have hrest := ih fun s hs => h s (List.mem_cons_of_mem _ hs)
    simp [applyAll, hstep, hrest]

namespace Optimize

theorem neverRefuses_settle {steps : List ScriptStep}
    (h : ∀ step ∈ steps, ∀ code, NeverRefuses (step.apply code)) (rounds : Nat) (t : Text) :
    NeverRefuses (settle steps rounds t) := by
  induction rounds generalizing t with
  | zero => simp [settle]
  | succ rounds ih => simp [settle, ScriptStep.neverRefuses_applyAll h, ih]

theorem neverRefuses_runPasses {accepts : Acceptance} (haccepts : ∀ t, NeverRefuses (accepts t))
    {ps : List Pass} (hps : ps ⊆ passes) (level : Int) (code : Text) :
    NeverRefuses (runPasses accepts ps level code) := by
  have hsteps : ∀ q : Pass → Bool, ∀ step ∈ (ps.filter q).map (·.step), ∀ t,
      NeverRefuses (step.apply t) := by
    intro q step hstep t
    obtain ⟨p, hp, rfl⟩ := List.mem_map.mp hstep
    exact neverRefuses_of_mem_passes (hps (List.mem_filter.mp hp |>.1)) t
  simp [runPasses, haccepts, neverRefuses_settle (hsteps _)]

theorem neverRefuses_passesFor (level : Int) : NeverRefuses (passesFor level) := by
  simp [passesFor]

/-- The steps of a level are some of all steps. -/
theorem subset_passes_of_passesFor_eq {level : Int} {ps : List Pass}
    (h : passesFor level = .ok ps) : ps ⊆ passes := by
  rw [passesFor] at h
  split at h
  · obtain rfl := Except.ok.inj h
    exact List.filter_sublist.subset
  · cases h

end Optimize

namespace Downlevel

open Script

theorem neverRefuses_operands {inner : Text → Outcome Text} (h : ∀ t, NeverRefuses (inner t))
    (chunk : Text) (skip : Nat) (t : Text) : NeverRefuses (operands inner chunk skip t) := by
  fun_induction operands inner chunk skip t with
  | case4 _ _ _ ih => exact ih
  | _ => simp [*]

theorem neverRefuses_templatesFrom {inner : Text → Outcome Text} (h : ∀ t, NeverRefuses (inner t))
    (before : Text) (skip : Nat) (t : Text) :
    NeverRefuses (templatesFrom inner before skip t) := by
  fun_induction templatesFrom inner before skip t <;>
    simp [templateToConcatenation, neverRefuses_operands h, *]

theorem neverRefuses_templatesWithin (depth : Nat) (code : Text) :
    NeverRefuses (templatesWithin depth code) := by
  induction depth generalizing code with
  | zero => simp [templatesWithin]
  | succ depth ih => simp [templatesWithin, neverRefuses_templatesFrom ih]

end Downlevel

/-- No step toward the older language refuses a request. -/
@[simp]
theorem neverRefuses_downlevel (code : Text) : NeverRefuses (downlevel code) := by
  refine ScriptStep.neverRefuses_applyAll (fun step hstep t => ?_) code
  simp only [downlevelSteps, List.mem_cons, List.not_mem_nil, or_false] at hstep
  rcases hstep with rfl | rfl | rfl | rfl | rfl
  · exact Downlevel.neverRefuses_templatesWithin _ _
  all_goals exact Script.neverRefuses_restoreText _ _

namespace Adapt

@[simp]
theorem neverRefuses_wrap (p : Profile) (code : Text) : NeverRefuses (Harness.wrap p code) := by
  rw [Harness.wrap]
  split <;> simp

theorem neverRefuses_supply (p : Profile) (polyfills : Bool) (code : Text) :
    NeverRefuses (supply p polyfills code) := by
  refine failsOnly_ite_iff.mpr ⟨fun _ => failsOnly_bind_iff.mpr ⟨?_, fun guarded _ => ?_⟩,
    fun _ => failsOnly_pure _⟩
  · exact failsOnly_bind_iff.mpr
      ⟨Script.neverRefuses_restoreText _ _, fun text _ => failsOnly_pure _⟩
  · exact failsOnly_pure _

theorem neverRefuses_fit (p : Profile) (forSize : Bool) (code : Text) :
    NeverRefuses (fit p forSize code) := by
  refine failsOnly_ite_iff.mpr ⟨fun _ => failsOnly_bind_iff.mpr ⟨?_, fun shrunk _ => ?_⟩,
    fun _ => failsOnly_pure _⟩
  · simp [shrink]
  · exact failsOnly_pure _

/-- Adapting a script refuses no request. -/
theorem neverRefuses_adapt (p : Profile) (o : Options) (code : Text) :
    NeverRefuses (adapt p o code) := by
  simp [adapt, neverRefuses_supply, neverRefuses_fit]

end Adapt

/-!
## No reading of a source or a listing refuses the request

A source is read and rendered, and a listing in a registered format is lowered. Both can fail, but
with no fault that refuses a request.
-/

namespace Listing

namespace Wat

/-- Taking in an item of a function refuses nothing. -/
theorem neverRefuses_item (f : Func) (e : Expr) : NeverRefuses (f.item e) := by
  have hentries : ∀ isParam rest, NeverRefuses (f.declareEntries isParam rest) := by
    intro isParam rest
    unfold Func.declareEntries
    repeat' split
    all_goals simp
  unfold Func.item
  split
  · simp [hentries]
  · exact failsOnly_ok _

theorem neverRefuses_ofItems (items : List Expr) (index : Nat) :
    NeverRefuses (Func.ofItems items index) := by
  unfold Func.ofItems
  repeat' split
  all_goals exact failsOnly_foldlM (fun b x _ => neverRefuses_item b x) _

theorem neverRefuses_readFuncs (index : Nat) (items : List (List Expr)) :
    NeverRefuses (readFuncs index items) := by
  induction items generalizing index with
  | nil => exact failsOnly_ok _
  | cons items rest ih => simp [readFuncs, neverRefuses_ofItems, ih]

theorem neverRefuses_lower (known : List (Text × Signature)) (tags : List Text) (f : Func) :
    NeverRefuses (lower known tags f) := by
  refine failsOnly_bind_iff.mpr ⟨failsOnly_foldlM (fun s step _ => ?_) _, fun s _ => ?_⟩
  · unfold runStep
    split <;> simp
  · exact failsOnly_pure _

theorem neverRefuses_read (t : Text) : NeverRefuses (read t) :=
  failsOnly_bind_iff.mpr ⟨neverRefuses_readFuncs _ _, fun _ _ =>
    failsOnly_mapM _ fun f _ => neverRefuses_lower _ _ f⟩

end Wat

/-- A registered format reads every listing or fails at its text. -/
theorem neverRefuses_reader {f : Format} (hf : f ∈ formats) {read : Text → Outcome (List Routine)}
    (hread : f.reader = some read) (t : Text) : NeverRefuses (read t) := by
  simp only [formats, List.mem_cons, List.not_mem_nil, or_false] at hf
  rcases hf with rfl | rfl | rfl | rfl | rfl | rfl | rfl | rfl | rfl <;> cases hread
  · exact failsOnly_ok _
  · exact failsOnly_ok _
  · exact Wat.neverRefuses_read t
  · exact failsOnly_ok _

/-- A listing in a registered format is not refused. -/
theorem neverRefuses_lower {tag : Text} (h : (format? tag).isSome) (t : Text) :
    NeverRefuses (lower t tag) := by
  obtain ⟨f, hf⟩ := Option.isSome_iff_exists.mp h
  have hformat : format tag = .ok f := by rw [format, hf]
  rw [lower, hformat]
  cases hread : f.reader with
  | none =>
    simp only [bind, Except.bind, hread]
    exact failsOnly_pure _
  | some read =>
    simp only [bind, Except.bind, hread]
    exact neverRefuses_reader (List.mem_of_find?_eq_some hf) hread t

end Listing

namespace Body

@[simp]
theorem neverRefuses_stripTypes (params : Text) : NeverRefuses (stripTypes params) := by
  refine failsOnly_bind_iff.mpr ⟨failsOnly_mapM _ fun part _ => ?_, fun names _ => ?_⟩
  · split <;> simp
  · exact failsOnly_pure _

theorem neverRefuses_blockLiterals (scope : Scope) (t : Text) :
    NeverRefuses (ObjC.blockLiterals scope t) :=
  failsOnly_bind_iff.mpr ⟨failsOnly_replaceM fun _ _ => failsOnly_bind_iff.mpr
    ⟨neverRefuses_stripTypes _, fun _ _ => failsOnly_pure _⟩, fun _ _ => failsOnly_pure _⟩

namespace Swift

theorem neverRefuses_endsWithJump (latest : List Text) : NeverRefuses (endsWithJump latest) := by
  induction latest with
  | nil => exact failsOnly_ok _
  | cons line earlier ih =>
    refine failsOnly_ite_iff.mpr ⟨fun _ => ih, fun _ => failsOnly_ite_iff.mpr ⟨fun _ => ?_,
      fun _ => failsOnly_ok _⟩⟩
    split <;> simp

theorem neverRefuses_breakCases (depth : Int) (switches : List OpenSwitch) (out lines : List Text) :
    NeverRefuses (breakCases depth switches out lines) := by
  induction lines generalizing depth switches out with
  | nil => exact failsOnly_ok _
  | cons line rest ih =>
    refine failsOnly_bind_iff.mpr ⟨?_, fun _ _ => ih _ _ _⟩
    split
    · refine failsOnly_ite_iff.mpr ⟨fun _ => failsOnly_bind_iff.mpr ⟨failsOnly_ite_iff.mpr
        ⟨fun _ => ?_, fun _ => failsOnly_pure _⟩, fun _ _ => failsOnly_pure _⟩,
        fun _ => failsOnly_pure _⟩
      exact failsOnly_map_iff.mpr (neverRefuses_endsWithJump _)
    · exact failsOnly_pure _

theorem neverRefuses_switchCases (scope : Scope) (t : Text) : NeverRefuses (switchCases scope t) :=
  failsOnly_bind_iff.mpr ⟨neverRefuses_breakCases _ _ _ _, fun _ _ => failsOnly_pure _⟩

theorem neverRefuses_closureToArrow {convert : Text → Outcome Text}
    (h : ∀ t, NeverRefuses (convert t)) (body : Text) :
    NeverRefuses (closureToArrow convert body) := by
  have hnumbered (t : Text) : NeverRefuses (numberedSignature t) :=
    failsOnly_bind_iff.mpr ⟨failsOnly_mapM _ fun _ _ => Number.neverRefuses_readDigits _,
      fun _ _ => failsOnly_pure _⟩
  have hsignature (t : Text) : NeverRefuses (closureSignature t) := by
    unfold closureSignature
    split
    · exact failsOnly_ite_iff.mpr ⟨fun _ => failsOnly_bind_iff.mpr
        ⟨neverRefuses_stripTypes _, fun _ _ => failsOnly_pure _⟩, fun _ => hnumbered t⟩
    · exact hnumbered t
  simp [closureToArrow, hsignature, h]

theorem neverRefuses_convertTrailing {convert : Text → Outcome Text}
    (h : ∀ t, NeverRefuses (convert t)) (fuel pos : Nat) (t : Text) :
    NeverRefuses (convertTrailing convert fuel pos t) := by
  fun_induction convertTrailing convert fuel pos t with
  | case4 _ _ _ _ _ _ _ _ _ _ _ _ _ ih =>
    exact failsOnly_bind_iff.mpr ⟨neverRefuses_closureToArrow h _, fun _ _ => ih _⟩
  | _ => simp [*]

theorem neverRefuses_convertLiterals {convert : Text → Outcome Text}
    (h : ∀ t, NeverRefuses (convert t)) (fuel pos : Nat) (t : Text) :
    NeverRefuses (convertLiterals convert fuel pos t) := by
  fun_induction convertLiterals convert fuel pos t with
  | case3 _ _ _ _ _ _ _ _ _ _ ih =>
    exact failsOnly_bind_iff.mpr ⟨neverRefuses_closureToArrow h _, fun _ _ => ih _⟩
  | _ => simp [*]

theorem neverRefuses_convertWithin (depth : Nat) (t : Text) :
    NeverRefuses (convertWithin depth t) := by
  induction depth generalizing t with
  | zero => exact failsOnly_ok _
  | succ depth ih =>
    exact failsOnly_bind_iff.mpr ⟨neverRefuses_convertTrailing ih _ _ _, fun _ _ =>
      neverRefuses_convertLiterals ih _ _ _⟩

end Swift

/-- An idiom that never refuses. -/
def Idiom.NeverRefuses (i : Idiom) : Prop := ∀ scope t, Outcome.NeverRefuses (i.apply scope t)

@[simp]
theorem neverRefuses_outsideLiterals {f : Scope → Text → Outcome Text}
    (h : ∀ scope t, NeverRefuses (f scope t)) (o : Script.MaskOptions) (scope : Scope) (t : Text) :
    NeverRefuses (outsideLiterals o f scope t) := by
  simp [outsideLiterals, h]

@[simp]
theorem Idiom.neverRefuses_masked (name : String) (o : Script.MaskOptions)
    (f : Scope → Text → Text) : (Idiom.masked name o f).NeverRefuses :=
  fun _ _ => neverRefuses_outsideLiterals (fun _ _ => failsOnly_ok _) _ _ _

@[simp]
theorem Idiom.neverRefuses_ofEdits (name : String) (o : Script.MaskOptions) (edits : List Edit) :
    (Idiom.ofEdits name o edits).NeverRefuses :=
  fun scope t => neverRefuses_outsideLiterals (fun _ _ => failsOnly_ok _) o scope t

@[simp]
theorem Idiom.neverRefuses_always (name : String) (f : Scope → Text → Text) :
    (Idiom.mk name (always f)).NeverRefuses :=
  fun _ _ => failsOnly_ok _

theorem neverRefuses_swiftIdioms : ∀ i ∈ swiftIdioms, i.NeverRefuses := by
  have hclosures : (Idiom.mk "closures" fun _ => Swift.convertClosures).NeverRefuses :=
    fun _ _ => Swift.neverRefuses_convertWithin _ _
  have hcases : (Idiom.mk "switch-cases" (outsideLiterals .all Swift.switchCases)).NeverRefuses :=
    fun _ _ => neverRefuses_outsideLiterals Swift.neverRefuses_switchCases _ _ _
  simp only [swiftIdioms, List.forall_mem_cons, hclosures, hcases, Idiom.neverRefuses_always,
    Idiom.neverRefuses_masked, Idiom.neverRefuses_ofEdits, true_and]
  exact List.forall_mem_nil _

theorem neverRefuses_objcIdioms : ∀ i ∈ objcIdioms, i.NeverRefuses := by
  have hblocks :
      (Idiom.mk "block-literals" (outsideLiterals .all ObjC.blockLiterals)).NeverRefuses :=
    fun _ _ => neverRefuses_outsideLiterals neverRefuses_blockLiterals _ _ _
  simp only [objcIdioms, List.forall_mem_cons, hblocks, Idiom.neverRefuses_masked,
    Idiom.neverRefuses_ofEdits, true_and]
  exact List.forall_mem_nil _

theorem neverRefuses_applyAll {idioms : List Idiom} (h : ∀ i ∈ idioms, i.NeverRefuses)
    (scope : Scope) (t : Text) : NeverRefuses (applyAll scope idioms t) := by
  induction idioms generalizing t with
  | nil => exact failsOnly_ok _
  | cons i rest ih =>
    exact failsOnly_bind_iff.mpr ⟨h i (List.mem_cons_self ..) scope t, fun _ _ =>
      ih (fun j hj => h j (List.mem_cons_of_mem _ hj)) _⟩

end Body

namespace Render

open Declaration

namespace Context

variable (x : Context) (scope : Body.Scope)

@[simp]
theorem neverRefuses_rephrase (t : Text) : NeverRefuses (x.rephrase scope t) := by
  refine Body.neverRefuses_applyAll ?_ scope t
  split
  · exact Body.neverRefuses_swiftIdioms
  · exact Body.neverRefuses_objcIdioms

@[simp]
theorem neverRefuses_body (returnsValue : Bool) (t : Text) :
    NeverRefuses (x.body scope returnsValue t) := by
  simp [body]

@[simp]
theorem neverRefuses_expression (t : Text) : NeverRefuses (x.expression scope t) := by
  simp [expression]

@[simp]
theorem neverRefuses_initialValue (p : Property) : NeverRefuses (x.initialValue scope p) := by
  simp [initialValue]

@[simp]
theorem neverRefuses_parameters (ps : List Parameter) : NeverRefuses (x.parameters scope ps) := by
  have hparameter : ∀ p ∈ ps, NeverRefuses (x.parameter scope p) := by
    intro p _
    simp [parameter]
  simp [parameters, failsOnly_mapM ps hparameter]

/-- A body with the parameters of its function. -/
theorem neverRefuses_callable (returnsValue : Bool) (t : Text) (ps : List Parameter)
    (g : Text → Text → Text) : NeverRefuses (do
      let body ← x.body scope returnsValue t
      let params ← x.parameters scope ps
      pure (g body params)) :=
  failsOnly_bind_iff.mpr ⟨x.neverRefuses_body scope _ _, fun _ _ =>
    failsOnly_bind_iff.mpr ⟨x.neverRefuses_parameters scope _, fun _ _ => failsOnly_pure _⟩⟩

theorem neverRefuses_enum (e : Enum) : NeverRefuses (x.enum e) := by
  have hvalues : ∀ next, NeverRefuses (x.caseValues e next e.cases) := by
    intro next
    induction e.cases generalizing next with
    | nil => exact failsOnly_ok _
    | cons c rest ih => simp [caseValues, caseValue, ih]
  have hmethods := failsOnly_mapM (P := Fault.IsOfWork) (e.methods.filter (!·.isDeclaration))
    (f := x.enumMethod e) fun _ _ => x.neverRefuses_callable _ _ _ _ _
  simp [enum, hvalues, hmethods]

theorem neverRefuses_extension (e : Extension) : NeverRefuses (x.extension e) := by
  have hmethods (target : Text) := failsOnly_mapM (P := Fault.IsOfWork)
    (e.methods.filter (!·.isDeclaration)) (f := x.extensionMethod target e)
    fun _ _ => x.neverRefuses_callable _ _ _ _ _
  have hproperties (target : Text) := failsOnly_mapM (P := Fault.IsOfWork) e.properties
    (f := x.extensionProperty target e) fun p _ => by simp [extensionProperty, definedProperty]
  simp [extension, hmethods, hproperties]

theorem neverRefuses_constructor (typeName : Text) (stored : List Property)
    (init : Option Initializer) (derived : Bool) :
    NeverRefuses (x.constructor typeName stored init derived) := by
  have hbody : NeverRefuses (x.constructorBody typeName init) := by
    cases init <;> simp [constructorBody]
  have hdefaults : NeverRefuses (x.defaults typeName stored) :=
    failsOnly_mapM _ fun p _ => by simp
  simp [constructor, hbody, hdefaults]

theorem neverRefuses_memberwiseConstructor (typeName : Text) (stored : List Property) :
    NeverRefuses (x.memberwiseConstructor typeName stored) :=
  failsOnly_bind_iff.mpr ⟨failsOnly_mapM _ fun p _ => by simp [memberwise], fun _ _ =>
    failsOnly_pure _⟩

theorem neverRefuses_initMethod (typeName : Text) (i : Initializer) :
    NeverRefuses (x.initMethod typeName i) :=
  x.neverRefuses_callable _ _ _ _ _

theorem neverRefuses_members (typeName : Text) (ps : List Property) (ms : List Method) :
    NeverRefuses (x.members typeName ps ms) := by
  have haccessors := failsOnly_mapM (P := Fault.IsOfWork) (ps.filter (·.isComputed))
    (f := x.accessors typeName) fun p _ => by simp [accessors]
  have hmethods := failsOnly_mapM (P := Fault.IsOfWork) (ms.filter (!·.isDeclaration))
    (f := x.method typeName) fun _ _ => x.neverRefuses_callable _ _ _ _ _
  simp [members, haccessors, hmethods]

theorem neverRefuses_typeText (head : Text) (members : List Text) (typeName : Text)
    (ps : List Property) : NeverRefuses (x.typeText head members typeName ps) :=
  failsOnly_bind_iff.mpr ⟨failsOnly_mapM _ fun p _ => by simp, fun _ _ => failsOnly_pure _⟩

theorem neverRefuses_classDefinition (c : ClassType) : NeverRefuses (x.classDefinition c) := by
  have hinits (is : List Initializer) :=
    failsOnly_mapM is fun i _ => x.neverRefuses_initMethod c.name i
  simp [classDefinition, neverRefuses_constructor, hinits, neverRefuses_members,
    neverRefuses_typeText]

theorem neverRefuses_struct (s : Struct) : NeverRefuses (x.struct s) := by
  have hinits (is : List Initializer) :=
    failsOnly_mapM is fun i _ => x.neverRefuses_initMethod s.name i
  unfold struct
  rcases x.splitInitializers s.initializers with ⟨_ | i, others⟩
  · refine failsOnly_bind_iff.mpr ⟨x.neverRefuses_memberwiseConstructor _ _, fun _ _ => ?_⟩
    simp [hinits, neverRefuses_members, neverRefuses_typeText]
  · refine failsOnly_bind_iff.mpr ⟨x.neverRefuses_constructor _ _ _ _, fun _ _ => ?_⟩
    simp [hinits, neverRefuses_members, neverRefuses_typeText]

theorem neverRefuses_tail : NeverRefuses x.tail := by
  have hglobals := failsOnly_mapM (P := Fault.IsOfWork) x.module.globals
    (f := fun v => (v.line, ·) <$> x.globalVariable v) fun v _ =>
      failsOnly_map_iff.mpr (failsOnly_bind_iff.mpr
        ⟨x.neverRefuses_expression _ _, fun _ _ => failsOnly_pure _⟩)
  have hunknowns := failsOnly_mapM (P := Fault.IsOfWork) x.module.unknowns
    (f := fun u => (u.line, ·) <$> x.unknown u) fun u _ => by
      refine failsOnly_map_iff.mpr ?_
      unfold unknown
      split
      · exact failsOnly_ok _
      · exact failsOnly_ok _
      · split
        · exact failsOnly_map_iff.mpr (x.neverRefuses_rephrase _ _)
        · exact failsOnly_ok _
  exact failsOnly_bind_iff.mpr ⟨hglobals, fun _ _ =>
    failsOnly_bind_iff.mpr ⟨hunknowns, fun _ _ => failsOnly_pure _⟩⟩

theorem neverRefuses_sections : NeverRefuses x.sections := by
  have henums := failsOnly_mapM x.module.enums fun e _ => x.neverRefuses_enum e
  have hclasses (cs : List ClassType) :=
    failsOnly_mapM cs fun c _ => x.neverRefuses_classDefinition c
  have hstructs := failsOnly_mapM x.module.structs fun s _ => x.neverRefuses_struct s
  have hextensions := failsOnly_mapM x.module.extensions fun e _ => x.neverRefuses_extension e
  have hfunctions := failsOnly_mapM (P := Fault.IsOfWork) x.module.functions (f := x.function)
    fun _ _ => x.neverRefuses_callable _ _ _ _ _
  simp [sections, henums, hclasses, hstructs, hextensions, hfunctions, neverRefuses_tail]

end Context

/-- Rendering declarations refuses no request. -/
theorem neverRefuses_render (options : Options) (m : Module) : NeverRefuses (render options m) :=
  failsOnly_bind_iff.mpr ⟨Context.neverRefuses_sections _, fun _ _ => failsOnly_pure _⟩

end Render

/-- Reading declarations refuses no request. -/
theorem Declaration.neverRefuses_read (source : Text) (d : Dialect) :
    NeverRefuses (read source d) := by
  cases d <;> simp [read]

end HostScript
