import HostScript.Proofs.Body.Interpolation
import HostScript.Proofs.Body.SwiftBindings
import HostScript.Proofs.Body.SwiftClosures
import HostScript.Proofs.Body.SwiftControl
import HostScript.Proofs.Body.SwiftLibrary
import HostScript.Proofs.Body.SwiftLines
import HostScript.Proofs.Body.SwiftLoops

/-!
# Literals in Swift bodies

Some idioms work on the whole text, the others on the text outside literals. Either sort keeps the
literals that a tame script holds as long as it matches none of them and drops none, so the literals
of a body come through all idioms in order.
-/

namespace HostScript

namespace Body

open Script Pattern Swift

variable {scope : Scope} {ls : List Text} {t u : Text} {idiom : Idiom} {idioms : List Idiom}

/-- An idiom that keeps the plain literals of a tame script that is as it asks. -/
def KeepsLiterals (scope : Scope) (idiom : Idiom) (asks : Scope → Text → Bool) : Prop :=
  ∀ ls t, (∀ l ∈ ls, IsPlainLiteral l) → HoldsLiterals ls t → IsTameScript t →
    asks scope t = true → ∃ u, idiom.apply scope t = .ok u ∧ HoldsLiterals ls u

/-- Each text from the given one to the last is a tame script, and as the next idiom asks. -/
def Meets (scope : Scope) : List Idiom → List (Scope → Text → Bool) → Text → Prop
  | idiom :: idioms, asks :: more, t =>
    IsTameScript t ∧ asks scope t = true ∧
      match idiom.apply scope t with
      | .ok u => Meets scope idioms more u
      | .error _ => True
  | _, _, t => IsTameScript t

instance decidableMeets (scope : Scope) : (idioms : List Idiom) →
    (demands : List (Scope → Text → Bool)) → (t : Text) → Decidable (Meets scope idioms demands t)
  | [], _, t => inferInstanceAs (Decidable (IsTameScript t))
  | _ :: _, [], t => inferInstanceAs (Decidable (IsTameScript t))
  | idiom :: idioms, asks :: more, t =>
    match h : idiom.apply scope t with
    | .ok u =>
      have := decidableMeets scope idioms more u
      decidable_of_iff (IsTameScript t ∧ asks scope t = true ∧ Meets scope idioms more u)
        (by rw [Meets, h])
    | .error _ =>
      decidable_of_iff (IsTameScript t ∧ asks scope t = true) (by rw [Meets, h]; simp)

theorem Meets.isTameScript {demands : List (Scope → Text → Bool)}
    (h : Meets scope idioms demands t) : IsTameScript t := by
  cases idioms with
  | nil => exact h
  | cons =>
    cases demands with
    | nil => exact h
    | cons => exact h.1

/-- Idioms one after the other keep the literals. -/
theorem applyAll_keepsLiterals {demands : List (Scope → Text → Bool)}
    (h : List.Forall₂ (KeepsLiterals scope) idioms demands) (hls : ∀ l ∈ ls, IsPlainLiteral l)
    (ht : HoldsLiterals ls t) (hmeets : Meets scope idioms demands t) :
    ∃ out, applyAll scope idioms t = .ok out ∧ HoldsLiterals ls out ∧ IsTameScript out := by
  induction h generalizing t with
  | nil => exact ⟨t, rfl, ht, hmeets⟩
  | @cons idiom asks idioms demands hidiom _ ih =>
    obtain ⟨htame, hasks, hrest⟩ := hmeets
    obtain ⟨u, hu, hholds⟩ := hidiom ls t hls ht htame hasks
    rw [hu] at hrest
    obtain ⟨out, hout, hkept⟩ := ih hholds hrest
    exact ⟨out, (applyAll_cons hu).trans hout, hkept⟩

/-- What an edit of the shown text asks: that no quotes show in it, something of it, and that marks
are read where they are in what it becomes. -/
def asksShown (o : MaskOptions) (f : Scope → Text → Outcome Text) (asks : Scope → Text → Bool)
    (scope : Scope) (t : Text) : Bool :=
  let s := mask o t
  decide (IsShownTame o t) && (asks scope s.text &&
    (f scope s.text).toOption.any (readsMarks s.spans.length))

/-- An idiom on the shown text keeps the literals if it keeps the marks. -/
theorem keepsLiterals_masked {name : String} {o : MaskOptions}
    {f : Scope → Text → Outcome Text} {asks : Scope → Text → Bool}
    (hf : ∀ t u n, asks scope t = true → f scope t = .ok u → KeepsMarks n t u) :
    KeepsLiterals scope ⟨name, outsideLiterals o f⟩ (asksShown o f asks) := by
  intro ls t _ ht _ hasks
  obtain ⟨htame, hasks⟩ := Bool.and_eq_true_iff.mp hasks
  obtain ⟨hshown, hreads⟩ := Bool.and_eq_true_iff.mp hasks
  obtain ⟨u, hu, hmarks⟩ := (Option.any_eq_true _ _).mp hreads
  rw [Outcome.toOption_eq_some_iff] at hu
  obtain ⟨is, hlegible, hrestore⟩ := ht.restore (of_decide_eq_true htame)
  obtain ⟨out, hout, hholds⟩ := hrestore u (hf _ u _ hshown hu hlegible) hmarks
  refine ⟨out, ?_, hholds⟩
  change (f scope (mask o t).text >>= (mask o t).restoreText) = _
  rw [hu]
  exact hout

/-- One that cannot fail needs no more. -/
theorem keepsLiterals_always {name : String} {o : MaskOptions}
    {f : Scope → Text → Text} {asks : Scope → Text → Bool}
    (hf : ∀ t n, asks scope t = true → KeepsMarks n t (f scope t)) :
    KeepsLiterals scope (.masked name o f) (asksShown o (always f) asks) :=
  keepsLiterals_masked fun t u n hasks hu => by
    obtain rfl := Except.ok.inj hu
    exact hf t n hasks

/-- Whether the idiom for closures finds none, or no literal holds the start of one and none is
dropped with what stands before the statements. -/
def sparesClosures (t : Text) : Bool :=
  (convertClosures t).toOption == some t
    || (mask .all t).spans.all (LacksClosure ·) && sparesWithin (t.length + 1) t

/-- Whether the clauses that catch errors drop no mark. -/
def sparesErrors (t : Text) : Bool :=
  let t := tryWord.erase t
  sparesBlocks (2 * t.length + 2) t

/-- What the idioms of Swift bodies ask of the texts that they are given: that none matches inside
a literal where it works on the text as it stands, and that none drops a literal elsewhere. -/
def swiftDemands : List (Scope → Text → Bool) := [
  -- closures
  fun _ t => sparesClosures t,
  -- string-interpolation
  fun _ t => SparesStrings t,
  -- range-loops
  fun _ t => t.lines.all (LoopSpares ·),
  -- error-handling
  asksShown .all (always errorHandling) fun _ t => sparesErrors t,
  -- optional-binding
  fun _ t => t.lines.all (BindingSpares ·),
  -- declarations
  fun _ t => t.lines.all (DeclarationSpares ·),
  -- optionals
  asksShown .all (always optionals) fun _ t => castSuffix.Spares t,
  -- self-this
  asksShown .chunked (always fun _ => Edit.applyAll [.const (edge ++ "self" ++ edge) "this"])
    fun _ _ => true,
  -- type-names
  asksShown .chunked (always typeNames) fun _ t => Edit.SpareAll typeEdits t,
  -- library-api
  asksShown .chunked (always libraryApi) fun scope t =>
    Edit.SpareAll (libraryEdits scope) (beforeMembers scope t),
  -- argument-labels
  asksShown .all (always argumentLabels) fun _ t => (labelEdit t).Spares t,
  -- implicit-self
  asksShown .chunked (always qualifyMembers) fun _ _ => true,
  -- implicit-members
  asksShown .chunked (always implicitMembers) fun _ _ => true,
  -- control-parentheses
  asksShown .all (always (perLine parenthesizeControl)) fun _ _ => true,
  -- switch-cases
  asksShown .all switchCases fun _ _ => true,
  -- statement-termination
  fun _ _ => true]

/-- Names of a scope that are tame code. -/
structure TameNames (scope : Scope) : Prop where
  typeName : ∀ c ∈ scope.typeName, isTameCode c = true
  owners : ∀ owner ∈ scope.enumCases, ∀ c ∈ owner.2, isTameCode c = true

/-- Each idiom of Swift bodies keeps the literals of a script that is as it asks. -/
theorem forall_keepsLiterals (hscope : TameNames scope) :
    List.Forall₂ (KeepsLiterals scope) swiftIdioms swiftDemands := by
  refine .cons ?closures (.cons ?interpolation (.cons ?loops (.cons ?errors (.cons ?binding
    (.cons ?declarations (.cons ?optionals (.cons ?self (.cons ?types (.cons ?library
      (.cons ?labels (.cons ?implicitSelf (.cons ?members (.cons ?control (.cons ?switch
        (.cons ?termination .nil)))))))))))))))
  case closures =>
    intro ls t _ ht htame hasks
    replace hasks : sparesClosures t = true := hasks
    rw [sparesClosures, Bool.or_eq_true, Bool.and_eq_true, beq_iff_eq, List.all_eq_true] at hasks
    rcases hasks with hsame | ⟨hliterals, hspares⟩
    · exact ⟨t, Outcome.toOption_eq_some_iff.mp hsame, ht⟩
    · obtain ⟨u, hu, hscript⟩ := scripted_convertWithin _ (Scripted.of_spans (ht.scripted htame) htame
        fun l hl => of_decide_eq_true (hliterals l hl)) hspares
      exact ⟨u, hu, hscript.holdsLiterals fun l hl => (ht.isQuoted hl).1⟩
  case interpolation =>
    exact fun ls t hls ht htame hasks =>
      ⟨_, rfl, holdsLiterals_interpolate ht htame hls (of_decide_eq_true hasks)⟩
  case loops =>
    exact fun ls t _ ht htame hasks => ⟨_, rfl, ht.edit htame fun hscript =>
      Scripted.edit_lines hscript fun line hline ms hms =>
        scripted_rangeLoops hms (Text.break_notMem_of_mem_lines hline)
          (of_decide_eq_true (List.all_eq_true.mp hasks line hline))⟩
  case errors => exact keepsLiterals_always fun t n hasks => keepsMarks_errorHandling hasks
  case binding =>
    exact fun ls t _ ht htame hasks => ⟨_, rfl, ht.edit htame fun hscript =>
      scripted_optionalBinding hscript fun line hline =>
        of_decide_eq_true (List.all_eq_true.mp hasks line hline)⟩
  case declarations =>
    exact fun ls t _ ht htame hasks => ⟨_, rfl, ht.edit htame fun hscript =>
      Scripted.edit_lines hscript fun line hline ms hms =>
        scripted_declarations hms (Text.break_notMem_of_mem_lines hline)
          (of_decide_eq_true (List.all_eq_true.mp hasks line hline))⟩
  case optionals =>
    exact keepsLiterals_always fun t n hasks => keepsMarks_optionals (of_decide_eq_true hasks)
  case self => exact keepsLiterals_always fun t n _ => keepsMarks_selfThis
  case types =>
    exact keepsLiterals_always fun t n hasks =>
      keepsMarks_typeNames hscope.typeName (of_decide_eq_true hasks)
  case library =>
    exact keepsLiterals_always fun t n hasks => keepsMarks_libraryApi (of_decide_eq_true hasks)
  case labels =>
    exact keepsLiterals_always fun t n hasks =>
      keepsMarks_argumentLabels (of_decide_eq_true hasks)
  case implicitSelf => exact keepsLiterals_always fun t n _ => keepsMarks_qualifyMembers _ _
  case members =>
    exact keepsLiterals_always fun t n _ => keepsMarks_implicitMembers hscope.owners
  case control =>
    exact keepsLiterals_always fun t n _ =>
      keepsMarks_perLine fun line _ => keepsMarks_parenthesizeControl line
  case switch => exact keepsLiterals_masked fun t u n _ hu => keepsMarks_switchCases hu
  case termination =>
    exact fun ls t _ ht htame _ => ⟨_, rfl, ht.edit htame fun hscript =>
      scripted_terminateStatements hscript⟩

/-- A body with a block, an optional value, a label and an interpolation, and with words and marks
of Swift inside a literal. -/
def quotedBlock : Text := "if J/2 \x7b f(b ?? \"nil?\", at: \"\\(n)\") \x7d"

end Body

end HostScript
