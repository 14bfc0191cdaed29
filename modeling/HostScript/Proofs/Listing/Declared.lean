import HostScript.Listing.Wat
import HostScript.Proofs.Numeral
import HostScript.Proofs.Outcome
import Mathlib.Data.List.Nodup

/-!
# Declarations of a function

A function declares its locals in order: one with a name, or several without. Reading the
declarations gives each local a script name, found under the number of the local and under its
source name, and the signatures of a module give back every function under its name.
-/

namespace HostScript.Listing.Wat

/-- A local variable as it is declared. -/
structure Local where
  isParam : Bool
  /-- What follows the dollar sign of its name, if it has one. -/
  name : Option Text

/-- The name of a local in scripts, given its number. -/
def Local.script (d : Local) (index : Nat) : Text :=
  match d.name with
  | some n => Routine.identifierChars n
  | none => (if d.isParam then 'p' else 'l') :: Text.ofNat index

/-- The locals of a declaration: one with a name, or one for each type. -/
def entryLocals (isParam : Bool) : List Expr → List Local
  | .atom ('$' :: n) :: _ => [⟨isParam, some n⟩]
  | entries => entries.map fun _ => ⟨isParam, none⟩

/-- The locals that an item of a function declares. -/
def declares : Expr → List Local
  | .list (head :: entries) =>
    if head.isAtom "param" || head.isAtom "local" then entryLocals (head.isAtom "param") entries
    else []
  | _ => []

/-- An item of a function declares a result. -/
def declaresResult : Expr → Bool
  | .list (head :: _) => head.isAtom "result"
  | _ => false

/-- What follows the dollar sign of a function's name, if it has one. -/
def functionName? : List Expr → Option Text
  | .atom ('$' :: n) :: _ => some n
  | _ => none

/-- The script names of the parameters among declared locals. -/
def paramNames (ds : List Local) : List Text :=
  ds.zipIdx.filterMap fun (d, i) => if d.isParam then some (d.script i) else none

/-- A function knows the locals that were declared. -/
structure Func.Knows (f : Func) (ds : List Local) : Prop where
  count : f.count = ds.length
  number : ∀ {i : Nat} {d : Local}, ds[i]? = some d →
    f.locals.lookup (Text.ofNat i) = some (d.script i)
  named : ∀ {d : Local} {n : Text}, d ∈ ds → d.name = some n →
    f.locals.lookup ('$' :: n) = some (Routine.identifierChars n)
  params : f.params = paramNames ds

/-- A function is what its items declare. -/
structure Func.Reads (f : Func) (items : List Expr) : Prop where
  knows : f.Knows (items.flatMap declares)
  hasResult : f.hasResult = items.any declaresResult
  name : ∀ {n : Text}, functionName? items = some n → f.name = Routine.identifierChars n

/-- A number is written without a dollar sign. -/
theorem ofNat_ne_dollar (i : Nat) (n : Text) : Text.ofNat i ≠ '$' :: n := by
  intro h
  have hdigit : ('$' : Char).isDigit = true :=
    isDigit_of_mem_ofNat (h ▸ List.mem_cons_self ..)
  cases hdigit

/-- The name of a local is a dollar sign and what follows it. -/
theorem dollarName?_eq_some_iff {t script : Text} :
    dollarName? t = some script ↔ ∃ n, t = '$' :: n ∧ script = Routine.identifierChars n := by
  unfold dollarName?
  split
  · rename_i n
    constructor
    · intro h
      exact ⟨n, rfl, (Option.some.inj h).symm⟩
    · rintro ⟨m, hm, rfl⟩
      rw [(List.cons.inj hm).2]
  · rename_i hno
    constructor
    · intro h
      cases h
    · rintro ⟨n, rfl, -⟩
      exact absurd rfl (hno n)

namespace Func

/-- One more parameter or local adds its script name to the parameters, or nothing. -/
theorem paramNames_snoc (ds : List Local) (d : Local) :
    paramNames (ds ++ [d]) =
      if d.isParam then paramNames ds ++ [d.script ds.length] else paramNames ds := by
  unfold paramNames
  rw [List.zipIdx_append, List.filterMap_append]
  cases hd : d.isParam <;> simp [hd]

/-- The function with one more local. -/
def declareLocal (f : Func) (d : Local) : Func :=
  f.declare (d.name.map ('$' :: ·)) (d.script f.count) d.isParam

/-- A local comes in front of the earlier ones, by its number and by its name if it has one. -/
theorem locals_declareLocal (f : Func) (d : Local) :
    (f.declareLocal d).locals = (Text.ofNat f.count, d.script f.count) ::
      ((d.name.map fun n => ('$' :: n, d.script f.count)).toList ++ f.locals) := by
  cases hn : d.name <;> simp [declareLocal, Func.declare, hn]

/-- A number other than that of a new local is looked up among the earlier ones. -/
theorem lookup_number_declareLocal (f : Func) (d : Local) {i : Nat} (hi : i ≠ f.count) :
    (f.declareLocal d).locals.lookup (Text.ofNat i) = f.locals.lookup (Text.ofNat i) := by
  have hne : (Text.ofNat i == Text.ofNat f.count) = false :=
    beq_eq_false_iff_ne.mpr fun heq => hi (ofNat_injective heq)
  have hdollar (n : Text) : (Text.ofNat i == '$' :: n) = false :=
    beq_eq_false_iff_ne.mpr (ofNat_ne_dollar i n)
  rw [locals_declareLocal, List.lookup_cons, hne]
  cases d.name with
  | none => rfl
  | some n => simp [List.lookup_cons, hdollar]

/-- A name other than that of a new local is looked up among the earlier ones. -/
theorem lookup_name_declareLocal (f : Func) (d : Local) (n : Text) :
    (f.declareLocal d).locals.lookup ('$' :: n) =
      if d.name = some n then some (d.script f.count) else f.locals.lookup ('$' :: n) := by
  have hne : ('$' :: n == Text.ofNat f.count) = false :=
    beq_eq_false_iff_ne.mpr (ofNat_ne_dollar _ n).symm
  rw [locals_declareLocal, List.lookup_cons, hne]
  cases d.name with
  | none => simp
  | some m =>
    by_cases hm : m = n
    · simp [hm]
    · have hmn : ('$' :: n == '$' :: m) = false :=
        beq_eq_false_iff_ne.mpr fun heq => hm (List.cons.inj heq).2.symm
      simp [List.lookup_cons, hmn, hm]

/-- Declaring a local makes it known. -/
theorem Knows.declareLocal {f : Func} {ds : List Local} (h : f.Knows ds) (d : Local) :
    (f.declareLocal d).Knows (ds ++ [d]) where
  count := by simp [Func.declareLocal, Func.declare, h.count]
  number := by
    intro i e hi
    by_cases hlast : i = f.count
    · obtain rfl : d = e := by simpa [hlast, h.count] using hi
      rw [locals_declareLocal, hlast]
      simp
    · have hlt : i < ds.length := by
        have hcount := h.count
        have hle := (List.getElem?_eq_some_iff.mp hi).1
        rw [List.length_append, List.length_singleton] at hle
        omega
      rw [lookup_number_declareLocal f d hlast,
        h.number ((List.getElem?_append_left hlt).symm.trans hi)]
  named := by
    intro e n he hn
    rw [lookup_name_declareLocal]
    split
    · rename_i hd
      simp [Local.script, hd]
    · rename_i hd
      rcases List.mem_append.mp he with he | he
      · exact h.named he hn
      · obtain rfl : e = d := by simpa using he
        exact absurd hn hd
  params := by
    rw [paramNames_snoc, ← h.count, ← h.params]
    rfl

/-- Locals without names are declared one after the other. -/
theorem Knows.declareUnnamed {f : Func} {ds : List Local} (h : f.Knows ds) (isParam : Bool)
    (entries : List Expr) :
    (f.declareUnnamed isParam entries).Knows (ds ++ entries.map fun _ => ⟨isParam, none⟩) := by
  induction entries generalizing f ds with
  | nil => simpa [Func.declareUnnamed] using h
  | cons e entries ih =>
    have hfirst := ih (h.declareLocal ⟨isParam, none⟩)
    rw [List.append_assoc] at hfirst
    exact hfirst

/-- What reading further items of a function leaves as it is. -/
structure SameHead (f g : Func) : Prop where
  name : g.name = f.name
  hasResult : g.hasResult = f.hasResult

theorem sameHead_declareUnnamed (f : Func) (isParam : Bool) (entries : List Expr) :
    SameHead f (f.declareUnnamed isParam entries) := by
  induction entries generalizing f with
  | nil => exact ⟨rfl, rfl⟩
  | cons e entries ih =>
    obtain ⟨hname, hresult⟩ := ih
      (f.declare none ((if isParam then 'p' else 'l') :: Text.ofNat f.count) isParam)
    exact ⟨hname, hresult⟩

/-- A declaration makes its locals known and changes nothing else. -/
theorem Knows.declareEntries {f g : Func} {ds : List Local} (h : f.Knows ds) {isParam : Bool}
    {entries : List Expr} (hg : f.declareEntries isParam entries = .ok g) :
    g.Knows (ds ++ entryLocals isParam entries) ∧ SameHead f g := by
  unfold Func.declareEntries at hg
  split at hg
  · obtain rfl := Except.ok.inj hg
    exact ⟨by simpa [entryLocals] using h, rfl, rfl⟩
  · cases hg
  · rename_i t rest
    split at hg
    · rename_i script hscript
      obtain rfl := Except.ok.inj hg
      obtain ⟨n, rfl, rfl⟩ := dollarName?_eq_some_iff.mp hscript
      exact ⟨h.declareLocal ⟨isParam, some n⟩, rfl, rfl⟩
    · rename_i hscript
      obtain rfl := Except.ok.inj hg
      have hentries : entryLocals isParam (.atom t :: rest) =
          (Expr.atom t :: rest).map fun _ => ⟨isParam, none⟩ := by
        unfold entryLocals
        split
        · rename_i heq
          obtain rfl := Expr.atom.inj (List.cons.inj heq).1
          cases hscript
        · rfl
      rw [hentries]
      exact ⟨h.declareUnnamed isParam _, sameHead_declareUnnamed f isParam _⟩

/-- An atom is only one word. -/
theorem isAtom_eq_false {e : Expr} {w v : String} (h : e.isAtom w = true)
    (hne : w.toList ≠ v.toList) : e.isAtom v = false := by
  cases e with
  | list => rfl
  | atom t =>
    obtain rfl : t = w.toList := by simpa [Expr.isAtom] using h
    simpa [Expr.isAtom] using hne

/-- What one item of a function preserves: the locals that it declares become known. -/
theorem Knows.item {f g : Func} {ds : List Local} (h : f.Knows ds) {e : Expr}
    (hitem : f.item e = .ok g) :
    g.Knows (ds ++ declares e) ∧ g.hasResult = (f.hasResult || declaresResult e) ∧
      g.name = f.name := by
  unfold Func.item at hitem
  split at hitem
  · rename_i head rest
    split at hitem
    · rename_i hdeclare
      have hresult : declaresResult (.list (head :: rest)) = false := by
        rcases Bool.or_eq_true_iff.mp hdeclare with hhead | hhead
        · exact isAtom_eq_false hhead (by decide)
        · exact isAtom_eq_false hhead (by decide)
      obtain ⟨hknows, hsame⟩ := h.declareEntries hitem
      rw [hresult, Bool.or_false, declares, if_pos hdeclare]
      exact ⟨hknows, hsame.hasResult, hsame.name⟩
    · rename_i hdeclare
      rw [declares, if_neg hdeclare, List.append_nil]
      split at hitem
      · rename_i hresult
        obtain rfl := Except.ok.inj hitem
        exact ⟨⟨h.count, h.number, h.named, h.params⟩, by simp [declaresResult, hresult], rfl⟩
      · rename_i hresult
        have hnone : declaresResult (.list (head :: rest)) = false := by
          simpa [declaresResult] using hresult
        rw [hnone, Bool.or_false]
        split at hitem
        · obtain rfl := Except.ok.inj hitem
          exact ⟨h, rfl, rfl⟩
        · obtain rfl := Except.ok.inj hitem
          exact ⟨⟨h.count, h.number, h.named, h.params⟩, rfl, rfl⟩
  · rename_i hshape
    obtain rfl := Except.ok.inj hitem
    have hdeclares : declares e = [] := by
      unfold declares
      split
      · exact absurd rfl (hshape _ _)
      · rfl
    have hresult : declaresResult e = false := by
      unfold declaresResult
      split
      · exact absurd rfl (hshape _ _)
      · rfl
    rw [hdeclares, hresult, List.append_nil, Bool.or_false]
    exact ⟨⟨h.count, h.number, h.named, h.params⟩, rfl, rfl⟩

/-- What items of a function in order preserve. -/
theorem Knows.items {f g : Func} {ds : List Local} (h : f.Knows ds) {items : List Expr}
    (hitems : items.foldlM Func.item f = .ok g) :
    g.Knows (ds ++ items.flatMap declares) ∧
      g.hasResult = (f.hasResult || items.any declaresResult) ∧ g.name = f.name := by
  induction items generalizing f ds with
  | nil =>
    obtain rfl := Except.ok.inj hitems
    exact ⟨by simpa using h, by simp, rfl⟩
  | cons e items ih =>
    rw [List.foldlM_cons] at hitems
    obtain ⟨f₁, hfirst, hrest⟩ := Outcome.bind_eq_ok_iff.mp hitems
    obtain ⟨h₁, hresult₁, hname₁⟩ := h.item hfirst
    obtain ⟨h₂, hresult₂, hname₂⟩ := ih h₁ hrest
    refine ⟨?_, ?_, hname₂.trans hname₁⟩
    · simpa using h₂
    · rw [hresult₂, hresult₁, List.any_cons, Bool.or_assoc]

/-- A function that knows nothing yet. -/
theorem knows_nil (n : Text) : Func.Knows { name := n } [] :=
  ⟨rfl, fun h => by simp at h, fun h => by simp at h, rfl⟩

/-- A function is read as its items declare it. -/
theorem reads_ofItems {items : List Expr} {index : Nat} {f : Func}
    (h : Func.ofItems items index = .ok f) : f.Reads items := by
  have hunnamed (hfold : items.foldlM Func.item
      { name := ("func" : Text) ++ Text.ofNat index } = .ok f)
      (hname : functionName? items = none) : f.Reads items := by
    obtain ⟨hknows, hresult, -⟩ := (knows_nil _).items hfold
    exact ⟨hknows, hresult, fun hn => by rw [hname] at hn; cases hn⟩
  unfold Func.ofItems at h
  split at h
  · rename_i t rest
    split at h
    · rename_i script hscript
      obtain ⟨n, rfl, rfl⟩ := dollarName?_eq_some_iff.mp hscript
      obtain ⟨hknows, hresult, hname⟩ := (knows_nil _).items h
      refine ⟨hknows, hresult, fun {m} hm => ?_⟩
      obtain rfl : n = m := Option.some.inj hm
      exact hname
    · rename_i hscript
      refine hunnamed h ?_
      unfold functionName?
      split
      · rename_i heq
        obtain rfl := Expr.atom.inj (List.cons.inj heq).1
        cases hscript
      · rfl
  · rename_i hshape
    refine hunnamed h ?_
    unfold functionName?
    split
    · exact absurd rfl (hshape _ _)
    · rfl

end Func

/-- The functions of a listing are read as their items declare them. -/
theorem reads_readFuncs {index : Nat} {sources : List (List Expr)} {fs : List Func}
    (h : readFuncs index sources = .ok fs) :
    List.Forall₂ (fun items f => f.Reads items) sources fs := by
  induction sources generalizing index fs with
  | nil =>
    obtain rfl := Except.ok.inj h
    exact .nil
  | cons items sources ih =>
    obtain ⟨f, hf, hrest⟩ := Outcome.bind_eq_ok_iff.mp h
    obtain ⟨gs, hgs, hfs⟩ := Outcome.bind_eq_ok_iff.mp hrest
    obtain rfl := Except.ok.inj hfs
    exact .cons (Func.reads_ofItems hf) (ih hgs)

/-- Every member on the left has a partner on the right. -/
theorem exists_mem_of_forall₂ {α β : Type} {r : α → β → Prop} {xs : List α} {ys : List β}
    (h : List.Forall₂ r xs ys) {x : α} (hx : x ∈ xs) : ∃ y ∈ ys, r x y := by
  induction h with
  | nil => simp at hx
  | cons hxy _ ih =>
    rcases List.mem_cons.mp hx with rfl | hx
    · exact ⟨_, List.mem_cons_self .., hxy⟩
    · obtain ⟨y, hy, hr⟩ := ih hx
      exact ⟨y, List.mem_cons_of_mem _ hy, hr⟩

/-- A number is added only where it hides no other entry. -/
theorem lookup_number {known : List (Text × Signature)} {key : Text} {s : Signature}
    (h : known.lookup key = some s) (number : Text) (other : Signature) :
    (if (known.lookup number).isSome then known else (number, other) :: known).lookup key =
      some s := by
  split
  · exact h
  · rename_i hnone
    have hne : (key == number) = false := by
      rw [beq_eq_false_iff_ne]
      rintro rfl
      exact hnone (by rw [h]; rfl)
    rw [List.lookup_cons, hne, h]

/-- An entry stays as long as no function of its name follows. -/
theorem lookup_signaturesFrom {known : List (Text × Signature)} {key : Text} {s : Signature}
    (h : known.lookup key = some s) {fs : List Func} (hkey : key ∉ fs.map Func.name)
    (index : Nat) : (signaturesFrom known index fs).lookup key = some s := by
  induction fs generalizing known index with
  | nil => exact h
  | cons f fs ih =>
    rw [List.map_cons, List.mem_cons, not_or] at hkey
    have hfirst : ((f.name, f.signature) :: known).lookup key = some s := by
      rw [List.lookup_cons, beq_eq_false_iff_ne.mpr hkey.1, h]
    rw [signaturesFrom]
    exact ih (lookup_number hfirst _ _) hkey.2 (index + 1)

/-- A function whose name no other one has is found under its name. -/
theorem lookup_signatures {fs : List Func} (hnames : (fs.map Func.name).Nodup) {g : Func}
    (hg : g ∈ fs) : (signatures fs).lookup g.name = some g.signature := by
  suffices h : ∀ known index, (signaturesFrom known index fs).lookup g.name = some g.signature from
    h [] 0
  induction fs with
  | nil => simp at hg
  | cons f fs ih =>
    intro known index
    rw [List.map_cons, List.nodup_cons] at hnames
    rw [signaturesFrom]
    rcases List.mem_cons.mp hg with rfl | hg
    · have hfirst : ((g.name, g.signature) :: known).lookup g.name = some g.signature := by
        simp
      exact lookup_signaturesFrom (lookup_number hfirst _ _) hnames.1 (index + 1)
    · exact ih hnames.2 hg _ (index + 1)

end HostScript.Listing.Wat
