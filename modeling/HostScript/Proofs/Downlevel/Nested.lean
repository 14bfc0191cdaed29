import HostScript.Proofs.Downlevel.Arrow
import HostScript.Text.ScriptChar

/-!
# Nested arrow functions

A small language of names, calls and arrow functions, with its text in two spellings: functions as
arrows, and functions without them. The arrows in the text of an expression are rephrased from the
last to the first; what stands behind an arrow is then an expression without arrows, which is taken
for its body as a whole. So the one spelling becomes the other.
-/

namespace HostScript.Downlevel

open Pattern Script

variable {x u w : Text} {c : Char} {P : Text → Prop}

/-! ## Expressions and their text -/

/-- A name of a script, other than the two words that arrows take for something else. -/
structure Identifier where
  text : Text
  starts : startsIn startsIdentifier text = true
  continues : ∀ c ∈ text, continuesIdentifier c = true
  notThis : text ≠ "this"
  notAsync : text ≠ "async"

/-- The parameters of an arrow function: names in parentheses, or one bare name. -/
inductive Params where
  | round (names : List Identifier)
  | bare (name : Identifier)

/-- Names, calls and arrow functions. -/
inductive Expr where
  | name (x : Identifier)
  | call (f : Identifier) (args : List Expr)
  | arrow (p : Params) (body : Expr)

/-- The names of parameters. -/
def Params.names : Params → List Identifier
  | .round xs => xs
  | .bare x => [x]

/-- The names of parameters with commas between them. -/
def Params.listed (p : Params) : Text := Text.join ", " (p.names.map (·.text))

/-- The parameters in front of an arrow. -/
def Params.spelled : Params → Text
  | .round xs => '(' :: ((Params.round xs).listed ++ [')'])
  | .bare x => x.text

/-- How a function of some parameters is spelled around its body. -/
abbrev Spelling := Params → Text → Text

/-- A function as an arrow. -/
def asArrow (p : Params) (body : Text) : Text := p.spelled ++ (" => " ++ body)

/-- A function without an arrow. -/
def asFunction (p : Params) (body : Text) : Text :=
  "function (" ++ (p.listed ++ (") \x7b return " ++ (body ++ "; \x7d")))

mutual

/-- The text of an expression, its functions spelled in a certain way. -/
def Expr.text (spell : Spelling) : Expr → Text
  | .name x => x.text
  | .call f args => f.text ++ ('(' :: (Text.join ", " (Expr.texts spell args) ++ [')']))
  | .arrow p body => spell p (body.text spell)

/-- The texts of expressions. -/
def Expr.texts (spell : Spelling) : List Expr → List Text
  | [] => []
  | e :: es => e.text spell :: Expr.texts spell es

end

mutual

/-- The names in an expression. -/
def Expr.names : Expr → List Identifier
  | .name x => [x]
  | .call f args => f :: Expr.namesIn args
  | .arrow p body => p.names ++ body.names

/-- The names in expressions. -/
def Expr.namesIn : List Expr → List Identifier
  | [] => []
  | e :: es => e.names ++ Expr.namesIn es

end

mutual

/-- The names in an expression that are the bare parameter of an arrow. -/
def Expr.bareParams : Expr → List Identifier
  | .name _ => []
  | .call _ args => Expr.bareParamsIn args
  | .arrow (.bare x) body => x :: body.bareParams
  | .arrow (.round _) body => body.bareParams

/-- The names in expressions that are the bare parameter of an arrow. -/
def Expr.bareParamsIn : List Expr → List Identifier
  | [] => []
  | e :: es => e.bareParams ++ Expr.bareParamsIn es

end

/-- What holds of names and calls and functions made up of expressions of which it holds, holds of
all expressions. -/
@[induction_eliminator]
theorem Expr.induct {motive : Expr → Prop} (name : ∀ x, motive (.name x))
    (call : ∀ f args, (∀ e ∈ args, motive e) → motive (.call f args))
    (arrow : ∀ p body, motive body → motive (.arrow p body)) (e : Expr) : motive e := by
  refine @Expr.rec motive (fun es => ∀ e ∈ es, motive e) name call arrow ?_ ?_ e
  · exact List.forall_mem_nil _
  · exact fun e es he hes => List.forall_mem_cons.mpr ⟨he, hes⟩

theorem Expr.mem_namesIn {es : List Expr} {x : Identifier} :
    x ∈ Expr.namesIn es ↔ ∃ e ∈ es, x ∈ e.names := by
  induction es with
  | nil => simp [Expr.namesIn]
  | cons e es ih => simp [Expr.namesIn, ih]

theorem Expr.mem_bareParamsIn {es : List Expr} {x : Identifier} :
    x ∈ Expr.bareParamsIn es ↔ ∃ e ∈ es, x ∈ e.bareParams := by
  induction es with
  | nil => simp [Expr.bareParamsIn]
  | cons e es ih => simp [Expr.bareParamsIn, ih]

theorem Expr.texts_eq_map (spell : Spelling) (es : List Expr) :
    Expr.texts spell es = es.map (Expr.text spell) := by
  induction es with
  | nil => rfl
  | cons e es ih => rw [Expr.texts, ih, List.map_cons]

/-! ## What holds of all words -/

/-- A spelling that adds no word without a property. -/
def Spelling.Keeps (spell : Spelling) (P : Text → Prop) : Prop :=
  ∀ p body, (∀ x ∈ p.names, P x.text) → P body → P (spell p body)

theorem Joins.listed (h : Joins P) {p : Params} (hp : ∀ x ∈ p.names, P x.text) : P p.listed := by
  refine h.join fun t ht => ?_
  obtain ⟨x, hx, rfl⟩ := List.mem_map.mp ht
  exact hp x hx

theorem Joins.keeps_asArrow (h : Joins P) : Spelling.Keeps asArrow P := by
  intro p body hp hbody
  cases p with
  | round xs =>
    have hparts : asArrow (.round xs) body =
        '(' :: ((Params.round xs).listed ++ (") => ".toList ++ body)) := by
      simp [asArrow, Params.spelled]
    rw [hparts]
    exact h.cons (by decide) (h.append (h.listed hp) (by decide) (by decide) hbody)
  | bare x => exact h.append (hp x (List.mem_singleton_self x)) (by decide) (by decide) hbody

theorem Joins.keeps_asFunction (h : Joins P) (hfunction : P "function") (hreturn : P "return") :
    Spelling.Keeps asFunction P := by
  intro p body hp hbody
  have hparts : asFunction p body = "function".toList ++ (" (".toList ++ (p.listed ++
      (") \x7b ".toList ++ ("return".toList ++ (" ".toList ++ (body ++ "; \x7d".toList)))))) := rfl
  have hclose : P (body ++ "; \x7d".toList) := by
    have := h.append hbody (w := "; \x7d") (by decide) (by decide) h.nil
    rwa [List.append_nil] at this
  rw [hparts]
  refine h.append hfunction (by decide) (by decide) ?_
  refine h.append (h.listed hp) (by decide) (by decide) ?_
  exact h.append hreturn (by decide) (by decide) hclose

/-- The text of an expression has a property that its names have. -/
theorem Joins.text (h : Joins P) {spell : Spelling} (hs : spell.Keeps P) (e : Expr)
    (he : ∀ x ∈ e.names, P x.text) : P (e.text spell) := by
  induction e with
  | name x => exact he x (List.mem_singleton_self x)
  | call f args ih =>
    rw [Expr.names, List.forall_mem_cons] at he
    have hargs : P (Text.join ", " (Expr.texts spell args)) := by
      refine h.join fun t ht => ?_
      rw [Expr.texts_eq_map] at ht
      obtain ⟨e, hmem, rfl⟩ := List.mem_map.mp ht
      exact ih e hmem fun x hx => he.2 x (Expr.mem_namesIn.mpr ⟨e, hmem, hx⟩)
    exact h.append he.1 (w := ['(']) (by decide) (by decide)
      (h.append hargs (w := [')']) (v := []) (by decide) (by decide) h.nil)
  | arrow p body ih =>
    rw [Expr.names, List.forall_mem_append] at he
    exact hs p _ he.1 (ih he.2)

/-! ## Expressions as bodies -/

/-- A text that stands as a whole where an operand is wanted. -/
structure IsOperand (t : Text) : Prop where
  passed : Passed t
  starts : startsIn isIdentPart t = true
  ends : endsIn isBlank t = false

theorem of_isIdentPart (hc : isIdentPart c = true) :
    isOpener c = false ∧ isCloser c = false ∧ isSeparator c = false := by
  refine ⟨?_, ?_, ?_⟩ <;>
    · rw [← Bool.not_eq_true]
      intro h
      simp only [isOpener, isCloser, isSeparator, Bool.or_eq_true, beq_iff_eq] at h
      rcases h with (rfl | rfl) | rfl <;> exact absurd hc (by decide)

theorem passed_of_isIdentPart (hx : ∀ a ∈ x, isIdentPart a = true) : Passed x :=
  passed_of_forall fun a ha => of_isIdentPart (hx a ha)

theorem startsIn_of_forall {f : Char → Bool} (hne : x ≠ []) (hx : ∀ a ∈ x, f a = true) :
    startsIn f x = true := by
  rw [startsIn_eq f hne]
  exact hx _ (List.head_mem hne)

/-- A name of identifier characters. -/
theorem isOperand_name {n : Text} (hn : IsName n) : IsOperand n where
  passed := passed_of_isIdentPart hn.isIdentPart
  starts := startsIn_of_forall hn.ne_nil hn.isIdentPart
  ends := hn.endsIn_isBlank

/-- Names and operands with commas between them, inside brackets. -/
theorem passedInside_join {ts : List Text} (hts : ∀ t ∈ ts, Passed t) :
    PassedInside (Text.join ", " ts) := by
  refine forall_join passed_nil.inside (fun s t hs ht => hs.append (PassedInside.append ?_ ht))
    fun t ht => (hts t ht).inside
  exact passedInside_of_forall (by decide)

theorem isOperand_asFunction {p : Params} {body : Text} (hp : ∀ x ∈ p.names, IsName x.text)
    (hbody : Passed body) : IsOperand (asFunction p body) := by
  have hlisted : PassedInside p.listed := by
    refine passedInside_join fun t ht => ?_
    obtain ⟨x, hx, rfl⟩ := List.mem_map.mp ht
    exact (isOperand_name (hp x hx)).passed
  have hreturn : PassedInside (" return ".toList ++ (body ++ "; ".toList)) :=
    (passedInside_of_forall (by decide)).append
      (hbody.inside.append (passedInside_of_forall (by decide)))
  have hparts : asFunction p body = "function ".toList ++ (('(' :: (p.listed ++ [')'])) ++
      ([' '] ++ ('\x7b' :: ((" return ".toList ++ (body ++ "; ".toList)) ++ ['\x7d'])))) := by
    have hdef : asFunction p body = "function (".toList ++ (p.listed ++
      (") \x7b return ".toList ++ (body ++ "; \x7d".toList))) := rfl
    rw [hdef]
    simp
  have hspace : Passed [' '] := passed_of_forall (by decide)
  have hword : Passed "function ".toList := passed_of_forall (by decide)
  rw [hparts]
  refine ⟨hword.append ((hlisted.between rfl rfl).append
    (hspace.append (hreturn.between rfl rfl))), rfl, ?_⟩
  simp only [← List.cons_append, ← List.append_assoc]
  rw [endsIn_append _ (List.cons_ne_nil _ [])]
  rfl

theorem isOperand_call {f : Text} {ts : List Text} (hf : IsName f) (hts : ∀ t ∈ ts, Passed t) :
    IsOperand (f ++ ('(' :: (Text.join ", " ts ++ [')']))) where
  passed := (isOperand_name hf).passed.append ((passedInside_join hts).between rfl rfl)
  starts := by
    rw [startsIn_append_left _ hf.ne_nil]
    exact (isOperand_name hf).starts
  ends := by
    rw [← List.cons_append, ← List.append_assoc, endsIn_append _ (List.cons_ne_nil _ [])]
    rfl

/-- Without arrows every expression is an operand. -/
theorem Expr.isOperand (e : Expr) (he : ∀ x ∈ e.names, IsName x.text) :
    IsOperand (e.text asFunction) := by
  induction e with
  | name x => exact isOperand_name (he x (List.mem_singleton_self x))
  | call f args ih =>
    rw [Expr.names, List.forall_mem_cons] at he
    refine isOperand_call he.1 fun t ht => ?_
    rw [Expr.texts_eq_map] at ht
    obtain ⟨e, hmem, rfl⟩ := List.mem_map.mp ht
    exact (ih e hmem fun x hx => he.2 x (Expr.mem_namesIn.mpr ⟨e, hmem, hx⟩)).passed
  | arrow p body ih =>
    rw [Expr.names, List.forall_mem_append] at he
    exact isOperand_asFunction he.1 (ih he.2).passed

/-! ## Rephrasing expressions -/

/-- A text becomes another one when its arrows are rephrased, wherever an operand may stand. -/
def Becomes (s t : Text) : Prop :=
  ∃ n ≤ s.length, ∀ fuel u z, Leads u → Closes z →
    rephrase (fuel + n) (u ++ s) z = rephrase fuel u (t ++ z)

theorem Becomes.refl (h : ¬ arrowSign <:+: x) (hhead : x.head? ≠ some '>') : Becomes x x :=
  ⟨0, Nat.zero_le _, fun fuel u z _ _ => rephrase_append h hhead fuel u z⟩

theorem leads_append_singleton (hc : isLead c = true) (u : Text) : Leads (u ++ [c]) := by
  have hself : Text.trimEnd (u ++ [c]) = u ++ [c] :=
    trimEnd_eq_self (by rw [endsIn_append _ (List.cons_ne_nil c [])]; exact (solid_of_isLead hc).1)
  rw [Leads, hself, endsIn_append _ (List.cons_ne_nil c [])]
  exact Or.inr hc

theorem Leads.append_space (h : Leads u) : Leads (u ++ [' ']) := by
  have hblank : Text.trimEnd [' '] = [] := by decide
  rwa [Leads, Text.trimEnd_append, if_pos hblank]

/-- Arguments are rephrased from the last to the first. -/
theorem Becomes.join {ss ts : List Text} (h : List.Forall₂ Becomes ss ts) :
    Becomes (Text.join ", " ss) (Text.join ", " ts) := by
  induction h with
  | nil => exact Becomes.refl (by decide) (by decide)
  | @cons s t ss ts hst hrest ih =>
    cases hrest with
    | nil => exact hst
    | @cons s' t' ss ts =>
      obtain ⟨m, hm, hfirst⟩ := hst
      obtain ⟨n, hn, hlast⟩ := ih
      rw [Text.join_cons _ _ (List.cons_ne_nil s' ss), Text.join_cons _ _ (List.cons_ne_nil t' ts)]
      refine ⟨m + n, by simp only [List.length_append]; omega, fun fuel u z hu hz => ?_⟩
      -- The last arguments stand behind the comma, so the first one is followed by what they become.
      have hlead : Leads (u ++ s ++ ", ") := by
        have := (leads_append_singleton (c := ',') (by decide) (u ++ s)).append_space
        simpa using this
      have hclose : Closes (", ".toList ++ (Text.join ", " (t' :: ts) ++ z)) := by
        intro c hc
        obtain rfl := Option.some.inj hc
        exact Or.inr rfl
      rw [← List.append_assoc, ← List.append_assoc, ← Nat.add_assoc, hlast _ _ _ hlead hz,
        rephrase_append (by decide) (by decide), hfirst _ _ _ hu hclose]
      simp only [List.append_assoc]

theorem arrowless_of_notMem (hx : '=' ∉ x) : ¬ arrowSign <:+: x := fun h =>
  hx (h.subset (List.mem_cons_self ..))

theorem Becomes.call {f s t : Text} (hf : IsName f) (h : Becomes s t) :
    Becomes (f ++ ('(' :: (s ++ [')']))) (f ++ ('(' :: (t ++ [')']))) := by
  obtain ⟨n, hn, hargs⟩ := h
  refine ⟨n, by simp only [List.length_append, List.length_cons]; omega, fun fuel u z _ _ => ?_⟩
  have hsource : u ++ (f ++ ('(' :: (s ++ [')']))) = u ++ (f ++ ['(']) ++ s ++ [')'] := by simp
  have htarget : f ++ ('(' :: (t ++ [')'])) ++ z = f ++ ['('] ++ (t ++ ([')'] ++ z)) := by simp
  have hlead : Leads (u ++ (f ++ ['('])) := by
    rw [← List.append_assoc]
    exact leads_append_singleton (by decide) _
  have hclose : Closes ([')'] ++ z) := by
    intro c hc
    obtain rfl := Option.some.inj hc
    exact Or.inl rfl
  have hopen {c : Char} (hc : isIdentPart c = false) (hc' : c ≠ '(') : c ∉ f ++ ['('] := by
    intro hmem
    rcases List.mem_append.mp hmem with hmem | hmem
    · rw [hf.isIdentPart c hmem] at hc
      cases hc
    · exact hc' (List.mem_singleton.mp hmem)
  have hhead : (f ++ ['(']).head? ≠ some '>' := fun hhead =>
    hopen (by decide) (by decide) (List.mem_of_mem_head? hhead)
  rw [hsource, htarget, rephrase_append (by decide) (by decide), hargs _ _ _ hlead hclose,
    rephrase_append (arrowless_of_notMem (hopen (by decide) (by decide))) hhead]

/-- What is joined starts and ends as its parts do. -/
theorem join_edges {f : Char → Bool} {sep : Text} {ts : List Text} (hne : ts ≠ [])
    (hts : ∀ t ∈ ts, startsIn f t = true ∧ endsIn f t = true) :
    startsIn f (Text.join sep ts) = true ∧ endsIn f (Text.join sep ts) = true := by
  have hnil {t : Text} (ht : startsIn f t = true) : t ≠ [] := by
    rintro rfl
    cases ht
  induction ts with
  | nil => exact absurd rfl hne
  | cons t ts ih =>
    rw [List.forall_mem_cons] at hts
    cases ts with
    | nil => exact hts.1
    | cons s ts =>
      have hrest := ih (List.cons_ne_nil s ts) hts.2
      rw [Text.join_cons _ _ (List.cons_ne_nil s ts), startsIn_append_left _ (hnil hts.1.1),
        endsIn_append _ (by simp [hnil hrest.1]), endsIn_append _ (hnil hrest.1)]
      exact ⟨hts.1.1, hrest.2⟩

/-- Parameters can be read in front of an arrow if their names can. -/
structure Params.IsLegible (p : Params) : Prop where
  isName : ∀ x ∈ p.names, IsName x.text
  isBare : ∀ x, p = .bare x → startsIn isIdentStart x.text = true

theorem startsIn_isBlank (h : startsIn isIdentPart x = true) : startsIn isBlank x = false := by
  cases x with
  | nil => rfl
  | cons c x => exact isBlank_of_isIdentPart (c := c) h

theorem endsIn_isBlank (h : endsIn isIdentPart x = true) : endsIn isBlank x = false := by
  rcases List.eq_nil_or_concat' x with rfl | ⟨x, c, rfl⟩
  · rfl
  · rw [endsIn_append _ (List.cons_ne_nil c [])] at h ⊢
    exact isBlank_of_isIdentPart (c := c) h

/-- Listed names are trimmed and hold no parentheses. -/
theorem Params.IsLegible.listed {p : Params} (hp : p.IsLegible) :
    p.listed.trim = p.listed ∧ '(' ∉ p.listed ∧ ')' ∉ p.listed := by
  have hname : ∀ t ∈ p.names.map (·.text), IsName t := by
    intro t ht
    obtain ⟨x, hx, rfl⟩ := List.mem_map.mp ht
    exact hp.isName x hx
  refine ⟨?_, forall_join (P := fun t => '(' ∉ t ∧ ')' ∉ t) (by decide) ?_ fun t ht => ?_⟩
  · by_cases hnil : p.names.map (·.text) = []
    · rw [Params.listed, hnil]
      rfl
    · have hedges : ∀ t ∈ p.names.map (·.text),
          startsIn isIdentPart t = true ∧ endsIn isIdentPart t = true := by
        intro t ht
        have hn := hname t ht
        rw [endsIn_eq _ hn.ne_nil]
        exact ⟨startsIn_of_forall hn.ne_nil hn.isIdentPart,
          hn.isIdentPart _ (List.getLast_mem hn.ne_nil)⟩
      obtain ⟨hstart, hend⟩ := join_edges hnil hedges
      exact trim_eq_self (startsIn_isBlank hstart) (endsIn_isBlank hend)
  · intro s t hs ht
    simp [hs, ht]
  · have hn := hname t ht
    exact ⟨fun h => absurd (hn.isIdentPart _ h) (by decide),
      fun h => absurd (hn.isIdentPart _ h) (by decide)⟩

/-- The parameters in front of an arrow are read. -/
theorem arrowParams?_spelled {p : Params} (hp : p.IsLegible) (hu : Leads u) (w : Text) :
    arrowParams? (u ++ (p.spelled ++ (" => " ++ w))) (u.length + (p.spelled.length + 1)) =
      some (u.length, p.listed) := by
  cases p with
  | round xs =>
    obtain ⟨htrim, hflat⟩ := hp.listed
    have := arrowParams?_round hu hflat w
    rwa [htrim] at this
  | bare x =>
    have hx := hp.isName x (List.mem_singleton_self x)
    exact arrowParams?_bare hu (hp.isBare x rfl) hx.isIdentPart x.notAsync w

theorem functionText_listed {p : Params} {t : Text} (ht : Lacks "this" t) :
    functionText p.listed ("\x7b return " ++ t ++ "; \x7d") = asFunction p t := by
  have hdef : asFunction p t = "function (".toList ++ (p.listed ++
    (") \x7b return ".toList ++ (t ++ "; \x7d".toList))) := rfl
  rw [functionText_of_lacks ht, hdef]
  simp

/-- An arrow becomes a function if its body becomes an operand. -/
theorem Becomes.arrow {p : Params} {s t : Text} (hp : p.IsLegible) (h : Becomes s t)
    (ht : IsOperand t) (hlacks : Lacks "this" t) : Becomes (asArrow p s) (asFunction p t) := by
  obtain ⟨n, hn, hbody⟩ := h
  -- The body comes first: behind this arrow all arrows are gone, and only then is it the last one.
  refine ⟨n + 1, ?_, fun fuel u z hu hz => ?_⟩
  · simp only [asArrow, List.length_append]
    have : " => ".toList.length = 4 := rfl
    omega
  have hne : t ≠ [] := by
    rintro rfl
    cases ht.starts
  have hlead : Leads (u ++ (p.spelled ++ " => ")) := by
    have := (leads_append_singleton (c := '>') (by decide) (u ++ (p.spelled ++ " ="))).append_space
    simpa using this
  have hstart : startsIn (isBlank ||| (· == '\x7b')) (t ++ z) = false := by
    obtain ⟨c, t, rfl⟩ := List.exists_cons_of_ne_nil hne
    have hc : isIdentPart c = true := ht.starts
    refine Bool.or_eq_false_iff.mpr ⟨isBlank_of_isIdentPart hc, beq_eq_false_iff_ne.mpr ?_⟩
    rintro rfl
    exact absurd hc (by decide)
  have hend : Text.trimEnd ((t ++ z).take (expressionLength 0 (t ++ z))) = t := by
    rw [ht.passed.expressionLength_eq hz, List.take_left, trimEnd_eq_self ht.ends]
  have hsource : u ++ asArrow p s = u ++ (p.spelled ++ " => ") ++ s := by simp [asArrow]
  have hspace : u ++ (p.spelled ++ " => ".toList) = u ++ (p.spelled ++ " =>".toList) ++ [' '] := by simp
  have hfuel : fuel + (n + 1) = fuel + 1 + n := by omega
  rw [hsource, hfuel, hbody _ _ _ hlead hz, hspace, rephrase_append (by decide) (by decide),
    List.singleton_append, rephrase_arrow _ (arrowParams?_spelled hp hu _) hstart hend hne, functionText_listed hlacks,
    List.drop_left]

/-- An expression can be read if its names consist of word characters and dollar signs, and bare
parameters start in an ASCII letter, an underscore or a dollar sign. -/
structure Expr.IsLegible (e : Expr) : Prop where
  names : ∀ x ∈ e.names, ∀ c ∈ x.text, isIdentPart c = true
  bareParams : ∀ x ∈ e.bareParams, startsIn isIdentStart x.text = true

theorem Identifier.isName {x : Identifier} (h : ∀ c ∈ x.text, isIdentPart c = true) :
    IsName x.text := by
  refine ⟨?_, h⟩
  intro hnil
  have := x.starts
  rw [hnil] at this
  cases this

theorem Expr.IsLegible.call {f : Identifier} {args : List Expr} (h : (Expr.call f args).IsLegible) :
    IsName f.text ∧ ∀ e ∈ args, e.IsLegible := by
  obtain ⟨hnames, hbare⟩ := h
  rw [Expr.names, List.forall_mem_cons] at hnames
  refine ⟨Identifier.isName hnames.1, fun e he => ⟨fun x hx => ?_, fun x hx => ?_⟩⟩
  · exact hnames.2 x (Expr.mem_namesIn.mpr ⟨e, he, hx⟩)
  · exact hbare x (Expr.mem_bareParamsIn.mpr ⟨e, he, hx⟩)

theorem Expr.IsLegible.arrow {p : Params} {body : Expr} (h : (Expr.arrow p body).IsLegible) :
    p.IsLegible ∧ body.IsLegible := by
  obtain ⟨hnames, hbare⟩ := h
  rw [Expr.names, List.forall_mem_append] at hnames
  cases p with
  | round xs =>
    refine ⟨⟨fun x hx => Identifier.isName (hnames.1 x hx), ?_⟩, hnames.2, hbare⟩
    intro x hx
    cases hx
  | bare y =>
    rw [Expr.bareParams, List.forall_mem_cons] at hbare
    refine ⟨⟨fun x hx => Identifier.isName (hnames.1 x hx), ?_⟩, hnames.2, hbare.2⟩
    intro x hx
    cases hx
    exact hbare.1

theorem Expr.IsLegible.isName {e : Expr} (h : e.IsLegible) : ∀ x ∈ e.names, IsName x.text :=
  fun x hx => Identifier.isName (h.names x hx)

/-- The text of an expression becomes the text without arrows. -/
theorem Expr.becomes {e : Expr} (h : e.IsLegible) : Becomes (e.text asArrow) (e.text asFunction) := by
  induction e with
  | name x =>
    have hx := h.isName x (List.mem_singleton_self x)
    have hfree {c : Char} (hc : isIdentPart c = false) : c ∉ x.text := by
      intro hmem
      rw [hx.isIdentPart c hmem] at hc
      cases hc
    exact Becomes.refl (arrowless_of_notMem (hfree (by decide))) fun hhead =>
      hfree (by decide) (List.mem_of_mem_head? hhead)
  | call f args ih =>
    obtain ⟨hf, hargs⟩ := h.call
    refine Becomes.call hf (Becomes.join ?_)
    rw [Expr.texts_eq_map, Expr.texts_eq_map, List.forall₂_map_left_iff, List.forall₂_map_right_iff,
      List.forall₂_same]
    exact fun e he => ih e he (hargs e he)
  | arrow p body ih =>
    obtain ⟨hp, hbody⟩ := h.arrow
    refine Becomes.arrow hp (ih hbody) (body.isOperand hbody.isName) ?_
    have hj := joins_lacks isName_this
    have hfunction : Lacks "this" "function" :=
      lacks_name (isName_of_all (by decide) (by decide)) (by decide)
    have hreturn : Lacks "this" "return" :=
      lacks_name (isName_of_all (by decide) (by decide)) (by decide)
    exact hj.text (hj.keeps_asFunction hfunction hreturn) body fun x hx =>
      lacks_name (hbody.isName x hx) x.notThis

theorem infix_join {sep s : Text} {ts : List Text} (hs : s ∈ ts) : s <:+: Text.join sep ts := by
  induction ts with
  | nil => cases hs
  | cons t ts ih =>
    by_cases hts : ts = []
    · subst hts
      rw [List.mem_singleton.mp hs]
      exact List.infix_rfl
    · rw [Text.join_cons _ _ hts]
      rcases List.mem_cons.mp hs with rfl | hs
      · exact (List.prefix_append _ _).isInfix
      · exact (ih hs).trans ⟨t ++ sep, [], by simp⟩

/-- Every name of an expression is a part of its text. -/
theorem Expr.text_infix (e : Expr) : ∀ x ∈ e.names, x.text <:+: e.text asArrow := by
  induction e with
  | name x =>
    intro y hy
    rw [List.mem_singleton.mp hy]
    exact List.infix_rfl
  | call f args ih =>
    refine List.forall_mem_cons.mpr ⟨(List.prefix_append _ _).isInfix, fun x hx => ?_⟩
    obtain ⟨e, he, hx⟩ := Expr.mem_namesIn.mp hx
    have harg : e.text asArrow <:+: Text.join ", " (Expr.texts asArrow args) := by
      rw [Expr.texts_eq_map]
      exact infix_join (List.mem_map_of_mem he)
    have hin : Text.join ", " (Expr.texts asArrow args) <:+: (Expr.call f args).text asArrow :=
      ⟨f.text ++ ['('], [')'], by simp [Expr.text]⟩
    exact (ih e he x hx).trans (harg.trans hin)
  | arrow p body ih =>
    refine List.forall_mem_append.mpr ⟨fun x hx => ?_, fun x hx => ?_⟩
    · have hspelled : x.text <:+: p.spelled := by
        cases p with
        | round xs =>
          have hin : (Params.round xs).listed <:+: (Params.round xs).spelled := ⟨['('], [')'], rfl⟩
          exact (infix_join (List.mem_map_of_mem hx)).trans hin
        | bare y =>
          rw [List.mem_singleton.mp hx]
          exact List.infix_rfl
      exact hspelled.trans (List.prefix_append _ _).isInfix
    · have hin : body.text asArrow <:+: asArrow p (body.text asArrow) :=
        ⟨p.spelled ++ " => ", [], by simp [asArrow]⟩
      exact (ih x hx).trans hin

/-- **Nested arrow functions become functions.** -/
theorem arrows_text {e : Expr} (h : e.IsLegible) (hu : Unmarked (e.text asArrow)) :
    arrows (e.text asArrow) = .ok (e.text asFunction) := by
  have hbare : Optimize.IsBare (e.text asArrow) := by
    have hj := joins_isBare
    refine hj.text hj.keeps_asArrow e fun x hx c hc hmem => ?_
    have : ∀ a ∈ ['\x22', '\x27', '\x60', '/'], isIdentPart a = false := by decide
    have hpart := this c hmem
    rw [h.names x hx c hc] at hpart
    cases hpart
  have hout : Unmarked (e.text asFunction) := by
    have hj := joins_unmarked
    exact hj.text (hj.keeps_asFunction (by decide) (by decide)) e fun x hx =>
      hu.of_infix (Expr.text_infix e x hx)
  obtain ⟨n, hn, hrun⟩ := Expr.becomes h
  have hall : arrowsBefore ((e.text asArrow).length + 1) (e.text asArrow).length (e.text asArrow) =
      e.text asFunction := by
    obtain ⟨k, hk⟩ : ∃ k, (e.text asArrow).length + 1 = k + n :=
      ⟨(e.text asArrow).length + 1 - n, by omega⟩
    have := hrun k [] [] (Or.inl rfl) (fun c hc => by cases hc)
    rw [List.nil_append, List.append_nil, rephrase_free (u := []) (by decide), rephrase,
      List.append_nil, List.nil_append] at this
    rw [hk, this]
  rw [arrows, hbare.mask_eq]
  simp only [hall]
  exact Masked.restoreText_of_unmarked _ hout

/-- A name of one letter. -/
def letter (c : Char) (h : startsIdentifier c = true ∧ continuesIdentifier c = true) : Identifier :=
  ⟨[c], h.1, by simpa using h.2, by simp, by simp⟩

/-- A call with two functions, `f(x => y => g(x, y), (a, b) => a)`. -/
def callWithFunctions : Expr :=
  .call (letter 'f' (by decide))
    [.arrow (.bare (letter 'x' (by decide))) (.arrow (.bare (letter 'y' (by decide)))
      (.call (letter 'g' (by decide))
        [.name (letter 'x' (by decide)), .name (letter 'y' (by decide))])),
    .arrow (.round [letter 'a' (by decide), letter 'b' (by decide)])
      (.name (letter 'a' (by decide)))]

theorem arrows_text_callWithFunctions :
    arrows "f(x => y => g(x, y), (a, b) => a)" = .ok ("f(function (x) \x7b return function (y) " ++
      "\x7b return g(x, y); \x7d; \x7d, function (a, b) \x7b return a; \x7d)") := by
  have harrows := arrows_text (e := callWithFunctions) ⟨by decide, by decide⟩ (by decide +kernel)
  have harrow : callWithFunctions.text asArrow = "f(x => y => g(x, y), (a, b) => a)".toList := by
    decide +kernel
  have hfunction : callWithFunctions.text asFunction =
      ("f(function (x) \x7b return function (y) " ++
      "\x7b return g(x, y); \x7d; \x7d, function (a, b) \x7b return a; \x7d)" : Text) := by
    refine Eq.trans ?_ (Text.toList_append_toList_eq rfl rfl).symm
    decide +kernel
  rw [harrow, hfunction] at harrows
  exact harrows

/-- The function `__JSLIT_0__ => x`, whose parameter reads as a mark. -/
def markedFunction : Expr :=
  .arrow (.bare ⟨"__JSLIT_0__", by decide, by decide, by decide, by decide⟩)
    (.name (letter 'x' (by decide)))

/-- A name that reads as a mark is taken for one. -/
theorem arrows_text_markedFunction :
    markedFunction.IsLegible ∧ (arrows (markedFunction.text asArrow)).toOption = none :=
  ⟨⟨by decide, by decide⟩, by decide +kernel⟩

end HostScript.Downlevel
