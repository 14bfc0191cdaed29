import HostScript.Body.Swift
import HostScript.Body.Swift.Closure
import HostScript.Proofs.Outcome
import HostScript.Proofs.Pattern.Found
import HostScript.Proofs.Pattern.Longer
import HostScript.Proofs.Script.Divided

/-!
# Closures with literals

Closures are rephrased in the whole text, inside literals, too. Where no literal holds an opening
brace or a call behind a dot, every closure stands in code with the literals of its statements and
its arguments, and these stay, some of them written twice. What may be dropped is what stands before
the statements and the arguments beside a closure that sorts or selects.
-/

namespace HostScript.Body

open Script Pattern

variable {t u x y w line : Text} {scope : Scope} {kind : Text → Prop} {ls : List Text}

theorem mem_of_mem_words {part : Text} (h : part ∈ Text.words t) : ∀ c ∈ part, c ∈ t := by
  have hgo (t : Text) : ∀ part ∈ Text.words.go t, ∀ c ∈ part, c ∈ t := by
    induction t with
    | nil => simp [Text.words.go]
    | cons a t ih =>
      rw [Text.words.go]
      split
      · exact List.forall_mem_cons.mpr ⟨List.forall_mem_nil _,
          fun part hpart c hc => List.mem_cons_of_mem _ (ih part hpart c hc)⟩
      · split
        · simp
        · rename_i part parts hparts
          rw [hparts, List.forall_mem_cons] at ih
          exact List.forall_mem_cons.mpr ⟨List.forall_mem_cons.mpr ⟨List.mem_cons_self ..,
            fun c hc => List.mem_cons_of_mem _ (ih.1 c hc)⟩,
            fun part hpart c hc => List.mem_cons_of_mem _ (ih.2 part hpart c hc)⟩
  exact hgo t part (List.mem_of_mem_filter h)

theorem mem_of_mem_gaps {pos : Nat} {ms : List Match} {part : Text} (h : part ∈ gaps t pos ms) :
    ∀ c ∈ part, c ∈ t := by
  induction ms generalizing pos with
  | nil =>
    obtain rfl := List.mem_singleton.mp h
    exact fun c hc => List.mem_of_mem_drop hc
  | cons m ms ih =>
    rcases List.mem_cons.mp h with rfl | h
    · exact fun c hc => List.mem_of_mem_take (List.mem_of_mem_drop hc)
    · exact ih h

/-- A parameter list without types is made of what it was made of. -/
theorem mem_of_mem_stripTypes {params names : Text} (h : stripTypes params = .ok names) {c : Char}
    (hc : c ∈ names) : c ∈ ", ".toList ∨ c ∈ params := by
  obtain ⟨found, hfound, hnames⟩ := Outcome.bind_eq_ok_iff.mp h
  obtain rfl := Except.ok.inj hnames
  rcases Text.mem_of_mem_join hc with hc | ⟨name, hname, hc⟩
  · exact .inl hc
  · right
    obtain ⟨part, hpart, hread⟩ := Outcome.exists_of_mem_mapM hfound (List.mem_of_mem_filter hname)
    have hin : c ∈ part := by
      cases hparameter : parameterName? part with
      | none => rw [hparameter] at hread; cases hread
      | some n =>
        rw [hparameter] at hread
        obtain rfl := Except.ok.inj hread
        rw [parameterName?] at hparameter
        split at hparameter
        · have hcut := mem_of_mem_words (List.mem_of_getLast? hparameter) c hc
          rw [Text.fst_cutAt] at hcut
          exact (List.takeWhile_sublist _).subset hcut
        · exact mem_of_mem_gaps (List.mem_of_getLast? hparameter) c hc
    obtain ⟨raw, hraw, rfl⟩ := List.mem_map.mp (List.mem_of_mem_filter hpart)
    have hlist := (Text.mem_of_mem_splitOn hraw c (Text.mem_of_mem_trim c hin)).1
    obtain ⟨x, y, hsplit, -, -⟩ := Text.exists_trimOf (among "()") params.trim
    refine Text.mem_of_mem_trim c ?_
    rw [hsplit]
    simp [hlist]

namespace Swift

/-- Whether a name behind a dot stands before a bracket somewhere in a text. -/
def startsCall : Text → Bool
  | [] => false
  | c :: t =>
    c == '.' && !(t.takeWhile isWord).isEmpty
        && ((t.dropWhile isWord).dropWhile isBlank).head? == some '('
      || startsCall t

/-- A literal in which no closure and no call starts. -/
def LacksClosure (l : Text) : Prop := '\x7b' ∉ l ∧ startsCall l = false

instance (l : Text) : Decidable (LacksClosure l) := inferInstanceAs (Decidable (_ ∧ _))

theorem LacksClosure.not_infix_call {l name b : Text} (hl : LacksClosure l) (hne : name ≠ [])
    (hname : ∀ c ∈ name, isWord c = true) (hb : ∀ c ∈ b, isBlank c = true) :
    ¬ '.' :: (name ++ b ++ ['(']) <:+: l := by
  rintro ⟨u, v, rfl⟩
  have hstarts : startsCall ('.' :: (name ++ b ++ ['(']) ++ v) = true := by
    have hstop : (b ++ '(' :: v).head?.any isWord = false := by
      cases b with
      | nil => rfl
      | cons c b => exact isWord_of_isBlank (hb c (List.mem_cons_self ..))
    have hrest : name ++ b ++ ['('] ++ v = name ++ (b ++ '(' :: v) := by simp
    rw [List.cons_append, hrest, startsCall, List.takeWhile_append_of_pos hname,
      List.dropWhile_append_of_pos hname]
    have htake : (b ++ '(' :: v).takeWhile isWord = [] := by
      cases b with
      | nil => rfl
      | cons c b => exact List.takeWhile_cons_of_neg (by simpa using hstop)
    have hdrop : (b ++ '(' :: v).dropWhile isWord = b ++ '(' :: v := by
      cases b with
      | nil => rfl
      | cons c b => exact List.dropWhile_cons_of_neg (by simpa using hstop)
    have hblanks : (b ++ '(' :: v).dropWhile isBlank = '(' :: v := by
      rw [List.dropWhile_append_of_pos hb]
      exact List.dropWhile_cons_of_neg (by decide)
    rw [htake, hdrop, hblanks, List.append_nil]
    simp [hne]
  have happend (u : Text) {t : Text} (ht : startsCall t = true) : startsCall (u ++ t) = true := by
    induction u with
    | nil => exact ht
    | cons c u ih => rw [List.cons_append, startsCall, ih, Bool.or_true]
  have := hl.2
  rw [List.append_assoc, happend u hstarts] at this
  cases this

/-- Whether the arguments of a method are dropped beside its closure. -/
def dropsArguments (method : Text) : Bool :=
  ["sorted", "sort", "compactMap"].any fun m => m.toList == method

/-- Whether a closure can be read, no quote stands before its statements, and those have a
property. -/
def sparesClosure (spares : Text → Bool) (body : Text) : Bool :=
  ((closureParts.match? body).all fun m => !namesParameters (m.group 1)
      || decide (Quoteless (body.take (body.length - (m.group 2).length))))
    && match closureSignature body with
      | .ok (_, statements) => spares statements
      | .error _ => false

/-- Whether that holds of the trailing closures that are rephrased from an offset on, and whether
none drops an argument with a literal. -/
def sparesTrailing (convert : Text → Outcome Text) (spares : Text → Bool) :
    (fuel pos : Nat) → Text → Bool
  | 0, _, _ => true
  | fuel + 1, pos, t =>
    match trailingClosure.searchAt? t pos with
    | none => true
    | some m =>
      let open_ := m.stop - 1
      match callbackMethod? (m.group 1), Source.closing? t open_ with
      | some js, some close =>
        let inside := t.slice (open_ + 1) close
        let isBlock := (m.group? 2).isSome && m.group 1 != "reduce".toList
          && !looksLikeClosure inside
        if isBlock then sparesTrailing convert spares fuel m.stop t
        else
          sparesClosure spares inside.trim
            && (!dropsArguments (m.group 1) || decide (Quoteless (m.group 3)))
            && match closureToArrow convert inside with
              | .ok arrow =>
                let call := closureCall (m.group 1) (Text.trim (m.group 3)) arrow js
                sparesTrailing convert spares fuel (m.start + 1)
                  (m.before ++ call ++ t.drop (close + 1))
              | .error _ => false
      | _, _ => sparesTrailing convert spares fuel m.stop t

/-- Whether that holds of the closure literals that are rephrased from an offset on. -/
def sparesLiterals (convert : Text → Outcome Text) (spares : Text → Bool) :
    (fuel pos : Nat) → Text → Bool
  | 0, _, _ => true
  | fuel + 1, pos, t =>
    match closureLiteral.searchAt? t pos with
    | none => true
    | some m =>
      let open_ := m.stop - 1
      match Source.closing? t open_ with
      | some close =>
        let inside := t.slice (open_ + 1) close
        if looksLikeClosure inside then
          sparesClosure spares inside.trim && match closureToArrow convert inside with
            | .ok arrow =>
              sparesLiterals convert spares fuel (open_ + 1)
                (t.take open_ ++ arrow ++ t.drop (close + 1))
            | .error _ => false
        else sparesLiterals convert spares fuel m.stop t
      | none => sparesLiterals convert spares fuel m.stop t

/-- Whether that holds of all closures that nest at most `depth` deep. -/
def sparesWithin : (depth : Nat) → Text → Bool
  | 0, _ => true
  | depth + 1, t =>
    sparesTrailing (convertWithin depth) (sparesWithin depth) (Nat.pow 2 t.length) 0 t
      && match convertTrailing (convertWithin depth) (Nat.pow 2 t.length) 0 t with
        | .ok t =>
          sparesLiterals (convertWithin depth) (sparesWithin depth) (Nat.pow 2 t.length) 0 t
        | .error _ => false

variable {convert : Text → Outcome Text} {spares : Text → Bool} {body params statements : Text}
  {ms : List Text} {m : Match}

/-- What stands before the statements of a closure. -/
theorem parts_of_closureParts (h : closureParts.match? body = some m) : ∃ head tail : Text,
    body = head ++ (m.group 2 ++ tail) ∧ (tail = [] ∨ tail = ['\n']) ∧ ∀ c ∈ m.group 1, c ∈ head := by
  obtain ⟨x, last, gs, hbody, hlast, hx, hgroups⟩ := spells_of_match?_textEnd h
  obtain ⟨_, tail, _, _, rfl, rfl, htail, h₁⟩ := hx.of_append_cap
  obtain ⟨-, -, rfl⟩ := htail.of_rounds_one
  obtain ⟨_, b₂, rfl, -, h₂⟩ := h₁.of_append_blanks
  obtain ⟨_, _, _, _, rfl, rfl, h₃, hedge⟩ := spells_append_iff.mp h₂
  obtain ⟨rfl, rfl⟩ := spells_edge_iff.mp hedge
  obtain ⟨_, rfl, h₄⟩ := h₃.of_append_lit
  obtain ⟨_, g, rfl, -, -, h₅⟩ := h₄.of_append_gap
  obtain ⟨_, arrow, _, gs₁, rfl, rfl, h₆, harrow⟩ := spells_append_iff.mp h₅
  obtain ⟨params, b₁, rfl, -, h₇⟩ := h₆.of_append_blanks
  obtain ⟨gs₂, rfl, -⟩ := spells_cap_iff.mp h₇
  have hnone := harrow.lookup_eq_none (i := 1) (by decide)
  obtain ⟨hfirst, hsecond⟩ : m.group 1 = params ∧ m.group 2 = tail := by
    simp [Match.group, hgroups, List.lookup_cons, List.lookup_append, hnone]
  refine ⟨params ++ b₁ ++ arrow ++ g ++ "in".toList ++ b₂, last, ?_, hlast, ?_⟩
  · rw [hbody, hsecond]
    simp
  · rw [hfirst]
    exact fun c hc => by simp [hc]

/-- Numbered parameters are code, and the statements are the whole body. -/
theorem of_numberedSignature (h : numberedSignature body = .ok (params, statements)) :
    (∀ c ∈ params, isTameCode c = true) ∧ statements = body := by
  obtain ⟨numbers, -, hpair⟩ := Outcome.bind_eq_ok_iff.mp h
  obtain ⟨hparams, rfl⟩ := Prod.mk.inj (Except.ok.inj hpair)
  refine ⟨?_, rfl⟩
  subst hparams
  split
  · intro c hc
    rcases Text.mem_of_mem_join hc with hc | ⟨name, hname, hc⟩
    · have hsep : ∀ c ∈ ", ".toList, isTameCode c = true := by decide
      exact hsep c hc
    · obtain ⟨i, -, rfl⟩ := List.mem_map.mp hname
      rcases List.mem_cons.mp hc with rfl | hc
      · decide
      · exact isTameCode_of_mem (s := Char.isDigit) (by decide) (isDigit_of_mem_ofNat hc)
  · exact List.forall_mem_nil _

/-- A closure without a literal before its statements keeps those of its statements. -/
theorem scripted_signature (h : Scripted kind ls body)
    (hspares : sparesClosure spares body = true) :
    ∃ params statements, closureSignature body = .ok (params, statements) ∧
      (∀ c ∈ params, isTameCode c = true) ∧ Scripted kind ls statements ∧
      spares statements = true := by
  rw [sparesClosure, Bool.and_eq_true] at hspares
  obtain ⟨hhead, hread⟩ := hspares
  cases hsignature : closureSignature body with
  | error e => rw [hsignature] at hread; cases hread
  | ok signature =>
    obtain ⟨params, statements⟩ := signature
    rw [hsignature] at hread
    refine ⟨params, statements, rfl, ?_⟩
    suffices hkept : (∀ c ∈ params, isTameCode c = true) ∧ Scripted kind ls statements from
      ⟨hkept.1, hkept.2, hread⟩
    have hnumbered (h' : numberedSignature body = .ok (params, statements)) :
        (∀ c ∈ params, isTameCode c = true) ∧ Scripted kind ls statements := by
      obtain ⟨hparams, rfl⟩ := of_numberedSignature h'
      exact ⟨hparams, h⟩
    rw [closureSignature] at hsignature
    cases hmatch : closureParts.match? body with
    | none =>
      rw [hmatch] at hsignature
      exact hnumbered hsignature
    | some m =>
      rw [hmatch] at hsignature hhead
      dsimp only at hsignature
      split at hsignature
      · rename_i hnames
        obtain ⟨names, hstrip, hpair⟩ := Outcome.bind_eq_ok_iff.mp hsignature
        obtain ⟨rfl, rfl⟩ := Prod.mk.inj (Except.ok.inj hpair)
        obtain ⟨head, tail, hbody, htail, hparams⟩ := parts_of_closureParts hmatch
        have hcode : Quoteless head := by
          have hfree : Quoteless (body.take (body.length - (m.group 2).length)) := by
            simpa [hnames] using hhead
          have hlength : body.length - (m.group 2).length = head.length + tail.length := by
            rw [hbody]
            simp only [List.length_append]
            omega
          have htake : body.take (head.length + tail.length) =
              head ++ (m.group 2 ++ tail).take tail.length := by
            rw [hbody, List.take_length_add_append]
          rw [hlength, htake] at hfree
          exact (quoteless_append.mp hfree).1
        rw [hbody] at h
        have hstatements := Scripted.cut_end (Scripted.cut_start h hcode)
          (by rcases htail with rfl | rfl <;> decide)
        refine ⟨fun c hc => ?_, Scripted.trim hstatements⟩
        have hsep : ∀ c ∈ ", ".toList, isTameCode c = true := by decide
        rcases mem_of_mem_stripTypes hstrip hc with hc | hc
        · exact hsep c hc
        · exact hcode c (hparams c hc)
      · exact hnumbered hsignature

/-- An arrow function keeps the literals of its statements. -/
theorem scripted_arrowText (hparams : ∀ c ∈ params, isTameCode c = true)
    (h : Scripted kind ls statements) : Scripted kind ls (arrowText params statements) := by
  rw [arrowText]
  split
  · dsimp only
    refine Made.code_append ?_ (List.forall_mem_append.mpr ⟨List.forall_mem_append.mpr
      ⟨by decide, hparams⟩, by decide⟩)
    split
    · rename_i hreturn
      obtain ⟨rest, rfl⟩ := List.isPrefixOf_iff_prefix.mp hreturn
      exact Scripted.cut_start h (by decide)
    · exact h
  · refine (h.code_append (List.forall_mem_append.mpr ⟨List.forall_mem_append.mpr
      ⟨by decide, hparams⟩, by decide⟩)).append_code (by decide)

/-- A call with its callback keeps the literals of the callback, and of the arguments it keeps. -/
theorem scripted_closureCall (method : Text) {args arrow js : Text}
    (harrow : Scripted kind ls arrow)
    (hargs : Scripted kind ms args) (hjs : ∀ c ∈ js, isTameCode c = true)
    (hdrops : dropsArguments method = true → ms = []) :
    Scripted kind (ms ++ ls) (closureCall method args arrow js) := by
  have hempty (h : args.isEmpty = true) : ms = [] := by
    rw [List.isEmpty_iff.mp h] at hargs
    exact Scripted.eq_nil hargs quoteless_nil
  have hdropped (h : "sorted".toList = method ∨ "sort".toList = method ∨ "compactMap".toList = method) :
      ms = [] := hdrops (by simpa [dropsArguments] using h)
  have hname : ∀ c ∈ "." ++ js ++ "(", isTameCode c = true := List.forall_mem_append.mpr
    ⟨List.forall_mem_append.mpr ⟨by decide, hjs⟩, by decide⟩
  rw [closureCall]
  by_cases hreduce : (method == "reduce".toList) = true
  · rw [if_pos hreduce]
    split
    · rename_i hnone
      rw [hempty hnone]
      exact (harrow.code_append (by decide)).append_code (by decide)
    · refine Made.mono ((((harrow.code_append (by decide)).append_code (by decide)).append
        hargs).append_code (by decide)) ?_
      exact List.append_subset.mpr ⟨List.subset_append_right _ _, List.subset_append_left _ _⟩
  rw [if_neg hreduce]
  by_cases hsort : (method == "sorted".toList || method == "sort".toList) = true
  · rw [if_pos hsort]
    rw [Bool.or_eq_true, beq_iff_eq, beq_iff_eq] at hsort
    rw [hdropped (hsort.elim (fun h => .inl h.symm) fun h => .inr (.inl h.symm)), List.nil_append]
    have hcomparator := ((((harrow.code_append (t := "(__a, __b) => ((".toList) (by decide)).append_code
      (u := ")(__a, __b) ? -1 : ((".toList) (by decide)).append harrow).append_code
        (u := ")(__b, __a) ? 1 : 0))".toList) (by decide)).mono (List.subset_append_left _ _)
    refine (hcomparator.code_append (List.forall_mem_append.mpr ⟨?_, by decide⟩)).append_code
      (by decide)
    split <;> decide
  rw [if_neg hsort]
  by_cases hcompact : (method == "compactMap".toList) = true
  · rw [if_pos hcompact, hdropped (.inr (.inr (beq_iff_eq.mp hcompact).symm))]
    exact (harrow.code_append (by decide)).append_code (by decide)
  rw [if_neg hcompact]
  split
  · rename_i hnone
    rw [hempty hnone]
    exact (harrow.code_append hname).append_code (by decide)
  · exact (((hargs.code_append hname).append_code (by decide)).append harrow).append_code (by decide)

/-- A closure becomes an arrow function with its literals. -/
theorem scripted_closureToArrow (hconvert : ∀ ls t, Scripted kind ls t → spares t = true →
      ∃ u, convert t = .ok u ∧ Scripted kind ls u)
    (h : Scripted kind ls body) (hspares : sparesClosure spares body.trim = true) :
    ∃ arrow, closureToArrow convert body = .ok arrow ∧ Scripted kind ls arrow := by
  obtain ⟨params, statements, hsignature, hparams, hstatements, hmeets⟩ :=
    scripted_signature (Scripted.trim h) hspares
  obtain ⟨u, hu, hscripted⟩ := hconvert ls statements hstatements hmeets
  refine ⟨arrowText params u, ?_, scripted_arrowText hparams hscripted⟩
  rw [closureToArrow, hsignature]
  change (convert statements >>= fun statements => pure (arrowText params statements)) = _
  rw [hu]
  rfl

/-- A callback method is code. -/
theorem isTameCode_callbackMethod {method js : Text} (h : callbackMethod? method = some js) :
    ∀ c ∈ js, isTameCode c = true := by
  obtain ⟨p, hp, rfl⟩ := Option.map_eq_some_iff.mp h
  have hall : ∀ p ∈ closureMethods, ∀ c ∈ p.2.toList, isTameCode c = true := by decide
  exact hall p (List.mem_of_find?_eq_some hp)

/-- The call before a trailing closure, around its arguments. -/
theorem scripted_trailingClosure {pos : Nat} (h : Scripted LacksClosure ls t)
    (hm : trailingClosure.searchAt? t pos = some m) :
    ∃ (as bs cs : List Text) (u : Text), t = u ++ '\x7b' :: m.after ∧ m.stop - 1 = u.length ∧
      ls ⊆ as ++ (bs ++ cs) ∧ Scripted LacksClosure as m.before ∧
      Scripted LacksClosure bs (m.group 3) ∧ Scripted LacksClosure cs m.after := by
  obtain ⟨ht, hstart, hstop, gs, hx, hgroups, -⟩ := split_of_searchAt? hm
  obtain ⟨_, htext, h₁⟩ := hx.of_append_lit
  obtain ⟨_, b₂, rfl, hb₂, h₂⟩ := h₁.of_append_blanks
  obtain ⟨_, args, gs₁, gs₂, rfl, rfl, h₃, hargs⟩ := spells_append_iff.mp h₂
  obtain ⟨_, b₁, rfl, hb₁, h₄⟩ := h₃.of_append_blanks
  obtain ⟨_, name, gs₃, gs₄, rfl, rfl, hname, h₅⟩ := h₄.of_append_cap
  obtain ⟨hne, hword, rfl⟩ := hname.of_rounds_one
  obtain ⟨rfl, rfl⟩ := spells_lit_iff.mp h₅
  generalize m.before = before, m.after = after at *
  have hopen : m.stop - 1 = (before ++ (".".toList ++ name ++ b₁ ++ args ++ b₂)).length := by
    rw [hstop, htext]
    simp
    omega
  have hshape : t = (before ++ (".".toList ++ name ++ b₁ ++ args ++ b₂)) ++ '\x7b' :: after := by
    rw [ht, htext]
    simp
  rcases hargs.of_opt with ⟨rfl, rfl⟩ | hargs
  · have hgroup : m.group 3 = [] := by simp [Match.group, hgroups, List.lookup_cons]
    have hcut : t = before ++ ((".".toList ++ name ++ b₁ ++ b₂ ++ "\x7b".toList) ++ after) := by
      rw [hshape]
      simp
    rw [hcut] at h
    obtain ⟨as, cs, hsub, ha, hc⟩ := Scripted.cut h (by
      simp +decide [quoteless_word hword, quoteless_blank hb₁, quoteless_blank hb₂])
      fun l hl => not_infix_of_brace hl.1
    rw [hgroup]
    exact ⟨as, [], cs, _, hshape, hopen, hsub, ha, made_code (List.forall_mem_nil _), hc⟩
  · obtain ⟨_, rfl, h₆⟩ := spells_cap_iff.mp hargs
    obtain ⟨_, rfl, h₇⟩ := h₆.of_append_lit
    obtain ⟨_, inner, _, _, rfl, rfl, hinner, h₈⟩ := h₇.of_append_cap
    obtain ⟨-, -, rfl⟩ := hinner.of_rounds_one
    obtain ⟨rfl, rfl⟩ := spells_lit_iff.mp h₈
    have hgroup : m.group 3 = inner := by simp [Match.group, hgroups, List.lookup_cons]
    have hcut : t = before ++ (('.' :: (name ++ b₁ ++ ['('])) ++
        (inner ++ ((")".toList ++ b₂ ++ "\x7b".toList) ++ after))) := by
      rw [hshape]
      simp
    rw [hcut] at h
    obtain ⟨as, ks, hsub, ha, h⟩ := Scripted.cut h (by
      simp +decide [quoteless_word hword, quoteless_blank hb₁])
      fun l hl => hl.not_infix_call (List.length_pos_iff.mp hne) hword hb₁
    obtain ⟨bs, cs, hsub', hb, hc⟩ := Scripted.cut h (by simp +decide [quoteless_blank hb₂])
      fun l hl => not_infix_of_brace hl.1
    rw [hgroup]
    exact ⟨as, bs, cs, _, hshape, hopen, List.Subset.trans hsub (List.append_subset.mpr
      ⟨List.subset_append_left _ _, List.subset_append_of_subset_right _ hsub'⟩), ha, hb, hc⟩

/-- Trailing closures become callbacks with their literals. -/
theorem scripted_convertTrailing (hconvert : ∀ ls t, Scripted LacksClosure ls t → spares t = true →
      ∃ u, convert t = .ok u ∧ Scripted LacksClosure ls u) (fuel pos : Nat)
    (h : Scripted LacksClosure ls t) (hspares : sparesTrailing convert spares fuel pos t = true) :
    ∃ u, convertTrailing convert fuel pos t = .ok u ∧ Scripted LacksClosure ls u := by
  induction fuel generalizing ls pos t with
  | zero => exact ⟨t, rfl, h⟩
  | succ fuel ih =>
    rw [sparesTrailing] at hspares
    rw [convertTrailing]
    cases hm : trailingClosure.searchAt? t pos with
    | none => exact ⟨t, rfl, h⟩
    | some m =>
      rw [hm] at hspares
      dsimp only at hspares ⊢
      split
      case h_2 hnone =>
        split at hspares
        case h_1 js close hjs hclose => exact absurd hclose (hnone js close hjs)
        exact ih _ h hspares
      rename_i js close hjs hclose
      rw [hjs, hclose] at hspares
      dsimp only at hspares
      split
      case isTrue hblock =>
        rw [if_pos hblock] at hspares
        exact ih _ h hspares
      rename_i hclosure
      rw [if_neg hclosure, Bool.and_eq_true, Bool.and_eq_true] at hspares
      obtain ⟨⟨hinside, hdrops⟩, hgoes⟩ := hspares
      obtain ⟨as, bs, cs, u, ht, hopen, hsub, ha, hb, hc⟩ := scripted_trailingClosure h hm
      rw [hopen] at hclose hinside hgoes ⊢
      obtain ⟨inner, more, ms, ks, hslice, hdrop, hsub', hinner, hmore⟩ :=
        Scripted.of_closing? hc (by decide) ht rfl hclose
      rw [hslice] at hinside hgoes ⊢
      rw [hdrop] at hgoes ⊢
      obtain ⟨arrow, harrow, hscripted⟩ := scripted_closureToArrow hconvert hinner hinside
      rw [harrow] at hgoes ⊢
      have hcall := scripted_closureCall (m.group 1) hscripted (Scripted.trim hb)
        (isTameCode_callbackMethod hjs) fun hdropping => by
          rw [hdropping] at hdrops
          exact Scripted.eq_nil hb (by simpa using hdrops)
      have hnew : Scripted LacksClosure ls (m.before ++
          closureCall (m.group 1) (Text.trim (m.group 3)) arrow js ++ more) := by
        refine ((ha.append hcall).append hmore).mono fun l hl => ?_
        rcases List.mem_append.mp (hsub hl) with hl | hl
        · simp [hl]
        · rcases List.mem_append.mp hl with hl | hl
          · simp [hl]
          · have := hsub' hl
            simp only [List.mem_append] at this ⊢
            tauto
      exact ih _ hnew hgoes

/-- Closure literals become arrow functions with their literals. -/
theorem scripted_convertLiterals (hconvert : ∀ ls t, Scripted LacksClosure ls t → spares t = true →
      ∃ u, convert t = .ok u ∧ Scripted LacksClosure ls u) (fuel pos : Nat)
    (h : Scripted LacksClosure ls t) (hspares : sparesLiterals convert spares fuel pos t = true) :
    ∃ u, convertLiterals convert fuel pos t = .ok u ∧ Scripted LacksClosure ls u := by
  induction fuel generalizing ls pos t with
  | zero => exact ⟨t, rfl, h⟩
  | succ fuel ih =>
    rw [sparesLiterals] at hspares
    rw [convertLiterals]
    cases hm : closureLiteral.searchAt? t pos with
    | none => exact ⟨t, rfl, h⟩
    | some m =>
      rw [hm] at hspares
      dsimp only at hspares ⊢
      cases hclose : Source.closing? t (m.stop - 1) with
      | none =>
        rw [hclose] at hspares
        exact ih _ h hspares
      | some close =>
        rw [hclose] at hspares
        dsimp only at hspares ⊢
        split
        case isFalse hblock =>
          rw [if_neg hblock] at hspares
          exact ih _ h hspares
        rename_i hclosure
        rw [if_pos hclosure, Bool.and_eq_true] at hspares
        obtain ⟨hinside, hgoes⟩ := hspares
        obtain ⟨ht, -, hstop, gs, hx, -, -⟩ := split_of_searchAt? hm
        obtain ⟨_, htext, h₁⟩ := hx.of_append_lit
        obtain ⟨_, b, rfl, hb, h₂⟩ := h₁.of_append_blanks
        obtain ⟨rfl, -⟩ := spells_behind_iff.mp h₂
        generalize m.before = before, m.after = after at *
        have hopen : m.stop - 1 = (before ++ b).length := by
          rw [hstop, htext]
          simp
        have hshape : t = (before ++ b) ++ '\x7b' :: after := by
          rw [ht, htext]
          simp
        have hcut : t = (before ++ b) ++ ("\x7b".toList ++ after) := hshape
        rw [hcut] at h
        obtain ⟨as, cs, hsub, ha, hc⟩ := Scripted.cut h (by decide) fun l hl hin =>
          hl.1 (hin.subset (List.mem_singleton_self _))
        rw [hopen] at hclose hinside hgoes ⊢
        obtain ⟨inner, more, ms, ks, hslice, hdrop, hsub', hinner, hmore⟩ :=
          Scripted.of_closing? hc (by decide) hshape rfl hclose
        have htake : t.take (before ++ b).length = before ++ b := by rw [hshape, List.take_left]
        rw [hslice] at hinside hgoes ⊢
        rw [hdrop, htake] at hgoes ⊢
        obtain ⟨arrow, harrow, hscripted⟩ := scripted_closureToArrow hconvert hinner hinside
        rw [harrow] at hgoes ⊢
        have hnew : Scripted LacksClosure ls (before ++ b ++ arrow ++ more) := by
          refine ((ha.append hscripted).append hmore).mono fun l hl => ?_
          rcases List.mem_append.mp (hsub hl) with hl | hl
          · simp [hl]
          · have := hsub' hl
            simp only [List.mem_append] at this ⊢
            tauto
        exact ih _ hnew hgoes

/-- Closures become arrow functions with their literals, at any depth. -/
theorem scripted_convertWithin (depth : Nat) (h : Scripted LacksClosure ls t)
    (hspares : sparesWithin depth t = true) :
    ∃ u, convertWithin depth t = .ok u ∧ Scripted LacksClosure ls u := by
  induction depth generalizing ls t with
  | zero => exact ⟨t, rfl, h⟩
  | succ depth ih =>
    rw [sparesWithin, Bool.and_eq_true] at hspares
    have hconvert (ls : List Text) (t : Text) (h : Scripted LacksClosure ls t)
        (hspares : sparesWithin depth t = true) := ih h hspares
    obtain ⟨u, hu, hscripted⟩ := scripted_convertTrailing hconvert _ _ h hspares.1
    rw [hu] at hspares
    obtain ⟨v, hv, hscripted'⟩ := scripted_convertLiterals hconvert _ _ hscripted hspares.2
    refine ⟨v, ?_, hscripted'⟩
    rw [convertWithin, hu]
    exact hv

end Swift

end HostScript.Body
