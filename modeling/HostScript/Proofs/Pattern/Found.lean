import HostScript.Proofs.Pattern.Ways

/-!
# The fits that a search lists

A search goes from place to place, and each fit that it lists is a run of the pattern from the start
of the fit to its end. What advances is listed, or an earlier fit covers its place.
-/

namespace HostScript.Pattern

variable {p : Pattern} {s : CharSet} {x rest t : Text}

/-- A search hands on places unchanged, or refuses them. -/
def Keeps (k : Cursor → Option Cursor) : Prop := ∀ d e, k d = some e → d = e

theorem run_of_searchFrom {before after : Text} {pos : Nat} {mustMove : Bool} {a b : Cursor}
    (h : p.searchFrom before pos mustMove after = some (a, b)) :
    ∃ k, Keeps k ∧ (∀ d, d.pos ≠ a.pos → k d = some d) ∧ p.run k a = some b := by
  have hkeeps (mustMove : Bool) (pos : Nat) :
      Keeps fun d => if mustMove && d.pos == pos then none else some d :=
    fun d e hd => Option.some.inj (Option.ite_none_left_eq_some.mp hd).2
  have hmoved (mustMove : Bool) (pos : Nat) (d : Cursor) (hd : d.pos ≠ pos) :
      (if mustMove && d.pos == pos then none else some d) = some d := by
    simp [beq_eq_false_iff_ne.mpr hd]
  induction after generalizing before pos mustMove with
  | nil =>
    rw [searchFrom] at h
    obtain ⟨d, hd, hab⟩ := Option.map_eq_some_iff.mp h
    cases hab
    exact ⟨_, hkeeps mustMove pos, hmoved mustMove pos, hd⟩
  | cons x after ih =>
    rw [searchFrom] at h
    split at h
    · rename_i d hd
      cases h
      exact ⟨_, hkeeps mustMove pos, hmoved mustMove pos, hd⟩
    · exact ih h

/-- A fit that a search lists is a run of the pattern from its start to its end. -/
theorem run_of_mem_matchesFrom {t : Text} {fuel : Nat} {mustMove : Bool}
    {groups : List (Nat × Capture)} {before after : Text} (ht : t = before.reverse ++ after)
    {m : Match} (hm : m ∈ p.matchesFrom t fuel mustMove ⟨before, after, before.length, groups⟩) :
    ∃ k e, Keeps k ∧ (∀ d, d.pos ≠ m.start → k d = some d) ∧
      p.run k (placeAt t m.start) = some e ∧ e.after = t.drop m.stop := by
  induction fuel generalizing mustMove before after groups with
  | zero => simp [matchesFrom] at hm
  | succ fuel ih =>
    rw [matchesFrom] at hm
    cases hsearch : p.searchFrom before before.length mustMove after with
    | none => simp [hsearch] at hm
    | some ab =>
      obtain ⟨a, b⟩ := ab
      obtain ⟨k, hk, hmoved, hrun⟩ := run_of_searchFrom hsearch
      obtain ⟨i, hi, hlen, rfl, ⟨n, hn, gs, rfl⟩, -⟩ := of_searchFrom_eq_some ht hsearch
      simp only [hsearch, List.mem_cons] at hm
      rcases hm with rfl | hm
      · refine ⟨k, _, hk, hmoved, hrun, ?_⟩
        simp [Match.ofCursors, Cursor.advance, placeAt]
      · rw [placeAt, List.length_drop] at hn
        have hbefore : ((placeAt t i).advance n).pos = ((placeAt t i).advance n).before.length := by
          simp only [Cursor.advance, placeAt, List.length_append, List.length_reverse,
            List.length_take, List.length_drop]
          omega
        have hsplit : t = ((placeAt t i).advance n).before.reverse ++
            ((placeAt t i).advance n).after := by
          simp only [Cursor.advance, placeAt, List.reverse_append, List.reverse_reverse,
            List.append_assoc, List.take_append_drop]
        rw [hbefore] at hm
        exact ih hsplit hm

/-- Behind a fit of a pattern that looks at what follows, none of what it refuses follows. -/
theorem startsIn_of_mem_allIn {t : Text} {m : Match} (hm : m ∈ (p ++ notAhead (.one s)).allIn t) :
    (t.drop m.stop).head?.any s = false := by
  have ht : t = ([] : Text).reverse ++ t := rfl
  obtain ⟨k, e, hk, -, hrun, hafter⟩ := run_of_mem_matchesFrom ht hm
  rw [run_seq] at hrun
  obtain ⟨x, gs, d, -, -, hd⟩ := covers_run p _ _ _ hrun
  rw [run_notAhead_one] at hd
  obtain ⟨hnone, hd⟩ := Option.ite_none_left_eq_some.mp hd
  obtain rfl := hk d e hd
  rw [← hafter]
  exact Bool.eq_false_iff.mpr hnone

/-! ### What a search covers -/

/-- A search ends at its first place if the pattern fits there. -/
theorem searchFrom_of_run {before after : Text} {pos : Nat} {d : Cursor}
    (h : p.run some ⟨before, after, pos, []⟩ = some d) :
    p.searchFrom before pos false after = some (⟨before, after, pos, []⟩, d) := by
  cases after <;>
    simp only [searchFrom, Bool.false_and, Bool.false_eq_true, if_false, h, Option.map_some]

/-- A listing starts with the fit at its first place, if there is one. -/
theorem matchesFrom_of_run {s before after : Text} {pos fuel : Nat}
    {groups : List (Nat × Capture)} {d : Cursor}
    (h : p.run some ⟨before, after, pos, []⟩ = some d) (hmoved : d.pos ≠ pos) :
    p.matchesFrom s (fuel + 1) false ⟨before, after, pos, groups⟩ =
      Match.ofCursors s ⟨before, after, pos, []⟩ d :: p.matchesFrom s fuel false d := by
  rw [matchesFrom]
  dsimp only
  rw [searchFrom_of_run h]
  dsimp only
  rw [beq_eq_false_iff_ne.mpr hmoved]

/-- A search goes on behind places where its pattern does not fit. -/
theorem searchFrom_append {p : Pattern} {before y : Text} {pos : Nat} (x : Text)
    (h : ∀ u c v, x = u ++ c :: v →
      p.run some ⟨u.reverse ++ before, c :: v ++ y, pos + u.length, []⟩ = none) :
    p.searchFrom before pos false (x ++ y) =
      p.searchFrom (x.reverse ++ before) (pos + x.length) false y := by
  induction x generalizing before pos with
  | nil => rfl
  | cons c x ih =>
    have hfirst := h [] c x rfl
    have hrest : ∀ u a v, x = u ++ a :: v →
        p.run some ⟨u.reverse ++ c :: before, a :: v ++ y, pos + 1 + u.length, []⟩ = none := by
      intro u a v hx
      have := h (c :: u) a v (by rw [hx]; rfl)
      simpa [Nat.add_assoc, Nat.add_comm 1] using this
    rw [List.reverse_nil, List.nil_append, List.length_nil, Nat.add_zero, List.cons_append] at hfirst
    rw [List.cons_append]
    simp only [searchFrom, Bool.false_and, Bool.false_eq_true, if_false, hfirst]
    rw [ih hrest]
    simp [Nat.add_assoc, Nat.add_comm 1]

/-- So does a listing. -/
theorem matchesFrom_append {p : Pattern} {s before y : Text} {pos fuel : Nat}
    {groups : List (Nat × Capture)} (x : Text)
    (h : ∀ u c v, x = u ++ c :: v →
      p.run some ⟨u.reverse ++ before, c :: v ++ y, pos + u.length, []⟩ = none) :
    p.matchesFrom s fuel false ⟨before, x ++ y, pos, groups⟩ =
      p.matchesFrom s fuel false ⟨x.reverse ++ before, y, pos + x.length, groups⟩ := by
  cases fuel with
  | zero => rfl
  | succ fuel =>
    rw [matchesFrom, matchesFrom]
    dsimp only
    rw [searchFrom_append x h]

/-- A search ends no later than at a place where the pattern fits. -/
theorem searchFrom_eq_some {before x y : Text} {pos : Nat}
    (h : (p.run some ⟨x.reverse ++ before, y, pos + x.length, []⟩).isSome = true) :
    ∃ a b, p.searchFrom before pos false (x ++ y) = some (a, b) ∧ a.pos ≤ pos + x.length := by
  induction x generalizing before pos with
  | nil =>
    obtain ⟨d, hd⟩ := Option.isSome_iff_exists.mp h
    exact ⟨_, d, searchFrom_of_run hd, le_rfl⟩
  | cons c x ih =>
    cases hrun : p.run some ⟨before, c :: x ++ y, pos, []⟩ with
    | some d => exact ⟨_, d, searchFrom_of_run hrun, Nat.le_add_right _ _⟩
    | none =>
      have hnext : (p.run some ⟨x.reverse ++ c :: before, y, pos + 1 + x.length, []⟩).isSome = true := by
        simpa [Nat.add_assoc, Nat.add_comm 1] using h
      obtain ⟨a, b, hsearch, ha⟩ := ih hnext
      refine ⟨a, b, ?_, by rw [List.length_cons]; omega⟩
      rw [List.cons_append] at hrun ⊢
      simp only [searchFrom, Bool.false_and, Bool.false_eq_true, if_false, hrun]
      exact hsearch

/-- Where a pattern fits that covers something, a search lists a fit that covers the place. -/
theorem exists_covering {fuel : Nat} {groups : List (Nat × Capture)} {before after : Text}
    (hp : p.advances = true) (ht : t = before.reverse ++ after) (hfuel : after.length < fuel)
    {i : Nat} (hi : before.length ≤ i) (hlen : i ≤ t.length)
    (hfit : (p.run some (placeAt t i)).isSome = true) :
    ∃ m ∈ p.matchesFrom t fuel false ⟨before, after, before.length, groups⟩,
      m.start ≤ i ∧ i < m.stop := by
  induction fuel generalizing before after groups with
  | zero => omega
  | succ fuel ih =>
    obtain ⟨n, rfl⟩ : ∃ n, i = before.length + n := ⟨i - before.length, by omega⟩
    have htotal : t.length = before.length + after.length := by
      rw [ht, List.length_append, List.length_reverse]
    have hn : (after.take n).length = n := List.length_take_of_le (by omega)
    have hplace : placeAt t (before.length + n) =
        ⟨(after.take n).reverse ++ before, after.drop n, before.length + (after.take n).length,
          []⟩ := by
      have htake : t.take (before.length + n) = before.reverse ++ after.take n := by
        rw [ht, ← List.length_reverse, List.take_length_add_append]
      have hdrop : t.drop (before.length + n) = after.drop n := by
        rw [ht, ← List.length_reverse, List.drop_length_add_append]
      rw [placeAt, htake, hdrop, hn, List.reverse_append, List.reverse_reverse]
    rw [hplace] at hfit
    obtain ⟨a, b, hsearch, ha⟩ := searchFrom_eq_some hfit
    rw [List.take_append_drop] at hsearch
    rw [hn] at ha
    obtain ⟨z, x, hz, hpos, hx, hpass⟩ := passes_of_searchFrom hsearch
    have hlonger : 0 < x.length := List.length_pos_of_ne_nil (hx.ne_nil hp)
    have hstop := hpass.pos
    have hmoved : (b.pos == a.pos) = false := beq_eq_false_iff_ne.mpr (by omega)
    rw [matchesFrom, hsearch]
    dsimp only
    rw [hmoved]
    by_cases hcovered : before.length + n < b.pos
    · exact ⟨_, List.mem_cons_self, ha, hcovered⟩
    · obtain ⟨j, hj, hjlen, rfl, ⟨k, hk, gs, rfl⟩, -⟩ := of_searchFrom_eq_some ht hsearch
      have hbefore : ((placeAt t j).advance k).before.length = j + k := by
        simp only [Cursor.advance, placeAt, List.length_append, List.length_reverse,
          List.length_take, List.length_drop]
        rw [placeAt, List.length_drop] at hk
        omega
      have hsplit : t = ((placeAt t j).advance k).before.reverse ++
          ((placeAt t j).advance k).after := by
        simp only [Cursor.advance, placeAt, List.reverse_append, List.reverse_reverse,
          List.append_assoc, List.take_append_drop]
      have hshort : ((placeAt t j).advance k).after.length < fuel := by
        have := congrArg List.length hsplit
        rw [List.length_append, List.length_reverse, hbefore] at this
        change j + k = j + x.length at hstop
        omega
      change ¬ before.length + n < j + k at hcovered
      obtain ⟨m, hm, hstart, hend⟩ := @ih gs _ _ hsplit hshort (by omega)
      rw [hbefore] at hm
      exact ⟨m, List.mem_cons_of_mem _ hm, hstart, hend⟩

/-- The fits of a pattern in a text cover each place where it fits, if it covers something. -/
theorem exists_mem_allIn_of_run (hp : p.advances = true) {i : Nat} (hi : i ≤ t.length)
    (hfit : (p.run some (placeAt t i)).isSome = true) :
    ∃ m ∈ p.allIn t, m.start ≤ i ∧ i < m.stop := by
  have ht : t = ([] : Text).reverse ++ t := rfl
  exact exists_covering hp ht (by omega) (Nat.zero_le i) hi hfit

/-- A search lists first what the pattern takes at its start. -/
theorem matchesFrom_takes {before : Text} {gs : GroupsAt} (hx : x ≠ [])
    (h : p.Takes x rest gs) (t : Text) (fuel : Nat) (mustMove : Bool)
    (groups : List (Nat × Capture)) :
    p.matchesFrom t (fuel + 1) mustMove ⟨before, x ++ rest, before.length, groups⟩ =
      ⟨t, before.length, before.length + x.length, gs before.length⟩ ::
        p.matchesFrom t fuel false ⟨x.reverse ++ before, rest, (x.reverse ++ before).length,
          gs before.length⟩ := by
  obtain ⟨a, x', rfl⟩ := List.exists_cons_of_ne_nil hx
  have hstop : before.length + (x'.length + 1) = x'.length + (before.length + 1) := by omega
  have hmoved : (x'.length + (before.length + 1) == before.length) = false :=
    beq_eq_false_iff_ne.mpr (by omega)
  have hrun : p.run (fun d => if mustMove && d.pos == before.length then none else some d)
      ⟨before, a :: (x' ++ rest), before.length, []⟩ =
        some (Cursor.behind ⟨before, a :: (x' ++ rest), before.length, []⟩ (a :: x') gs) := by
    refine h _ _ _ rfl ?_
    simp [Cursor.behind, Cursor.advance, hstop, hmoved]
  rw [matchesFrom, List.cons_append]
  simp only [searchFrom, hrun]
  simp [Cursor.behind, Cursor.advance, Match.ofCursors, hstop, hmoved]

/-- What advances does not fit at the end of a text. -/
theorem matchesFrom_nil (hp : p.advances = true) (t before : Text) (fuel pos : Nat)
    (mustMove : Bool) (groups : List (Nat × Capture)) :
    p.matchesFrom t fuel mustMove ⟨before, [], pos, groups⟩ = [] := by
  cases fuel with
  | zero => rfl
  | succ fuel =>
    have hnone : p.searchFrom before pos mustMove [] = none := by
      cases hsearch : p.searchFrom before pos mustMove [] with
      | none => rfl
      | some ab =>
        obtain ⟨k, -, -, hrun⟩ := run_of_searchFrom hsearch
        obtain ⟨z, x, hz, -, hx, hpass⟩ := passes_of_searchFrom hsearch
        have hnil : x = [] := by
          have := hpass.after
          rw [(List.append_eq_nil_iff.mp hz.symm).2] at this
          exact (List.append_eq_nil_iff.mp this.symm).1
        exact absurd hnil (hx.ne_nil hp)
    rw [matchesFrom, hnone]

/-! ## Replacing from left to right

What a replacement makes of a text is followed from left to right: a stretch in which no fit starts
is copied, and a fit gives way to what takes its place. -/

variable {f : Match → Text} {y z out : Text}

/-- Where `x` is dealt with, the replacement turns the text behind it into `out`. -/
def Replaced (p : Pattern) (f : Match → Text) (x y out : Text) : Prop :=
  ∀ fuel, y.length < fuel → ∀ groups, splice (x ++ y) f x.length
    (p.matchesFrom (x ++ y) fuel false ⟨x.reverse, y, x.length, groups⟩) = out

theorem Replaced.replace_eq (h : p.Replaced f [] y out) : p.replace f y = out :=
  h (2 * y.length + 2) (by omega) []

/-- What lies ahead of the fits is copied. -/
theorem splice_of_fitsFrom {t : Text} {i j : Nat} {ms : List Match} (h : FitsFrom p t j ms)
    (hij : i ≤ j) (hj : j ≤ t.length) : splice t f i ms = t.slice i j ++ splice t f j ms := by
  have hcopy {k : Nat} (hjk : j ≤ k) (hk : k ≤ t.length) :
      t.slice i k = t.slice i j ++ t.slice j k := by
    have hwhole := Text.slice_append_drop (hij.trans hjk) hk
    rw [← Text.slice_append_drop hij hj, ← Text.slice_append_drop hjk hk,
      ← List.append_assoc] at hwhole
    exact List.append_cancel_right hwhole
  cases h with
  | nil => rw [splice, splice, Text.slice_append_drop hij hj]
  | cons _ start stop length =>
    rw [splice, splice, hcopy start (stop.trans length)]
    simp only [List.append_assoc]

/-- What is left of a text without its fits, and the fits, have all of its characters. -/
theorem FitsFrom.count_splice {t : Text} {pos : Nat} {ms : List Match} (h : FitsFrom p t pos ms)
    (hpos : pos ≤ t.length) (a : Char) :
    List.count a (splice t (fun _ => []) pos ms) + List.count a (ms.flatMap (·.text)) =
      List.count a (t.drop pos) := by
  induction h with
  | nil => simp [splice]
  | @cons pos m ms hsubject hstart hstop hlength _ _ ih =>
    have hsplit : t.drop pos = t.slice pos m.start ++ (m.text ++ t.drop m.stop) := by
      rw [Match.text, hsubject, Text.slice_append_drop hstop hlength,
        Text.slice_append_drop hstart (hstop.trans hlength)]
    rw [splice, hsplit, List.flatMap_cons]
    simp only [List.count_append, List.append_nil]
    have := ih hlength
    omega

/-- A text is copied up to where a fit starts. -/
theorem Replaced.copy (h : p.Replaced f (x ++ y) z out)
    (hnone : ∀ u c v, y = u ++ c :: v →
      p.run some ⟨(x ++ u).reverse, c :: (v ++ z), (x ++ u).length, []⟩ = none) :
    p.Replaced f x (y ++ z) (y ++ out) := by
  intro fuel hfuel groups
  have hskip := @matchesFrom_append p (x ++ (y ++ z)) x.reverse z x.length fuel groups y
    fun u c v huv => by simpa using hnone u c v huv
  have hrest := h fuel (by rw [List.length_append] at hfuel; omega) groups
  rw [List.append_assoc] at hrest
  rw [hskip, ← List.reverse_append, ← List.length_append]
  have hbehind := @fitsFrom_matchesFrom p (x ++ (y ++ z)) fuel false groups (x ++ y).reverse z
    (by simp)
  rw [List.length_reverse] at hbehind
  have hslice : Text.slice (x ++ (y ++ z)) x.length (x ++ y).length = y := by
    rw [Text.slice, ← List.append_assoc, List.take_left, List.drop_left]
  rw [splice_of_fitsFrom hbehind (by simp) (by simp), hrest, hslice]

/-- A fit gives way to its replacement. -/
theorem Replaced.fit {gs : List (Nat × Capture)} (h : p.Replaced f (x ++ y) z out) (hy : y ≠ [])
    (hrun : p.run some ⟨x.reverse, y ++ z, x.length, []⟩ =
      some ⟨(x ++ y).reverse, z, (x ++ y).length, gs⟩) :
    p.Replaced f x (y ++ z)
      (f ⟨x ++ (y ++ z), x.length, (x ++ y).length, gs⟩ ++ out) := by
  intro fuel hfuel groups
  have hpos : 0 < y.length := List.length_pos_iff.mpr hy
  obtain ⟨fuel, rfl⟩ := Nat.exists_eq_add_one_of_ne_zero (show fuel ≠ 0 by omega)
  have hrest := h fuel (by rw [List.length_append] at hfuel; omega) gs
  rw [List.append_assoc] at hrest
  rw [matchesFrom_of_run hrun (by simp [hy]), splice]
  have hslice : Text.slice (x ++ (y ++ z)) x.length x.length = [] := by simp [Text.slice]
  change Text.slice _ x.length x.length ++ _ ++ splice _ f (x ++ y).length _ = _
  rw [hslice, List.nil_append]
  exact congrArg _ hrest

/-- A text without fits is copied to its end. -/
theorem replaced_of_forall (hnone : ∀ u v, y = u ++ v →
    p.run some ⟨(x ++ u).reverse, v, (x ++ u).length, []⟩ = none) : p.Replaced f x y y := by
  have hend : p.Replaced f (x ++ y) [] [] := by
    intro fuel _ groups
    cases fuel with
    | zero => simp [matchesFrom, splice]
    | succ fuel =>
      have hsearch : p.searchFrom (x ++ y).reverse (x ++ y).length false [] = none := by
        simp only [searchFrom, Bool.false_and, Bool.false_eq_true, if_false]
        rw [hnone y [] (List.append_nil y).symm]
        rfl
      rw [matchesFrom]
      dsimp only
      rw [hsearch]
      simp [splice]
  simpa using hend.copy fun u c v huv => by simpa using hnone u (c :: v) huv

/-- What a search finds, between what stands before and behind it. -/
theorem split_of_searchAt? {pos : Nat} {m : Match} (h : p.searchAt? t pos = some m) :
    t = m.before ++ (m.text ++ m.after) ∧ m.start = m.before.length ∧
      m.stop = m.before.length + m.text.length ∧ ∃ gs, p.Spells m.text gs ∧
        (∀ i, m.group? i = gs.lookup i) ∧ ∃ k e, p.run k (placeAt t m.before.length) = some e := by
  obtain ⟨u, x, v, gs, rfl, hsubject, hstart, hstop, hx, hgroups, hrun⟩ := of_searchAt?_eq_some h
  have hbefore : m.before = u := by rw [Match.before, hsubject, hstart, List.take_left]
  have hafter : m.after = v := by
    rw [Match.after, hsubject, hstop, ← List.append_assoc, ← List.length_append, List.drop_left]
  have htext : m.text = x := by
    rw [Match.text, hsubject, Text.slice, hstart, hstop, List.take_length_add_append,
      List.take_left, List.drop_left]
  rw [hbefore, hafter, htext]
  exact ⟨rfl, hstart, hstop, gs, hx, hgroups, hrun⟩

/-- The first fit in a text is listed. -/
theorem mem_allIn_of_search? {m : Match} (h : p.search? t = some m) : m ∈ p.allIn t := by
  obtain ⟨⟨a, b⟩, hab, rfl⟩ := Option.map_eq_some_iff.mp h
  have hsearch : p.searchFrom [] 0 false t = some (a, b) := by simpa [Cursor.atOffset] using hab
  rw [allIn, matchesFrom]
  simp [Cursor.start, hsearch]

/-- A fit of a whole text spells it, with its groups. -/
theorem spells_of_matchAll? {p : Pattern} {t : Text} {m : Match} (h : p.matchAll? t = some m) :
    ∃ gs, p.Spells t gs ∧ ∀ i, m.group? i = gs.lookup i := by
  obtain ⟨e, he, rfl⟩ := Option.map_eq_some_iff.mp h
  obtain ⟨x, gs, d, hx, hpass, hd⟩ := covers_run p _ _ _ he
  obtain ⟨hend, hd⟩ := Option.ite_none_right_eq_some.mp hd
  obtain rfl := Option.some.inj hd
  have hafter : t = x ++ d.after := hpass.after
  rw [List.isEmpty_iff.mp hend, List.append_nil] at hafter
  subst hafter
  refine ⟨gs, hx, fun i => ?_⟩
  have hgroups : d.groupTexts = gs ++ [] := hpass.groupTexts
  rw [group?_ofCursors, hgroups, List.append_nil]

end HostScript.Pattern
