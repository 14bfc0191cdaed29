import HostScript.Proofs.Script.Recast

/-!
# Pieces put in between others

New pieces can be put in front of those that stand at certain places, where a place is told by the
pieces before it. A scanner finds the old and the new pieces if the new ones start and end by
themselves and no slash before one of the places waits for the rest of a regular expression.
-/

namespace HostScript.Script

/-! ## New members of a list -/

section

variable {α : Type}

/-- A list with new members in front of those that stand at certain places. A place is told by the
members before it, nearest first. -/
def inserted (here : List α → Bool) (new : List α) : (window : List α) → List α → List α
  | _, [] => []
  | w, a :: l => (if here w then new else []) ++ a :: inserted here new (a :: w) l

variable {here : List α → Bool} {new : List α} {w l x y : List α}

@[simp] theorem inserted_nil (w : List α) : inserted here new w [] = [] := rfl

theorem inserted_cons (w : List α) (a : α) (l : List α) :
    inserted here new w (a :: l) =
      (if here w then new else []) ++ a :: inserted here new (a :: w) l := rfl

theorem inserted_of_here {a : α} (h : here w = true) :
    inserted here new w (a :: l) = new ++ a :: inserted here new (a :: w) l := by
  rw [inserted_cons, if_pos h]

theorem inserted_of_not_here {a : α} (h : here w = false) :
    inserted here new w (a :: l) = a :: inserted here new (a :: w) l := by
  rw [inserted_cons, h]
  rfl

/-- The members behind others may be looked at alone. -/
theorem inserted_append (w x y : List α) :
    inserted here new w (x ++ y) =
      inserted here new w x ++ inserted here new (x.reverse ++ w) y := by
  induction x generalizing w with
  | nil => rfl
  | cons a x ih => simp only [List.cons_append, inserted_cons, ih, List.append_assoc, List.reverse_cons,
      List.nil_append]

/-- The old members are kept. -/
theorem mem_inserted {a : α} (h : a ∈ l) : a ∈ inserted here new w l := by
  induction l generalizing w with
  | nil => cases h
  | cons b l ih =>
    rw [inserted_cons, List.mem_append]
    rcases List.mem_cons.mp h with rfl | h
    · exact Or.inr (List.mem_cons_self ..)
    · exact Or.inr (List.mem_cons_of_mem b (ih h))

/-- All other members are new. -/
theorem mem_or_mem_of_inserted {a : α} (h : a ∈ inserted here new w l) : a ∈ l ∨ a ∈ new := by
  induction l generalizing w with
  | nil => cases h
  | cons b l ih =>
    rw [inserted_cons, List.mem_append, List.mem_cons] at h
    rcases h with h | rfl | h
    · split at h
      · exact Or.inr h
      · cases h
    · exact Or.inl (List.mem_cons_self ..)
    · exact (ih h).imp_left (List.mem_cons_of_mem b)

/-- The last member stays the last. -/
theorem getLast?_inserted : (inserted here new w l).getLast? = l.getLast? := by
  induction l generalizing w with
  | nil => rfl
  | cons a l ih =>
    rw [inserted_cons, List.getLast?_append_cons, List.getLast?_cons, List.getLast?_cons, ih]

/-- Either there is no place for new members, or there is a first one. -/
theorem inserted_eq_or (here : List α → Bool) (new w l : List α) :
    inserted here new w l = l ∨ ∃ x a y z, l = x ++ a :: y ∧ here (x.reverse ++ w) = true ∧
      inserted here new w l = x ++ (new ++ z) := by
  induction l generalizing w with
  | nil => exact Or.inl rfl
  | cons a l ih =>
    cases h : here w with
    | true => exact Or.inr ⟨[], a, l, _, rfl, h, inserted_of_here h⟩
    | false =>
      rw [inserted_of_not_here h]
      rcases ih (a :: w) with hnone | ⟨x, b, y, z, rfl, hx, hz⟩
      · exact Or.inl (by rw [hnone])
      · refine Or.inr ⟨a :: x, b, y, z, rfl, ?_, by rw [hz]; rfl⟩
        rwa [List.reverse_cons, List.append_assoc]

/-- Nothing changes where there is no place for new members. -/
theorem inserted_eq_self (h : ∀ x a y, l = x ++ a :: y → here (x.reverse ++ w) = false) :
    inserted here new w l = l := by
  rcases inserted_eq_or here new w l with hnone | ⟨x, a, y, z, hl, hx, -⟩
  · exact hnone
  · rw [h x a y hl] at hx
    cases hx

/-- A start that has none of the first new members is a start of the old list. -/
theorem exists_append_of_inserted_start {b : α} (hb : new.head? = some b) (hx : b ∉ x)
    (h : inserted here new w l = x ++ y) :
    ∃ z, l = x ++ z ∧ y = inserted here new (x.reverse ++ w) z := by
  obtain ⟨tail, rfl⟩ := List.head?_eq_some_iff.mp hb
  induction x generalizing w l with
  | nil => exact ⟨l, rfl, h.symm⟩
  | cons a x ih =>
    rw [List.mem_cons, not_or] at hx
    cases l with
    | nil => cases h
    | cons d l =>
      cases hhere : here w with
      | true =>
        rw [inserted_of_here hhere] at h
        exact absurd (List.cons.inj h).1 hx.1
      | false =>
        rw [inserted_of_not_here hhere] at h
        obtain ⟨rfl, hrest⟩ := List.cons.inj h
        obtain ⟨z, rfl, rfl⟩ := ih hx.2 hrest
        exact ⟨z, rfl, by rw [List.reverse_cons, List.append_assoc]; rfl⟩

/-- Where a list with new members is divided, the old list is, unless new members come right behind
the place or stand on both sides of it. -/
theorem exists_append_of_inserted (h : inserted here new w l = x ++ y) :
    (∃ u v, l = u ++ v ∧ x = inserted here new w u ∧ y = inserted here new (u.reverse ++ w) v) ∨
      ∃ u a v n m, l = u ++ a :: v ∧ here (u.reverse ++ w) = true ∧ new = n ++ m ∧
        x = inserted here new w u ++ n ∧
        y = m ++ a :: inserted here new (a :: (u.reverse ++ w)) v := by
  induction l generalizing w x with
  | nil =>
    obtain ⟨rfl, rfl⟩ := List.append_eq_nil_iff.mp h.symm
    exact Or.inl ⟨[], [], rfl, rfl, rfl⟩
  | cons a l ih =>
    -- The place is behind the first old member, or in front of it.
    have hbehind {x' : List α} (hx : inserted here new (a :: w) l = x' ++ y) :
        (∃ u v, a :: l = u ++ v ∧ inserted here new w [a] ++ x' = inserted here new w u ∧
            y = inserted here new (u.reverse ++ w) v) ∨
          ∃ u b v n m, a :: l = u ++ b :: v ∧ here (u.reverse ++ w) = true ∧ new = n ++ m ∧
            inserted here new w [a] ++ x' = inserted here new w u ++ n ∧
            y = m ++ b :: inserted here new (b :: (u.reverse ++ w)) v := by
      rcases ih hx with ⟨u, v, rfl, rfl, rfl⟩ | ⟨u, b, v, n, m, rfl, hhere, hnew, rfl, rfl⟩
      · exact Or.inl ⟨a :: u, v, rfl, by simp [inserted_cons], by simp⟩
      · exact Or.inr ⟨a :: u, b, v, n, m, rfl, by simpa using hhere, hnew, by simp [inserted_cons],
          by simp⟩
    cases hhere : here w with
    | false =>
      rw [inserted_of_not_here hhere] at h hbehind
      cases x with
      | nil =>
        refine Or.inl ⟨[], a :: l, rfl, rfl, ?_⟩
        rw [← List.nil_append y, ← h]
        exact (inserted_of_not_here hhere).symm
      | cons b x =>
        obtain ⟨rfl, hrest⟩ := List.cons.inj h
        exact hbehind hrest
    | true =>
      rw [inserted_of_here hhere] at h hbehind
      rcases List.append_eq_append_iff.mp h with ⟨z, rfl, hz⟩ | ⟨z, rfl, hz⟩
      · cases z with
        | nil =>
          rw [List.append_nil]
          exact Or.inr ⟨[], a, l, new, [], rfl, hhere, (List.append_nil new).symm, rfl, hz.symm⟩
        | cons b z =>
          obtain ⟨rfl, hrest⟩ := List.cons.inj hz
          simpa using hbehind hrest
      · exact Or.inr ⟨[], a, l, x, z, rfl, hhere, rfl, rfl, hz⟩

/-- Putting in new members with the same sum keeps the sum. -/
theorem flatMap_inserted_congr {β : Type} {f : α → List β} {new' : List α}
    (h : new.flatMap f = new'.flatMap f) :
    (inserted here new w l).flatMap f = (inserted here new' w l).flatMap f := by
  induction l generalizing w with
  | nil => rfl
  | cons a l ih =>
    rw [inserted_cons, inserted_cons, List.flatMap_append, List.flatMap_append, List.flatMap_cons,
      List.flatMap_cons, ih]
    split
    · rw [h]
    · rfl

end

/-! ## New pieces that the scanner finds -/

/-- New pieces that start and end by themselves. -/
structure StandsAlone (new : List Piece) : Prop where
  /-- They are found wherever they stand. -/
  found : ∀ {w ps}, IsCut (new.reverse ++ w) ps → IsCut w (new ++ ps)
  /-- No name reaches out of them. -/
  edge : ∀ w, Edge (new.reverse ++ w)

/-- Pieces behind which new ones may be put in front of a certain piece. -/
structure MakesRoom (w us : List Piece) (p : Piece) : Prop where
  edge : Edge (us.reverse ++ w)
  last : ∀ q ∈ us.getLast?, ∃ c, q = .code c ∧ c ≠ '/'
  next : ∃ c, p = .code c ∧ isBlank c = false ∧ c ≠ '/'
  /-- No slash waits for the rest of a regular expression. -/
  slash : ∀ x y, us = x ++ .code '/' :: y → regexAllowed (nearby (x.reverse ++ w)) = true →
    ∀ r, regexRest (sources y ++ r) = none

theorem MakesRoom.tail {w us : List Piece} {p q : Piece} (h : MakesRoom w (q :: us) p) :
    MakesRoom (q :: w) us p where
  edge := by simpa using h.edge
  last r hr := h.last r (by rw [List.getLast?_cons, hr]; rfl)
  next := h.next
  slash x y hxy hallowed := by
    refine h.slash (q :: x) y (by rw [hxy]; rfl) ?_
    rwa [List.reverse_cons, List.append_assoc]

variable {here : List Piece → Bool} {new w w' ps : List Piece}

/-- What follows a piece starts as before, unless new pieces follow it. -/
theorem head?_sources_inserted (hwhole : ∀ p ∈ ps, p.IsWhole) (hhere : here w = true → ps = []) :
    (sources (inserted here new w ps)).head? = (sources ps).head? := by
  cases ps with
  | nil => rfl
  | cons p ps =>
    have hw : here w = false := Bool.eq_false_iff.mpr fun h => absurd (hhere h) (by simp)
    have hne := (hwhole p (List.mem_cons_self ..)).source_ne_nil
    rw [inserted_of_not_here hw, sources_cons, sources_cons, List.head?_append_of_ne_nil _ hne,
      List.head?_append_of_ne_nil _ hne]

/-- The scanner finds the old pieces and the new ones between them. -/
theorem isCut_inserted (hnew : StandsAlone new) (hwhole : ∀ p ∈ ps, p.IsWhole)
    (hsame : ∀ v, regexAllowed (nearby (v ++ w)) = regexAllowed (nearby (v ++ w')))
    (hroom : ∀ us p vs, ps = us ++ p :: vs → here (us.reverse ++ w) = true → MakesRoom w us p)
    (h : IsCut w ps) : IsCut w' (inserted here new w ps) := by
  -- The induction is on the pieces; slashes keep their meaning because what is put in stands
  -- before a character that an expression can start with.
  induction ps generalizing w w' with
  | nil => trivial
  | cons p ps ih =>
    rw [List.forall_mem_cons] at hwhole
    have hrest : ∀ us q vs, ps = us ++ q :: vs → here (us.reverse ++ p :: w) = true →
        MakesRoom (p :: w) us q := fun us q vs hps hhere =>
      (hroom (p :: us) q vs (by rw [hps]; rfl) (by simpa using hhere)).tail
    cases hw : here w with
    | true =>
      have hp := hroom [] p ps rfl hw
      obtain ⟨c, rfl, hblank, hslash⟩ := hp.next
      rw [inserted_of_here hw]
      apply hnew.found
      have htrim : Text.trimEnd (Piece.code c).look ≠ [] := by
        rw [Piece.look, trimEnd_eq_self (by simpa [endsIn] using hblank)]
        simp
      refine ⟨(spanAt?_eq_none_congr hslash _ _ _ _).mp h.1, ih hwhole.2 ?_ hrest h.2⟩
      exact hp.edge.regexAllowed_nearby (hnew.edge w') htrim
    | false =>
      rw [inserted_of_not_here hw]
      have hnext : ∀ v, regexAllowed (nearby (v ++ p :: w)) =
          regexAllowed (nearby (v ++ p :: w')) := fun v => by
        simpa only [List.append_assoc, List.singleton_append] using hsame (v ++ [p])
      have hhead (hp : ∀ c, p = .code c → c = '/') :
          (sources (inserted here new (p :: w) ps)).head? = (sources ps).head? := by
        refine head?_sources_inserted hwhole.2 fun hhere => ?_
        cases ps with
        | nil => rfl
        | cons q ps =>
          obtain ⟨c, hc, hslash⟩ := (hroom [p] q ps rfl hhere).last p rfl
          exact absurd (hp c hc) hslash
      cases hwhole.1 with
      | code c =>
        refine ⟨?_, ih hwhole.2 hnext hrest h.2⟩
        by_cases hc : c = '/'
        · subst hc
          have hcode := h.1
          rw [spanAt?_slash_eq_none_iff] at hcode ⊢
          rw [hhead fun c hc => (Piece.code.inj hc).symm]
          refine ⟨hcode.1, fun hallowed => ?_⟩
          have hbefore : regexAllowed (nearby w) = true := (hsame []).trans hallowed
          rcases inserted_eq_or here new (.code '/' :: w) ps with
            hnone | ⟨us, q, vs, z, rfl, hhere, hz⟩
          · rw [hnone]
            exact hcode.2 hbefore
          · rw [hz, sources_append]
            have hplace := hroom (.code '/' :: us) q vs rfl (by simpa using hhere)
            exact hplace.slash [] us rfl hbefore _
        · exact (spanAt?_eq_none_congr hc _ _ _ _).mp h.1
      | @hidden kind c span hk _ =>
        refine ⟨spanAt?_append h.1 (hhead fun c hc => by cases hc).symm (hsame []).symm, ih hwhole.2 hnext hrest h.2⟩

/-! ## New text in what is shown -/

/-- A text with a new one put in at certain places. -/
def insertedAt (here : Nat → Bool) (new : Text) : (pos : Nat) → Text → Text
  | _, [] => []
  | pos, c :: t => (if here pos then new else []) ++ c :: insertedAt here new (pos + 1) t

section

variable {here : Nat → Bool} {new t : Text} {pos : Nat}

theorem insertedAt_append (pos : Nat) (t u : Text) :
    insertedAt here new pos (t ++ u) =
      insertedAt here new pos t ++ insertedAt here new (pos + t.length) u := by
  induction t generalizing pos with
  | nil => rfl
  | cons c t ih =>
    rw [List.cons_append, insertedAt, insertedAt, ih, List.append_assoc, List.cons_append,
      List.length_cons, Nat.add_right_comm, Nat.add_assoc]

/-- Nothing is put in where there are no places for it. -/
theorem insertedAt_eq_self (h : ∀ i < t.length, here (pos + i) = false) :
    insertedAt here new pos t = t := by
  induction t generalizing pos with
  | nil => rfl
  | cons c t ih =>
    have hpos : here pos = false := h 0 (by simp)
    rw [insertedAt, hpos, ih fun i hi => ?_]
    · rfl
    · rw [Nat.add_assoc, Nat.add_comm 1 i]
      exact h (i + 1) (by simpa using hi)

end

/-- Putting a text in what pieces show is putting code between the pieces, unless it goes in front
of a mark or inside one. -/
theorem insertedAt_assemble {here : Nat → Bool} {new : Text} (hw : ∀ p ∈ w, p.IsWhole)
    (hps : ∀ p ∈ ps, p.IsWhole)
    (hhere : ∀ i, here i = true → ∀ x y, (Piece.assemble 0 (w.reverse ++ ps)).1 = x ++ y →
      x.length = i → endsIn isIdentPart x = false ∧ y.head? ≠ some '_') :
    insertedAt here new (Piece.assemble 0 w.reverse).1.length
        (Piece.assemble (spansOf w.reverse).length ps).1 =
      (Piece.assemble (spansOf w.reverse).length
        (inserted (fun w => here (Piece.assemble 0 w.reverse).1.length) (spelled new) w ps)).1 := by
  induction ps generalizing w with
  | nil => rfl
  | cons p ps ih =>
    rw [List.forall_mem_cons] at hps
    have hreverse : ∀ q ∈ w.reverse, q.IsWhole := fun q hq => hw q (List.mem_reverse.mp hq)
    have hsplit : (p :: w).reverse ++ ps = w.reverse ++ p :: ps := by simp
    have hnext := ih (w := p :: w) (List.forall_mem_cons.mpr ⟨hps.1, hw⟩) hps.2 (hsplit ▸ hhere)
    have hlength : (Piece.assemble 0 (p :: w).reverse).1.length =
        (Piece.assemble 0 w.reverse).1.length +
          (Piece.assemble (spansOf w.reverse).length [p]).1.length := by
      rw [List.reverse_cons, assemble_append_fst 0 hreverse, List.length_append, Nat.zero_add]
    rw [assemble_append_fst 0 hreverse, Nat.zero_add] at hhere
    rw [hlength, List.reverse_cons, spansOf_append, List.length_append] at hnext
    cases hps.1 with
    | code c =>
      have hcode : insertedAt here new ((Piece.assemble 0 w.reverse).1.length + 1)
          (Piece.assemble (spansOf w.reverse).length ps).1 = _ := hnext
      rw [Piece.assemble_code, insertedAt, hcode]
      cases hpos : here (Piece.assemble 0 w.reverse).1.length with
      | true =>
        rw [inserted_of_here hpos, assemble_append_fst _ fun q => isWhole_of_mem_spelled,
          assemble_spelled, spansOf_spelled]
        rfl
      | false =>
        rw [inserted_of_not_here hpos]
        rfl
    | @hidden kind c span hk _ =>
      have hnone : ∀ i < (kind.mark (spansOf w.reverse).length).length,
          here ((Piece.assemble 0 w.reverse).1.length + i) = false := by
        intro i hi
        refine Bool.eq_false_iff.mpr fun hpos => ?_
        rw [Piece.assemble_hidden] at hhere
        have hplace := hhere _ hpos ((Piece.assemble 0 w.reverse).1 ++
          (kind.mark (spansOf w.reverse).length).take i)
          ((kind.mark (spansOf w.reverse).length).drop i ++
            (Piece.assemble ((spansOf w.reverse).length + 1) ps).1)
          (by rw [List.append_assoc, ← List.append_assoc (List.take _ _), List.take_append_drop])
          (by rw [List.length_append, List.length_take_of_le hi.le])
        cases i with
        | zero =>
          obtain ⟨m, hm⟩ := SpanKind.exists_mark_eq hk (spansOf w.reverse).length
          refine hplace.2 ?_
          rw [List.drop_zero, hm]
          rfl
        | succ i =>
          have hne : (kind.mark (spansOf w.reverse).length).take (i + 1) ≠ [] :=
            List.ne_nil_of_length_pos (by rw [List.length_take_of_le hi.le]; omega)
          have hends := hplace.1
          rw [endsIn_append _ hne, endsIn_eq _ hne, isIdentPart_of_mem_mark hk
            (List.mem_of_mem_take (List.getLast_mem hne))] at hends
          cases hends
      have hmark : (Piece.assemble (spansOf w.reverse).length [.hidden kind (c :: span)]).1 =
          kind.mark (spansOf w.reverse).length := by
        rw [Piece.assemble_hidden, Piece.assemble_nil, List.append_nil]
      have hpos : here (Piece.assemble 0 w.reverse).1.length = false :=
        hnone 0 (List.length_pos_of_ne_nil (kind.mark_ne_nil _))
      rw [hmark] at hnext
      rw [Piece.assemble_hidden, insertedAt_append, insertedAt_eq_self hnone,
        inserted_of_not_here hpos, Piece.assemble_hidden]
      exact congrArg _ hnext

end HostScript.Script
