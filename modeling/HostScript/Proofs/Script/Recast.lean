import HostScript.Proofs.Script.Concat
import HostScript.Proofs.Script.Reword

/-!
# Scanning a recast script again

A recast script has some stretches of its pieces swapped for others, whatever these stretches hold.
What may be swapped can depend on the pieces around it. Scanning the script that a recast gives finds
the recast pieces, provided that it does so stretch by stretch, and that behind each stretch a slash
keeps its meaning.
-/

namespace HostScript.Script

/-!
## Windows
-/

/-- A window that no name reaches out of, and that does not end in a dot. -/
def Edge (w : List Piece) : Prop :=
  ∀ k, endsIn isIdentPart (looks (w.take k).reverse) = false ∧
    endsIn (· == '.') (looks (w.take k).reverse) = false

theorem Opening.edge {w : List Piece} (h : Opening w) : Edge w :=
  fun k => ⟨(h k).ident, (h k).dot⟩

theorem edge_code {c : Char} (hc : isIdentPart c = false) (hdot : c ≠ '.') (w : List Piece) :
    Edge (.code c :: w) := by
  intro k
  cases k with
  | zero => exact ⟨rfl, rfl⟩
  | succ k =>
    rw [looks_take_cons, Piece.look]
    simp [endsIn, hc, hdot]

/-- Behind two windows where an expression may start, a slash has the same meaning. -/
theorem Opening.regexAllowed_nearby {w w' : List Piece} (hw : Opening w)
    (hw' : Opening w') (v : List Piece) :
    regexAllowed (nearby (v ++ w)) = regexAllowed (nearby (v ++ w')) := by
  rw [nearby_append, nearby_append, (hw _).regexAllowed_append, (hw' _).regexAllowed_append]

/-- A regular expression may start where an expression may. -/
theorem Opening.regexAllowed {w : List Piece} (hw : Opening w) :
    regexAllowed (nearby w) = true := by
  have h := nearby_append [] w
  rw [List.nil_append] at h
  rw [h, (hw _).regexAllowed_append]
  rfl

/-- Behind a piece that is not blank it does not matter what the window is that no name reaches out
of. -/
theorem Edge.regexAllowed_nearby {w w' : List Piece} (hw : Edge w) (hw' : Edge w') {p : Piece}
    (hp : Text.trimEnd p.look ≠ []) (v : List Piece) :
    regexAllowed (nearby (v ++ p :: w)) = regexAllowed (nearby (v ++ p :: w')) := by
  have hsplit (u : List Piece) : v ++ p :: u = (v ++ [p]) ++ u := by simp
  rw [hsplit w, hsplit w', nearby_append (v ++ [p]) w, nearby_append (v ++ [p]) w']
  rcases Nat.eq_zero_or_pos (lookBack - (v ++ [p]).length) with hk | hk
  · rw [hk, List.take_zero, List.take_zero]
  · have hshort : (v ++ [p]).length ≤ lookBack := by omega
    have hseen : Text.trimEnd (nearby (v ++ [p])) ≠ [] := by
      have hlook : nearby (v ++ [p]) = p.look ++ looks v.reverse := by
        rw [nearby, List.take_of_length_le hshort, List.reverse_concat]
        rfl
      rw [hlook, Text.trimEnd_append]
      split
      · exact hp
      · rename_i hne
        exact List.append_ne_nil_of_right_ne_nil _ hne
    rw [regexAllowed_append hseen fun _ => hw _, regexAllowed_append hseen fun _ => hw' _]

/-!
## What keeps its meaning
-/

/-- Behind a window, every slash of the code stands where no regular expression may start. -/
def SlashesDivide (w ps : List Piece) : Prop :=
  ∀ before after, ps = before ++ .code '/' :: after →
    regexAllowed (nearby (before.reverse ++ w)) = false

theorem SlashesDivide.append {w ps qs : List Piece} (h : SlashesDivide w (ps ++ qs)) :
    SlashesDivide w ps ∧ SlashesDivide (ps.reverse ++ w) qs := by
  refine ⟨fun before after hps => ?_, fun before after hqs => ?_⟩
  · exact h before (after ++ qs) (by rw [hps, List.append_assoc]; rfl)
  · have hstep := h (ps ++ before) after (by rw [hqs, List.append_assoc])
    rwa [List.reverse_append, List.append_assoc] at hstep

theorem slashesDivide_cons {w ps : List Piece} {p : Piece} :
    SlashesDivide w (p :: ps) ↔
      (p = .code '/' → regexAllowed (nearby w) = false) ∧ SlashesDivide (p :: w) ps := by
  constructor
  · intro h
    exact ⟨fun hp => h [] ps (by rw [hp]; rfl), (show SlashesDivide w ([p] ++ ps) from h).append.2⟩
  · rintro ⟨hhead, hrest⟩ before after hps
    cases before with
    | nil => exact hhead (List.cons.inj hps).1
    | cons q before =>
      obtain ⟨rfl, rfl⟩ := List.cons.inj hps
      rw [List.reverse_cons, List.append_assoc]
      exact hrest before after rfl

instance decidableSlashesDivide : (w ps : List Piece) → Decidable (SlashesDivide w ps)
  | _, [] => isTrue (by simp [SlashesDivide])
  | w, p :: ps =>
    have := decidableSlashesDivide (p :: w) ps
    decidable_of_iff _ slashesDivide_cons.symm

/-- Pieces moved from behind one window to behind another: where a hidden span starts a regular
expression may still start, and slashes divide. -/
def KeepsMeaning : (w w' : List Piece) → List Piece → Prop
  | _, _, [] => True
  | w, w', p :: ps =>
    ((∀ c, p ≠ .code c) → regexAllowed (nearby w) = true → regexAllowed (nearby w') = true) ∧
      (p = .code '/' → regexAllowed (nearby w') = false) ∧ KeepsMeaning (p :: w) (p :: w') ps

/-- Pieces keep their meaning where slashes have the same meaning throughout. -/
theorem keepsMeaning_of_same {w w' ps : List Piece}
    (h : ∀ v, regexAllowed (nearby (v ++ w)) = regexAllowed (nearby (v ++ w')))
    (hdivide : SlashesDivide w ps) : KeepsMeaning w w' ps := by
  induction ps generalizing w w' with
  | nil => trivial
  | cons p ps ih =>
    rw [slashesDivide_cons] at hdivide
    have hhere := h []
    rw [List.nil_append, List.nil_append] at hhere
    refine ⟨fun _ hallowed => hhere ▸ hallowed, fun hp => hhere ▸ hdivide.1 hp, ih (fun v => ?_)
      hdivide.2⟩
    have hnext := h (v ++ [p])
    rwa [List.append_assoc, List.append_assoc] at hnext

/-- Pieces that start with something else than white space keep their meaning behind the start of an
expression, unless they start with a slash. -/
theorem keepsMeaning_of_edge {w w' ps : List Piece} {p : Piece} (hw : Edge w)
    (hw' : Opening w') (hp : Text.trimEnd p.look ≠ []) (hslash : p ≠ .code '/')
    (hdivide : SlashesDivide w (p :: ps)) : KeepsMeaning w w' (p :: ps) := by
  rw [slashesDivide_cons] at hdivide
  exact ⟨fun _ _ => hw'.regexAllowed, fun h => absurd h hslash,
    keepsMeaning_of_same (hw.regexAllowed_nearby hw'.edge hp) hdivide.2⟩

/-!
## Recasting
-/

/-- Pieces that differ by swapped stretches. What may be swapped depends on the pieces before,
nearest first, and on those behind. -/
inductive Recast (swaps : (w old new rest : List Piece) → Prop) :
    List Piece → List Piece → List Piece → Prop
  /-- Nothing is left. -/
  | nil (w : List Piece) : Recast swaps w [] []
  /-- A piece is kept. -/
  | copy {w : List Piece} (p : Piece) {ps qs : List Piece} (rest : Recast swaps (p :: w) ps qs) :
    Recast swaps w (p :: ps) (p :: qs)
  /-- A stretch is swapped for another one. -/
  | swap {w old new ps qs : List Piece} (h : swaps w old new ps)
    (rest : Recast swaps (old.reverse ++ w) ps qs) : Recast swaps w (old ++ ps) (new ++ qs)

/-- A window that ends in code that is no part of a name. -/
def Fresh (w : List Piece) : Prop := ∀ p ∈ w.head?, ∃ c, p = .code c ∧ isIdentPart c = false

theorem fresh_nil : Fresh [] := by
  rintro p ⟨⟩

/-- Swaps that start between names and keep the hidden spans in their order. -/
structure Orderly (swaps : (w old new rest : List Piece) → Prop) : Prop where
  fresh {w old new rest : List Piece} : swaps w old new rest → Fresh w
  spans {w old new rest : List Piece} : swaps w old new rest → spansOf new = spansOf old
  whole {w old new rest : List Piece} : swaps w old new rest → (∀ p ∈ old, p.IsWhole) →
    ∀ p ∈ new, p.IsWhole
  start {w old new rest : List Piece} : swaps w old new rest →
    ∃ c, (sources new).head? = some c ∧ isIdentPart c = true
  unmarked {w old new rest : List Piece} : swaps w old new rest → Unmarked (sources old) →
    Unmarked (sources new)
  stop {w old new rest : List Piece} : swaps w old new rest →
    ∀ c ∈ (sources new).getLast?, c ∉ markHead

variable {swaps : (w old new rest : List Piece) → Prop}

namespace Recast

theorem refl (w ps : List Piece) : Recast swaps w ps ps := by
  induction ps generalizing w with
  | nil => exact .nil w
  | cons p ps ih => exact .copy p (ih (p :: w))

/-- Pieces may be kept before a recast. -/
theorem append_left (x : List Piece) {w ps qs : List Piece}
    (h : Recast swaps (x.reverse ++ w) ps qs) : Recast swaps w (x ++ ps) (x ++ qs) := by
  induction x generalizing w with
  | nil => exact h
  | cons p x ih =>
    rw [List.reverse_cons, List.append_assoc] at h
    exact .copy p (ih h)

variable {w ps qs : List Piece}

theorem spansOf_eq (hs : Orderly swaps) (h : Recast swaps w ps qs) : spansOf qs = spansOf ps := by
  induction h with
  | nil => rfl
  | @copy w p ps qs _ ih =>
    have hsplit (l : List Piece) : spansOf (p :: l) = spansOf [p] ++ spansOf l :=
      spansOf_append [p] l
    rw [hsplit qs, hsplit ps, ih]
  | swap h _ ih => rw [spansOf_append, spansOf_append, hs.spans h, ih]

theorem isWhole (hs : Orderly swaps) (h : Recast swaps w ps qs) (hps : ∀ p ∈ ps, p.IsWhole) :
    ∀ p ∈ qs, p.IsWhole := by
  induction h with
  | nil => exact hps
  | copy p _ ih =>
    rw [List.forall_mem_cons] at hps ⊢
    exact ⟨hps.1, ih hps.2⟩
  | swap h _ ih =>
    rw [List.forall_mem_append] at hps ⊢
    exact ⟨hs.whole h hps.1, ih hps.2⟩

/-- What could open a mark at the start of a recast script stood at the start of the script, unless
no name reaches there. -/
theorem prefix_sources (hs : Orderly swaps) (h : Recast swaps w ps qs) {v : Text}
    (hv : ∀ c ∈ v, c ∈ markHead) (hp : v <+: sources qs) : v <+: sources ps ∨ Fresh w := by
  have hident : ∀ c ∈ markHead, isIdentPart c = true :=
    List.all_iff_forall_prop.mp (by decide)
  induction h generalizing v with
  | nil => exact Or.inl hp
  | swap h _ _ => exact Or.inr (hs.fresh h)
  | @copy w p ps qs _ ih =>
    rw [sources_cons] at hp ⊢
    refine Or.inl (isPrefix_append_of_rest hp fun u hu hrest => ?_)
    rw [hu, List.forall_mem_append] at hv
    rcases ih hv.2 hrest with hpre | hfresh
    · exact hpre
    · -- The piece before a swap belongs to no mark.
      obtain ⟨c, rfl, hc⟩ := hfresh p rfl
      have := hident c (hv.1 c (List.mem_singleton_self c))
      rw [this] at hc
      cases hc

/-- Swaps bring no mark into a script. -/
theorem unmarked (hs : Orderly swaps) (h : Recast swaps w ps qs) (hu : Unmarked (sources ps)) :
    Unmarked (sources qs) := by
  have hident : ∀ c ∈ markHead, isIdentPart c = true :=
    List.all_iff_forall_prop.mp (by decide)
  induction h with
  | nil => exact hu
  | @copy w p ps qs rest ih =>
    rw [sources_cons] at hu ⊢
    have hqs := ih (hu.of_infix (List.suffix_append _ _).isInfix)
    refine ⟨?_, ?_⟩
    · rw [List.infix_append_iff_ne_nil]
      rintro (hin | hin | ⟨a, b, ha, hb, hab, hap, hbq⟩)
      · exact hu.head (hin.trans (List.prefix_append _ _).isInfix)
      · exact hqs.head hin
      · have hbhead : ∀ c ∈ b, c ∈ markHead := fun c hc => hab ▸ List.mem_append_right a hc
        rcases rest.prefix_sources hs hbhead hbq with hpre | hfresh
        · apply hu.head
          rw [List.infix_append_iff_ne_nil]
          exact Or.inr (Or.inr ⟨a, b, ha, hb, hab, hap, hpre⟩)
        · obtain ⟨c, rfl, hc⟩ := hfresh p rfl
          have hmem : a.getLast ha ∈ [c] := hap.subset (List.getLast_mem ha)
          have hhead : a.getLast ha ∈ markHead :=
            hab ▸ List.mem_append_left b (List.getLast_mem ha)
          rw [List.mem_singleton.mp hmem] at hhead
          rw [hident c hhead] at hc
          cases hc
    · rw [List.mem_append, not_or]
      exact ⟨fun hc => hu.chunk (List.mem_append_left _ hc), hqs.chunk⟩
  | swap h _ ih =>
    rw [sources_append] at hu ⊢
    exact Unmarked.append (hs.unmarked h (hu.of_infix (List.prefix_append _ _).isInfix))
      (ih (hu.of_infix (List.suffix_append _ _).isInfix)) (Or.inl (hs.stop h))

/-- A recast script goes on with the same character, or a swap comes next. -/
theorem head?_sources (hs : Orderly swaps) (h : Recast swaps w ps qs)
    (hps : ∀ p ∈ ps, p.IsWhole) (a b : Text) :
    ps = [] ∧ qs = [] ∨ ps ≠ [] ∧ (sources ps ++ a).head? = (sources qs ++ b).head? ∨
      Fresh w ∧ ∃ c, (sources qs ++ b).head? = some c ∧ isIdentPart c = true := by
  cases h with
  | nil => exact Or.inl ⟨rfl, rfl⟩
  | copy p rest =>
    rw [List.forall_mem_cons] at hps
    have hhead (l : List Piece) (t : Text) : (sources (p :: l) ++ t).head? = p.source.head? := by
      rw [sources_cons, List.append_assoc, List.head?_append_of_ne_nil _ hps.1.source_ne_nil]
    exact Or.inr (Or.inl ⟨List.cons_ne_nil _ _, by rw [hhead, hhead]⟩)
  | swap h rest =>
    obtain ⟨c, hc, hident⟩ := hs.start h
    refine Or.inr (Or.inr ⟨hs.fresh h, c, ?_, hident⟩)
    rw [sources_append, List.append_assoc, List.head?_append, hc]
    rfl

end Recast

/-- What follows a piece may be exchanged for something else. -/
def Leads : (p : Piece) → (y z : Text) → Prop
  | .code c, _, z => c = '/' → z.head? ≠ some '/' ∧ z.head? ≠ some '*'
  | .hidden _ (c :: span), y, z => Follows c span y z
  | _, _, _ => True

theorem leads_nil (p : Piece) : Leads p [] [] := by
  cases p with
  | code c => exact fun _ => ⟨nofun, nofun⟩
  | hidden kind span =>
    cases span with
    | nil => trivial
    | cons c span => exact Or.inl rfl
  | _ => trivial

/-- Swaps behind which the scanner goes on as before, with certain pieces behind them all. -/
def Recuts (swaps : (w old new rest : List Piece) → Prop) (tail : List Piece) : Prop :=
  ∀ w w' old new rest, swaps w old new rest → IsCut w (old ++ (rest ++ tail)) →
    SlashesDivide w (old ++ rest) → (∀ p ∈ old ++ rest, p.IsWhole) →
    KeepsMeaning (old.reverse ++ w) (new.reverse ++ w') rest ∧
      ∀ t, IsCut (new.reverse ++ w') t → IsCut w' (new ++ t)

/-- The scanner finds recast pieces where the pieces were found, with other pieces behind them that
are found there. -/
theorem Recast.isCut (hs : Orderly swaps) {w w' x x' a b : List Piece}
    (h : Recast swaps w x x') (hrecuts : Recuts swaps a) (hwhole : ∀ p ∈ x, p.IsWhole)
    (hcut : IsCut w (x ++ a)) (hdivide : SlashesDivide w x) (hkeeps : KeepsMeaning w w' x)
    (hends : ∀ p ∈ x.getLast?, Leads p (sources a) (sources b))
    (hb : IsCut (x'.reverse ++ w') b) : IsCut w' (x' ++ b) := by
  induction h generalizing w' with
  | nil => exact hb
  | @swap w old new ps qs hswap _ ih =>
    rw [List.append_assoc] at hcut ⊢
    obtain ⟨hnext, hnew⟩ := hrecuts w w' old new ps hswap hcut hdivide hwhole
    rw [List.forall_mem_append] at hwhole
    rw [List.reverse_append, List.append_assoc] at hb
    refine hnew _ (ih hwhole.2 (isCut_append hcut) hdivide.append.2 hnext (fun p hp => ?_) hb)
    exact hends p (by rw [List.getLast?_append, hp]; rfl)
  | @copy w p ps qs rest ih =>
    rw [slashesDivide_cons] at hdivide
    rw [List.forall_mem_cons] at hwhole
    rw [List.reverse_cons, List.append_assoc] at hb
    obtain ⟨hspan, hslash, hkeeps⟩ := hkeeps
    have hcut' : IsCut (p :: w) (ps ++ a) := isCut_append (show IsCut w ([p] ++ (ps ++ a)) from hcut)
    have hgoes := ih hwhole.2 hcut' hdivide.2 hkeeps
      (fun q hq => hends q (by rw [List.getLast?_cons, hq]; rfl)) hb
    have hhead := rest.head?_sources hs hwhole.2 (sources a) (sources b)
    simp only [← sources_append] at hhead
    have hleads : ps = [] ∧ qs = [] → Leads p (sources (ps ++ a)) (sources (qs ++ b)) := by
      rintro ⟨rfl, rfl⟩
      exact hends p rfl
    cases hwhole.1 with
    | code c =>
      refine ⟨?_, hgoes⟩
      have hcode := hcut.1
      by_cases hc : c = '/'
      · subst hc
        rw [spanAt?_slash_eq_none_iff] at hcode ⊢
        refine ⟨?_, fun hallowed => absurd hallowed (by simp [hslash rfl])⟩
        rcases hhead with hnil | ⟨-, hsame⟩ | ⟨-, d, hd, hident⟩
        · exact hleads hnil rfl
        · exact hsame ▸ hcode.1
        · have hother {e : Char} (he : isIdentPart e = false) :
              (sources (qs ++ b)).head? ≠ some e := by
            rw [hd]
            rintro heq
            rw [Option.some.inj heq, he] at hident
            cases hident
          exact ⟨hother (by decide), hother (by decide)⟩
      · exact (spanAt?_eq_none_congr hc _ _ _ _).mp hcode
    | @hidden kind c span hk hc =>
      refine ⟨spanAt?_append_of_follows hcut.1 ?_ fun _ => hspan nofun, hgoes⟩
      rcases hhead with hnil | ⟨-, hsame⟩ | ⟨hfresh, -⟩
      · exact hleads hnil
      · exact Or.inl hsame
      · obtain ⟨d, hd, -⟩ := hfresh _ rfl
        cases hd

/-!
## Recasting what is shown
-/

open Pattern

/-- No name reaches out of the end of a text that no name reaches out of. -/
theorem Apart.of_append {x z y : Text} (h : Apart (x ++ z).getLast? y) : Apart z.getLast? y := by
  cases z with
  | nil => exact fun hnames => by cases hnames.1
  | cons c z => rwa [List.getLast?_append_of_ne_nil x (List.cons_ne_nil c z)] at h

/-- A place of what pieces show that does not divide a name lies between two pieces. -/
theorem exists_append_of_assemble {i : Nat} {ps : List Piece} (hw : ∀ p ∈ ps, p.IsWhole)
    {x y : Text} (hapart : Apart x.getLast? y) (h : (Piece.assemble i ps).1 = x ++ y) :
    ∃ us vs, ps = us ++ vs ∧ (Piece.assemble i us).1 = x ∧
      (Piece.assemble (i + (spansOf us).length) vs).1 = y := by
  induction ps generalizing i x with
  | nil =>
    obtain ⟨rfl, rfl⟩ := List.append_eq_nil_iff.mp h.symm
    exact ⟨[], [], rfl, rfl, rfl⟩
  | cons p ps ih =>
    rw [List.forall_mem_cons] at hw
    cases x with
    | nil => exact ⟨[], p :: ps, rfl, rfl, h⟩
    | cons c x =>
      cases hw.1 with
      | code d =>
        rw [Piece.assemble_code] at h
        obtain ⟨rfl, hrest⟩ := List.cons.inj h
        obtain ⟨us, vs, rfl, rfl, hvs⟩ := ih hw.2 (Apart.of_append (x := [d]) hapart) hrest
        exact ⟨.code d :: us, vs, rfl, rfl, hvs⟩
      | @hidden kind d span hk _ =>
        rw [Piece.assemble_hidden] at h
        rcases List.append_eq_append_iff.mp h with ⟨z, hx, hrest⟩ | ⟨z, hmark, hy⟩
        · rw [hx] at hapart
          obtain ⟨us, vs, rfl, rfl, hvs⟩ := ih hw.2 hapart.of_append hrest
          refine ⟨.hidden kind (d :: span) :: us, vs, rfl, by rw [hx, Piece.assemble_hidden], ?_⟩
          rw [spansOf_hidden, List.length_cons, Nat.add_comm (spansOf us).length, ← Nat.add_assoc]
          exact hvs
        · cases z with
          | nil =>
            rw [List.append_nil] at hmark
            refine ⟨[.hidden kind (d :: span)], ps, rfl, ?_, hy.symm⟩
            rw [Piece.assemble_hidden, hmark, Piece.assemble_nil, List.append_nil]
          | cons e z =>
            -- Inside a mark there are characters of names on both sides.
            have hmem : ∀ f ∈ c :: x ++ e :: z, isIdentPart f = true :=
              hmark ▸ fun f => isIdentPart_of_mem_mark hk
            rw [List.forall_mem_append] at hmem
            refine absurd ⟨?_, ?_⟩ hapart
            · rw [List.getLast?_eq_getLast_of_ne_nil (List.cons_ne_nil c x)]
              exact hmem.1 _ (List.getLast_mem _)
            · rw [hy]
              exact hmem.2 e (List.mem_cons_self ..)

/-- Code is spelled out up to a place that does not divide a name. -/
theorem exists_spelled_of_assemble {i : Nat} {ps : List Piece} (hw : ∀ p ∈ ps, p.IsWhole)
    {x y : Text} (hu : Unmarked x) (hapart : Apart x.getLast? y)
    (h : (Piece.assemble i ps).1 = x ++ y) :
    ∃ vs, ps = spelled x ++ vs ∧ (Piece.assemble i vs).1 = y := by
  obtain ⟨us, vs, rfl, hus, hvs⟩ := exists_append_of_assemble hw hapart h
  have hspelled := eq_spelled_of_assemble (fun p hp => hw p (List.mem_append_left vs hp))
    (hus ▸ hu.head : ¬ markHead <:+: (Piece.assemble i us).1)
  rw [hus] at hspelled
  rw [hspelled, spansOf_spelled] at hvs
  exact ⟨vs, by rw [hspelled], hvs⟩

/-- Pieces that show a stretch behind code, up to a place that does not divide a name. -/
theorem exists_enclosed_of_assemble {i : Nat} {ps : List Piece} (hw : ∀ p ∈ ps, p.IsWhole)
    {s x y : Text} (hu : Unmarked s) (hs : Apart s.getLast? (x ++ y)) (hx : Apart x.getLast? y)
    (h : (Piece.assemble i ps).1 = s ++ (x ++ y)) :
    ∃ us vs, ps = spelled s ++ (us ++ vs) ∧ (Piece.assemble i us).1 = x ∧
      (Piece.assemble (i + (spansOf us).length) vs).1 = y := by
  obtain ⟨ts, rfl, hts⟩ := exists_spelled_of_assemble hw hu hs h
  obtain ⟨us, vs, rfl, hus, hvs⟩ :=
    exists_append_of_assemble (fun p hp => hw p (List.mem_append_right _ hp)) hx hts
  exact ⟨us, vs, rfl, hus, hvs⟩

/-- Code that is no part of a name, before what pieces show, is their last piece. -/
theorem fresh_of_assemble {i : Nat} {ps : List Piece} (hw : ∀ p ∈ ps, p.IsWhole)
    {w : List Piece} (hfresh : ps = [] → Fresh w)
    (h : endsIn isIdentPart (Piece.assemble i ps).1 = false) : Fresh (ps.reverse ++ w) := by
  rcases List.eq_nil_or_concat' ps with rfl | ⟨ps, p, rfl⟩
  · exact hfresh rfl
  · have hp := hw p (List.mem_append_right ps (List.mem_singleton_self p))
    rw [assemble_append_fst i fun q hq => hw q (List.mem_append_left _ hq)] at h
    rw [List.reverse_concat]
    rintro q hq
    obtain rfl := Option.some.inj hq
    cases hp with
    | code c =>
      refine ⟨c, rfl, ?_⟩
      simpa [endsIn] using h
    | @hidden kind d span hk _ =>
      have hmark := kind.mark_ne_nil (i + (spansOf ps).length)
      rw [Piece.assemble_hidden, Piece.assemble_nil, List.append_nil, endsIn_append _ hmark,
        endsIn_eq _ hmark, isIdentPart_of_mem_mark hk (List.getLast_mem hmark)] at h
      cases h

/-- A fit that does not divide a name where it starts or ends. -/
structure StandsApart (m : Match) : Prop where
  start : Apart m.before.getLast? (m.text ++ m.after)
  stop : Apart m.text.getLast? m.after

theorem before_append_text {m : Match} (stop : m.start ≤ m.stop)
    (length : m.stop ≤ m.subject.length) : m.before ++ m.text = m.subject.take m.stop := by
  refine List.append_cancel_right (?_ : _ ++ m.after = _)
  rw [List.append_assoc, Match.text, Match.after, Text.slice_append_drop stop length, Match.before,
    List.take_append_drop, List.take_append_drop]

/-- The number of the first hidden span behind pieces that follow others. -/
theorem index_append (i : Nat) (ps qs : List Piece) :
    i + (spansOf (ps ++ qs)).length = i + (spansOf ps).length + (spansOf qs).length := by
  rw [spansOf_append, List.length_append, Nat.add_assoc]

/-- The pieces before a fit, those of the fit and those behind it, where the pieces up to some place
before it are given. -/
theorem exists_pieces_of_fit {m : Match} {pos : Nat} (start : pos ≤ m.start)
    (stop : m.start ≤ m.stop) (length : m.stop ≤ m.subject.length) (hapart : StandsApart m)
    {i : Nat} {ds ps : List Piece} (hds : ∀ q ∈ ds, q.IsWhole) (hps : ∀ q ∈ ps, q.IsWhole)
    (hbefore : (Piece.assemble i ds).1 = m.subject.take pos)
    (hafter : (Piece.assemble (i + (spansOf ds).length) ps).1 = m.subject.drop pos) :
    ∃ us old rest, ps = us ++ (old ++ rest) ∧
      (Piece.assemble (i + (spansOf ds).length) us).1 = m.subject.slice pos m.start ∧
      (Piece.assemble i (ds ++ us)).1 = m.before ∧
      (Piece.assemble (i + (spansOf (ds ++ us)).length) old).1 = m.text ∧
      (Piece.assemble (i + (spansOf (ds ++ us ++ old)).length) rest).1 = m.after := by
  have htake : m.before = m.subject.take pos ++ m.subject.slice pos m.start := by
    refine List.append_cancel_right (?_ : m.before ++ m.subject.drop m.start = _)
    rw [List.append_assoc, Text.slice_append_drop start (stop.trans length), Match.before,
      List.take_append_drop, List.take_append_drop]
  have hdrop : m.subject.drop m.start = m.text ++ m.after :=
    (Text.slice_append_drop stop length).symm
  have hstart := hapart.start
  rw [htake] at hstart
  rw [← Text.slice_append_drop start (stop.trans length), hdrop] at hafter
  obtain ⟨us, vs, rfl, hus, hvs⟩ := exists_append_of_assemble hps hstart.of_append hafter
  rw [List.forall_mem_append] at hps
  obtain ⟨old, rest, rfl, hold, hrest⟩ := exists_append_of_assemble hps.2 hapart.stop hvs
  rw [← index_append i ds us] at hold hrest
  rw [← index_append i (ds ++ us) old] at hrest
  exact ⟨us, old, rest, rfl, hus, by rw [assemble_append_fst i hds, hbefore, hus, htake], hold,
    hrest⟩

/-- Putting texts in place of fits recasts the pieces that show the text, if each fit is shown by
pieces that may be swapped for others, or is kept. -/
theorem exists_recast_of_fits (hs : Orderly swaps) {p : Pattern} {f : Match → Text} {t : Text}
    {pos : Nat} {ms : List Match} (hms : FitsFrom p t pos ms) (hapart : ∀ m ∈ ms, StandsApart m)
    {i : Nat} {w ds ps : List Piece} (hds : ∀ q ∈ ds, q.IsWhole) (hps : ∀ q ∈ ps, q.IsWhole)
    (hf : ∀ m ∈ ms, ∀ us old rest, ds ++ ps = us ++ (old ++ rest) →
      (Piece.assemble i us).1 = m.before →
      (Piece.assemble (i + (spansOf us).length) old).1 = m.text →
      f m = m.text ∨ ∃ new, swaps (us.reverse ++ w) old new rest ∧
        (Piece.assemble (i + (spansOf us).length) new).1 = f m)
    (hbefore : (Piece.assemble i ds).1 = t.take pos)
    (hafter : (Piece.assemble (i + (spansOf ds).length) ps).1 = t.drop pos) :
    ∃ qs, Recast swaps (ds.reverse ++ w) ps qs ∧
      (Piece.assemble (i + (spansOf ds).length) qs).1 = splice t f pos ms := by
  induction hms generalizing ds ps with
  | nil => exact ⟨ps, .refl _ ps, hafter⟩
  | @cons pos m ms subject start stop length runs rest ih =>
    subst subject
    rw [List.forall_mem_cons] at hapart hf
    obtain ⟨us, old, rest, rfl, hus, hshow, hold, hrest⟩ :=
      exists_pieces_of_fit start stop length hapart.1 hds hps hbefore hafter
    rw [List.forall_mem_append, List.forall_mem_append] at hps
    have hdsus : ∀ q ∈ ds ++ us, q.IsWhole := List.forall_mem_append.mpr ⟨hds, hps.1⟩
    have hshow' : (Piece.assemble i (ds ++ us ++ old)).1 = m.subject.take m.stop := by
      rw [assemble_append_fst i hdsus, hshow, hold, before_append_text stop length]
    have hsplit : ds ++ (us ++ (old ++ rest)) = ds ++ us ++ old ++ rest := by
      simp only [List.append_assoc]
    obtain ⟨qs, hqs, hshown⟩ := ih hapart.2 (List.forall_mem_append.mpr ⟨hdsus, hps.2.1⟩) hps.2.2
      (fun m hm as bs cs habs => hf.2 m hm as bs cs (hsplit.trans habs)) hshow' hrest
    have hsplice : splice m.subject f pos (m :: ms) =
        m.subject.slice pos m.start ++ (f m ++ splice m.subject f m.stop ms) := by
      rw [← List.append_assoc]
      rfl
    rw [List.reverse_append, List.append_assoc, List.reverse_append, List.append_assoc] at hqs
    rcases hf.1 (ds ++ us) old rest (List.append_assoc ds us _).symm hshow hold
      with hkept | ⟨new, hswap, hnew⟩
    · refine ⟨us ++ (old ++ qs), .append_left us (.append_left old hqs), ?_⟩
      rw [assemble_append_fst _ hps.1, hus, ← index_append, assemble_append_fst _ hps.2.1, hold,
        ← index_append, hshown, hsplice, hkept]
    · rw [List.reverse_append, List.append_assoc] at hswap
      refine ⟨us ++ (new ++ qs), .append_left us (.swap hswap hqs), ?_⟩
      rw [index_append i (ds ++ us) old, ← hs.spans hswap] at hshown
      rw [assemble_append_fst _ hps.1, hus, ← index_append,
        assemble_append_fst _ (hs.whole hswap hps.2.1), hnew, hshown, hsplice]

/-- Recasting a script whose slashes divide gives a script with the same hidden spans. -/
theorem spans_mask_of_recast (hs : Orderly swaps) (hrecuts : Recuts swaps []) {code : Text}
    {qs : List Piece} (hu : Unmarked code) (hlen : code.length ≤ 10 ^ Number.digitLimit)
    (hdivide : SlashesDivide [] (pieces .all code)) (h : Recast swaps [] (pieces .all code) qs) :
    ∃ out, (mask .all code).restoreText (Piece.assemble 0 qs).1 = .ok out ∧
      (mask .all out).spans = (mask .all code).spans := by
  rw [pieces_all] at h hdivide
  have hwhole : ∀ p ∈ cut [] code, p.IsWhole := fun p => isWhole_of_mem_cut
  have hspans : spansOf qs = spansOf (cut [] code) := h.spansOf_eq hs
  have hunmarked : Unmarked (sources qs) := h.unmarked hs ((sources_cut [] code).symm ▸ hu)
  refine ⟨sources qs, restoreText_assemble (h.isWhole hs hwhole) hspans hunmarked hlen, ?_⟩
  have hcut : IsCut [] (cut [] code ++ []) := by
    rw [List.append_nil]
    exact isCut_cut [] code
  have hrecut : IsCut [] (qs ++ []) :=
    h.isCut hs hrecuts hwhole hcut hdivide (keepsMeaning_of_same (fun _ => rfl) hdivide)
      (fun p _ => leads_nil p) trivial
  rw [List.append_nil, isCut_iff] at hrecut
  rw [mask_eq, mask_eq, pieces_all, pieces_all, hrecut]
  exact hspans

end HostScript.Script
