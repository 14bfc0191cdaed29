import HostScript.Proofs.Script.Collapse
import HostScript.Proofs.Script.Rename
import HostScript.Proofs.Script.FreeName
import HostScript.Proofs.Script.Spans

/-!
# Scanning a renamed script again

A script in which names were renamed is cut into the renamed pieces when it is scanned again. Hidden
spans end where they did. A slash that divided still divides: a name next to it does not change what
a slash means, and the search for the end of a regular expression passes over the characters of
names.
-/

namespace HostScript.Script

/-- What is said of all characters of a text is decided on the text, not on all characters there
are. -/
instance (priority := 1100) decidableForallMem (p : Char → Prop) [DecidablePred p] (t : Text) :
    Decidable (∀ c ∈ t, p c) :=
  List.decidableBAll p t

/-- Whenever no regular expression ends in the first text, none ends in the second. -/
structure RegexLess (s t : Text) : Prop where
  nil : s = [] ↔ t = []
  here : ∀ inClass, regexRest.go inClass s = none → regexRest.go inClass t = none
  /-- The same when the first character is hidden. -/
  next : ∀ inClass, regexRest.go inClass s.tail = none → regexRest.go inClass t.tail = none

namespace RegexLess

theorem refl (t : Text) : RegexLess t t := ⟨Iff.rfl, fun _ => id, fun _ => id⟩

/-- A character may be put before both texts. -/
theorem cons {s t : Text} (h : RegexLess s t) (c : Char) : RegexLess (c :: s) (c :: t) where
  nil := by simp
  here := by
    intro inClass hs
    rw [regexRest_go_cons] at hs ⊢
    by_cases hbreak : c = '\n'
    · rw [if_pos hbreak]
    rw [if_neg hbreak] at hs ⊢
    by_cases hesc : c = '\\'
    · rw [if_pos hesc] at hs ⊢
      by_cases hnil : s = []
      · rw [if_pos (h.nil.mp hnil)]
      · rw [if_neg hnil, Option.map_eq_none_iff] at hs
        rw [if_neg fun ht => hnil (h.nil.mpr ht), Option.map_eq_none_iff]
        exact h.next inClass hs
    rw [if_neg hesc] at hs ⊢
    split_ifs at hs ⊢ with hopen hclose hend
    · rw [Option.map_eq_none_iff] at hs ⊢
      exact h.here true hs
    · rw [Option.map_eq_none_iff] at hs ⊢
      exact h.here false hs
    · rw [Option.map_eq_none_iff] at hs ⊢
      exact h.here inClass hs
  next := h.here

/-- A text may be put before both texts. -/
theorem append_left {s t : Text} (h : RegexLess s t) (x : Text) : RegexLess (x ++ s) (x ++ t) := by
  induction x with
  | nil => exact h
  | cons c x ih => exact ih.cons c

/-- Identifier characters are passed over. -/
theorem go_append_of_isIdentPart {n : Text} (hn : ∀ c ∈ n, isIdentPart c = true) (inClass : Bool)
    (s : Text) : regexRest.go inClass (n ++ s) = none ↔ regexRest.go inClass s = none := by
  induction n with
  | nil => exact Iff.rfl
  | cons c n ih =>
    have hc := hn c (List.mem_cons_self ..)
    have hother {d : Char} (hd : isIdentPart d = false) : c ≠ d := by
      rintro rfl
      rw [hc] at hd
      cases hd
    rw [List.cons_append, regexRest_go_cons, if_neg (hother (by decide)),
      if_neg (hother (by decide)), if_neg (hother (by decide)),
      if_neg (hother (by decide)), if_neg fun h => hother (by decide) h.1,
      Option.map_eq_none_iff, ih fun d hd => hn d (List.mem_cons_of_mem c hd)]

/-- A name may be put before the first text and another before the second. -/
theorem append_names {s t n m : Text} (h : RegexLess s t) (hn : IsName n) (hm : IsName m) :
    RegexLess (n ++ s) (m ++ t) where
  nil := by simp [hn.ne_nil, hm.ne_nil]
  here := by
    intro inClass
    rw [go_append_of_isIdentPart hn.isIdentPart, go_append_of_isIdentPart hm.isIdentPart]
    exact h.here inClass
  next := by
    intro inClass
    rw [List.tail_append_of_ne_nil hn.ne_nil, List.tail_append_of_ne_nil hm.ne_nil,
      go_append_of_isIdentPart fun c hc => hn.isIdentPart c (List.mem_of_mem_tail hc),
      go_append_of_isIdentPart fun c hc => hm.isIdentPart c (List.mem_of_mem_tail hc)]
    exact h.here inClass

end RegexLess

variable {rename : Text → Option Text}

/-- Where no regular expression ends in a script, none ends in it after a renaming. -/
theorem Renamed.regexLess {glued : Bool} {ps qs : List Piece} (hr : IsRenaming rename)
    (h : Renamed rename glued ps qs) : RegexLess (sources ps) (sources qs) := by
  induction h with
  | nil => exact .refl _
  | keep p _ ih =>
    rw [sources_cons, sources_cons]
    exact ih.append_left p.source
  | swap hnm _ _ ih =>
    rw [sources_append, sources_append, sources_spelled, sources_spelled]
    exact ih.append_names (hr.old hnm) (hr.new hnm)

/-- A renaming changes the first character of a script to an identifier character at most. -/
theorem Renamed.head?_sources {glued : Bool} {ps qs : List Piece} (hr : IsRenaming rename)
    (h : Renamed rename glued ps qs) (hw : ∀ p ∈ ps, p.IsWhole) :
    (sources qs).head? = (sources ps).head? ∨
      glued = false ∧ startsIn isIdentPart (sources qs) = true := by
  cases h with
  | nil => exact Or.inl rfl
  | keep p _ =>
    have hne := (hw p (List.mem_cons_self ..)).source_ne_nil
    rw [sources_cons, sources_cons, List.head?_append_of_ne_nil _ hne,
      List.head?_append_of_ne_nil _ hne]
    exact Or.inl rfl
  | swap hnm _ _ =>
    have hm := hr.new hnm
    rw [sources_append, sources_spelled, startsIn_append _ hm.ne_nil]
    exact Or.inr ⟨rfl, hm.isIdentPart _ (List.head_mem hm.ne_nil)⟩

/-- A character that is code stays code after a renaming behind it. -/
theorem spanAt?_eq_none_of_regexLess {before before' : Text} {c : Char} {s t : Text}
    (h : spanAt? before c s = none) (hless : RegexLess s t)
    (hhead : t.head? = s.head? ∨ startsIn isIdentPart t = true)
    (hbefore : regexAllowed before' = regexAllowed before) :
    spanAt? before' c t = none := by
  have hkeep {d : Char} (hd : isIdentPart d = false) (hs : ¬ s.head? = some d) :
      ¬ t.head? = some d := by
    intro ht
    rcases hhead with heq | hstart
    · exact hs (heq ▸ ht)
    · rw [startsIn, ht, Option.any_some, hd] at hstart
      cases hstart
  unfold spanAt? at h ⊢
  split_ifs at h ⊢
  · unfold slashSpan? at h ⊢
    split_ifs at h with hline hblock hallowed
    · rw [if_neg (hkeep (by decide) hline), if_neg (hkeep (by decide) hblock),
        hbefore, if_pos hallowed]
      rw [Option.map_eq_none_iff] at h ⊢
      exact hless.here false h
    · rw [if_neg (hkeep (by decide) hline), if_neg (hkeep (by decide) hblock),
        hbefore, if_neg hallowed]
  · rfl

instance (p : Piece) (c : Char) : Decidable (p = .code c) :=
  match p with
  | .code d => decidable_of_iff (d = c) (by rw [Piece.code.injEq])
  | .shown _ | .hidden _ _ | .inner _ => isFalse nofun

/-- Pieces as they show, up to the numbers in marks. -/
def looks (ps : List Piece) : Text := (ps.map Piece.look).flatten

@[simp] theorem looks_append (ps qs : List Piece) : looks (ps ++ qs) = looks ps ++ looks qs := by
  simp [looks]

@[simp] theorem looks_spelled (n : Text) : looks (spelled n) = n := by
  induction n with
  | nil => rfl
  | cons c n ih => exact congrArg (c :: ·) ih

/-- What is seen of a window in two parts. -/
theorem nearby_append (v w : List Piece) :
    nearby (v ++ w) = looks (w.take (lookBack - v.length)).reverse ++ nearby v := by
  rw [nearby, nearby, List.take_append, List.reverse_append, List.map_append, List.flatten_append,
    looks]

/-- The window as it is seen when a renamed name stands in it. -/
theorem looks_take_spelled {n : Text} (hn : n ≠ []) (v : List Piece) {k : Nat} (hk : 0 < k) :
    n <:+ looks (((spelled n).reverse ++ v).take k).reverse ∨
      looks (((spelled n).reverse ++ v).take k).reverse ≠ [] ∧
        looks (((spelled n).reverse ++ v).take k).reverse <:+ n := by
  have hlen : (spelled n).reverse.length = n.length := by simp [spelled]
  rw [List.take_append, hlen, List.reverse_append, looks_append]
  rcases Nat.le_total n.length k with hle | hle
  · left
    have hall : (spelled n).reverse.take k = (spelled n).reverse :=
      List.take_of_length_le (hlen.symm ▸ hle)
    rw [hall, List.reverse_reverse, looks_spelled]
    exact List.suffix_append _ n
  · right
    have hpart : ((spelled n).reverse.take k).reverse = spelled (n.drop (n.length - k)) := by
      rw [List.take_reverse, List.reverse_reverse, spelled, spelled, List.map_drop, List.length_map]
    rw [Nat.sub_eq_zero_of_le hle, List.take_zero, hpart, looks_spelled]
    refine ⟨?_, ?_⟩
    · have hpos := List.length_pos_of_ne_nil hn
      simp [looks]
      omega
    · simpa [looks] using List.drop_suffix _ n

/-- What is seen of a short window starts with the piece that came first. -/
theorem startsIn_nearby {w : List Piece} (hw : ∀ p ∈ w, p.IsWhole)
    (hend : endsIn Piece.isSolid w = false) (hlen : w.length ≤ lookBack) :
    startsIn isIdentPart (nearby w) = false := by
  induction w using List.reverseRecOn with
  | nil => rfl
  | append_singleton w p _ =>
    rw [nearby, List.take_of_length_le hlen, List.reverse_append]
    have hp : p.isSolid = false := by simpa [endsIn] using hend
    cases hw p (by simp) with
    | code c => simpa [startsIn, Piece.look] using hp
    | hidden span hk _ =>
      rw [Piece.isSolid_hidden hk] at hp
      cases hp

/-- Behind two texts behind which a slash divides, and the same pieces, a slash has the same meaning,
unless a name could reach from the texts into the pieces. -/
theorem Divides.regexAllowed_nearby {n m : Text} (hn : Divides n) (hm : Divides m) (hne : n ≠ [])
    (hme : m ≠ []) {same : List Piece}
    (hstart : same.length ≤ lookBack → startsIn isIdentPart (nearby same) = false)
    (v v' : List Piece) : regexAllowed (nearby (same ++ ((spelled n).reverse ++ v))) =
      regexAllowed (nearby (same ++ ((spelled m).reverse ++ v'))) := by
  rw [nearby_append, nearby_append]
  rcases Nat.eq_zero_or_pos (lookBack - same.length) with hk | hk
  · rw [hk, List.take_zero, List.take_zero]
  by_cases hs : Text.trimEnd (nearby same) = []
  · rw [hn.regexAllowed_eq_false hne (looks_take_spelled hne v hk) hs,
      hm.regexAllowed_eq_false hme (looks_take_spelled hme v' hk) hs]
  · have hno {u : Text} (h : startsIn isIdentPart (nearby same) = true) :
        endsIn isIdentPart u = false ∧ endsIn (· == '.') u = false := by
      rw [hstart (by omega)] at h
      cases h
    rw [regexAllowed_append hs hno, regexAllowed_append hs hno]

/-- Two names behind which a slash has the same meaning wherever nothing that shows as part of a name
touches the first one. -/
def SlashAlike (n m : Text) : Prop :=
  ∀ same v v' : List Piece,
    (same.length ≤ lookBack → startsIn isIdentPart (nearby same) = false) →
    (∀ p ∈ v, p.IsWhole) → startsIn Piece.isSolid v = false →
      regexAllowed (nearby (same ++ ((spelled n).reverse ++ v))) =
        regexAllowed (nearby (same ++ ((spelled m).reverse ++ v')))

/-- Windows before the same pieces of a script and of the renamed script: they are the same, or the
same back to a name that was renamed. -/
def Behind (rename : Text → Option Text) (w w' ps : List Piece) : Prop :=
  w = w' ∨ ∃ same n m v v', rename n = some m ∧ w = same ++ ((spelled n).reverse ++ v) ∧
    w' = same ++ ((spelled m).reverse ++ v') ∧ endsIn Piece.isSolid same = false ∧
      startsIn Piece.isSolid v = false ∧ (same = [] → startsIn Piece.isSolid ps = false)

/-- The next piece may be put into both windows. -/
theorem Behind.cons {w w' ps : List Piece} {p : Piece} (h : Behind rename w w' (p :: ps)) :
    Behind rename (p :: w) (p :: w') ps := by
  rcases h with rfl | ⟨same, n, m, v, v', hnm, rfl, rfl, hend, hv, hstart⟩
  · exact Or.inl rfl
  · refine Or.inr ⟨p :: same, n, m, v, v', hnm, rfl, rfl, ?_, hv, fun h => absurd h (by simp)⟩
    cases same with
    | nil => simpa [endsIn, startsIn] using hstart rfl
    | cons q same =>
      rw [← List.singleton_append, endsIn_append _ (List.cons_ne_nil q same)]
      exact hend

/-- A slash has the same meaning behind both windows. -/
theorem Behind.regexAllowed_nearby {w w' ps : List Piece} (h : Behind rename w w' ps)
    (hd : ∀ {n m : Text}, rename n = some m → SlashAlike n m) (hw : ∀ p ∈ w, p.IsWhole) :
    regexAllowed (nearby w') = regexAllowed (nearby w) := by
  rcases h with rfl | ⟨same, n, m, v, v', hnm, rfl, rfl, hend, hv, -⟩
  · rfl
  -- The piece behind the name is code that is no part of a name.
  refine (hd hnm same v v' (startsIn_nearby (fun p hp => ?_) hend) (fun p hp => ?_) hv).symm
  · exact hw p (List.mem_append_left _ hp)
  · exact hw p (List.mem_append_right _ (List.mem_append_right _ hp))

/-- What a script is cut into goes on as the rest of it is cut. -/
theorem eq_cut_of_append {w ps qs : List Piece} {t : Text} (h : cut w t = ps ++ qs) :
    qs = cut (ps.reverse ++ w) (sources qs) := by
  induction ps generalizing w t with
  | nil =>
    have hsources := sources_cut w t
    rw [h] at hsources
    rw [List.nil_append] at h hsources
    rw [hsources, ← h]
    rfl
  | cons p ps ih =>
    cases t with
    | nil => simp at h
    | cons c rest =>
      rw [cut_cons] at h
      have hstep {v : List Piece} {q : Piece} {r : Text}
          (hq : q :: cut (q :: v) r = p :: ps ++ qs) :
          qs = cut ((p :: ps).reverse ++ v) (sources qs) := by
        obtain ⟨rfl, hr⟩ := List.cons.inj hq
        rw [List.reverse_cons, List.append_assoc]
        exact ih hr
      cases hs : spanAt? (nearby w) c rest with
      | none =>
        rw [hs] at h
        exact hstep h
      | some kn =>
        rw [hs] at h
        exact hstep h

/-- A name is cut into its characters. -/
theorem cut_append_of_isIdentPart {n : Text} (hn : ∀ c ∈ n, isIdentPart c = true)
    (w : List Piece) (t : Text) :
    cut w (n ++ t) = spelled n ++ cut ((spelled n).reverse ++ w) t := by
  induction n generalizing w with
  | nil => rfl
  | cons c n ih =>
    have hc : spanAt? (nearby w) c (n ++ t) = none :=
      spanAt?_eq_none_of_isIdentPart (hn c (List.mem_cons_self ..))
    rw [List.cons_append, cut_of_none hc, ih fun d hd => hn d (List.mem_cons_of_mem c hd)]
    simp [spelled]

/-- A renamed script is cut into the renamed pieces. -/
theorem Renamed.cut_sources {glued : Bool} {ps qs : List Piece} (hr : IsRenaming rename)
    (hd : ∀ {n m : Text}, rename n = some m → SlashAlike n m) (h : Renamed rename glued ps qs)
    {w w' : List Piece} {t : Text} (hcut : cut w t = ps) (hw : ∀ p ∈ w, p.IsWhole)
    (hglued : glued = false → startsIn Piece.isSolid w = false) (hb : Behind rename w w' ps) :
    cut w' (sources qs) = qs := by
  induction h generalizing w w' t with
  | nil => rfl
  | @keep glued p ps qs h ih =>
    have hps : ps = cut ([p].reverse ++ w) (sources ps) := eq_cut_of_append hcut
    rw [List.reverse_singleton, List.singleton_append] at hps
    have hwhole : ∀ q ∈ p :: ps, q.IsWhole := fun q hq => isWhole_of_mem_cut (hcut ▸ hq)
    have hbefore := hb.regexAllowed_nearby hd hw
    have hnext : cut (p :: w') (sources qs) = qs := by
      apply ih hps.symm _ id hb.cons
      rw [List.forall_mem_cons]
      exact ⟨hwhole p (List.mem_cons_self ..), hw⟩
    have hrest : ∀ q ∈ ps, q.IsWhole := fun q hq => hwhole q (List.mem_cons_of_mem p hq)
    cases t with
    | nil => simp at hcut
    | cons c rest =>
      have hsources := sources_cut w (c :: rest)
      rw [hcut] at hsources
      cases hs : spanAt? (nearby w) c rest with
      | none =>
        rw [cut_of_none hs] at hcut
        obtain ⟨rfl, -⟩ := List.cons.inj hcut
        obtain rfl : sources ps = rest := (List.cons.inj hsources).2
        have hcode : spanAt? (nearby w') c (sources qs) = none :=
          spanAt?_eq_none_of_regexLess hs (h.regexLess hr)
            ((h.head?_sources hr hrest).imp_right And.right) hbefore
        rw [sources_cons, Piece.source, List.singleton_append, cut_of_none hcode, hnext]
      | some kn =>
        obtain ⟨kind, k⟩ := kn
        rw [cut_of_some hs] at hcut
        obtain ⟨rfl, -⟩ := List.cons.inj hcut
        have hk := of_spanAt?_eq_some hs
        have hlen : (rest.take k).length = k := List.length_take_of_le (spanAt?_le hs)
        have hhead : (sources ps).head? = (sources qs).head? := by
          rw [Piece.isSolid_hidden hk.1] at h
          rcases h.head?_sources hr hrest with heq | ⟨hfalse, -⟩
          · exact heq.symm
          · cases hfalse
        have hsplit : rest.take k ++ sources ps = rest := (List.cons.inj hsources).2
        have hspan : spanAt? (nearby w) c (rest.take k ++ sources ps) =
            some (kind, (rest.take k).length) := by rw [hsplit, hlen, hs]
        have hspan' := spanAt?_append hspan hhead hbefore
        rw [sources_cons, Piece.source, List.cons_append, cut_of_some hspan', List.take_left,
          List.drop_left, hnext]
  | @swap n m ps qs hnm hps h ih =>
    have hcut' := eq_cut_of_append hcut
    rw [sources_append, sources_spelled, cut_append_of_isIdentPart (hr.new hnm).isIdentPart]
    congr 1
    apply ih hcut'.symm
    · intro p hp
      rcases List.mem_append.mp hp with hp | hp
      · exact isWhole_of_mem_spelled (List.mem_reverse.mp hp)
      · exact hw p hp
    · exact fun htrue => absurd htrue (by simp)
    · exact Or.inr ⟨[], n, m, w, w', hnm, rfl, rfl, rfl, hglued rfl, fun _ => hps⟩

/-- A script in which free names were renamed is cut into the renamed pieces. -/
theorem cut_sources_renameFree (hr : IsRenaming rename)
    (hd : ∀ {n m : Text}, rename n = some m → SlashAlike n m) (code : Text) :
    cut [] (sources (renameFree rename (cut [] code))) = renameFree rename (cut [] code) :=
  (renamed_renameFree hr (cut [] code)).cut_sources hr hd rfl (by simp) (fun _ => rfl) (Or.inl rfl)

end HostScript.Script

/-!
## Names with something put in front

Behind a name a slash divides, unless the name is one of the words behind which a regular expression
may start. Putting a text in front of a name therefore changes the meaning of no slash, if the name
is none of these words and its new neighbour occurs in none of them.
-/

namespace HostScript.Script

/-- A name does not end in white space. -/
theorem IsName.endsIn_isBlank {n : Text} (hn : IsName n) : endsIn isBlank n = false := by
  rw [endsIn_eq _ hn.ne_nil, Bool.eq_false_iff]
  intro hblank
  have hident := isIdentPart_of_isBlank hblank
  rw [hn.isIdentPart _ (List.getLast_mem hn.ne_nil)] at hident
  cases hident

/-- The characters behind which a regular expression may start are none of a name. -/
theorem IsName.endsIn_isRegexPreceder {n : Text} (hn : IsName n) :
    endsIn isRegexPreceder n = false := by
  have hnone : ∀ c ∈ "(,=:[!&|?\x7b\x7d;+-*%<>~^".toList,
      HostScript.isIdentPart c = false := by decide
  rw [endsIn_eq _ hn.ne_nil, Bool.eq_false_iff]
  intro hpreceder
  have hident := hnone _ (List.contains_iff_mem.mp hpreceder)
  rw [hn.isIdentPart _ (List.getLast_mem hn.ne_nil)] at hident
  cases hident

/-- A text with a name at its end ends in a word only if the name is the word and stands on its own,
or if the word reaches over the start of the name. -/
theorem EndsInWord.of_append_name {u n : Text} (hn : IsName n) (h : EndsInWord (u ++ n)) :
    (n ∈ regexWords ∧ endsIn isIdentPart u = false) ∨
      ∃ c ∈ u.getLast?, isIdentPart c = true ∧ ∃ w ∈ regexWords, c ∈ w := by
  obtain ⟨w, hw, x, hxw, hident, -⟩ := h
  rcases List.append_eq_append_iff.mp hxw with ⟨x', rfl, rfl⟩ | ⟨w', rfl, rfl⟩
  · cases x' with
    | nil =>
      rw [List.append_nil] at hident
      exact Or.inl ⟨hw, hident⟩
    | cons c x' =>
      -- What stands before the word belongs to the name.
      have hne := List.cons_ne_nil c x'
      rw [endsIn_append _ hne, endsIn_eq _ hne,
        hn.isIdentPart _ (List.mem_append_left w (List.getLast_mem hne))] at hident
      cases hident
  · cases w' with
    | nil =>
      rw [List.append_nil]
      exact Or.inl ⟨hw, hident⟩
    | cons c w' =>
      have hne := List.cons_ne_nil c w'
      have hmem : (c :: w').getLast hne ∈ c :: w' ++ n :=
        List.mem_append_left n (List.getLast_mem hne)
      refine Or.inr ⟨(c :: w').getLast hne, ?_, ?_, _, hw, hmem⟩
      · rw [List.getLast?_append_of_ne_nil x hne, List.getLast?_eq_getLast_of_ne_nil hne]
        rfl
      · exact (isName_of_mem_regexWords hw).isIdentPart _ hmem

/-- Behind a name a slash divides, if the name does not make up a word and what stands before it is
no part of one. -/
theorem regexAllowed_append_name {u n s : Text} (hn : IsName n)
    (hword : n ∈ regexWords → endsIn isIdentPart u = true)
    (hlast : ∀ c ∈ u.getLast?, isIdentPart c = true → ∀ w ∈ regexWords, c ∉ w)
    (hs : Text.trimEnd s = []) : regexAllowed (u ++ n ++ s) = false := by
  have htrim : Text.trimEnd (u ++ n ++ s) = u ++ n := by
    rw [Text.trimEnd_append, if_pos hs]
    exact trimEnd_eq_self (by rw [endsIn_append _ hn.ne_nil, hn.endsIn_isBlank])
  rw [Bool.eq_false_iff, ne_eq, regexAllowed_iff, htrim]
  rintro (hnil | hpreceder | hends)
  · exact hn.ne_nil (List.append_eq_nil_iff.mp hnil).2
  · rw [endsIn_append _ hn.ne_nil, hn.endsIn_isRegexPreceder] at hpreceder
    cases hpreceder
  · rcases hends.of_append_name hn with ⟨hmem, hident⟩ | ⟨c, hc, hident, w, hw, hcw⟩
    · rw [hword hmem] at hident
      cases hident
    · exact hlast c hc hident w hw hcw

/-- Pieces of code and hidden spans end in a character of a name exactly where they show as part of
one. -/
theorem endsIn_looks_reverse {v : List Piece} (hw : ∀ p ∈ v, p.IsWhole)
    (hv : startsIn Piece.isSolid v = false) : endsIn isIdentPart (looks v.reverse) = false := by
  cases v with
  | nil => rfl
  | cons p v =>
    have hp : p.isSolid = false := hv
    cases hw p (List.mem_cons_self ..) with
    | code c =>
      rw [List.reverse_cons, looks_append]
      simpa [looks, endsIn, Piece.look] using hp
    | hidden span hk _ =>
      rw [Piece.isSolid_hidden hk] at hp
      cases hp

/-- Behind a name, and behind the name with a text in front that fits into no word, a slash has the
same meaning. -/
theorem slashAlike_append {g n : Text} (hg : IsName g)
    (hlast : ∀ c ∈ g.getLast?, ∀ w ∈ regexWords, c ∉ w) (hn : IsName n) (hword : n ∉ regexWords) :
    SlashAlike n (g ++ n) := by
  intro same v v' hstart hw hv
  rw [nearby_append, nearby_append]
  rcases Nat.eq_zero_or_pos (lookBack - same.length) with hk | hk
  · rw [hk, List.take_zero, List.take_zero]
  have hno {u : Text} (h : startsIn isIdentPart (nearby same) = true) :
      endsIn isIdentPart u = false ∧ endsIn (· == '.') u = false := by
    rw [hstart (by omega)] at h
    cases h
  by_cases hs : Text.trimEnd (nearby same) = []
  · have hsplit : (spelled (g ++ n)).reverse ++ v' =
        (spelled n).reverse ++ ((spelled g).reverse ++ v') := by
      rw [spelled_append, List.reverse_append, List.append_assoc]
    have hlen : (spelled n).reverse.length = n.length := by simp [spelled]
    rw [hsplit]
    generalize lookBack - same.length = k
    by_cases hshort : k ≤ n.length
    · -- Only the end of the name is seen.
      rw [List.take_append_of_le_length (hshort.trans_eq hlen.symm),
        List.take_append_of_le_length (hshort.trans_eq hlen.symm)]
    have hmore : 0 < k - n.length := by omega
    have hall : (spelled n).reverse.take k = (spelled n).reverse :=
      List.take_of_length_le (by omega)
    have hseen (u : List Piece) : looks (((spelled n).reverse ++ u).take k).reverse =
        looks (u.take (k - n.length)).reverse ++ n := by
      rw [List.take_append, hall, hlen, List.reverse_append, List.reverse_reverse, looks_append,
        looks_spelled]
    have hfirst : startsIn Piece.isSolid (v.take (k - n.length)) = false := by
      rw [startsIn, List.head?_take, if_neg hmore.ne']
      exact hv
    have hends := endsIn_looks_reverse (fun p hp => hw p (List.mem_of_mem_take hp)) hfirst
    have hend : (looks (((spelled g).reverse ++ v').take (k - n.length)).reverse).getLast? =
        g.getLast? := by
      rcases looks_take_spelled hg.ne_nil v' hmore with ⟨x, hx⟩ | ⟨hne, x, hx⟩
      · rw [← hx, List.getLast?_append_of_ne_nil x hg.ne_nil]
      · rw [← List.getLast?_append_of_ne_nil x hne, hx]
    rw [hseen, hseen, regexAllowed_append_name hn (absurd · hword) ?_ hs,
      regexAllowed_append_name hn (absurd · hword) ?_ hs]
    · rw [hend]
      exact fun c hc _ => hlast c hc
    · intro c hc hident
      rw [endsIn, Option.mem_def.mp hc, Option.any_some, hident] at hends
      cases hends
  · rw [regexAllowed_append hs hno, regexAllowed_append hs hno]

end HostScript.Script
