import HostScript.Proofs.Numeral
import HostScript.Proofs.Outcome
import HostScript.Proofs.Script.Layout
import HostScript.Proofs.Script.Rescan
import HostScript.Proofs.Script.Spans

/-!
# Scripts without their comments

A comment that is dropped leaves a line break or a space. No script becomes longer by that, and as
neither can be part of a mark, a script without marks stays without them.

What is left has no comments exactly if dropping comments again changes nothing. It is cut into the
same literals and the same code exactly if no slash of the code comes to start a regular expression.
A comment right before a slash can bring that about, since its mark passes for a name, behind which
a slash divides.
-/

namespace HostScript.Script

variable {ps : List Piece}

/-- Swapping a stretch for a single space or line break. -/
def BlanksOut (_ new : Text) : Prop := new = [' '] ∨ new = ['\n']

theorem BlanksOut.isInert {old new : Text} (h : BlanksOut old new) : IsInert new := by
  rcases h with rfl | rfl
  · exact IsInert.of_all (List.cons_ne_nil _ _) (by decide)
  · exact IsInert.of_all (List.cons_ne_nil _ _) (by decide)

/-- A piece is kept, or it is a comment and a space or line break is left of it. -/
theorem left_eq_or (p : Piece) : p.left true = p.source ∨ BlanksOut p.source (p.left true) := by
  cases p with
  | hidden kind span =>
    rw [Piece.left, Bool.true_and]
    split
    · split
      · exact Or.inr (Or.inr rfl)
      · exact Or.inr (Or.inl rfl)
    · exact Or.inl rfl
  | _ => exact Or.inl rfl

theorem length_left_le {p : Piece} (hne : p.source ≠ []) :
    (p.left true).length ≤ p.source.length := by
  rcases left_eq_or p with h | h | h
  · exact Nat.le_of_eq (congrArg List.length h)
  · exact h ▸ List.length_pos_of_ne_nil hne
  · exact h ▸ List.length_pos_of_ne_nil hne

/-- Dropping comments makes no script longer. -/
theorem length_flatMap_left_le (hne : ∀ p ∈ ps, p.source ≠ []) :
    (ps.flatMap (Piece.left true)).length ≤ (sources ps).length := by
  induction ps with
  | nil => exact Nat.le_refl 0
  | cons p ps ih =>
    rw [List.forall_mem_cons] at hne
    rw [List.flatMap_cons, sources_cons, List.length_append, List.length_append]
    exact Nat.add_le_add (length_left_le hne.1) (ih hne.2)

/-- Dropping comments swaps stretches of a script for single blanks. -/
theorem rewrites_flatMap_left (ps : List Piece) :
    Rewrites (Respells BlanksOut) (spelled (sources ps))
      (spelled (ps.flatMap (Piece.left true))) := by
  induction ps with
  | nil => exact .nil
  | cons p ps ih =>
    rw [sources_cons, List.flatMap_cons, spelled_append, spelled_append]
    rcases left_eq_or p with h | h
    · rw [h]
      exact ih.append_left _
    · exact .swap ⟨_, _, h, rfl, rfl⟩ ih

theorem unmarked_flatMap_left (hu : Unmarked (sources ps)) :
    Unmarked (ps.flatMap (Piece.left true)) := by
  have h := (rewrites_flatMap_left ps).unmarked (fun _ _ h => h.isInert)
    (by rwa [sources_spelled])
  rwa [sources_spelled] at h

/-- The script that is left when comments are dropped. -/
theorem stripComments_eq {code : Text} (hu : Unmarked code)
    (hlen : code.length ≤ 10 ^ Number.digitLimit) :
    stripComments code = .ok ((cut [] code).flatMap (Piece.left true)) := by
  have hcount := length_spansOf_cut_le code
  rw [stripComments, Masked.restoreDropping, mask_eq, pieces_all]
  refine Masked.fillAll_assemble_left (fun p hp => (isWhole_of_mem_cut hp).isFlat) ?_ ?_ ?_
  · rwa [sources_cut]
  · exact List.prefix_rfl
  · exact (Nat.zero_add _).trans_le (hcount.trans hlen)

/-- Dropping the comments of a script without marks gives a script without marks that is not
longer. -/
theorem exists_stripComments_eq {code : Text} (hu : Unmarked code)
    (hlen : code.length ≤ 10 ^ Number.digitLimit) :
    ∃ s, stripComments code = .ok s ∧ s.length ≤ code.length ∧ Unmarked s := by
  refine ⟨_, stripComments_eq hu hlen, ?_, unmarked_flatMap_left (by rwa [sources_cut])⟩
  have h := length_flatMap_left_le fun p (hp : p ∈ cut [] code) =>
    (isWhole_of_mem_cut hp).source_ne_nil
  rwa [sources_cut] at h

/-!
## Scanning again
-/

/-- A piece with a blank in place of a comment. -/
def Piece.bare : Piece → Piece
  | .hidden .comment span => .code (if span.contains '\n' then '\n' else ' ')
  | p => p

@[simp] theorem Piece.bare_code (c : Char) : (Piece.code c).bare = .code c := rfl

theorem Piece.bare_of_ne {kind : SpanKind} (hk : kind ≠ .comment) (span : Text) :
    (Piece.hidden kind span).bare = .hidden kind span := by
  cases kind with
  | comment => exact absurd rfl hk
  | _ => rfl

/-- A bare comment is one blank. -/
theorem Piece.exists_bare_comment (span : Text) :
    ∃ b, (b = ' ' ∨ b = '\n') ∧ (Piece.hidden .comment span).bare = .code b := by
  rw [bare]
  split
  · exact ⟨_, Or.inr rfl, rfl⟩
  · exact ⟨_, Or.inl rfl, rfl⟩

/-- Bare pieces stand for what is left of pieces. -/
theorem sources_map_bare (ps : List Piece) :
    sources (ps.map Piece.bare) = ps.flatMap (Piece.left true) := by
  have hbare (p : Piece) : p.bare.source = p.left true := by
    cases p with
    | hidden kind span =>
      cases kind with
      | comment =>
        rw [Piece.bare, Piece.source, Piece.left]
        cases span.contains '\n' <;> rfl
      | _ => rfl
    | _ => rfl
  rw [sources, List.flatMap_map]
  exact List.flatMap_congr fun p _ => hbare p

/-- The mark of a literal or comment ends in an underscore. -/
theorem getLast?_look_hidden {kind : SpanKind} (hk : kind ≠ .chunk) (span : Text) :
    (Piece.hidden kind span).look.getLast? = some '_' := by
  have hstop : kind.markStop = ['_', '_'] := by
    cases kind with
    | chunk => exact absurd rfl hk
    | _ => rfl
  rw [Piece.look, SpanKind.mark, hstop, List.getLast?_append]
  rfl

section window

variable {v w : List Piece} (hv : ∀ p ∈ v, p.IsWhole)
include hv

/-- What a window shows at its end, without underscores, is code. -/
theorem exists_eq_append_spelled {x n : Text} (hn : '_' ∉ n) (h : looks v = x ++ n) :
    ∃ u, v = u ++ spelled n ∧ looks u = x := by
  induction n using List.reverseRecOn generalizing v with
  | nil => exact ⟨v, (List.append_nil v).symm, h.trans (List.append_nil x)⟩
  | append_singleton n c ih =>
    rw [List.mem_append, List.mem_singleton, not_or] at hn
    rw [← List.append_assoc] at h
    rcases List.eq_nil_or_concat' v with rfl | ⟨v, p, rfl⟩
    · exact absurd h.symm (by simp [looks])
    · rw [List.forall_mem_append] at hv
      rw [looks_append] at h
      cases hv.2 p (List.mem_singleton_self p) with
      | code d =>
        obtain ⟨hx, hd⟩ := List.append_inj' h rfl
        obtain ⟨u, rfl, hu⟩ := ih hv.1 hn.1 hx
        obtain rfl : d = c := List.singleton_inj.mp hd
        exact ⟨u, by rw [spelled_append, List.append_assoc]; rfl, hu⟩
      | @hidden kind d span hk hc =>
        have hlast := congrArg List.getLast? h
        have hlook : looks [Piece.hidden kind (d :: span)] = (Piece.hidden kind (d :: span)).look :=
          List.flatten_singleton
        rw [hlook, List.getLast?_append, getLast?_look_hidden hk, List.getLast?_concat] at hlast
        exact absurd (Option.some.inj hlast) hn.2

/-- A window that shows no part of a name at its end shows the same character there when it is
bare. -/
theorem getLast?_looks_bare (h : endsIn isIdentPart (looks v) = false) :
    (looks (v.map Piece.bare)).getLast? = (looks v).getLast? := by
  rcases List.eq_nil_or_concat' v with rfl | ⟨v, p, rfl⟩
  · rfl
  · have hp := hv p (List.mem_append_right v (List.mem_singleton_self p))
    rw [looks_append] at h ⊢
    rw [List.map_append, looks_append]
    have hone (q : Piece) : looks [q] = q.look := List.flatten_singleton
    cases hp with
    | code c =>
      rw [List.map_singleton, Piece.bare_code, hone, List.getLast?_append, List.getLast?_append]
      rfl
    | @hidden kind d span hk hc =>
      rw [hone, endsIn, List.getLast?_append, getLast?_look_hidden hk] at h
      cases h

/-- Where a regular expression may start, it may start when comments are blanks. -/
theorem regexAllowed_looks_bare (h : regexAllowed (looks v) = true) :
    regexAllowed (looks (v.map Piece.bare)) = true := by
  induction v using List.reverseRecOn with
  | nil => exact h
  | append_singleton v p ih =>
    have hone (q : Piece) : looks [q] = q.look := List.flatten_singleton
    have hvp := hv
    rw [List.forall_mem_append] at hv
    rw [looks_append, hone] at h
    cases hv.2 p (List.mem_singleton_self p) with
    | code c =>
      rw [List.map_append, looks_append, List.map_singleton, Piece.bare_code, hone]
      by_cases hc : isBlank c = true
      · have htrim (t : Text) : regexAllowed (t ++ (Piece.code c).look) = regexAllowed t := by
          have hblank : Text.trimEnd [c] = [] := by simp [Text.trimEnd, Text.trimEndOf, hc]
          rw [regexAllowed, Piece.look, Text.trimEnd_append, if_pos hblank]
          rfl
        rw [htrim] at h ⊢
        exact ih hv.1 h
      · have hsolid (t : Text) : Text.trimEnd (t ++ [c]) = t ++ [c] :=
          trimEnd_eq_self (by simpa [endsIn] using hc)
        rw [Piece.look] at h ⊢
        rw [regexAllowed_iff, hsolid] at h ⊢
        rcases h with hnil | hpreceder | ⟨n, hn, x, hx, hident, hdot⟩
        · exact absurd hnil (List.append_ne_nil_of_right_ne_nil _ (List.cons_ne_nil c []))
        · rw [endsIn_append _ (List.cons_ne_nil c [])] at hpreceder ⊢
          exact Or.inr (Or.inl hpreceder)
        · have hunder : ∀ n ∈ regexWords, '_' ∉ n := by decide
          have hlooks : looks (v ++ [.code c]) = x ++ n := by rw [looks_append, hone, ← hx, Piece.look]
          obtain ⟨u, hu, rfl⟩ := exists_eq_append_spelled hvp (hunder n hn) hlooks
          have hbare : (spelled n).map Piece.bare = spelled n := by simp [spelled]
          have hu' : looks (v.map Piece.bare) ++ [c] = looks (u.map Piece.bare) ++ n := by
            have hmap := congrArg (fun l => looks (l.map Piece.bare)) hu
            simpa [hbare, hone, Piece.look] using hmap
          have hlast := getLast?_looks_bare
            (fun p hp => hvp p (hu ▸ List.mem_append_left _ hp)) hident
          refine Or.inr (Or.inr ⟨n, hn, _, hu', ?_, ?_⟩)
          · rw [endsIn, hlast, ← endsIn, hident]
          · rw [endsIn, hlast, ← endsIn, hdot]
    | @hidden kind d span hk hc =>
      -- Behind the mark of a span a slash divides.
      have hlast := getLast?_look_hidden hk (d :: span)
      have hend (f : Char → Bool) (t : Text) :
          endsIn f (t ++ (Piece.hidden kind (d :: span)).look) = f '_' := by
        rw [endsIn, List.getLast?_append, hlast]
        rfl
      rw [regexAllowed_iff, trimEnd_eq_self ((hend _ _).trans (by decide)), hend] at h
      rcases h with hnil | hpreceder | ⟨n, hn, x, hx, -, -⟩
      · rw [List.append_eq_nil_iff] at hnil
        rw [hnil.2] at hlast
        cases hlast
      · exact absurd hpreceder (by decide)
      · have hends : ∀ n ∈ regexWords, n ≠ [] ∧ n.getLast? ≠ some '_' := by decide
        have hword := congrArg List.getLast? hx
        rw [List.getLast?_append, hlast, List.getLast?_append_of_ne_nil _ (hends n hn).1] at hword
        exact absurd hword.symm (hends n hn).2

end window

/-- Where a regular expression may start behind a window, it may start behind the bare window. -/
theorem regexAllowed_nearby_bare {w : List Piece} (hw : ∀ p ∈ w, p.IsWhole)
    (h : regexAllowed (nearby w) = true) : regexAllowed (nearby (w.map Piece.bare)) = true := by
  have hbare : nearby (w.map Piece.bare) = looks ((w.take lookBack).reverse.map Piece.bare) := by
    rw [nearby, looks, ← List.map_take, ← List.map_reverse]
  rw [hbare]
  exact regexAllowed_looks_bare
    (fun p hp => hw p (List.mem_of_mem_take (List.mem_reverse.mp hp))) h

/-- Behind a window, when comments are blanks, no slash of the code starts a regular expression. -/
def KeepsSlashes (w ps : List Piece) : Prop :=
  ∀ before after, ps = before ++ .code '/' :: after →
    regexAllowed (nearby ((before.reverse ++ w).map Piece.bare)) = true →
      regexRest (sources (after.map Piece.bare)) = none

theorem keepsSlashes_cons {w ps : List Piece} {p : Piece} :
    KeepsSlashes w (p :: ps) ↔
      (p = .code '/' → regexAllowed (nearby (w.map Piece.bare)) = true →
        regexRest (sources (ps.map Piece.bare)) = none) ∧ KeepsSlashes (p :: w) ps := by
  constructor
  · intro h
    refine ⟨fun hp => h [] ps (by rw [hp]; rfl), fun before after hps => ?_⟩
    have hstep := h (p :: before) after (by rw [hps]; rfl)
    rwa [List.reverse_cons, List.append_assoc] at hstep
  · rintro ⟨hhead, hrest⟩ before after hps
    cases before with
    | nil =>
      obtain ⟨rfl, rfl⟩ := List.cons.inj hps
      exact hhead rfl
    | cons q before =>
      obtain ⟨rfl, rfl⟩ := List.cons.inj hps
      rw [List.reverse_cons, List.append_assoc]
      exact hrest before after rfl

/-- Whether slashes still divide can be looked up slash by slash. -/
instance decidableKeepsSlashes : (w ps : List Piece) → Decidable (KeepsSlashes w ps)
  | w, [] => isTrue fun before after hnil => absurd hnil.symm (by simp)
  | w, p :: ps =>
    have := decidableKeepsSlashes (p :: w) ps
    decidable_of_iff _ keepsSlashes_cons.symm

/-- A script and the same script with blanks in place of its comments go on with the same character,
unless a comment comes next. -/
theorem head?_sources_bare {w ps : List Piece} (h : IsCut w ps) :
    (sources ps).head? = (sources (ps.map Piece.bare)).head? ∨
      (sources ps).head? = some '/' ∧
        ((sources (ps.map Piece.bare)).head? = some ' ' ∨
          (sources (ps.map Piece.bare)).head? = some '\n') := by
  match ps, h with
  | [], _ => exact Or.inl rfl
  | .code c :: ps, _ => exact Or.inl rfl
  | .hidden kind (c :: span) :: ps, ⟨hspan, _⟩ =>
    by_cases hk : kind = .comment
    · subst hk
      obtain ⟨b, hb, hbare⟩ := Piece.exists_bare_comment (c :: span)
      obtain ⟨rfl, -⟩ := of_spanAt?_eq_comment hspan
      rw [List.map_cons, hbare]
      exact Or.inr ⟨rfl, hb.imp (congrArg some) (congrArg some)⟩
    · rw [List.map_cons, Piece.bare_of_ne hk]
      exact Or.inl rfl

/-- Bare pieces are found again behind a bare window exactly if the slashes between them still
divide. -/
theorem isCut_map_bare_iff {w ps : List Piece} (hw : ∀ p ∈ w, p.IsWhole)
    (hps : ∀ p ∈ ps, p.IsWhole) (h : IsCut w ps) :
    IsCut (w.map Piece.bare) (ps.map Piece.bare) ↔ KeepsSlashes w ps := by
  induction ps generalizing w with
  | nil => exact iff_of_true trivial fun before after hnil => absurd hnil.symm (by simp)
  | cons p ps ih =>
    have hrest : IsCut (p :: w) ps := isCut_append (show IsCut w ([p] ++ ps) from h)
    rw [List.forall_mem_cons] at hps
    have hsame := ih (List.forall_mem_cons.mpr ⟨hps.1, hw⟩) hps.2 hrest
    rw [List.map_cons] at hsame
    have hnext := head?_sources_bare hrest
    rw [keepsSlashes_cons, List.map_cons]
    match p, h with
    | .code c, ⟨hcode, _⟩ =>
      rw [Piece.bare_code] at hsame ⊢
      rw [isCut_code, hsame]
      refine and_congr_left fun _ => ?_
      by_cases hc : c = '/'
      · subst hc
        rw [spanAt?_slash_eq_none_iff] at hcode ⊢
        have hdivides : (sources (ps.map Piece.bare)).head? ≠ some '/' ∧
            (sources (ps.map Piece.bare)).head? ≠ some '*' := by
          rcases hnext with hnext | ⟨hcomment, -⟩
          · exact hnext ▸ hcode.1
          · exact absurd hcomment hcode.1.1
        exact ⟨fun hslash _ => hslash.2, fun hslash => ⟨hdivides, hslash rfl⟩⟩
      · have hnone := (spanAt?_eq_none_congr hc _ (nearby (w.map Piece.bare)) _
          (sources (ps.map Piece.bare))).mp hcode
        exact iff_of_true hnone fun hslash => absurd (Piece.code.inj hslash) hc
    | .hidden kind (c :: span), ⟨hspan, _⟩ =>
      by_cases hk : kind = .comment
      · subst hk
        obtain ⟨b, hb, hbare⟩ := Piece.exists_bare_comment (c :: span)
        rw [hbare] at hsame ⊢
        rw [isCut_code, hsame]
        have hnone : spanAt? (nearby (w.map Piece.bare)) b (sources (ps.map Piece.bare)) = none := by
          rcases hb with rfl | rfl <;> rfl
        exact and_congr_left fun _ => iff_of_true hnone nofun
      · rw [Piece.bare_of_ne hk] at hsame ⊢
        rw [isCut_hidden, hsame]
        refine and_congr_left fun _ => iff_of_true ?_ nofun
        refine spanAt?_append_of_follows hspan ?_ fun _ => regexAllowed_nearby_bare hw
        -- A comment that comes next starts with a slash, and a blank stands there without it.
        rcases hnext with hnext | ⟨hcomment, hblank⟩
        · exact Or.inl hnext
        · refine Or.inr ⟨?_, ?_, ?_⟩
          · rintro hnil
            rw [hnil] at hcomment
            cases hcomment
          · rcases hblank with hblank | hblank <;> simp [hblank] <;> decide
          · rintro rfl hline
            obtain ⟨span, rfl⟩ := List.head?_eq_some_iff.mp hline
            exact absurd (congrArg Prod.fst (Option.some.inj hspan)).symm hk

/-- A comment covers two slashes at least, or a slash and an asterisk. -/
theorem two_le_length_of_isCut {w ps : List Piece} (h : IsCut w ps) {span : Text}
    (hmem : .hidden .comment span ∈ ps) : 2 ≤ span.length := by
  obtain ⟨before, after, rfl⟩ := List.append_of_mem hmem
  match span, isCut_append h with
  | c :: span, ⟨hspan, _⟩ =>
    obtain ⟨rfl, -⟩ := of_spanAt?_eq_comment hspan
    have hpos : 0 < span.length := slashSpan?_pos hspan
    rw [List.length_cons]
    omega

/-- What is left of pieces is what they stand for if there are no comments among them, and something
shorter otherwise. -/
theorem flatMap_left_eq_sources_iff {w : List Piece} (hps : ∀ p ∈ ps, p.IsWhole)
    (h : IsCut w ps) :
    ps.flatMap (Piece.left true) = sources ps ↔ ∀ span, .hidden .comment span ∉ ps := by
  constructor
  · intro hsame span hmem
    have hlong := two_le_length_of_isCut h hmem
    have hne (p : Piece) (hp : p ∈ ps) : p.source ≠ [] := (hps p hp).source_ne_nil
    obtain ⟨before, after, rfl⟩ := List.append_of_mem hmem
    have hbefore := length_flatMap_left_le fun p hp => hne p (List.mem_append_left _ hp)
    have hafter := length_flatMap_left_le fun p hp =>
      hne p (List.mem_append_right before (List.mem_cons_of_mem _ hp))
    have hone : ((Piece.hidden .comment span).left true).length = 1 := by
      rw [Piece.left]
      cases span.contains '\n' <;> rfl
    have hlen := congrArg List.length hsame
    rw [List.flatMap_append, List.flatMap_cons, sources_append, sources_cons, Piece.source] at hlen
    simp only [List.length_append] at hlen
    omega
  · intro hnone
    refine List.flatMap_congr fun p hp => ?_
    cases p with
    | hidden kind span =>
      cases kind with
      | comment => exact absurd hp (hnone span)
      | _ => rfl
    | _ => rfl

/-- Dropping the comments of what is left of a script changes nothing exactly if no comment is found
there. The rest of the script is found there piece by piece exactly if no slash of its code comes to
start a regular expression, and then no comment is. -/
theorem stripComments_again {code : Text} (hu : Unmarked code)
    (hlen : code.length ≤ 10 ^ Number.digitLimit) :
    ∃ s, stripComments code = .ok s ∧
      (stripComments s = .ok s ↔ ∀ span, .hidden .comment span ∉ pieces .all s) ∧
      (pieces .all s = (pieces .all code).map Piece.bare ↔
        KeepsSlashes [] (pieces .all code)) ∧
      (KeepsSlashes [] (pieces .all code) →
        (∀ span, .hidden .comment span ∉ pieces .all s) ∧ stripComments s = .ok s) := by
  obtain ⟨s, hs, hshort, hsu⟩ := exists_stripComments_eq hu hlen
  have hwhole (p : Piece) (hp : p ∈ cut [] code) : p.IsWhole := isWhole_of_mem_cut hp
  have hbare : s = sources ((cut [] code).map Piece.bare) := by
    rw [sources_map_bare]
    exact Except.ok.inj (hs.symm.trans (stripComments_eq hu hlen))
  have hpieces : pieces .all s = (pieces .all code).map Piece.bare ↔
      KeepsSlashes [] (pieces .all code) := by
    rw [pieces_all, pieces_all, ← isCut_map_bare_iff (by simp) hwhole (isCut_cut [] code),
      isCut_iff, ← hbare, List.map_nil]
  have hagain : stripComments s = .ok s ↔ ∀ span, .hidden .comment span ∉ pieces .all s := by
    rw [pieces_all, ← flatMap_left_eq_sources_iff (fun _ hp => isWhole_of_mem_cut hp)
      (isCut_cut [] s), sources_cut, stripComments_eq hsu (hshort.trans hlen), Except.ok.injEq]
  have hclean (hkeeps : KeepsSlashes [] (pieces .all code)) (span : Text) :
      .hidden .comment span ∉ pieces .all s := by
    rw [hpieces.mpr hkeeps, List.mem_map]
    rintro ⟨p, -, hp⟩
    cases p with
    | hidden kind span' =>
      by_cases hk : kind = .comment
      · subst hk
        obtain ⟨b, -, hb⟩ := Piece.exists_bare_comment span'
        rw [hb] at hp
        cases hp
      · rw [Piece.bare_of_ne hk] at hp
        cases hp
        exact hk rfl
    | _ => cases hp
  exact ⟨s, hs, hagain, hpieces, fun hkeeps => ⟨hclean hkeeps, hagain.mpr (hclean hkeeps)⟩⟩

/-- A script whose first comment stands before a slash that divides, while its second holds a
quote. -/
def dividedQuote : Text := "a /* x */ / b; // \"\nc = /[/*]/;"

/-- The comments go for good. -/
theorem stripComments_again_dividedQuote :
    (Unmarked dividedQuote ∧ dividedQuote.length ≤ 10 ^ Number.digitLimit ∧
      KeepsSlashes [] (pieces .all dividedQuote)) ∧
      ∃ s, s = "a   / b;  \nc = /[/*]/;".toList ∧ stripComments dividedQuote = .ok s ∧
        (∀ span, .hidden .comment span ∉ pieces .all s) ∧ stripComments s = .ok s := by
  have hu : Unmarked dividedQuote := ⟨by decide, by decide⟩
  have hlen : dividedQuote.length ≤ 10 ^ Number.digitLimit :=
    le_pow_digitLimit (by decide)
  have hkeeps : KeepsSlashes [] (pieces .all dividedQuote) := by decide +kernel
  have hleft : stripComments dividedQuote = .ok "a   / b;  \nc = /[/*]/;".toList :=
    Outcome.toOption_eq_some_iff.mp (by decide +kernel)
  obtain ⟨s, hs, -, -, hagain⟩ := stripComments_again hu hlen
  obtain rfl := Except.ok.inj (hs.symm.trans hleft)
  exact ⟨⟨hu, hlen, hkeeps⟩, _, rfl, hs, hagain hkeeps⟩

/-- A slash behind a comment passes for a division and comes to start a regular expression without
the comment. What was inside a string is then a comment, and it goes the second time. -/
theorem stripComments_fails_slashAfterComment :
    Unmarked "/**/ /\"/ //\"" ∧
      stripComments "/**/ /\"/ //\"" = .ok "  /\"/ //\"".toList ∧
      (mask .all "  /\"/ //\"").text = "  __JSLIT_0__ __JSCOM_1__".toList ∧
      stripComments "  /\"/ //\"" ≠ .ok "  /\"/ //\"".toList := by
  have hagain : stripComments "  /\"/ //\"" = .ok "  /\"/  ".toList :=
    Outcome.toOption_eq_some_iff.mp (by decide +kernel)
  refine ⟨⟨by decide, by decide⟩, Outcome.toOption_eq_some_iff.mp (by decide +kernel), by decide +kernel, ?_⟩
  rw [hagain]
  exact fun h => absurd (Except.ok.inj h) (by decide)

end HostScript.Script
