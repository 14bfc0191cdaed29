import HostScript.Analysis
import HostScript.Profile.Bundled
import HostScript.Proofs.Outcome
import HostScript.Proofs.Pattern.Forms
import HostScript.Proofs.Pattern.Plain
import HostScript.Proofs.Script.Reword
import HostScript.Proofs.Text
import Mathlib.Data.List.Nodup

/-!
# Lines and warnings of an analysis

An analysis looks for dangers, loops and functions in the masked text and counts their lines there.
What it finds stands in the script itself, outside literals and comments, and the reported line is
the line of that place less the line breaks in the literals and comments before it. A warning about
modern syntax is given exactly when its construct occurs in the masked text, so the one about
template literals, which are hidden whole, is never given.
-/

namespace HostScript.Analysis

open Pattern Script

variable {code w : Text} {o i : Nat} {p body : Pattern} {guard : CharSet}

/-! ### Constructs -/

/-- The characters that constructs end with. -/
def isCloser : CharSet := among "(=\x7b"

/-- The characters that a construct may have before its end. -/
def isInner : CharSet := outside (among "(=\x7b_")

theorem of_isInner {c : Char} (h : isInner c = true) : isCloser c = false ∧ c ≠ '_' := by
  have hmem : c ∉ "(=\x7b_".toList := by simpa [isInner, outside, among] using h
  constructor
  · refine Bool.eq_false_iff.mpr fun hc => hmem ?_
    have hclose : c ∈ "(=\x7b".toList := by simpa [isCloser, among] using hc
    exact List.mem_append_left "_".toList hclose
  · rintro rfl
    exact hmem (by decide)

/-- A pattern for a construct of code. Its texts start in no mark, have no underscore and end with
the first bracket or equals sign in them, and what may not stand right before them may end with an
underscore, as a mark does. -/
structure IsConstruct (guard : CharSet) (body p : Pattern) : Prop where
  guarded : Guarded guard body p
  guard_mark : guard '_' = true ∨ ∀ c, guard c = false
  simple : body.isSimple = true
  advances : body.advances = true
  plain : body.Within (outside (among "_"))
  start : body.StartsWithin (outside isMarkChar)
  stops : StopsAt isCloser body

/-- The text of a construct that fits in the masked text stands in the script, and the construct
fits there. -/
theorem IsConstruct.exists_matchAt? (h : IsConstruct guard body p) {k : Cursor → Option Cursor}
    {e : Cursor} (hrun : p.run k (placeAt (codeOf code) i) = some e) :
    ∃ o m, p.matchAt? code o = some m ∧ ShowsAt code m.text o i := by
  rw [h.guarded] at hrun
  obtain ⟨hfree, hrun⟩ := Option.ite_none_left_eq_some.mp hrun
  obtain ⟨w, gs, d, hw, hpass, -⟩ := exists_form_of_run h.simple hrun
  have hne : w ≠ [] := hw.spells.ne_nil h.advances
  have hafter : (codeOf code).drop i = w ++ d.after := hpass.after
  have hi : ((codeOf code).take i).length = i := by
    refine List.length_take_of_le (Nat.le_of_lt ?_)
    have hdrop := congrArg List.length hafter
    have hpos := List.length_pos_of_ne_nil hne
    rw [List.length_drop, List.length_append] at hdrop
    omega
  -- the text stands in the script
  have hplain : '_' ∉ w := fun hmem =>
    absurd (hw.mem_of_within h.plain _ hmem) Bool.false_ne_true
  have hstart : w.head?.all isMarkChar = false := by
    obtain ⟨a, w, rfl⟩ := List.exists_cons_of_ne_nil hne
    simpa [outside] using h.start a hw.spells.mayStart
  have htext : codeOf code = (codeOf code).take i ++ (w ++ d.after) := by
    rw [← hafter, List.take_append_drop]
  obtain ⟨o, hshows⟩ := exists_showsAt hplain hstart htext
  rw [hi] at hshows
  obtain ⟨u, v, hcode, hu⟩ := hshows.code_eq
  have hdrop : code.drop o = w ++ v := by rw [hcode, ← hu, List.drop_left]
  have htake : code.take o = u := by rw [hcode, ← hu, List.take_left]
  -- the pattern fits there
  obtain ⟨c, hc⟩ : ∃ c, c = Cursor.atOffset code o := ⟨_, rfl⟩
  have hcafter : c.after = w ++ v := by rw [hc, ← hdrop]; rfl
  have hcfree : c.before.head?.any guard = false := by
    rcases h.guard_mark with hmark | hnone
    · rw [hc]
      exact hshows.head?_any hmark (Bool.eq_false_iff.mpr hfree)
    · cases c.before <;> simp [hnone]
  have hcw : body.Forms c.groupTexts w gs := by rw [hc]; exact hw
  obtain ⟨d', -, hsome⟩ := isSome_run_of_forms h.simple hcw hcafter
  obtain ⟨e', he'⟩ := Option.isSome_iff_exists.mp (hsome some rfl)
  refine ⟨o, .ofCursors code c e', ?_, ?_⟩
  · rw [matchAt?, ← hc, h.guarded, hcfree, he']
    rfl
  · obtain ⟨x, hs, d'', hx, hpass', hd''⟩ := exists_form_of_run h.simple he'
    obtain rfl := Option.some.inj hd''
    have hxw : x = w :=
      h.stops.eq_of_isPrefix hx hcw (hpass'.after ▸ List.prefix_append x _)
        (hcafter ▸ List.prefix_append w v)
    have hplace : code = u ++ ([] ++ c.after) := by rw [hcafter, List.nil_append, hcode]
    have hpos : c.pos = u.length + ([] : Text).length := by
      have hlength := congrArg List.length hcode
      rw [List.length_append] at hlength
      rw [hc]
      change min o code.length = u.length + 0
      omega
    rw [text_ofCursors hplace hpos hpass', hxw]
    exact hshows

/-- White space may stand inside a construct. -/
theorem isInner_of_isBlank {c : Char} (hc : isBlank c = true) : isInner c = true := by
  have hall : ∀ c ∈ "(=\x7b_".toList, isBlank c = false := by decide
  rw [isInner, outside, Bool.not_eq_true']
  refine Bool.eq_false_iff.mpr fun hmem => ?_
  rw [hall c (List.contains_iff_mem.mp hmem)] at hc
  cases hc

/-- A construct is made of a head, white space and the character that ends it. -/
theorem isConstruct_append {head p : Pattern} {last : String} {z : Char}
    (hguarded : Guarded guard head p) (hmark : guard '_' = true ∨ ∀ c, guard c = false)
    (hsimple : head.isSimple = true) (hadvances : head.advances = true)
    (hinner : head.Within isInner) (hstart : head.StartsWithin (outside isMarkChar))
    (hlast : last.toList = [z]) (hz : isCloser z = true) :
    IsConstruct guard (head ++ blanks ++ lit last) (p ++ blanks ++ lit last) := by
  have hlit : lit last = .one (· == z) := by rw [lit, hlast, text]
  have hbody : (head ++ blanks).Within isInner := ⟨hinner, fun _ => isInner_of_isBlank⟩
  have hadvances' : (head ++ blanks).advances = true := by
    change (head.advances || _) = true
    rw [hadvances, Bool.true_or]
  refine ⟨(hguarded.append _).append _, hmark, ?_, ?_, ⟨?_, ?_⟩, ?_, ?_⟩
  · change (head.isSimple && true && (lit last).isSimple) = true
    rw [hsimple, hlit]
    rfl
  · change ((head ++ blanks).advances || _) = true
    rw [hadvances', Bool.true_or]
  · refine hbody.mono fun c hc => ?_
    simpa [outside, among] using (of_isInner hc).2
  · rw [hlit]
    intro c hc
    obtain rfl : c = z := by simpa using hc
    have hne : c ≠ '_' := by
      rintro rfl
      exact absurd hz (by decide)
    simpa [outside, among] using hne
  · exact (hstart.append hadvances _).append hadvances' _
  · exact stopsAt_append_lit hlast hz (hbody.mono fun c hc => by simp [outside, (of_isInner hc).1])

theorem IsConstruct.orElse {body' q : Pattern} (hp : IsConstruct guard body p)
    (hq : IsConstruct guard body' q) : IsConstruct guard (body <|> body') (p <|> q) where
  guarded := hp.guarded.orElse hq.guarded
  guard_mark := hp.guard_mark
  simple := Bool.and_eq_true_iff.mpr ⟨hp.simple, hq.simple⟩
  advances := Bool.and_eq_true_iff.mpr ⟨hp.advances, hq.advances⟩
  plain := ⟨hp.plain, hq.plain⟩
  start := hp.start.orElse hq.start
  stops := hp.stops.orElse hq.stops

/-- The heads of loops are constructs. -/
theorem isConstruct_loopHead : ∃ guard body, IsConstruct guard body loopHead := by
  have hfor : Guarded isWord (choice ["for", "while"]) (edge ++ choice ["for", "while"]) :=
    guarded_edge (by decide) (startsWithin_choice (by decide))
  have hdo : Guarded isWord (lit "do") (edge ++ lit "do") :=
    guarded_edge (by decide) (startsWithin_lit (by decide))
  refine ⟨_, _, (isConstruct_append hfor (Or.inl (by decide)) (by decide) (by decide) ?_ ?_ rfl
    (by decide)).orElse (isConstruct_append hdo (Or.inl (by decide)) (by decide) (by decide) ?_ ?_
      rfl (by decide))⟩
  · exact within_choice (by decide)
  · exact startsWithin_choice (by decide)
  · exact within_text (by decide)
  · exact startsWithin_lit (by decide)

/-- Dangers are constructs. -/
theorem isConstruct_danger {d : Danger} (hd : d ∈ vulnerabilities ++ hazards) :
    ∃ guard body, IsConstruct guard body d.pattern := by
  have hgap : gap.Within isInner := fun _ => isInner_of_isBlank
  have hnew : Guarded isWord (lit "new") (edge ++ lit "new") :=
    guarded_edge (by decide) (startsWithin_lit (by decide))
  have hdocument : Guarded isWord (lit "document.write") (edge ++ lit "document.write") :=
    guarded_edge (by decide) (startsWithin_lit (by decide))
  simp only [vulnerabilities, hazards, List.cons_append, List.nil_append, List.mem_cons,
    List.not_mem_nil, or_false] at hd
  rcases hd with rfl | rfl | rfl | rfl
  · exact ⟨_, _, isConstruct_append (guarded_notAfter _ (lit "eval")) (Or.inl (by decide))
      (by decide) (by decide) (within_text (by decide)) (startsWithin_lit (by decide)) rfl
      (by decide)⟩
  · exact ⟨_, _, isConstruct_append ((hnew.append gap).append (lit "Function"))
      (Or.inl (by decide)) (by decide) (by decide)
      ⟨⟨within_text (by decide), hgap⟩, within_text (by decide)⟩
      (((startsWithin_lit (by decide)).append (by decide) _).append (by decide) _) rfl (by decide)⟩
  · exact ⟨_, _, isConstruct_append (guarded_self (lit "." ++ choice ["innerHTML", "outerHTML"]))
      (Or.inr fun _ => rfl) (by decide) (by decide)
      ⟨within_text (by decide), within_choice (by decide)⟩
      ((startsWithin_lit (by decide)).append (by decide) _) rfl (by decide)⟩
  · exact ⟨_, _, isConstruct_append hdocument (Or.inl (by decide)) (by decide) (by decide)
      (within_text (by decide)) (startsWithin_lit (by decide)) rfl (by decide)⟩

/-! ### Bodies of functions -/

/-- The body of a function starts with a brace. -/
theorem isPrefix_of_mem_functionBodies {text : Text} {bodies : List FunctionBody}
    (h : functionBodies text = .ok bodies) {b : FunctionBody} (hb : b ∈ bodies) :
    ['\x7b'] <+: text.drop b.start := by
  rw [functionBodies] at h
  obtain ⟨found, hfound, hbodies⟩ := Outcome.bind_eq_ok_iff.mp h
  obtain rfl := Except.ok.inj hbodies
  obtain ⟨b', hb', rfl⟩ := List.mem_filterMap.mp hb
  obtain ⟨⟨name, start⟩, -, hstep⟩ := Outcome.exists_of_mem_mapM hfound hb'
  obtain ⟨brace, hbrace, hbody⟩ := Outcome.bind_eq_ok_iff.mp hstep
  obtain ⟨at', hat, hstop⟩ := Option.bind_eq_some_iff.mp (Except.ok.inj hbody)
  obtain ⟨stop, -, rfl⟩ := Option.map_eq_some_iff.mp hstop
  rw [hat, bodyStart?] at hbrace
  split at hbrace
  · cases hbrace
  · rename_i c hc
    split at hbrace
    · rename_i hopen
      obtain rfl := Option.some.inj (Except.ok.inj hbrace)
      obtain rfl : c = '\x7b' := by simpa using hopen
      obtain ⟨hlt, hget⟩ := List.getElem?_eq_some_iff.mp hc
      rw [List.drop_eq_getElem_cons hlt, hget]
      exact List.prefix_append _ _
    · obtain ⟨close, -, hindex⟩ := Option.bind_eq_some_iff.mp (Except.ok.inj hbrace)
      obtain ⟨j, hj, rfl⟩ := Option.map_eq_some_iff.mp hindex
      have hprefix := Text.isPrefix_of_indexOf? hj
      rwa [List.drop_drop, Nat.add_comm] at hprefix

/-! ### Lines -/

/-- A text stands in a script as code, shows at an offset of the masked text and is reported with a
line, which is the line of its place less the line breaks in the literals and comments before. -/
structure IsReported (code w : Text) (o i line : Nat) : Prop where
  stands : ShowsAt code w o i
  lacks : line + List.count '\n' (hiddenBefore code o).flatten = lineOf code o
  line_eq_iff : line = lineOf code o ↔ ∀ span ∈ hiddenBefore code o, '\n' ∉ span

theorem isReported_of_showsAt (h : ShowsAt code w o i) :
    IsReported code w o i (lineOf (codeOf code) i) := by
  have hlacks : lineOf (codeOf code) i + List.count '\n' (hiddenBefore code o).flatten =
      lineOf code o := by
    have hcount := h.count_take
    change List.count '\n' ((codeOf code).take i) + 1 + _ = List.count '\n' (code.take o) + 1
    rw [← hcount, codeOf]
    omega
  refine ⟨h, hlacks, ?_⟩
  have hnone : List.count '\n' (hiddenBefore code o).flatten = 0 ↔
      ∀ span ∈ hiddenBefore code o, '\n' ∉ span := by
    rw [List.count_eq_zero, List.mem_flatten]
    simp
  rw [← hnone]
  omega

/-- Every danger that an analysis finds stands in the script, outside literals and comments, and so
do the nested loops and the recursive functions that it finds. The line that it gives is the line
of that place less the line breaks in the literals and comments before, so it is right exactly
when none of these holds a line break. -/
theorem reported_lines (code : Text) :
    (∀ f ∈ (security (codeOf code)).vulnerabilities ++ (security (codeOf code)).warnings,
      ∃ d ∈ vulnerabilities ++ hazards,
        (f.kind, f.severity, f.description) = (d.kind, d.severity, d.description) ∧
        ∃ n ∈ d.pattern.allIn (codeOf code), ∃ o m, d.pattern.matchAt? code o = some m ∧
          IsReported code m.text o n.start f.line) ∧
    ∀ bodies c, functionBodies (codeOf code) = .ok bodies →
      ∀ h ∈ (performance code (codeOf code) bodies c).hotspots,
        (h.kind = "nested-loops" ∧ ∃ n ∈ nestedLoops (codeOf code), ∃ o m,
          loopHead.matchAt? code o = some m ∧ IsReported code m.text o n.start h.line) ∨
        (h.kind = "recursion" ∧ ∃ b ∈ bodies, b.name = h.detail ∧
          b.isRecursive (codeOf code) = true ∧ ∃ o, IsReported code ['\x7b'] o b.start h.line) := by
  have hfound {p : Pattern} (hp : ∃ guard body, IsConstruct guard body p) {n : Match}
      (hn : n ∈ p.allIn (codeOf code)) : ∃ o m, p.matchAt? code o = some m ∧
        IsReported code m.text o n.start (lineOf (codeOf code) n.start) := by
    obtain ⟨guard, body, hp⟩ := hp
    obtain ⟨-, -, -, k, e, hrun⟩ := (fitsFrom_allIn p (codeOf code)).of_mem hn
    obtain ⟨o, m, hm, hshows⟩ := hp.exists_matchAt? hrun
    exact ⟨o, m, hm, isReported_of_showsAt hshows⟩
  constructor
  · intro f hf
    have hf : f ∈ (vulnerabilities ++ hazards).flatMap (·.findings (codeOf code)) := by
      rwa [List.flatMap_append]
    obtain ⟨d, hd, hf⟩ := List.mem_flatMap.mp hf
    obtain ⟨n, hn, rfl⟩ := List.mem_map.mp hf
    exact ⟨d, hd, rfl, n, hn, hfound (isConstruct_danger hd) hn⟩
  · intro bodies c hbodies h hh
    rcases List.mem_append.mp hh with hh | hh
    · obtain ⟨n, hn, rfl⟩ := List.mem_map.mp hh
      exact Or.inl ⟨rfl, n, hn, hfound isConstruct_loopHead (List.mem_of_mem_filter hn)⟩
    · obtain ⟨b, hb, rfl⟩ := List.mem_map.mp hh
      obtain ⟨hb, hrec⟩ := List.mem_filter.mp hb
      obtain ⟨v, hv⟩ := isPrefix_of_mem_functionBodies hbodies hb
      have hstart : ((codeOf code).take b.start).length = b.start := by
        refine List.length_take_of_le (Nat.le_of_lt ?_)
        have hdrop := congrArg List.length hv
        rw [List.length_drop, List.length_append, List.length_singleton] at hdrop
        omega
      have htext : codeOf code = (codeOf code).take b.start ++ (['\x7b'] ++ v) := by
        rw [hv, List.take_append_drop]
      obtain ⟨o, hshows⟩ := exists_showsAt (by decide) (by decide) htext
      rw [hstart] at hshows
      exact Or.inr ⟨rfl, b, hb, rfl, hrec, o, isReported_of_showsAt hshows⟩

/-- A script with a continued line in a string, a call of `eval`, nested loops and a recursive
function. -/
def continued : Text :=
  "s = '\\\n'; eval(s)\nfor (;;) \x7b while (s) \x7b\x7d \x7d\nfunction f() \x7b f() \x7d".toList

/-- What an analysis reports about it. -/
theorem reported_lines_continued :
    (∃ f ∈ (security (codeOf continued)).vulnerabilities, f.kind = "code-injection" ∧
      ∃ w o i, IsReported continued w o i f.line) ∧
    ∃ bodies c, functionBodies (codeOf continued) = .ok bodies ∧
      ∀ kind ∈ ["nested-loops", "recursion"],
        ∃ h ∈ (performance continued (codeOf continued) bodies c).hotspots, h.kind = kind ∧
          ∃ w o i, IsReported continued w o i h.line := by
  obtain ⟨hdangers, hplaces⟩ := reported_lines continued
  have htext : continued = _ := Text.toList_eq rfl
  constructor
  · have hkinds : (security (codeOf continued)).vulnerabilities.map (·.kind) =
        ["code-injection"] := by
      rw [htext]
      decide +kernel
    have hmem : "code-injection" ∈ (security (codeOf continued)).vulnerabilities.map (·.kind) :=
      hkinds ▸ List.mem_singleton_self _
    obtain ⟨f, hf, hkind⟩ := List.mem_map.mp hmem
    obtain ⟨d, -, -, n, -, o, m, -, hreported⟩ := hdangers f (List.mem_append_left _ hf)
    exact ⟨f, hf, hkind, _, o, _, hreported⟩
  · have hkinds : (functionBodies (codeOf continued)).toOption.map
        (fun bodies => (hotspots (codeOf continued) bodies).map (·.kind)) =
          some ["nested-loops", "recursion"] := by
      rw [htext]
      decide +kernel
    obtain ⟨bodies, hsome, hkinds⟩ := Option.map_eq_some_iff.mp hkinds
    have hbodies := Outcome.toOption_eq_some_iff.mp hsome
    obtain ⟨c⟩ : Nonempty Complexity := ⟨complexity continued (codeOf continued) bodies⟩
    refine ⟨bodies, c, hbodies, fun kind hkind => ?_⟩
    obtain ⟨h, hmem, hsame⟩ := List.mem_map.mp (hkinds ▸ hkind)
    refine ⟨h, hmem, hsame, ?_⟩
    rcases hplaces bodies c hbodies h hmem with
      ⟨-, n, -, o, m, -, hreported⟩ | ⟨-, b, -, -, -, o, hreported⟩
    · exact ⟨_, o, _, hreported⟩
    · exact ⟨_, o, _, hreported⟩

/-- A comment of two lines before a call of `eval`. -/
def commented : Text := "/*\n*/ eval(x)".toList

/-- The line of a danger is not always the line where it stands: behind a comment of two lines it
is the first line, on which there is no code. -/
theorem line_not_kept : ¬ ∀ (code : Text), ∀ f ∈ (security (codeOf code)).vulnerabilities,
    ∃ d ∈ vulnerabilities, ∃ o, (d.pattern.matchAt? code o).isSome = true ∧
      f.line = lineOf code o := by
  intro h
  have hlines : (security (codeOf commented)).vulnerabilities.map (·.line) = [1] := by
    decide +kernel
  have hmem : 1 ∈ (security (codeOf commented)).vulnerabilities.map (·.line) :=
    hlines ▸ List.mem_singleton_self 1
  obtain ⟨f, hf, hfirst⟩ := List.mem_map.mp hmem
  obtain ⟨d, hd, o, hmatch, hline⟩ := h commented f hf
  -- only the first three offsets are on the first line
  have ho : o < 3 := by
    by_contra hlate
    have hbreak : '\n' ∈ commented.take o :=
      (List.take_prefix_take_left (Nat.le_of_not_lt hlate)).subset
        (by decide : '\n' ∈ commented.take 3)
    have hcount := List.count_pos_iff.mpr hbreak
    rw [hfirst] at hline
    change 1 = List.count '\n' (commented.take o) + 1 at hline
    omega
  have hnone : ∀ o < 3, ∀ d ∈ vulnerabilities, (d.pattern.matchAt? commented o).isSome = false := by
    decide +kernel
  rw [hnone o ho d hd] at hmatch
  cases hmatch

/-! ### Warnings -/

/-- A warning is given exactly when its construct occurs in the masked text. -/
theorem mem_warnings_iff {p : Profile} {text : Text} {c : Pattern × String}
    (hc : c ∈ modernConstructs) :
    c.2.toList ∈ (compatibility p code text).warnings ↔ c.1.occursIn text = true := by
  have hdistinct : (modernConstructs.map (·.2.toList)).Nodup := by decide
  constructor
  · intro h
    obtain ⟨c', hc', hsame⟩ := List.mem_map.mp h
    obtain ⟨hmem, hoccurs⟩ := List.mem_filter.mp hc'
    rwa [List.inj_on_of_nodup_map hdistinct hmem hc hsame] at hoccurs
  · intro h
    exact List.mem_map_of_mem (List.mem_filter.mpr ⟨hc, h⟩)

/-- A text that can neither start in a mark nor hold one is a part of the masked text exactly when
it stands in the script outside literals and comments. -/
theorem isInfix_codeOf_iff {w : Text} (hplain : '_' ∉ w)
    (hstart : w.head?.all isMarkChar = false) :
    w <:+: codeOf code ↔ ∃ o i, ShowsAt code w o i := by
  constructor
  · rintro ⟨u, v, h⟩
    rw [List.append_assoc] at h
    obtain ⟨o, ho⟩ := exists_showsAt hplain hstart h.symm
    exact ⟨o, _, ho⟩
  · rintro ⟨o, i, h⟩
    obtain ⟨u, v, hcode, -⟩ := h.mask_eq
    exact ⟨u, v, by rw [codeOf, hcode, List.append_assoc]⟩

/-- A backtick is never code. -/
theorem backtick_notMem_cut (window : List Piece) (code : Text) :
    .code '\x60' ∉ cut window code := by
  induction hlen : code.length using Nat.strong_induction_on generalizing window code with
  | _ len ih =>
    subst hlen
    cases code with
    | nil => simp
    | cons c rest =>
      cases hs : spanAt? (nearby window) c rest with
      | none =>
        have hc : c ≠ '\x60' := by
          rintro rfl
          cases hs
        rw [cut_of_none hs, List.mem_cons, not_or]
        refine ⟨fun h => hc (Piece.code.inj h).symm, ih _ (by simp) _ _ rfl⟩
      | some kn =>
        rw [cut_of_some hs, List.mem_cons, not_or]
        refine ⟨nofun, ih _ ?_ _ _ rfl⟩
        rw [List.length_drop, List.length_cons]
        omega

/-- The masked text has no backtick. -/
theorem backtick_notMem_codeOf (code : Text) : '\x60' ∉ codeOf code := by
  intro hmem
  have hpart : ['\x60'] <:+: codeOf code := by
    obtain ⟨u, v, h⟩ := List.append_of_mem hmem
    exact ⟨u, v, by rw [h, List.append_assoc, List.singleton_append]⟩
  obtain ⟨o, i, before, after, hcut, -⟩ :=
    (isInfix_codeOf_iff (by decide) (by decide)).mp hpart
  refine backtick_notMem_cut [] code ?_
  rw [hcut]
  simp [spelled]

/-- The warning about arrow functions. -/
def arrowWarning : Text := "Arrow functions need downleveling for older runtimes".toList

/-- The warning about template literals. -/
def templateWarning : Text := "Template literals need downleveling for older runtimes".toList

/-- A script has a template literal, outside other literals and comments. -/
def HasTemplate (code : Text) : Prop :=
  ∃ span ∈ (mask .all code).spans, span.head? = some '\x60'

/-- No script gets the warning about template literals. -/
theorem templateWarning_notMem (p : Profile) (code : Text) :
    templateWarning ∉ (compatibility p code (codeOf code)).warnings := by
  have htemplate : ((lit "\x60", "Template literals need downleveling for older runtimes") :
      Pattern × String) ∈ modernConstructs := by simp [modernConstructs]
  intro h
  have hpart := occursIn_text_iff.mp ((mem_warnings_iff htemplate).mp h)
  exact backtick_notMem_codeOf code (hpart.subset (by decide))

/-- The warning about arrow functions is given exactly when an arrow stands in the script outside
literals and comments. The one about template literals is never given, so it is right exactly for
scripts without template literals. -/
theorem syntax_warnings (p : Profile) (code : Text) :
    (arrowWarning ∈ (compatibility p code (codeOf code)).warnings ↔
        ∃ o i, ShowsAt code "=>".toList o i) ∧
      templateWarning ∉ (compatibility p code (codeOf code)).warnings ∧
      ((templateWarning ∈ (compatibility p code (codeOf code)).warnings ↔ HasTemplate code) ↔
        ¬ HasTemplate code) := by
  have harrow : ((lit "=>", "Arrow functions need downleveling for older runtimes") :
      Pattern × String) ∈ modernConstructs := List.mem_cons_self ..
  have hnever := templateWarning_notMem p code
  refine ⟨?_, hnever, ?_⟩
  · have hgiven := @mem_warnings_iff code p (codeOf code) _ harrow
    rw [← isInfix_codeOf_iff (by decide) (by decide), ← occursIn_text_iff]
    exact hgiven
  · rw [iff_false_left hnever]

/-- A template literal alone. -/
def templateCode : Text := "x = \x60a\x60;".toList

/-- Scripts with a template literal do not all get the warning. -/
theorem templates_not_warned : ¬ ∀ (p : Profile) (code : Text), HasTemplate code →
    templateWarning ∈ (compatibility p code (codeOf code)).warnings := by
  intro h
  have htemplate : HasTemplate templateCode := ⟨"\x60a\x60".toList, by decide, rfl⟩
  exact templateWarning_notMem Profile.webHost templateCode (h _ _ htemplate)

end HostScript.Analysis
