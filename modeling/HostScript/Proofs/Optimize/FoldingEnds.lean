import HostScript.Proofs.Optimize.LiteralRun

/-!
# Folding comes to an end

The weight of a text is the number of its maximal runs of word characters together with that of its
opening parentheses. Text length is no measure, since a quotient may be longer than its literals,
but each round of folding and unwrapping that changes a text makes it lighter: what is folded has
two literals and leaves one number, what is unwrapped loses its parentheses, and no two words on
either side of a swapped stretch can add to each other's weight.
-/

namespace HostScript.Optimize

open Outcome Pattern Script

/-! ## Weights -/

/-- The number of maximal runs of word characters, each counted where it ends. -/
def wordRuns : Text → Nat
  | [] => 0
  | c :: t => (if isWordPart c && !startsIn isWordPart t then 1 else 0) + wordRuns t

/-- The maximal runs of word characters and the opening parentheses of a text, counted together. -/
def weight (t : Text) : Nat := wordRuns t + Text.count '(' t

/-- No word goes on from one text into the next. -/
def WordsEnd (x y : Text) : Prop := endsIn isWordPart x = false ∨ startsIn isWordPart y = false

variable {x y t u v : Text}

/-- Where two texts meet, a run that goes on from one into the other is counted once. -/
theorem wordRuns_append (x y : Text) :
    wordRuns (x ++ y) + (if endsIn isWordPart x && startsIn isWordPart y then 1 else 0) =
      wordRuns x + wordRuns y := by
  induction x with
  | nil => simp [wordRuns, endsIn]
  | cons c x ih =>
    rw [List.cons_append, wordRuns, wordRuns]
    rcases List.eq_nil_or_concat' x with rfl | ⟨w, d, rfl⟩
    · have hnone : startsIn isWordPart [] = false := rfl
      have hends : endsIn isWordPart [c] = isWordPart c := rfl
      rw [List.nil_append, wordRuns, hnone, hends]
      cases isWordPart c <;> cases startsIn isWordPart y <;> simp [Nat.add_comm]
    · have hne : w ++ [d] ≠ [] := by simp
      have hends : endsIn isWordPart (c :: (w ++ [d])) = endsIn isWordPart (w ++ [d]) :=
        endsIn_append isWordPart hne [c]
      rw [startsIn_append_left _ hne, hends, Nat.add_assoc, Nat.add_assoc, ih]

theorem weight_append_le (x y : Text) : weight (x ++ y) ≤ weight x + weight y := by
  have := wordRuns_append x y
  simp only [weight, Text.count, List.count_append]
  omega

theorem weight_append (h : WordsEnd x y) : weight (x ++ y) = weight x + weight y := by
  have hruns := wordRuns_append x y
  have hapart : (endsIn isWordPart x && startsIn isWordPart y) = false := by
    rcases h with h | h <;> simp [h]
  rw [hapart, if_neg Bool.false_ne_true] at hruns
  simp only [weight, Text.count, List.count_append]
  omega

theorem WordsEnd.of_left (h : ∀ c ∈ x, isWordPart c = false) (y : Text) : WordsEnd x y := by
  refine Or.inl ?_
  rcases List.eq_nil_or_concat' x with rfl | ⟨x, c, rfl⟩
  · rfl
  · rw [endsIn_append _ (List.cons_ne_nil c [])]
    exact h c (by simp)

theorem WordsEnd.of_right (h : ∀ c ∈ y, isWordPart c = false) (x : Text) : WordsEnd x y := by
  refine Or.inr ?_
  cases y with
  | nil => rfl
  | cons c y => exact h c List.mem_cons_self

/-- What starts with a word has a weight. -/
theorem weight_pos (h : startsIn isWordPart t = true) : 0 < weight t := by
  suffices hruns : 0 < wordRuns t from Nat.add_pos_left hruns _
  induction t with
  | nil => cases h
  | cons c t ih =>
    rw [wordRuns]
    cases ht : startsIn isWordPart t with
    | true => exact Nat.add_pos_right _ (ih ht)
    | false =>
      have hc : isWordPart c = true := h
      rw [hc]
      exact Nat.add_pos_left Nat.one_pos _

theorem wordRuns_le_one (h : ∀ c ∈ t, isWordPart c = true) : wordRuns t ≤ 1 := by
  induction t with
  | nil => exact Nat.zero_le _
  | cons c t ih =>
    rw [List.forall_mem_cons] at h
    have hrest := ih h.2
    rw [wordRuns]
    cases t with
    | nil => simp [wordRuns]; split <;> omega
    | cons d t =>
      have hd : startsIn isWordPart (d :: t) = true := h.2 d List.mem_cons_self
      rw [hd, Bool.not_true, Bool.and_false, if_neg Bool.false_ne_true, Nat.zero_add]
      exact hrest

theorem isWordPart_of_isDecimal {c : Char} (h : isDecimal c = true) : isWordPart c = true := by
  rcases Bool.or_eq_true_iff.mp h with h | h
  · exact isWordPart_of_isDigit h
  · obtain rfl : c = '.' := by simpa [among] using h
    decide

/-- A computed number is one run. -/
theorem weight_le_one (h : IsSignedDecimal t) : weight t ≤ 1 := by
  obtain ⟨body, -, hbody, ht⟩ := h
  have hopen : '(' ∉ body := fun hmem => absurd (hbody _ hmem) (by decide)
  have hone := wordRuns_le_one fun c hc => isWordPart_of_isDecimal (hbody c hc)
  have hweight : weight body ≤ 1 := by
    rw [weight, Text.count, List.count_eq_zero_of_not_mem hopen]
    exact hone
  rcases ht with rfl | rfl
  · exact hweight
  · have hminus : weight ['-'] = 0 := by decide
    have := weight_append_le ['-'] body
    exact this.trans (by omega)

/-! ## Parts of runs -/

/-- A text that is lighter than the one it takes the place of, or the same. -/
def Lightens (t u : Text) : Prop := u = t ∨ weight u < weight t

theorem Lightens.le (h : Lightens t u) : weight u ≤ weight t := by
  rcases h with rfl | h
  · exact le_rfl
  · exact h.le

theorem Lightens.trans (h : Lightens t u) (h' : Lightens u v) : Lightens t v := by
  rcases h with rfl | h
  · exact h'
  · exact Or.inr (h'.le.trans_lt h)

/-- Parts may be swapped one by one where no word goes on from one into the other. -/
theorem Lightens.append {x' y' : Text} (h : WordsEnd x y) (hx : Lightens x x')
    (hy : Lightens y y') : Lightens (x ++ y) (x' ++ y') := by
  have hle := weight_append_le x' y'
  rw [Lightens, weight_append h]
  rcases hx with rfl | hx
  · rcases hy with rfl | hy
    · exact Or.inl rfl
    · exact Or.inr (by omega)
  · have := hy.le
    exact Or.inr (by omega)

theorem IsLiteral.weight_pos {n : Text} (h : IsLiteral n) : 0 < weight n :=
  Optimize.weight_pos h.word_ends.1

/-- The number of a link adds to the weight. -/
theorem Link.IsSound.weight_pos {l : Link} (hl : l.IsSound) : 0 < weight l.text := by
  rw [Link.text, weight_append (.of_left hl.gap_free _)]
  exact Nat.add_pos_right _ hl.number.weight_pos

/-- A literal with links behind it has the weight of two. -/
theorem two_le_weight {n : Text} {ls : List Link} (hn : IsLiteral n) (hls : ∀ l ∈ ls, l.IsSound)
    (hne : ls ≠ []) : 2 ≤ weight (n ++ linksText ls) := by
  obtain ⟨l, ls, rfl⟩ := List.exists_cons_of_ne_nil hne
  have hstart := startsIn_linksText hls
  rw [List.forall_mem_cons] at hls
  have hnumber := hn.weight_pos
  have hlink := hls.1.weight_pos
  rw [weight_append (Or.inr hstart), linksText_cons, weight_append (Or.inr (startsIn_linksText hls.2))]
  omega

theorem Block.IsSound.weight_text {b : Block} (hb : b.IsSound) :
    weight b.text = weight b.lead + weight b.body := weight_append (.of_left hb.lead _)

/-- A computed number is lighter than its product. -/
theorem lightens_foldedBlock {ctx : RunContext} {count index : Nat} {b : Block} (hb : b.IsSound)
    (h : foldedBlock ctx count index b = .ok v) : Lightens b.text v := by
  rw [foldedBlock] at h
  split at h
  · exact Or.inl (Except.ok.inj h).symm
  · rename_i hleaves
    obtain ⟨value, -, h⟩ := bind_eq_ok_iff.mp h
    split at h
    · exact Or.inl (Except.ok.inj h).symm
    · rename_i new hnew
      obtain ⟨d, -, hd⟩ := Option.bind_eq_some_iff.mp hnew
      obtain rfl := Except.ok.inj h
      have hfactors : b.factors ≠ [] := by
        intro hnil
        simp [RunContext.leaves, hnil] at hleaves
      have htwo := two_le_weight hb.number (fun l hl => (hb.factors l hl).1) hfactors
      have hone := weight_le_one (isSignedDecimal_foldedText? hd)
      have hle := weight_append_le b.lead new
      refine Or.inr ?_
      rw [hb.weight_text, Block.body]
      omega

/-- Folding the products of a run lightens it. -/
theorem lightens_foldedBlocks {ctx : RunContext} {count index : Nat} {bs : List Block}
    (hbs : ∀ b ∈ bs, b.IsSound) (hfurther : ∀ b ∈ bs.tail, b.IsFurther)
    (h : foldedBlocks ctx count index bs = .ok v) : Lightens (blocksText bs) v := by
  induction bs generalizing index v with
  | nil => exact Or.inl (Except.ok.inj h).symm
  | cons b bs ih =>
    rw [foldedBlocks] at h
    obtain ⟨more, hmore, h⟩ := bind_eq_ok_iff.mp h
    obtain ⟨first, hfirst, h⟩ := bind_eq_ok_iff.mp h
    obtain rfl := Except.ok.inj h
    rw [List.forall_mem_cons] at hbs
    have hrest : ∀ c ∈ bs, c.IsSound ∧ c.IsFurther := fun c hc => ⟨hbs.2 c hc, hfurther c hc⟩
    exact .append (Or.inr (startsIn_blocksText hrest)) (lightens_foldedBlock hbs.1 hfirst)
      (ih hbs.2 (fun c hc => hfurther c (List.mem_of_mem_tail hc)) hmore)

/-- Folding a run lightens it. -/
theorem lightens_foldRun {ctx : RunContext} {run : Text} {gs : GroupTexts}
    (hrun : literalRun.Spells run gs) (h : foldRun ctx run = .ok v) : Lightens run v := by
  obtain ⟨n, ls, rfl, hn, hne, hls⟩ := exists_links hrun
  rw [foldRun_eq hn hls] at h
  obtain ⟨total, -, h⟩ := bind_eq_ok_iff.mp h
  split at h
  · rename_i new hnew
    obtain ⟨d, -, hd⟩ := Option.bind_eq_some_iff.mp hnew
    obtain rfl := Except.ok.inj h
    have htwo := two_le_weight hn hls hne
    have hone := weight_le_one (isSignedDecimal_foldedText? hd)
    exact Or.inr (by omega)
  · rw [← runBlocks_text]
    exact lightens_foldedBlocks (isSound_runBlocks hn hls)
      (fun b hb => ((of_splitLinks hls).2 b hb).2) h

/-! ## Rounds -/

/-- No word goes on across a place of a text. -/
def IsWordEdge (t : Text) (i : Nat) : Prop := WordsEnd (t.take i) (t.drop i)

theorem IsWordEdge.slice {j : Nat} (h : IsWordEdge t j) (i : Nat) :
    WordsEnd (t.slice i j) (t.drop j) := by
  refine h.imp_left fun hends => ?_
  rw [endsIn, Text.slice, List.getLast?_drop]
  split
  · rfl
  · exact hends

/-- Putting lighter texts in place of fits lightens a text, if no word goes on across their ends. -/
theorem lightens_spliceM {p : Pattern} {f : Match → Outcome Text} {pos : Nat} {ms : List Match}
    (hms : FitsFrom p t pos ms) (hf : ∀ m ∈ ms, ∀ v, f m = .ok v → Lightens m.text v)
    (hedges : ∀ m ∈ ms, IsWordEdge t m.start ∧ IsWordEdge t m.stop)
    (h : spliceM t f pos ms = .ok u) : Lightens (t.drop pos) u := by
  induction hms generalizing u with
  | nil =>
    rw [spliceM] at h
    cases h
    exact Or.inl rfl
  | @cons pos m ms subject start stop length runs rest ih =>
    rw [spliceM] at h
    obtain ⟨v, hv, h⟩ := bind_eq_ok_iff.mp h
    obtain ⟨tail, htail, h⟩ := bind_eq_ok_iff.mp h
    cases h
    rw [List.forall_mem_cons] at hf hedges
    have htext : m.text = t.slice m.start m.stop := by rw [Match.text, subject]
    have hfit : t.drop m.start = m.text ++ t.drop m.stop := by
      rw [htext, Text.slice_append_drop stop length]
    have hgap : t.drop pos = t.slice pos m.start ++ t.drop m.start :=
      (Text.slice_append_drop start (stop.trans length)).symm
    have hbehind : Lightens (t.drop m.start) (v ++ tail) := by
      rw [hfit]
      exact .append (htext ▸ hedges.1.2.slice m.start) (hf.1 v hv) (ih hf.2 hedges.2 htail)
    rw [hgap, List.append_assoc]
    exact .append (hedges.1.1.slice pos) (Or.inl rfl) hbehind

/-- Folding once lightens a text. -/
theorem lightens_foldOnce (h : foldOnce t = .ok u) : Lightens t u := by
  refine lightens_spliceM (fitsFrom_allIn literalRun t) (fun m hm v hv => ?_) (fun m hm => ?_) h
  · obtain ⟨gs, hspells, -⟩ := spells_of_mem_allIn hm
    exact lightens_foldRun hspells hv
  · obtain ⟨hbefore, hafter⟩ := apart_of_mem_allIn hm
    exact ⟨Or.inl hbefore, Or.inr hafter⟩

/-- A number in parentheses of its own is a literal between white space and parentheses. -/
theorem exists_of_wrappedNumber {m : Match} (hm : m ∈ wrappedNumber.allIn t) :
    ∃ a b, m.text = ['('] ++ (a ++ (m.group 1 ++ (b ++ [')']))) ∧ (∀ c ∈ a, isBlank c = true) ∧
      (∀ c ∈ b, isBlank c = true) ∧ IsLiteral (m.group 1) := by
  obtain ⟨gs, hspells, hgroups⟩ := spells_of_mem_allIn hm
  obtain ⟨y, hy, hspells⟩ := hspells.of_append_lit
  obtain ⟨z, b, rfl, hb, hspells⟩ := hspells.of_append_blanks
  obtain ⟨w, n, gs₁, gs₂, rfl, rfl, hn, hspells⟩ := hspells.of_append_cap
  obtain ⟨o, a, rfl, ha, hspells⟩ := hspells.of_append_blanks
  obtain ⟨rfl, rfl⟩ := spells_lit_iff.mp hspells
  have hgroup : m.group 1 = n := by
    rw [Match.group, hgroups]
    rfl
  rw [hgroup]
  refine ⟨a, b, ?_, ha, hb, _, hn⟩
  rw [hy]
  simp

/-- A number weighs less than itself in parentheses. -/
theorem weight_group_lt {m : Match} (hm : m ∈ wrappedNumber.allIn t) :
    weight (m.group 1) < weight m.text := by
  obtain ⟨a, b, htext, ha, hb, -⟩ := exists_of_wrappedNumber hm
  have ha := fun c hc => isWordPart_of_isBlank (ha c hc)
  have hb := fun c hc => isWordPart_of_isBlank (hb c hc)
  have hclosing : ∀ c ∈ b ++ [')'], isWordPart c = false :=
    List.forall_mem_append.mpr ⟨hb, List.forall_mem_singleton.mpr (by decide)⟩
  have hopening : weight ['('] = 1 := by decide
  rw [htext, weight_append (Or.inl (by decide)), weight_append (.of_left ha _),
    weight_append (.of_right hclosing _), hopening]
  omega

/-- A number in parentheses starts and ends with no part of a word. -/
theorem isWordEdge_of_wrappedNumber {m : Match} (hm : m ∈ wrappedNumber.allIn t) :
    IsWordEdge t m.start ∧ IsWordEdge t m.stop := by
  obtain ⟨a, b, htext, -⟩ := exists_of_wrappedNumber hm
  obtain ⟨subject, stop, length, -⟩ := (fitsFrom_allIn wrappedNumber t).of_mem hm
  have hdrop : t.drop m.start = m.text ++ t.drop m.stop := by
    rw [Match.text, subject, Text.slice_append_drop stop length]
  have htake : t.take m.start ++ m.text = t.take m.stop := by
    have hsplit := List.take_append_drop m.start (t.take m.stop)
    rw [List.take_take, Nat.min_eq_left stop] at hsplit
    rwa [Match.text, subject]
  constructor
  · refine Or.inr ?_
    rw [hdrop, htext]
    rfl
  · refine Or.inl ?_
    have hclose : m.text.getLast? = some ')' := by
      rw [htext]
      simp [List.getLast?_append, List.getLast?_cons]
    rw [← htake, endsIn, List.getLast?_append, hclose]
    exact (by decide : isWordPart ')' = false)

/-- Losing its parentheses makes a number lighter. -/
theorem lightens_unwrapNumbers (t : Text) : Lightens t (unwrapNumbers t) := by
  refine lightens_spliceM (fitsFrom_allIn wrappedNumber t) (fun m hm v hv => ?_)
    (fun m hm => isWordEdge_of_wrappedNumber hm) (replaceM_ok wrappedNumber _ t)
  obtain rfl := Except.ok.inj hv
  dsimp only
  split
  · exact Or.inl rfl
  · exact Or.inr (weight_group_lt hm)

/-! ## The loop -/

/-- One round: folding every run once, then unwrapping. -/
def foldRound (t : Text) : Outcome Text := do
  let folded ← foldOnce t
  pure (unwrapNumbers folded)

/-- Rounds are repeated until one fails or changes nothing. -/
inductive StopsAfter : Text → Nat → Outcome Text → Prop where
  /-- A round that fails is the last. -/
  | fail {t : Text} {e : Fault} : foldRound t = .error e → StopsAfter t 1 (.error e)
  /-- A round that changes nothing is the last. -/
  | done {t : Text} : foldRound t = .ok t → StopsAfter t 1 (.ok t)
  | again {t u : Text} {n : Nat} {out : Outcome Text} : foldRound t = .ok u → u ≠ t →
      StopsAfter u n out → StopsAfter t (n + 1) out

/-- A round that changes a text makes it lighter. -/
theorem weight_lt_of_foldRound (h : foldRound t = .ok u) (hne : u ≠ t) : weight u < weight t := by
  obtain ⟨folded, hfolded, hu⟩ := bind_eq_ok_iff.mp h
  obtain rfl := Except.ok.inj hu
  exact ((lightens_foldOnce hfolded).trans (lightens_unwrapNumbers folded)).resolve_left hne

/-- So after at most as many rounds as the text weighs, one is the last. -/
theorem exists_stopsAfter (t : Text) : ∃ n ≤ weight t + 1, ∃ out, StopsAfter t n out := by
  induction hw : weight t using Nat.strong_induction_on generalizing t with
  | _ w ih =>
    cases hround : foldRound t with
    | error e => exact ⟨1, by omega, _, .fail hround⟩
    | ok u =>
      by_cases hsame : u = t
      · rw [hsame] at hround
        exact ⟨1, by omega, _, .done hround⟩
      · have hlt := weight_lt_of_foldRound hround hsame
        obtain ⟨n, hn, out, hstops⟩ := ih (weight u) (hw ▸ hlt) u rfl
        exact ⟨n + 1, by omega, out, .again hround hsame hstops⟩

theorem foldAll_succ (fuel : Nat) (t : Text) :
    foldAll (fuel + 1) t =
      foldRound t >>= fun new => if new == t then pure t else foldAll fuel new := by
  rw [foldAll, foldRound]
  cases foldOnce t <;> rfl

/-- The loop needs no more fuel than there are rounds. -/
theorem StopsAfter.foldAll_eq {n fuel : Nat} {out : Outcome Text} (h : StopsAfter t n out)
    (hfuel : n ≤ fuel) : foldAll fuel t = out := by
  induction h generalizing fuel with
  | fail hround =>
    obtain ⟨fuel, rfl⟩ : ∃ k, fuel = k + 1 := ⟨fuel - 1, by omega⟩
    rw [foldAll_succ, hround]
    rfl
  | done hround =>
    obtain ⟨fuel, rfl⟩ : ∃ k, fuel = k + 1 := ⟨fuel - 1, by omega⟩
    rw [foldAll_succ, hround]
    exact if_pos (beq_self_eq_true _)
  | again hround hne hstops ih =>
    obtain ⟨fuel, rfl⟩ : ∃ k, fuel = k + 1 := ⟨fuel - 1, by omega⟩
    rw [foldAll_succ, hround]
    exact (if_neg (by simpa using hne)).trans (ih (by omega))

/-- A text that the loop stops with is changed by no further round. -/
theorem StopsAfter.foldRound_eq {n : Nat} (h : StopsAfter t n (.ok u)) : foldRound u = .ok u := by
  generalize hout : Except.ok u = out at h
  induction h with
  | fail hround => cases hout
  | done hround =>
    obtain rfl := Except.ok.inj hout
    exact hround
  | again hround hne hstops ih => exact ih hout

/-- Each character adds at most one to the weight. -/
theorem weight_le_length (t : Text) : weight t ≤ t.length := by
  induction t with
  | nil => exact Nat.zero_le _
  | cons c t ih =>
    have hone : weight [c] ≤ 1 := by
      rcases eq_or_ne c '(' with rfl | hc
      · decide
      · have hcount : Text.count '(' [c] = 0 :=
          List.count_eq_zero_of_not_mem (by simpa using hc.symm)
        rw [weight, hcount, wordRuns, wordRuns]
        split <;> omega
    have := weight_append_le [c] t
    rw [List.singleton_append] at this
    rw [List.length_cons]
    omega

/-- The folding loop comes to an end. Each round that changes the text makes it lighter, so the last
round is at the latest the one after as many as the text weighs, and folding a script has rounds
enough. The loop then stops with a text that no further round changes, unless a remainder is
taken of an infinite number. -/
theorem foldAll_ends (t : Text) :
    (∀ u, foldRound t = .ok u → u ≠ t → weight u < weight t) ∧
      ∃ n ≤ weight t + 1, ∃ out, StopsAfter t n out ∧ foldAll (t.length + 1) t = out ∧
        ((∃ u, out = .ok u ∧ foldRound u = .ok u) ∨ ('%' ∈ t ∧ out = .error domainError)) := by
  refine ⟨fun u hround hne => weight_lt_of_foldRound hround hne, ?_⟩
  obtain ⟨n, hn, out, hstops⟩ := exists_stopsAfter t
  have hrun : foldAll (t.length + 1) t = out :=
    hstops.foldAll_eq (hn.trans (Nat.add_le_add_right (weight_le_length t) 1))
  refine ⟨n, hn, out, hstops, hrun, ?_⟩
  cases out with
  | ok u => exact Or.inl ⟨u, rfl, hstops.foldRound_eq⟩
  | error e =>
    have honly : FailsOnly (fun f => '%' ∈ t ∧ f = domainError) (foldAll (t.length + 1) t) :=
      failsOnly_foldAll (fun hpercent => ⟨hpercent, rfl⟩) _
    obtain ⟨hpercent, rfl⟩ := honly e hrun
    exact Or.inr ⟨hpercent, rfl⟩

/-- A product in parentheses folds to a number without, with two runs and a parenthesis less. -/
theorem foldAll_ends_wrappedProduct :
    foldRound "x = (2 * 3) / a;".toList = .ok "x = 6 / a;".toList ∧
      weight "x = 6 / a;".toList < weight "x = (2 * 3) / a;".toList :=
  have hround : foldRound "x = (2 * 3) / a;".toList = .ok "x = 6 / a;".toList :=
    toOption_eq_some_iff.mp (by decide +kernel)
  ⟨hround, (foldAll_ends _).1 _ hround (by decide)⟩

/-- A remainder of an infinite number ends the loop without a text. -/
theorem not_stopsAfter_infiniteRemainder :
    ¬ ∃ n u, StopsAfter (mask .all "x = 1e999 % 2;".toList).text n (.ok u) := by
  have hfails : (foldRound (mask .all "x = 1e999 % 2;".toList).text).toOption = none := by
    decide +kernel
  rintro ⟨n, u, hstops⟩
  cases hstops with
  | done hround =>
    rw [hround] at hfails
    cases hfails
  | again hround _ _ =>
    rw [hround] at hfails
    cases hfails

end HostScript.Optimize
