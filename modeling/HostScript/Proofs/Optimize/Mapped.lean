import HostScript.Proofs.Optimize.Moved

/-!
# Elements that are moved into a map

A loop that fills an array becomes a map of another array, and in the elements the item stands for
the place of the other array. The hidden spans of the script stay the same, if the elements come
before the first of them and do not end in a line comment.
-/

namespace HostScript.Optimize

open Pattern Script

/-!
## Items
-/

/-- A place of an array and the item that stands for it, between names. -/
inductive Takes (item : Text) : (w old new rest : List Piece) → Prop
  | intro {w rest : List Piece} (place : Text) (fresh : Fresh w) (next : Fresh rest) :
    Takes item w (spelled (place ++ [']'])) (spelled item) rest

/-- A name that may stand for an item. -/
structure IsItem (item : Text) : Prop where
  ident : ∀ c ∈ item, isIdentPart c = true
  start : ∃ c, item.head? = some c ∧ isIdentPart c = true
  unmarked : Unmarked item
  stop : ∀ c ∈ item.getLast?, c ∉ markHead
  divides : Divides item

theorem isItem_item : IsItem "item".toList where
  ident := by decide
  start := ⟨'i', rfl, by decide⟩
  unmarked := ⟨by decide, by decide⟩
  stop := fun c hc => by
    obtain rfl := Option.some.inj hc
    decide
  divides := ⟨by decide, by decide, by decide, by decide⟩

theorem isItem_longItem : IsItem "__item".toList where
  ident := by decide
  start := ⟨'_', rfl, by decide⟩
  unmarked := ⟨by decide, by decide⟩
  stop := fun c hc => by
    obtain rfl := Option.some.inj hc
    decide
  divides := ⟨by decide, by decide, by decide, by decide⟩

variable {item : Text}

theorem orderly_takes (hitem : IsItem item) : Orderly (Takes item) where
  fresh h := by
    cases h
    assumption
  spans h := by
    cases h
    simp
  whole h := by
    cases h
    exact fun _ _ => isWhole_of_mem_spelled
  start h := by
    cases h
    rw [sources_spelled]
    exact hitem.start
  unmarked h := by
    cases h
    rw [sources_spelled, sources_spelled]
    exact fun _ => hitem.unmarked
  stop h := by
    cases h
    rw [sources_spelled]
    exact hitem.stop

/-- Behind an item the scanner goes on as behind a place of an array. -/
theorem recuts_takes (hitem : IsItem item) (tail : List Piece) : Recuts (Takes item) tail := by
  rintro w w' old new rest htakes - hdivide -
  cases htakes with
  | intro place _ next =>
    obtain ⟨c, hc, -⟩ := hitem.start
    have hne : item ≠ [] := by
      rintro rfl
      cases hc
    have hbracket : Divides [']'] := ⟨by decide, by decide, by decide, by decide⟩
    have hsplit : (spelled (place ++ [']'])).reverse ++ w =
        (spelled [']']).reverse ++ ((spelled place).reverse ++ w) := by
      simp [spelled_append]
    have hplain : ∀ d ∈ item, startsNoSpan d = true :=
      fun d hd => startsNoSpan_of_isIdentPart (hitem.ident d hd)
    refine ⟨?_, fun t => IsCut.spelled_append hplain⟩
    have hrest := hdivide.append.2
    rw [hsplit] at hrest ⊢
    have hsame {v : List Piece}
        (hv : v.length ≤ lookBack → startsIn isIdentPart (nearby v) = false) :=
      hbracket.regexAllowed_nearby hitem.divides (by simp) hne hv ((spelled place).reverse ++ w) w'
    cases rest with
    | nil => trivial
    | cons p rest =>
      obtain ⟨d, rfl, hd⟩ := next p rfl
      rw [slashesDivide_cons] at hrest
      have hhere := hsame (v := []) fun _ => rfl
      rw [List.nil_append, List.nil_append] at hhere
      refine ⟨fun _ hallowed => hhere ▸ hallowed, fun hp => hhere ▸ hrest.1 hp,
        keepsMeaning_of_same (fun v => ?_) hrest.2⟩
      have hnext := hsame (v := v ++ [.code d]) fun hshort => by
        have hlook : nearby (v ++ [.code d]) = d :: looks v.reverse := by
          rw [nearby, List.take_of_length_le hshort, List.reverse_concat]
          rfl
        rw [hlook]
        exact hd
      simpa using hnext

/-!
## Loops
-/

/-- The characters that the groups of a loop may hold. -/
def loopSets : Nat → CharSet
  | 2 => isIdentPart ||| (· == '.')
  | 4 => fun _ => true
  | _ => isIdentPart

theorem groupsWithin_fillingLoop : fillingLoop.GroupsWithin loopSets := by
  have hident {s : CharSet} (hs : ∀ c, isIdentPart c = true → s c = true) : ident.Within s :=
    ⟨fun c hc => hs c (isIdentPart_of_isIdentStart hc), hs⟩
  have hpart {c : Char} (hc : isIdentPart c = true) :
      (isIdentPart ||| (· == '.')) c = true := by
    change (isIdentPart c || c == '.') = true
    rw [hc, Bool.true_or]
  have hsource : (ident ++ (lit "." ++ ident).star).Within (isIdentPart ||| (· == '.')) := by
    simp only [within_append, within_star]
    exact ⟨hident fun _ => hpart, within_text (by decide), hident fun _ => hpart⟩
  have hlit (w : String) : (lit w).GroupsWithin loopSets := groupsWithin_text _
  have hgap : gap.GroupsWithin loopSets ∧ blanks.GroupsWithin loopSets := ⟨trivial, trivial⟩
  have hcount : countUp.GroupsWithin loopSets := by
    rw [countUp]
    simp [hlit, hgap, GroupsWithin]
  have hname : ident.GroupsWithin loopSets := ⟨trivial, trivial⟩
  have hmembers : (lit "." ++ ident).star.GroupsWithin loopSets := ⟨hlit ".", hname⟩
  simp only [fillingLoop, groupsWithin_append, groupsWithin_cap, hlit, hgap, hcount, hname,
    hmembers, and_true]
  exact ⟨⟨⟨⟨⟨⟨trivial, hident fun _ => id⟩, trivial⟩, hsource⟩,
    hident fun _ => id⟩, trivial⟩, fun _ _ => rfl, trivial⟩

/-- What a loop that fills an array consists of. -/
inductive FillingParts (t target source index elements : Text) : Prop
  | intro (opening bs closing : Text)
    (split : t = (opening ++ '=' :: bs) ++ (elements ++ (closing ++ ['\x7d'])))
    (htarget : target ≠ []) (targets : target <:+: opening) (sources : source <:+: opening)
    (indices : index <:+: opening) (hbs : ∀ c ∈ bs, isBlank c = true)
    (hclosing : IsInert (closing ++ ['\x7d']))
    (hclosing' : startsIn isIdentPart (closing ++ ['\x7d']) = false)

/-- A loop that fills an array is a target, a source and elements with code between them. -/
theorem fillingParts_of_spells {x : Text} {gs : GroupTexts} (h : fillingLoop.Spells x gs) :
    FillingParts x ((gs.lookup 3).getD []) ((gs.lookup 2).getD []) ((gs.lookup 1).getD [])
      ((gs.lookup 4).getD []) := by
  rw [fillingLoop] at h
  obtain ⟨_, rfl, h₁⟩ := h.of_append_lit
  obtain ⟨_, b₁, rfl, hb₁, h₂⟩ := h₁.of_append_blanks
  obtain ⟨_, rfl, h₃⟩ := h₂.of_append_lit
  obtain ⟨_, b₂, rfl, hb₂, h₄⟩ := h₃.of_append_blanks
  obtain ⟨_, e, gs₁, gs₂, rfl, rfl, he, h₅⟩ := h₄.of_append_cap
  obtain ⟨-, -, rfl⟩ := Spells.of_rounds_one he
  obtain ⟨_, bs, rfl, hbs, h₆⟩ := h₅.of_append_blanks
  obtain ⟨opening, rfl, h₇⟩ := h₆.of_append_lit
  have hstretch (i : Nat) : (gs₁.lookup i).getD [] <:+: opening := by
    cases hi : gs₁.lookup i with
    | none => exact List.nil_infix
    | some y => exact h₇.infix_of_lookup rfl hi
  obtain ⟨z, hz, hne⟩ : ∃ z, gs₁.lookup 3 = some z ∧ z ≠ [] := by
    obtain ⟨_, _, -, -, h₈⟩ := h₇.of_append_blanks
    obtain ⟨_, -, h₉⟩ := h₈.of_append_lit
    obtain ⟨_, _, -, -, h₁₀⟩ := h₉.of_append_blanks
    obtain ⟨_, _, gs₂, gs₃, -, rfl, h₁₁, hsame⟩ := spells_append_iff.mp h₁₀
    cases hsame
    obtain ⟨_, _, -, -, h₁₂⟩ := h₁₁.of_append_blanks
    obtain ⟨_, -, h₁₃⟩ := h₁₂.of_append_lit
    obtain ⟨_, _, -, -, h₁₄⟩ := h₁₃.of_append_blanks
    obtain ⟨_, z, gs₄, gs₅, -, rfl, hz, -⟩ := h₁₄.of_append_cap
    exact ⟨z, rfl, hz.ne_nil rfl⟩
  have hblank {b : Text} (hb : ∀ c ∈ b, isBlank c = true) : ∀ c ∈ b, c ∉ '\x03' :: markHead :=
    fun c hc => notMem_mark_of_isBlank (hb c hc)
  refine .intro opening bs (b₂ ++ ";".toList ++ b₁) ?_ ?_ (hstretch 3) (hstretch 2) (hstretch 1) hbs
    ?_ ?_
  · simp
  · change (gs₁.lookup 3).getD [] ≠ []
    rw [hz]
    exact hne
  · refine ⟨by simp, ?_⟩
    simp only [List.append_assoc, List.forall_mem_append]
    exact ⟨hblank hb₂, by decide, hblank hb₁, by decide⟩
  · simp only [List.append_assoc]
    exact startsIn_blanks_append hb₂ rfl

/-- The names in the header of a map. -/
structure MapNames (target source index : Text) : Prop where
  target_ne : target ≠ []
  targets : ∀ c ∈ target, isIdentPart c = true
  sources : ∀ c ∈ source, (isIdentPart ||| (· == '.')) c = true
  indices : ∀ c ∈ index, isIdentPart c = true
  unmarked : Unmarked target ∧ Unmarked source ∧ Unmarked index

/-- The header of a map. -/
def mapHeader (target source item index : Text) : Text :=
  target ++ (" = " ++ (source ++ (".map((" ++ (item ++ (", " ++ (index ++ ") => "))))))

/-- The header of a map starts no hidden span. -/
theorem MapNames.startsNoSpan {target source index : Text} (h : MapNames target source index)
    (hitem : IsItem item) : ∀ c ∈ mapHeader target source item index, startsNoSpan c = true := by
  have hname {x : Text} (hx : ∀ c ∈ x, isIdentPart c = true) : ∀ c ∈ x, Script.startsNoSpan c = true :=
    fun c hc => startsNoSpan_of_isIdentPart (hx c hc)
  have hsource : ∀ c ∈ source, Script.startsNoSpan c = true := by
    intro c hc
    have hpart : (isIdentPart c || c == '.') = true := h.sources c hc
    rw [Bool.or_eq_true, beq_iff_eq] at hpart
    rcases hpart with hpart | rfl
    · exact startsNoSpan_of_isIdentPart hpart
    · decide
  simp only [mapHeader, List.forall_mem_append]
  exact ⟨hname h.targets, by decide, hsource, by decide, hname hitem.ident, by decide,
    hname h.indices, by decide⟩

/-- A loop that fills an array and the map in its place, behind a window. -/
inductive Maps : (w old new rest : List Piece) → Prop
  | intro {w rest : List Piece} {opening bs closing target source index item : Text}
    {elements body : List Piece} (fresh : Fresh w) (names : MapNames target source index)
    (hitem : IsItem item) (hbs : ∀ c ∈ bs, isBlank c = true)
    (takes : Recast (Takes item) ((spelled (opening ++ '=' :: bs)).reverse ++ w) elements body)
    (helements : ∀ span, elements.getLast? ≠ some (.hidden .comment ('/' :: '/' :: span))) :
    Maps w (spelled (opening ++ '=' :: bs) ++ (elements ++ spelled (closing ++ ['\x7d'])))
      (spelled (mapHeader target source item index) ++ (body ++ spelled ");".toList)) rest

theorem orderly_maps : Orderly Maps where
  fresh h := by
    cases h
    assumption
  spans h := by
    cases h with
    | intro _ _ hitem _ takes _ => simp [spansOf_append, takes.spansOf_eq (orderly_takes hitem)]
  whole h := by
    cases h with
    | intro _ _ hitem _ takes _ =>
      simp only [List.forall_mem_append]
      exact fun h => ⟨fun _ => isWhole_of_mem_spelled,
        takes.isWhole (orderly_takes hitem) h.2.1, fun _ => isWhole_of_mem_spelled⟩
  start h := by
    cases h with
    | intro _ names _ _ _ _ =>
      obtain ⟨c, rest, hc⟩ := List.exists_cons_of_ne_nil names.target_ne
      refine ⟨c, ?_, names.targets c (by simp [hc])⟩
      simp [mapHeader, hc]
  unmarked h := by
    cases h with
    | intro _ names hitem _ takes _ =>
      intro hu
      simp only [sources_append, sources_spelled] at hu ⊢
      have hbody := takes.unmarked (orderly_takes hitem) (hu.of_infix
        ((List.prefix_append _ _).isInfix.trans (List.suffix_append _ _).isInfix))
      have hend := hbody.append_inert_append (s := ");".toList)
        (.of_all (by simp) (by decide)) (⟨by decide, by decide⟩ : Unmarked [])
      have hindex := names.unmarked.2.2.append_inert_append (s := ") => ".toList)
        (.of_all (by simp) (by decide)) hend
      have hnamed := hitem.unmarked.append_inert_append (s := ", ".toList)
        (.of_all (by simp) (by decide)) hindex
      have hsource := names.unmarked.2.1.append_inert_append (s := ".map((".toList)
        (.of_all (by simp) (by decide)) hnamed
      have hall := names.unmarked.1.append_inert_append (s := " = ".toList)
        (.of_all (by simp) (by decide)) hsource
      simpa [mapHeader] using hall
  stop h := by
    cases h
    simp only [sources_append, sources_spelled, List.getLast?_append]
    rintro c ⟨⟩
    decide

/-- Behind a map the scanner goes on as behind the loop. -/
theorem recuts_maps : Recuts Maps [] := by
  rintro w w' old new rest hmaps hcut hdivide hwhole
  cases hmaps with
  | @intro _ opening bs closing target source index item elements body _ names hitem hbs takes
    helements =>
    simp only [List.forall_mem_append] at hwhole
    obtain ⟨⟨-, hwelements, -⟩, -⟩ := hwhole
    have hrest := hdivide.append.2
    have hdelements := hdivide.append.1.append.2.append.1
    simp only [List.append_assoc] at hcut
    have hcelements := isCut_append hcut
    have hopening (v : List Piece) : Opening ((spelled (mapHeader target source item index)).reverse
        ++ v) := by
      have hsplit : mapHeader target source item index = (target ++ (" = " ++ (source ++ (".map((" ++
          (item ++ (", " ++ (index ++ ") ="))))))) ++ '>' :: [' '] := by
        simp [mapHeader]
      rw [hsplit]
      exact opening_append (by decide) (by decide) _ v
    refine ⟨?_, fun t ht => ?_⟩
    · have hbrace : spelled (opening ++ '=' :: bs) ++ (elements ++ spelled (closing ++ ['\x7d'])) =
          spelled (opening ++ '=' :: bs) ++ (elements ++ spelled closing) ++ spelled ['\x7d'] := by
        simp [spelled_append]
      have hsemicolon : spelled (mapHeader target source item index) ++
          (body ++ spelled ");".toList) = spelled (mapHeader target source item index) ++
            (body ++ spelled [')']) ++ spelled [';'] := by
        simp [spelled]
      rw [hbrace] at hrest ⊢
      rw [hsemicolon]
      exact keepsMeaning_of_brace hrest
    · simp only [List.reverse_append, List.append_assoc] at ht ⊢
      refine IsCut.spelled_append (names.startsNoSpan hitem) (takes.isCut (orderly_takes hitem)
        (recuts_takes hitem _) hwelements hcelements hdelements ?_ ?_
          (IsCut.spelled_append (by decide) ht))
      · exact keepsMeaning_of_same
          ((opening_append (by decide) hbs opening w).regexAllowed_nearby (hopening w')) hdelements
      · exact leads_of_getLast? hwelements hcelements helements (by simp) (c := ')') (by simp)
          (by decide) (by decide) (by decide)

/-- A place of an array, behind no name. -/
def placeOf (source index : Text) : Pattern :=
  Pattern.fresh ++ Pattern.text source ++ blanks ++ "[" ++ blanks ++ Pattern.text index ++ blanks ++ "]"

/-- The elements with an item in place of the places of an array. -/
def itemized (source index item elements : Text) : Text :=
  (placeOf source index).replace (fun _ => item) elements

/-- A loop stays as it is or becomes a map. -/
theorem mapForm_eq (t : Text) (m : Match) :
    mapForm t m = m.text ∨ ∃ item, IsItem item ∧ mapForm t m =
      mapHeader (m.group 3) (m.group 2) item (m.group 1) ++
        (itemized (m.group 2) (m.group 1) item (m.group 4) ++ ");") := by
  rw [mapForm]
  dsimp only
  split
  · exact Or.inl rfl
  · right
    split
    · exact ⟨"__item".toList, isItem_longItem, by simp [mapHeader, itemized, placeOf]⟩
    · exact ⟨"item".toList, isItem_item, by simp [mapHeader, itemized, placeOf]⟩

/-- A place of an array is code between names, if the names in it hold no hidden span. -/
theorem of_mem_allIn_placeOf {source index t : Text} {m : Match}
    (hm : m ∈ (placeOf source index).allIn t) :
    endsIn isIdentPart m.before = false ∧ (∃ place, m.text = place ++ [']']) ∧
      (Unmarked source → Unmarked index → Unmarked m.text) := by
  obtain ⟨subject, -, -, k, e, hrun⟩ := (fitsFrom_allIn (placeOf source index) t).of_mem hm
  obtain ⟨gs, h, -⟩ := spells_of_mem_allIn hm
  simp only [placeOf, run_seq] at hrun
  refine ⟨?_, ?_⟩
  · rw [Match.before, subject]
    exact endsIn_of_run_fresh hrun
  generalize m.text = x at h
  rw [placeOf] at h
  obtain ⟨place, rfl, h₁⟩ := h.of_append_lit
  refine ⟨⟨place, rfl⟩, fun hsource hindex => ?_⟩
  obtain ⟨_, b₁, rfl, hb₁, h₂⟩ := h₁.of_append_blanks
  obtain ⟨_, y, _, _, rfl, rfl, h₃, hy⟩ := spells_append_iff.mp h₂
  obtain ⟨rfl, rfl⟩ := spells_text_iff.mp hy
  obtain ⟨_, b₂, rfl, hb₂, h₄⟩ := h₃.of_append_blanks
  obtain ⟨_, rfl, h₅⟩ := h₄.of_append_lit
  obtain ⟨_, b₃, rfl, hb₃, h₆⟩ := h₅.of_append_blanks
  obtain ⟨_, z, _, _, rfl, -, h₇, hz⟩ := spells_append_iff.mp h₆
  obtain ⟨rfl, rfl⟩ := spells_text_iff.mp hz
  obtain ⟨rfl, -⟩ := spells_fresh_iff.mp h₇
  have hblank {b : Text} (hb : ∀ c ∈ b, isBlank c = true) : ∀ c ∈ b, c ∉ '\x03' :: markHead :=
    fun c hc => notMem_mark_of_isBlank (hb c hc)
  have hopen : IsInert (b₃ ++ ("[".toList ++ b₂)) := by
    refine ⟨by simp, ?_⟩
    simp only [List.forall_mem_append]
    exact ⟨hblank hb₃, by decide, hblank hb₂⟩
  have hclose : IsInert (b₁ ++ "]".toList) := by
    refine ⟨by simp, ?_⟩
    simp only [List.forall_mem_append]
    exact ⟨hblank hb₁, by decide⟩
  have hall := hsource.append_inert_append hopen
    (hindex.append_inert_append hclose (⟨by decide, by decide⟩ : Unmarked []))
  simpa using hall

/-- Pieces that show text which does not start with part of a name start between names. -/
theorem fresh_of_startsIn {i : Nat} {ps : List Piece} (hw : ∀ p ∈ ps, p.IsWhole)
    (h : startsIn isIdentPart (Piece.assemble i ps).1 = false) : Fresh ps := by
  rintro p hp
  obtain ⟨qs, rfl⟩ := List.head?_eq_some_iff.mp hp
  cases hw p (List.mem_cons_self ..) with
  | code c => exact ⟨c, rfl, h⟩
  | @hidden kind d span hk _ =>
    have hmark := kind.mark_ne_nil i
    rw [Piece.assemble_hidden, startsIn_append _ hmark,
      isIdentPart_of_mem_mark hk (List.head_mem hmark)] at h
    cases h

/-- Pieces that show elements, with an item in place of the places of an array. -/
theorem exists_takes {source index item elements : Text} (hitem : IsItem item)
    (hsource : Unmarked source) (hindex : Unmarked index)
    (hparted : ∀ z, ']' :: z <:+ elements → startsIn isIdentPart z = false) {w es : List Piece}
    (hfresh : Fresh w) (hes : ∀ p ∈ es, p.IsWhole) {i : Nat}
    (h : (Piece.assemble i es).1 = elements) :
    ∃ body, Recast (Takes item) w es body ∧
      (Piece.assemble i body).1 = itemized source index item elements := by
  have hstands : ∀ m ∈ (placeOf source index).allIn elements, StandsApart m := by
    intro m hm
    obtain ⟨hbefore, ⟨place, hplace⟩, -⟩ := of_mem_allIn_placeOf hm
    refine ⟨.of_endsIn hbefore, .of_endsIn ?_⟩
    rw [hplace, endsIn, List.getLast?_concat]
    decide
  have hnone : ∀ p ∈ ([] : List Piece), p.IsWhole := by simp
  refine exists_recast_of_fits (orderly_takes hitem) (i := i)
    (fitsFrom_allIn (placeOf source index) elements) hstands hnone hes ?_ rfl h
  intro m hm us old rest hsplit hus hold
  obtain ⟨hbefore, ⟨place, hplace⟩, hunmarked⟩ := of_mem_allIn_placeOf hm
  rw [List.nil_append] at hsplit
  subst hsplit
  simp only [List.forall_mem_append] at hes
  have htext := h
  rw [assemble_append_fst i hes.1, assemble_append_fst _ hes.2.1, hus, hold, hplace] at htext
  have hnext := hparted (Piece.assemble (i + (spansOf us).length + (spansOf old).length) rest).1
    ⟨m.before ++ place, by rw [← htext]; simp⟩
  have hspelled : old = spelled (place ++ [']']) := by
    rw [← hplace, ← hold]
    exact eq_spelled_of_assemble hes.2.1 (hold ▸ (hunmarked hsource hindex).head)
  refine Or.inr ⟨spelled item, ?_, assemble_spelled _ item⟩
  rw [hspelled]
  exact .intro place (fresh_of_assemble hes.1 (fun _ => hfresh) (hus ▸ hbefore))
    (fresh_of_startsIn hes.2.2 hnext)

/-- A loop whose elements can be moved: no hidden span comes before them, they do not end in a line
comment, and none of their places of an array stands right before a name or hidden span. -/
structure Mappable (spans : List Text) (m : Match) : Prop where
  unmarked : ∀ x, x ++ m.group 4 <+: m.text → Unmarked x
  closed : ¬ EndsInLineComment spans (m.group 4)
  parted : ∀ z, ']' :: z <:+ m.group 4 → startsIn isIdentPart z = false

instance decidableMappable (spans : List Text) (m : Match) : Decidable (Mappable spans m) :=
  decidable_of_iff ((∀ x ∈ m.text.inits, x ++ m.group 4 <+: m.text → Unmarked x) ∧
    ¬ EndsInLineComment spans (m.group 4) ∧
      ∀ z ∈ (m.group 4).tails, ']' :: z <:+ m.group 4 → startsIn isIdentPart z = false) (by
    constructor
    · rintro ⟨hunmarked, hclosed, hparted⟩
      refine ⟨fun x hx => hunmarked x ?_ hx, hclosed, fun z hz => hparted z ?_ hz⟩
      · exact (List.mem_inits x _).mpr ((List.prefix_append x _).trans hx)
      · exact (List.mem_tails z _).mpr ((List.suffix_cons ']' z).trans hz)
    · exact fun h => ⟨fun x _ => h.unmarked x, h.closed, fun z _ => h.parted z⟩)

/-- A fit of a loop that fills an array, with what it consists of. -/
theorem of_mem_allIn_fillingLoop {t : Text} {m : Match} (hm : m ∈ fillingLoop.allIn t) :
    endsIn isIdentPart m.before = false ∧
      FillingParts m.text (m.group 3) (m.group 2) (m.group 1) (m.group 4) ∧
      ∀ i, ∀ c ∈ m.group i, loopSets i c = true := by
  obtain ⟨subject, -, -, k, e, hrun⟩ := (fitsFrom_allIn fillingLoop t).of_mem hm
  obtain ⟨gs, hspells, hgroups⟩ := spells_of_mem_allIn hm
  simp only [fillingLoop, run_seq] at hrun
  refine ⟨?_, ?_, fun i => ?_⟩
  · rw [Match.before, subject]
    exact endsIn_of_run_fresh hrun
  · simp only [Match.group, hgroups]
    exact fillingParts_of_spells hspells
  · rw [Match.group, hgroups]
    cases hi : gs.lookup i with
    | none => exact fun c hc => by cases hc
    | some y =>
      obtain ⟨l, r, hgs, -⟩ := List.lookup_eq_some_iff.mp hi
      exact hspells.mem_of_groupsWithin groupsWithin_fillingLoop (i, y) (by simp [hgs])

/-- A loop that can become a map is shown by pieces that a map may replace. -/
theorem exists_maps {t : Text} {m : Match} (hm : m ∈ fillingLoop.allIn t) {item : Text}
    (hitem : IsItem item) {before after : List Text} {old : List Piece}
    (hmappable : Mappable (before ++ (spansOf old ++ after)) m) (hold : ∀ p ∈ old, p.IsWhole)
    (h : (Piece.assemble before.length old).1 = m.text) {w : List Piece} (hfresh : Fresh w)
    (rest : List Piece) :
    ∃ new, Maps w old new rest ∧ (Piece.assemble before.length new).1 =
      mapHeader (m.group 3) (m.group 2) item (m.group 1) ++
        (itemized (m.group 2) (m.group 1) item (m.group 4) ++ ");") := by
  obtain ⟨-, ⟨opening, bs, closing, hsplit, htarget, htargets, hsources, hindices, hbs, hclosing,
    hclosing'⟩, hsets⟩ := of_mem_allIn_fillingLoop hm
  have hhead : Unmarked (opening ++ '=' :: bs) :=
    hmappable.unmarked _ ⟨closing ++ ['\x7d'], by rw [hsplit, List.append_assoc]⟩
  have hopening : Unmarked opening := hhead.of_infix (List.prefix_append _ _).isInfix
  have hequals : endsIn isIdentPart (opening ++ '=' :: bs) = false :=
    endsIn_append_blanks (by decide) hbs
  rw [hsplit] at h
  obtain ⟨es, us, rfl, hes, hus⟩ := exists_enclosed_of_assemble hold hhead (.of_endsIn hequals)
    (.of_startsIn hclosing') h
  simp only [List.forall_mem_append] at hold
  obtain rfl : us = spelled (closing ++ ['\x7d']) := by
    rw [eq_spelled_of_assemble hold.2.2 (hus ▸ hclosing.unmarked.head), hus]
  have hwindow : Fresh ((spelled (opening ++ '=' :: bs)).reverse ++ w) :=
    fresh_of_assemble hold.1 (fun _ => hfresh) (i := 0) (by rw [assemble_spelled, hequals])
  obtain ⟨body, htakes, hbody⟩ := exists_takes hitem (hopening.of_infix hsources)
    (hopening.of_infix hindices) hmappable.parted hwindow hold.2.1 hes
  have hnames : MapNames (m.group 3) (m.group 2) (m.group 1) :=
    ⟨htarget, hsets 3, hsets 2, hsets 1, hopening.of_infix htargets, hopening.of_infix hsources,
      hopening.of_infix hindices⟩
  refine ⟨_, .intro hfresh hnames hitem hbs htakes fun span hlast => ?_, ?_⟩
  · have hline := endsInLineComment_of_getLast? hold.2.1 hlast before after
    rw [hes] at hline
    refine hmappable.closed ?_
    simpa [spansOf_append] using hline
  · rw [assemble_append_fst _ fun _ => isWhole_of_mem_spelled,
      assemble_append_fst _ (htakes.isWhole (orderly_takes hitem) hold.2.1)]
    simp only [spansOf_spelled, List.length_nil, Nat.add_zero, assemble_spelled, hbody]

/-!
## The hidden spans
-/

/-- The small functions of a script that become arrow constants. -/
def inlined (code : Text) : List Match :=
  inlinedFrom ((mask .all code).text.length + 1) 0 (mask .all code).text

/-- The loops of a script that become maps. -/
def mapped (code : Text) : List Match :=
  (fillingLoop.allIn (mask .all code).text).filter fun m => mapForm (mask .all code).text m ≠ m.text

/-- Rephrasing the small functions of a script recasts its pieces. -/
theorem exists_recast_inlined {code : Text}
    (h : ∀ m ∈ inlined code, Movable (mask .all code).spans (m.group 1) (Text.trim (m.group 2))
      (Text.trim (m.group 3))) :
    ∃ qs, Recast Inlines [] (pieces .all code) qs ∧ (Piece.assemble 0 qs).1 =
      inlineFrom ((mask .all code).text.length + 1) 0 (mask .all code).text := by
  have hwhole : ∀ p ∈ pieces .all code, p.IsWhole := by
    rw [pieces_all]
    exact fun p => isWhole_of_mem_cut
  have hspans : (mask .all code).spans = spansOf ([] ++ pieces .all code) := rfl
  have hnone : ∀ p ∈ ([] : List Piece), p.IsWhole := by simp
  exact exists_recast_inlineFrom (Nat.zero_le _) fresh_nil hnone hwhole rfl rfl (hspans ▸ h)

/-- Putting maps in the place of loops recasts the pieces of a script. -/
theorem exists_recast_mapped {code : Text} (h : ∀ m ∈ mapped code, Mappable (mask .all code).spans m) :
    ∃ qs, Recast Maps [] (pieces .all code) qs ∧ (Piece.assemble 0 qs).1 =
      fillingLoop.replace (mapForm (mask .all code).text) (mask .all code).text := by
  have hwhole : ∀ p ∈ pieces .all code, p.IsWhole := by
    rw [pieces_all]
    exact fun p => isWhole_of_mem_cut
  have hnone : ∀ p ∈ ([] : List Piece), p.IsWhole := by simp
  refine exists_recast_of_fits orderly_maps (i := 0)
    (fitsFrom_allIn fillingLoop (mask .all code).text) (fun m hm => ?_) hnone hwhole ?_ rfl rfl
  · obtain ⟨hbefore, ⟨opening, bs, closing, hsplit, -⟩, -⟩ := of_mem_allIn_fillingLoop hm
    refine ⟨.of_endsIn hbefore, .of_endsIn ?_⟩
    rw [hsplit]
    simp only [← List.append_assoc]
    rw [endsIn, List.getLast?_concat]
    decide
  · intro m hm us old rest hsplit hus hold
    rw [List.nil_append] at hsplit
    rw [hsplit] at hwhole
    simp only [List.forall_mem_append] at hwhole
    rcases mapForm_eq (mask .all code).text m with hkept | ⟨item, hitem, hform⟩
    · exact Or.inl hkept
    by_cases hkept : mapForm (mask .all code).text m = m.text
    · exact Or.inl hkept
    · right
      have hmappable := h m (List.mem_filter.mpr ⟨hm, by simpa using hkept⟩)
      have hspans : (mask .all code).spans = spansOf us ++ (spansOf old ++ spansOf rest) := by
        rw [← spansOf_append, ← spansOf_append, ← hsplit]
        rfl
      obtain ⟨hbefore, -, -⟩ := of_mem_allIn_fillingLoop hm
      rw [Nat.zero_add] at hold ⊢
      rw [hform]
      exact exists_maps hm hitem (hspans ▸ hmappable) hwhole.2.1 hold
        (fresh_of_assemble hwhole.1 (fun _ => fresh_nil) (hus ▸ hbefore)) rest

/-- Small functions become arrow constants, and loops become maps, without a change to the hidden
spans, if every slash of the code divides and what is moved can be moved. -/
theorem spans_of_moves {code : Text} (hu : Unmarked code)
    (hlen : code.length ≤ 10 ^ Number.digitLimit) (hdivide : SlashesDivide [] (pieces .all code))
    (hmovable : ∀ m ∈ inlined code, Movable (mask .all code).spans (m.group 1)
      (Text.trim (m.group 2)) (Text.trim (m.group 3)))
    (hmappable : ∀ m ∈ mapped code, Mappable (mask .all code).spans m) :
    (∃ out, inlineSmallFunctions code = .ok out ∧
      (mask .all out).spans = (mask .all code).spans) ∧
    ∃ out, vectorization code = .ok out ∧ (mask .all out).spans = (mask .all code).spans := by
  obtain ⟨ps, hinlined, hps⟩ := exists_recast_inlined hmovable
  obtain ⟨qs, hmapped, hqs⟩ := exists_recast_mapped hmappable
  rw [inlineSmallFunctions, vectorization]
  rw [← hps, ← hqs]
  exact ⟨spans_mask_of_recast orderly_inlines recuts_inlines hu hlen hdivide hinlined,
    spans_mask_of_recast orderly_maps recuts_maps hu hlen hdivide hmapped⟩

/-- A small function and a loop that fills an array, with comments and a string in what is moved. -/
def movedExpressions : Text :=
  "function f(a /*x*/) \x7breturn a/2;\x7d\n" ++ "for (let i=0;i<p.length;i++) \x7bq[i]=/*y*/ p[i]+\"/\";\x7d //"

/-- Both keep their hidden spans. -/
theorem spans_of_moves_movedExpressions :
    (Unmarked movedExpressions ∧ movedExpressions.length ≤ 10 ^ Number.digitLimit ∧
      SlashesDivide [] (pieces .all movedExpressions) ∧
      (inlined movedExpressions).length = 1 ∧ (mapped movedExpressions).length = 1) ∧
    (∃ out, out = ("const f = (a /*x*/) => a/2;\n" ++
        "for (let i=0;i<p.length;i++) \x7bq[i]=/*y*/ p[i]+\"/\";\x7d //" : Text) ∧
      inlineSmallFunctions movedExpressions = .ok out ∧
      (mask .all out).spans = (mask .all movedExpressions).spans) ∧
    ∃ out, out = ("function f(a /*x*/) \x7breturn a/2;\x7d\n" ++
        "q = p.map((item, i) => /*y*/ item+\"/\"); //" : Text) ∧
      vectorization movedExpressions = .ok out ∧
      (mask .all out).spans = (mask .all movedExpressions).spans := by
  have hcode : movedExpressions = _ := Text.toList_append_toList_eq rfl rfl
  have hu : Unmarked movedExpressions := by rw [hcode]; decide +kernel
  have hlen : movedExpressions.length ≤ 10 ^ Number.digitLimit :=
    le_pow_digitLimit (by rw [hcode]; decide +kernel)
  have hdivide : SlashesDivide [] (pieces .all movedExpressions) := by rw [hcode]; decide +kernel
  have hlengths : (inlined movedExpressions).length = 1 ∧ (mapped movedExpressions).length = 1 := by
    rw [hcode]
    decide +kernel
  obtain ⟨⟨out, hout, hspans⟩, out', hout', hspans'⟩ :=
    spans_of_moves hu hlen hdivide (by rw [hcode]; decide +kernel) (by rw [hcode]; decide +kernel)
  have hinlined : (inlineSmallFunctions movedExpressions).toOption = some
      ("const f = (a /*x*/) => a/2;\n" ++
        "for (let i=0;i<p.length;i++) \x7bq[i]=/*y*/ p[i]+\"/\";\x7d //" : Text) := by
    refine Text.of_toList_append
      (P := fun t => (inlineSmallFunctions movedExpressions).toOption = some t) rfl rfl ?_
    rw [hcode]
    decide +kernel
  have hmapped : (vectorization movedExpressions).toOption = some
      ("function f(a /*x*/) \x7breturn a/2;\x7d\n" ++
        "q = p.map((item, i) => /*y*/ item+\"/\"); //" : Text) := by
    refine Text.of_toList_append
      (P := fun t => (vectorization movedExpressions).toOption = some t) rfl rfl ?_
    rw [hcode]
    decide +kernel
  obtain rfl := Except.ok.inj (hout.symm.trans (Outcome.toOption_eq_some_iff.mp hinlined))
  obtain rfl := Except.ok.inj (hout'.symm.trans (Outcome.toOption_eq_some_iff.mp hmapped))
  exact ⟨⟨hu, hlen, hdivide, hlengths⟩, ⟨_, rfl, hout, hspans⟩, _, rfl, hout', hspans'⟩

/-- A line comment at the end of an expression swallows the semicolon behind the moved
expression. -/
theorem inlineSmallFunctions_fails_trailingComment :
    Unmarked "function f(a) \x7b return a // c\n; \x7d" ∧
      ∃ out, inlineSmallFunctions "function f(a) \x7b return a // c\n; \x7d" = .ok out ∧
        out = "const f = (a) => a // c;".toList ∧ (mask .all out).spans = ["// c;".toList] ∧
        (mask .all out).spans ≠ (mask .all "function f(a) \x7b return a // c\n; \x7d").spans := by
  refine ⟨by decide, "const f = (a) => a // c;", Outcome.toOption_eq_some_iff.mp
    (by decide +kernel), rfl, by decide +kernel, by decide +kernel⟩

end HostScript.Optimize
