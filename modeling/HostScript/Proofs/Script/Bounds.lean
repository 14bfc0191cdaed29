import HostScript.Proofs.Script.Chunked
import HostScript.Proofs.Script.Spans
import Mathlib.Order.WellFounded

/-!
# The scanners stay within the script

The scanner of templates calls the scanner of substitutions, which calls those of strings and of
templates, and each goes on where the other one ended. Each call and each round starts behind the
place it is made at, so the calls end, and every scanner returns a place behind its own start and
within the script. The measured lengths of strings, templates and substitutions are what these calls
return. Masking therefore moves on with each piece, and it opens no more substitutions than there
are characters.
-/

namespace HostScript.Script

variable {code rest : Text} {f g : Frame} {i j k m r : Nat} {o : MaskOptions}
variable {inner inner' : Text → Masked} {window : List Piece}

/-! ### Ends of spans -/

/-- The offset just past the string that starts at an offset with its quote. -/
def stringEnd (code : Text) (i : Nat) (h : i < code.length) : Nat :=
  i + 1 + stringRest code[i] (code.drop (i + 1))

/-- The offset just past the regular expression literal that starts at an offset, if its line does
not end first. -/
def regexEnd? (code : Text) (i : Nat) : Option Nat :=
  (regexRest (code.drop (i + 1))).map (i + 1 + ·)

/-- The offset just past the line comment that starts at an offset. -/
def lineCommentEnd (code : Text) (i : Nat) : Nat := i + lineCommentLength (code.drop i)

/-- The offset just past the block comment that starts at an offset. -/
def blockCommentEnd (code : Text) (i : Nat) : Nat := i + blockCommentLength (code.drop i)

/-! ### Calls of the scanners -/

/-- What a scanner does at a place. -/
inductive Move where
  /-- It returns a place. -/
  | returns (place : Nat)
  /-- It goes on at another place. -/
  | goesOn (frame : Frame) (place : Nat)
  /-- It calls another scanner and goes on at the place which that one returns. -/
  | calls (frame : Frame) (place : Nat)

/-- The move of a scanner at a place: over the next character, or over the two of an escape even
where the script ends behind the first of them. -/
def move (code : Text) (frame : Frame) (j : Nat) : Move :=
  match code[j]? with
  | none => .returns code.length
  | some c =>
    if frame.escapes && c == '\\' then .goesOn frame (j + 2)
    else
      match frame with
      | .quoted q => if c == q || c == '\n' then .returns (j + 1) else .goesOn frame (j + 1)
      | .template =>
        if c == '\x60' then .returns (j + 1)
        else if c == '$' && code[j + 1]? == some '\x7b' then .calls (.hole 0) (j + 2)
        else .goesOn frame (j + 1)
      | .hole d =>
        if c == '\x22' || c == '\x27' then .calls (.quoted c) (j + 1)
        else if c == '\x60' then .calls .template (j + 1)
        else if c == '\x7b' then .goesOn (.hole (d + 1)) (j + 1)
        else if c == '\x7d' then
          (match d with
          | 0 => .returns (j + 1)
          | d + 1 => .goesOn (.hole d) (j + 1))
        else .goesOn frame (j + 1)

/-- A scanner that is at a place returns a place. -/
inductive Returns (code : Text) : Frame → Nat → Nat → Prop where
  | returns {f : Frame} {j r : Nat} (h : move code f j = .returns r) : Returns code f j r
  | goesOn {f g : Frame} {j k r : Nat} (h : move code f j = .goesOn g k)
      (hrest : Returns code g k r) : Returns code f j r
  | calls {f g : Frame} {j k m r : Nat} (h : move code f j = .calls g k)
      (hcall : Returns code g k m) (hrest : Returns code f m r) : Returns code f j r

/-- A scanner at a place needs the result of a scanner at another place. -/
inductive NeededBy (code : Text) : Frame × Nat → Frame × Nat → Prop where
  | round {f g : Frame} {j k : Nat} (h : move code f j = .goesOn g k) :
      NeededBy code (g, k) (f, j)
  | call {f g : Frame} {j k : Nat} (h : move code f j = .calls g k) : NeededBy code (g, k) (f, j)
  | rest {f g : Frame} {j k m : Nat} (h : move code f j = .calls g k)
      (hcall : Returns code g k m) : NeededBy code (f, m) (f, j)

/-- Whether a frame is a substitution. -/
def Frame.isHole : Frame → Bool
  | .hole _ => true
  | _ => false

/-- What a scanner may do at a place: it returns the end of the script, or the next place, which in
a substitution is behind a closing brace; or it moves on within the script. -/
theorem move_spec (code : Text) (f : Frame) (j : Nat) :
    match move code f j with
    | .returns r => code.length ≤ j ∧ r = code.length ∨
        j < code.length ∧ r = j + 1 ∧ (f.isHole = true → code[j]? = some '\x7d')
    | .goesOn g k => j < code.length ∧ j < k ∧ g.isHole = f.isHole
    | .calls _ k => j < code.length ∧ j < k := by
  rw [move]
  cases hc : code[j]? with
  | none => exact .inl ⟨List.getElem?_eq_none_iff.mp hc, rfl⟩
  | some c =>
    have hj : j < code.length := (List.getElem?_eq_some_iff.mp hc).1
    cases f with
    | quoted q => grind [Frame.escapes, Frame.isHole]
    | template => grind [Frame.escapes, Frame.isHole]
    | hole d => cases d <;> grind [Frame.escapes, Frame.isHole]

theorem of_move_eq_returns (h : move code f j = .returns r) :
    code.length ≤ j ∧ r = code.length ∨
      j < code.length ∧ r = j + 1 ∧ (f.isHole = true → code[j]? = some '\x7d') := by
  have := move_spec code f j
  rwa [h] at this

theorem of_move_eq_goesOn (h : move code f j = .goesOn g k) :
    j < code.length ∧ j < k ∧ g.isHole = f.isHole := by
  have := move_spec code f j
  rwa [h] at this

theorem of_move_eq_calls (h : move code f j = .calls g k) : j < code.length ∧ j < k := by
  have := move_spec code f j
  rwa [h] at this

/-- What is returned is within the script, and no place before the start. -/
theorem Returns.bounds (h : Returns code f j r) : min j code.length ≤ r ∧ r ≤ code.length := by
  induction h with
  | returns h =>
    have := of_move_eq_returns h
    omega
  | goesOn h _ ih =>
    have := of_move_eq_goesOn h
    omega
  | calls h _ _ ihcall ihrest =>
    have := of_move_eq_calls h
    omega

/-- Within the script a scanner moves on. -/
theorem Returns.lt (h : Returns code f j r) (hj : j < code.length) : j < r := by
  cases h with
  | returns h =>
    have := of_move_eq_returns h
    omega
  | goesOn h hrest =>
    have := of_move_eq_goesOn h
    have := hrest.bounds
    omega
  | calls h hcall hrest =>
    have := of_move_eq_calls h
    have := hcall.bounds
    have := hrest.bounds
    omega

/-- A substitution that ends within the script ends with its closing brace. -/
theorem Returns.getElem?_pred (h : Returns code f j r) (hf : f.isHole = true)
    (hr : r < code.length) : code[r - 1]? = some '\x7d' := by
  induction h with
  | returns h =>
    rcases of_move_eq_returns h with ⟨-, rfl⟩ | ⟨-, rfl, hbrace⟩
    · exact absurd hr (lt_irrefl _)
    · exact hbrace hf
  | goesOn h _ ih => exact ih ((of_move_eq_goesOn h).2.2.trans hf) hr
  | calls _ _ _ _ ih => exact ih hf hr

theorem Returns.unique (h : Returns code f j r) (hm : Returns code f j m) : r = m := by
  induction h generalizing m with
  | returns h =>
    cases hm with
    | returns hm => exact Move.returns.inj (h.symm.trans hm)
    | goesOn hm => cases h.symm.trans hm
    | calls hm => cases h.symm.trans hm
  | goesOn h _ ih =>
    cases hm with
    | returns hm => cases h.symm.trans hm
    | goesOn hm hrest =>
      cases h.symm.trans hm
      exact ih hrest
    | calls hm => cases h.symm.trans hm
  | calls h _ _ ihcall ihrest =>
    cases hm with
    | returns hm => cases h.symm.trans hm
    | goesOn hm => cases h.symm.trans hm
    | calls hm hcall hrest =>
      cases h.symm.trans hm
      rw [← ihcall hcall] at hrest
      exact ihrest hrest

/-- What a scanner needs is behind the place where it is. -/
theorem NeededBy.lt {s t : Frame × Nat} (h : NeededBy code s t) :
    t.2 < code.length ∧ t.2 < s.2 := by
  cases h with
  | round h => exact ⟨(of_move_eq_goesOn h).1, (of_move_eq_goesOn h).2.1⟩
  | call h => exact of_move_eq_calls h
  | rest h hcall =>
    have := of_move_eq_calls h
    have := hcall.bounds
    dsimp only
    omega

/-- The calls of the scanners end. -/
theorem wellFounded_neededBy (code : Text) : WellFounded (NeededBy code) := by
  refine Subrelation.wf ?_ (measure fun s : Frame × Nat => code.length - s.2).wf
  intro s t h
  have := h.lt
  change code.length - s.2 < code.length - t.2
  omega

/-! ### Lengths of spans -/

theorem Frame.step_append (f : Frame) (fs gs : List Frame) (c : Char) :
    f.step (fs ++ gs) c = f.step fs c ++ gs := by
  cases f with
  | quoted q => grind [Frame.step]
  | template => grind [Frame.step]
  | hole d => cases d <;> grind [Frame.step]

/-- The frames further down are closed behind those on top of them. -/
theorem spanLength_append_frames (fs gs : List Frame) (t : Text) :
    spanLength (fs ++ gs) t = spanLength fs t + spanLength gs (t.drop (spanLength fs t)) := by
  induction hlen : t.length using Nat.strong_induction_on generalizing fs t with
  | _ len ih =>
    subst hlen
    cases fs with
    | nil => simp [spanLength]
    | cons f below =>
      cases t with
      | nil => simp [spanLength_nil]
      | cons c rest =>
        have hrest (fs : List Frame) := ih rest.length (by simp) fs rest rfl
        have htail (fs : List Frame) := ih rest.tail.length (by grind) fs rest.tail rfl
        have hdrop (n : Nat) : (c :: rest).drop (2 + n) = rest.tail.drop n := by
          cases rest <;> simp [Nat.add_comm 2]
        rw [List.cons_append, spanLength_cons, spanLength_cons, Frame.step_append]
        split
        · split
          · simp_all [spanLength_nil]
          · rw [← List.cons_append, htail, hdrop, Nat.add_assoc]
        · split
          · rw [← List.cons_append, ← List.cons_append, htail, hdrop, Nat.add_assoc]
          · rw [hrest, Nat.add_comm 1 (spanLength _ rest), List.drop_succ_cons, Nat.add_right_comm,
              Nat.add_comm 1]

/-- Where the measured length of what is open at a place ends, or the script does. -/
def scanEnd (code : Text) (f : Frame) (j : Nat) : Nat :=
  min code.length (j + spanLength [f] (code.drop j))

theorem scanEnd_of_le (hj : j ≤ code.length) :
    scanEnd code f j = j + spanLength [f] (code.drop j) := by
  have := spanLength_le [f] (code.drop j)
  rw [List.length_drop] at this
  exact Nat.min_eq_right (by omega)

theorem scanEnd_of_ge (hj : code.length ≤ j) : scanEnd code f j = code.length := by
  rw [scanEnd, List.drop_eq_nil_of_le hj, spanLength_nil]
  exact Nat.min_eq_left hj

/-- A frame on top of another one is measured first, and then the other one from its end on. -/
theorem scanEnd_scanEnd (hk : k ≤ code.length) :
    scanEnd code f (scanEnd code g k) =
      min code.length (k + spanLength [g, f] (code.drop k)) := by
  have hsplit : spanLength [g, f] (code.drop k) = spanLength [g] (code.drop k) +
      spanLength [f] ((code.drop k).drop (spanLength [g] (code.drop k))) :=
    spanLength_append_frames [g] [f] _
  rw [hsplit, scanEnd_of_le hk, scanEnd, List.drop_drop, Nat.add_assoc]

/-- What is measured over an escape. -/
theorem scanEnd_escape (hj : j < code.length) (h : (f.escapes && code[j] == '\\') = true) :
    scanEnd code f j = scanEnd code f (j + 2) := by
  rw [scanEnd, List.drop_eq_getElem_cons hj, spanLength_cons, if_pos h, List.tail_drop]
  by_cases hlast : code.length ≤ j + 1
  · rw [if_pos (List.drop_eq_nil_of_le hlast), scanEnd_of_ge (by omega)]
    exact Nat.min_eq_left hlast
  · rw [if_neg (by rw [List.drop_eq_nil_iff]; exact hlast), ← Nat.add_assoc, scanEnd]

/-- What is measured over the opening of a substitution. -/
theorem scanEnd_hole (hj : j < code.length) (h : code[j] = '$')
    (hopen : code[j + 1]? = some '\x7b') :
    scanEnd code .template j = scanEnd code .template (scanEnd code (.hole 0) (j + 2)) := by
  have hk : j + 2 ≤ code.length := (List.getElem?_eq_some_iff.mp hopen).1
  rw [scanEnd_scanEnd hk, scanEnd, List.drop_eq_getElem_cons hj, spanLength_cons,
    if_neg (by simp [h]), if_pos ⟨rfl, h, by rw [List.head?_drop, hopen]⟩, List.tail_drop,
    ← Nat.add_assoc]

/-- What is measured over any other character. -/
theorem scanEnd_step (hj : j < code.length) (h : (f.escapes && code[j] == '\\') = false)
    (hhole : ¬(f = .template ∧ code[j] = '$' ∧ code[j + 1]? = some '\x7b')) :
    scanEnd code f j =
      min code.length (j + 1 + spanLength (f.step [] code[j]) (code.drop (j + 1))) := by
  rw [scanEnd, List.drop_eq_getElem_cons hj, spanLength_cons, if_neg (by simp [h]),
    if_neg (by rwa [List.head?_drop]), ← Nat.add_assoc]

/-- The ends that are measured go along with the moves. -/
theorem scanEnd_eq_of_move (code : Text) (f : Frame) (j : Nat) :
    match move code f j with
    | .returns r => scanEnd code f j = r
    | .goesOn g k => scanEnd code f j = scanEnd code g k
    | .calls g k => scanEnd code f j = scanEnd code f (scanEnd code g k) := by
  cases hc : code[j]? with
  | none =>
    rw [move, hc]
    exact scanEnd_of_ge (List.getElem?_eq_none_iff.mp hc)
  | some c =>
    obtain ⟨hj, rfl⟩ := List.getElem?_eq_some_iff.mp hc
    have hnext : j + 1 ≤ code.length := hj
    rw [move, hc]
    cases hescape : f.escapes && code[j] == '\\' with
    | true =>
      simp only [hescape, if_true]
      exact scanEnd_escape hj hescape
    | false =>
      simp only [hescape, Bool.false_eq_true, if_false]
      by_cases hhole : f = .template ∧ code[j] = '$' ∧ code[j + 1]? = some '\x7b'
      · obtain ⟨rfl, hdollar, hopen⟩ := hhole
        simp only [hdollar, hopen, Char.reduceBEq, Bool.false_eq_true, if_false, if_true,
          beq_self_eq_true, Bool.and_self]
        exact scanEnd_hole hj hdollar hopen
      · have hstep := scanEnd_step hj hescape hhole
        have hcloses (h : f.step [] code[j] = []) : scanEnd code f j = j + 1 := by
          rw [hstep, h, spanLength]
          exact Nat.min_eq_right hnext
        have hstays {g : Frame} (h : f.step [] code[j] = [g]) :
            scanEnd code f j = scanEnd code g (j + 1) := by
          rw [hstep, h, scanEnd]
        have hopens {g : Frame} (h : f.step [] code[j] = [g, f]) :
            scanEnd code f j = scanEnd code f (scanEnd code g (j + 1)) := by
          rw [hstep, h, scanEnd_scanEnd hnext]
        -- What the scanner does is what its step makes of the frame.
        cases f with
        | quoted q => grind [Frame.step]
        | template => grind [Frame.step]
        | hole d => cases d <;> grind [Frame.step]

/-- A scanner returns where the measured length ends. -/
theorem returns_scanEnd (code : Text) (f : Frame) (j : Nat) :
    Returns code f j (scanEnd code f j) := by
  induction hs : (f, j) using (wellFounded_neededBy code).induction generalizing f j with
  | _ s ih =>
    subst hs
    have hend := scanEnd_eq_of_move code f j
    cases hmove : move code f j with
    | returns r =>
      rw [hmove] at hend
      exact .returns (hend ▸ hmove)
    | goesOn g k =>
      rw [hmove] at hend
      rw [hend]
      exact .goesOn hmove (ih (g, k) (.round hmove) g k rfl)
    | calls g k =>
      rw [hmove] at hend
      rw [hend]
      have hcall := ih (g, k) (.call hmove) g k rfl
      exact .calls hmove hcall (ih (f, _) (.rest hmove hcall) f _ rfl)

/-! ### Places of ends -/

theorem stringEnd_eq (hi : i < code.length) :
    stringEnd code i hi = scanEnd code (.quoted code[i]) (i + 1) := by
  rw [scanEnd_of_le hi, stringEnd, stringRest]

theorem templateEnd_eq (hi : i < code.length) :
    templateEnd code i = scanEnd code .template (i + 1) := by
  rw [scanEnd_of_le hi, templateEnd, templateRest]

theorem holeEnd_eq (hj : j ≤ code.length) : holeEnd code j = scanEnd code (.hole 0) j := by
  rw [scanEnd_of_le hj, holeEnd, holeRest]

theorem regexEnd?_bounds (h : regexEnd? code i = some r) : i + 1 < r ∧ r ≤ code.length := by
  obtain ⟨n, hn, rfl⟩ := Option.map_eq_some_iff.mp h
  have hpos := regexRest_go_pos hn
  have hle := regexRest_go_le hn
  rw [List.length_drop] at hle
  omega

/-! ### Masking -/

/-- How much masking covers at a character does not depend on what it hides. -/
theorem covered_headPieces (o : MaskOptions) (inner : Text → Masked) (window : List Piece)
    (c : Char) (rest : Text) :
    (headPieces o inner window c rest).2 =
      ((spanAt? (nearby window) c rest).map Prod.snd).getD 0 := by
  have hall : (headPieces .all inner window c rest).2 =
      ((spanAt? (nearby window) c rest).map Prod.snd).getD 0 := by
    rw [headPieces_all]
    cases spanAt? (nearby window) c rest <;> rfl
  rw [← hall]
  unfold headPieces
  split
  · rfl
  split
  · cases o.templates <;> rfl
  split
  · split
    · rfl
    · rfl
    · split
      · split <;> rfl
      · rfl
  · rfl

/-- Where masking goes on behind what starts at a place; `before` is the end of what it wrote. -/
def nextPlace (before code : Text) (i : Nat) (hi : i < code.length) : Nat :=
  i + 1 + ((spanAt? before code[i] (code.drop (i + 1))).map Prod.snd).getD 0

theorem nextPlace_bounds (before : Text) (hi : i < code.length) :
    i < nextPlace before code i hi ∧ nextPlace before code i hi ≤ code.length := by
  have hcovered : ((spanAt? before code[i] (code.drop (i + 1))).map Prod.snd).getD 0 ≤
      (code.drop (i + 1)).length := by
    cases hspan : spanAt? before code[i] (code.drop (i + 1)) with
    | none => exact Nat.zero_le _
    | some span => exact spanAt?_le hspan
  rw [List.length_drop] at hcovered
  rw [nextPlace]
  omega

/-- One round of masking writes the pieces that start at a place and goes on at the next one. -/
theorem scanPieces_drop (o : MaskOptions) (inner : Text → Masked) (window : List Piece)
    (hi : i < code.length) :
    scanPieces o inner window 0 (code.drop i) =
      (headPieces o inner window code[i] (code.drop (i + 1))).1 ++
        scanPieces o inner
          ((headPieces o inner window code[i] (code.drop (i + 1))).1.reverse ++ window) 0
          (code.drop (nextPlace (nearby window) code i hi)) := by
  have hnext : nextPlace (nearby window) code i hi =
      i + 1 + (headPieces o inner window code[i] (code.drop (i + 1))).2 := by
    rw [covered_headPieces, nextPlace]
  rw [List.drop_eq_getElem_cons hi, scanPieces]
  dsimp only
  rw [scanPieces_skip o inner _ (headPieces o inner window code[i] _).2, List.drop_drop, ← hnext]

/-- The pieces of a template depend on how shorter scripts are masked only. -/
theorem templatePieces_congr {n : Nat} (h : ∀ t : Text, t.length < n → inner t = inner' t)
    (chunk : Text) (skip : Nat) (t : Text) (ht : t.length ≤ n) :
    templatePieces inner chunk skip t = templatePieces inner' chunk skip t := by
  fun_induction templatePieces inner chunk skip t with
  | case1 => rw [templatePieces]
  | case2 chunk skip c rest ih => exact ih (by grind)
  | case3 => rw [templatePieces]
  | case4 chunk c rest ih =>
    rw [templatePieces]
    exact ih (by grind)
  | case5 chunk rest length close ih =>
    rw [templatePieces, ih (by grind), h (rest.take (length - 1)) (by grind)]
  | case6 chunk c rest h1 h2 h3 ih =>
    rw [templatePieces, ih (by grind)]
    all_goals assumption

theorem headPieces_congr {n : Nat} (h : ∀ t : Text, t.length < n → inner t = inner' t)
    (o : MaskOptions) (window : List Piece) (c : Char) {rest : Text} (hrest : rest.length ≤ n) :
    headPieces o inner window c rest = headPieces o inner' window c rest := by
  have htemplate := templatePieces_congr h [c] 0 (rest.take (templateRest rest))
    ((List.length_take_le' ..).trans hrest)
  simp only [headPieces, htemplate]

/-- The pieces of a script depend on how shorter scripts are masked only. -/
theorem scanPieces_congr {n : Nat} (h : ∀ t : Text, t.length < n → inner t = inner' t)
    (o : MaskOptions) (window : List Piece) (skip : Nat) {t : Text} (ht : t.length ≤ n) :
    scanPieces o inner window skip t = scanPieces o inner' window skip t := by
  induction t generalizing window skip with
  | nil => simp only [scanPieces]
  | cons c rest ih =>
    have hrest : rest.length ≤ n := (Nat.le_succ _).trans ht
    cases skip with
    | zero => simp only [scanPieces, headPieces_congr h o window c hrest, ih _ _ hrest]
    | succ skip => exact ih window skip hrest

/-- The bound on the nesting is not reached. -/
theorem maskWithin_eq_mask (o : MaskOptions) {depth : Nat} {t : Text} (ht : t.length < depth) :
    maskWithin o depth t = mask o t := by
  induction hlen : t.length using Nat.strong_induction_on generalizing depth t with
  | _ len ih =>
    subst hlen
    obtain ⟨depth, rfl⟩ := Nat.exists_eq_add_of_lt ht
    have hinner (u : Text) (hu : u.length < t.length) :
        maskWithin o (t.length + depth) u = maskWithin o t.length u := by
      rw [ih u.length hu (by omega) rfl, ih u.length hu hu rfl]
    rw [mask, maskWithin, maskWithin, scanPieces_congr hinner o [] 0 le_rfl]

/-- A substitution is masked as a script of its own. -/
theorem mask_eq_scanPieces (o : MaskOptions) (code : Text) :
    mask o code = ⟨(Piece.assemble 0 (scanPieces o (mask o) [] 0 code)).1,
      (Piece.assemble 0 (scanPieces o (mask o) [] 0 code)).2⟩ := by
  have hpieces : pieces o code = scanPieces o (mask o) [] 0 code :=
    scanPieces_congr (fun t ht => maskWithin_eq_mask o ht) o [] 0 le_rfl
  rw [mask_eq, hpieces]

/-- The calls of the scanners end. Each scanner returns one place, which is behind its own start and
within the script, and behind a closing brace where a substitution ends within the script; a regular
expression literal has at least its two slashes. Each round of masking goes on at a later place
within the script, and what it opens is masked in the same way. -/
theorem scanners_advance {code : Text} {i j : Nat} (hi : i < code.length) (hj : j ≤ code.length)
    (o : MaskOptions) (window : List Piece) :
    WellFounded (NeededBy code) ∧
    (Returns code (.quoted code[i]) (i + 1) (stringEnd code i hi) ∧
      i < stringEnd code i hi ∧ stringEnd code i hi ≤ code.length) ∧
    (Returns code .template (i + 1) (templateEnd code i) ∧
      i < templateEnd code i ∧ templateEnd code i ≤ code.length) ∧
    (Returns code (.hole 0) j (holeEnd code j) ∧
      j ≤ holeEnd code j ∧ holeEnd code j ≤ code.length ∧
      (holeEnd code j < code.length → code[holeEnd code j - 1]? = some '\x7d')) ∧
    (∀ r ∈ regexEnd? code i, i + 1 < r ∧ r ≤ code.length) ∧
    (i < nextPlace (nearby window) code i hi ∧
      nextPlace (nearby window) code i hi ≤ code.length ∧
      scanPieces o (mask o) window 0 (code.drop i) =
        (headPieces o (mask o) window code[i] (code.drop (i + 1))).1 ++
          scanPieces o (mask o)
            ((headPieces o (mask o) window code[i] (code.drop (i + 1))).1.reverse ++ window) 0
            (code.drop (nextPlace (nearby window) code i hi))) ∧
    mask o code = ⟨(Piece.assemble 0 (scanPieces o (mask o) [] 0 code)).1,
      (Piece.assemble 0 (scanPieces o (mask o) [] 0 code)).2⟩ := by
  have hstring := returns_scanEnd code (.quoted code[i]) (i + 1)
  have htemplate := returns_scanEnd code .template (i + 1)
  have hhole := returns_scanEnd code (.hole 0) j
  rw [← stringEnd_eq hi] at hstring
  rw [← templateEnd_eq hi] at htemplate
  rw [← holeEnd_eq hj] at hhole
  have hstringIn := hstring.bounds
  have htemplateIn := htemplate.bounds
  have hholeIn := hhole.bounds
  obtain ⟨hnext, hnextIn⟩ := nextPlace_bounds (nearby window) hi
  exact ⟨wellFounded_neededBy code, ⟨hstring, by omega, by omega⟩, ⟨htemplate, by omega, by omega⟩,
    ⟨hhole, by omega, by omega, hhole.getElem?_pred rfl⟩, fun r hr => regexEnd?_bounds hr,
    ⟨hnext, hnextIn, scanPieces_drop o (mask o) window hi⟩, mask_eq_scanPieces o code⟩

/-- A template in a substitution of a template, neither closed; the substitution in the inner one
holds a brace in a string and a division. -/
theorem scanners_advance_cutTemplate :
    let code := "\x60a$\x7b\x60b$\x7b'\x7d'/2\x7dc".toList
    0 < code.length ∧ 8 ≤ code.length ∧ templateEnd code 0 = code.length ∧
      holeEnd code 8 = 14 ∧ code[13]? = some '\x7d' ∧ Returns code (.hole 0) 8 14 := by
  have hlen : 0 < "\x60a$\x7b\x60b$\x7b'\x7d'/2\x7dc".toList.length := by decide
  have hhole : 8 ≤ "\x60a$\x7b\x60b$\x7b'\x7d'/2\x7dc".toList.length := by decide
  obtain ⟨-, -, -, ⟨hreturns, -⟩, -⟩ := scanners_advance hlen hhole .all []
  exact ⟨hlen, hhole, by decide, by decide, by decide, hreturns⟩

end HostScript.Script
