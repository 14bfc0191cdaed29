import HostScript.Proofs.Script.Collapse
import HostScript.Proofs.Script.Mark

/-!
# Tame scripts

A script is tame if strings and templates on one line are all that its quotes belong to. Tame
scripts and their shown texts may be cut and put together again: a script at any place of its code,
a shown text at any place over which no word reaches. The quotes of a tame script tell where its
literals are, and the scanner finds them there.
-/

namespace HostScript.Script

open Pattern

/-- A character of code is no quote. -/
def isTameCode : CharSet := outside (among "\x22\x27\x60")

/-- A character of a set without quotes is tame. -/
theorem isTameCode_of_mem {s : CharSet} (hs : ∀ d ∈ "\x22\x27\x60".toList, s d = false)
    {c : Char} (h : s c = true) : isTameCode c = true := by
  rw [isTameCode, outside, Bool.not_eq_true', Bool.eq_false_iff]
  intro hmem
  rw [hs c (List.contains_iff_mem.mp hmem)] at h
  cases h

theorem isTameCode_of_isBlank {c : Char} (h : isBlank c = true) : isTameCode c = true :=
  isTameCode_of_mem (by decide) h

/-- What lies in a set of characters holds none outside it. -/
theorem notMem_of_forall {s : CharSet} {c : Char} {t : Text} (h : ∀ d ∈ t, s d = true)
    (hc : s c = false) : c ∉ t := by
  intro hmem
  rw [h c hmem] at hc
  cases hc

/-- A text without quotes. -/
def Quoteless (t : Text) : Prop := ∀ c ∈ t, isTameCode c = true

instance (t : Text) : Decidable (Quoteless t) := List.decidableBAll _ t

@[simp] theorem quoteless_nil : Quoteless [] := List.forall_mem_nil _

@[simp] theorem quoteless_cons {c : Char} {t : Text} :
    Quoteless (c :: t) ↔ isTameCode c = true ∧ Quoteless t := List.forall_mem_cons

@[simp] theorem quoteless_append {x y : Text} : Quoteless (x ++ y) ↔ Quoteless x ∧ Quoteless y :=
  List.forall_mem_append

theorem quoteless_blank {t : Text} (h : ∀ c ∈ t, isBlank c = true) : Quoteless t :=
  fun c hc => isTameCode_of_isBlank (h c hc)

theorem quoteless_word {t : Text} (h : ∀ c ∈ t, isWord c = true) : Quoteless t :=
  fun c hc => isTameCode_of_mem (by decide) (h c hc)

theorem Quoteless.quote_notMem {t : Text} (h : Quoteless t) : '\x22' ∉ t :=
  notMem_of_forall h (by decide)

/-- The inside of a literal: its closing quote is the first that no backslash hides. -/
def isInside (quote : Char) : Text → Bool
  | [] => true
  | ['\\'] => false
  | '\\' :: c :: s => c != '\n' && isInside quote s
  | c :: s => c != quote && c != '\n' && isInside quote s

/-- A literal on one line between two quotes. -/
def IsQuoted (quote : Char) (l : Text) : Prop :=
  ∃ s : Text, l = quote :: (s ++ [quote]) ∧ isInside quote s = true

/-- A literal that the scanner passes over: in double quotes, or in others and with no double quote
in it. -/
def IsLiteral (l : Text) : Prop :=
  ∃ quote ∈ "\x22\x27\x60".toList, IsQuoted quote l ∧ (quote = '\x22' ∨ '\x22' ∉ l)

instance (quote : Char) (l : Text) : Decidable (IsQuoted quote l) :=
  decidable_of_iff (l = quote :: ((l.drop 1).dropLast ++ [quote]) ∧
      isInside quote (l.drop 1).dropLast = true)
    ⟨fun h => ⟨_, h⟩, by rintro ⟨s, rfl, h⟩; simpa using h⟩

instance (l : Text) : Decidable (IsLiteral l) := List.decidableBEx _ _

/-!
## Texts made of code and of things that stand in it
-/

/-- A part of a text: a character of code, or something that stands in it as a whole. -/
inductive Part (α : Type) where
  | code (c : Char)
  | whole (a : α)

namespace Part

variable {α : Type}

def text (write : α → Text) : Part α → Text
  | .code c => [c]
  | .whole a => write a

def whole? : Part α → Option α
  | .code _ => none
  | .whole a => some a

/-- A tame character of code, or something that may stand in the text. -/
def IsTame (ok : α → Prop) : Part α → Prop
  | .code c => isTameCode c = true
  | .whole a => ok a

theorem IsTame.imp {ok ok' : α → Prop} {p : Part α} (h : p.IsTame ok) (hok : ∀ a, ok a → ok' a) :
    p.IsTame ok' := by
  cases p with
  | code => exact h
  | whole a => exact hok a h

end Part

section Made

variable {α : Type} {write : α → Text} {ok : α → Prop} {as bs : List α} {t u x y : Text}

/-- What parts stand for. -/
def written (write : α → Text) (ps : List (Part α)) : Text := ps.flatMap (·.text write)

theorem written_append (ps qs : List (Part α)) :
    written write (ps ++ qs) = written write ps ++ written write qs := List.flatMap_append

/-- A text of tame code in which things of a kind stand, all of the given ones among them. -/
def Made (write : α → Text) (ok : α → Prop) (as : List α) (t : Text) : Prop :=
  ∃ ps : List (Part α), (∀ p ∈ ps, p.IsTame ok) ∧ as ⊆ ps.filterMap Part.whole? ∧
    written write ps = t

theorem Made.mono (h : Made write ok as t) (hsub : bs ⊆ as) : Made write ok bs t :=
  h.imp fun _ hps => ⟨hps.1, List.Subset.trans hsub hps.2.1, hps.2.2⟩

theorem written_code (t : Text) : written write (t.map .code) = t := by
  rw [written, List.flatMap_map]
  exact List.flatMap_singleton' t

theorem whole_code (t : Text) : (t.map Part.code).filterMap (Part.whole? (α := α)) = [] :=
  List.filterMap_eq_nil_iff.mpr fun p hp => by
    obtain ⟨c, -, rfl⟩ := List.mem_map.mp hp
    rfl

/-- A start of a text is code, or goes on into something that stands in it. -/
theorem code_or_whole_of_written {ps : List (Part α)} (h : written write ps = x ++ y) :
    (∃ qs, ps = x.map .code ++ qs ∧ y = written write qs) ∨
      ∃ u z a qs, .whole a ∈ ps ∧ x = u ++ z ∧ z ≠ [] ∧ z ++ y = write a ++ written write qs := by
  induction x generalizing ps with
  | nil => exact .inl ⟨ps, rfl, h.symm⟩
  | cons d x ih =>
    cases ps with
    | nil => cases h
    | cons p ps =>
      cases p with
      | whole a =>
        exact .inr ⟨[], d :: x, a, ps, List.mem_cons_self .., rfl, List.cons_ne_nil d x, h.symm⟩
      | code e =>
        obtain ⟨rfl, hrest⟩ := List.cons.inj (show e :: written write ps = d :: (x ++ y) from h)
        rcases ih hrest with ⟨qs, rfl, hy⟩ | ⟨u, z, a, qs, ha, rfl, hz, hy⟩
        · exact .inl ⟨qs, rfl, hy⟩
        · exact .inr ⟨e :: u, z, a, qs, List.mem_cons_of_mem _ ha, rfl, hz, hy⟩

/-- Tame code stands for itself. -/
theorem made_code (h : ∀ c ∈ t, isTameCode c = true) : Made write ok [] t := by
  refine ⟨t.map .code, ?_, List.nil_subset _, written_code t⟩
  intro p hp
  obtain ⟨c, hc, rfl⟩ := List.mem_map.mp hp
  exact h c hc

theorem Made.append (ht : Made write ok as t) (hu : Made write ok bs u) :
    Made write ok (as ++ bs) (t ++ u) := by
  obtain ⟨ps, hps, has, rfl⟩ := ht
  obtain ⟨qs, hqs, hbs, rfl⟩ := hu
  refine ⟨ps ++ qs, List.forall_mem_append.mpr ⟨hps, hqs⟩, ?_, written_append ps qs⟩
  rw [List.filterMap_append]
  exact List.append_subset.mpr ⟨List.subset_append_of_subset_left _ has,
    List.subset_append_of_subset_right _ hbs⟩

theorem Made.code_append (hu : Made write ok as u) (ht : ∀ c ∈ t, isTameCode c = true) :
    Made write ok as (t ++ u) := (made_code ht).append hu

theorem Made.append_code (ht : Made write ok as t) (hu : ∀ c ∈ u, isTameCode c = true) :
    Made write ok as (t ++ u) := by
  simpa using ht.append (made_code hu)

/-- None of the things reaches over the place between two texts. -/
def Separates (write : α → Text) (ok : α → Prop) (x y : Text) : Prop :=
  ∀ a, ok a → ∀ u v x' y', write a = u ++ v → u ≠ [] → v ≠ [] → x = x' ++ u → y ≠ v ++ y'

/-- A text falls apart at such a place. -/
theorem Made.split (h : Made write ok as (x ++ y)) (hno : Separates write ok x y) :
    ∃ bs cs, as ⊆ bs ++ cs ∧ Made write ok bs x ∧ Made write ok cs y := by
  obtain ⟨ps, hps, has, hxy⟩ := h
  suffices hsplit : ∃ ps₁ ps₂, ps = ps₁ ++ ps₂ ∧ written write ps₁ = x ∧ written write ps₂ = y by
    obtain ⟨ps₁, ps₂, rfl, hx, hy⟩ := hsplit
    rw [List.forall_mem_append] at hps
    rw [List.filterMap_append] at has
    exact ⟨_, _, has, ⟨ps₁, hps.1, List.Subset.refl _, hx⟩, ⟨ps₂, hps.2, List.Subset.refl _, hy⟩⟩
  clear has
  induction ps generalizing x with
  | nil =>
    obtain ⟨rfl, rfl⟩ := List.append_eq_nil_iff.mp hxy.symm
    exact ⟨[], [], rfl, rfl, rfl⟩
  | cons p ps ih =>
    rw [List.forall_mem_cons] at hps
    have hcons : p.text write ++ written write ps = x ++ y := hxy
    rcases List.append_eq_append_iff.mp hcons with ⟨z, rfl, hrest⟩ | ⟨z, hp, rfl⟩
    · -- The first part stands before the place.
      obtain ⟨ps₁, ps₂, rfl, hx, hy⟩ := ih (x := z) (fun a ha u v x' y' ha' hu hv hx =>
        hno a ha u v _ y' ha' hu hv (by rw [hx, List.append_assoc])) hps.2 hrest
      exact ⟨p :: ps₁, ps₂, rfl, by rw [← hx]; rfl, hy⟩
    · rcases eq_or_ne x [] with rfl | hx
      · exact ⟨[], p :: ps, rfl, rfl, hxy⟩
      · rcases eq_or_ne z [] with rfl | hz
        · exact ⟨[p], ps, rfl, by simpa [written] using hp, by simp⟩
        · -- No part reaches over the place.
          cases p with
          | code c =>
            have hlen := congrArg List.length hp
            have := List.length_pos_of_ne_nil hx
            have := List.length_pos_of_ne_nil hz
            rw [List.length_append] at hlen
            simp only [Part.text, List.length_singleton] at hlen
            omega
          | whole a => exact absurd rfl (hno a hps.1 x z [] _ hp hx hz rfl)

/-- A text in which none of the things stands is code. -/
theorem Made.code_of_lacks (h : Made write ok as t) (ht : ∀ a, ok a → ¬ write a <:+: t) :
    as = [] ∧ ∀ d ∈ t, isTameCode d = true := by
  obtain ⟨ps, hps, has, rfl⟩ := h
  have hcode : ∀ p ∈ ps, ∃ d, p = .code d := by
    intro p hp
    cases p with
    | code d => exact ⟨d, rfl⟩
    | whole a =>
      obtain ⟨us, vs, rfl⟩ := List.append_of_mem hp
      exact absurd ⟨written write us, written write vs, by simp [written, Part.text]⟩
        (ht a (hps _ hp))
  constructor
  · rw [List.eq_nil_iff_forall_not_mem]
    intro a ha
    obtain ⟨p, hp, hwhole⟩ := List.mem_filterMap.mp (has ha)
    obtain ⟨d, rfl⟩ := hcode p hp
    cases hwhole
  · intro d hd
    obtain ⟨p, hp, hin⟩ := List.mem_flatMap.mp hd
    obtain ⟨e, rfl⟩ := hcode p hp
    obtain rfl := List.mem_singleton.mp hin
    exact hps _ hp

/-- A text that holds less than each of the things is code. -/
theorem Made.code (h : Made write ok as t) (ht : ∀ a, ok a → ∃ c ∈ write a, c ∉ t) :
    as = [] ∧ ∀ d ∈ t, isTameCode d = true :=
  h.code_of_lacks fun a ha hin => by
    obtain ⟨c, hc, hnot⟩ := ht a ha
    exact hnot (hin.subset hc)

/-- A character that stands in none of the things divides the text. -/
theorem Made.split_char {c : Char} (h : Made write ok as (x ++ c :: y))
    (hne : ∀ a, ok a → write a ≠ []) (hc : ∀ a, ok a → c ∉ write a) :
    ∃ bs cs, as ⊆ bs ++ cs ∧ Made write ok bs x ∧ isTameCode c = true ∧ Made write ok cs y := by
  obtain ⟨bs, cs, hsub, hx, hrest⟩ := h.split fun a ha u v x' y' hwrite _ hv _ hy => by
    obtain ⟨d, v, rfl⟩ := List.exists_cons_of_ne_nil hv
    obtain rfl := (List.cons.inj hy).1
    exact hc a ha (by rw [hwrite]; simp)
  obtain ⟨bs', cs', hsub', hfirst, hy⟩ := Made.split (x := [c]) hrest
    fun a ha u v x' y' hwrite hu _ hx _ => by
      obtain ⟨u, d, rfl⟩ := (List.eq_nil_or_concat' u).resolve_left hu
      rw [← List.append_assoc] at hx
      obtain ⟨-, hd⟩ := List.append_inj' (show ([] : Text) ++ [c] = (x' ++ u) ++ [d] from hx) rfl
      obtain rfl := (List.cons.inj hd).1
      exact hc a ha (by rw [hwrite]; simp)
  obtain ⟨rfl, hcode⟩ := hfirst.code fun a ha => by
    obtain ⟨d, hd⟩ := List.exists_mem_of_ne_nil _ (hne a ha)
    exact ⟨d, hd, fun hmem => hc a ha (List.mem_singleton.mp hmem ▸ hd)⟩
  exact ⟨bs, cs', List.Subset.trans hsub (List.append_subset.mpr ⟨List.subset_append_left _ _,
    List.Subset.trans hsub' (List.subset_append_right _ _)⟩), hx, hcode c (List.mem_singleton_self c), hy⟩

/-- The lines of a text are made of its code and of the things in it. -/
theorem Made.lines (h : Made write ok as t) (hne : ∀ a, ok a → write a ≠ [])
    (hbreak : ∀ a, ok a → '\n' ∉ write a) :
    ∃ bss, as ⊆ bss.flatten ∧ List.Forall₂ (Made write ok) bss t.lines := by
  induction hlen : t.length using Nat.strong_induction_on generalizing t as with
  | _ len ih =>
    subst hlen
    by_cases hmem : '\n' ∈ t
    · obtain ⟨x, y, rfl, hx⟩ := List.eq_append_cons_of_mem hmem
      obtain ⟨bs, cs, hsub, hfirst, -, hrest⟩ := h.split_char hne hbreak
      obtain ⟨css, hcss, hlines⟩ := ih y.length (by simp; omega) hrest rfl
      rw [Text.lines_append_break hx]
      exact ⟨bs :: css, List.Subset.trans hsub (List.append_subset.mpr
        ⟨List.subset_append_left _ _, List.Subset.trans hcss (List.subset_append_right _ _)⟩),
        .cons hfirst hlines⟩
    · rw [Text.lines_eq_singleton hmem]
      exact ⟨[as], by simp, .cons h .nil⟩

/-- Texts put together with code between them. -/
theorem made_join {sep : Text} (hsep : ∀ c ∈ sep, isTameCode c = true) {ass : List (List α)}
    {ts : List Text} (h : List.Forall₂ (Made write ok) ass ts) :
    Made write ok ass.flatten (Text.join sep ts) := by
  induction h with
  | nil => exact made_code (List.forall_mem_nil _)
  | @cons as t ass ts ht hts ih =>
    cases hts with
    | nil => simpa [Text.join] using ht
    | cons hnext hmore =>
      rw [Text.join_cons sep _ (List.cons_ne_nil _ _)]
      exact ht.append (ih.code_append hsep)

/-- An edit of lines that keeps what stands in each keeps what stands in the text. -/
theorem Made.edit_lines {f : Text → Text} (h : Made write ok as t)
    (hne : ∀ a, ok a → write a ≠ []) (hbreak : ∀ a, ok a → '\n' ∉ write a)
    (hf : ∀ line ∈ t.lines, ∀ bs, Made write ok bs line → Made write ok bs (f line)) :
    Made write ok as (Text.unlines (t.lines.map f)) := by
  obtain ⟨ass, hsub, hlines⟩ := h.lines hne hbreak
  suffices hedited : List.Forall₂ (Made write ok) ass (t.lines.map f) from
    (made_join (by decide) hedited).mono hsub
  clear hsub h
  generalize t.lines = lines at hf hlines ⊢
  induction hlines with
  | nil => exact .nil
  | cons hline _ ih =>
    rw [List.forall_mem_cons] at hf
    exact .cons (hf.1 _ hline) (ih hf.2)

/-- Whatever a text is made of, the other has the same things in it. -/
def Kept (write : α → Text) (ok : α → Prop) (t u : Text) : Prop :=
  ∀ ⦃as⦄, Made write ok as t → Made write ok as u

theorem Kept.refl (t : Text) : Kept write ok t t := fun _ h => h

theorem Kept.trans (htu : Kept write ok t u) (hux : Kept write ok u x) : Kept write ok t x :=
  fun _ h => hux (htu h)

/-- On both sides of a place over which nothing reaches a text may change. -/
theorem Kept.append {x' y' : Text} (hxy : Separates write ok x y) (hx : Kept write ok x x')
    (hy : Kept write ok y y') : Kept write ok (x ++ y) (x' ++ y') := by
  intro as h
  obtain ⟨bs, cs, hsub, hx₁, hy₁⟩ := h.split hxy
  exact ((hx hx₁).append (hy hy₁)).mono hsub

/-- Code may be put in front. -/
theorem Kept.code_append {w : Text} (hw : ∀ c ∈ w, isTameCode c = true) (h : Kept write ok t u) :
    Kept write ok t (w ++ u) := fun _ ht => (h ht).code_append hw

/-- Code may be put behind. -/
theorem Kept.append_code {w : Text} (hw : ∀ c ∈ w, isTameCode c = true) (h : Kept write ok t u) :
    Kept write ok t (u ++ w) := fun _ ht => (h ht).append_code hw

/-- A text may be written twice, and more may be added to it. -/
theorem Kept.append_twice (h : Kept write ok t u) (h' : Kept write ok t x) :
    Kept write ok t (u ++ x) :=
  fun _ ht => ((h ht).append (h' ht)).mono (List.subset_append_left _ _)

/-- Two stretches may change places. -/
theorem Kept.swap {x' y' : Text} (hxy : Separates write ok x y) (hx : Kept write ok x x')
    (hy : Kept write ok y y') : Kept write ok (x ++ y) (y' ++ x') := by
  intro as h
  obtain ⟨bs, cs, hsub, hx₁, hy₁⟩ := h.split hxy
  refine ((hy hy₁).append (hx hx₁)).mono (List.Subset.trans hsub ?_)
  exact List.append_subset.mpr ⟨List.subset_append_right _ _, List.subset_append_left _ _⟩

end Made

/-!
## Shown texts
-/

/-- A shown text of tame code and the marks of `n` literals, some given ones among them. -/
abbrev Legible (n : Nat) : List Nat → Text → Prop := Made SpanKind.literal.mark (· < n)

/-- No word reaches over the place between two texts. -/
def Parted (x y : Text) : Prop := endsIn isWord x = false ∨ startsIn isWord y = false

theorem mark_literal_eq (i : Nat) :
    SpanKind.literal.mark i = "__JSLIT_".toList ++ (Text.ofNat i ++ "__".toList) :=
  List.append_assoc ..

/-- A mark is a word. -/
theorem isWord_of_mem_mark {i : Nat} {c : Char} (h : c ∈ SpanKind.literal.mark i) :
    isWord c = true := by
  have hends : ∀ c ∈ "__JSLIT_".toList ++ "__".toList, isWord c = true :=
    List.all_iff_forall_prop.mp (by decide)
  rw [mark_literal_eq, List.mem_append, List.mem_append] at h
  rcases h with h | h | h
  · exact hends c (List.mem_append_left _ h)
  · have hdigit := isDigit_of_mem_ofNat h
    simp [isWord, isAlnum, toNat_lt_of_isDigit hdigit, Char.isAlphanum, hdigit]
  · exact hends c (List.mem_append_right _ h)

theorem mark_ne_nil (i : Nat) : SpanKind.literal.mark i ≠ [] := by
  rw [mark_literal_eq]
  exact List.append_ne_nil_of_left_ne_nil (by decide) _

section Legible

variable {n : Nat} {is js : List Nat} {x y t u : Text}

/-- No mark reaches over a place over which no word does. -/
theorem Parted.separates (hxy : Parted x y) : Separates SpanKind.literal.mark (· < n) x y := by
  intro i _ u v x' y' hmark hu hv hx hy
  have hword : ∀ c ∈ u ++ v, isWord c = true := fun c hc => isWord_of_mem_mark (hmark ▸ hc)
  rcases hxy with hend | hstart
  · obtain ⟨u, c, rfl⟩ := (List.eq_nil_or_concat' u).resolve_left hu
    rw [hx, endsIn, ← List.append_assoc, List.getLast?_concat, Option.any_some,
      hword c (by simp)] at hend
    cases hend
  · obtain ⟨c, v, rfl⟩ := List.exists_cons_of_ne_nil hv
    rw [hy, startsIn, List.cons_append, List.head?_cons, Option.any_some,
      hword c (by simp)] at hstart
    cases hstart

/-- A shown text may be cut there. -/
theorem Legible.cut (h : Legible n is (x ++ y)) (hxy : Parted x y) :
    ∃ js ks, is ⊆ js ++ ks ∧ Legible n js x ∧ Legible n ks y := Made.split h hxy.separates

end Legible

/-! ### What tells a mark -/

/-- What tells the mark of a literal. -/
def tell : Text := "JSLIT_"

section Tell

variable {n : Nat} {is : List Nat} {t : Text}

theorem mark_literal_cons (i : Nat) :
    SpanKind.literal.mark i = '_' :: '_' :: (tell ++ (Text.ofNat i ++ "__".toList)) :=
  mark_literal_eq i

/-- A stretch that tells no mark is code. -/
theorem Legible.code_of_tell (h : Legible n is t) (ht : ¬ tell <:+: t) :
    is = [] ∧ ∀ c ∈ t, isTameCode c = true :=
  Made.code_of_lacks h fun i _ hin => by
    rw [mark_literal_cons] at hin
    exact ht (.trans ⟨['_', '_'], Text.ofNat i ++ "__".toList, by simp⟩ hin)

theorem Legible.code (h : Legible n is t) (ht : 'J' ∉ t) :
    is = [] ∧ ∀ c ∈ t, isTameCode c = true :=
  h.code_of_tell fun hin => ht (hin.subset (by decide))

end Tell

/-!
## Scripts
-/

/-- A tame script with literals of a kind, the given ones among them. -/
abbrev Scripted (kind : Text → Prop) : List Text → Text → Prop :=
  Made id fun l => IsLiteral l ∧ kind l

section Scripted

variable {kind : Text → Prop} {ls : List Text} {x y w t u l : Text} {quote : Char}

theorem break_notMem_of_isInside {s : Text} (h : isInside quote s = true) : '\n' ∉ s := by
  fun_induction isInside quote s with
  | case1 => exact List.not_mem_nil
  | case2 => cases h
  | case3 c s ih =>
    rw [Bool.and_eq_true, bne_iff_ne] at h
    simpa [h.1.symm] using ih h.2
  | case4 c s _ _ ih =>
    rw [Bool.and_eq_true, Bool.and_eq_true, bne_iff_ne, bne_iff_ne] at h
    simpa [h.1.2.symm] using ih h.2

theorem isTameCode_eq_false_iff : isTameCode quote = false ↔ quote ∈ "\x22\x27\x60".toList := by
  rw [isTameCode, outside, Bool.not_eq_false']
  exact List.contains_iff_mem

theorem IsLiteral.ne_nil (h : IsLiteral l) : l ≠ [] := by
  obtain ⟨_, -, ⟨s, rfl, -⟩, -⟩ := h
  exact List.cons_ne_nil _ _

theorem IsLiteral.break_notMem (h : IsLiteral l) : '\n' ∉ l := by
  obtain ⟨quote, hquote, ⟨s, rfl, hs⟩, -⟩ := h
  have hne : '\n' ≠ quote := by
    rintro rfl
    revert hquote
    decide
  simp [break_notMem_of_isInside hs, hne]

/-- Either end of a literal is a quote. -/
theorem IsLiteral.not_quoteless (h : IsLiteral l) (hl : l = x ++ y) :
    (x ≠ [] → ¬ Quoteless x) ∧ (y ≠ [] → ¬ Quoteless y) := by
  obtain ⟨quote, hquote, ⟨s, rfl, -⟩, -⟩ := h
  rw [← isTameCode_eq_false_iff] at hquote
  constructor
  · intro hx htame
    obtain ⟨c, x, rfl⟩ := List.exists_cons_of_ne_nil hx
    obtain rfl := (List.cons.inj hl).1
    rw [htame _ (List.mem_cons_self ..)] at hquote
    cases hquote
  · intro hy htame
    obtain ⟨y, c, rfl⟩ := (List.eq_nil_or_concat' y).resolve_left hy
    rw [← List.cons_append, ← List.append_assoc] at hl
    obtain rfl := (List.cons.inj (List.append_inj' hl rfl).2).1
    rw [htame _ (by simp)] at hquote
    cases hquote

/-- What stands in a script without quotes is code. -/
theorem Scripted.eq_nil (h : Scripted kind ls t) (ht : Quoteless t) : ls = [] :=
  (Made.code_of_lacks h fun l hl hin => (hl.1.not_quoteless (List.append_nil l).symm).1 hl.1.ne_nil
    fun c hc => ht c (hin.subset hc)).1

/-- A script starts with code up to its first quote. -/
theorem Scripted.cut_start (h : Scripted kind ls (w ++ y)) (hw : Quoteless w) :
    Scripted kind ls y := by
  obtain ⟨ms, ks, hsub, hfirst, hy⟩ := Made.split h fun l hl u v x' y' hl' hu _ hx _ =>
    (hl.1.not_quoteless hl').1 hu fun c hc => hw c (hx ▸ List.mem_append_right _ hc)
  obtain rfl := Scripted.eq_nil hfirst hw
  exact hy.mono hsub

/-- It ends with code behind its last quote. -/
theorem Scripted.cut_end (h : Scripted kind ls (x ++ w)) (hw : Quoteless w) :
    Scripted kind ls x := by
  obtain ⟨ms, ks, hsub, hx, hlast⟩ := Made.split h fun l hl u v x' y' hl' _ hv _ hy =>
    (hl.1.not_quoteless hl').2 hv fun c hc => hw c (hy ▸ List.mem_append_left _ hc)
  obtain rfl := Scripted.eq_nil hlast hw
  exact hx.mono (by simpa using hsub)

/-- A phrase without quotes that stands in no literal stands in the code. -/
theorem Scripted.cut (h : Scripted kind ls (x ++ (w ++ y))) (hw : Quoteless w)
    (hkind : ∀ l, kind l → ¬ w <:+: l) :
    ∃ ms ks, ls ⊆ ms ++ ks ∧ Scripted kind ms x ∧ Scripted kind ks y := by
  obtain ⟨ms, ks, hsub, hx, hrest⟩ := Made.split h fun l hl u v x' y' hl' hu hv hx hy => by
    rcases List.prefix_or_prefix_of_prefix (List.prefix_append w y)
      (hy ▸ List.prefix_append v y') with hpre | hpre
    · have hsplit : l = u ++ v := hl'
      exact hkind l hl.2 (hpre.isInfix.trans (hsplit ▸ (List.suffix_append u v).isInfix))
    · exact (hl.1.not_quoteless hl').2 hv fun c hc => hw c (hpre.subset hc)
  exact ⟨ms, ks, hsub, hx, Scripted.cut_start hrest hw⟩

end Scripted

/-!
## Pieces

The scanner may take quotes for others than they are in a text, or a slash for the start of a
regular expression. Where the quotes of what it finds are those of literals on one line, they tell
where the literals are, however one looks for them.
-/

section Cutting

variable {quotes : Text} {quote : Char} {ps qs : List (Part Text)} {s s' t t' : Text}

/-- A quoted stretch, or a character that is none of the quotes. -/
def Part.Respects (quotes : Text) : Part Text → Prop
  | .code c => c ∉ quotes
  | .whole l => ∃ quote ∈ quotes, IsQuoted quote l

/-- The first quote that no backslash hides ends the inside of a literal. -/
theorem eq_of_isInside (hquote : quote ≠ '\\') (hs : isInside quote s = true)
    (hs' : isInside quote s' = true) (h : s ++ quote :: t = s' ++ quote :: t') :
    s = s' ∧ t = t' := by
  fun_induction isInside quote s generalizing s' with
  | case1 =>
    cases s' with
    | nil => exact ⟨rfl, (List.cons.inj h).2⟩
    | cons c s' =>
      obtain ⟨rfl, -⟩ := List.cons.inj h
      rw [isInside] at hs'
      · simp at hs'
      · exact fun h => absurd h hquote
      · exact fun _ _ h => absurd h hquote
  | case2 => cases hs
  | case3 c s ih =>
    rw [Bool.and_eq_true] at hs
    rcases s' with _ | ⟨d, _ | ⟨e, s'⟩⟩
    · exact absurd (List.cons.inj h).1.symm hquote
    · obtain ⟨rfl, -⟩ := List.cons.inj h
      cases hs'
    · obtain ⟨rfl, htail⟩ := List.cons.inj h
      obtain ⟨rfl, hrest⟩ := List.cons.inj htail
      rw [isInside, Bool.and_eq_true] at hs'
      obtain ⟨rfl, rfl⟩ := ih hs.2 hs'.2 hrest
      exact ⟨rfl, rfl⟩
  | case4 c s hend hescape ih =>
    have hne : c ≠ '\\' := by
      rintro rfl
      cases s with
      | nil => exact hend rfl rfl
      | cons d s => exact hescape d s rfl rfl
    rw [Bool.and_eq_true, Bool.and_eq_true, bne_iff_ne] at hs
    cases s' with
    | nil => exact absurd (List.cons.inj h).1 hs.1.1
    | cons d s' =>
      obtain ⟨rfl, hrest⟩ := List.cons.inj h
      rw [isInside, Bool.and_eq_true] at hs'
      · obtain ⟨rfl, rfl⟩ := ih hs.2 hs'.2 hrest
        exact ⟨rfl, rfl⟩
      · exact fun h => absurd h hne
      · exact fun _ _ h => absurd h hne

/-- The quotes of a text tell its parts. -/
theorem eq_of_written (hquotes : '\\' ∉ quotes) (hps : ∀ p ∈ ps, p.Respects quotes)
    (hqs : ∀ q ∈ qs, q.Respects quotes) (h : written id ps = written id qs) : ps = qs := by
  have hne {p : Part Text} (hp : p.Respects quotes) (us : List (Part Text)) :
      written id (p :: us) ≠ [] := by
    cases p with
    | code => exact List.cons_ne_nil _ _
    | whole l =>
      obtain ⟨_, -, s, rfl, -⟩ := hp
      exact List.cons_ne_nil _ _
  induction ps generalizing qs with
  | nil =>
    cases qs with
    | nil => rfl
    | cons q qs => exact absurd h.symm (hne (hqs q (List.mem_cons_self ..)) qs)
  | cons p ps ih =>
    rw [List.forall_mem_cons] at hps
    cases qs with
    | nil => exact absurd h (hne hps.1 ps)
    | cons q qs =>
      rw [List.forall_mem_cons] at hqs
      cases p with
      | code c =>
        cases q with
        | code d =>
          obtain ⟨rfl, hrest⟩ := List.cons.inj (show c :: written id ps = d :: written id qs from h)
          rw [ih hps.2 hqs.2 hrest]
        | whole l =>
          obtain ⟨quote, hquote, s, rfl, -⟩ := hqs.1
          obtain ⟨rfl, -⟩ := List.cons.inj (show c :: written id ps = quote :: _ from h)
          exact absurd hquote hps.1
      | whole l =>
        obtain ⟨quote, hquote, s, rfl, hs⟩ := hps.1
        cases q with
        | code d =>
          obtain ⟨rfl, -⟩ := List.cons.inj (show quote :: _ = d :: written id qs from h)
          exact absurd hquote hqs.1
        | whole l' =>
          obtain ⟨quote', -, s', rfl, hs'⟩ := hqs.1
          have hcons : quote :: (s ++ quote :: written id ps) =
              quote' :: (s' ++ quote' :: written id qs) := by
            simpa [written, Part.text] using h
          obtain ⟨rfl, hinside⟩ := List.cons.inj hcons
          have hslash : quote ≠ '\\' := fun heq => hquotes (heq ▸ hquote)
          obtain ⟨rfl, hrest⟩ := eq_of_isInside hslash hs hs' hinside
          rw [ih hps.2 hqs.2 hrest]

end Cutting

section Pieces

variable {whole kind : Text → Prop} [DecidablePred whole] {quotes : Text} {p : Piece}
  {ps : List Piece} {ls : List Text} {l t : Text}

/-- The parts of a piece: a hidden span may be a part of its own, all else is code. -/
def Piece.parts (whole : Text → Prop) [DecidablePred whole] : Piece → List (Part Text)
  | .hidden _ l => if whole l then [.whole l] else l.map .code
  | p => p.source.map .code

theorem Piece.written_parts (p : Piece) : written id (p.parts whole) = p.source := by
  cases p with
  | hidden kind l =>
    rw [Piece.parts]
    split
    · exact List.append_nil _
    · exact written_code _
  | _ => exact written_code _

theorem Piece.mem_whole_parts :
    l ∈ (p.parts whole).filterMap Part.whole? ↔ whole l ∧ ∃ kind, p = .hidden kind l := by
  have hcode (t : Text) (h : ∀ kind, p = .hidden kind l → ¬ whole l) :
      l ∈ (t.map Part.code).filterMap Part.whole? ↔ whole l ∧ ∃ kind, p = .hidden kind l := by
    rw [whole_code]
    exact iff_of_false List.not_mem_nil fun ⟨hl, kind, hp⟩ => h kind hp hl
  cases p with
  | hidden kind l' =>
    rw [Piece.parts]
    split
    case isTrue hl' =>
      have hmem : l ∈ [Part.whole l'].filterMap Part.whole? ↔ l = l' := List.mem_singleton
      rw [hmem]
      constructor
      · rintro rfl
        exact ⟨hl', kind, rfl⟩
      · rintro ⟨-, kind, hp⟩
        cases hp
        rfl
    case isFalse hl' =>
      refine hcode _ fun kind hp => ?_
      cases hp
      exact hl'
  | _ => exact hcode _ fun kind hp => by cases hp

theorem written_parts (ps : List Piece) :
    written id (ps.flatMap (Piece.parts whole)) = sources ps := by
  rw [written, List.flatMap_assoc, sources]
  exact congrArg (ps.flatMap ·) (funext Piece.written_parts)

theorem mem_whole_parts : l ∈ (ps.flatMap (Piece.parts whole)).filterMap Part.whole? ↔
    whole l ∧ ∃ kind, .hidden kind l ∈ ps := by
  rw [List.filterMap_flatMap, List.mem_flatMap]
  simp only [Piece.mem_whole_parts]
  constructor
  · rintro ⟨_, hp, hl, kind, rfl⟩
    exact ⟨hl, kind, hp⟩
  · rintro ⟨hl, kind, hp⟩
    exact ⟨_, hp, hl, kind, rfl⟩

/-- What a text is cut into is what its pieces are made of. -/
theorem eq_parts (hquotes : '\\' ∉ quotes) (hps : ∀ p ∈ ps, ∀ q ∈ p.parts whole, q.Respects quotes)
    {qs : List (Part Text)} (hqs : ∀ q ∈ qs, q.Respects quotes) (h : written id qs = sources ps) :
    qs = ps.flatMap (Piece.parts whole) := by
  refine eq_of_written hquotes hqs ?_ (h.trans (written_parts ps).symm)
  intro q hq
  obtain ⟨p, hp, hq⟩ := List.mem_flatMap.mp hq
  exact hps p hp q hq

/-- Hidden spans are spans. -/
theorem mem_spans_of_hidden_mem {kind : SpanKind} (h : .hidden kind l ∈ ps) (i : Nat) :
    l ∈ (Piece.assemble i ps).2 := by
  induction ps generalizing i with
  | nil => cases h
  | cons p ps ih =>
    rcases List.mem_cons.mp h with rfl | hmem
    · exact List.mem_cons_self ..
    · cases p with
      | code => exact ih hmem i
      | shown => exact ih hmem i
      | hidden => exact List.mem_cons_of_mem _ (ih hmem (i + 1))
      | inner => exact List.mem_append_right _ (ih hmem _)

theorem exists_hidden_of_mem_spans (hflat : ∀ p ∈ ps, p.isFlat = true) {i : Nat}
    (h : l ∈ (Piece.assemble i ps).2) : ∃ kind, .hidden kind l ∈ ps := by
  induction ps generalizing i with
  | nil => cases h
  | cons p ps ih =>
    rw [List.forall_mem_cons] at hflat
    have hrest {i : Nat} (h : l ∈ (Piece.assemble i ps).2) : ∃ kind, .hidden kind l ∈ p :: ps :=
      (ih hflat.2 h).imp fun _ => List.mem_cons_of_mem p
    cases p with
    | code => exact hrest h
    | shown => exact hrest h
    | hidden kind l' =>
      rcases List.mem_cons.mp h with rfl | h
      · exact ⟨kind, List.mem_cons_self ..⟩
      · exact hrest h
    | inner => cases hflat.1

end Pieces

/-- A piece without quotes, or a literal on one line. -/
def Piece.IsTame : Piece → Prop
  | .code c => isTameCode c = true
  | .shown l => Quoteless l
  | .hidden _ l => IsLiteral l ∨ Quoteless l
  | .inner _ => False

instance : (p : Piece) → Decidable p.IsTame
  | .code _ => inferInstanceAs (Decidable (_ = _))
  | .shown l => inferInstanceAs (Decidable (Quoteless l))
  | .hidden _ l => inferInstanceAs (Decidable (IsLiteral l ∨ Quoteless l))
  | .inner _ => inferInstanceAs (Decidable False)

/-- A script in tame pieces. -/
def IsTameScript (t : Text) : Prop := ∀ p ∈ pieces .all t, p.IsTame

instance (t : Text) : Decidable (IsTameScript t) := inferInstanceAs (Decidable (∀ _ ∈ _, _))

section IsTameScript

variable {kind : Text → Prop} {ls : List Text} {p : Piece} {q : Part Text} {l t : Text}

theorem Piece.IsTame.isTame_parts (h : p.IsTame) (hq : q ∈ p.parts IsLiteral) :
    q.IsTame IsLiteral := by
  have hcode {t : Text} (ht : Quoteless t) (hq : q ∈ t.map Part.code) : q.IsTame IsLiteral := by
    obtain ⟨c, hc, rfl⟩ := List.mem_map.mp hq
    exact ht c hc
  cases p with
  | code c => exact hcode (List.forall_mem_singleton.mpr h) hq
  | shown l => exact hcode h hq
  | hidden kind l =>
    rw [Piece.parts] at hq
    split at hq
    case isTrue hl =>
      obtain rfl := List.mem_singleton.mp hq
      exact hl
    case isFalse hl => exact hcode (Or.resolve_left h hl) hq
  | inner => exact h.elim

theorem Part.IsTame.respects {ok : Text → Prop} (hok : ∀ l, ok l → IsLiteral l) (h : q.IsTame ok) :
    q.Respects "\x22\x27\x60".toList := by
  cases q with
  | code c =>
    intro hc
    have hfalse : isTameCode c = false := isTameCode_eq_false_iff.mpr hc
    have htrue : isTameCode c = true := h
    rw [htrue] at hfalse
    cases hfalse
  | whole l =>
    obtain ⟨quote, hquote, hl, -⟩ := hok l h
    exact ⟨quote, hquote, hl⟩

/-- A tame script has its literals. -/
theorem IsTameScript.exists_scripted (h : IsTameScript t) :
    ∃ ls, (∀ l ∈ (mask .all t).spans, IsLiteral l → l ∈ ls) ∧ Scripted (fun _ => True) ls t := by
  refine ⟨_, fun l hl hliteral => ?_, (pieces .all t).flatMap (Piece.parts IsLiteral), ?_,
    List.Subset.refl _, (written_parts _).trans (sources_pieces (by decide) t)⟩
  · exact mem_whole_parts.mpr ⟨hliteral, exists_hidden_of_mem_spans
      (fun p hp => (flat_of_mem_pieces (by decide) hp).1) hl⟩
  · intro q hq
    obtain ⟨p, hp, hq⟩ := List.mem_flatMap.mp hq
    exact Part.IsTame.imp ((h p hp).isTame_parts hq) fun l hl => ⟨hl, trivial⟩

/-- Its literals are all of a kind if its spans are. -/
theorem Scripted.of_spans {kind' : Text → Prop} (h : Scripted kind ls t) (ht : IsTameScript t)
    (hkind : ∀ l ∈ (mask .all t).spans, kind' l) : Scripted kind' ls t := by
  obtain ⟨qs, hqs, hls, hwritten⟩ := h
  have heq : qs = (pieces .all t).flatMap (Piece.parts IsLiteral) :=
    eq_parts (show '\\' ∉ "\x22\x27\x60".toList by decide)
      (fun p hp q hq => Part.IsTame.respects (fun _ hl => hl) ((ht p hp).isTame_parts hq))
      (fun q hq => Part.IsTame.respects (fun _ => And.left) (hqs q hq))
      (hwritten.trans (sources_pieces (by decide) t).symm)
  refine ⟨qs, fun q hq => ?_, hls, hwritten⟩
  have htame := hqs q hq
  cases q with
  | code => exact htame
  | whole l =>
    have hwhole : l ∈ qs.filterMap Part.whole? := List.mem_filterMap.mpr ⟨_, hq, rfl⟩
    rw [heq] at hwhole
    obtain ⟨-, kind, hhidden⟩ := mem_whole_parts.mp hwhole
    exact ⟨htame.1, hkind l (mem_spans_of_hidden_mem hhidden 0)⟩

end IsTameScript

end HostScript.Script
