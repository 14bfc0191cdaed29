import HostScript.Adapt.Cached
import HostScript.Proofs.Script.Strip
import HostScript.Proofs.Script.Collapse

/-!
# Shrinking never makes a script longer

Dropping comments and collapsing white space both give back what they hid, each span once, and make
no script longer. What is then still longer than the limit is cut so that with the mark behind it it
has exactly the length of the limit.
-/

namespace HostScript.Adapt

open Script

/-- A text that is cut to a limit, with the mark behind it, has the length of the limit. -/
theorem length_cut {c : Text} {limit : Int} (hlimit : (truncationMark.length : Int) ≤ limit)
    (hlong : limit < c.length) :
    ((c.upTo (limit - truncationMark.length).toNat ++ truncationMark).length : Int) = limit := by
  rw [Text.upTo, List.length_append, List.length_take]
  omega

/-- A script that is short enough when it is collapsed is not cut. -/
theorem shrink_of_le {limit : Int} {code s c : Text} (hs : stripComments code = .ok s)
    (hc : collapseWhitespace s = .ok c) (hshort : (c.length : Int) ≤ limit) :
    shrink limit code = .ok (c, false) := by
  rw [shrink, hs]
  change Except.bind (collapseWhitespace s) _ = _
  rw [hc, Except.bind, if_pos hshort]
  rfl

/-- One that is too long is cut, and the mark is put behind it. -/
theorem shrink_of_lt {limit : Int} {code s c : Text} (hs : stripComments code = .ok s)
    (hc : collapseWhitespace s = .ok c) (hlong : limit < c.length) :
    shrink limit code =
      .ok (c.upTo (limit - truncationMark.length).toNat ++ truncationMark, true) := by
  rw [shrink, hs]
  change Except.bind (collapseWhitespace s) _ = _
  rw [hc, Except.bind, if_neg (Int.not_le.mpr hlong)]
  rfl

/-- A script made fit for a host in all but its size. -/
def wrapped (p : Profile) (polyfills : Bool) (code : Text) : Outcome Text := do
  let (supplied, _, _) ← supply p polyfills (Optimize.stripHints code)
  let (older, _) ← downlevel supplied
  Harness.wrap p older

/-- The size is the last thing that a script is adapted to. -/
theorem map_adapt_code (p : Profile) (o : Options) (code : Text) :
    (adapt p o code).map (·.code) =
      (wrapped p o.polyfills code).bind fun w => (fit p o.forSize w).map (·.1) := by
  rw [adapt, wrapped]
  change Except.map _ (Except.bind (supply p o.polyfills (Optimize.stripHints code)) _) =
    Except.bind (Except.bind (supply p o.polyfills (Optimize.stripHints code)) _) _
  cases supply p o.polyfills (Optimize.stripHints code) with
  | error e => rfl
  | ok s =>
    obtain ⟨supplied, labels, warnings⟩ := s
    change Except.map _ (Except.bind (downlevel supplied) _) =
      Except.bind (Except.bind (downlevel supplied) _) _
    cases downlevel supplied with
    | error e => rfl
    | ok d =>
      obtain ⟨older, steps⟩ := d
      change Except.map _ (Except.bind (Harness.wrap p older) _) =
        Except.bind (Harness.wrap p older) _
      cases Harness.wrap p older with
      | error e => rfl
      | ok w =>
        change Except.map _ (Except.bind (fit p o.forSize w) _) = Except.map _ (fit p o.forSize w)
        cases fit p o.forSize w <;> rfl

/-- A script that is made fit for a host in all but its size is adapted if its size can be. -/
theorem exists_adapt_eq_of_fit {p : Profile} {o : Options} {code w out : Text}
    (hw : wrapped p o.polyfills code = .ok w) (hfit : (fit p o.forSize w).map (·.1) = .ok out) :
    ∃ a, adapt p o code = .ok a ∧ a.code = out := by
  have hmap := map_adapt_code p o code
  rw [hw, Except.bind, hfit] at hmap
  cases ha : adapt p o code with
  | error e =>
    rw [ha] at hmap
    cases hmap
  | ok a =>
    rw [ha] at hmap
    exact ⟨a, rfl, Except.ok.inj hmap⟩

/-- Dropping comments and collapsing white space make no script without marks longer. Within a limit
that leaves room for the mark, shrinking honours the limit as well; it cuts exactly what is longer
than the limit when it is collapsed, and puts the mark behind. So a host never gets a longer script
where the size counts than where it does not. -/
theorem shrink_shortens {code : Text} (hu : Unmarked code)
    (hlen : code.length ≤ 10 ^ Number.digitLimit) :
    ∃ s c, stripComments code = .ok s ∧ s.length ≤ code.length ∧
      collapseWhitespace s = .ok c ∧ c.length ≤ code.length ∧
      (∀ limit : Int, truncationMark.length ≤ limit →
        ∃ out cut, shrink limit code = .ok (out, cut) ∧ out.length ≤ limit ∧
          out.length ≤ code.length ∧ (cut = true ↔ limit < c.length) ∧
          (cut = false → out = c) ∧
          (cut = true → ∃ start, start <+: c ∧ out = start ++ truncationMark)) ∧
      (∀ (p : Profile) (o : Options) (source : Text), truncationMark.length ≤ p.maxPayload →
        wrapped p o.polyfills source = .ok code →
        ∃ a b, adapt p { o with forSize := false } source = .ok a ∧ a.code = code ∧
          adapt p { o with forSize := true } source = .ok b ∧
          b.code.length ≤ a.code.length ∧ b.code.length ≤ p.maxPayload) := by
  obtain ⟨s, hs, hslen, hsu⟩ := exists_stripComments_eq hu hlen
  obtain ⟨c, hc, hclen⟩ := exists_collapseWhitespace_eq hsu (hslen.trans hlen)
  have hshrink : ∀ limit : Int, truncationMark.length ≤ limit →
      ∃ out cut, shrink limit code = .ok (out, cut) ∧ out.length ≤ limit ∧
        out.length ≤ code.length ∧ (cut = true ↔ limit < c.length) ∧
        (cut = false → out = c) ∧
        (cut = true → ∃ start, start <+: c ∧ out = start ++ truncationMark) := by
    intro limit hlimit
    by_cases hshort : (c.length : Int) ≤ limit
    · exact ⟨c, false, shrink_of_le hs hc hshort, hshort, hclen.trans hslen,
        ⟨nofun, fun h => absurd hshort (Int.not_le.mpr h)⟩, fun _ => rfl, nofun⟩
    · have hlong : limit < c.length := Int.not_le.mp hshort
      have hcut := length_cut hlimit hlong
      refine ⟨_, true, shrink_of_lt hs hc hlong, Int.le_of_eq hcut, ?_,
        ⟨fun _ => hlong, fun _ => rfl⟩, nofun, fun _ => ⟨_, List.take_prefix _ _, rfl⟩⟩
      omega
  refine ⟨s, c, hs, hslen, hc, hclen.trans hslen, hshrink, fun p o source hlimit hw => ?_⟩
  obtain ⟨out, cut, hout, hbound, hshorter, -⟩ := hshrink p.maxPayload hlimit
  have hfit : (fit p true code).map (·.1) = .ok out := by
    rw [fit, if_pos rfl]
    change Except.map _ (Except.bind (shrink p.maxPayload code) _) = _
    rw [hout]
    rfl
  obtain ⟨a, ha, hacode⟩ := exists_adapt_eq_of_fit (o := { o with forSize := false }) hw rfl
  obtain ⟨b, hb, hbcode⟩ := exists_adapt_eq_of_fit (o := { o with forSize := true }) hw hfit
  exact ⟨a, b, ha, hacode, hb, by rw [hacode, hbcode]; exact hshorter, by rw [hbcode]; exact hbound⟩

/-- A script with a remark, an empty line and spaces inside and outside of a string. -/
def remarkedScript : Text := "var a  = \"b  c\";  // why `not`\n\n\tf(a);"

/-- It is not too long once it is collapsed, and its string stays as it is. -/
theorem shrink_shortens_remarked :
    Unmarked remarkedScript ∧ remarkedScript.length ≤ 10 ^ Number.digitLimit ∧
      shrink 30 remarkedScript = .ok ("var a = \"b  c\";\nf(a);", false) := by
  have hu : Unmarked remarkedScript := ⟨by decide, by decide⟩
  have hlen : remarkedScript.length ≤ 10 ^ Number.digitLimit := le_pow_digitLimit (by decide)
  refine ⟨hu, hlen, ?_⟩
  obtain ⟨s, c, -, -, -, -, hshrink, -⟩ := shrink_shortens hu hlen
  obtain ⟨out, cut, hout, -⟩ := hshrink 30 (by decide)
  have heval : (shrink 30 remarkedScript).toOption =
      some (("var a = \"b  c\";\nf(a);" : Text), false) := by decide
  rw [hout] at heval ⊢
  exact congrArg Except.ok (Option.some.inj heval)

end HostScript.Adapt
