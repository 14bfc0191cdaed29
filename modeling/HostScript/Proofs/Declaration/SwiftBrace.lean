import HostScript.Proofs.Declaration.SwiftRemarks
import HostScript.Proofs.Source.Plain

/-!
# A brace on the line below

The brace of a type may stand behind its head or on the line below. A body that ends on the line
it starts on is cut into statements only if the head stands on that line too. Below the head, its
line is read once from behind its opening brace, with the closing brace, and once up to its closing
brace, with the opening one. So a type is read the same in both places only if its body is blank.
-/

namespace HostScript.Declaration

/-! ### Declarations without their places -/

/-- The property without its place. -/
def Property.unplaced (p : Property) : Property := { p with line := 0 }

/-- The method without its place. -/
def Method.unplaced (f : Method) : Method := { f with line := 0 }

/-- The initializer without its place. -/
def Initializer.unplaced (i : Initializer) : Initializer := { i with line := 0 }

/-- The class without its place and those of its members. -/
def ClassType.unplaced (c : ClassType) : ClassType :=
  { c with
    properties := c.properties.map Property.unplaced
    methods := c.methods.map Method.unplaced
    initializers := c.initializers.map Initializer.unplaced
    line := 0 }

/-- The structure without its place and those of its members. -/
def Struct.unplaced (s : Struct) : Struct :=
  { s with
    properties := s.properties.map Property.unplaced
    methods := s.methods.map Method.unplaced
    initializers := s.initializers.map Initializer.unplaced
    line := 0 }

/-- The enumeration without its place and those of its members. -/
def Enum.unplaced (e : Enum) : Enum :=
  { e with methods := e.methods.map Method.unplaced, line := 0 }

/-- The protocol without its place and those of its members. -/
def Protocol.unplaced (p : Protocol) : Protocol :=
  { p with
    requirements := p.requirements.map Method.unplaced
    properties := p.properties.map Property.unplaced
    line := 0 }

/-- The extension without its place and those of its members. -/
def Extension.unplaced (e : Extension) : Extension :=
  { e with
    properties := e.properties.map Property.unplaced
    methods := e.methods.map Method.unplaced
    line := 0 }

/-- The function without its place. -/
def Function.unplaced (f : Function) : Function := { f with line := 0 }

/-- The variable without its place. -/
def Variable.unplaced (v : Variable) : Variable := { v with line := 0 }

/-- The unclassified text without its place. -/
def Unknown.unplaced (u : Unknown) : Unknown := { u with line := 0 }

/-- The remark without its place and without the text it quotes. -/
def Warning.unplaced (w : Warning) : Warning := { w with line := 0, text := [] }

/-- The module without any place and without the texts that its remarks quote. -/
def Module.unplaced (m : Module) : Module :=
  { m with
    classes := m.classes.map ClassType.unplaced
    structs := m.structs.map Struct.unplaced
    enums := m.enums.map Enum.unplaced
    protocols := m.protocols.map Protocol.unplaced
    extensions := m.extensions.map Extension.unplaced
    functions := m.functions.map Function.unplaced
    globals := m.globals.map Variable.unplaced
    unknowns := m.unknowns.map Unknown.unplaced
    warnings := m.warnings.map Warning.unplaced }

namespace Swift

open Pattern Source

/-- The head of a type on a line of its own. -/
structure TypeLine (h : Text) : Prop extends IsClosed h, Plain h where
  fits : typeHead.fits h = true

/-- What can stand on one line between the braces of a type: no brace or parenthesis of it is
closed outside. -/
structure InlineBody (b : Text) : Prop extends Plain b where
  closed : level b = 0
  opened : ∀ pre, pre <+: b → 0 ≤ level pre
  round : b.count '(' ≤ b.count ')'

/-- A body on one line in its braces. -/
def inBraces (b : Text) : Text := '\x7b' :: ' ' :: (b ++ [' ', '\x7d'])

/-- The statements of a body behind the head of its type. -/
def statements (number : Nat) (b : Text) : List Line :=
  ((b.trim.splitOn ';').map fun p => (⟨number, p.trim⟩ : Line)).filter fun l => !l.text.isEmpty

/-- What is read of a body on the line below the head: the text behind its opening brace and the
text in front of its closing one. -/
def halves (number : Nat) (b : Text) : List Line :=
  [⟨number, Text.trim (' ' :: (b ++ [' ', '\x7d']))⟩,
    ⟨number, Text.trim ('\x7b' :: ' ' :: (b ++ [' ']))⟩]

variable {h b t pre post x y : Text} {f f' : Match} {m m' : Module} {kind : TypeKind}
variable {members : Members} {line upper lower : Line} {rest : List Line} {n last : Nat}
variable {inner : TypeKind → Module → List Line → Module × Members} {requirement : Bool}

/-! ### The lines of both layouts -/

theorem plain_inBraces (hb : Plain b) : Plain (inBraces b) := by
  have hend : Plain [' ', '\x7d'] := ⟨by decide, by decide, by decide⟩
  have hopen : Plain ['\x7b'] := ⟨by decide, by decide, by decide⟩
  have hspace : Plain [' '] := ⟨by decide, by decide, by decide⟩
  exact hopen.cons (by decide) (hspace.cons (by decide) (hb.append hend (by decide)))

theorem inBraces_eq_concat (b : Text) :
    inBraces b = ('\x7b' :: ' ' :: (b ++ [' '])) ++ ['\x7d'] := by
  simp [inBraces]

theorem trim_inBraces (b : Text) : (inBraces b).trim = inBraces b := by
  refine Text.trim_eq_self (fun c hc => ?_) fun c hc => ?_
  · obtain rfl := Option.some.inj hc
    decide
  · rw [inBraces_eq_concat, List.getLast?_concat] at hc
    obtain rfl := Option.some.inj hc
    decide

theorem TypeLine.ne_nil (hh : TypeLine h) : h ≠ [] := by
  obtain ⟨u, a, rfl, -⟩ := hh.last
  exact List.append_ne_nil_of_right_ne_nil u (List.cons_ne_nil a [])

theorem TypeLine.trim_eq (hh : TypeLine h) : h.trim = h := by
  refine Text.trim_eq_self (head?_of_typeHead hh.fits) fun c hc => ?_
  obtain ⟨u, a, rfl, ha, -⟩ := hh.last
  rw [List.getLast?_concat] at hc
  obtain rfl := Option.some.inj hc
  exact ha

theorem TypeLine.trim_beside (hh : TypeLine h) (b : Text) :
    Text.trim (h ++ ' ' :: inBraces b) = h ++ ' ' :: inBraces b := by
  refine Text.trim_eq_self (fun c hc => ?_) fun c hc => ?_
  · rw [List.head?_append_of_ne_nil _ hh.ne_nil] at hc
    exact head?_of_typeHead hh.fits c hc
  · rw [inBraces_eq_concat, ← List.cons_append, ← List.append_assoc, List.getLast?_concat] at hc
    obtain rfl := Option.some.inj hc
    decide

theorem numberLines_cons {first : Nat} {ts : List Text} (htrim : t.trim = t) (hne : t ≠ []) :
    numberLines first (t :: ts) = ⟨first, t⟩ :: numberLines (first + 1) ts := by
  rw [numberLines, htrim, if_neg (by simpa using hne)]

theorem significantLines_beside (hh : TypeLine h) (hb : Plain b) :
    significantLines (h ++ ' ' :: inBraces b) = [⟨1, h ++ ' ' :: inBraces b⟩] := by
  have hspace : Plain [' '] := ⟨by decide, by decide, by decide⟩
  have hplain : Plain (h ++ ' ' :: inBraces b) :=
    hh.toPlain.append (hspace.cons (by decide) (plain_inBraces hb)) (by simp)
  have hlines := significantLines_unlines (List.cons_ne_nil _ [])
    (List.forall_mem_singleton.mpr hplain)
  exact hlines.trans (numberLines_cons (hh.trim_beside b) (by simp))

theorem significantLines_below (hh : TypeLine h) (hb : Plain b) :
    significantLines (h ++ '\n' :: inBraces b) = [⟨1, h⟩, ⟨2, inBraces b⟩] := by
  have hplain : ∀ t ∈ [h, inBraces b], Plain t :=
    List.forall_mem_cons.mpr ⟨hh.toPlain, List.forall_mem_singleton.mpr (plain_inBraces hb)⟩
  have hlines := significantLines_unlines (List.cons_ne_nil h [inBraces b]) hplain
  rw [Text.unlines_cons h (List.cons_ne_nil _ [])] at hlines
  refine hlines.trans ?_
  rw [numberLines_cons hh.trim_eq hh.ne_nil,
    numberLines_cons (trim_inBraces b) (List.cons_ne_nil _ _)]
  rfl

/-! ### What is read of both layouts -/

/-- Adds the type of a head with its members. -/
def withType (m : Module) (f : Match) (number : Nat) (r : Module × Members) : Module :=
  let inherits := splitTopLevel .arguments (f.group 4)
  let isProtocol (t : Text) : Bool :=
    libraryProtocols.any (·.toList == t) || m.protocols.any (·.name == t)
  addType r.1 (.ofWord (f.group 2)) (f.group 3) inherits
    ((inherits.head?.filter (!isProtocol ·)).getD []) number r.2

theorem unknowns_withType (m : Module) (f : Match) (number : Nat) (r : Module × Members) :
    (withType m f number r).unknowns = r.1.unknowns := unknowns_addType ..

theorem warnings_withType (m : Module) (f : Match) (number : Nat) (r : Module × Members) :
    (withType m f number r).warnings = r.1.warnings := warnings_addType ..

theorem readType_of_closed (hopened : (captureBlock (line :: rest) 0).opened = true)
    (hclosed : (captureBlock (line :: rest) 0).closed = true)
    (hlast : (captureBlock (line :: rest) 0).last = last) :
    readType inner m f line rest = (withType m f line.number
      (inner (.ofWord (f.group 2)) m (bodyLines line rest last true)), last) := by
  simp only [readType, hopened, hclosed, hlast, Bool.not_true, Bool.false_eq_true, if_false, if_true]
  rfl

theorem readTop_of_typeHead (hf : typeHead.match? line.text = some f) :
    readTop inner m line rest = readType inner m f line rest := by
  have hfits : typeHead.fits line.text = true := by rw [fits, hf]; rfl
  simp only [readTop, match?_importHead_of_typeHead hfits, hf]

/-- A source that is a type whose block is closed at its end. -/
theorem allLines_of_closed (line : Line) (rest : List Line) (hf : typeHead.match? line.text = some f)
    (hopened : (captureBlock (line :: rest) 0).opened = true)
    (hclosed : (captureBlock (line :: rest) 0).closed = true)
    (hlast : (captureBlock (line :: rest) 0).last = rest.length) :
    allLines m (line :: rest) = withType m f line.number
      (allMembers (.ofWord (f.group 2)) m {} (bodyLines line rest rest.length true)) := by
  rw [allLines_cons, readTop_of_typeHead hf, readType_of_closed hopened hclosed hlast]
  simp only [List.drop_length, allLines_nil]

theorem indexOf?_brace (hpre : '\x7b' ∉ pre) (post : Text) :
    Text.indexOf? "\x7b" (pre ++ '\x7b' :: post) = some pre.length := by
  induction pre with
  | nil => rfl
  | cons c pre ih =>
    rw [List.mem_cons, not_or] at hpre
    have hpreB : List.isPrefixOf "\x7b".toList (c :: (pre ++ '\x7b' :: post)) = false := by
      simp [List.isPrefixOf, hpre.1]
    rw [List.cons_append, Text.indexOf?, hpreB, if_neg Bool.false_ne_true, ih hpre.2]
    rfl

theorem upToLastBrace_concat (t : Text) : upToLastBrace (t ++ ['\x7d']) = t := by
  simp [upToLastBrace]

theorem bodyLines_beside (hh : TypeLine h) (b : Text) (number : Nat) :
    bodyLines ⟨number, h ++ ' ' :: inBraces b⟩ [] 0 true = statements number b := by
  have hline : h ++ ' ' :: inBraces b =
      ((h ++ [' ']) ++ '\x7b' :: ' ' :: (b ++ [' '])) ++ ['\x7d'] := by
    simp [inBraces]
  have hindex : Text.indexOf? "\x7b" (h ++ ' ' :: inBraces b) = some (h.length + 1) := by
    have hspace : '\x7b' ∉ h ++ [' '] := by simpa using hh.brace
    rw [hline, List.append_assoc, List.cons_append, indexOf?_brace hspace, List.length_append]
    rfl
  have hupTo : upToLastBrace (h ++ ' ' :: inBraces b) =
      (h ++ [' ']) ++ '\x7b' :: ' ' :: (b ++ [' ']) := by
    rw [hline, upToLastBrace_concat]
  have hinner : Text.since ((h ++ [' ']) ++ '\x7b' :: ' ' :: (b ++ [' '])) (h.length + 1 + 1) =
      ' ' :: (b ++ [' ']) := by
    rw [Text.since, ← List.singleton_append (x := '\x7b'), ← List.append_assoc]
    exact List.drop_left' (by simp)
  have hblank : ∀ c ∈ [' '], isBlank c = true := by decide
  have htrim : Text.trim (' ' :: (b ++ [' '])) = b.trim := Text.trim_padded hblank hblank b
  have hbody : bodyLines ⟨number, h ++ ' ' :: inBraces b⟩ [] 0 true =
      ((((upToLastBrace (h ++ ' ' :: inBraces b)).since (((Text.indexOf? "\x7b"
        (h ++ ' ' :: inBraces b)).map (· + 1)).getD 0)).trim.splitOn ';').map
          fun p => (⟨number, p.trim⟩ : Line)).filter fun l => !l.text.isEmpty := rfl
  rw [hbody, hindex, hupTo, Option.map_some, Option.getD_some, hinner, htrim]
  rfl

theorem solidLine_of_mem {number : Nat} {c : Char} (hc : c ∈ t) (hsolid : isBlank c = false) :
    solidLine number t = [⟨number, t.trim⟩] := by
  have hempty : t.trim.isEmpty = false := by
    rw [List.isEmpty_eq_false_iff]
    exact fun hnil => Bool.noConfusion ((Text.trim_eq_nil_iff.mp hnil c hc).symm.trans hsolid)
  rw [solidLine, List.filter_singleton, hempty]
  rfl

theorem bodyLines_below (hh : TypeLine h) (b : Text) (number number' : Nat) :
    bodyLines ⟨number, h⟩ [⟨number', inBraces b⟩] 1 true = halves number' b := by
  have hafter : afterBrace (inBraces b) = ' ' :: (b ++ [' ', '\x7d']) := rfl
  have hupTo : upToLastBrace (inBraces b) = '\x7b' :: ' ' :: (b ++ [' ']) := by
    rw [inBraces_eq_concat, upToLastBrace_concat]
  have hclose : '\x7d' ∈ ' ' :: (b ++ [' ', '\x7d']) := by simp
  have hopen : '\x7b' ∈ '\x7b' :: ' ' :: (b ++ [' ']) := List.mem_cons_self ..
  rw [bodyLines_eq_of_notMem hh.brace (Nat.le_refl 0), bodyFrom]
  simp only [if_true, List.take_zero, List.drop_nil, List.append_nil, List.getElem?_cons_zero,
    Option.toList_some, List.flatMap_singleton, hafter, hupTo,
    solidLine_of_mem hclose (by decide), solidLine_of_mem hopen (by decide)]
  rfl

theorem InlineBody.level_inBraces (hb : InlineBody b) :
    1 + level (' ' :: (b ++ [' ', '\x7d'])) = 0 := by
  have hclose : level [' ', '\x7d'] = -1 := by decide
  rw [level_cons, level_append, hb.closed, level_of_ne (by decide) (by decide), hclose]
  rfl

theorem read_eq_allLines (source : Text) :
    read source = allLines { dialect := .swift } (significantLines source) := rfl

/-- Behind its head, the body of a type is read by its statements. -/
theorem read_beside (hh : TypeLine h) (hb : InlineBody b)
    (hf : typeHead.match? (h ++ ' ' :: inBraces b) = some f) :
    read (h ++ ' ' :: inBraces b) = withType { dialect := .swift } f 1
      (allMembers (.ofWord (f.group 2)) { dialect := .swift } {} (statements 1 b)) := by
  have hspace : '\x7b' ∉ h ++ [' '] := by simpa using hh.brace
  have hquote : ∀ c ∈ h ++ ' ' :: inBraces b, isStringQuote c = false :=
    List.forall_mem_append.mpr ⟨hh.unquoted, List.forall_mem_cons.mpr
      ⟨by decide, (plain_inBraces hb.toPlain).unquoted⟩⟩
  have htext : h ++ ' ' :: inBraces b = (h ++ [' ']) ++ '\x7b' :: ' ' :: (b ++ [' ', '\x7d']) := by
    simp [inBraces]
  obtain ⟨hopened, hclosed, hlast⟩ := captureBlock_of_level [] ⟨1, h ++ ' ' :: inBraces b⟩ []
    (Nat.zero_le 1) (List.forall_mem_nil _) hquote htext hspace hb.level_inBraces.le
  rw [read_eq_allLines, significantLines_beside hh hb.toPlain]
  refine (allLines_of_closed ⟨1, h ++ ' ' :: inBraces b⟩ [] hf hopened hclosed hlast).trans ?_
  exact congrArg (fun ls => withType _ f 1 (allMembers _ _ {} ls)) (bodyLines_beside hh b 1)

/-- Below its head, the body of a type is read by its halves. -/
theorem read_below (hh : TypeLine h) (hb : InlineBody b) (hf : typeHead.match? h = some f) :
    read (h ++ '\n' :: inBraces b) = withType { dialect := .swift } f 1
      (allMembers (.ofWord (f.group 2)) { dialect := .swift } {} (halves 2 b)) := by
  have htext : inBraces b = [] ++ '\x7b' :: ' ' :: (b ++ [' ', '\x7d']) := rfl
  obtain ⟨hopened, hclosed, hlast⟩ := captureBlock_of_level [⟨1, h⟩] ⟨2, inBraces b⟩ []
    (Nat.le_refl 1) (List.forall_mem_singleton.mpr hh.brace) (plain_inBraces hb.toPlain).unquoted
    htext List.not_mem_nil hb.level_inBraces.le
  rw [read_eq_allLines, significantLines_below hh hb.toPlain]
  refine (allLines_of_closed ⟨1, h⟩ [⟨2, inBraces b⟩] hf hopened hclosed hlast).trans ?_
  exact congrArg (fun ls => withType _ f 1 (allMembers _ _ {} ls)) (bodyLines_below hh b 1 2)

/-! ### Two halves of a line -/

/-- Two lines that both hold what stands between a pair of braces, the first with the closing one
and the second with the opening one. -/
structure Overlap (upper lower : Line) : Prop where
  round : upper.text.count '(' ≤ upper.text.count ')'
  /-- Braces of the first line are closed there. -/
  closes : '\x7b' ∈ upper.text → (captureBlock [upper, lower] 0).last = 0
  /-- Without any, the brace of the second line opens a block that is not closed. -/
  opens : '\x7b' ∉ upper.text → (captureBlock [upper, lower] 0).closed = false

/-- Reading stopped on the line, or something was found to be unterminated. -/
def StopsOrWarns (upper : Line) (m : Module) (last : Nat) : Prop :=
  last = 0 ∨ '\x7b' ∉ upper.text ∧ ∃ w ∈ m.warnings, w.isUnterminated = true

theorem StopsOrWarns.mono (h : StopsOrWarns upper m last) (hm : m.warnings ⊆ m'.warnings) :
    StopsOrWarns upper m' last :=
  h.imp_right fun ⟨hbrace, w, hw, hunterminated⟩ => ⟨hbrace, w, hm hw, hunterminated⟩

theorem subset_warn (m : Module) (number : Nat) (message text : Text) :
    m.warnings ⊆ (m.warn number message text).warnings := List.subset_append_left ..

theorem mem_warn (m : Module) (number : Nat) (message text : Text) :
    (⟨number, message, text⟩ : Warning) ∈ (m.warn number message text).warnings :=
  List.mem_append_right _ (List.mem_singleton_self _)

/-- A block from the first line on is closed there, or is said to be unterminated. -/
theorem Overlap.stopsOrWarns (ho : Overlap upper lower) (m : Module) (number : Nat)
    (message text : Text) :
    StopsOrWarns upper (if (captureBlock [upper, lower] 0).closed then m else
        m.warn number ("unterminated " ++ message) text) (captureBlock [upper, lower] 0).last := by
  by_cases hbrace : '\x7b' ∈ upper.text
  · exact .inl (ho.closes hbrace)
  · rw [ho.opens hbrace, if_neg Bool.false_ne_true]
    exact .inr ⟨hbrace, _, mem_warn .., rfl⟩

theorem Overlap.headFrom_eq (ho : Overlap upper lower) :
    headFrom upper [lower] = (upper.text, 0) := by
  have hdepth : ¬ (upper.text.count '(' : Int) - (upper.text.count ')' : Int) > 0 := by
    have := ho.round
    omega
  rw [headFrom, joinHead, if_neg hdepth]

theorem Overlap.stops_readFunc (ho : Overlap upper lower) :
    StopsOrWarns upper (readFunc m upper [lower] requirement).1
      (readFunc m upper [lower] requirement).2.2 := by
  simp only [readFunc, ho.headFrom_eq]
  split
  · exact .inl rfl
  split
  · exact .inl rfl
  · simp only [List.drop_zero, Nat.zero_add]
    exact ho.stopsOrWarns ..

theorem Overlap.stops_readInit (ho : Overlap upper lower) :
    StopsOrWarns upper (readInit m upper [lower] requirement).1
      (readInit m upper [lower] requirement).2.2 := by
  simp only [readInit, ho.headFrom_eq]
  split
  · exact .inl rfl
  split
  · exact .inl rfl
  · simp only [List.drop_zero, Nat.zero_add]
    exact ho.stopsOrWarns _ _ "initializer body" _

/-- The value of a property is a stretch of its line. -/
theorem infix_of_match?_propertyHead (hf : propertyHead.match? t = some f) : f.group 5 <:+: t := by
  obtain ⟨x, rest, gs, rfl, hx, -, hgroup⟩ := spells_of_match? hf
  obtain ⟨y, z, gs, gs', rfl, rfl, hhead, hend⟩ := spells_append_iff.mp hx
  rw [Match.group, hgroup, List.lookup_append, hend.lookup_eq_none rfl, Option.none_or]
  cases hvalue : gs.lookup 5 with
  | none => exact List.nil_infix
  | some v =>
    have hpart : v <:+: y := hhead.infix_of_lookup rfl hvalue
    exact (hpart.trans (List.prefix_append ..).isInfix).trans (List.prefix_append ..).isInfix

theorem Overlap.last_readProperty (ho : Overlap upper lower)
    (hf : propertyHead.match? upper.text = some f) :
    (readProperty m f upper [lower] requirement).2.2 = 0 := by
  unfold readProperty
  extract_lets modifierText attributes p block whole value warned
  by_cases hbrace : '\x7b' ∈ upper.text
  · have hlast : block.last = 0 := ho.closes hbrace
    split
    · split
      · exact hlast
      · rfl
    · split
      · exact hlast
      · exact hlast
  · have hnone : (f.group? 6).isNone = true := by
      rw [← Option.not_isSome, Bool.not_eq_true', ← Bool.not_eq_true]
      exact fun hsome => hbrace (mem_of_match?_propertyHead_block hf hsome)
    have hvalue : ¬ braceDelta p.initialValue > 0 := by
      refine Int.not_lt.mpr (braceDelta_nonpos fun hmem => hbrace ?_)
      exact (infix_of_match?_propertyHead hf).subset (Text.mem_of_mem_trim _ hmem)
    rw [if_pos hnone, if_neg (by simp [hvalue])]

theorem Overlap.stops_readType (ho : Overlap upper lower)
    (hinner : ∀ k m ls, m.warnings ⊆ (inner k m ls).1.warnings) :
    StopsOrWarns upper (readType inner m f upper [lower]).1
      (readType inner m f upper [lower]).2 := by
  simp only [readType]
  split
  · exact .inl rfl
  · refine (ho.stopsOrWarns m upper.number (f.group 2 ++ " '" ++ f.group 3 ++ "'") upper.text).mono ?_
    rw [warnings_addType]
    simp only [List.append_assoc]
    exact hinner ..

theorem Overlap.statementEnd_eq (ho : Overlap upper lower) : statementEnd upper [lower] = 0 := by
  rw [statementEnd]
  by_cases hbrace : '\x7b' ∈ upper.text
  · rw [ho.closes hbrace, ite_self]
  · rw [if_neg (Int.not_lt.mpr (braceDelta_nonpos hbrace))]

theorem Overlap.stops_readPlainMember (ho : Overlap upper lower) (kind : TypeKind) (b : Members) :
    StopsOrWarns upper (readPlainMember kind m b upper [lower]).1
      (readPlainMember kind m b upper [lower]).2.2 := by
  simp only [readPlainMember]
  split
  · exact ho.stops_readFunc
  split
  · split
    · exact ho.stops_readInit
    split
    · exact ho.stops_readInit
    · exact ho.stops_readInit.mono (subset_warn ..)
  split
  · exact .inl ho.statementEnd_eq
  split
  case h_1 f hf => exact .inl (ho.last_readProperty hf)
  case h_2 => exact .inl ho.statementEnd_eq

theorem Overlap.stops_readMember (ho : Overlap upper lower)
    (hinner : ∀ k m ls, m.warnings ⊆ (inner k m ls).1.warnings) (kind : TypeKind) (b : Members) :
    StopsOrWarns upper (readMember inner kind m b upper [lower]).1
      (readMember inner kind m b upper [lower]).2.2 := by
  simp only [readMember]
  split
  · exact .inl rfl
  split
  · exact .inl rfl
  split
  · exact ho.stops_readType hinner
  · exact ho.stops_readPlainMember kind b

/-- What starts with a brace is no member, unless it is only the brace. -/
theorem readMember_of_brace (inner : TypeKind → Module → List Line → Module × Members)
    (kind : TypeKind) (m : Module) (b : Members) {number : Nat} (ht : t ≠ []) (rest : List Line) :
    (readMember inner kind m b ⟨number, '\x7b' :: t⟩ rest).1 =
      (m.warn number "unrecognized member declaration" ('\x7b' :: t)).keep ('\x7b' :: t) number
        "member" := by
  have hhead : (List.head? ('\x7b' :: t)).any isInitial = false := by rfl
  have hlone : ¬ ('\x7b' :: t == ['\x7d'] || '\x7b' :: t == ['\x7b']) = true := by simp [ht]
  have hfunc : funcHead.fits ('\x7b' :: t) = false := by
    rw [fits, (refuses_funcHead hhead).match?_eq_none]
    rfl
  have hinit : initHead.fits ('\x7b' :: t) = false := by
    rw [fits, (refuses_initHead hhead).match?_eq_none]
    rfl
  have hskipped : ¬ (Text.startsWith ('\x7b' :: t) "deinit" ||
      Text.startsWith ('\x7b' :: t) "subscript") = true := Bool.false_ne_true
  rw [readMember]
  simp only [if_neg hlone, (refuses_caseHead hhead).match?_eq_none, Option.filter_none,
    (refuses_typeHead_of_head hhead).match?_eq_none, readPlainMember, hfunc, hinit,
    Bool.false_eq_true, if_false, if_neg hskipped,
    (refuses_propertyHead hhead).match?_eq_none]

theorem readMember_of_lone (inner : TypeKind → Module → List Line → Module × Members)
    (kind : TypeKind) (m : Module) (b : Members)
    (h : line.text = ['\x7d'] ∨ line.text = ['\x7b']) (rest : List Line) :
    readMember inner kind m b line rest = (m, b, 0) := by
  have hlone : (line.text == ['\x7d'] || line.text == ['\x7b']) = true := by
    simpa only [Bool.or_eq_true, beq_iff_eq] using h
  rw [readMember]
  simp only [if_pos hlone]

/-- Remarks are never taken back. -/
theorem subset_allMembers (kind : TypeKind) (m : Module) (b : Members) (lines : List Line) :
    m.warnings ⊆ (allMembers kind m b lines).1.warnings := by
  have hbounded : LinesBounded (lines.map fun l => l.text.length).sum True lines := fun l hl =>
    ⟨List.le_sum_of_mem (List.mem_map_of_mem hl), fun _ => trivial⟩
  have hgrows : Grows (lines.map fun l => l.text.length).sum True m
      (allMembers kind m b lines).1 := grows_readMembers hbounded
  obtain ⟨more, hmore, -⟩ := hgrows.warnings
  rw [hmore]
  exact List.subset_append_left ..

/-- Reading two halves of a line keeps the second as it is, or finds something unterminated. -/
theorem Overlap.allMembers_cases (ho : Overlap upper lower) (ht : t ≠ [])
    (hlower : lower.text = '\x7b' :: t) (kind : TypeKind) (m : Module) (b : Members) :
    (∃ u ∈ (allMembers kind m b [upper, lower]).1.unknowns, u.text = lower.text) ∨
      '\x7b' ∉ upper.text ∧
        ∃ w ∈ (allMembers kind m b [upper, lower]).1.warnings, w.isUnterminated = true := by
  have hinner (k : TypeKind) (m : Module) (ls : List Line) :
      m.warnings ⊆ (allMembers k m {} ls).1.warnings := subset_allMembers ..
  have hmember := ho.stops_readMember (m := m) hinner kind b
  rw [allMembers_cons]
  generalize readMember (fun k m ls => allMembers k m {} ls) kind m b upper [lower] = r at hmember
  obtain ⟨m', b', last⟩ := r
  rcases hmember with hlast | ⟨hbrace, w, hw, hunterminated⟩
  · obtain rfl : last = 0 := hlast
    refine .inl ?_
    obtain ⟨number, text⟩ := lower
    obtain rfl : text = '\x7b' :: t := hlower
    simp only [List.drop_zero, allMembers_cons, List.drop_nil, allMembers_nil,
      readMember_of_brace _ kind m' b' ht]
    exact ⟨_, List.mem_append_right _ (List.mem_singleton_self _), rfl⟩
  · exact .inr ⟨hbrace, w, subset_allMembers _ _ _ _ hw, hunterminated⟩

/-! ### Where the brace makes a difference -/

theorem notMem_of_blank (hx : ∀ c ∈ x, isBlank c = true) {c : Char} (hc : isBlank c = false) :
    c ∉ x := fun hmem => Bool.noConfusion ((hx c hmem).symm.trans hc)

theorem level_of_blank (hx : ∀ c ∈ x, isBlank c = true) : level x = 0 := by
  have hopen : List.count '\x7b' x = 0 := List.count_eq_zero.mpr (notMem_of_blank hx (by decide))
  have hclose : List.count '\x7d' x = 0 := List.count_eq_zero.mpr (notMem_of_blank hx (by decide))
  rw [level, hopen, hclose]
  rfl

theorem halves_eq (hsplit : b = x ++ (t ++ y)) (hx : ∀ c ∈ x, isBlank c = true)
    (hy : ∀ c ∈ y, isBlank c = true) (hstart : ∀ c ∈ t.head?, isBlank c = false)
    (hend : ∀ c ∈ t.getLast?, isBlank c = false) (hne : t ≠ []) (number : Nat) :
    halves number b =
      [⟨number, t ++ (y ++ [' ', '\x7d'])⟩, ⟨number, '\x7b' :: ' ' :: (x ++ t)⟩] := by
  have hspace : ∀ c ∈ [' '], isBlank c = true := by decide
  have hupper : Text.trim (t ++ (y ++ [' ', '\x7d'])) = t ++ (y ++ [' ', '\x7d']) := by
    refine Text.trim_eq_self (fun c hc => ?_) fun c hc => ?_
    · rw [List.head?_append_of_ne_nil _ hne] at hc
      exact hstart c hc
    · rw [List.getLast?_append, List.getLast?_append] at hc
      obtain rfl := Option.some.inj hc
      decide
  have hlower : Text.trim ('\x7b' :: ' ' :: (x ++ t)) = '\x7b' :: ' ' :: (x ++ t) := by
    refine Text.trim_eq_self (fun c hc => ?_) fun c hc => ?_
    · obtain rfl := Option.some.inj hc
      decide
    · rw [← List.cons_append, ← List.cons_append, List.getLast?_append_of_ne_nil _ hne] at hc
      exact hend c hc
  have hfront : Text.trim (' ' :: (b ++ [' ', '\x7d'])) = t ++ (y ++ [' ', '\x7d']) := by
    have hshape : ' ' :: (b ++ [' ', '\x7d']) = (' ' :: x) ++ (t ++ (y ++ [' ', '\x7d'])) := by
      simp [hsplit]
    rw [hshape]
    exact Text.trim_append_of_blank (List.forall_mem_cons.mpr ⟨by decide, hx⟩) hupper
  have hback : Text.trim ('\x7b' :: ' ' :: (b ++ [' '])) = '\x7b' :: ' ' :: (x ++ t) := by
    have hshape : '\x7b' :: ' ' :: (b ++ [' ']) =
        [] ++ (('\x7b' :: ' ' :: (x ++ t)) ++ (y ++ [' '])) := by
      simp [hsplit]
    rw [hshape]
    exact Text.trim_surrounded (List.forall_mem_nil _) (List.forall_mem_append.mpr ⟨hy, hspace⟩)
      hlower
  rw [halves, hfront, hback]

/-- The halves of a body overlap. -/
theorem InlineBody.overlap (hb : InlineBody b) (hsplit : b = x ++ (t ++ y))
    (hx : ∀ c ∈ x, isBlank c = true) (hy : ∀ c ∈ y, isBlank c = true) (number : Nat) :
    Overlap ⟨number, t ++ (y ++ [' ', '\x7d'])⟩ ⟨number, '\x7b' :: ' ' :: (x ++ t)⟩ := by
  have hlevel : level t = 0 := by
    have hclosed := hb.closed
    rw [hsplit, level_append, level_append, level_of_blank hx, level_of_blank hy] at hclosed
    omega
  have hquote : ∀ c ∈ t, isStringQuote c = false := fun c hc => hb.unquoted c (by simp [hsplit, hc])
  have hquotes : (∀ c ∈ x, isStringQuote c = false) ∧ ∀ c ∈ y, isStringQuote c = false :=
    ⟨fun c hc => hb.unquoted c (by simp [hsplit, hc]), fun c hc => hb.unquoted c (by simp [hsplit, hc])⟩
  have hend : level [' ', '\x7d'] = -1 := by decide
  have hmem : '\x7b' ∈ t ++ (y ++ [' ', '\x7d']) → '\x7b' ∈ t := by
    have hy : '\x7b' ∉ y := notMem_of_blank hy (by decide)
    simp [hy]
  refine ⟨?_, fun hbrace => ?_, fun hbrace => ?_⟩
  · have hround := hb.round
    have hcount {z : Text} (hz : ∀ c ∈ z, isBlank c = true) {c : Char} (hc : isBlank c = false) :
        List.count c z = 0 := List.count_eq_zero.mpr (notMem_of_blank hz hc)
    have hparen : isBlank '(' = false ∧ isBlank ')' = false := by decide
    simp only [Text.count, hsplit, List.count_append, hcount hx hparen.1, hcount hx hparen.2,
      hcount hy hparen.1, hcount hy hparen.2] at hround ⊢
    simpa using hround
  · obtain ⟨pre, post, ht, hpre⟩ := List.eq_append_cons_of_mem (hmem hbrace)
    have hlevelPre : 0 ≤ level pre := by
      have hpreB : x ++ pre <+: b := ⟨'\x7b' :: post ++ y, by simp [hsplit, ht]⟩
      have hopened := hb.opened (x ++ pre) hpreB
      rwa [level_append, level_of_blank hx, Int.zero_add] at hopened
    rw [ht, level_append, level_cons, level_open] at hlevel
    have htext : t ++ (y ++ [' ', '\x7d']) = pre ++ '\x7b' :: (post ++ (y ++ [' ', '\x7d'])) := by
      simp [ht]
    refine (captureBlock_of_level [] _ _ (Nat.zero_le 1) (List.forall_mem_nil _) ?_ htext hpre
      ?_).2.2
    · exact List.forall_mem_append.mpr ⟨hquote, List.forall_mem_append.mpr ⟨hquotes.2, by decide⟩⟩
    · rw [level_append, level_append, level_of_blank hy, hend]
      omega
  · have hnone : '\x7b' ∉ t := fun h => hbrace (List.mem_append_left _ h)
    have hclose : '\x7d' ∉ t := by
      rw [level, List.count_eq_zero.mpr hnone] at hlevel
      exact List.count_eq_zero.mp (by omega)
    have htext : '\x7b' :: ' ' :: (x ++ t) = [] ++ '\x7b' :: ' ' :: (x ++ t) := rfl
    refine captureBlock_of_notMem [_] _ (List.forall_mem_singleton.mpr hbrace) ?_ htext
      List.not_mem_nil ?_
    · exact List.forall_mem_cons.mpr ⟨by decide, List.forall_mem_cons.mpr ⟨by decide,
        List.forall_mem_append.mpr ⟨hquotes.1, hquote⟩⟩⟩
    · have hx : '\x7d' ∉ x := notMem_of_blank hx (by decide)
      simp [hx, hclose]

/-- A head is read the same in both layouts. -/
theorem TypeLine.exists_heads (hh : TypeLine h) (hb : Plain b) :
    ∃ f f', typeHead.match? h = some f ∧ typeHead.match? (h ++ ' ' :: inBraces b) = some f' ∧
      ∀ i ∈ [2, 3, 4], f.group? i = f'.group? i := by
  have hmore : '\n' ∉ ' ' :: (b ++ [' ', '\x7d']) := by simpa using hb.unbroken.1
  have hrel := hh.toIsClosed.match?_typeHead hmore
  obtain ⟨f, hf⟩ := Option.isSome_iff_exists.mp hh.fits
  have hlayout : h ++ ' ' :: '\x7b' :: ' ' :: (b ++ [' ', '\x7d']) = h ++ ' ' :: inBraces b := rfl
  rw [hf, hlayout] at hrel
  cases hf' : typeHead.match? (h ++ ' ' :: inBraces b) with
  | none =>
    rw [hf'] at hrel
    cases hrel
  | some f' =>
    rw [hf'] at hrel
    cases hrel with
    | some hgroups => exact ⟨f, f', hf, rfl, hgroups⟩

theorem withType_congr (hgroups : ∀ i ∈ [2, 3, 4], f.group? i = f'.group? i) (m : Module)
    (number : Nat) (r : Module × Members) : withType m f number r = withType m f' number r := by
  have hgroup (i : Nat) (hi : i ∈ [2, 3, 4]) : f.group i = f'.group i := by
    rw [Match.group, hgroups i hi, Match.group]
  simp only [withType, hgroup 2 (by decide), hgroup 3 (by decide), hgroup 4 (by decide)]

/-- A type without members is read the same in both layouts. -/
theorem read_eq_of_blank (hh : TypeLine h) (hb : InlineBody b) (hblank : b.trim = []) :
    read (h ++ ' ' :: inBraces b) = read (h ++ '\n' :: inBraces b) := by
  obtain ⟨f, f', hf, hf', hgroups⟩ := hh.exists_heads hb.toPlain
  have hgroup : f.group 2 = f'.group 2 := by
    rw [Match.group, hgroups 2 (by decide), Match.group]
  have hstatements : statements 1 b = [] := by
    rw [statements, hblank]
    rfl
  have hspaces := Text.trim_eq_nil_iff.mp hblank
  have hspace : ∀ c ∈ [' '], isBlank c = true := by decide
  have hhalves : halves 2 b = [⟨2, ['\x7d']⟩, ⟨2, ['\x7b']⟩] := by
    have hclose : Text.trim (' ' :: (b ++ [' ', '\x7d'])) = ['\x7d'] := by
      have hshape : ' ' :: (b ++ [' ', '\x7d']) = (' ' :: (b ++ [' '])) ++ ['\x7d'] := by simp
      rw [hshape]
      exact Text.trim_append_of_blank (List.forall_mem_cons.mpr
        ⟨by decide, List.forall_mem_append.mpr ⟨hspaces, hspace⟩⟩) (by decide)
    have hopen : Text.trim ('\x7b' :: ' ' :: (b ++ [' '])) = ['\x7b'] := by
      have hshape : '\x7b' :: ' ' :: (b ++ [' ']) = [] ++ (['\x7b'] ++ (' ' :: (b ++ [' ']))) := rfl
      rw [hshape]
      exact Text.trim_surrounded (List.forall_mem_nil _)
        (List.forall_mem_cons.mpr ⟨by decide, List.forall_mem_append.mpr ⟨hspaces, hspace⟩⟩)
        (by decide)
    rw [halves, hclose, hopen]
  have hskip (kind : TypeKind) (m : Module) :
      allMembers kind m {} [⟨2, ['\x7d']⟩, ⟨2, ['\x7b']⟩] = (m, {}) := by
    rw [allMembers_cons, readMember_of_lone _ _ _ _ (.inl rfl)]
    simp only [List.drop_zero]
    rw [allMembers_cons, readMember_of_lone _ _ _ _ (.inr rfl)]
    rfl
  rw [read_beside hh hb hf', read_below hh hb hf, withType_congr hgroups, hgroup, hstatements,
    hhalves, hskip]
  rfl

/-- A type with members is read differently in the two layouts. -/
theorem read_ne_of_solid (hh : TypeLine h) (hb : InlineBody b) (hsolid : b.trim ≠ []) :
    (read (h ++ ' ' :: inBraces b)).unplaced ≠ (read (h ++ '\n' :: inBraces b)).unplaced := by
  obtain ⟨f, f', hf, hf', -⟩ := hh.exists_heads hb.toPlain
  obtain ⟨x, y, hsplit, hx, hy⟩ := Text.exists_trimOf isBlank b
  have hsplit : b = x ++ (b.trim ++ y) := hsplit
  -- Behind the head, nothing longer than the body is read, and nothing is left open without a brace.
  have hbounded : LinesBounded b.trim.length ('\x7b' ∈ b.trim) (statements 1 b) := by
    intro l hl
    obtain ⟨p, hp, rfl⟩ := List.mem_map.mp (List.mem_of_mem_filter hl)
    have hpart : p.trim <:+: b.trim := (Text.infix_trim p).trans (Text.infix_of_mem_splitOn hp)
    exact ⟨hpart.length_le, fun hmem => hpart.subset hmem⟩
  have hgrows : Grows b.trim.length ('\x7b' ∈ b.trim) { dialect := .swift }
      (read (h ++ ' ' :: inBraces b)) := by
    rw [read_beside hh hb hf']
    exact (grows_readMembers hbounded).addType ..
  obtain ⟨us, hus, hshort⟩ := hgrows.unknowns
  obtain ⟨ws, hws, hbraced⟩ := hgrows.warnings
  rw [List.nil_append] at hus hws
  -- Below the head, one or the other happens.
  have hcases := (hb.overlap hsplit hx hy 2).allMembers_cases (List.cons_ne_nil ' ' _) rfl
    (.ofWord (f.group 2)) { dialect := .swift } {}
  rw [← halves_eq hsplit hx hy Text.isBlank_of_head?_trim Text.isBlank_of_getLast?_trim hsolid 2]
    at hcases
  intro heq
  rcases hcases with ⟨u, hu, htext⟩ | ⟨hbrace, w, hw, hunterminated⟩
  · rw [← unknowns_withType { dialect := .swift } f 1, ← read_below hh hb hf] at hu
    have hmem := List.mem_map_of_mem (f := Unknown.unplaced) hu
    have hunknowns : us.map Unknown.unplaced =
        (read (h ++ '\n' :: inBraces b)).unknowns.map Unknown.unplaced :=
      hus ▸ congrArg Module.unknowns heq
    rw [← hunknowns] at hmem
    obtain ⟨v, hv, hvu⟩ := List.mem_map.mp hmem
    have hvtext : v.unplaced.text = u.unplaced.text := congrArg Unknown.text hvu
    have hvtext : v.text = u.text := hvtext
    have hlength := hshort v hv
    rw [hvtext, htext] at hlength
    simp only [List.length_cons, List.length_append] at hlength
    omega
  · rw [← warnings_withType { dialect := .swift } f 1, ← read_below hh hb hf] at hw
    have hmem := List.mem_map_of_mem (f := Warning.unplaced) hw
    have hwarnings : ws.map Warning.unplaced =
        (read (h ++ '\n' :: inBraces b)).warnings.map Warning.unplaced :=
      hws ▸ congrArg Module.warnings heq
    rw [← hwarnings] at hmem
    obtain ⟨v, hv, hvw⟩ := List.mem_map.mp hmem
    have hmessage : v.unplaced.message = w.unplaced.message := congrArg Warning.message hvw
    have hmessage : v.message = w.message := hmessage
    have hv : '\x7b' ∈ b.trim := hbraced v hv (by rwa [Warning.isUnterminated, hmessage])
    exact hbrace (List.mem_append_left _ hv)

/-- A type with its body on one line is read the same behind its head and on the line below, up to
places and the texts that remarks quote, if and only if the body is blank. -/
theorem read_break_iff (hh : TypeLine h) (hb : InlineBody b) :
    (read (h ++ ' ' :: inBraces b)).unplaced = (read (h ++ '\n' :: inBraces b)).unplaced ↔
      b.trim = [] := by
  refine ⟨fun heq => ?_, fun hblank => congrArg Module.unplaced (read_eq_of_blank hh hb hblank)⟩
  by_contra hsolid
  exact read_ne_of_solid hh hb hsolid heq

/-- A head with a list of what the type inherits from. -/
private def pointHead : Text := "struct Point: Codable"

/-- A method with a body of its own. -/
private def pointBody : Text := "func move() \x7b go() \x7d"

theorem read_break_iff_pointBody : TypeLine pointHead ∧ InlineBody pointBody ∧
    (read (pointHead ++ ' ' :: inBraces pointBody)).unplaced ≠
      (read (pointHead ++ '\n' :: inBraces pointBody)).unplaced := by
  have hhead : TypeLine pointHead :=
    { brace := by decide
      round := fun v hv => absurd (hv.subset (List.mem_cons_self ..)) (by decide)
      angle := fun v hv => absurd (hv.subset (List.mem_cons_self ..)) (by decide)
      last := ⟨"struct Point: Codabl".toList, 'e', rfl, by decide, by decide⟩
      unbroken := by decide
      unquoted := by decide
      uncommented := by decide
      fits := by decide +kernel }
  have hprefixes : ∀ pre ∈ pointBody.inits, 0 ≤ level pre := by decide
  have hbody : InlineBody pointBody :=
    { unbroken := by decide
      unquoted := by decide
      uncommented := by decide
      closed := by decide
      opened := fun pre hpre => hprefixes pre ((List.mem_inits pre pointBody).mpr hpre)
      round := by decide }
  exact ⟨hhead, hbody, (read_break_iff hhead hbody).not.mpr (by decide)⟩

/-- Below its head, the property of a class takes the closing brace into its value, and its line is
kept once more with the opening one. -/
theorem read_break_fails_oneProperty :
    (read "class A \x7b var x = 1 \x7d").unplaced ≠ (read "class A\n\x7b var x = 1 \x7d").unplaced ∧
      ((read "class A\n\x7b var x = 1 \x7d").classes.flatMap fun c =>
        c.properties.map Property.initialValue) = ["1 \x7d".toList] := by
  refine ⟨fun heq => ?_, by decide +kernel⟩
  have hbeside : (read "class A \x7b var x = 1 \x7d").unplaced.unknowns.map Unknown.text = [] := by
    decide +kernel
  have hbelow : (read "class A\n\x7b var x = 1 \x7d").unplaced.unknowns.map Unknown.text =
      ["\x7b var x = 1".toList] := by
    decide +kernel
  rw [heq, hbelow] at hbeside
  cases hbeside

end Swift

end HostScript.Declaration
