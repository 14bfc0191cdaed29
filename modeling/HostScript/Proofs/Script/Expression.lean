import HostScript.Proofs.Script.Collapse

/-!
# Script expressions

How a script reads comparisons, logical operators and conditionals: a text is cut into lexemes, and
the operators between the operands are applied by their precedence, from left to right where it is
the same. An expression that is written with brackets where precedence asks for them, and around
each conditional, is read as itself.
-/

namespace HostScript.Script

/-! ### Expressions -/

/-- Operators between two operands. -/
inductive BinaryOp where
  | less
  | greater
  | lessEqual
  | greaterEqual
  | equal
  | unequal
  | and
  | or
deriving DecidableEq

namespace BinaryOp

/-- The spelling of an operator. -/
def symbol : BinaryOp → Text
  | less => "<"
  | greater => ">"
  | lessEqual => "<="
  | greaterEqual => ">="
  | equal => "=="
  | unequal => "!="
  | and => "&&"
  | or => "||"

/-- The precedence of an operator: those of a higher level bind tighter. -/
def level : BinaryOp → Nat
  | less | greater | lessEqual | greaterEqual => 4
  | equal | unequal => 3
  | and => 2
  | or => 1

/-- All operators. -/
def all : List BinaryOp :=
  [less, greater, lessEqual, greaterEqual, equal, unequal, and, or]

end BinaryOp

/-- An expression. Its operands are names and numerals. -/
inductive Expression where
  | operand (t : Text)
  | binary (op : BinaryOp) (left right : Expression)
  | conditional (test yes no : Expression)
deriving DecidableEq

/-! ### Lexemes -/

/-- Strings of marks that a script reads as one. -/
def punctuators : List String :=
  ["<=", ">=", "==", "!=", "===", "!==", "++", "--", "<<", ">>", ">>>", "&&", "||", "??", "?.",
    "+=", "-=", "*=", "%=", "/=", "<<=", ">>=", ">>>=", "&=", "|=", "^=", "=>", "**", "**=", "..",
    "..."]

/-- Whether a lexeme, or nothing yet, goes on with a character. -/
def goesOn (started : Text) (c : Char) : Bool :=
  started.isEmpty || (started ++ [c]).all isIdentPart ||
    punctuators.any fun p => p.toList == started ++ [c]

/-- The lexemes of a text behind the start of one, which is empty between lexemes. -/
def lexFrom (started : Text) : Text → List Text
  | [] => if started.isEmpty then [] else [started]
  | c :: t =>
    if isBlank c then (if started.isEmpty then [] else [started]) ++ lexFrom [] t
    else if goesOn started c then lexFrom (started ++ [c]) t
    else started :: lexFrom [c] t

/-- What a lexeme stands for. -/
inductive Token where
  | operand (t : Text)
  | operator (op : BinaryOp)
  | opening
  | closing
  | question
  | colon
deriving DecidableEq

/-- The token of a lexeme. Other operators, among them `??`, are not read. -/
def Token.ofLexeme? (t : Text) : Option Token :=
  if t.all isIdentPart then some (.operand t)
  else if t = ['('] then some .opening
  else if t = [')'] then some .closing
  else if t = ['?'] then some .question
  else if t = [':'] then some .colon
  else (BinaryOp.all.find? (·.symbol == t)).map .operator

/-- The tokens of a text. -/
def tokens? (t : Text) : Option (List Token) := (lexFrom [] t).mapM Token.ofLexeme?

/-! ### Reading -/

/-- What an expression that is being read is to become a part of. -/
inductive Pending where
  /-- The right operand of an operator. -/
  | left (e : Expression) (op : BinaryOp)
  /-- What is chosen if a condition holds. -/
  | test (e : Expression)
  /-- What is chosen otherwise. -/
  | branch (test yes : Expression)
  /-- The inside of a bracket. -/
  | bracket

/-- Ends the operations that bind at least as tight as a level. -/
def reduce (level : Nat) : List Pending → Expression → List Pending × Expression
  | .left l op :: fs, e =>
    if level ≤ op.level then reduce level fs (.binary op l e) else (.left l op :: fs, e)
  | fs, e => (fs, e)

/-- Ends operations and conditionals. -/
def close : List Pending → Expression → List Pending × Expression
  | .left l op :: fs, e => close fs (.binary op l e)
  | .branch test yes :: fs, e => close fs (.conditional test yes e)
  | fs, e => (fs, e)

/-- Reads tokens inside frames, where an expression may have been read already. -/
def readFrom : List Pending → Option Expression → List Token → Option Expression
  | fs, none, .operand t :: ts => readFrom fs (some (.operand t)) ts
  | fs, none, .opening :: ts => readFrom (.bracket :: fs) none ts
  | fs, some e, .operator op :: ts =>
    let (fs, e) := reduce op.level fs e
    readFrom (.left e op :: fs) none ts
  | fs, some e, .question :: ts =>
    let (fs, e) := reduce 0 fs e
    readFrom (.test e :: fs) none ts
  | fs, some e, .colon :: ts =>
    match close fs e with
    | (.test test :: fs, e) => readFrom (.branch test e :: fs) none ts
    | _ => none
  | fs, some e, .closing :: ts =>
    match close fs e with
    | (.bracket :: fs, e) => readFrom fs (some e) ts
    | _ => none
  | fs, some e, [] =>
    match close fs e with
    | ([], e) => some e
    | _ => none
  | _, _, _ => none

/-- The expression that a text spells. -/
def expression? (t : Text) : Option Expression := (tokens? t).bind (readFrom [] none)

/-! ### Writing -/

namespace Expression

/-- The level of an expression: that of its operator, or the highest if it is read as one. -/
def level : Expression → Nat
  | binary op _ _ => op.level
  | _ => 5

/-- Tokens, in brackets if need be. -/
def bracketIf (needed : Bool) (ts : List Token) : List Token :=
  if needed then .opening :: (ts ++ [.closing]) else ts

/-- The tokens of an expression, with brackets around operands that bind less tight than their
operator and around conditionals. -/
def tokens : Expression → List Token
  | operand t => [.operand t]
  | binary op l r =>
    bracketIf (l.level < op.level) l.tokens ++
      .operator op :: bracketIf (r.level ≤ op.level) r.tokens
  | conditional test yes no =>
    .opening :: (test.tokens ++ .question :: (yes.tokens ++ .colon :: (no.tokens ++ [.closing])))

end Expression

variable {fs : List Pending} {e l r : Expression} {ts : List Token} {op : BinaryOp} {level : Nat}

/-- The frames do not end with an operation that binds at least as tight as a level. -/
def Pending.Admit (level : Nat) : List Pending → Prop
  | .left _ op :: _ => op.level < level
  | _ => True

/-- The tokens do not go on with an operator that binds tighter than a level. -/
def Token.Admit (level : Nat) : List Token → Prop
  | .operator op :: _ => op.level ≤ level
  | _ => True

theorem Pending.Admit.mono {least : Nat} (h : Pending.Admit least fs) (hle : least ≤ level) :
    Pending.Admit level fs := by
  cases fs with
  | nil => trivial
  | cons f fs =>
    cases f with
    | left l op => exact Nat.lt_of_lt_of_le h hle
    | _ => trivial

theorem Token.Admit.mono {least : Nat} (h : Token.Admit least ts) (hle : least ≤ level) :
    Token.Admit level ts := by
  cases ts with
  | nil => trivial
  | cons t ts =>
    cases t with
    | operator op => exact Nat.le_trans h hle
    | _ => trivial

/-- Where the next operator does not bind tighter, an operation is complete. -/
theorem readFrom_left (h : Token.Admit op.level ts) :
    readFrom (.left l op :: fs) (some r) ts = readFrom fs (some (.binary op l r)) ts := by
  cases ts with
  | nil => rfl
  | cons t ts =>
    cases t with
    | operator next => simp only [readFrom, reduce, if_pos (show next.level ≤ op.level from h)]
    | question => simp only [readFrom, reduce, if_pos (Nat.zero_le op.level)]
    | _ => rfl

/-- Operations that bind less tight are not ended. -/
theorem reduce_eq (h : Pending.Admit level fs) : reduce level fs e = (fs, e) := by
  cases fs with
  | nil => rfl
  | cons f fs =>
    cases f with
    | left l op => rw [reduce, if_neg (Nat.not_le.mpr h)]
    | _ => rfl

/-- What is read as an expression among its likes is read as one in brackets. -/
theorem readFrom_bracketIf
    (h : ∀ fs ts, Pending.Admit e.level fs → Token.Admit e.level ts →
      readFrom fs none (e.tokens ++ ts) = readFrom fs (some e) ts)
    {needed : Bool} (hfs : needed = false → Pending.Admit e.level fs)
    (hts : needed = false → Token.Admit e.level ts) :
    readFrom fs none (Expression.bracketIf needed e.tokens ++ ts) = readFrom fs (some e) ts := by
  cases needed with
  | true =>
    have hinside := h (.bracket :: fs) (.closing :: ts) trivial trivial
    rw [Expression.bracketIf, if_pos rfl, List.cons_append, List.append_assoc, readFrom]
    exact hinside
  | false => exact h fs ts (hfs rfl) (hts rfl)

/-- The tokens of an expression are read as the expression. -/
theorem readFrom_tokens (e : Expression) : ∀ fs ts, Pending.Admit e.level fs →
    Token.Admit e.level ts → readFrom fs none (e.tokens ++ ts) = readFrom fs (some e) ts := by
  induction e with
  | operand t => exact fun _ _ _ _ => rfl
  | conditional test yes no htest hyes hno =>
    intro fs ts _ _
    have hrest := hno (.branch test yes :: .bracket :: fs) (.closing :: ts) trivial trivial
    have hmiddle := hyes (.test test :: .bracket :: fs)
      (.colon :: (no.tokens ++ .closing :: ts)) trivial trivial
    have hfirst := htest (.bracket :: fs)
      (.question :: (yes.tokens ++ .colon :: (no.tokens ++ .closing :: ts))) trivial trivial
    simp only [Expression.tokens, List.cons_append, List.append_assoc, List.nil_append]
    exact hfirst.trans (hmiddle.trans hrest)
  | binary op l r hl hr =>
    intro fs ts hfs hts
    have hleft : readFrom fs none (Expression.bracketIf (l.level < op.level) l.tokens ++
        .operator op :: (Expression.bracketIf (r.level ≤ op.level) r.tokens ++ ts)) =
        readFrom fs (some l)
          (.operator op :: (Expression.bracketIf (r.level ≤ op.level) r.tokens ++ ts)) := by
      refine readFrom_bracketIf hl (fun h => ?_) (fun h => ?_)
      · exact hfs.mono (Nat.not_lt.mp (of_decide_eq_false h))
      · exact Nat.not_lt.mp (of_decide_eq_false h)
    have hright : readFrom (.left l op :: fs) none
        (Expression.bracketIf (r.level ≤ op.level) r.tokens ++ ts) =
        readFrom (.left l op :: fs) (some r) ts := by
      refine readFrom_bracketIf hr (fun h => ?_) (fun h => ?_)
      · exact Nat.not_le.mp (of_decide_eq_false h)
      · exact hts.mono (Nat.le_of_lt (Nat.not_le.mp (of_decide_eq_false h)))
    have hop : readFrom fs (some l)
        (.operator op :: (Expression.bracketIf (r.level ≤ op.level) r.tokens ++ ts)) =
        readFrom (.left l op :: fs) none
          (Expression.bracketIf (r.level ≤ op.level) r.tokens ++ ts) := by
      have hfs : Pending.Admit op.level fs := hfs
      rw [readFrom, reduce_eq hfs]
    rw [Expression.tokens, List.append_assoc, List.cons_append, hleft, hop, hright,
      readFrom_left hts]

/-! ### Texts of expressions -/

namespace Expression

/-- A text, in brackets if need be. -/
def textIn (needed : Bool) (t : Text) : Text := if needed then "(" ++ t ++ ")" else t

/-- The text of an expression. -/
def text : Expression → Text
  | operand t => t
  | binary op l r =>
    textIn (l.level < op.level) l.text ++ " " ++ op.symbol ++ " "
      ++ textIn (r.level ≤ op.level) r.text
  | conditional test yes no => "(" ++ test.text ++ " ? " ++ yes.text ++ " : " ++ no.text ++ ")"

/-- The operands are words. -/
def HasWords : Expression → Prop
  | operand t => t ≠ [] ∧ ∀ c ∈ t, isIdentPart c = true
  | binary _ l r => l.HasWords ∧ r.HasWords
  | conditional test yes no => test.HasWords ∧ yes.HasWords ∧ no.HasWords

end Expression

/-- The spelling of a token. -/
def Token.lexeme : Token → Text
  | operand t => t
  | operator op => op.symbol
  | opening => "("
  | closing => ")"
  | question => "?"
  | colon => ":"

variable {x rest : Text}

/-- A lexeme ends where nothing goes on with it. -/
theorem lexFrom_started (hx : x ≠ [])
    (h : ∀ c ∈ rest.head?, isBlank c = true ∨ goesOn x c = false) :
    lexFrom x rest = x :: lexFrom [] rest := by
  have hempty : x.isEmpty = false := List.isEmpty_eq_false_iff.mpr hx
  cases rest with
  | nil => simp only [lexFrom, hempty, List.isEmpty_nil, Bool.false_eq_true, if_false, if_true]
  | cons c rest =>
    have hstart : goesOn [] c = true := rfl
    rw [lexFrom, lexFrom, hempty, hstart]
    rcases h c rfl with hblank | hend
    · rw [if_pos hblank, if_pos hblank]
      rfl
    · rw [hend]
      split <;> rfl

/-- A word goes on as long as there are characters of words. -/
theorem lexFrom_word {x y : Text} (hx : ∀ c ∈ x, isIdentPart c = true)
    (hy : ∀ c ∈ y, isIdentPart c = true) : lexFrom x (y ++ rest) = lexFrom (x ++ y) rest := by
  induction y generalizing x with
  | nil => rw [List.nil_append, List.append_nil]
  | cons c y ih =>
    rw [List.forall_mem_cons] at hy
    have hword : ∀ a ∈ x ++ [c], isIdentPart a = true := by
      simpa [or_imp, forall_and] using ⟨hx, hy.1⟩
    have hgoes : goesOn x c = true := by
      rw [goesOn, List.all_eq_true.mpr hword, Bool.or_true, Bool.true_or]
    rw [List.cons_append, lexFrom, isBlank_of_isIdentPart hy.1, hgoes, if_neg Bool.false_ne_true,
      if_pos rfl, ih hword hy.2, List.append_assoc, List.singleton_append]

/-- Nothing goes on with a bracket, and no bracket goes on with a word. -/
theorem goesOn_eq_false {c : Char} (hx : x ≠ []) (hmark : '(' ∈ x ∨ ')' ∈ x ∨ c = ')') :
    goesOn x c = false := by
  have hmem : '(' ∈ x ++ [c] ∨ ')' ∈ x ++ [c] := by
    rcases hmark with h | h | rfl
    · exact Or.inl (List.mem_append_left _ h)
    · exact Or.inr (List.mem_append_left _ h)
    · exact Or.inr (List.mem_append_right _ (List.mem_singleton_self _))
  have hword : (x ++ [c]).all isIdentPart = false := by
    rw [List.all_eq_false]
    rcases hmem with h | h
    · exact ⟨_, h, by decide⟩
    · exact ⟨_, h, by decide⟩
  have hplain : ∀ p ∈ punctuators, '(' ∉ p.toList ∧ ')' ∉ p.toList := by decide
  have hpunctuator : (punctuators.any fun p => p.toList == x ++ [c]) = false := by
    rw [List.any_eq_false]
    intro p hp heq
    rw [← beq_iff_eq.mp heq] at hmem
    exact hmem.elim (hplain p hp).1 (hplain p hp).2
  rw [goesOn, List.isEmpty_eq_false_iff.mpr hx, hword, hpunctuator]
  rfl

/-- A word ends before white space and brackets. -/
theorem lexFrom_operand {t : Text} (ht : t ≠ [] ∧ ∀ c ∈ t, isIdentPart c = true)
    (hrest : ∀ c ∈ rest.head?, isBlank c = true ∨ c = ')') :
    lexFrom [] (t ++ rest) = t :: lexFrom [] rest := by
  rw [lexFrom_word (List.forall_mem_nil _) ht.2, List.nil_append]
  refine lexFrom_started ht.1 fun c hc => (hrest c hc).imp_right fun h => ?_
  exact goesOn_eq_false ht.1 (Or.inr (Or.inr h))

theorem lexFrom_blank (t : Text) : lexFrom [] (' ' :: t) = lexFrom [] t := rfl

theorem lexFrom_symbol (op : BinaryOp) (t : Text) :
    lexFrom [] (op.symbol ++ ' ' :: t) = op.symbol :: lexFrom [] t := by
  cases op <;> rfl

theorem lexFrom_opening (t : Text) : lexFrom [] ('(' :: t) = ['('] :: lexFrom [] t :=
  lexFrom_started (x := ['(']) (List.cons_ne_nil _ _) fun _ _ =>
    Or.inr (goesOn_eq_false (List.cons_ne_nil _ _) (Or.inl (List.mem_singleton_self _)))

theorem lexFrom_closing (t : Text) : lexFrom [] (')' :: t) = [')'] :: lexFrom [] t :=
  lexFrom_started (x := [')']) (List.cons_ne_nil _ _) fun _ _ =>
    Or.inr (goesOn_eq_false (List.cons_ne_nil _ _) (Or.inr (Or.inl (List.mem_singleton_self _))))

theorem lexFrom_question (t : Text) : lexFrom [] ('?' :: ' ' :: t) = ['?'] :: lexFrom [] t := rfl

theorem lexFrom_colon (t : Text) : lexFrom [] (':' :: ' ' :: t) = [':'] :: lexFrom [] t := rfl

namespace Expression

/-- The lexemes of an expression in brackets. -/
theorem lexFrom_textIn
    (h : ∀ rest, (∀ c ∈ rest.head?, isBlank c = true ∨ c = ')') →
      lexFrom [] (e.text ++ rest) = e.tokens.map Token.lexeme ++ lexFrom [] rest)
    (needed : Bool) (hrest : ∀ c ∈ rest.head?, isBlank c = true ∨ c = ')') :
    lexFrom [] (textIn needed e.text ++ rest) =
      (bracketIf needed e.tokens).map Token.lexeme ++ lexFrom [] rest := by
  cases needed with
  | false => exact h rest hrest
  | true =>
    have htext : textIn true e.text ++ rest = '(' :: (e.text ++ ')' :: rest) := by simp [textIn]
    rw [htext, lexFrom_opening, h (')' :: rest) (by simp), lexFrom_closing]
    simp [bracketIf, Token.lexeme]

/-- The lexemes of an expression are the spellings of its tokens. -/
theorem lexFrom_text (he : e.HasWords) :
    ∀ rest, (∀ c ∈ rest.head?, isBlank c = true ∨ c = ')') →
      lexFrom [] (e.text ++ rest) = e.tokens.map Token.lexeme ++ lexFrom [] rest := by
  have hblank : isBlank ' ' = true := by decide
  induction e with
  | operand t => exact fun rest hrest => lexFrom_operand he hrest
  | conditional test yes no htest hyes hno =>
    intro rest hrest
    have htext : (conditional test yes no).text ++ rest =
        '(' :: (test.text ++ ' ' :: '?' :: ' ' :: (yes.text ++ ' ' :: ':' :: ' ' ::
          (no.text ++ ')' :: rest))) := by simp [text]
    rw [htext, lexFrom_opening, htest he.1 _ (by simp [hblank]), lexFrom_blank, lexFrom_question,
      hyes he.2.1 _ (by simp [hblank]), lexFrom_blank, lexFrom_colon, hno he.2.2 _ (by simp),
      lexFrom_closing]
    simp [tokens, Token.lexeme]
  | binary op l r hl hr =>
    intro rest hrest
    have htext : (binary op l r).text ++ rest =
        textIn (l.level < op.level) l.text ++ ' ' :: (op.symbol ++ ' ' ::
          (textIn (r.level ≤ op.level) r.text ++ rest)) := by simp [text]
    rw [htext, lexFrom_textIn (hl he.1) _ (by simp [hblank]), lexFrom_blank, lexFrom_symbol,
      lexFrom_textIn (hr he.2) _ hrest]
    simp [tokens, Token.lexeme]

end Expression

/-- A token is told by its spelling. -/
theorem Token.ofLexeme?_operand {t : Text} (ht : ∀ c ∈ t, isIdentPart c = true) :
    Token.ofLexeme? t = some (.operand t) := if_pos (List.all_eq_true.mpr ht)

theorem Token.ofLexeme?_lexeme (t : Token) (ht : ∀ w, t ≠ .operand w) :
    Token.ofLexeme? t.lexeme = some t := by
  cases t with
  | operand w => exact absurd rfl (ht w)
  | operator op => cases op <;> decide
  | _ => decide

namespace Expression

theorem mem_bracketIf {needed : Bool} {t : Token} (h : t ∈ bracketIf needed ts) :
    t ∈ ts ∨ t = .opening ∨ t = .closing := by
  cases needed with
  | false => exact Or.inl h
  | true =>
    simp only [bracketIf, if_true, List.mem_cons, List.mem_append, List.not_mem_nil, or_false] at h
    tauto

/-- The operands among the tokens of an expression are words. -/
theorem isIdentPart_of_mem_tokens {w : Text} (he : e.HasWords) (hw : .operand w ∈ e.tokens) :
    ∀ c ∈ w, isIdentPart c = true := by
  induction e with
  | operand t =>
    obtain rfl : w = t := by simpa [tokens] using hw
    exact he.2
  | binary op l r hl hr =>
    simp only [tokens, List.mem_append, List.mem_cons, reduceCtorEq, false_or] at hw
    rcases hw with hw | hw
    · exact hl he.1 ((mem_bracketIf hw).resolve_right (by simp))
    · exact hr he.2 ((mem_bracketIf hw).resolve_right (by simp))
  | conditional test yes no htest hyes hno =>
    simp only [tokens, List.mem_append, List.mem_cons, reduceCtorEq, false_or, List.not_mem_nil,
      or_false] at hw
    rcases hw with hw | hw | hw
    · exact htest he.1 hw
    · exact hyes he.2.1 hw
    · exact hno he.2.2 hw

/-- Spellings of tokens are read as the tokens. -/
theorem mapM_lexeme (h : ∀ w, .operand w ∈ ts → ∀ c ∈ w, isIdentPart c = true) :
    (ts.map Token.lexeme).mapM Token.ofLexeme? = some ts := by
  induction ts with
  | nil => rfl
  | cons t ts ih =>
    have ht : Token.ofLexeme? t.lexeme = some t := by
      cases t with
      | operand w => exact Token.ofLexeme?_operand (h w (List.mem_cons_self ..))
      | _ => exact Token.ofLexeme?_lexeme _ (by simp)
    rw [List.map_cons, List.mapM_cons, ht, ih fun w hw => h w (List.mem_cons_of_mem t hw)]
    rfl

/-- A text is read by its lexemes. -/
theorem expression?_of_lexemes (h : ∀ w, .operand w ∈ ts → ∀ c ∈ w, isIdentPart c = true)
    {t : Text} (ht : lexFrom [] t = ts.map Token.lexeme) : expression? t = readFrom [] none ts := by
  rw [expression?, tokens?, ht, mapM_lexeme h]
  rfl

/-- The text of an expression spells it. -/
theorem expression?_text (he : e.HasWords) : expression? e.text = some e := by
  have hlex := lexFrom_text he [] (by simp)
  rw [List.append_nil, lexFrom, List.isEmpty_nil, if_pos rfl, List.append_nil] at hlex
  have hread := readFrom_tokens e [] [] trivial trivial
  rw [List.append_nil] at hread
  rw [expression?_of_lexemes (fun w hw => isIdentPart_of_mem_tokens he hw) hlex, hread]
  rfl

/-- An expression in brackets is an operand like others. -/
theorem expression?_bracketed (he : e.HasWords) {c : Text}
    (hc : c ≠ [] ∧ ∀ a ∈ c, isIdentPart a = true) (op : BinaryOp) :
    expression? ("(" ++ e.text ++ ") " ++ op.symbol ++ " " ++ c) =
      some (.binary op e (.operand c)) := by
  have hblank : isBlank ' ' = true := by decide
  have hlexemes : lexFrom [] ("(" ++ e.text ++ ") " ++ op.symbol ++ " " ++ c) =
      (bracketIf true e.tokens ++ [Token.operator op, .operand c]).map Token.lexeme := by
    have htext : "(" ++ e.text ++ ") " ++ op.symbol ++ " " ++ c =
        textIn true e.text ++ ' ' :: (op.symbol ++ ' ' :: (c ++ [])) := by simp [textIn]
    rw [htext, lexFrom_textIn (lexFrom_text he) true (by simp [hblank]), lexFrom_blank,
      lexFrom_symbol, lexFrom_operand hc (by simp)]
    simp [Token.lexeme, lexFrom]
  have hwords : ∀ w, .operand w ∈ bracketIf true e.tokens ++ [.operator op, .operand c] →
      ∀ a ∈ w, isIdentPart a = true := by
    intro w hw
    rcases List.mem_append.mp hw with hw | hw
    · exact isIdentPart_of_mem_tokens he ((mem_bracketIf hw).resolve_right (by simp))
    · obtain rfl : w = c := by simpa using hw
      exact hc.2
  have hread : readFrom [] none (bracketIf true e.tokens ++ [.operator op, .operand c]) =
      readFrom [] (some e) [.operator op, .operand c] :=
    readFrom_bracketIf (readFrom_tokens e) (fun h => nomatch h) (fun h => nomatch h)
  rw [expression?_of_lexemes hwords hlexemes, hread]
  rfl

end Expression

/-- White space divides the lexemes. -/
theorem lexFrom_append_blank (x y rest : Text) :
    lexFrom x (y ++ ' ' :: rest) = lexFrom x y ++ lexFrom [] rest := by
  have hblank : isBlank ' ' = true := by decide
  induction y generalizing x with
  | nil => rw [List.nil_append, lexFrom, lexFrom, if_pos hblank]
  | cons c y ih =>
    rw [List.cons_append, lexFrom, lexFrom, ih, ih, ih]
    split_ifs <;> simp

/-- What holds a default operator is not read. -/
theorem expression?_defaulted (x y : Text) : expression? (x ++ " ?? " ++ y) = none := by
  have hlexemes : lexFrom [] (x ++ " ?? " ++ y) =
      lexFrom [] x ++ "??".toList :: lexFrom [] y := by
    have htext : x ++ " ?? " ++ y = x ++ ' ' :: ("??".toList ++ ' ' :: y) := by simp
    rw [htext, lexFrom_append_blank, lexFrom_append_blank]
    rfl
  have hunread (before after : List Text) :
      (before ++ "??".toList :: after).mapM Token.ofLexeme? = none := by
    have hmark : Token.ofLexeme? "??".toList = none := by decide
    rw [List.mapM_append, List.mapM_cons, hmark]
    cases before.mapM Token.ofLexeme? <;> rfl
  rw [expression?, tokens?, hlexemes, hunread]
  rfl

end HostScript.Script
