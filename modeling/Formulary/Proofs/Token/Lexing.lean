import Formulary.Proofs.Token.Pattern

/-! Reading a source as a relation between its visible characters and its tokens.
A source is tokenized exactly when its characters without the blanks fall into lexemes one after
the other, each scanned in view of the category before it.  Every token is spelled as its
category asks.
-/

namespace Formulary

namespace Lexeme

-----------------------------------------------------------------------------------------
-- What one scan takes
-----------------------------------------------------------------------------------------

/-- A part in front and another one behind it are in front together. -/
theorem isPrefix_append {first second chars : List Char} (hfirst : first <+: chars)
    (hsecond : second <+: chars.drop first.length)
    : first ++ second <+: chars := by
  obtain ⟨rest, rfl⟩ := hfirst
  rw [List.drop_left] at hsecond
  exact (List.prefix_append_right_inj first).2 hsecond

/-- The sign that is read stands in front. -/
theorem isPrefix_sign (chars : List Char)
    : sign chars <+: chars := by
  cases chars with
  | nil => exact List.nil_prefix
  | cons c rest =>
      rw [sign]
      split
      · exact List.prefix_append [c] rest
      · exact List.nil_prefix

/-- The digits that are read stand in front. -/
theorem isPrefix_digits (chars : List Char)
    : digits chars <+: chars :=
  List.takeWhile_prefix _

/-- Behind the digits that are read the text goes on with something else. -/
theorem drop_length_digits (chars : List Char)
    : chars.drop (digits chars).length = chars.dropWhile Char.isDigit := by
  induction chars with
  | nil => rfl
  | cons c chars ih =>
      cases hc : c.isDigit with
      | true => simpa [digits, hc] using ih
      | false => simp [digits, hc]

/-- The mantissa that is read stands in front, case by case on its point and digits. -/
theorem isPrefix_mantissa (chars : List Char)
    : mantissa chars <+: chars := by
  have hdrop := drop_length_digits chars
  fun_cases mantissa chars with
  | case1 => exact List.nil_prefix
  | case2 rest hwhole hpoint =>
      rw [hwhole, hpoint, List.length_nil, List.drop_zero] at hdrop
      rw [hdrop]
      exact List.cons_prefix_cons.2 ⟨rfl, isPrefix_digits rest⟩
  | case3 => exact List.nil_prefix
  | case4 rest hpoint =>
      refine isPrefix_append (isPrefix_digits chars) ?_
      rw [hdrop, hpoint]
      exact List.cons_prefix_cons.2 ⟨rfl, isPrefix_digits rest⟩
  | case5 => exact isPrefix_digits chars

/-- The exponent that is read stands in front. -/
theorem isPrefix_exponent (chars : List Char)
    : exponent chars <+: chars := by
  cases chars with
  | nil => exact List.nil_prefix
  | cons c rest =>
      simp only [exponent]
      split
      · have hpower := isPrefix_append (isPrefix_sign rest) (isPrefix_digits _)
        exact List.cons_prefix_cons.2 ⟨rfl, hpower⟩
      · exact List.nil_prefix

/-- The number that is read stands in front, part by part. -/
theorem isPrefix_number (chars : List Char)
    : number chars <+: chars := by
  simp only [number]
  split
  · exact List.nil_prefix
  · rw [List.append_assoc]
    refine isPrefix_append (isPrefix_sign chars) ?_
    exact isPrefix_append (isPrefix_mantissa _) (isPrefix_exponent _)

/-- The ways to scan a token, in the order in which they are tried.  Operators go first, then
identifiers, numbers and punctuation. -/
theorem scan_cases {previous : Option Tag} {chars lexeme : List Char} {tag : Tag}
    (h : scan previous chars = some (tag, lexeme))
    : ∃ c rest,
        chars = c :: rest
        ∧ ((operator? previous c = some tag ∧ lexeme = [c])
          ∨ operator? previous c = none
            ∧ ((identifier chars ≠ []
                ∧ lexeme = identifier chars
                ∧ tag = if chars[lexeme.length]? = some '(' then .funcName else .name)
              ∨ identifier chars = []
                ∧ ((number chars ≠ [] ∧ lexeme = number chars ∧ tag = .number)
                  ∨ number chars = [] ∧ punctuation? c = some tag ∧ lexeme = [c]))) := by
  cases chars with
  | nil => simp [scan] at h
  | cons c rest =>
      refine ⟨c, rest, rfl, ?_⟩
      simp only [scan] at h
      split at h
      · rename_i hoperator
        simp only [Option.some.injEq, Prod.mk.injEq] at h
        obtain ⟨rfl, rfl⟩ := h
        exact .inl ⟨hoperator, rfl⟩
      · rename_i hoperator
        refine .inr ⟨hoperator, ?_⟩
        split at h
        · rename_i hword
          simp only [Option.some.injEq, Prod.mk.injEq] at h
          obtain ⟨rfl, rfl⟩ := h
          exact .inl ⟨by simpa using hword, rfl, by simp⟩
        · rename_i hword
          refine .inr ⟨by simpa using hword, ?_⟩
          split at h
          · rename_i hnumber
            simp only [Option.some.injEq, Prod.mk.injEq] at h
            exact .inl ⟨by simpa using hnumber, h.2.symm, h.1.symm⟩
          · rename_i hnumber
            simp only [Option.map_eq_some_iff, Prod.mk.injEq] at h
            obtain ⟨_, hpunctuation, rfl, rfl⟩ := h
            exact .inr ⟨by simpa using hnumber, hpunctuation, rfl⟩

/-- A lexeme that is read stands in front, whichever rule reads it. -/
theorem isPrefix_scan {previous : Option Tag} {chars lexeme : List Char} {tag : Tag}
    (h : scan previous chars = some (tag, lexeme))
    : lexeme <+: chars := by
  obtain ⟨c, rest, rfl, h⟩ := scan_cases h
  rcases h with ⟨_, rfl⟩ | ⟨_, ⟨_, rfl, _⟩ | ⟨_, ⟨_, rfl, _⟩ | ⟨_, _, rfl⟩⟩⟩
  · exact List.prefix_append [c] rest
  · exact identifier_prefix _
  · exact isPrefix_number _
  · exact List.prefix_append [c] rest

-----------------------------------------------------------------------------------------
-- What one scan takes in front of other text
-----------------------------------------------------------------------------------------

/-- A sign where no operand ended is no operator. -/
theorem operator?_eq_none_of_ne {c : Char} (hmul : c ≠ '*') (hdiv : c ≠ '/')
    {previous : Option Tag} (h : isSign c = false ∨ previous.any Tag.endsOperand = false)
    : operator? previous c = none := by
  rcases h with h | h <;> simp [operator?, hmul, hdiv, h]

/-- An operator is a lexeme of its own. -/
theorem scan_operator {previous : Option Tag} {c : Char} {tag : Tag}
    (h : operator? previous c = some tag) (rest : List Char)
    : scan previous (c :: rest) = some (tag, [c]) := by
  simp only [scan, h]

/-- A whole identifier is scanned where nothing behind it continues it.  No letter or underscore is
an operator. -/
theorem scan_identifier {word rest : List Char} (hword : IsIdentifier word)
    (hrest : Stops isIdentifierPart rest) (previous : Option Tag)
    : scan previous (word ++ rest)
      = some (if rest.head? = some '(' then .funcName else .name, word) := by
  have hidentifier := identifier_append hword hrest
  cases word with
  | nil => exact hword.elim
  | cons c others =>
      have hne : ∀ d, isIdentifierStart d = false → c ≠ d := by
        intro d hd hc
        subst hc
        exact absurd hword.1 (by simp [hd])
      have hsign : isSign c = false := by
        simp [isSign, hne '+' rfl, hne '-' rfl]
      have hoperator : operator? previous c = none :=
        operator?_eq_none_of_ne (hne '*' rfl) (hne '/' rfl) (.inl hsign)
      have hnext : (others ++ rest)[others.length]? = rest.head? := by
        rw [List.getElem?_append_right le_rfl, Nat.sub_self, List.head?_eq_getElem?]
      rw [List.cons_append, scan, hoperator, ← List.cons_append, hidentifier]
      simp [hnext]

/-- A whole number is scanned where an operand can stand and nothing behind it continues it.  Its
first character is a sign, a digit or a point, and a sign is an operator behind an operand only. -/
theorem scan_number {chars rest : List Char} (hchars : IsNumber chars)
    (hrest : Stops isWordPart rest) {previous : Option Tag}
    (hprevious : previous.any Tag.endsOperand = false)
    : scan previous (chars ++ rest) = some (.number, chars) := by
  have hnumber := number_append hchars hrest
  obtain ⟨c, others, rfl, hc⟩ := exists_head_of_isNumber hchars
  have hne : c ≠ '*' ∧ c ≠ '/' ∧ isIdentifierStart c = false := by
    rcases hc with hc | hc | rfl
    · simp only [isSign, Bool.or_eq_true, beq_iff_eq] at hc
      rcases hc with rfl | rfl <;> decide
    · refine ⟨?_, ?_, isIdentifierStart_eq_false_of_isDigit hc⟩
      all_goals
        intro heq
        subst heq
        revert hc
        decide
    · decide
  obtain ⟨hmul, hdiv, hstart⟩ := hne
  have hoperator := operator?_eq_none_of_ne hmul hdiv (.inr hprevious)
  have hidentifier : identifier (c :: others ++ rest) = [] := by
    simp [identifier, hstart]
  rw [List.cons_append, scan, hoperator, ← List.cons_append, hidentifier, hnumber]
  rfl

/-- A point is punctuation where no digit behind it makes it a number. -/
theorem scan_dot {rest : List Char} (hrest : Stops Char.isDigit rest) (previous : Option Tag)
    : scan previous ('.' :: rest) = some (.dot, ['.']) := by
  have hnumber : number ('.' :: rest) = [] := by
    simp [number, sign, isSign, mantissa, digits, takeWhile_of_stops hrest]
  have hoperator : operator? previous '.' = none :=
    operator?_eq_none_of_ne (by decide) (by decide) (.inl rfl)
  rw [scan, hoperator, hnumber]
  rfl

end Lexeme

namespace Token

/-- No tokens have no text. -/
@[simp]
theorem textOf_nil
    : textOf [] = "" := by
  simp [textOf]

/-- The text of tokens begins with that of the first. -/
@[simp]
theorem textOf_cons (token : Token) (tokens : List Token)
    : textOf (token :: tokens) = token.text ++ textOf tokens := by
  simp [textOf]

/-- The texts of tokens side by side come part by part. -/
@[simp]
theorem textOf_append (first second : List Token)
    : textOf (first ++ second) = textOf first ++ textOf second := by
  simp [textOf]

/-- The text of a token is one that its category stands for. -/
def Spelled (token : Token) : Prop :=
  match token.tag with
  | .number => Lexeme.IsNumber token.text.toList
  | .name | .funcName => Lexeme.IsIdentifier token.text.toList
  | .addOp => token.text = "+" ∨ token.text = "-"
  | .mulOp => token.text = "*" ∨ token.text = "/"
  | .dot => token.text = "."
  | .comma => token.text = ","
  | .leftParen => token.text = "("
  | .rightParen => token.text = ")"

end Token

namespace Lexeme

/-- A scanned lexeme is spelled as its category asks.  By cases on the way it is scanned. -/
theorem spelled_of_scan {previous : Option Tag} {chars lexeme : List Char} {tag : Tag}
    (h : scan previous chars = some (tag, lexeme))
    : (Token.mk tag (String.ofList lexeme)).Spelled := by
  obtain ⟨c, rest, rfl, h⟩ := scan_cases h
  rcases h with
    ⟨hoperator, rfl⟩ | ⟨_, ⟨hword, rfl, htag⟩ | ⟨_, ⟨hnumber, rfl, rfl⟩ | ⟨_, hpunctuation, rfl⟩⟩⟩
  · simp only [operator?] at hoperator
    split at hoperator
    · rename_i hc
      cases hoperator
      simp only [Bool.or_eq_true, beq_iff_eq] at hc
      rcases hc with rfl | rfl
      · exact .inl rfl
      · exact .inr rfl
    · simp only [Option.ite_none_right_eq_some, Bool.and_eq_true, isSign, Bool.or_eq_true,
        beq_iff_eq, Option.some.injEq] at hoperator
      obtain ⟨⟨hc, _⟩, rfl⟩ := hoperator
      rcases hc with rfl | rfl
      · exact .inl rfl
      · exact .inr rfl
  · have hspelled := isIdentifier_identifier hword
    subst htag
    split <;> simpa [Token.Spelled] using hspelled
  · simpa [Token.Spelled] using isNumber_number hnumber
  · simp only [punctuation?, beq_iff_eq] at hpunctuation
    repeat' split at hpunctuation
    all_goals cases hpunctuation
    all_goals subst c; rfl

end Lexeme

-----------------------------------------------------------------------------------------
-- From scans to whole sources
-----------------------------------------------------------------------------------------

/-- The characters of a text fall into the lexemes of these tokens, each scanned in view of the
category before it. -/
inductive Lexes : Option Tag → List Char → List Token → Prop where
  | nil {previous : Option Tag}
    : Lexes previous [] []
  | cons {previous : Option Tag} {tag : Tag} {lexeme rest : List Char} {tokens : List Token}
    (hscan : Lexeme.scan previous (lexeme ++ rest) = some (tag, lexeme))
    (below : Lexes (some tag) rest tokens)
    : Lexes previous (lexeme ++ rest) (⟨tag, String.ofList lexeme⟩ :: tokens)

/-- The characters of a source that are not blank. -/
def visible (source : String) : List Char :=
  source.toList.filter fun c => !Text.isBlank c

/-- The characters that are read are those that are no blanks, wherever they stand. -/
theorem map_snd_visibleChars (offset : Nat) (chars : List Char)
    : (visibleChars offset chars).map Prod.snd = chars.filter fun c => !Text.isBlank c := by
  induction chars generalizing offset with
  | nil => rfl
  | cons c chars ih =>
      rw [visibleChars]
      split
      · rename_i hblank
        simp [hblank, ih]
      · rename_i hblank
        simp [hblank, ih]

/-- The empty text is read as no tokens. -/
theorem lexes_nil_iff {previous : Option Tag} {tokens : List Token}
    : Lexes previous [] tokens ↔ tokens = [] := by
  constructor
  · intro h
    generalize hchars : ([] : List Char) = chars at h
    cases h with
    | nil => rfl
    | cons hscan _ =>
        have hnil := List.append_eq_nil_iff.1 hchars.symm
        exact absurd hnil.1 (Lexeme.scan_ne_nil hscan)
  · intro h
    subst h
    exact .nil

/-- The first token is the one that a scan takes, and the others follow in view of it. -/
theorem lexes_iff_of_ne_nil {previous : Option Tag} {chars : List Char} {tokens : List Token}
    (hne : chars ≠ [])
    : Lexes previous chars tokens
      ↔ ∃ tag lexeme others,
          Lexeme.scan previous chars = some (tag, lexeme)
          ∧ tokens = ⟨tag, String.ofList lexeme⟩ :: others
          ∧ Lexes (some tag) (chars.drop lexeme.length) others := by
  constructor
  · intro h
    cases h with
    | nil => exact absurd rfl hne
    | cons hscan below => exact ⟨_, _, _, hscan, rfl, by simpa using below⟩
  · intro h
    obtain ⟨tag, lexeme, others, hscan, rfl, below⟩ := h
    have hsplit := List.prefix_iff_eq_append.1 (Lexeme.isPrefix_scan hscan)
    rw [← hsplit] at hscan ⊢
    exact .cons hscan below

/-- A lexer reads tokens to its end exactly when its characters fall into their lexemes.  By
induction on the characters that are left: every lexeme takes at least one. -/
theorem mapM_items_iff (lexer : Lexer) (tokens : List Token)
    : lexer.items.mapM id = .ok tokens
      ↔ Lexes lexer.previous (lexer.rest.map Prod.snd) tokens := by
  induction hlength : lexer.rest.length using Nat.strong_induction_on
    generalizing lexer tokens with
  | _ length ih =>
      obtain ⟨rest, previous⟩ := lexer
      cases rest with
      | nil =>
          rw [Lexer.items, List.map_nil, lexes_nil_iff]
          simp only [Lexer.next?, List.mapM_nil]
          constructor
          · intro h
            cases h
            rfl
          · intro h
            subst h
            rfl
      | cons head tail =>
          rw [Lexer.items, lexes_iff_of_ne_nil (by simp)]
          simp only [Lexer.next?]
          cases hscan : Lexeme.scan previous ((head :: tail).map Prod.snd) with
          | none =>
              simp only [List.mapM_cons, id]
              constructor
              · intro h
                cases h
              · intro h
                obtain ⟨_, _, _, hscanned, _⟩ := h
                cases hscanned
          | some scanned =>
              obtain ⟨tag, lexeme⟩ := scanned
              have hpos := List.length_pos_iff.2 (Lexeme.scan_ne_nil hscan)
              have hshorter : ((head :: tail).drop lexeme.length).length < length := by
                rw [← hlength, List.length_drop, List.length_cons]
                exact Nat.sub_lt (Nat.succ_pos _) hpos
              have hbelow := fun others =>
                ih _ hshorter ⟨(head :: tail).drop lexeme.length, some tag⟩ others rfl
              simp only [List.map_drop] at hbelow
              simp only [List.mapM_cons, id]
              constructor
              · cases hitems : Lexer.items _ |>.mapM id with
                | error _ =>
                    intro h
                    cases h
                | ok others =>
                    intro h
                    cases h
                    exact ⟨tag, lexeme, others, rfl, rfl, (hbelow others).1 hitems⟩
              · intro h
                obtain ⟨_, _, others, hscanned, rfl, hothers⟩ := h
                cases hscanned
                rw [(hbelow others).2 hothers]
                rfl

/-- A source is a row of tokens exactly if what is visible of it is read as the row. -/
theorem tokenize_eq_ok_iff {source : String} {tokens : List Token}
    : tokenize source = .ok tokens ↔ Lexes none (visible source) tokens := by
  rw [tokenize, mapM_items_iff, Lexer.ofSource, map_snd_visibleChars, visible]

-----------------------------------------------------------------------------------------
-- Tokens from the front of a text
-----------------------------------------------------------------------------------------

/-- Scanning takes these tokens from the front of a text, one after the other, and none from the
characters that are left. -/
inductive Scans : Option Tag → List Char → List Token → List Char → Prop where
  | stop {previous : Option Tag} {chars : List Char} (hscan : Lexeme.scan previous chars = none)
    : Scans previous chars [] chars
  | token {previous : Option Tag} {tag : Tag} {lexeme rest left : List Char}
    {tokens : List Token} (hscan : Lexeme.scan previous (lexeme ++ rest) = some (tag, lexeme))
    (below : Scans (some tag) rest tokens left)
    : Scans previous (lexeme ++ rest) (⟨tag, String.ofList lexeme⟩ :: tokens) left

/-- Every token that is read is well spelled for its category, by induction on the run. -/
theorem Scans.spelled {previous : Option Tag} {chars left : List Char} {tokens : List Token}
    (h : Scans previous chars tokens left)
    : ∀ token ∈ tokens, token.Spelled := by
  induction h with
  | stop _ => exact List.forall_mem_nil _
  | token hscan _ ih => exact List.forall_mem_cons.2 ⟨Lexeme.spelled_of_scan hscan, ih⟩

/-- A text that is read to its end leaves nothing. -/
theorem Lexes.scans {previous : Option Tag} {chars : List Char} {tokens : List Token}
    (h : Lexes previous chars tokens)
    : Scans previous chars tokens [] := by
  induction h with
  | nil => exact .stop rfl
  | cons hscan _ ih => exact .token hscan ih

/-- Every token of a row that is read is well spelled for its category. -/
theorem Lexes.spelled {previous : Option Tag} {chars : List Char} {tokens : List Token}
    (h : Lexes previous chars tokens)
    : ∀ token ∈ tokens, token.Spelled :=
  h.scans.spelled

end Formulary
