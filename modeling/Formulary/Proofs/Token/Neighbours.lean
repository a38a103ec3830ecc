import Formulary.Proofs.Token.Reading

/-! Which categories stand beside each other.
A sign is an operator only behind an operand and part of a number only elsewhere, and an identifier
is taken as a whole, with a look at the character behind it.  So each token of a source fits the
token before it and the one behind it, whether the source is an expression or not.
-/

namespace Formulary

namespace Lexeme

-----------------------------------------------------------------------------------------
-- What one scan shows of the text around the token
-----------------------------------------------------------------------------------------

/-- A run that ends before the end of the text ends at a character that does not continue it. -/
theorem stops_of_takeWhile {p : Char → Bool} {word rest : List Char}
    (h : (word ++ rest).takeWhile p = word)
    : Stops p rest := by
  intro c hc
  obtain ⟨others, rfl⟩ := List.head?_eq_some_iff.1 hc
  by_contra hp
  have hword : ∀ d ∈ word, p d = true := by
    intro d hd
    rw [← h] at hd
    exact List.mem_takeWhile_imp hd
  rw [List.takeWhile_append_of_pos hword, List.takeWhile_cons_of_pos (by simpa using hp)] at h
  simp at h

/-- Behind an identifier that is read stands no part of it. -/
theorem stops_of_identifier {word rest : List Char} (h : identifier (word ++ rest) = word)
    (hne : word ≠ [])
    : Stops isIdentifierPart rest := by
  cases word with
  | nil => exact absurd rfl hne
  | cons c others =>
      rw [List.cons_append, identifier] at h
      split at h
      · exact stops_of_takeWhile (List.cons.inj h).2
      · cases h

/-- An operator is a product sign, or a sum sign behind an operand. -/
theorem operator?_cases {previous : Option Tag} {c : Char} {tag : Tag}
    (h : operator? previous c = some tag)
    : tag = .mulOp
      ∨ tag = .addOp ∧ isSign c = true ∧ previous.any Tag.endsOperand = true := by
  rw [operator?] at h
  split at h
  · exact .inl (Option.some.inj h).symm
  · obtain ⟨hsign, htag⟩ := Option.ite_none_right_eq_some.1 h
    exact .inr ⟨(Option.some.inj htag).symm, Bool.and_eq_true_iff.1 hsign⟩

/-- Punctuation is a point, a comma or a parenthesis. -/
theorem punctuation?_cases {c : Char} {tag : Tag} (h : punctuation? c = some tag)
    : tag = .dot ∨ tag = .comma ∨ tag = .leftParen ∨ tag = .rightParen := by
  rw [punctuation?] at h
  repeat' split at h
  all_goals cases h
  all_goals simp

variable {previous : Option Tag} {lexeme rest : List Char} {tag : Tag}

/-- An additive operator is a sign behind an operand. -/
theorem endsOperand_of_scan_addOp (h : scan previous (lexeme ++ rest) = some (.addOp, lexeme))
    : previous.any Tag.endsOperand = true
      ∧ ∃ c, (lexeme ++ rest).head? = some c ∧ isSign c = true := by
  obtain ⟨c, others, hchars, h⟩ := scan_cases h
  rcases h with ⟨hoperator, _⟩ | ⟨_, ⟨_, _, htag⟩ | ⟨_, ⟨_, _, htag⟩ | ⟨_, hpunctuation, _⟩⟩⟩
  · rcases operator?_cases hoperator with htag | ⟨_, hsign, hprevious⟩
    · cases htag
    · exact ⟨hprevious, c, by rw [hchars, List.head?_cons], hsign⟩
  · split at htag <;> cases htag
  · cases htag
  · rcases punctuation?_cases hpunctuation with htag | htag | htag | htag <;> cases htag

/-- A number takes a sign only where no operand stands before it. -/
theorem not_endsOperand_of_scan_number
    (h : scan previous (lexeme ++ rest) = some (.number, lexeme))
    {c : Char} (hc : lexeme.head? = some c) (hsign : isSign c = true)
    : previous.any Tag.endsOperand = false := by
  obtain ⟨others, rfl⟩ := List.head?_eq_some_iff.1 hc
  obtain ⟨d, _, hchars, h⟩ := scan_cases h
  obtain ⟨rfl, _⟩ := List.cons.inj hchars
  rcases h with ⟨hoperator, _⟩ | ⟨hoperator, _⟩
  · rcases operator?_cases hoperator with htag | ⟨htag, _⟩ <;> cases htag
  · rw [operator?] at hoperator
    split at hoperator
    · cases hoperator
    · simpa [hsign] using hoperator

/-- An identifier ends where nothing continues it, and an opening parenthesis there makes it the
name of a function. -/
theorem stops_of_scan_identifier (h : scan previous (lexeme ++ rest) = some (tag, lexeme))
    (htag : tag = .name ∨ tag = .funcName)
    : Stops isIdentifierPart rest ∧ (tag = .funcName ↔ rest.head? = some '(') := by
  have hne := scan_ne_nil h
  obtain ⟨c, others, _, h⟩ := scan_cases h
  rcases h with
    ⟨hoperator, _⟩ | ⟨_, ⟨_, hword, hkind⟩ | ⟨_, ⟨_, _, hkind⟩ | ⟨_, hpunctuation, _⟩⟩⟩
  · rcases operator?_cases hoperator with rfl | ⟨rfl, _⟩ <;> simp at htag
  · refine ⟨stops_of_identifier hword.symm hne, ?_⟩
    have hbehind : (lexeme ++ rest)[lexeme.length]? = rest.head? := by
      rw [List.getElem?_append_right le_rfl, Nat.sub_self, List.head?_eq_getElem?]
    rw [hkind, hbehind]
    by_cases hparen : rest.head? = some '(' <;> simp [hparen]
  · subst hkind
    simp at htag
  · rcases punctuation?_cases hpunctuation with rfl | rfl | rfl | rfl <;> simp at htag

/-- An opening parenthesis is read as one, whatever stands around it. -/
theorem scan_leftParen (previous : Option Tag) (rest : List Char)
    : scan previous ('(' :: rest) = some (.leftParen, ['(']) :=
  rfl

end Lexeme

-----------------------------------------------------------------------------------------
-- The token behind a place
-----------------------------------------------------------------------------------------

namespace Scans

variable {previous : Option Tag} {chars left : List Char} {tokens : List Token}

/-- The first token begins with the first character that was left to read. -/
theorem head?_text (h : Scans previous chars tokens left) {first : Token}
    (hfirst : first ∈ tokens.head?)
    : first.text.toList.head? = chars.head? := by
  cases h with
  | stop _ => cases hfirst
  | @token _ tag lexeme rest _ others hscan _ =>
      cases hfirst
      obtain ⟨c, lexeme, rfl⟩ := List.exists_cons_of_ne_nil (Lexeme.scan_ne_nil hscan)
      simp

/-- An opening parenthesis is always taken as a token of its own.  It is no operator and no part of
a name or a number. -/
theorem leftParen_iff (h : Scans previous chars tokens left)
    : chars.head? = some '(' ↔ ∃ first ∈ tokens.head?, first.tag = .leftParen := by
  constructor
  · intro hchars
    obtain ⟨others, rfl⟩ := List.head?_eq_some_iff.1 hchars
    generalize htext : '(' :: others = text at h
    cases h with
    | stop hscan =>
        rw [← htext, Lexeme.scan_leftParen] at hscan
        cases hscan
    | token hscan _ =>
        rw [← htext, Lexeme.scan_leftParen] at hscan
        obtain ⟨htag, _⟩ := Prod.mk.inj (Option.some.inj hscan)
        exact ⟨_, rfl, htag.symm⟩
  · rintro ⟨first, hfirst, htag⟩
    have hspelled := h.spelled first (List.mem_of_mem_head? hfirst)
    simp only [Token.Spelled, htag] at hspelled
    rw [← h.head?_text hfirst, hspelled]
    rfl

end Scans

-----------------------------------------------------------------------------------------
-- Every token fits its neighbours
-----------------------------------------------------------------------------------------

/-- What a token asks of the category before it and of the token behind it. -/
structure Token.Fits (previous : Option Tag) (token : Token) (next : Option Token) : Prop where
  addOp :
    token.tag = .addOp → ∃ before ∈ previous, before ∈ [Tag.name, .number, .rightParen]
  signed :
    token.tag = .number
    → (∃ c ∈ token.text.toList.head?, Lexeme.isSign c = true)
    → ∀ before ∈ previous, before ∈ [Tag.addOp, .mulOp, .dot, .comma, .leftParen]
  funcName :
    token.tag = .name ∨ token.tag = .funcName
    → (token.tag = .funcName ↔ ∃ behind ∈ next, behind.tag = .leftParen)
  name :
    token.tag = .name
    → ∀ behind ∈ next,
        behind.tag ≠ .name
        ∧ behind.tag ≠ .funcName
        ∧ (behind.tag = .number → ∀ c ∈ behind.text.toList.head?, c.isDigit = false)

open Lexeme

/-- A text that begins with no letter, digit or underscore is neither an identifier nor a number
that begins with a digit. -/
theorem Token.Spelled.not_identifier {token : Token} (h : token.Spelled)
    (hstop : Stops isIdentifierPart token.text.toList)
    : token.tag ≠ .name
      ∧ token.tag ≠ .funcName
      ∧ (token.tag = .number → ∀ c ∈ token.text.toList.head?, c.isDigit = false) := by
  have hhead : ∀ c ∈ token.text.toList.head?, isIdentifierStart c = false ∧ c.isDigit = false := by
    intro c hc
    rw [← Bool.or_eq_false_iff, ← isIdentifierPart_eq]
    exact hstop c hc
  have hword : ¬ IsIdentifier token.text.toList := by
    intro hword
    cases hchars : token.text.toList with
    | nil => rwa [hchars] at hword
    | cons c rest =>
        rw [hchars] at hword hhead
        exact absurd hword.1 (Bool.eq_false_iff.1 (hhead c rfl).1)
  refine ⟨fun htag => hword ?_, fun htag => hword ?_, fun _ c hc => (hhead c hc).2⟩
  · simpa only [Token.Spelled, htag] using h
  · simpa only [Token.Spelled, htag] using h

/-- A scan takes a token that fits where an opening parenthesis stands behind each name of a
function. -/
theorem fits_of_scan {previous : Option Tag} {tag : Tag} {lexeme rest left : List Char}
    {tokens : List Token} (hscan : scan previous (lexeme ++ rest) = some (tag, lexeme))
    (below : Scans (some tag) rest tokens left)
    (hprevious : previous = some .funcName → (lexeme ++ rest).head? = some '(')
    : (Token.mk tag (String.ofList lexeme)).Fits previous tokens.head? where
  addOp := by
    rintro rfl
    obtain ⟨hoperand, c, hc, hsign⟩ := endsOperand_of_scan_addOp hscan
    obtain ⟨before, rfl, hends⟩ := (Option.any_eq_true _ _).1 hoperand
    refine ⟨before, rfl, ?_⟩
    have hcall : before ≠ .funcName := by
      rintro rfl
      rw [hprevious rfl] at hc
      cases hc
      exact absurd hsign (by decide)
    revert hends hcall
    cases before <;> decide
  signed := by
    rintro rfl ⟨c, hc, hsign⟩ before rfl
    have hoperand := not_endsOperand_of_scan_number hscan (by simpa using hc) hsign
    revert hoperand
    cases before <;> decide
  funcName := by
    intro htag
    rw [← below.leftParen_iff]
    exact (stops_of_scan_identifier hscan htag).2
  name := by
    intro htag behind hbehind
    have hspelled := below.spelled behind (List.mem_of_mem_head? hbehind)
    refine hspelled.not_identifier fun c hc => ?_
    rw [below.head?_text hbehind] at hc
    exact (stops_of_scan_identifier hscan (.inl htag)).1 c hc

/-- Every token of a scan fits its neighbours, by induction on the scan.  That each name of a
function stands before an opening parenthesis is carried along. -/
theorem Scans.fits {previous : Option Tag} {chars left : List Char} {tokens : List Token}
    (h : Scans previous chars tokens left)
    (hprevious : previous = some .funcName → chars.head? = some '(')
    {before after : List Token} {token : Token} (hsplit : tokens = before ++ token :: after)
    : token.Fits ((before.getLast?.map Token.tag).or previous) after.head? := by
  induction h generalizing before with
  | stop _ => simp at hsplit
  | @token previous tag lexeme rest left tokens hscan below ih =>
      cases before with
      | nil =>
          obtain ⟨rfl, rfl⟩ := List.cons.inj hsplit
          exact fits_of_scan hscan below hprevious
      | cons first before =>
          rw [List.cons_append, List.cons.injEq] at hsplit
          obtain ⟨rfl, hsplit⟩ := hsplit
          have hbehind : some tag = some .funcName → rest.head? = some '(' := by
            intro htag
            cases htag
            exact (stops_of_scan_identifier hscan (.inr rfl)).2.1 rfl
          have hfits := ih hbehind hsplit
          rw [List.getLast?_cons]
          cases hlast : before.getLast? <;> simpa [hlast] using hfits

/-- The tokens that a lexer reads, up to an error if there is one, are spelled as their categories
ask, and each of them fits the token before it and the one behind it. -/
theorem lexer_places_categories (source : String)
    : ∃ tokens fault,
        (Lexer.ofSource source).Reads tokens fault
        ∧ (∀ token ∈ tokens, token.Spelled)
        ∧ ∀ before token after,
            tokens = before ++ token :: after
            → token.Fits (before.getLast?.map Token.tag) after.head? := by
  obtain ⟨tokens, left, hscans⟩ := exists_scans none (visible source)
  obtain ⟨_, _, _, _, _, hreads⟩ := hscans.reads_ofSource
  refine ⟨tokens, _, hreads, hscans.spelled, fun before token after hsplit => ?_⟩
  have hfits := hscans.fits (fun h => by cases h) hsplit
  rwa [Option.or_none] at hfits

end Formulary
