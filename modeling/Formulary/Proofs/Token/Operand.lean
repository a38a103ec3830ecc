import Formulary.Proofs.Token.Lexing

/-! Texts that are read as operands.
Where an operand can stand, its characters are taken as its tokens whatever follows, as long as
nothing there continues its last name or number.  Operands with an operator or a comma between
them, and those in parentheses, are read so again.
-/

namespace Formulary

namespace Lexeme

/-- Nothing that could continue a name, a number or the name of a function comes next. -/
def Delimited (rest : List Char) : Prop :=
  Stops (fun c => isWordPart c || c == '(') rest

/-- A character that is no part of a word and no opening parenthesis ends an operand. -/
theorem delimited_cons {c : Char} (hc : (isWordPart c || c == '(') = false) (rest : List Char)
    : Delimited (c :: rest) :=
  stops_cons hc rest

/-- What ends an operand is no part of a word. -/
theorem Delimited.stops_isWordPart {rest : List Char} (h : Delimited rest)
    : Stops isWordPart rest :=
  Stops.mono h fun _ hc => (Bool.or_eq_false_iff.1 hc).1

/-- What ends an operand is no part of an identifier. -/
theorem Delimited.stops_isIdentifierPart {rest : List Char} (h : Delimited rest)
    : Stops isIdentifierPart rest :=
  Stops.mono h.stops_isWordPart fun _ hc => (Bool.or_eq_false_iff.1 hc).1

/-- What ends an operand does not make a call of it. -/
theorem Delimited.head?_ne {rest : List Char} (h : Delimited rest)
    : rest.head? ≠ some '(' :=
  fun hrest => absurd (h '(' hrest) (by decide)

/-- Characters that are taken as these tokens wherever an operand can stand, whatever follows when
the operand has ended. -/
def ReadsAs (chars : List Char) (tokens : List Token) : Prop :=
  ∀ (previous : Option Tag) (rest : List Char) (others : List Token),
    previous.any Tag.endsOperand = false
    → Delimited rest
    → (∀ tag : Tag, tag.endsOperand = true → Lexes (some tag) rest others)
    → Lexes previous (chars ++ rest) (tokens ++ others)

/-- A source that is an operand through and through is read as its tokens. -/
theorem ReadsAs.tokenize_eq {source : String} {tokens : List Token}
    (h : ReadsAs (visible source) tokens)
    : tokenize source = .ok tokens := by
  rw [tokenize_eq_ok_iff]
  simpa using h none [] [] rfl (fun _ h => by simp at h) fun _ _ => .nil

/-- A number is read as one token: its sign cannot be an operator where no operand ended, and what
follows is no part of it. -/
theorem readsAs_number {text : String} (h : IsNumber text.toList)
    : ReadsAs text.toList [⟨.number, text⟩] := by
  intro previous rest others hprevious hrest hothers
  have hscan := scan_number h hrest.stops_isWordPart hprevious
  have hlexes := Lexes.cons hscan (hothers .number rfl)
  rwa [String.ofList_toList] at hlexes

/-- A name is read as one token if no part of an identifier and no parenthesis follows. -/
theorem lexes_name {text : String} (h : IsIdentifier text.toList) {previous : Option Tag}
    {rest : List Char} {others : List Token} (hrest : Stops isIdentifierPart rest)
    (hcall : rest.head? ≠ some '(') (hothers : Lexes (some .name) rest others)
    : Lexes previous (text.toList ++ rest) (⟨.name, text⟩ :: others) := by
  have hscan := scan_identifier h hrest previous
  rw [if_neg hcall] at hscan
  have hlexes := Lexes.cons hscan hothers
  rwa [String.ofList_toList] at hlexes

/-- A character that forms a token of its own. -/
theorem lexes_char {c : Char} {tag : Tag} {previous : Option Tag} {rest : List Char}
    {others : List Token} (hscan : scan previous (c :: rest) = some (tag, [c]))
    (hothers : Lexes (some tag) rest others)
    : Lexes previous (c :: rest) (⟨tag, String.ofList [c]⟩ :: others) := by
  rw [← List.singleton_append] at hscan ⊢
  exact .cons hscan hothers

/-- Two operands with a character between them that separates operands. -/
theorem ReadsAs.separated {first second : List Char} {left right : List Token} {c : Char}
    {tag : Tag} (hfirst : ReadsAs first left) (hsecond : ReadsAs second right)
    (hc : (isWordPart c || c == '(') = false) (htag : tag.endsOperand = false)
    (hscan : ∀ before : Tag,
      before.endsOperand = true → ∀ rest, scan (some before) (c :: rest) = some (tag, [c]))
    : ReadsAs (first ++ c :: second) (left ++ ⟨tag, String.ofList [c]⟩ :: right) := by
  intro previous rest others hprevious hrest hothers
  rw [List.append_assoc, List.append_assoc]
  refine hfirst _ _ _ hprevious (delimited_cons hc _) fun before hbefore => ?_
  exact lexes_char (hscan before hbefore _) (hsecond _ _ _ htag hrest hothers)

/-- An operand or nothing at all, in parentheses. -/
theorem lexes_group {chars : List Char} {tokens : List Token}
    (h : ReadsAs chars tokens ∨ chars = [] ∧ tokens = []) {previous : Option Tag}
    {rest : List Char} {others : List Token} (hothers : Lexes (some .rightParen) rest others)
    : Lexes previous ('(' :: (chars ++ ')' :: rest))
        (⟨.leftParen, "("⟩ :: (tokens ++ ⟨.rightParen, ")"⟩ :: others)) := by
  have hclose : ∀ before, Lexes before (')' :: rest) (⟨.rightParen, ")"⟩ :: others) :=
    fun _ => lexes_char rfl hothers
  refine lexes_char (c := '(') rfl ?_
  rcases h with h | ⟨rfl, rfl⟩
  · exact h _ _ _ rfl (delimited_cons rfl _) fun tag _ => hclose (some tag)
  · exact hclose _

/-- A group is read as its content between parentheses. -/
theorem ReadsAs.group {chars : List Char} {tokens : List Token} (h : ReadsAs chars tokens)
    : ReadsAs ('(' :: (chars ++ [')']))
        (⟨.leftParen, "("⟩ :: (tokens ++ [⟨.rightParen, ")"⟩])) := by
  intro previous rest others _ _ hothers
  simpa using lexes_group (.inl h) (hothers .rightParen rfl)

/-- The name of a function in front of its arguments, or of none. -/
theorem readsAs_call {name : String} (hname : IsIdentifier name.toList) {chars : List Char}
    {tokens : List Token} (h : ReadsAs chars tokens ∨ chars = [] ∧ tokens = [])
    : ReadsAs (name.toList ++ '(' :: (chars ++ [')']))
        (⟨.funcName, name⟩ :: ⟨.leftParen, "("⟩ :: (tokens ++ [⟨.rightParen, ")"⟩])) := by
  intro previous rest others _ _ hothers
  have hstops : Stops isIdentifierPart ('(' :: (chars ++ ')' :: rest)) := stops_cons rfl _
  have hscan := scan_identifier hname hstops previous
  have hlexes := Lexes.cons hscan (lexes_group h (hothers .rightParen rfl))
  rw [String.ofList_toList] at hlexes
  simpa using hlexes

/-- No identifier begins with a digit. -/
theorem stops_isDigit_of_isIdentifier {word : List Char} (h : IsIdentifier word)
    (rest : List Char)
    : Stops Char.isDigit (word ++ rest) := by
  cases word with
  | nil => exact h.elim
  | cons c others => exact stops_cons (isDigit_eq_false_of_isIdentifierStart h.1) _

end Lexeme

-----------------------------------------------------------------------------------------
-- The visible characters of a written value
-----------------------------------------------------------------------------------------

/-- What is visible of texts side by side comes part by part. -/
@[simp]
theorem visible_append (first second : String)
    : visible (first ++ second) = visible first ++ visible second := by
  simp [visible]

/-- A text without blanks is visible as it is. -/
theorem visible_eq_toList {text : String} (h : ∀ c ∈ text.toList, Text.isBlank c = false)
    : visible text = text.toList := by
  rw [visible, List.filter_eq_self]
  intro c hc
  rw [h c hc]
  rfl

/-- Of a group its parentheses are visible, and what is visible of its content. -/
theorem visible_group (text : String)
    : visible ("(" ++ text ++ ")") = '(' :: (visible text ++ [')']) := by
  rw [visible_append, visible_append]
  rfl

end Formulary
