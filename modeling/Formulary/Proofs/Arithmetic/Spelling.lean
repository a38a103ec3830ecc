import Formulary.Proofs.Arithmetic.Synthesis
import Formulary.Proofs.Token.Operand

/-! The texts of the tokens of an expression, one behind the other, are read as these very tokens.
In an expression no token stands where its text could run into the text behind it or be taken for
another category.  Blanks play no part, so they can be put in anywhere, even inside a token.
-/

namespace Formulary

-----------------------------------------------------------------------------------------
-- The texts of tokens
-----------------------------------------------------------------------------------------

namespace Token

/-- No category has blanks in the texts that it stands for.  Names have letters, digits and
underscores, numbers signs and points besides, and the other texts are written out. -/
theorem Spelled.isBlank_eq_false {token : Token} (h : token.Spelled)
    : ∀ c ∈ token.text.toList, Text.isBlank c = false := by
  obtain ⟨tag, text⟩ := token
  cases tag with
  | number => exact Lexeme.isBlank_eq_false_of_isNumber h
  | name => exact Lexeme.isBlank_eq_false_of_isIdentifier h
  | funcName => exact Lexeme.isBlank_eq_false_of_isIdentifier h
  | addOp | mulOp =>
      rcases h with rfl | rfl
      · simp [Text.isBlank]
      · simp [Text.isBlank]
  | dot | comma | leftParen | rightParen =>
      cases h
      simp [Text.isBlank]

/-- Well spelled tokens side by side hold no blank, as none of them does. -/
theorem isBlank_eq_false_of_mem_textOf {tokens : List Token}
    (h : ∀ token ∈ tokens, token.Spelled)
    : ∀ c ∈ (textOf tokens).toList, Text.isBlank c = false := by
  induction tokens with
  | nil => simp
  | cons token tokens ih =>
      obtain ⟨htoken, hothers⟩ := List.forall_mem_cons.1 h
      rw [textOf_cons, String.toList_append, List.forall_mem_append]
      exact ⟨htoken.isBlank_eq_false, ih hothers⟩

end Token

namespace Arithmetic

open Lexeme

-----------------------------------------------------------------------------------------
-- Dotted names
-----------------------------------------------------------------------------------------

/-- The tokens of a dotted name spell its path, by induction on its parts. -/
theorem DottedName.textOf_eq {tokens : List Token} {path : String} (h : DottedName tokens path)
    : Token.textOf tokens = path := by
  induction h with
  | name text => simp
  | member text _ ih => simp [ih, String.append_assoc]

/-- A dotted name is read up to a character that cannot continue its last part.  A dot can follow,
so the induction can take the name apart from its end. -/
theorem DottedName.lexes {tokens : List Token} {path : String} (h : DottedName tokens path)
    (hspelled : ∀ token ∈ tokens, token.Spelled) {previous : Option Tag} {rest : List Char}
    {others : List Token} (hrest : Stops isIdentifierPart rest) (hcall : rest.head? ≠ some '(')
    (hothers : Lexes (some .name) rest others)
    : Lexes previous (path.toList ++ rest) (tokens ++ others) := by
  induction h generalizing rest others with
  | name text =>
      exact lexes_name (hspelled ⟨.name, text⟩ List.mem_cons_self) hrest hcall hothers
  | @member tokens path text _ ih =>
      obtain ⟨hbefore, hafter⟩ := List.forall_mem_append.1 hspelled
      have htext : IsIdentifier text.toList := hafter ⟨.name, text⟩ (by simp)
      have hname : Lexes (some .dot) (text.toList ++ rest) (⟨.name, text⟩ :: others) :=
        lexes_name htext hrest hcall hothers
      have hdot : Lexes (some .name) ('.' :: (text.toList ++ rest))
          (⟨.dot, "."⟩ :: ⟨.name, text⟩ :: others) :=
        lexes_char (scan_dot (stops_isDigit_of_isIdentifier htext rest) _) hname
      simpa using ih hbefore (stops_cons rfl _) (by simp) hdot

/-- The names of a dotted name and the dots between them are all visible. -/
theorem DottedName.visible_eq {tokens : List Token} {path : String} (h : DottedName tokens path)
    (hspelled : ∀ token ∈ tokens, token.Spelled)
    : visible path = path.toList :=
  visible_eq_toList (h.textOf_eq ▸ Token.isBlank_eq_false_of_mem_textOf hspelled)

/-- A dotted name is read back from its path where no part of an identifier and no dot follows. -/
theorem DottedName.readsAs {tokens : List Token} {path : String} (h : DottedName tokens path)
    (hspelled : ∀ token ∈ tokens, token.Spelled)
    : ReadsAs path.toList tokens := by
  intro previous rest others _ hrest hothers
  exact h.lexes hspelled hrest.stops_isIdentifierPart hrest.head?_ne (hothers .name rfl)

-----------------------------------------------------------------------------------------
-- Phrases
-----------------------------------------------------------------------------------------

/-- The operators of a level are single characters, which are read as operators behind any
operand. -/
theorem exists_operator_char {level : Level} {text : String}
    (h : (Token.mk level.operator text).Spelled)
    : ∃ c,
        text = String.ofList [c]
        ∧ (isWordPart c || c == '(') = false
        ∧ ∀ before : Tag,
          before.endsOperand = true → operator? (some before) c = some level.operator := by
  cases level with
  | sum =>
      -- A sign is an operator only because an operand stands in front of it.
      rcases h with rfl | rfl
      · refine ⟨'+', rfl, rfl, fun before hbefore => ?_⟩
        simp [operator?, isSign, hbefore, Level.operator]
      · refine ⟨'-', rfl, rfl, fun before hbefore => ?_⟩
        simp [operator?, isSign, hbefore, Level.operator]
  | product =>
      rcases h with rfl | rfl
      · exact ⟨'*', rfl, rfl, fun _ _ => rfl⟩
      · exact ⟨'/', rfl, rfl, fun _ _ => rfl⟩

/-- Runs that are read back each are read back with commas between them, by induction on the runs: a
comma is read as itself and begins no token of another kind. -/
theorem readsAs_commaSeparated {first : List Token} {others : List (List Token)}
    (h : ∀ run ∈ first :: others, ReadsAs (Token.textOf run).toList run)
    : ReadsAs (Token.textOf (commaSeparated (first :: others))).toList
        (commaSeparated (first :: others)) := by
  induction others generalizing first with
  | nil => simpa [commaSeparated] using h first List.mem_cons_self
  | cons next others ih =>
      obtain ⟨hfirst, hothers⟩ := List.forall_mem_cons.1 h
      have hcomma
          : ReadsAs
              ((Token.textOf first).toList
                ++ ',' :: (Token.textOf (commaSeparated (next :: others))).toList)
              (first ++ ⟨.comma, ","⟩ :: commaSeparated (next :: others)) :=
        hfirst.separated (ih hothers) rfl rfl fun _ _ _ => rfl
      rw [commaSeparated_cons (by simp)]
      simpa using hcomma

/-- The text of a phrase is read as its tokens wherever an operand can stand.  By induction on the
phrase: an operator, a comma or a parenthesis ends every operand in front of it. -/
theorem Phrase.readsAs {kind : Kind} {tokens : List Token} {value : Value}
    (h : Phrase kind tokens value) (hspelled : ∀ token ∈ tokens, token.Spelled)
    : ReadsAs (Token.textOf tokens).toList tokens := by
  induction h with
  | operand _ ih => exact ih hspelled
  | @join level first second _ _ _ text _ _ _ ihLeft ihRight =>
      obtain ⟨hfirst, hothers⟩ := List.forall_mem_append.1 hspelled
      obtain ⟨hoperator, hsecond⟩ := List.forall_mem_cons.1 hothers
      obtain ⟨c, rfl, hdelimited, hscan⟩ := exists_operator_char hoperator
      have hjoined :=
        (ihLeft hfirst).separated (ihRight hsecond) hdelimited (by cases level <;> rfl)
          fun before hbefore rest => scan_operator (hscan before hbefore) rest
      simpa using hjoined
  | constant text =>
      have htext : IsNumber text.toList := hspelled ⟨.number, text⟩ List.mem_cons_self
      simpa using readsAs_number htext
  | named hname =>
      rw [hname.textOf_eq]
      exact hname.readsAs hspelled
  | group _ ih =>
      have hinner := ih fun token htoken => hspelled token (by simp [htoken])
      simpa using hinner.group
  | @call name args _ ih =>
      have hname : IsIdentifier name.toList := hspelled ⟨.funcName, name⟩ List.mem_cons_self
      have hruns : ∀ run ∈ args.map Prod.fst, ReadsAs (Token.textOf run).toList run := by
        intro run hrun
        obtain ⟨arg, harg, rfl⟩ := List.mem_map.1 hrun
        refine ih arg harg fun token htoken => hspelled token ?_
        simp [subset_commaSeparated hrun htoken]
      have hargs
          : ReadsAs (Token.textOf (commaSeparated (args.map Prod.fst))).toList
              (commaSeparated (args.map Prod.fst))
            ∨ (Token.textOf (commaSeparated (args.map Prod.fst))).toList = []
              ∧ commaSeparated (args.map Prod.fst) = [] := by
        cases args with
        | nil => exact .inr ⟨rfl, rfl⟩
        | cons first others => exact .inl (readsAs_commaSeparated hruns)
      simpa using readsAs_call hname hargs

end Arithmetic

-----------------------------------------------------------------------------------------
-- Sources with blanks anywhere
-----------------------------------------------------------------------------------------

/-- The second text is the first with blanks put in anywhere. -/
inductive Interspersed : List Char → List Char → Prop where
  | nil
    : Interspersed [] []
  | keep {text source : List Char} (c : Char) (below : Interspersed text source)
    : Interspersed (c :: text) (c :: source)
  | blank {text source : List Char} {c : Char} (hblank : Text.isBlank c = true)
    (below : Interspersed text source)
    : Interspersed text (c :: source)

/-- Putting in blanks changes none of the visible characters. -/
theorem Interspersed.filter_eq {text source : List Char} (h : Interspersed text source)
    : (source.filter fun c => !Text.isBlank c) = text.filter fun c => !Text.isBlank c := by
  induction h with
  | nil => rfl
  | keep c _ ih => simp [List.filter_cons, ih]
  | blank hblank _ ih => simp [hblank, ih]

/-- A source is its visible characters with blanks put in. -/
theorem interspersed_visible (source : String)
    : Interspersed (visible source) source.toList := by
  rw [visible]
  induction source.toList with
  | nil => exact .nil
  | cons c chars ih =>
      cases hc : Text.isBlank c with
      | true => simpa [hc] using ih.blank hc
      | false => simpa [hc] using ih.keep c

namespace Arithmetic

open Parse

/-- Well spelled tokens that derive from the start symbol are read from their texts, whatever blanks
stand between and inside them.  No two tokens stand side by side in an expression whose texts could
run into each other. -/
theorem tokenize_interspersed {tokens : List Token} {tree : Tree} {source : String}
    (hspelled : ∀ token ∈ tokens, token.Spelled)
    (hderivation
      : Derivation .arithmetic (tokens.toArray.map Token.tag)
          (.nonterminal Nonterminal.start.number) 0 tokens.length tree)
    (hsource : Interspersed (Token.textOf tokens).toList source.toList)
    : tokenize source = .ok tokens := by
  have hall : ∀ token ∈ tokens.toArray, token.Spelled := by simpa using hspelled
  obtain ⟨value, _, hphrase⟩ := exists_synthesize_eq_ok hall hderivation
  have hreads := hphrase.readsAs hspelled
  have hvisible : visible source = (Token.textOf tokens).toList := by
    have htext := visible_eq_toList (Token.isBlank_eq_false_of_mem_textOf hspelled)
    rw [visible, hsource.filter_eq, ← visible, htext]
  exact Lexeme.ReadsAs.tokenize_eq (hvisible ▸ hreads)

/-- A signed number with an exponent behind a sign, and a call, all of them broken up by blanks. -/
theorem tokenize_interspersed_signs
    : let tokens : List Token :=
        [
          ⟨.name, "a"⟩, ⟨.addOp, "-"⟩, ⟨.number, "-1e5"⟩, ⟨.mulOp, "*"⟩, ⟨.funcName, "f"⟩,
          ⟨.leftParen, "("⟩, ⟨.rightParen, ")"⟩
        ]
      let source := "a - - 1\te 5*f ( \n)"
      (∀ token ∈ tokens, token.Spelled)
      ∧ (∃ tree,
        Derivation .arithmetic (tokens.toArray.map Token.tag)
          (.nonterminal Nonterminal.start.number) 0 tokens.length tree)
      ∧ Interspersed (Token.textOf tokens).toList source.toList
      ∧ tokenize source = .ok tokens := by
  intro tokens source
  have hnumber : Lexeme.IsNumber "-1e5".toList := Lexeme.isNumber_iff.2 (by decide)
  have hspelled : ∀ token ∈ tokens, token.Spelled := by
    simpa [tokens, Token.Spelled, Lexeme.IsIdentifier, Lexeme.isIdentifierStart] using hnumber
  have hconstant : Phrase (.chain .product) [⟨.number, "-1e5"⟩] (.constant "-1e5") :=
    .operand (.constant "-1e5")
  have hcall
      : Phrase Level.product.operand
          [⟨.funcName, "f"⟩, ⟨.leftParen, "("⟩, ⟨.rightParen, ")"⟩] (.call "f" []) :=
    .call "f" (List.forall_mem_nil _)
  have hmul : BinaryOp.ofSymbol? "*" = some .mul := rfl
  have hsub : BinaryOp.ofSymbol? "-" = some .sub := rfl
  have hname : Phrase (.chain .sum) [⟨.name, "a"⟩] (.named "a") :=
    (Phrase.named (.name "a")).chain_of_factor .sum
  have hphrase := Phrase.join hsub hname (.join hmul hconstant hcall)
  obtain ⟨tree, htree⟩ := hphrase.exists_derivation
  have htext : (Token.textOf tokens).toList = visible source := by decide
  have hsource : Interspersed (Token.textOf tokens).toList source.toList :=
    htext ▸ interspersed_visible source
  exact ⟨hspelled, ⟨tree, htree⟩, hsource, tokenize_interspersed hspelled htree hsource⟩

end Arithmetic

end Formulary
