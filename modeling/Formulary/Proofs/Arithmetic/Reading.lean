import Formulary.Proofs.Arithmetic.Precedence
import Formulary.Proofs.Token.Lexing

/-! Reading by precedence finds exactly the phrases.
A phrase is read with its value whatever stands behind it, as long as nothing there could lengthen
its last operand.  Everything that is read from well spelled tokens is a phrase.
-/

namespace Formulary.Arithmetic

-----------------------------------------------------------------------------------------
-- Phrases are read
-----------------------------------------------------------------------------------------

/-- Nothing that could lengthen an operand of the level comes next. -/
def Follows (level : Level) (rest : List Token) : Prop :=
  ∀ token ∈ rest.head?, token.tag ≠ .dot ∧ (level = .sum → token.tag ≠ .mulOp)

/-- Any token but a dot can follow a sum, and any but a dot and a multiplicative operator a product
that stands in one. -/
theorem follows_cons {level : Level} {tag : Tag} (hdot : tag ≠ .dot)
    (hmul : level = .sum → tag ≠ .mulOp) (text : String) (rest : List Token)
    : Follows level (⟨tag, text⟩ :: rest) := by
  intro token htoken
  cases htoken
  exact ⟨hdot, hmul⟩

/-- A dotted name ends where no dot follows. -/
theorem readPath_of_follows {level : Level} {rest : List Token} (h : Follows level rest)
    (path : String)
    : readPath path rest = (path, rest) := by
  unfold readPath
  split
  · exact absurd rfl (h _ rfl).1
  · rfl

/-- A chain ends where no operator of its level follows. -/
theorem readTail_of_ne {level : Level} {rest : List Token}
    (h : ∀ token ∈ rest.head?, token.tag ≠ level.operator) (left : Value)
    : readTail level left rest = some (left, rest) := by
  cases rest with
  | nil => exact readTail_nil level left
  | cons token rest => rw [readTail_cons, if_neg (h token rfl)]

/-- Reading a dotted name comes to the path so far, wherever it is continued. -/
theorem DottedName.exists_readPath {tokens : List Token} {path : String}
    (h : DottedName tokens path)
    : ∃ text others,
        tokens = ⟨.name, text⟩ :: others
        ∧ ∀ rest, readPath text (others ++ rest) = readPath path rest := by
  induction h with
  | name text => exact ⟨text, [], rfl, fun _ => rfl⟩
  | member text _ ih =>
      obtain ⟨first, others, rfl, hread⟩ := ih
      refine ⟨first, others ++ [⟨.dot, "."⟩, ⟨.name, text⟩], rfl, fun rest => ?_⟩
      rw [List.append_assoc, hread]
      rfl

/-- What reading a phrase of each kind comes to, for every continuation. -/
def IsRead : Kind → List Token → Value → Prop
  | .chain level, tokens, value =>
      ∀ rest, Follows level rest → readChain level (tokens ++ rest) = readTail level value rest
  | .factor, tokens, value =>
      ∀ rest, Follows .product rest → readFactor (tokens ++ rest) = some (value, rest)

/-- An operand that is read in front of everything that can follow is read here.  A sum has products
for operands, and behind these no multiplicative operator can follow. -/
theorem IsRead.readOperand {level : Level} {tokens rest : List Token} {value : Value}
    (h : IsRead level.operand tokens value) (hrest : Follows level rest)
    : readOperand level (tokens ++ rest) = some (value, rest) := by
  cases level with
  | sum =>
      have hproduct : Follows .product rest := fun token htoken => ⟨(hrest token htoken).1, nofun⟩
      rw [readOperand_sum, h rest hproduct]
      have hne : ∀ token ∈ rest.head?, token.tag ≠ Level.product.operator :=
        fun token htoken => (hrest token htoken).2 rfl
      exact readTail_of_ne hne value
  | product =>
      rw [readOperand_product]
      exact h rest hrest

/-- An expression is read to its end where a comma or a closing parenthesis follows. -/
theorem IsRead.readChain_closing {tokens : List Token} {value : Value} {tag : Tag}
    (h : IsRead (.chain .sum) tokens value) (htag : tag = .comma ∨ tag = .rightParen)
    (text : String) (rest : List Token)
    : readChain .sum (tokens ++ ⟨tag, text⟩ :: rest) = some (value, ⟨tag, text⟩ :: rest) := by
  have hne : tag ≠ .dot ∧ tag ≠ .mulOp ∧ tag ≠ .addOp := by
    rcases htag with rfl | rfl <;> decide
  obtain ⟨hdot, hmul, hadd⟩ := hne
  rw [h _ (follows_cons hdot (fun _ => hmul) text rest)]
  refine readTail_of_ne ?_ value
  intro token htoken
  cases htoken
  exact hadd

/-- Arguments are read up to the parenthesis behind the last of them.  Each of them is a phrase that
is read up to the comma or the parenthesis behind it. -/
theorem readArguments_commaSeparated {first : List Token × Value}
    {others : List (List Token × Value)}
    (h : ∀ arg ∈ first :: others, IsRead (.chain .sum) arg.1 arg.2) (rest : List Token)
    : readArguments
        (commaSeparated ((first :: others).map Prod.fst) ++ ⟨.rightParen, ")"⟩ :: rest)
      = some ((first :: others).map Prod.snd, rest) := by
  induction others generalizing first with
  | nil =>
      have hfirst := (h first List.mem_cons_self).readChain_closing (.inr rfl) ")" rest
      rw [readArguments_eq, List.map_cons, List.map_nil, commaSeparated,
        List.intercalate_singleton, hfirst]
      rfl
  | cons next others ih =>
      have hothers := ih fun arg harg => h arg (List.mem_cons_of_mem _ harg)
      have hfirst := (h first List.mem_cons_self).readChain_closing (.inl rfl) ","
        (commaSeparated ((next :: others).map Prod.fst) ++ ⟨.rightParen, ")"⟩ :: rest)
      have hsplit
          : commaSeparated ((first :: next :: others).map Prod.fst) ++ ⟨.rightParen, ")"⟩ :: rest
            = first.1 ++ ⟨.comma, ","⟩
                :: (commaSeparated ((next :: others).map Prod.fst)
                  ++ ⟨.rightParen, ")"⟩ :: rest) := by
        simp [commaSeparated_cons]
      rw [hsplit, readArguments_eq, hfirst]
      simp only [hothers]
      rfl

/-- No arguments are read where there is nothing but the closing parenthesis, since no factor begins
with it. -/
theorem readArguments_rightParen (text : String) (rest : List Token)
    : readArguments (⟨.rightParen, text⟩ :: rest) = none := by
  rw [readArguments_eq, readChain_eq, readOperand_sum, readChain_eq, readOperand_product,
    readFactor_eq]
  rfl

/-- A call with arguments cannot be mistaken for one without. -/
theorem readFactor_call {tokens rest : List Token} {values : List Value}
    (h : readArguments tokens = some (values, rest)) (name text : String)
    : readFactor (⟨.funcName, name⟩ :: ⟨.leftParen, text⟩ :: tokens)
      = some (.call name values, rest) := by
  rw [readFactor_eq]
  rcases tokens with _ | ⟨⟨tag, first⟩, others⟩
  · simp only [h, Option.map_some]
  · cases tag with
    | rightParen => simp [readArguments_rightParen] at h
    | _ => simp only [h, Option.map_some]

/-- Every phrase is read with its value, by induction on the phrase.  What may follow a phrase of
its kind does not continue it, so reading ends where the phrase does. -/
theorem Phrase.isRead {kind : Kind} {tokens : List Token} {value : Value}
    (h : Phrase kind tokens value)
    : IsRead kind tokens value := by
  induction h with
  | @operand level tokens value _ ih =>
      intro rest hrest
      rw [readChain_eq, ih.readOperand hrest]
      rfl
  | @join level first second left right op text hop _ _ ihLeft ihRight =>
      intro rest hrest
      -- The left chain is read up to this operator, which the tail then takes with its operand.
      have hoperator : Follows level (⟨level.operator, text⟩ :: (second ++ rest)) :=
        follows_cons (by cases level <;> decide) (by cases level <;> decide) text _
      rw [List.append_assoc, List.cons_append, ihLeft _ hoperator, readTail_cons, if_pos rfl, hop,
        Option.bind_some, ihRight.readOperand hrest]
      rfl
  | constant text =>
      intro rest _
      rw [List.singleton_append, readFactor_eq]
  | named hname =>
      intro rest hrest
      obtain ⟨text, others, rfl, hread⟩ := hname.exists_readPath
      rw [List.cons_append, readFactor_eq]
      simp only [hread, readPath_of_follows hrest]
  | group _ ih =>
      intro rest _
      rw [List.cons_append, List.append_assoc, readFactor_eq]
      simp only [List.singleton_append, ih.readChain_closing (.inr rfl) _ _]
  | @call name args _ ih =>
      intro rest _
      rw [List.cons_append, List.cons_append, List.append_assoc, List.singleton_append]
      cases args with
      | nil =>
          rw [readFactor_eq]
          rfl
      | cons first others => exact readFactor_call (readArguments_commaSeparated ih rest) name "("

-----------------------------------------------------------------------------------------
-- What is read is a phrase
-----------------------------------------------------------------------------------------

/-- Whatever is read from the front of some tokens is a phrase of its kind. -/
structure ReadsPhrases (tokens : List Token) : Prop where
  factor : ∀ {value rest},
    readFactor tokens = some (value, rest)
    → ∃ front, tokens = front ++ rest ∧ Phrase .factor front value
  chain : ∀ {level value rest},
    readChain level tokens = some (value, rest)
    → ∃ front, tokens = front ++ rest ∧ Phrase (.chain level) front value
  tail : ∀ {level left value before rest},
    readTail level left tokens = some (value, rest)
    → Phrase (.chain level) before left
    → ∃ front, tokens = front ++ rest ∧ Phrase (.chain level) (before ++ front) value
  arguments : ∀ {values rest},
    readArguments tokens = some (values, rest)
    → ∃ args,
        tokens = commaSeparated (args.map Prod.fst) ++ ⟨.rightParen, ")"⟩ :: rest
        ∧ values = args.map Prod.snd
        ∧ args ≠ []
        ∧ ∀ arg ∈ args, Phrase (.chain .sum) arg.1 arg.2

/-- What is read as an operand is a phrase too, as it is a chain or a factor. -/
theorem ReadsPhrases.operand {tokens rest : List Token} {level : Level} {value : Value}
    (sound : ReadsPhrases tokens) (h : readOperand level tokens = some (value, rest))
    : ∃ front, tokens = front ++ rest ∧ Phrase level.operand front value := by
  cases level with
  | sum =>
      rw [readOperand_sum] at h
      exact sound.chain h
  | product =>
      rw [readOperand_product] at h
      exact sound.factor h

/-- The names and dots that a path takes up make it a longer dotted name. -/
theorem exists_dottedName_of_readPath {path : String} {tokens before : List Token}
    (hspelled : ∀ token ∈ tokens, token.Spelled) (h : DottedName before path)
    : ∃ front,
        tokens = front ++ (readPath path tokens).2
        ∧ DottedName (before ++ front) (readPath path tokens).1 := by
  fun_induction readPath path tokens generalizing before with
  | case1 path dot text rest ih =>
      obtain ⟨hdot, hrest⟩ := List.forall_mem_cons.1 hspelled
      cases hdot
      obtain ⟨front, hfront, hname⟩ := ih (List.forall_mem_cons.1 hrest).2 (h.member text)
      refine ⟨⟨.dot, "."⟩ :: ⟨.name, text⟩ :: front, ?_, by simpa using hname⟩
      rw [List.cons_append, List.cons_append, ← hfront]
  | case2 path tokens => exact ⟨[], rfl, by simpa using h⟩

section Shorter

variable {tokens : List Token} (hspelled : ∀ token ∈ tokens, token.Spelled)
  (ih : ∀ shorter : List Token,
    shorter.length < tokens.length
    → (∀ token ∈ shorter, token.Spelled)
    → ReadsPhrases shorter)

include hspelled ih

/-- What is read as a factor is a phrase, given that this holds of what is read from fewer
tokens. -/
theorem exists_factor_of_read {value : Value} {rest : List Token}
    (h : readFactor tokens = some (value, rest))
    : ∃ front, tokens = front ++ rest ∧ Phrase .factor front value := by
  rw [readFactor_eq] at h
  split at h
  · cases h
    rename_i text
    exact ⟨[⟨.number, text⟩], rfl, .constant text⟩
  · cases h
    rename_i text others
    obtain ⟨front, hfront, hname⟩ :=
      exists_dottedName_of_readPath (List.forall_mem_cons.1 hspelled).2 (.name text)
    exact ⟨⟨.name, text⟩ :: front, congrArg _ hfront, .named hname⟩
  · rename_i others
    obtain ⟨hopen, hothers⟩ := List.forall_mem_cons.1 hspelled
    cases hopen
    split at h
    · rename_i text after hchain
      cases h
      obtain ⟨front, rfl, hfront⟩ := (ih others (Nat.lt_succ_self _) hothers).chain hchain
      have hclose : text = ")" := hothers ⟨.rightParen, text⟩ (by simp)
      subst hclose
      exact ⟨⟨.leftParen, "("⟩ :: (front ++ [⟨.rightParen, ")"⟩]), by simp, .group hfront⟩
    · cases h
  · rename_i name opening closing others
    cases h
    have hopen : opening = "(" := hspelled ⟨.leftParen, opening⟩ (by simp)
    have hclose : closing = ")" := hspelled ⟨.rightParen, closing⟩ (by simp)
    subst hopen hclose
    refine ⟨[⟨.funcName, name⟩, ⟨.leftParen, "("⟩, ⟨.rightParen, ")"⟩], rfl, ?_⟩
    exact .call name (List.forall_mem_nil _)
  · rename_i name opening others _
    obtain ⟨⟨values, after⟩, hread, heq⟩ := Option.map_eq_some_iff.1 h
    cases heq
    have hopen : opening = "(" := hspelled ⟨.leftParen, opening⟩ (by simp)
    subst hopen
    have hothers := (List.forall_mem_cons.1 (List.forall_mem_cons.1 hspelled).2).2
    have hshorter : others.length < others.length + 1 + 1 := by omega
    obtain ⟨args, hargs, rfl, -, hphrases⟩ := (ih others hshorter hothers).arguments hread
    exact ⟨_, by rw [hargs]; simp, .call name hphrases⟩
  · cases h

/-- What is read as a chain is a phrase, given that this holds of its first operand and of what is
read from fewer tokens. -/
theorem exists_chain_of_operand {level : Level} {value : Value} {rest : List Token}
    (hoperand : ∀ {first others},
      readOperand level tokens = some (first, others)
      → ∃ front, tokens = front ++ others ∧ Phrase level.operand front first)
    (h : readChain level tokens = some (value, rest))
    : ∃ front, tokens = front ++ rest ∧ Phrase (.chain level) front value := by
  rw [readChain_eq, Option.bind_eq_some_iff] at h
  obtain ⟨⟨first, others⟩, hfirst, htail⟩ := h
  obtain ⟨front, rfl, hfront⟩ := hoperand hfirst
  have hshorter : others.length < (front ++ others).length := by
    rw [List.length_append]
    exact Nat.lt_add_of_pos_left hfront.length_pos
  have hothers : ∀ token ∈ others, token.Spelled :=
    fun token htoken => hspelled token (List.mem_append_right front htoken)
  obtain ⟨more, rfl, hmore⟩ := (ih others hshorter hothers).tail htail (.operand hfront)
  exact ⟨front ++ more, by simp, hmore⟩

/-- What is read behind the front of a chain continues the phrase, given that this holds of fewer
tokens. -/
theorem exists_tail_of_read {level : Level} {left value : Value} {before rest : List Token}
    (h : readTail level left tokens = some (value, rest))
    (hbefore : Phrase (.chain level) before left)
    : ∃ front, tokens = front ++ rest ∧ Phrase (.chain level) (before ++ front) value := by
  cases tokens with
  | nil =>
      rw [readTail_nil] at h
      cases h
      exact ⟨[], rfl, by simpa using hbefore⟩
  | cons token others =>
      rw [readTail_cons] at h
      split at h
      · rename_i htag
        obtain ⟨tag, text⟩ := token
        subst htag
        simp only [Option.bind_eq_some_iff, Prod.exists] at h
        obtain ⟨op, hop, right, after, hright, htail⟩ := h
        have hothers := (List.forall_mem_cons.1 hspelled).2
        obtain ⟨second, rfl, hsecond⟩ :=
          (ih others (Nat.lt_succ_self _) hothers).operand hright
        have hjoin := Phrase.join hop hbefore hsecond
        have hshorter : after.length < (⟨level.operator, text⟩ :: (second ++ after)).length := by
          simp only [List.length_cons, List.length_append]
          omega
        have hafter : ∀ token ∈ after, token.Spelled :=
          fun token htoken => hothers token (List.mem_append_right second htoken)
        obtain ⟨more, rfl, hmore⟩ := (ih after hshorter hafter).tail htail hjoin
        exact ⟨⟨level.operator, text⟩ :: (second ++ more), by simp, by simpa using hmore⟩
      · cases h
        exact ⟨[], rfl, by simpa using hbefore⟩

/-- What is read as arguments are phrases with commas between them, given that this holds of sums
from the same tokens and of arguments from fewer. -/
theorem exists_arguments_of_read {values : List Value} {rest : List Token}
    (hchain : ∀ {value others},
      readChain .sum tokens = some (value, others)
      → ∃ front, tokens = front ++ others ∧ Phrase (.chain .sum) front value)
    (h : readArguments tokens = some (values, rest))
    : ∃ args,
        tokens = commaSeparated (args.map Prod.fst) ++ ⟨.rightParen, ")"⟩ :: rest
        ∧ values = args.map Prod.snd
        ∧ args ≠ []
        ∧ ∀ arg ∈ args, Phrase (.chain .sum) arg.1 arg.2 := by
  rw [readArguments_eq] at h
  split at h
  · rename_i value text after hread
    cases h
    obtain ⟨front, rfl, hfront⟩ := hchain hread
    have hclose : text = ")" := hspelled ⟨.rightParen, text⟩ (by simp)
    subst hclose
    exact ⟨[(front, value)], by simp [commaSeparated], rfl, by simp, by simpa using hfront⟩
  · rename_i value text after hread
    obtain ⟨⟨others, _⟩, hothers, heq⟩ := Option.map_eq_some_iff.1 h
    cases heq
    obtain ⟨front, rfl, hfront⟩ := hchain hread
    have hcomma : text = "," := hspelled ⟨.comma, text⟩ (by simp)
    subst hcomma
    have hshorter : after.length < (front ++ ⟨.comma, ","⟩ :: after).length := by
      simp only [List.length_append, List.length_cons]
      omega
    have hafter : ∀ token ∈ after, token.Spelled :=
      fun token htoken => hspelled token (by simp [htoken])
    obtain ⟨args, rfl, rfl, hne, hphrases⟩ := (ih after hshorter hafter).arguments hothers
    refine ⟨(front, value) :: args, ?_, rfl, by simp, List.forall_mem_cons.2 ⟨hfront, hphrases⟩⟩
    rw [List.map_cons, commaSeparated_cons (by simpa using hne), List.append_assoc,
      List.cons_append]
  · cases h

end Shorter

/-- Reading finds phrases only, by induction on the number of tokens.  Each reader takes at least
one token, so the readers that it calls have fewer left. -/
theorem readsPhrases (tokens : List Token) (hspelled : ∀ token ∈ tokens, token.Spelled)
    : ReadsPhrases tokens := by
  induction hlength : tokens.length using Nat.strong_induction_on generalizing tokens with
  | _ length ih =>
      subst hlength
      have hshorter : ∀ shorter : List Token,
          shorter.length < tokens.length
          → (∀ token ∈ shorter, token.Spelled)
          → ReadsPhrases shorter :=
        fun shorter hlt hshorter => ih _ hlt shorter hshorter rfl
      -- A product needs the factors of these very tokens, and a sum needs their products.
      have hproduct : ∀ {value rest},
          readChain .product tokens = some (value, rest)
          → ∃ front, tokens = front ++ rest ∧ Phrase (.chain .product) front value := by
        intro value rest h
        refine exists_chain_of_operand hspelled hshorter ?_ h
        intro first others hfirst
        rw [readOperand_product] at hfirst
        exact exists_factor_of_read hspelled hshorter hfirst
      have hsum : ∀ {value rest},
          readChain .sum tokens = some (value, rest)
          → ∃ front, tokens = front ++ rest ∧ Phrase (.chain .sum) front value := by
        intro value rest h
        refine exists_chain_of_operand hspelled hshorter ?_ h
        intro first others hfirst
        rw [readOperand_sum] at hfirst
        exact hproduct hfirst
      refine ⟨exists_factor_of_read hspelled hshorter, ?_, exists_tail_of_read hspelled hshorter,
        exists_arguments_of_read hspelled hshorter hsum⟩
      intro level value rest h
      cases level with
      | sum => exact hsum h
      | product => exact hproduct h

/-- Reading takes up exactly the expressions and gives their values.  One direction is that phrases
are read, the other that nothing but phrases is. -/
theorem readExpression_eq_some_iff {tokens : List Token}
    (hspelled : ∀ token ∈ tokens, token.Spelled) {value : Value}
    : readExpression tokens = some value ↔ Phrase (.chain .sum) tokens value := by
  constructor
  · intro h
    unfold readExpression at h
    split at h
    · rename_i hread
      cases h
      obtain ⟨front, rfl, hfront⟩ := (readsPhrases tokens hspelled).chain hread
      rwa [List.append_nil]
    · cases h
  · intro h
    have hread := h.isRead [] (fun _ h => by simp at h)
    rw [List.append_nil, readTail_nil] at hread
    rw [readExpression, hread]

end Formulary.Arithmetic
