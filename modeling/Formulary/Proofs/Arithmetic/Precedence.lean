import Formulary.Proofs.Arithmetic.Phrase

/-! Reading arithmetic expressions by precedence, one token after the other.
An expression is `term {addop term}`, a term is `factor {mulop factor}`, and a factor is a number,
names joined by dots, an expression in parentheses or a call with its arguments.  Reading decides
on each token alone and builds the value as it goes, so a chain folds to the left.
-/

namespace Formulary.Arithmetic

/-- What was read from the front of some tokens, and the tokens behind it. -/
structure Reading (α : Type) (limit : Nat) where
  result : α
  rest : List Token
  shorter : rest.length < limit

namespace Reading

/-- The result and the tokens behind it, without the bound on their number. -/
def plain {α : Type} {limit : Nat} (reading : Reading α limit) : α × List Token :=
  (reading.result, reading.rest)

/-- A reading within longer tokens. -/
def within {α : Type} {limit wider : Nat} (reading : Reading α limit) (h : limit ≤ wider)
    : Reading α wider :=
  ⟨reading.result, reading.rest, reading.shorter.trans_le h⟩

end Reading

/-- Takes as many pairs of a dot and a name as follow a name. -/
def readPath (path : String) : List Token → String × List Token
  | ⟨.dot, _⟩ :: ⟨.name, text⟩ :: rest => readPath (path ++ "." ++ text) rest
  | rest => (path, rest)

/-- A dotted name takes tokens from the front and puts none back, by induction along its parts. -/
theorem length_readPath_le (path : String) (tokens : List Token)
    : (readPath path tokens).2.length ≤ tokens.length := by
  fun_induction readPath path tokens with
  | case1 path _ text rest ih =>
      simp only [List.length_cons]
      omega
  | case2 path rest => exact Nat.le_refl _

namespace Reader

/-- How much of the grammar lies below a level. -/
@[simp]
def height : Level → Nat
  | .sum => 3
  | .product => 1

mutual
/-- An operand of a level: a term for sums, a factor for products. -/
def operand (level : Level) (tokens : List Token) : Option (Reading Value tokens.length) :=
  match level with
  | .sum => chain .product tokens
  | .product => factor tokens
termination_by (tokens.length, height level)

/-- Operands joined by the operators of a level. -/
def chain (level : Level) (tokens : List Token) : Option (Reading Value tokens.length) := do
  let first ← operand level tokens
  have hfirst := first.shorter
  let whole ← tail level first.result first.rest
  some (whole.within hfirst)
termination_by (tokens.length, height level + 1)

/-- The operators of a level with their right operands, behind a left operand. -/
def tail (level : Level) (left : Value) (tokens : List Token)
    : Option (Reading Value (tokens.length + 1)) :=
  match tokens with
  | [] => some ⟨left, [], Nat.lt_succ_self _⟩
  | token :: rest =>
      if token.tag = level.operator then do
        let op ← BinaryOp.ofSymbol? token.text
        let right ← operand level rest
        have hright : right.rest.length < rest.length + 1 := Nat.lt_succ_of_lt right.shorter
        let whole ← tail level (.binary .enclosed op left right.result) right.rest
        some (whole.within (Nat.le_succ_of_le hright))
      else some ⟨left, token :: rest, Nat.lt_succ_self _⟩
termination_by (tokens.length, 0)

/-- A number, a dotted name, a group or a call. -/
def factor (tokens : List Token) : Option (Reading Value tokens.length) :=
  match tokens with
  | ⟨.number, text⟩ :: rest => some ⟨.constant text, rest, Nat.lt_succ_self _⟩
  | ⟨.name, text⟩ :: rest =>
      let path := readPath text rest
      some ⟨.named path.1, path.2, Nat.lt_succ_of_le (length_readPath_le text rest)⟩
  | ⟨.leftParen, _⟩ :: rest =>
      match chain .sum rest with
      | some ⟨value, ⟨.rightParen, _⟩ :: after, shorter⟩ =>
          some ⟨.parens value, after, by simp only [List.length_cons] at shorter ⊢; omega⟩
      | _ => none
  | ⟨.funcName, name⟩ :: ⟨.leftParen, _⟩ :: ⟨.rightParen, _⟩ :: rest =>
      some ⟨.call name [], rest, by simp only [List.length_cons]; omega⟩
  | ⟨.funcName, name⟩ :: ⟨.leftParen, _⟩ :: rest => do
      let args ← arguments rest
      some ⟨.call name args.result, args.rest,
        by have := args.shorter; simp only [List.length_cons]; omega⟩
  | _ => none
termination_by (tokens.length, 0)

/-- Expressions with commas between them, and the closing parenthesis behind the last. -/
def arguments (tokens : List Token) : Option (Reading (List Value) tokens.length) :=
  match chain .sum tokens with
  | some ⟨value, ⟨.rightParen, _⟩ :: after, shorter⟩ =>
      some ⟨[value], after, by simp only [List.length_cons] at shorter; omega⟩
  | some ⟨value, ⟨.comma, _⟩ :: after, shorter⟩ =>
      have hafter : after.length < tokens.length := (Nat.lt_succ_self _).trans shorter
      do
        let others ← arguments after
        some ⟨value :: others.result, others.rest, others.shorter.trans hafter⟩
  | _ => none
termination_by (tokens.length, 5)
end

end Reader

def readOperand (level : Level) (tokens : List Token) : Option (Value × List Token) :=
  (Reader.operand level tokens).map Reading.plain

def readChain (level : Level) (tokens : List Token) : Option (Value × List Token) :=
  (Reader.chain level tokens).map Reading.plain

def readTail (level : Level) (left : Value) (tokens : List Token)
    : Option (Value × List Token) :=
  (Reader.tail level left tokens).map Reading.plain

def readFactor (tokens : List Token) : Option (Value × List Token) :=
  (Reader.factor tokens).map Reading.plain

def readArguments (tokens : List Token) : Option (List Value × List Token) :=
  (Reader.arguments tokens).map Reading.plain

/-- The value of an expression that takes up all tokens. -/
def readExpression (tokens : List Token) : Option Value :=
  match readChain .sum tokens with
  | some (value, []) => some value
  | _ => none

/-- The operands of a sum are products. -/
theorem readOperand_sum (tokens : List Token)
    : readOperand .sum tokens = readChain .product tokens := by
  rw [readOperand, Reader.operand, readChain]

/-- The operands of a product are factors. -/
theorem readOperand_product (tokens : List Token)
    : readOperand .product tokens = readFactor tokens := by
  rw [readOperand, Reader.operand, readFactor]

/-- A chain is an operand and what follows it.  The bound on the tokens behind it, which the
recursion needs, plays no part in the result. -/
theorem readChain_eq (level : Level) (tokens : List Token)
    : readChain level tokens
      = (readOperand level tokens).bind fun first => readTail level first.1 first.2 := by
  rw [readChain, Reader.chain, readOperand]
  cases Reader.operand level tokens with
  | none => rfl
  | some first =>
      simp only [readTail, Reading.plain, Option.bind_eq_bind, Option.bind_some, Option.map_some]
      cases Reader.tail level first.result first.rest with
      | none => rfl
      | some whole => rfl

/-- Where no token is left the chain ends with what has been read. -/
theorem readTail_nil (level : Level) (left : Value)
    : readTail level left [] = some (left, []) := by
  rw [readTail, Reader.tail]
  rfl

/-- An operator of the level joins what has been read with one more operand; any other token ends
the chain. -/
theorem readTail_cons (level : Level) (left : Value) (token : Token) (rest : List Token)
    : readTail level left (token :: rest)
      = if token.tag = level.operator then
          (BinaryOp.ofSymbol? token.text).bind fun op =>
            (readOperand level rest).bind fun right =>
              readTail level (.binary .enclosed op left right.1) right.2
        else some (left, token :: rest) := by
  rw [readTail, Reader.tail]
  split
  · cases BinaryOp.ofSymbol? token.text with
    | none => rfl
    | some op =>
        simp only [Option.bind_eq_bind, Option.bind_some, readOperand]
        cases Reader.operand level rest with
        | none => rfl
        | some right =>
            simp only [readTail, Reading.plain, Option.bind_some, Option.map_some]
            cases Reader.tail level (.binary .enclosed op left right.result) right.rest with
            | none => rfl
            | some whole => rfl
  · rfl

/-- A factor goes by its first token, and for a name to call by the two behind it.  The proofs that
reading leaves fewer tokens, which carry its recursion, are gone from this form. -/
theorem readFactor_eq (tokens : List Token)
    : readFactor tokens
      = match tokens with
        | ⟨.number, text⟩ :: rest => some (.constant text, rest)
        | ⟨.name, text⟩ :: rest => some (.named (readPath text rest).1, (readPath text rest).2)
        | ⟨.leftParen, _⟩ :: rest =>
            match readChain .sum rest with
            | some (value, ⟨.rightParen, _⟩ :: after) => some (.parens value, after)
            | _ => none
        | ⟨.funcName, name⟩ :: ⟨.leftParen, _⟩ :: ⟨.rightParen, _⟩ :: rest =>
            some (.call name [], rest)
        | ⟨.funcName, name⟩ :: ⟨.leftParen, _⟩ :: rest =>
            (readArguments rest).map fun args => (.call name args.1, args.2)
        | _ => none := by
  rw [readFactor, Reader.factor.eq_def]
  split
  · rfl
  · rfl
  · rename_i rest
    rw [readChain]
    rcases Reader.chain .sum rest with _ | ⟨value, _ | ⟨⟨tag, text⟩, after⟩, shorter⟩
    · rfl
    · rfl
    · cases tag <;> rfl
  · rfl
  · rename_i rest _
    rw [readArguments]
    cases Reader.arguments rest <;> rfl
  · rfl

/-- Arguments are sums, each with a comma and more arguments or with the closing parenthesis behind
it. -/
theorem readArguments_eq (tokens : List Token)
    : readArguments tokens
      = match readChain .sum tokens with
        | some (value, ⟨.rightParen, _⟩ :: after) => some ([value], after)
        | some (value, ⟨.comma, _⟩ :: after) =>
            (readArguments after).map fun others => (value :: others.1, others.2)
        | _ => none := by
  rw [readArguments, Reader.arguments.eq_def, readChain]
  rcases Reader.chain .sum tokens with _ | ⟨value, _ | ⟨⟨tag, text⟩, after⟩, shorter⟩
  · rfl
  · rfl
  · cases tag with
    | comma =>
        simp only [Reading.plain, Option.map_some, readArguments]
        cases Reader.arguments after <;> rfl
    | _ => rfl

end Formulary.Arithmetic
