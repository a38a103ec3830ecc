import Formulary.Diagnostic
import Formulary.Text
import Formulary.Token.Basic

/-! Splitting a source text into tokens.
All blanks are dropped before scanning, so `1 2` is the number `12`.  At each position the
operators are tried first, then function names, names, numbers and punctuation.  A sign is an
operator only where an operand has ended; anywhere else it belongs to a number.  An identifier
directly before an opening parenthesis is a function name.
-/

namespace Formulary

namespace Lexeme

def isIdentifierStart (c : Char) : Bool :=
  c.isAlpha || c == '_'

def isIdentifierPart (c : Char) : Bool :=
  c.isAlphanum || c == '_'

def isSign (c : Char) : Bool :=
  c == '+' || c == '-'

def isExponentMark (c : Char) : Bool :=
  c == 'e' || c == 'E' || c == 'd' || c == 'D'

/-- The identifier that a text begins with, empty when there is none. -/
def identifier : List Char → List Char
  | [] => []
  | c :: rest => if isIdentifierStart c then c :: rest.takeWhile isIdentifierPart else []

/-- The sign that a text begins with, if any. -/
def sign : List Char → List Char
  | [] => []
  | c :: _ => if isSign c then [c] else []

def digits (chars : List Char) : List Char :=
  chars.takeWhile Char.isDigit

/-- Digits with an optional point among or behind them, or a point before digits. -/
def mantissa (chars : List Char) : List Char :=
  match digits chars, chars.dropWhile Char.isDigit with
  | [], '.' :: rest => if (digits rest).isEmpty then [] else '.' :: digits rest
  | [], _ => []
  | whole, '.' :: rest => whole ++ '.' :: digits rest
  | whole, _ => whole

/-- An exponent mark with an optional sign and at least one digit. -/
def exponent : List Char → List Char
  | [] => []
  | c :: rest =>
      let power := digits (rest.drop (sign rest).length)
      if isExponentMark c && !power.isEmpty then c :: (sign rest ++ power) else []

/-- The number that a text begins with, empty when there is none. -/
def number (chars : List Char) : List Char :=
  let unsigned := chars.drop (sign chars).length
  let body := mantissa unsigned
  if body.isEmpty then [] else sign chars ++ body ++ exponent (unsigned.drop body.length)

/-- The operator that a character is after a token of the given category. -/
def operator? (previous : Option Tag) (c : Char) : Option Tag :=
  if c == '*' || c == '/' then some .mulOp
  else if isSign c && previous.any Tag.endsOperand then some .addOp
  else none

def punctuation? (c : Char) : Option Tag :=
  if c == '.' then some .dot
  else if c == ',' then some .comma
  else if c == '(' then some .leftParen
  else if c == ')' then some .rightParen
  else none

/-- The category and the characters of the next token of a text without blanks. -/
def scan (previous : Option Tag) (chars : List Char) : Option (Tag × List Char) :=
  match chars with
  | [] => none
  | c :: _ =>
      match operator? previous c with
      | some tag => some (tag, [c])
      | none =>
          let word := identifier chars
          if !word.isEmpty then
            some (if chars[word.length]? == some '(' then .funcName else .name, word)
          else if !(number chars).isEmpty then some (.number, number chars)
          else (punctuation? c).map fun tag => (tag, [c])

/-- What is read as an identifier stands at the front of the input. -/
theorem identifier_prefix (chars : List Char)
    : identifier chars <+: chars := by
  cases chars with
  | nil => exact List.nil_prefix
  | cons c rest =>
      simp only [identifier]
      split
      · exact List.cons_prefix_cons.2 ⟨rfl, List.takeWhile_prefix _⟩
      · exact List.nil_prefix

/-- A scanned token is never empty.  Operators and punctuation are one character, and the other
rules apply only if they take something. -/
theorem scan_ne_nil {previous : Option Tag} {chars lexeme : List Char} {tag : Tag}
    (h : scan previous chars = some (tag, lexeme))
    : lexeme ≠ [] := by
  cases chars with
  | nil => simp [scan] at h
  | cons c rest =>
      simp only [scan] at h
      split at h
      · simp only [Option.some.injEq, Prod.mk.injEq] at h
        simp [← h.2]
      · split at h
        · rename_i hword
          simp only [Option.some.injEq, Prod.mk.injEq] at h
          rw [← h.2]
          simpa using hword
        · split at h
          · rename_i hnumber
            simp only [Option.some.injEq, Prod.mk.injEq] at h
            rw [← h.2]
            simpa using hnumber
          · simp only [Option.map_eq_some_iff, Prod.mk.injEq] at h
            obtain ⟨_, _, _, rfl⟩ := h
            simp

end Lexeme

/-- The first character that no token begins with, and its byte offset in the source. -/
structure LexError where
  char : Char
  offset : Nat
deriving DecidableEq, Repr

namespace LexError

/-- The offset just behind the character. -/
def stop (error : LexError) : Nat :=
  error.offset + error.char.utf8Size

def diagnostic (error : LexError) : Diagnostic :=
  ⟨.lex, .unrecognizedCharacter, some (error.offset, error.stop),
    some ("unrecognized character " ++ Text.quoteChar error.char ++ " at offset "
      ++ toString error.offset)⟩

end LexError

/-- The characters of a source that are not blank, each with its byte offset. -/
def visibleChars : Nat → List Char → List (Nat × Char)
  | _, [] => []
  | offset, c :: rest =>
      if Text.isBlank c then visibleChars (offset + c.utf8Size) rest
      else (offset, c) :: visibleChars (offset + c.utf8Size) rest

/-- A lexer between two tokens: the characters still to read, with their offsets, and the
category of the token before them. -/
structure Lexer where
  rest : List (Nat × Char)
  previous : Option Tag

namespace Lexer

/-- The lexer at the beginning of a source. -/
def ofSource (source : String) : Lexer :=
  ⟨visibleChars 0 source.toList, none⟩

/-- Reads one token.  After an error nothing is left to read. -/
def next? (lexer : Lexer) : Option (Except LexError Token × Lexer) :=
  match lexer.rest with
  | [] => none
  | (offset, c) :: _ =>
      match Lexeme.scan lexer.previous (lexer.rest.map Prod.snd) with
      | some (tag, lexeme) =>
          some (.ok ⟨tag, String.ofList lexeme⟩, ⟨lexer.rest.drop lexeme.length, some tag⟩)
      | none => some (.error ⟨c, offset⟩, ⟨[], lexer.previous⟩)

/-- Every step leaves fewer characters to read.  So the lexer comes to an end. -/
theorem length_rest_lt {lexer after : Lexer} {item : Except LexError Token}
    (h : lexer.next? = some (item, after))
    : after.rest.length < lexer.rest.length := by
  obtain ⟨rest, previous⟩ := lexer
  cases rest with
  | nil => simp [next?] at h
  | cons head tail =>
      simp only [next?] at h
      split at h
      · rename_i hscan
        simp only [Option.some.injEq, Prod.mk.injEq] at h
        have hpos := List.length_pos_iff.2 (Lexeme.scan_ne_nil hscan)
        rw [← h.2]
        simp only [List.length_drop, List.length_cons]
        omega
      · simp only [Option.some.injEq, Prod.mk.injEq] at h
        simp [← h.2]

/-- Everything a lexer still reads, in order. -/
def items (lexer : Lexer) : List (Except LexError Token) :=
  match _h : lexer.next? with
  | none => []
  | some (item, after) => item :: after.items
termination_by lexer.rest.length
decreasing_by exact length_rest_lt _h

end Lexer

/-- The tokens of a source, or the first character that no token begins with. -/
def tokenize (source : String) : Except LexError (List Token) :=
  (Lexer.ofSource source).items.mapM id

end Formulary
