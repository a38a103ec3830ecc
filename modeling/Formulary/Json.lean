import Formulary.Tree

/-! JSON documents, their indented text, and those of tokens and named trees.
Each member of a list or an object stands on a line of its own, two spaces deeper than its
parent; an empty list or object stays on one line.
-/

namespace Formulary

-----------------------------------------------------------------------------------------
-- Documents
-----------------------------------------------------------------------------------------

/-- The documents that the command line prints. -/
inductive Json where
  | text (value : String)
  | number (value : Nat)
  | list (items : List Json)
  | object (fields : List (String × Json))

namespace Json

/-- Two hexadecimal digits of a number below 256. -/
def hexByte (code : Nat) : List Char :=
  [Nat.digitChar (code / 16), Nat.digitChar (code % 16)]

/-- What stands for a character inside a string; only quotes, backslashes and the control
characters below U+0020 are escaped. -/
def escapeChar (c : Char) : List Char :=
  match c with
  | '"' => ['\\', '"']
  | '\\' => ['\\', '\\']
  | '\x08' => ['\\', 'b']
  | '\x0c' => ['\\', 'f']
  | '\n' => ['\\', 'n']
  | '\r' => ['\\', 'r']
  | '\t' => ['\\', 't']
  | c => if c.toNat < 0x20 then ['\\', 'u', '0', '0'] ++ hexByte c.toNat else [c]

def quote (value : String) : String :=
  String.ofList ('"' :: (value.toList.flatMap escapeChar ++ ['"']))

/-- The line feed and the indentation that begin a line at a depth. -/
def lineStart (depth : Nat) : String :=
  String.ofList ('\n' :: List.replicate (2 * depth) ' ')

mutual
/-- The indented text of a document whose first line is already at the given depth. -/
def prettyAt (depth : Nat) : Json → String
  | .text value => quote value
  | .number value => toString value
  | .list [] => "[]"
  | .list (item :: items) => "[" ++ prettyItems depth (item :: items) ++ lineStart depth ++ "]"
  | .object [] => "\x7b\x7d"
  | .object (field :: fields) =>
      "\x7b" ++ prettyFields depth (field :: fields) ++ lineStart depth ++ "\x7d"

def prettyItems (depth : Nat) : List Json → String
  | [] => ""
  | [item] => lineStart (depth + 1) ++ prettyAt (depth + 1) item
  | item :: items =>
      lineStart (depth + 1) ++ prettyAt (depth + 1) item ++ "," ++ prettyItems depth items

def prettyFields (depth : Nat) : List (String × Json) → String
  | [] => ""
  | [(name, value)] => lineStart (depth + 1) ++ quote name ++ ": " ++ prettyAt (depth + 1) value
  | (name, value) :: fields =>
      lineStart (depth + 1) ++ quote name ++ ": " ++ prettyAt (depth + 1) value ++ ","
        ++ prettyFields depth fields
end

/-- The indented text of a document. -/
def pretty (document : Json) : String :=
  document.prettyAt 0

end Json

-----------------------------------------------------------------------------------------
-- Documents of tokens and trees
-----------------------------------------------------------------------------------------

namespace Token

def toJson (token : Token) : Json :=
  .object [("tag", .text token.tag.label), ("text", .text token.text)]

end Token

namespace NamedTree

mutual
/-- The document of a tree; a leaf has no member for its children. -/
def toJson : NamedTree → Json
  | node label start stop text [] =>
      .object
        [
          ("label", .text label), ("start", .number start), ("end", .number stop),
          ("text", .text text)
        ]
  | node label start stop text (child :: children) =>
      .object
        [
          ("label", .text label), ("start", .number start), ("end", .number stop),
          ("text", .text text), ("children", .list (toJsonAll (child :: children)))
        ]

/-- The documents of trees, in order. -/
def toJsonAll : List NamedTree → List Json
  | [] => []
  | tree :: trees => tree.toJson :: toJsonAll trees
end

end NamedTree

end Formulary
