/-! The common form of all error reports.
A report names the stage that failed, a code for the kind of failure, the span of the input that
is at fault where one is known, and the particulars in words.
-/

namespace Formulary

/-- The stage that reports an error. -/
inductive Stage where
  | lex
  | grammar
  | parse
  | synthesis
  | model
deriving DecidableEq, Repr

/-- The kind of a failure. -/
inductive FailureCode where
  | unrecognizedCharacter
  | malformedRule
  | terminalOnLeft
  | unitCycle
  | noParse
  | invalidSpan
  | unknownLabel
  | unhandledTag
  | unexpectedShape
  | unknownOperator
  | arityMismatch
  | emptyReduction
deriving DecidableEq, Repr

namespace Stage

/-- The word that opens a report of the stage. -/
def title : Stage → String
  | lex => "LexError"
  | grammar => "GrammarError"
  | parse => "ParseError"
  | synthesis => "SynthesisError"
  | model => "ModelError"

end Stage

namespace FailureCode

def name : FailureCode → String
  | unrecognizedCharacter => "unrecognized_character"
  | malformedRule => "malformed_rule"
  | terminalOnLeft => "terminal_on_left"
  | unitCycle => "unit_cycle"
  | noParse => "no_parse"
  | invalidSpan => "invalid_span"
  | unknownLabel => "unknown_label"
  | unhandledTag => "unhandled_tag"
  | unexpectedShape => "unexpected_shape"
  | unknownOperator => "unknown_operator"
  | arityMismatch => "arity_mismatch"
  | emptyReduction => "empty_reduction"

end FailureCode

/-- A report of an error.  A span is half-open: byte offsets for lexical errors, token positions
for parse errors. -/
structure Diagnostic where
  stage : Stage
  code : FailureCode
  span : Option (Nat × Nat)
  details : Option String
deriving DecidableEq, Repr

namespace Diagnostic

/-- The line that shows a report. -/
def message (report : Diagnostic) : String :=
  let place :=
    match report.span with
    | some (start, stop) => "@" ++ toString start ++ ":" ++ toString stop
    | none => ""
  let particulars :=
    match report.details with
    | some details => ": " ++ details
    | none => ""
  report.stage.title ++ "\x7b" ++ report.code.name ++ place ++ particulars ++ "\x7d"

/-- Whether the input or the grammar text is at fault, rather than reduction rules or
hand-built code. -/
def isInputError (report : Diagnostic) : Bool :=
  match report.stage with
  | .lex | .grammar | .parse => true
  | .synthesis | .model => false

end Diagnostic

end Formulary
