import Formulary.Code.Render
import Formulary.Json
import Formulary.Language

/-! The command line as a function of its request.
Each input is read on its own.  What a command shows of it goes to standard output, and a failure
is reported on standard error with the input in front, after which the others are still read.  Only
where there is no grammar or no standard input to read does a failure end the run.  A report is a
line as long as no name in it brings a line break of its own.  The exit status is 1 if anything
failed.
-/

namespace Formulary.CommandLine

/-- What is shown of each input. -/
inductive Command where
  | tokens (json : Bool)
  | tree (all json : Bool)
  | ast
  | function (name returnType : String)

/-- Where the grammar comes from. -/
inductive GrammarSource where
  | builtIn
  | text (text : String)
  /-- A file that cannot be read, for the given reason. -/
  | unreadable (reason : String)

/-- One run of the program.  Without an expression the lines of standard input are read. -/
structure Request where
  command : Command
  grammar : GrammarSource
  start : String
  expression : Option String
  input : ByteArray

structure Response where
  code : Nat
  stdout : String
  stderr : String
deriving DecidableEq

/-- Nothing but the report of a failure. -/
def Response.failure (reason : String) : Response :=
  ⟨1, "", "error: " ++ reason ++ "\n"⟩

/-- The response that shows two responses one after the other; a failure of either remains. -/
def Response.append (first second : Response) : Response :=
  ⟨max first.code second.code, first.stdout ++ second.stdout, first.stderr ++ second.stderr⟩

/-- The language of a request. -/
def language (request : Request) : Except String Language :=
  match request.grammar with
  | .builtIn => .ok (.ofGrammar .arithmetic request.start)
  | .text text =>
      match Grammar.compile text with
      | .ok grammar => .ok (.ofGrammar grammar request.start)
      | .error error => .error error.diagnostic.message
  | .unreadable reason => .error reason

/-- The inputs of a request: its expression, or the lines of standard input that are not blank. -/
def inputs (request : Request) : Except String (List String) :=
  match request.expression with
  | some expression => .ok [expression]
  | none =>
      match String.fromUTF8? request.input with
      | some text => .ok ((Text.lines text).filter (!Text.isBlankText ·))
      | none => .error "reading stdin: stream did not contain valid UTF-8"

/-- The function that returns a value. -/
def valueFunction (name returnType : String) (value : Value) : String :=
  renderBlock [(Container.function returnType name [] [.returns (some value)]).statement]

/-- What a command shows of an input. -/
def display (language : Language) (command : Command) (input : String) : Except Error String := do
  let tokens ← Language.tokens input
  match command with
  | .tokens true => pure (Json.list (tokens.toList.map Token.toJson)).pretty
  | .tokens false => pure ("\n".intercalate (tokens.toList.map Token.render))
  | .tree true json =>
      let trees ← (language.allTrees tokens).mapError .parse
      if json then
        pure (Json.list (trees.map fun tree => (tree.named language.grammar tokens).toJson)).pretty
      else pure ("\n\n".intercalate (trees.map (Tree.print language.grammar tokens)))
  | .tree false json =>
      let tree ← (language.firstTree tokens).mapError .parse
      if json then pure (tree.named language.grammar tokens).toJson.pretty
      else pure (tree.print language.grammar tokens)
  | .ast =>
      let value ← language.value tokens
      pure (value.render ++ "\n" ++ value.inspect)
  | .function name returnType =>
      let value ← language.value tokens
      pure (valueFunction name returnType value)

/-- The response to one input. -/
def respond (language : Language) (command : Command) (input : String) : Response :=
  match display language command input with
  | .ok output => ⟨0, Text.trimEnd output ++ "\n", ""⟩
  | .error error => .failure (Text.quote input ++ ": " ++ error.message)

/-- Runs the program. -/
def run (request : Request) : Response :=
  match language request with
  | .error reason => .failure reason
  | .ok language =>
      match inputs request with
      | .error reason => .failure reason
      | .ok inputs =>
          (inputs.map (respond language request.command)).foldl Response.append ⟨0, "", ""⟩

end Formulary.CommandLine
