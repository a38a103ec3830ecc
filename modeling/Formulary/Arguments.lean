import Formulary.CommandLine

/-! The arguments of the program.
A command comes first, then its options and the expression in any order.  The options for the
grammar and the start label may also stand before the command, where they hold unless they are
given again behind it; every other option belongs to its commands and is refused with the rest.
An option takes its value from the next argument or from behind an equals sign.  Asking for help or
for the version ends the reading at once, and so does the first argument that cannot be read.
-/

namespace Formulary

-----------------------------------------------------------------------------------------
-- What can be given
-----------------------------------------------------------------------------------------

/-- The commands as arguments name them. -/
inductive Subcommand where
  | tokens
  | tree
  | ast
  | function
deriving DecidableEq, Repr

namespace Subcommand

def all : List Subcommand :=
  [tokens, tree, ast, function]

def name : Subcommand → String
  | tokens => "tokens"
  | tree => "tree"
  | ast => "ast"
  | function => "function"

def about : Subcommand → String
  | tokens => "Print each token as `TAG \"text\"`"
  | tree => "Print the first parse tree"
  | ast => "Print the synthesized expression, emitted and in debug form"
  | function => "Emit a function returning the expression"

/-- What the help on a command says of its expression. -/
def aboutExpression : Subcommand → String
  | tokens => "Expression to read; one per line from stdin when omitted"
  | _ => ""

def ofName? (name : String) : Option Subcommand :=
  all.find? (·.name == name)

end Subcommand

/-- What has been given so far. -/
structure Settings where
  grammar : Option String
  start : String
  json : Bool
  all : Bool
  name : String
  returnType : String
  expression : Option String

/-- What holds when nothing is given. -/
def Settings.defaults : Settings :=
  {
    grammar := none,
    start := "start",
    json := false,
    all := false,
    name := "g",
    returnType := defaultType,
    expression := none
  }

/-- How arguments can end the program before it reads any input.  Help and misuse are those of a
command or, without one, of the program. -/
inductive Ending where
  | help (command : Option Subcommand)
  | version
  /-- There are no arguments. -/
  | bare
  | misuse (command : Option Subcommand) (reason : String)

/-- What an option does. -/
inductive Effect where
  | turnOn (update : Settings → Settings)
  /-- Takes a value, unless the value will not do. -/
  | store (placeholder : String) (update? : Settings → String → Option Settings)
  | finish (ending : Ending)

/-- An option as it is written and what it does. -/
structure Switch where
  name : String
  /-- The letter of its short form. -/
  letter : Option Char
  about : String
  effect : Effect

namespace Switch

def grammar : Switch :=
  ⟨"--grammar", none, "Grammar file to use instead of the built-in grammar",
    .store "GRAMMAR" fun settings file =>
      if file.isEmpty then none else some { settings with grammar := some file }⟩

def start : Switch :=
  ⟨"--start", none, "Label that whole expressions are parsed as [default: start]",
    .store "START" fun settings label => some { settings with start := label }⟩

def json : Switch :=
  ⟨"--json", none, "", .turnOn fun settings => { settings with json := true }⟩

def all : Switch :=
  ⟨"--all", none, "Print every parse, not just the first",
    .turnOn fun settings => { settings with all := true }⟩

def functionName : Switch :=
  ⟨"--name", none, "[default: g]",
    .store "NAME" fun settings name => some { settings with name := name }⟩

def returnType : Switch :=
  ⟨"--return-type", none, "[default: " ++ defaultType ++ "]",
    .store "RETURN_TYPE" fun settings type => some { settings with returnType := type }⟩

def help (command : Option Subcommand) : Switch :=
  ⟨"--help", some 'h', "Print help", .finish (.help command)⟩

def version : Switch :=
  ⟨"--version", some 'V', "Print version", .finish .version⟩

/-- The options that belong to one command only. -/
def own : Subcommand → List Switch
  | .tokens => [json]
  | .tree => [all, json]
  | .ast => []
  | .function => [functionName, returnType]

/-- The options that are known behind a command or, without one, before it. -/
def known : Option Subcommand → List Switch
  | none => [grammar, start, help none, version]
  | some command => own command ++ [grammar, start, help (some command)]

/-- The option as messages show it, with what its value stands for. -/
def display (switch : Switch) : String :=
  match switch.effect with
  | .store placeholder _ => switch.name ++ " <" ++ placeholder ++ ">"
  | _ => switch.name

end Switch

-----------------------------------------------------------------------------------------
-- Reading arguments
-----------------------------------------------------------------------------------------

/-- The arguments of a run. -/
structure Arguments where
  command : CommandLine.Command
  grammar : Option String
  start : String
  expression : Option String

/-- A command takes what has been given for it. -/
def Settings.arguments (settings : Settings) (command : Subcommand) : Arguments :=
  {
    command :=
      match command with
      | .tokens => .tokens settings.json
      | .tree => .tree settings.all settings.json
      | .ast => .ast
      | .function => .function settings.name settings.returnType,
    grammar := settings.grammar,
    start := settings.start,
    expression := settings.expression
  }

namespace Arguments

/-- Splits an option from a value behind an equals sign. -/
def splitValue (arg : String) : String × Option String :=
  match arg.toList.dropWhile (· != '=') with
  | [] => (arg, none)
  | _ :: value => (String.ofList (arg.toList.takeWhile (· != '=')), some (String.ofList value))

/-- Whether an argument is read as an option, which a single dash is not. -/
def isOption (arg : String) : Bool :=
  match arg.toList with
  | '-' :: _ :: _ => true
  | _ => false

/-- The option that an argument is, with the value behind an equals sign.  Of short forms only the
first letter counts, as each of them ends the reading. -/
def switch? (command : Option Subcommand) (arg : String) : Option (Switch × Option String) :=
  match arg.toList with
  | '-' :: '-' :: _ =>
      let (name, value) := splitValue arg
      ((Switch.known command).find? (·.name == name)).map fun switch => (switch, value)
  | '-' :: letter :: _ =>
      ((Switch.known command).find? (·.letter == some letter)).map fun switch => (switch, none)
  | _ => none

/-- An argument that nothing can be done with. -/
def unexpected (command : Option Subcommand) (arg : String) : Ending :=
  .misuse command ("unexpected argument '" ++ arg ++ "' found")

/-- An option without the value that it takes. -/
def missing (command : Option Subcommand) (switch : Switch) : Ending :=
  .misuse command ("a value is required for '" ++ switch.display ++ "' but none was supplied")

/-- An option that takes no value with one behind an equals sign. -/
def superfluous (command : Option Subcommand) (switch : Switch) (value : String) : Ending :=
  .misuse command
    ("unexpected value '" ++ value ++ "' for '" ++ switch.display
      ++ "' found; no more were expected")

/-- An option is given once at most on either side of the command. -/
def once (command : Option Subcommand) (given : List String) (switch : Switch)
    : Except Ending Unit :=
  if switch.name ∈ given then
    .error (.misuse command
      ("the argument '" ++ switch.display ++ "' cannot be used multiple times"))
  else .ok ()

/-- Stores the value of an option. -/
def store (command : Option Subcommand) (switch : Switch)
    (update? : Settings → String → Option Settings) (settings : Settings) (value : String)
    : Except Ending Settings :=
  match update? settings value with
  | some settings => .ok settings
  | none => .error (missing command switch)

/-- Takes an argument that is no option, which only a command can use and only once. -/
def takePlain (command : Option Subcommand) (settings : Settings) (arg : String)
    : Except Ending Settings :=
  match command, settings.expression with
  | some _, none => .ok { settings with expression := some arg }
  | _, _ => .error (unexpected command arg)

/-- What the arguments come to when all have been read. -/
def close (command : Option Subcommand) (settings : Settings) : Except Ending Arguments :=
  match command with
  | some command => .ok (settings.arguments command)
  | none => .error (.misuse none "'exprgen' requires a subcommand but one was not provided")

/-- What stands in the place of a command without being one: the request for help, or nothing that
is known. -/
def readOther (arg : String) (rest : List String) : Ending :=
  match arg, rest with
  | "help", [] => .help none
  | "help", name :: _ =>
      match Subcommand.ofName? name with
      | some command => .help (some command)
      | none => .misuse none ("unrecognized subcommand '" ++ name ++ "'")
  | _, _ => .misuse none ("unrecognized subcommand '" ++ arg ++ "'")

/-- Reads arguments from left to right, before any command or behind one.  After two dashes none
of them is an option. -/
def readFrom (command : Option Subcommand) (given : List String) (settings : Settings)
    : List String → Except Ending Arguments
  | [] => close command settings
  | arg :: rest =>
      if arg = "--" then do
        let settings ← rest.foldlM (takePlain command) settings
        close command settings
      else if isOption arg then
        match switch? command arg with
        | none => .error (unexpected command arg)
        | some (switch, value) => do
            once command given switch
            match switch.effect, value, rest with
            | .finish ending, none, _ => .error ending
            | .turnOn update, none, rest =>
                readFrom command (switch.name :: given) (update settings) rest
            | .store _ update?, some value, rest => do
                let settings ← store command switch update? settings value
                readFrom command (switch.name :: given) settings rest
            | .store _ update?, none, value :: rest =>
                if isOption value then .error (missing command switch)
                else do
                  let settings ← store command switch update? settings value
                  readFrom command (switch.name :: given) settings rest
            | .store _ _, none, [] => .error (missing command switch)
            | _, some value, _ => .error (superfluous command switch value)
      else if command.isSome then do
        let settings ← takePlain command settings arg
        readFrom command given settings rest
      else
        match Subcommand.ofName? arg with
        | some found => readFrom (some found) [] settings rest
        | none => .error (readOther arg rest)

def read (args : List String) : Except Ending Arguments :=
  if args.isEmpty then .error .bare else readFrom none [] .defaults args

/-- The request of a run with the grammar that has been loaded and the bytes of standard input. -/
def request (arguments : Arguments) (grammar : CommandLine.GrammarSource) (input : ByteArray)
    : CommandLine.Request :=
  ⟨arguments.command, grammar, arguments.start, arguments.expression, input⟩

end Arguments

-----------------------------------------------------------------------------------------
-- Help and misuse
-----------------------------------------------------------------------------------------

/-- Texts behind their headings, in a column of their own. -/
def columns (rows : List (String × String)) : String :=
  let width := (rows.map (·.1.length)).foldl max 0
  String.join (rows.map fun (heading, text) =>
    let padding := String.ofList (List.replicate (width - heading.length + 2) ' ')
    Text.trimEnd ("  " ++ heading ++ padding ++ text) ++ "\n")

namespace Subcommand

def about? : Option Subcommand → String
  | some command => command.about
  | none => "Tokenize, parse and emit algebraic expressions"

def usage : Option Subcommand → String
  | some command => "Usage: exprgen " ++ command.name ++ " [OPTIONS] [EXPR]\n"
  | none => "Usage: exprgen [OPTIONS] <COMMAND>\n"

/-- What can follow: the commands, or the expression of a command. -/
def operands : Option Subcommand → String
  | some command => "Arguments:\n" ++ columns [("[EXPR]", command.aboutExpression)]
  | none =>
      "Commands:\n"
        ++ columns
          (all.map (fun command => (command.name, command.about))
            ++ [("help", "Print this message or the help of the given subcommand(s)")])

end Subcommand

/-- An option as the help shows it, with its short form or the room for one. -/
def Switch.heading (switch : Switch) : String :=
  match switch.letter with
  | some letter => "-" ++ letter.toString ++ ", " ++ switch.display
  | none => "    " ++ switch.display

def Ending.helpText (command : Option Subcommand) : String :=
  Subcommand.about? command ++ "\n\n" ++ Subcommand.usage command ++ "\n"
    ++ Subcommand.operands command ++ "\nOptions:\n"
    ++ columns ((Switch.known command).map fun switch => (switch.heading, switch.about))

/-- What the program answers without a run. -/
def Ending.response : Ending → CommandLine.Response
  | help command => ⟨0, helpText command, ""⟩
  | version => ⟨0, "exprgen 0.1.0\n", ""⟩
  | bare => ⟨2, "", helpText none⟩
  | misuse command reason =>
      ⟨2, "",
        "error: " ++ reason ++ "\n\n" ++ Subcommand.usage command
          ++ "\nFor more information, try '--help'.\n"⟩

end Formulary
