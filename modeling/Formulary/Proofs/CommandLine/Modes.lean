import Formulary.Proofs.CommandLine.Output

/-! One input under all commands.
Whatever a command shows of an input beyond its tokens, it takes from the same trees.  So all of
these commands fail for the same reason where there is no tree, the first of all trees is the one
that is shown alone, and a function returns what is written as the value.
-/

namespace Formulary

open Text

-----------------------------------------------------------------------------------------
-- First trees and all trees
-----------------------------------------------------------------------------------------

namespace Language

variable {language : Language} {input : String}

/-- The searches for one tree and for all trees fail alike, or find the same tree first. -/
theorem firstTree_and_allTrees (language : Language) (tokens : Array Token)
    : (∃ error,
        language.firstTree tokens = .error error ∧ language.allTrees tokens = .error error)
      ∨ ∃ tree others,
          language.firstTree tokens = .ok tree
          ∧ language.allTrees tokens = .ok (tree :: others) := by
  rw [firstTree, allTrees]
  cases language.startSymbol with
  | error error => exact .inl ⟨error, rfl, rfl⟩
  | ok label =>
      obtain ⟨found, hfound, -⟩ :=
        Parse.exists_forest language.grammar tokens (Nat.zero_le _) le_rfl label
      rcases Parse.first_and_all hfound with ⟨-, hfirst, hall⟩ | ⟨tree, others, -, hfirst, hall⟩
      · exact .inl ⟨_, hfirst, hall⟩
      · exact .inr ⟨tree, others, hfirst, hall⟩

/-- Holds of inputs with tokens that the start label has a derivation tree over. -/
def Parses (language : Language) (input : String) : Prop :=
  ∃ tokens label tree,
    tokenize input = .ok tokens
    ∧ language.grammar.lookup? language.start = some label
    ∧ Parse.Derivation language.grammar (tokens.toArray.map Token.tag) label 0 tokens.length tree

/-- The tokens of a source are those that the lexer reads. -/
theorem tokens_of_tokenize {tokens : List Token} (h : tokenize input = .ok tokens)
    : Language.tokens input = .ok tokens.toArray := by
  rw [Language.tokens, h]
  rfl

/-- An input that parses has a first tree, which comes first among all its trees. -/
theorem Parses.exists_trees (h : language.Parses input)
    : ∃ tokens first others,
        Language.tokens input = .ok tokens
        ∧ language.firstTree tokens = .ok first
        ∧ language.allTrees tokens = .ok (first :: others) := by
  obtain ⟨tokens, label, tree, htokens, hlabel, hderivation⟩ := h
  obtain ⟨found, hfound⟩ := exists_firstTree_of_derivation hlabel hderivation
  rcases language.firstTree_and_allTrees tokens.toArray with
    ⟨error, hfirst, -⟩ | ⟨first, others, hfirst, hall⟩
  · cases hfirst.symm.trans hfound
  · cases hfirst.symm.trans hfound
    exact ⟨_, found, others, tokens_of_tokenize htokens, hfirst, hall⟩

/-- Where nothing parses, there are no tokens, or the search for any trees of them fails. -/
theorem exists_error_of_not_parses (h : ¬ language.Parses input)
    : (∃ error, Language.tokens input = .error error)
      ∨ ∃ tokens error,
          Language.tokens input = .ok tokens
          ∧ language.firstTree tokens = .error error
          ∧ language.allTrees tokens = .error error := by
  cases htokens : tokenize input with
  | error error =>
      refine .inl ⟨.lex error, ?_⟩
      rw [Language.tokens, htokens]
      rfl
  | ok tokens =>
      rcases language.firstTree_and_allTrees tokens.toArray with
        ⟨error, hfirst, hall⟩ | ⟨first, others, hfirst, -⟩
      · exact .inr ⟨_, error, tokens_of_tokenize htokens, hfirst, hall⟩
      · obtain ⟨label, hlabel, hderivation⟩ := exists_derivation_of_firstTree hfirst
        exact (h ⟨tokens, label, first, htokens, hlabel, hderivation⟩).elim

end Language

namespace CommandLine

-----------------------------------------------------------------------------------------
-- Displays
-----------------------------------------------------------------------------------------

/-- Holds of the commands that show more of an input than its tokens. -/
def Command.buildsTrees : Command → Bool
  | tokens _ => false
  | _ => true

section Displays

variable {language : Language} {input : String}

/-- Without trees, no command that takes something from them gets further than another.  All of them
need the first tree, and the reason that there is none is the same for each. -/
theorem exists_display_error (h : ¬ language.Parses input)
    : ∃ error,
        ∀ command : Command,
          command.buildsTrees → display language command input = .error error := by
  rcases Language.exists_error_of_not_parses h with
    ⟨error, htokens⟩ | ⟨tokens, error, htokens, hfirst, hall⟩
  · refine ⟨error, fun command _ => ?_⟩
    rw [display, htokens]
    rfl
  · refine ⟨.parse error, fun command hcommand => ?_⟩
    have hvalue := Language.value_of_firstTree_error hfirst
    cases command with
    | tokens json => cases hcommand
    | tree isAll json =>
        cases isAll <;> simp [display, htokens, hfirst, hall, bind, Except.bind, Except.mapError]
    | ast | function name returnType => simp [display, htokens, hvalue, bind, Except.bind]

/-- What is shown of a value is its emitted form above its structure, and it fails where the value
does. -/
theorem display_ast (language : Language) (input : String)
    : display language .ast input
      = (language.expression input).map fun value => value.render ++ "\n" ++ value.inspect := by
  rw [display, Language.expression]
  cases Language.tokens input with
  | error error => rfl
  | ok tokens =>
      simp only [bind, Except.bind]
      cases language.value tokens <;> rfl

/-- What is shown of a function is the definition around the value, and it fails where the value
does. -/
theorem display_function (language : Language) (name returnType input : String)
    : display language (.function name returnType) input
      = (language.expression input).map (valueFunction name returnType) := by
  rw [display, Language.expression]
  cases Language.tokens input with
  | error error => rfl
  | ok tokens =>
      simp only [bind, Except.bind]
      cases language.value tokens <;> rfl

end Displays

-----------------------------------------------------------------------------------------
-- Responses
-----------------------------------------------------------------------------------------

/-- The response that only shows an output. -/
def Response.shown (output : String) : Response :=
  ⟨0, output ++ "\n", ""⟩

/-- The response to an input by itself under any of the commands. -/
def Request.runAlone (request : Request) (command : Command) (input : String) : Response :=
  run { request with command, expression := some input }

section Responses

variable {language : Language} {command : Command} {input output : String}

/-- What is shown goes to standard output without the blanks behind it. -/
theorem respond_of_display (h : display language command input = .ok output)
    : respond language command input = .shown (trimEnd output) := by
  simp only [respond, h, Response.shown]

/-- What is shown goes to standard output as it is if no blank stands behind it. -/
theorem respond_of_endsInWord (h : display language command input = .ok output)
    (hends : EndsInWord output)
    : respond language command input = .shown output := by
  rw [respond_of_display h, hends.trimEnd_eq]

/-- A failure is reported on standard error with the quoted input in front. -/
theorem respond_of_display_error {error : Error}
    (h : display language command input = .error error)
    : respond language command input = .failure (Text.quote input ++ ": " ++ error.message) := by
  simp only [respond, h]

/-- A run over one input is the response to it. -/
theorem runAlone_eq_respond {request : Request}
    (h : CommandLine.language request = .ok language) (command : Command) (input : String)
    : request.runAlone command input = respond language command input := by
  have hlanguage
      : CommandLine.language { request with command, expression := some input }
        = .ok language := h
  have hinputs : inputs { request with command, expression := some input } = .ok [input] := rfl
  simp [Request.runAlone, run, hlanguage, hinputs, Response.append]

end Responses

-----------------------------------------------------------------------------------------
-- Agreement
-----------------------------------------------------------------------------------------

/-- Holds if the modes for trees show these trees of an input, the first one by itself. -/
structure ShowsTrees (request : Request) (grammar : Grammar) (input : String)
    (tokens : Array Token) (first : Tree) (others : List Tree) : Prop where
  single : request.runAlone (.tree false false) input = .shown (first.print grammar tokens)
  all
    : request.runAlone (.tree true false) input
      = .shown ("\n\n".intercalate ((first :: others).map (Tree.print grammar tokens)))
  singleDocument
    : request.runAlone (.tree false true) input
      = .shown (first.named grammar tokens).toJson.pretty
  allDocuments
    : request.runAlone (.tree true true) input
      = .shown
        (Json.list
          ((first :: others).map fun tree => (tree.named grammar tokens).toJson)).pretty

/-- Holds if the commands agree on an input. -/
structure Agree (request : Request) (language : Language) (input : String) : Prop where
  /-- Without a tree all commands fail alike. -/
  failure
    : ¬ language.Parses input
      → ∃ reason,
          ∀ command : Command,
            command.buildsTrees
            → request.runAlone command input = .failure (Text.quote input ++ ": " ++ reason)
  /-- The tree that is shown by itself is the first of all. -/
  trees
    : language.Parses input
      → ∃ tokens first others,
          Language.tokens input = .ok tokens
          ∧ language.allTrees tokens = .ok (first :: others)
          ∧ ShowsTrees request language.grammar input tokens first others
  /-- A function is shown where its value is. -/
  code
    : ∀ name returnType,
        (request.runAlone (.function name returnType) input).code
        = (request.runAlone .ast input).code
  /-- A function returns what the first line shows of its value. -/
  function
    : (request.runAlone .ast input).code = 0
      → ∃ line,
          (Text.lines (request.runAlone .ast input).stdout).head? = some line
          ∧ ∀ name returnType,
              StartsInWord returnType
              → request.runAlone (.function name returnType) input
                = .shown
                  (returnType ++ " " ++ name ++ "() \x7b\n  return " ++ line ++ ";\n\x7d")

section Agreement

variable {request : Request} {language : Language}
  (hlanguage : CommandLine.language request = .ok language)

include hlanguage

/-- An input that does not parse has one reason that all commands report that build trees. -/
theorem exists_failure_of_not_parses {input : String} (h : ¬ language.Parses input)
    : ∃ reason,
        ∀ command : Command,
          command.buildsTrees
          → request.runAlone command input = .failure (Text.quote input ++ ": " ++ reason) := by
  obtain ⟨error, hdisplay⟩ := exists_display_error h
  refine ⟨error.message, fun command hcommand => ?_⟩
  rw [runAlone_eq_respond hlanguage]
  exact respond_of_display_error (hdisplay command hcommand)

/-- All ways to show the trees of an input go by the same trees: the first one alone, or all of them
with an empty line between two. -/
theorem showsTrees {input : String} {tokens : Array Token} {first : Tree} {others : List Tree}
    (htokens : Language.tokens input = .ok tokens) (hfirst : language.firstTree tokens = .ok first)
    (hall : language.allTrees tokens = .ok (first :: others))
    : ShowsTrees request language.grammar input tokens first others := by
  have hprints
      : ∀ text ∈ (first :: others).map (Tree.print language.grammar tokens),
          EndsInWord text :=
    List.forall_mem_map.2 fun tree _ => tree.endsInWord_print language.grammar tokens
  constructor
  all_goals rw [runAlone_eq_respond hlanguage]
  · refine respond_of_endsInWord ?_ (first.endsInWord_print _ _)
    simp [display, htokens, hfirst, bind, Except.bind, Except.mapError, pure, Except.pure]
  · refine respond_of_endsInWord ?_ (endsInWord_intercalate _ (by simp) hprints)
    simp [display, htokens, hall, bind, Except.bind, Except.mapError, pure, Except.pure]
  · refine respond_of_endsInWord ?_ (Json.endsInWord_pretty _)
    simp [display, htokens, hfirst, bind, Except.bind, Except.mapError, pure, Except.pure]
  · refine respond_of_endsInWord ?_ (Json.endsInWord_pretty _)
    simp [display, htokens, hall, bind, Except.bind, Except.mapError, pure, Except.pure]

/-- The command for values and the one for functions both show what the outcome is.  Both evaluate
the same tree, and differ only in how they show its value. -/
theorem runAlone_value_cases (input : String)
    : (∃ reason,
        request.runAlone .ast input = .failure reason
        ∧ ∀ name returnType,
            request.runAlone (.function name returnType) input = .failure reason)
      ∨ ∃ value : Value,
          (∀ text ∈ value.texts, IsWord text.toList)
          ∧ request.runAlone .ast input = .shown (value.render ++ "\n" ++ value.inspect)
          ∧ ∀ name returnType,
              request.runAlone (.function name returnType) input
              = .shown (trimEnd (valueFunction name returnType value)) := by
  obtain ⟨result, houtcome⟩ := language.exists_outcome input
  have hast := display_ast language input
  have hfunction := fun name returnType => display_function language name returnType input
  simp only [runAlone_eq_respond hlanguage]
  rw [houtcome.expression_eq] at hast
  simp only [houtcome.expression_eq] at hfunction
  cases result with
  | error error =>
      refine .inl ⟨_, respond_of_display_error hast, fun name returnType => ?_⟩
      exact respond_of_display_error (hfunction name returnType)
  | ok value =>
      have hends : EndsInWord (value.render ++ "\n" ++ value.inspect) :=
        value.endsInWord_inspect.prepend _
      refine .inr ⟨value, Language.isWord_of_outcome houtcome, respond_of_endsInWord hast hends, ?_⟩
      exact fun name returnType => respond_of_display (hfunction name returnType)

/-- The commands agree on every input, whatever the language.  Each part follows from what the
commands show, which the tokens and trees of the input decide. -/
theorem agree (input : String)
    : Agree request language input where
  failure := exists_failure_of_not_parses hlanguage
  trees := by
    intro h
    obtain ⟨tokens, first, others, htokens, hfirst, hall⟩ := h.exists_trees
    exact ⟨tokens, first, others, htokens, hall, showsTrees hlanguage htokens hfirst hall⟩
  code := by
    intro name returnType
    rcases runAlone_value_cases hlanguage input with
      ⟨reason, hast, hfunction⟩ | ⟨value, -, hast, hfunction⟩
    · rw [hast, hfunction]
    · rw [hast, hfunction, Response.shown, Response.shown]
  function := by
    intro hcode
    rcases runAlone_value_cases hlanguage input with
      ⟨reason, hast, -⟩ | ⟨value, hwords, hast, hfunction⟩
    · rw [hast] at hcode
      cases hcode
    · have hline := value.oneLine_render fun text htext => (hwords text htext).isLine
      refine ⟨value.render, ?_, fun name returnType htype => ?_⟩
      · rw [hast, Response.shown, String.append_assoc, lines_append_newline hline, List.head?_cons]
      · rw [hfunction, trimEnd_valueFunction htype hwords]

end Agreement

end CommandLine

end Formulary
