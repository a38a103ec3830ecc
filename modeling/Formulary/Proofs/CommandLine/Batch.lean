import Formulary.Proofs.CommandLine.Modes
import Formulary.Proofs.CommandLine.Reports

/-! Runs over several inputs.
Responses are put one behind the other, so a run is made up of what it would be for each of its
inputs alone.  An input that fails leaves a report and takes nothing from the others.
-/

namespace Formulary.CommandLine

open Text

-----------------------------------------------------------------------------------------
-- Responses one behind the other
-----------------------------------------------------------------------------------------

namespace Response

/-- The response to nothing. -/
def empty : Response :=
  ⟨0, "", ""⟩

/-- Nothing in front of a response changes it. -/
@[simp]
theorem empty_append (response : Response)
    : empty.append response = response := by
  simp [append, empty]

/-- Nothing behind a response changes it. -/
@[simp]
theorem append_empty (response : Response)
    : response.append empty = response := by
  simp [append, empty]

instance : Std.Associative append where
  assoc first second third := by
    simp [append, String.append_assoc, Nat.max_assoc]

/-- What comes first stays in front of everything else. -/
theorem foldl_append_cons (response : Response) (responses : List Response)
    : (response :: responses).foldl append empty
      = response.append (responses.foldl append empty) :=
  calc
    (response :: responses).foldl append empty
    _ = responses.foldl append (response.append empty) := by
      rw [List.foldl_cons, empty_append, append_empty]
    _ = response.append (responses.foldl append empty) := List.foldl_assoc

/-- An output that goes on with every response comes to all of them in order. -/
theorem output_foldl_append (output : Response → String) (hempty : output empty = "")
    (happend
      : ∀ first second, output (first.append second) = output first ++ output second)
    (responses : List Response)
    : output (responses.foldl append empty) = String.join (responses.map output) := by
  induction responses with
  | nil => exact hempty
  | cons response responses ih =>
      rw [foldl_append_cons, happend, ih, List.map_cons, String.join_cons]

/-- One failure is enough for the whole to fail. -/
theorem code_foldl_append {responses : List Response}
    (h : ∀ response ∈ responses, response.code ≤ 1)
    : (responses.foldl append empty).code
      = if ∃ response ∈ responses, response.code = 1 then 1 else 0 := by
  induction responses with
  | nil => rfl
  | cons response responses ih =>
      obtain ⟨hfirst, hothers⟩ := List.forall_mem_cons.1 h
      rw [foldl_append_cons, append, ih hothers]
      rcases Nat.le_one_iff_eq_zero_or_eq_one.1 hfirst with hcode | hcode
      · simp [hcode]
      · simp only [hcode, List.exists_mem_cons_iff, true_or, if_true]
        split <;> rfl

end Response

-----------------------------------------------------------------------------------------
-- Inputs by themselves
-----------------------------------------------------------------------------------------

section Inputs

variable {request : Request} {language : Language}

/-- The language of a request starts where the request says, and all its names are on one line. -/
theorem plain_of_language (h : CommandLine.language request = .ok language)
    : language.grammar.HasPlainNames ∧ language.start = request.start := by
  unfold CommandLine.language at h
  split at h
  · cases h
    exact ⟨Grammar.hasPlainNames_arithmetic, rfl⟩
  · split at h
    · rename_i hgrammar
      cases h
      exact ⟨Grammar.hasPlainNames_of_compile hgrammar, rfl⟩
    · cases h
  · cases h

/-- Mapping a result makes no failure of its own. -/
theorem eq_error_of_map {ε α β : Type} {f : α → β} {result : Except ε α} {error : ε}
    (h : result.map f = .error error)
    : result = .error error := by
  cases result with
  | error _ =>
      cases h
      rfl
  | ok _ => cases h

/-- What a command fails with is what reading the input fails with.  The commands go through the
same stages, and fail in the first one that fails. -/
theorem expression_of_display_error {command : Command} {input : String} {error : Error}
    (h : display language command input = .error error)
    : language.expression input = .error error := by
  cases htokens : Language.tokens input with
  | error failure =>
      rw [display, htokens] at h
      cases h
      rw [Language.expression, htokens]
      rfl
  | ok tokens =>
      cases command with
      | ast => exact eq_error_of_map (display_ast language input ▸ h)
      | function name returnType =>
          exact eq_error_of_map (display_function language name returnType input ▸ h)
      | tokens json =>
          rw [display, htokens] at h
          cases json <;> cases h
      | tree isAll json =>
          rw [display, htokens] at h
          rw [Language.expression, htokens]
          rcases language.firstTree_and_allTrees tokens with
            ⟨failure, hfirst, hall⟩ | ⟨first, others, hfirst, hall⟩
          · have hvalue := Language.value_of_firstTree_error hfirst
            cases isAll <;> simp_all [bind, Except.bind, Except.mapError]
          · cases isAll <;> cases json <;>
              simp [bind, Except.bind, pure, Except.pure, Except.mapError, hfirst, hall] at h

/-- An input by itself is shown, or it is reported with what it fails with. -/
theorem runAlone_cases (hlanguage : CommandLine.language request = .ok language)
    (command : Command) (input : String)
    : (∃ output, request.runAlone command input = .shown output)
      ∨ ∃ reason,
          request.runAlone command input = .failure (quote input ++ ": " ++ reason)
          ∧ (IsUnbroken request.start → IsUnbroken (quote input ++ ": " ++ reason)) := by
  rw [runAlone_eq_respond hlanguage]
  cases hdisplay : display language command input with
  | ok output => exact .inl ⟨trimEnd output, respond_of_display hdisplay⟩
  | error error =>
      refine .inr ⟨error.message, respond_of_display_error hdisplay, fun hstart => ?_⟩
      obtain ⟨hnames, hlabel⟩ := plain_of_language hlanguage
      have houtcome := Language.expression_eq_iff.1 (expression_of_display_error hdisplay)
      have hmessage := Language.isUnbroken_message hnames (hlabel ▸ hstart) houtcome
      have hcolon : IsUnbroken ": " := by decide
      simp [(oneLine_quote input).isUnbroken, hcolon, hmessage]

/-- A run puts what it would be for each input behind what it is for the inputs before. -/
theorem run_eq_foldl (hlanguage : CommandLine.language request = .ok language)
    {inputs : List String} (hinputs : CommandLine.inputs request = .ok inputs)
    : run request
      = (inputs.map (request.runAlone request.command)).foldl Response.append .empty := by
  have halone : request.runAlone request.command = respond language request.command :=
    funext (runAlone_eq_respond hlanguage request.command)
  simp only [run, hlanguage, hinputs, halone]
  rfl

end Inputs

-----------------------------------------------------------------------------------------
-- Runs
-----------------------------------------------------------------------------------------

/-- Holds if a run is made up of the runs over each of its inputs. -/
structure RunsApart (request : Request) (inputs : List String) : Prop where
  stdout
    : (run request).stdout
      = String.join (inputs.map fun input => (request.runAlone request.command input).stdout)
  stderr
    : (run request).stderr
      = String.join (inputs.map fun input => (request.runAlone request.command input).stderr)
  /-- The run fails if it fails for some input. -/
  code
    : (run request).code
      = if ∃ input ∈ inputs, (request.runAlone request.command input).code = 1 then 1 else 0
  /-- For each input something is shown or a report is made.  Only a broken start label breaks the
  line of a report. -/
  alone
    : ∀ input ∈ inputs,
        (∃ output, request.runAlone request.command input = .shown output)
        ∨ ∃ reason,
            request.runAlone request.command input
              = .failure (Text.quote input ++ ": " ++ reason)
            ∧ (IsUnbroken request.start → IsUnbroken (Text.quote input ++ ": " ++ reason))

/-- The run over all inputs is made of the runs over each alone: the texts follow each other, and
the exit status is the greatest of theirs, which is at most 1. -/
theorem runsApart {request : Request} {language : Language}
    (hlanguage : CommandLine.language request = .ok language) {inputs : List String}
    (hinputs : CommandLine.inputs request = .ok inputs)
    : RunsApart request inputs := by
  have halone := runAlone_cases hlanguage request.command
  have hcodes
      : ∀ response ∈ inputs.map (request.runAlone request.command), response.code ≤ 1 := by
    refine List.forall_mem_map.2 fun input _ => ?_
    rcases halone input with ⟨output, hshown⟩ | ⟨reason, hfailure, -⟩
    · simp [hshown, Response.shown]
    · simp [hfailure, Response.failure]
  have hrun := run_eq_foldl hlanguage hinputs
  refine ⟨?_, ?_, ?_, fun input _ => halone input⟩
  · rw [hrun, Response.output_foldl_append Response.stdout rfl fun _ _ => rfl, List.map_map]
    rfl
  · rw [hrun, Response.output_foldl_append Response.stderr rfl fun _ _ => rfl, List.map_map]
    rfl
  · rw [hrun, Response.code_foldl_append hcodes]
    simp

/-- The commands agree on every input, and a run over several inputs is made up of the runs over
each of them.  Where the grammar does not compile there is nothing but its report. -/
theorem run_agrees (request : Request)
    : (∀ text error,
        request.grammar = .text text
        → Grammar.compile text = .error error
        → run request = .failure error.diagnostic.message)
      ∧ ∀ found,
          language request = .ok found
          → (∀ input, Agree request found input)
            ∧ ∀ inputs, CommandLine.inputs request = .ok inputs → RunsApart request inputs := by
  refine ⟨fun text error hgrammar hcompile => ?_, fun found hlanguage => ?_⟩
  · have hlanguage : language request = .error error.diagnostic.message := by
      simp only [language, hgrammar, hcompile]
    simp only [run, hlanguage]
  · exact ⟨agree hlanguage, fun inputs hinputs => runsApart hlanguage hinputs⟩

/-- An input that fails, between two others and a blank line, and a grammar that does not
compile. -/
theorem run_agrees_lines
    : let request : Request :=
        ⟨.function "f" "int", .builtIn, "start", none, "a+b\n\n?\n2".toUTF8⟩
      let alone := request.runAlone request.command
      ∃ found error,
        language request = .ok found
        ∧ inputs request = .ok ["a+b", "?", "2"]
        ∧ Agree request found "a+b"
        ∧ (run request).stdout = (alone "a+b").stdout ++ (alone "2").stdout
        ∧ (run request).code = 1
        ∧ Grammar.compile "sum =" = .error error
        ∧ run { request with grammar := .text "sum =" } = .failure error.diagnostic.message := by
  intro request alone
  have hinputs : inputs request = .ok ["a+b", "?", "2"] := by decide +kernel
  have hcode : (request.runAlone request.command "?").code = 1 := by decide +kernel
  have hstdout : (request.runAlone request.command "?").stdout = "" := by decide +kernel
  obtain ⟨error, hcompile⟩ : ∃ error, Grammar.compile "sum =" = .error error := by
    have hfails : (Grammar.compile "sum =").toBool = false := by decide +kernel
    cases hcompile : Grammar.compile "sum =" with
    | error error => exact ⟨error, rfl⟩
    | ok grammar =>
        rw [hcompile] at hfails
        cases hfails
  obtain ⟨hagree, hruns⟩ := (run_agrees request).2 _ rfl
  have hrun := hruns _ hinputs
  have hfaulty := (run_agrees { request with grammar := .text "sum =" }).1 _ _ rfl hcompile
  refine ⟨_, error, rfl, hinputs, hagree "a+b", ?_, ?_, hcompile, hfaulty⟩
  · rw [hrun.stdout]
    simp [alone, hstdout]
  · rw [hrun.code, if_pos ⟨"?", by simp, hcode⟩]

/-- A line feed in the start label ends the line of a report before the report ends. -/
theorem run_breaks_report
    : let request : Request := ⟨.tree false false, .builtIn, "a\nb", some "x", .empty⟩
      (run request).code = 1
      ∧ Text.lines (run request).stderr
        = [
            "error: \"x\": ParseError\x7bunknown_label: start label 'a",
            "b' is not in the grammar\x7d"
          ] := by
  decide +kernel

end Formulary.CommandLine
