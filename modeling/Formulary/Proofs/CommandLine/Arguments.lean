import Formulary.Arguments

/-! Every run can be asked for by arguments.
Whatever command is wanted, with whatever values of its options, grammar file, start label and
expression, there are arguments that are read as just this.  An expression that looks like an option
goes behind two dashes, and a value that looks like one behind an equals sign.
-/

namespace Formulary

-----------------------------------------------------------------------------------------
-- Writing arguments
-----------------------------------------------------------------------------------------

/-- An option with its value behind an equals sign. -/
def Switch.withValue (switch : Switch) (value : String) : String :=
  switch.name ++ "=" ++ value

/-- The words of a command and its options. -/
def CommandLine.Command.words : CommandLine.Command → List String
  | tokens json => Subcommand.tokens.name :: if json then [Switch.json.name] else []
  | tree all json =>
      Subcommand.tree.name
        :: ((if all then [Switch.all.name] else []) ++ if json then [Switch.json.name] else [])
  | ast => [Subcommand.ast.name]
  | function name returnType =>
      [
        Subcommand.function.name, Switch.functionName.withValue name,
        Switch.returnType.withValue returnType
      ]

namespace Arguments

/-- Arguments that ask for a run: the options for the grammar and the start label, the command with
its own options, and the expression behind two dashes. -/
def write (arguments : Arguments) : List String :=
  arguments.grammar.toList.map Switch.grammar.withValue
    ++ (Switch.start.withValue arguments.start
      :: (arguments.command.words ++ arguments.expression.toList.flatMap fun text => ["--", text]))

-----------------------------------------------------------------------------------------
-- Reading one argument
-----------------------------------------------------------------------------------------

/-- A name without an equals sign is split from the value behind the first one, which may hold more
of them. -/
theorem splitValue_append {name : String} (hname : '=' ∉ name.toList) (value : String)
    : splitValue (name ++ "=" ++ value) = (name, some value) := by
  have hplain : ∀ c ∈ name.toList, (c != '=') = true := by
    intro c hc
    simpa using ne_of_mem_of_not_mem hc hname
  have hlist : (name ++ "=" ++ value).toList = name.toList ++ '=' :: value.toList := by simp
  rw [splitValue, hlist, List.dropWhile_append_of_pos hplain, List.takeWhile_append_of_pos hplain]
  simp

/-- Two dashes with anything behind them begin an option. -/
theorem isOption_of_toList {arg : String} {base : List Char} (h : arg.toList = '-' :: '-' :: base)
    (hne : base ≠ [])
    : arg ≠ "--" ∧ isOption arg = true := by
  refine ⟨?_, by simp [isOption, h]⟩
  rintro rfl
  simp [hne.symm] at h

variable {command : Option Subcommand} {given : List String} {settings updated : Settings}
  {switch : Switch} {base : List Char}

/-- An option with a value begins with two dashes, as its name does. -/
theorem toList_withValue (hname : switch.name.toList = '-' :: '-' :: base) (value : String)
    : (switch.withValue value).toList = '-' :: '-' :: (base ++ '=' :: value.toList) := by
  simp [Switch.withValue, hname]

/-- An option that is known by its long name is found with the value behind the equals sign. -/
theorem switch?_withValue (hname : switch.name.toList = '-' :: '-' :: base) (hplain : '=' ∉ base)
    (hfind : (Switch.known command).find? (·.name == switch.name) = some switch) (value : String)
    : switch? command (switch.withValue value) = some (switch, some value) := by
  have hsplit : splitValue (switch.withValue value) = (switch.name, some value) :=
    splitValue_append (by simp [hname, hplain]) value
  rw [switch?, toList_withValue hname, hsplit]
  simp [hfind]

/-- An option that takes a value stores the one behind its equals sign. -/
theorem readFrom_withValue (base : List Char) {placeholder : String}
    {update? : Settings → String → Option Settings} {value : String}
    (hname : switch.name.toList = '-' :: '-' :: base) (hplain : '=' ∉ base)
    (hfind : (Switch.known command).find? (·.name == switch.name) = some switch)
    (heffect : switch.effect = .store placeholder update?) (hnew : switch.name ∉ given)
    (hupdate : update? settings value = some updated) (rest : List String)
    : readFrom command given settings (switch.withValue value :: rest)
      = readFrom command (switch.name :: given) updated rest := by
  obtain ⟨hdashes, hoption⟩ := isOption_of_toList (toList_withValue hname value) (by simp)
  rw [readFrom, if_neg hdashes, if_pos hoption, switch?_withValue hname hplain hfind]
  simp [heffect, once, hnew, store, hupdate, bind, Except.bind]

/-- A flag that is known is turned on where it is given. -/
theorem readFrom_flag (base : List Char) {update : Settings → Settings}
    (hname : switch.name.toList = '-' :: '-' :: base) (hne : base ≠ [])
    (hfind : switch? command switch.name = some (switch, none))
    (heffect : switch.effect = .turnOn update) (hnew : switch.name ∉ given) (flag : Bool)
    (rest : List String)
    : readFrom command given settings ((if flag then [switch.name] else []) ++ rest)
      = readFrom command (if flag then switch.name :: given else given)
          (if flag then update settings else settings) rest := by
  cases flag with
  | false => rfl
  | true =>
      obtain ⟨hdashes, hoption⟩ := isOption_of_toList hname hne
      rw [if_pos rfl, List.singleton_append, readFrom, if_neg hdashes, if_pos hoption, hfind]
      simp [heffect, once, hnew, bind, Except.bind]

/-- The name of a command leads to its options. -/
theorem readFrom_command (given : List String) (settings : Settings) (found : Subcommand)
    (rest : List String)
    : readFrom none given settings (found.name :: rest)
      = readFrom (some found) [] settings rest := by
  cases found <;> simp [readFrom, isOption, Subcommand.name, Subcommand.ofName?, Subcommand.all]

/-- Behind two dashes stands the expression. -/
theorem readFrom_expression {found : Subcommand} (hnone : settings.expression = none)
    (expression : Option String)
    : readFrom (some found) given settings
          (expression.toList.flatMap fun text => ["--", text])
      = .ok (({ settings with expression := expression } : Settings).arguments found) := by
  cases expression with
  | none =>
      obtain ⟨_, _, _, _, _, _, _⟩ := settings
      cases hnone
      rfl
  | some text => simp [readFrom, takePlain, hnone, close, bind, Except.bind, pure, Except.pure]

-----------------------------------------------------------------------------------------
-- Reading all of them
-----------------------------------------------------------------------------------------

/-- The words of a command and its options are read one by one.  No option is given twice, so each
of them changes the settings from what they were by default. -/
theorem readFrom_words (given : List String) {settings : Settings} (hjson : settings.json = false)
    (hall : settings.all = false) (hnone : settings.expression = none)
    (command : CommandLine.Command) (expression : Option String)
    : readFrom none given settings
          (command.words ++ expression.toList.flatMap fun text => ["--", text])
      = .ok ⟨command, settings.grammar, settings.start, expression⟩ := by
  have hall? : switch? (some .tree) "--all" = some (.all, none) := by
    simp [switch?, splitValue, Switch.known, Switch.own, Switch.all]
  have hjson? : ∀ found ∈ [Subcommand.tokens, .tree],
      switch? (some found) "--json" = some (.json, none) := by
    simp [switch?, splitValue, Switch.known, Switch.own, Switch.json, Switch.all]
  cases command with
  | tokens json =>
      rw [CommandLine.Command.words, List.cons_append, readFrom_command,
        readFrom_flag "json".toList rfl (by simp) (hjson? _ (by simp)) rfl (by simp),
        readFrom_expression (by cases json <;> exact hnone)]
      cases json <;> simp [Settings.arguments, hjson]
  | tree all json =>
      rw [CommandLine.Command.words, List.cons_append, readFrom_command, List.append_assoc,
        readFrom_flag "all".toList rfl (by simp) hall? rfl (by simp),
        readFrom_flag "json".toList rfl (by simp) (hjson? _ (by simp)) rfl
          (by cases all <;> simp [Switch.json, Switch.all]),
        readFrom_expression (by cases all <;> cases json <;> exact hnone)]
      cases all <;> cases json <;> simp [Settings.arguments, hall, hjson]
  | ast =>
      rw [CommandLine.Command.words, List.singleton_append, readFrom_command,
        readFrom_expression hnone]
      rfl
  | function name returnType =>
      rw [CommandLine.Command.words, List.cons_append, readFrom_command, List.cons_append,
        readFrom_withValue "name".toList rfl (by simp) rfl rfl (by simp) rfl,
        List.singleton_append,
        readFrom_withValue "return-type".toList rfl (by simp) rfl rfl
          (by simp [Switch.functionName, Switch.returnType]) rfl]
      exact readFrom_expression (by exact hnone) expression

/-- Every run can be asked for by arguments, unless the name of its grammar file is empty.  Every
value stands behind an equals sign and the expression behind two dashes, so neither can be taken for
an option. -/
theorem read_write {arguments : Arguments} (h : arguments.grammar ≠ some "")
    : read arguments.write = .ok arguments := by
  obtain ⟨command, grammar, start, expression⟩ := arguments
  have hstart (given : List String) (settings : Settings) (rest : List String)
      (hnew : "--start" ∉ given)
      : readFrom none given settings (Switch.start.withValue start :: rest)
        = readFrom none ("--start" :: given) { settings with start := start } rest :=
    readFrom_withValue "start".toList rfl (by simp) rfl rfl hnew rfl rest
  rw [read, if_neg (by simp [write])]
  cases grammar with
  | none =>
      rw [write, Option.toList_none, List.map_nil, List.nil_append, hstart _ _ _ (by simp),
        readFrom_words _ rfl rfl rfl]
      rfl
  | some file =>
      have hfile : ¬ file.isEmpty = true := by simpa using h
      rw [write, Option.toList_some, List.map_singleton, List.singleton_append,
        readFrom_withValue "grammar".toList rfl (by simp) rfl rfl (by simp) (if_neg hfile),
        hstart _ _ _ (by simp [Switch.grammar]), readFrom_words _ rfl rfl rfl]

end Arguments

end Formulary
