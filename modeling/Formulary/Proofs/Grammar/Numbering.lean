import Formulary.Grammar.Basic

/-! Numbering the nonterminals of rules loses nothing.
Every number leads back to its name, so the rules as written can be read off the compiled ones.
-/

namespace Formulary

namespace Rule

variable {ν μ κ : Type}

/-- Renamings that agree on the nonterminals of a rule make the same rule of it.  Terminals are not
renamed. -/
theorem map_congr {f g : ν → μ} {rule : Rule ν} (h : ∀ name ∈ rule.names, f name = g name)
    : rule.map f = rule.map g := by
  obtain ⟨head, body⟩ := rule
  obtain ⟨hhead, hbody⟩ := List.forall_mem_cons.1 h
  have hsymbol : ∀ symbol ∈ body.symbols, symbol.map f = symbol.map g := by
    intro symbol hsymbol
    cases symbol with
    | terminal tag => rfl
    | nonterminal name =>
        rw [Symbol.map, Symbol.map,
          hbody name (List.mem_flatMap.2 ⟨_, hsymbol, List.mem_singleton.2 rfl⟩)]
  rw [map, map, hhead]
  cases body with
  | unit symbol => rw [Body.map, Body.map, hsymbol symbol (by simp [Body.symbols])]
  | pair left right =>
      rw [Body.map, Body.map, hsymbol left (by simp [Body.symbols]),
        hsymbol right (by simp [Body.symbols])]

/-- Renaming the symbols of a rule twice is renaming them once. -/
theorem map_map (f : ν → μ) (g : μ → κ) (rule : Rule ν)
    : (rule.map f).map g = rule.map fun name => g (f name) := by
  obtain ⟨head, body⟩ := rule
  cases body with
  | unit symbol => cases symbol <;> rfl
  | pair left right => cases left <;> cases right <;> rfl

end Rule

namespace Numbering

/-- The place of a name leads back to the name. -/
theorem getD_idxOf {names : List String} {name : String} (h : name ∈ names)
    : names.getD (names.idxOf name) "" = name := by
  have hlt := List.idxOf_lt_length_of_mem h
  rw [List.getD_eq_getElem?_getD, List.getElem?_eq_getElem hlt, List.getElem_idxOf hlt,
    Option.getD_some]

/-- The names of a rule are among those that are numbered. -/
theorem mem_names {rules : List (Rule String)} {rule : Rule String} (hrule : rule ∈ rules)
    {name : String} (hname : name ∈ rule.names)
    : name ∈ names rules := by
  rw [names, List.mem_eraseDups, List.mem_flatMap]
  exact ⟨rule, hrule, hname⟩

/-- Numbered rules are named back as they were. -/
theorem map_getD_number (rules : List (Rule String))
    : (number (names rules) rules).map (Rule.map fun a => (names rules).getD a "") = rules := by
  rw [number, List.map_map]
  refine List.map_congr_left (g := id) (fun rule hrule => ?_) |>.trans (List.map_id _)
  rw [Function.comp_apply, Rule.map_map]
  exact (Rule.map_congr fun name hname => getD_idxOf (mem_names hrule hname)).trans rule.map_id

end Numbering

namespace Grammar

variable {rules : List (Rule String)} {grammar : Grammar}

/-- What compiling rules comes to: a grammar with these rules, or a nonterminal at which the walk
over the unit rules fails. -/
theorem ofRules_cases (rules : List (Rule String))
    : (∃ grammar,
        ofRules rules = .ok grammar
        ∧ grammar.names = (Numbering.names rules).toArray
        ∧ grammar.rules = Numbering.number (Numbering.names rules) rules)
      ∨ ∃ a,
        ofRules rules = .error (.unitCycle ((Numbering.names rules).getD a ""))
        ∧ UnitOrder.walk (UnitOrder.children (Numbering.number (Numbering.names rules) rules))
            (Numbering.names rules).length
          = .error a := by
  simp only [ofRules]
  split
  · exact .inl ⟨_, rfl, rfl, rfl⟩
  · rename_i a hwalk
    exact .inr ⟨a, rfl, hwalk⟩

/-- Rules that compile give a grammar of their names, with the rules in numbers. -/
theorem parts_of_ofRules (h : ofRules rules = .ok grammar)
    : grammar.names = (Numbering.names rules).toArray
      ∧ grammar.rules = Numbering.number (Numbering.names rules) rules := by
  rcases ofRules_cases rules with ⟨compiled, hok, hparts⟩ | ⟨a, herror, _⟩
  · exact Except.ok.inj (hok.symm.trans h) ▸ hparts
  · cases herror.symm.trans h

/-- Nothing but the names and the rules of a grammar can differ. -/
theorem eq_of_parts {first second : Grammar} (hnames : first.names = second.names)
    (hrules : first.rules = second.rules)
    : first = second := by
  obtain ⟨names, rules, _, _, _, _, hbodies, hfirsts, hlasts, _⟩ := first
  obtain ⟨_, _, _, _, _, _, hbodies', hfirsts', hlasts', _⟩ := second
  subst hnames hrules hbodies hfirsts hlasts hbodies' hfirsts' hlasts'
  rfl

/-- A nonterminal of a compiled grammar is called by the name at its number. -/
theorem nonterminalName_of_ofRules (h : ofRules rules = .ok grammar) (a : Nat)
    : grammar.nonterminalName a = (Numbering.names rules).getD a "" := by
  rw [nonterminalName, (parts_of_ofRules h).1, Array.getD_eq_getD_getElem?, List.getElem?_toArray,
    List.getD_eq_getElem?_getD]

/-- The names of a compiled grammar turn its rules into those it was compiled from. -/
theorem map_nonterminalName_of_ofRules (h : ofRules rules = .ok grammar)
    : grammar.rules.map (Rule.map grammar.nonterminalName) = rules := by
  rw [(parts_of_ofRules h).2, funext (nonterminalName_of_ofRules h), Numbering.map_getD_number]

/-- A text whose lines are read compiles as the rules that they are read as. -/
theorem compile_of_readText {text : String} (h : Rule.readText text = .ok rules)
    : compile text = ofRules rules := by
  rw [compile, h]

/-- A text compiles to a grammar that has its names and its rules in numbers: where a grammar is
given, the walk over these rules has not failed. -/
theorem compile_eq_ok {text : String} (hread : Rule.readText text = .ok rules)
    (hnames : Numbering.names rules = grammar.names.toList)
    (hrules : Numbering.number grammar.names.toList rules = grammar.rules)
    {order : List Nat}
    (hwalk : UnitOrder.walk (UnitOrder.children grammar.rules) grammar.names.size = .ok order)
    : compile text = .ok grammar := by
  rw [compile_of_readText hread]
  rcases ofRules_cases rules with ⟨found, hfound, hparts⟩ | ⟨a, -, hcycle⟩
  · rw [hnames, hrules] at hparts
    have heq : found = grammar := eq_of_parts hparts.1 hparts.2
    rw [hfound, heq]
  · rw [hnames, hrules, Array.length_toList, hwalk] at hcycle
    cases hcycle

/-- The lines of a text that compiles are read as rules, and the grammar is made of them. -/
theorem exists_rules_of_compile {text : String} (h : compile text = .ok grammar)
    : ∃ rules, Rule.readText text = .ok rules ∧ ofRules rules = .ok grammar := by
  rw [compile] at h
  split at h
  · cases h
  · rename_i rules hrules
    exact ⟨rules, hrules, h⟩

end Grammar

end Formulary
