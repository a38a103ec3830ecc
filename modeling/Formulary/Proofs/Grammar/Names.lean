import Formulary.Proofs.Grammar.Renumbering
import Formulary.Proofs.Grammar.RoundTrip
import Mathlib.Data.List.GetD

/-! The names of a compiled grammar.
Each is a word, none is the name of a category, and no two are the same.  So a symbol can be told
from all others by the name that is shown for it.
-/

namespace Formulary

open Text

namespace Tag

/-- The name of a token category can be written as a symbol of a rule. -/
theorem isWord_label (tag : Tag)
    : IsWord tag.label.toList := by
  cases tag <;> simp [IsWord, label, isBlank]

/-- The label of a category is its name in capital letters. -/
theorem ofName?_label (tag : Tag)
    : ofName? tag.label = some tag := by
  cases tag <;> decide

end Tag

/-- A name that can stand in a rule is a word and no name of a category.  On the right it is read as
the symbol that it names, so no category can have it. -/
theorem Rule.Legible.name {rule : Rule String} (h : rule.Legible) {name : String}
    (hname : name ∈ rule.names)
    : IsWord name.toList ∧ Tag.ofName? name = none := by
  rcases List.mem_cons.1 hname with rfl | hbody
  · exact ⟨h.isWord, h.noTag⟩
  · obtain ⟨symbol, hsymbol, hmem⟩ := List.mem_flatMap.1 hbody
    obtain ⟨hword, hdenotes⟩ := h.symbols symbol hsymbol
    cases symbol with
    | terminal tag => cases hmem
    | nonterminal other =>
        cases List.mem_singleton.1 hmem
        refine ⟨hword, ?_⟩
        rw [Symbol.word, Symbol.ofWord] at hdenotes
        split at hdenotes
        · cases hdenotes
        · assumption

namespace Grammar

variable {text : String} {grammar : Grammar}

/-- What is computed of a compiled grammar shows that there is one. -/
theorem exists_of_map_compile {α : Type} {f : Grammar → α} {a : α}
    (h : (compile text).map f = .ok a)
    : ∃ grammar, compile text = .ok grammar ∧ f grammar = a := by
  cases hgrammar : compile text with
  | error error =>
      rw [hgrammar] at h
      cases h
  | ok grammar =>
      rw [hgrammar] at h
      exact ⟨grammar, rfl, Except.ok.inj h⟩

/-- Holds of the symbols that a grammar has names for. -/
def Knows (grammar : Grammar) : Symbol Nat → Prop
  | .terminal _ => True
  | .nonterminal a => a < grammar.names.size

/-- A grammar knows the symbols of its rules. -/
theorem knows_of_rule {grammar : Grammar} {a : Nat} {body : Body Nat}
    (hrule : ⟨a, body⟩ ∈ grammar.rules) {symbol : Symbol Nat} (hsymbol : symbol ∈ body.symbols)
    : grammar.Knows symbol := by
  cases symbol with
  | terminal tag => trivial
  | nonterminal b =>
      refine grammar.bounded _ hrule b (List.mem_cons_of_mem _ ?_)
      exact List.mem_flatMap.2 ⟨_, hsymbol, List.mem_singleton_self b⟩

/-- The name of a nonterminal of a compiled grammar is a word and names no token category: every
name of the numbering stands in some line, and a line is only read with such names. -/
theorem name_of_compile (h : compile text = .ok grammar) {a : Nat}
    (ha : grammar.Knows (.nonterminal a))
    : IsWord (grammar.nonterminalName a).toList
      ∧ Tag.ofName? (grammar.nonterminalName a) = none := by
  obtain ⟨rules, hread, hrules⟩ := exists_rules_of_compile h
  have hlt : a < (Numbering.names rules).length := by
    simpa [Knows, (parts_of_ofRules hrules).1] using ha
  have hmem : (Numbering.names rules)[a] ∈ Numbering.names rules := List.getElem_mem hlt
  rw [nonterminalName_of_ofRules hrules, List.getD_eq_getElem _ _ hlt]
  generalize (Numbering.names rules)[a] = name at hmem ⊢
  rw [Numbering.names, List.mem_eraseDups] at hmem
  obtain ⟨rule, hrule, hname⟩ := List.mem_flatMap.1 hmem
  exact (Rule.legible_of_readLines hread rule hrule).name hname

/-- No two numbers in use share a name. -/
theorem nonterminalName_injOn (h : compile text = .ok grammar) {a b : Nat}
    (ha : grammar.Knows (.nonterminal a)) (hb : grammar.Knows (.nonterminal b))
    (hname : grammar.nonterminalName a = grammar.nonterminalName b)
    : a = b := by
  obtain ⟨rules, -, hrules⟩ := exists_rules_of_compile h
  have hlt : ∀ {c : Nat},
      grammar.Knows (.nonterminal c) → c < (Numbering.names rules).length := by
    intro c hc
    simpa [Knows, (parts_of_ofRules hrules).1] using hc
  rw [nonterminalName_of_ofRules hrules, nonterminalName_of_ofRules hrules,
    List.getD_eq_getElem _ _ (hlt ha), List.getD_eq_getElem _ _ (hlt hb)] at hname
  exact (Numbering.nodup_names rules).getElem_inj_iff.1 hname

/-- The name of every symbol is a word. -/
theorem isWord_symbolName (h : compile text = .ok grammar) {symbol : Symbol Nat}
    (hsymbol : grammar.Knows symbol)
    : IsWord (grammar.symbolName symbol).toList := by
  cases symbol with
  | terminal tag => exact tag.isWord_label
  | nonterminal a => exact (name_of_compile h hsymbol).1

/-- The name of a symbol tells whether the symbol is a category, and which. -/
theorem ofName?_symbolName (h : compile text = .ok grammar) {symbol : Symbol Nat}
    (hsymbol : grammar.Knows symbol)
    : Tag.ofName? (grammar.symbolName symbol)
      = match symbol with
        | .terminal tag => some tag
        | .nonterminal _ => none := by
  cases symbol with
  | terminal tag => exact tag.ofName?_label
  | nonterminal a => exact (name_of_compile h hsymbol).2

/-- Symbols that are shown by the same name are the same. -/
theorem symbolName_injOn (h : compile text = .ok grammar) {symbol other : Symbol Nat}
    (hsymbol : grammar.Knows symbol) (hother : grammar.Knows other)
    (hname : grammar.symbolName symbol = grammar.symbolName other)
    : symbol = other := by
  have hkind := ofName?_symbolName h hsymbol
  rw [hname, ofName?_symbolName h hother] at hkind
  cases symbol with
  | terminal tag =>
      cases other with
      | terminal otherTag => rw [Option.some.inj hkind]
      | nonterminal b => cases hkind
  | nonterminal a =>
      cases other with
      | terminal otherTag => cases hkind
      | nonterminal b => rw [nonterminalName_injOn h hsymbol hother hname]

end Grammar

end Formulary
