import Formulary.CommandLine
import Formulary.Proofs.Code.Texts
import Formulary.Proofs.Grammar.Names
import Formulary.Proofs.Language.Outcome
import Formulary.Proofs.Text.Quoted

/-! Reports of failures on their line.
All that a report takes from the input it shows in quotes, and the names of symbols are words.  Only
the start label is shown as it was given, so a report is a single line unless that label breaks it.
-/

namespace Formulary

open Text

-----------------------------------------------------------------------------------------
-- Structural texts
-----------------------------------------------------------------------------------------

/-- A quoted text is on one line, since line breaks in it are escaped. -/
theorem Text.oneLine_quote (text : String)
    : OneLine (quote text) := by
  obtain ⟨front, hquote, hfront⟩ := exists_quote_eq text
  rw [hquote, oneLine_append]
  exact ⟨hfront, by decide⟩

/-- A quoted character is on one line, since a line break is escaped. -/
theorem Text.oneLine_quoteChar (c : Char)
    : OneLine (quoteChar c) := by
  rw [OneLine, quoteChar, String.toList_ofList, isLine_cons, isLine_append]
  exact ⟨by decide, isLine_escapeChar _ c, by simp⟩

/-- A number is on one line, as its digits are a word. -/
theorem Text.oneLine_toString (number : Nat)
    : OneLine (toString number) :=
  (isWord_toString number).isLine

/-- A comma with a space is on one line. -/
theorem Text.oneLine_comma
    : OneLine ", " := by
  decide

/-- The structure of a variable is on one line, as its name and its type are quoted. -/
theorem Variable.oneLine_inspect (v : Variable)
    : OneLine v.inspect := by
  unfold inspect
  simp only [oneLine_append, oneLine_quote]
  decide +kernel

/-- The structure of an array is on one line, as its name and its type are quoted. -/
theorem ArrayVariable.oneLine_inspect (array : ArrayVariable)
    : OneLine array.inspect := by
  unfold inspect
  simp only [oneLine_append, oneLine_quote, oneLine_toString]
  decide +kernel

/-- The name of an operator is on one line, checked for each. -/
theorem Operator.oneLine_inspect (op : Operator)
    : OneLine op.inspect := by
  rcases op with op | op <;> cases op <;> decide

namespace Value

/-- The structure of an operation is on one line if those of its operands are. -/
theorem oneLine_inspectOperation (form : Form) (op : Operator) {left right : String}
    (hleft : OneLine left) (hright : OneLine right)
    : OneLine (inspectOperation form op left right) := by
  have hform : OneLine form.name := by cases form <;> decide
  unfold inspectOperation
  simp only [oneLine_append, hform, op.oneLine_inspect, hleft, hright]
  decide +kernel

mutual
/-- The structure of a value is on one line, by induction on the value.  The texts in it are quoted,
and quoting leaves no line end. -/
theorem oneLine_inspect (value : Value)
    : OneLine value.inspect := by
  unfold inspect
  cases value with
  | var v =>
      simp only [oneLine_append, v.oneLine_inspect]
      decide +kernel
  | constant text =>
      simp only [oneLine_append, oneLine_quote]
      decide +kernel
  | parens inner =>
      simp only [oneLine_append, inner.oneLine_inspect]
      decide +kernel
  | call name args =>
      have hargs := oneLine_intercalate oneLine_comma (oneLine_inspectAll args)
      simp only [oneLine_append, oneLine_quote, hargs]
      decide +kernel
  | binary form op left right =>
      have hright : OneLine ("Some(" ++ right.inspect ++ ")") := by
        simp only [oneLine_append, right.oneLine_inspect]
        decide +kernel
      exact oneLine_inspectOperation form _ left.oneLine_inspect hright
  | unary form op operand =>
      exact oneLine_inspectOperation form _ operand.oneLine_inspect (by decide)
  | element array indices =>
      have hindices := oneLine_intercalate oneLine_comma (oneLine_inspectAll indices)
      simp only [oneLine_append, array.oneLine_inspect, hindices]
      decide +kernel
termination_by sizeOf value

/-- So are the structures of values side by side. -/
theorem oneLine_inspectAll (values : List Value)
    : ∀ text ∈ inspectAll values, OneLine text := by
  cases values with
  | nil => exact List.forall_mem_nil _
  | cons value values =>
      rw [inspectAll]
      exact List.forall_mem_cons.2 ⟨value.oneLine_inspect, oneLine_inspectAll values⟩
termination_by sizeOf values
end

end Value

namespace Fragment

mutual
/-- The structure of a fragment is on one line, by induction on the fragment.  The texts in it are
quoted, and quoting leaves no line end. -/
theorem oneLine_inspect (fragment : Fragment)
    : OneLine fragment.inspect := by
  cases fragment with
  | raw name =>
      simp only [inspect, oneLine_append, oneLine_quote]
      decide +kernel
  | op o =>
      simp only [inspect, oneLine_append, o.oneLine_inspect]
      decide +kernel
  | value v =>
      simp only [inspect, oneLine_append, v.oneLine_inspect]
      decide +kernel
  | list items =>
      have hitems := oneLine_intercalate oneLine_comma (oneLine_inspectAll items)
      simp only [inspect, oneLine_append, hitems]
      decide +kernel
  | nil => decide
termination_by sizeOf fragment

/-- So are the structures of fragments side by side. -/
theorem oneLine_inspectAll (fragments : List Fragment)
    : ∀ text ∈ inspectAll fragments, OneLine text := by
  cases fragments with
  | nil => exact List.forall_mem_nil _
  | cons fragment fragments =>
      rw [inspectAll]
      exact List.forall_mem_cons.2 ⟨fragment.oneLine_inspect, oneLine_inspectAll fragments⟩
termination_by sizeOf fragments
end

end Fragment

-----------------------------------------------------------------------------------------
-- Messages
-----------------------------------------------------------------------------------------

/-- Holds of texts without a line feed. -/
def Text.IsUnbroken (text : String) : Prop :=
  '\n' ∉ text.toList

instance (text : String) : Decidable (Text.IsUnbroken text) :=
  inferInstanceAs (Decidable ('\n' ∉ text.toList))

/-- Texts side by side are unbroken exactly if both are. -/
@[simp]
theorem Text.isUnbroken_append {first second : String}
    : IsUnbroken (first ++ second) ↔ IsUnbroken first ∧ IsUnbroken second := by
  simp [IsUnbroken, not_or]

/-- A text on one line holds no line feed. -/
theorem Text.OneLine.isUnbroken {text : String} (h : OneLine text)
    : IsUnbroken text :=
  fun hfeed => (h '\n' hfeed).1 rfl

/-- Only the particulars can break a report.  The stage, the code and the span are written with
letters, digits and marks. -/
theorem Diagnostic.isUnbroken_message {report : Diagnostic}
    (h : ∀ details ∈ report.details, IsUnbroken details)
    : IsUnbroken report.message := by
  obtain ⟨stage, code, span, details⟩ := report
  have hstage : IsUnbroken stage.title := by cases stage <;> decide +kernel
  have hcode : IsUnbroken code.name := by cases code <;> decide +kernel
  have hnumber : ∀ number : Nat, IsUnbroken number.repr :=
    fun number => (oneLine_toString number).isUnbroken
  have hmarks : ∀ mark ∈ ["\x7b", "\x7d", "@", ":", ": "], IsUnbroken mark := by decide +kernel
  simp only [List.forall_mem_cons] at hmarks
  obtain ⟨hopen, hclose, hat, hbetween, hcolon, -⟩ := hmarks
  unfold message
  cases span with
  | none =>
      cases details with
      | none => simp [hstage, hcode, hopen, hclose]
      | some text => simp [hstage, hcode, hopen, hclose, hcolon, h text rfl]
  | some span =>
      cases details with
      | none => simp [hstage, hcode, hopen, hclose, hnumber, hat, hbetween]
      | some text =>
          simp [hstage, hcode, hopen, hclose, hcolon, hnumber, hat, hbetween, h text rfl]

-----------------------------------------------------------------------------------------
-- Failures of reading
-----------------------------------------------------------------------------------------

namespace Grammar

/-- Holds of grammars whose names all lie on one line. -/
def HasPlainNames (grammar : Grammar) : Prop :=
  ∀ name ∈ grammar.names.toList, OneLine name

/-- Where all names are on one line, so is the name of any number; a number without a name shows as
nothing. -/
theorem HasPlainNames.nonterminalName {grammar : Grammar} (h : grammar.HasPlainNames) (a : Nat)
    : OneLine (grammar.nonterminalName a) := by
  rw [Grammar.nonterminalName, Array.getD_eq_getD_getElem?]
  cases hname : grammar.names[a]? with
  | none => decide
  | some name => exact h name (Array.mem_toList_iff.2 (Array.mem_of_getElem? hname))

/-- Where all names are on one line, so are the names of all symbols, as categories have words for
names. -/
theorem HasPlainNames.symbolName {grammar : Grammar} (h : grammar.HasPlainNames)
    (symbol : Symbol Nat)
    : OneLine (grammar.symbolName symbol) := by
  cases symbol with
  | terminal tag => exact tag.isWord_label.isLine
  | nonterminal a => exact h.nonterminalName a

/-- A compiled grammar has names on one line, as each of them is a word of its text. -/
theorem hasPlainNames_of_compile {text : String} {grammar : Grammar}
    (h : compile text = .ok grammar)
    : grammar.HasPlainNames := by
  intro name hname
  obtain ⟨a, hlt, rfl⟩ := Array.mem_iff_getElem.1 (Array.mem_toList_iff.1 hname)
  have hword := (name_of_compile h hlt).1
  rw [Grammar.nonterminalName, Array.getD_eq_getD_getElem?, Array.getElem?_eq_getElem hlt] at hword
  exact hword.isLine

/-- The built-in grammar has names on one line. -/
theorem hasPlainNames_arithmetic
    : arithmetic.HasPlainNames := by
  unfold HasPlainNames
  decide +kernel

end Grammar

/-- What the lexer reports is on one line, as it shows the character quoted. -/
theorem LexError.oneLine_details (error : LexError)
    : ∀ details ∈ error.diagnostic.details, OneLine details := by
  rintro _ ⟨⟩
  simp only [oneLine_append, oneLine_quoteChar, oneLine_toString]
  decide +kernel

/-- The report that there is no tree is on one line if the name of the label is, as the text of the
span is quoted. -/
theorem ParseError.oneLine_details_noParse (start stop : Nat) {label : String}
    (hlabel : OneLine label) (text : String)
    : ∀ details ∈ (ParseError.noParse start stop label text).diagnostic.details,
        OneLine details := by
  rintro _ ⟨⟩
  simp only [oneLine_append, oneLine_quote, hlabel]
  decide +kernel

namespace SynthesisError

variable {grammar : Grammar} {reductions : Reductions}

/-- The report of a node whose children cannot be combined is on one line, as it shows a name of the
grammar and structures of fragments. -/
theorem oneLine_details_of_inner (hnames : grammar.HasPlainNames) {a : Nat}
    {children : List Fragment} {error : SynthesisError}
    (h : Synthesis.inner grammar reductions a children = .error error)
    : ∀ details ∈ error.diagnostic.details, OneLine details := by
  have hlabel := hnames.nonterminalName a
  rw [Synthesis.inner_eq] at h
  split at h
  · cases h
    rintro _ ⟨⟩
    simp only [oneLine_append, hlabel]
    decide +kernel
  · split at h
    · cases h
    · cases h
      have hchildren := oneLine_intercalate oneLine_comma (Fragment.oneLine_inspectAll children)
      rintro _ ⟨⟩
      simp only [oneLine_append, hlabel, hchildren]
      decide +kernel

/-- The report of a result that is no value is on one line if the name of the label is. -/
theorem oneLine_details_notAValue {label : String} (hlabel : OneLine label) (result : Fragment)
    : ∀ details ∈ (notAValue label result).diagnostic.details, OneLine details := by
  rintro _ ⟨⟩
  simp only [oneLine_append, hlabel, result.oneLine_inspect]
  decide +kernel

end SynthesisError

/-- A failure of reading is reported on one line if the start label is on one.  The other
particulars quote what they show of the source, and name symbols of the grammar, which are words. -/
theorem Language.isUnbroken_message {language : Language} (hnames : language.grammar.HasPlainNames)
    (hstart : IsUnbroken language.start) {source : String} {error : Error}
    (h : Outcome language source (.error error))
    : IsUnbroken error.message := by
  refine Diagnostic.isUnbroken_message ?_
  cases h with
  | unrecognized htokens =>
      exact fun text htext => (LexError.oneLine_details _ text htext).isUnbroken
  | unknownLabel htokens hlabel =>
      rintro _ ⟨⟩
      have hopen : IsUnbroken "start label '" := by decide +kernel
      have hclose : IsUnbroken "' is not in the grammar" := by decide +kernel
      simp [hopen, hclose, hstart]
  | @noParse tokens label htokens hlabel hnone =>
      have hdetails := ParseError.oneLine_details_noParse 0 tokens.length (hnames.symbolName label)
      exact fun text htext => (hdetails _ text htext).isUnbroken
  | @shape tokens tree error htokens htree hsynthesis hshape =>
      have hspelled : ∀ token ∈ tokens.toArray, token.Spelled := by
        simpa using (tokenize_eq_ok_iff.1 htokens).spelled
      obtain ⟨label, -, hderivation⟩ := exists_derivation_of_firstTree htree
      rcases exists_inner_or_notAValue hspelled hderivation hsynthesis with
        ⟨a, children, hinner⟩ | ⟨result, rfl⟩
      · exact fun text htext =>
          (SynthesisError.oneLine_details_of_inner hnames hinner text htext).isUnbroken
      · have hdetails := SynthesisError.oneLine_details_notAValue (hnames.symbolName tree.label)
        exact fun text htext => (hdetails result text htext).isUnbroken

end Formulary
