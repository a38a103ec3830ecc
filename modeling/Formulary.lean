import Formulary.Code.Statement
import Formulary.Code.Render
import Formulary.Main
import Formulary.Parse.Trees
import Formulary.Parse.Forest
import Formulary.Tree
import Formulary.Proofs.Grammar.Edges
import Formulary.Proofs.Grammar.Chains
import Formulary.Proofs.Grammar.Sweeps
import Formulary.Proofs.Grammar.Numbering
import Formulary.Proofs.Grammar.UnitCycle
import Formulary.Proofs.Grammar.Renumbering
import Formulary.Proofs.Parse.Derivation
import Formulary.Proofs.Parse.Enumeration
import Formulary.Proofs.Parse.Forest
import Formulary.Proofs.Parse.Schedule
import Formulary.Proofs.Parse.Words
import Formulary.Proofs.Parse.Size
import Formulary.Proofs.Parse.Search
import Formulary.Proofs.Parse.Comparison
import Formulary.Proofs.Parse.Extension
import Formulary.Proofs.Parse.RuleOrder
import Formulary.Proofs.Text.Blank
import Formulary.Proofs.Text.Lines
import Formulary.Proofs.Code.Texts
import Formulary.Proofs.Code.Layout
import Formulary.Proofs.Grammar.RoundTrip
import Formulary.Proofs.Grammar.Lines
import Formulary.Proofs.Tree.Outline
import Formulary.Proofs.Token.Pattern
import Formulary.Proofs.Token.Lexing
import Formulary.Proofs.Token.Operand
import Formulary.Proofs.Token.Reading
import Formulary.Proofs.Token.Neighbours
import Formulary.Proofs.Token.Greedy
import Formulary.Proofs.Synthesis.Failure
import Formulary.Proofs.Language.Outcome
import Formulary.Proofs.Language.Lookups
import Formulary.Proofs.Arithmetic.Rules
import Formulary.Proofs.Arithmetic.Labels
import Formulary.Proofs.Arithmetic.Nesting
import Formulary.Proofs.Arithmetic.Unambiguous
import Formulary.Proofs.Arithmetic.Phrase
import Formulary.Proofs.Arithmetic.Synthesis
import Formulary.Proofs.Arithmetic.Spelling
import Formulary.Proofs.Arithmetic.Precedence
import Formulary.Proofs.Arithmetic.Reading
import Formulary.Proofs.Arithmetic.FirstTree
import Formulary.Proofs.Expr.Canonical
import Formulary.Proofs.Expr.Conservation
import Formulary.Proofs.Expr.RoundTrip
import Formulary.Proofs.Expr.NormalForm
import Formulary.Proofs.Expr.Reduction
import Formulary.Proofs.Synthesis.Contraction
import Formulary.Proofs.Tree.PostOrder
import Formulary.Proofs.Text.Quoted
import Formulary.Proofs.Grammar.Names
import Formulary.Proofs.Grammar.Interning
import Formulary.Proofs.Grammar.Catalog
import Formulary.Proofs.Parse.Lookups
import Formulary.Proofs.Tree.Print
import Formulary.Proofs.Ambiguous.Bracketing
import Formulary.Proofs.Ambiguous.Rules
import Formulary.Proofs.Ambiguous.Chain
import Formulary.Proofs.Expr.Binding
import Formulary.Proofs.CommandLine.Reports
import Formulary.Proofs.Synthesis.Words
import Formulary.Proofs.CommandLine.Modes
import Formulary.Proofs.CommandLine.Batch
import Formulary.Proofs.Tree.Tiling
import Formulary.Proofs.Code.Brackets
import Formulary.Proofs.Code.Comments
import Formulary.Proofs.Code.Sections
import Formulary.Proofs.CommandLine.Arguments
