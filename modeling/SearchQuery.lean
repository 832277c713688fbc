import SearchQuery.Context
import SearchQuery.Data
import SearchQuery.Decimal.Basic
import SearchQuery.Decimal.Text
import SearchQuery.Diagnostic
import SearchQuery.Document.Basic
import SearchQuery.Document.Compile
import SearchQuery.Document.Data
import SearchQuery.Expr.Basic
import SearchQuery.Expr.Equality
import SearchQuery.Expr.Parser
import SearchQuery.Expr.Text
import SearchQuery.Expr.Visits
import SearchQuery.Expr.Weight
import SearchQuery.FileTree.Basic
import SearchQuery.FileTree.Path
import SearchQuery.Language.Edits
import SearchQuery.Language.English
import SearchQuery.Language.Script
import SearchQuery.Language.Speller
import SearchQuery.Language.StopWords
import SearchQuery.NameTable
import SearchQuery.Number.Digits
import SearchQuery.Number.Floating
import SearchQuery.Pass.BackendShape
import SearchQuery.Pass.Basic
import SearchQuery.Pass.ExactPhrase
import SearchQuery.Pass.Fields
import SearchQuery.Pass.Identifiers
import SearchQuery.Pass.Inflection
import SearchQuery.Pass.Markers
import SearchQuery.Pass.Simplification
import SearchQuery.Pass.Sorting
import SearchQuery.Pass.Spelling
import SearchQuery.Pass.Stage
import SearchQuery.Pass.Synonyms
import SearchQuery.Processor
import SearchQuery.Proofs.Decimal.Text
import SearchQuery.Proofs.Document.AddedPhrases
import SearchQuery.Proofs.Document.Distribution
import SearchQuery.Proofs.Document.Filled
import SearchQuery.Proofs.Document.Matching
import SearchQuery.Proofs.Document.Operands
import SearchQuery.Proofs.Document.Refusals
import SearchQuery.Proofs.Document.Splicing
import SearchQuery.Proofs.Document.WrittenForm
import SearchQuery.Proofs.Except
import SearchQuery.Proofs.Pass.Conservation
import SearchQuery.Proofs.Pass.Expansion
import SearchQuery.Proofs.Pass.Fields
import SearchQuery.Proofs.Pass.Filled
import SearchQuery.Proofs.Pass.Finished
import SearchQuery.Proofs.Pass.Finishing
import SearchQuery.Proofs.Pass.Notes
import SearchQuery.Proofs.Pass.Preservation
import SearchQuery.Proofs.Pass.Rebuilding
import SearchQuery.Proofs.Pass.Retention
import SearchQuery.Proofs.Pass.Scope
import SearchQuery.Proofs.Pass.Settling
import SearchQuery.Proofs.Pass.Shaping
import SearchQuery.Proofs.Pass.Substitution
import SearchQuery.Proofs.Pass.Thinning
import SearchQuery.Proofs.Pass.Tidiness
import SearchQuery.Proofs.Pass.Widening
import SearchQuery.Proofs.Pass.Wording
import SearchQuery.Proofs.Query.BalancedTokens
import SearchQuery.Proofs.Query.Confinement
import SearchQuery.Proofs.Query.ExactPhrases
import SearchQuery.Proofs.Query.Exploration
import SearchQuery.Proofs.Query.Flattening
import SearchQuery.Proofs.Query.HiddenSigns
import SearchQuery.Proofs.Query.LostFields
import SearchQuery.Proofs.Query.OptionalPhrases
import SearchQuery.Proofs.Query.Signs
import SearchQuery.Proofs.Query.TypedTerms
import SearchQuery.Proofs.Settings.NormalForm
import SearchQuery.Proofs.Settings.Resolving
import SearchQuery.Proofs.Settings.RoundTrip
import SearchQuery.Proofs.Syntax.Grammar
import SearchQuery.Proofs.Syntax.Legibility
import SearchQuery.Proofs.Syntax.NormalForm
import SearchQuery.Proofs.Syntax.Parsing
import SearchQuery.Proofs.Syntax.PlainText
import SearchQuery.Proofs.Syntax.ReadTrees
import SearchQuery.Proofs.Syntax.ReservedWord
import SearchQuery.Proofs.Syntax.RoundTrip
import SearchQuery.Proofs.Syntax.Viability
import SearchQuery.Proofs.Text.Brackets
import SearchQuery.Proofs.Text.Lowercase
import SearchQuery.Proofs.Text.Words
import SearchQuery.Proofs.Token.Identifier
import SearchQuery.Proofs.Token.Lexemes
import SearchQuery.Proofs.Token.Reading
import SearchQuery.Proofs.Toml.Arrangement
import SearchQuery.Proofs.Toml.Documents
import SearchQuery.Proofs.Toml.Slots
import SearchQuery.Proofs.Toml.Strings
import SearchQuery.Proofs.Toml.Values
import SearchQuery.Proofs.Tree.Filled
import SearchQuery.Proofs.Tree.Nodes
import SearchQuery.Proofs.Tree.Offers
import SearchQuery.Proofs.Tree.Terms
import SearchQuery.Settings.Basic
import SearchQuery.Settings.Data
import SearchQuery.Settings.Dictionary
import SearchQuery.Settings.Load
import SearchQuery.Settings.Source
import SearchQuery.Settings.Warnings
import SearchQuery.SynonymSets
import SearchQuery.Text.Alphabetic
import SearchQuery.Text.Blank
import SearchQuery.Text.Brackets
import SearchQuery.Text.Case
import SearchQuery.Text.Casing
import SearchQuery.Text.Printable
import SearchQuery.Text.Quoted
import SearchQuery.Text.Ranges
import SearchQuery.Text.Stage
import SearchQuery.Token.Basic
import SearchQuery.Token.Characters
import SearchQuery.Token.Identifier
import SearchQuery.Token.Lexer
import SearchQuery.Toml.Quoted
import SearchQuery.Toml.Reader
import SearchQuery.Toml.Scalar
import SearchQuery.Toml.Slots
import SearchQuery.Toml.Writer
import SearchQuery.Proofs.Query.Literals
import SearchQuery.Proofs.Text.Unmatched
import SearchQuery.Proofs.Token.Tiling
import SearchQuery.Proofs.Pass.Resolution
import SearchQuery.Proofs.Settings.SharedTerms
import SearchQuery.Proofs.Language.Correction
import SearchQuery.Proofs.Query.IdentifierSpellings
import SearchQuery.Proofs.Query.Extraction
import SearchQuery.Proofs.Decimal.Size
import SearchQuery.Proofs.Settings.Warnings
import SearchQuery.Proofs.Syntax.Carets
import SearchQuery.Proofs.Text.Quoted
import SearchQuery.Proofs.Tree.Sameness
import SearchQuery.Proofs.Tree.Outline
import SearchQuery.Proofs.Pass.Repetition
import SearchQuery.Proofs.Syntax.Hints
import SearchQuery.Proofs.Language.Inflection
import SearchQuery.Proofs.Settings.WordLists
import SearchQuery.Proofs.Pass.Termination
import SearchQuery.Proofs.Pass.Traversals
