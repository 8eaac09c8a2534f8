import Highlight.Batch
import Highlight.Catalogue.Entry
import Highlight.Catalogue.Loading
import Highlight.Catalogue.LookupTable
import Highlight.Catalogue.Registry
import Highlight.Command.Help
import Highlight.Command.Options
import Highlight.Command.Run
import Highlight.Compilation.Binding
import Highlight.Compilation.Body
import Highlight.Compilation.Region
import Highlight.Compilation.Session
import Highlight.Config
import Highlight.Dialect
import Highlight.Document.Basic
import Highlight.Document.Printer
import Highlight.Document.Reader
import Highlight.Failure
import Highlight.Fault
import Highlight.FileTree
import Highlight.Job
import Highlight.Language
import Highlight.Log
import Highlight.Main
import Highlight.Number.Basic
import Highlight.Number.Shortest
import Highlight.Number.Word
import Highlight.Paint
import Highlight.Path
import Highlight.Pattern.Basic
import Highlight.Pattern.Expectation
import Highlight.Pattern.Grammar
import Highlight.Pattern.Reader
import Highlight.Pattern.Sample
import Highlight.Regex.Basic
import Highlight.Regex.Matching
import Highlight.Regex.Name
import Highlight.Regex.Reader
import Highlight.Regex.Source
import Highlight.Report
import Highlight.Statement
import Highlight.Style.Color
import Highlight.Style.Sheet
import Highlight.SubLexer.Basic
import Highlight.SubLexer.Machine
import Highlight.Table
import Highlight.Text.Basic
import Highlight.Text.Blank
import Highlight.Text.Case
import Highlight.Text.CaseTable
import Highlight.Text.NameTable
import Highlight.Text.Quoted
import Highlight.Proofs.Compilation.Binding
import Highlight.Proofs.Compilation.Blocks
import Highlight.Proofs.Compilation.RuleOrder
import Highlight.Proofs.Pattern.Enumeration
import Highlight.Proofs.Pattern.Members
import Highlight.Proofs.Pattern.Search
import Highlight.Proofs.Pattern.Budget
import Highlight.Proofs.Number.Rounding
import Highlight.Proofs.Compilation.Samples
import Highlight.Proofs.Regex.Reach
import Highlight.Proofs.SubLexer.Stream
import Highlight.Proofs.SubLexer.Names
import Highlight.Proofs.SubLexer.Lossless
import Highlight.Proofs.Compilation.EmittedPatterns
import Highlight.Proofs.Compilation.Alike
import Highlight.Proofs.Compilation.Session
import Highlight.Proofs.Compilation.History
import Highlight.Proofs.Regex.Reference
import Highlight.Proofs.Regex.Rereading
import Highlight.Proofs.SubLexer.Expansion
import Highlight.Proofs.SubLexer.Joined
import Highlight.Proofs.SubLexer.Pushdown
import Highlight.Proofs.SubLexer.Unrolled
import Highlight.Proofs.Inlining.Levels
import Highlight.Proofs.Inlining.Flattened
import Highlight.Proofs.Inlining.Lexers
import Highlight.Proofs.Inlining.FirstTokens
import Highlight.Proofs.Inlining.Regions
import Highlight.Proofs.Inlining.Sessions
import Highlight.Proofs.Inlining.Compiling
import Highlight.Proofs.Inlining.Languages
import Highlight.Proofs.Compilation.Errors
import Highlight.Proofs.Compilation.Depth
import Highlight.Proofs.Catalogue.References
import Highlight.Proofs.Regex.Bounds
import Highlight.Proofs.Regex.Stripping
import Highlight.Proofs.Regex.WithoutCaptures
import Highlight.Proofs.Dialect.GroupNumbers
import Highlight.Proofs.Regex.Stretch
import Highlight.Proofs.SubLexer.GroupTypes
import Highlight.Proofs.Compilation.Breakdown
import Highlight.Proofs.Compilation.Sites
import Highlight.Proofs.Pattern.Denotation
import Highlight.Proofs.Dialect.Splitting
import Highlight.Proofs.Pattern.Reading
import Highlight.Proofs.Pattern.Terminals
import Highlight.Proofs.Dialect.Converted
import Highlight.Proofs.Pattern.Context
import Highlight.Proofs.Dialect.Entries
import Highlight.Proofs.Regex.EmptyText
import Highlight.Proofs.SubLexer.Progress
import Highlight.Proofs.Compilation.Interleaving
import Highlight.Proofs.Batch.Files
import Highlight.Proofs.Catalogue.LookupTable
import Highlight.Proofs.Batch.Languages
import Highlight.Proofs.Text.Digits
import Highlight.Proofs.Pattern.Spelling
import Highlight.Proofs.Pattern.Reprinted
import Highlight.Proofs.Batch.Confinement
import Highlight.Proofs.Batch.Collisions
import Highlight.Proofs.Command.Problems
import Highlight.Proofs.Command.Rerun
import Highlight.Proofs.SubLexer.TokenTypes
import Highlight.Proofs.Compilation.TokenOrigins
import Highlight.Proofs.Compilation.SourceLines
import Highlight.Proofs.Catalogue.Histories
import Highlight.Proofs.Catalogue.WrittenTable
import Highlight.Proofs.Text.Replacing
import Highlight.Proofs.Report.Snippet
import Highlight.Proofs.Compilation.Positions
import Highlight.Proofs.Text.Words
import Highlight.Proofs.Style.Sheet
import Highlight.Proofs.Dialect.LiteralOpenings
import Highlight.Proofs.Dialect.Equivalences
import Highlight.Proofs.Pattern.Derivation
import Highlight.Proofs.Pattern.Seams
import Highlight.Proofs.Pattern.Sets
import Highlight.Proofs.Dialect.Quoting
import Highlight.Proofs.Pattern.Renumbered
import Highlight.Proofs.Compilation.Delimiters
import Highlight.Proofs.Pattern.Trimmed
import Highlight.Proofs.Compilation.LineLeads
import Highlight.Proofs.Compilation.Exits
import Highlight.Proofs.Report.Texts
import Highlight.Proofs.Compilation.Enclosed
import Highlight.Compilation.Walker
import Highlight.Proofs.Compilation.Walks
import Highlight.Proofs.Pattern.ReadAlike
import Highlight.Proofs.Pattern.Limits
import Highlight.Proofs.Compilation.GroupSamples
import Highlight.Proofs.Regex.Sources
import Highlight.Proofs.Compilation.NamedGroups
import Highlight.Proofs.Pattern.LeastCounts
import Highlight.Proofs.Style.Inheritance
import Highlight.Proofs.Number.Decimals
import Highlight.Proofs.Document.Values
import Highlight.Proofs.Command.Arguments
import Highlight.Proofs.Config
import Highlight.Proofs.Command.Settings
import Highlight.Proofs.Document.KeyOrder
import Highlight.Proofs.Catalogue.RuleTable
import Highlight.Proofs.Catalogue.Encoding
import Highlight.Proofs.Style.Order
import Highlight.Proofs.Pattern.Numbers
