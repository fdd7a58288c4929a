import PineCheck.Analysis
import PineCheck.BuiltinFile
import PineCheck.Check
import PineCheck.Check.Compatibility
import PineCheck.Check.Continuation
import PineCheck.Check.Declaration
import PineCheck.Check.Naming
import PineCheck.Check.ObjectState
import PineCheck.Check.Shadowing
import PineCheck.Check.Signatures
import PineCheck.CommandLine
import PineCheck.Decimal.Binary
import PineCheck.Decimal.Notation
import PineCheck.Diagnostic.Finding
import PineCheck.Diagnostic.ParseError
import PineCheck.Diagnostic.Rule
import PineCheck.Diagnostic.Severity
import PineCheck.Documentation
import PineCheck.Json.Text
import PineCheck.Json.Value
import PineCheck.Language.Function
import PineCheck.Language.Name
import PineCheck.Language.Signature
import PineCheck.Language.ValueType
import PineCheck.Main
import PineCheck.Parser.Expression
import PineCheck.Parser.Lookahead
import PineCheck.Parser.Options
import PineCheck.Parser.State
import PineCheck.Parser.Statement
import PineCheck.Preferences
import PineCheck.Proofs.Activations
import PineCheck.Proofs.Agreement
import PineCheck.Proofs.Brackets
import PineCheck.Proofs.Breaks
import PineCheck.Proofs.Budget
import PineCheck.Proofs.CallHeight
import PineCheck.Proofs.CallOrder
import PineCheck.Proofs.CodeTokens
import PineCheck.Proofs.CommentLines
import PineCheck.Proofs.Containment
import PineCheck.Proofs.Coordinates
import PineCheck.Proofs.Declarations
import PineCheck.Proofs.Decomposition
import PineCheck.Proofs.DepthCount
import PineCheck.Proofs.Documented
import PineCheck.Proofs.Expressions
import PineCheck.Proofs.ForwardPass
import PineCheck.Proofs.Indentation
import PineCheck.Proofs.Indexed.Arguments
import PineCheck.Proofs.Indexed.CallSites
import PineCheck.Proofs.Indexed.Calls
import PineCheck.Proofs.Indexed.Lines
import PineCheck.Proofs.Indexed.Location
import PineCheck.Proofs.Indexed.MaskedBytes
import PineCheck.Proofs.Indexed.Objects
import PineCheck.Proofs.Indexed.Operations
import PineCheck.Proofs.Introductions
import PineCheck.Proofs.Labels
import PineCheck.Proofs.Laminar
import PineCheck.Proofs.Lexing
import PineCheck.Proofs.Likeness
import PineCheck.Proofs.LineEndings
import PineCheck.Proofs.Locations
import PineCheck.Proofs.Lockstep
import PineCheck.Proofs.Lookahead
import PineCheck.Proofs.LooseCalls
import PineCheck.Proofs.MaskedScript
import PineCheck.Proofs.Masking
import PineCheck.Proofs.Nesting
import PineCheck.Proofs.Omissions
import PineCheck.Proofs.OpenCall
import PineCheck.Proofs.Outline
import PineCheck.Proofs.Parallel
import PineCheck.Proofs.Parsing
import PineCheck.Proofs.Partition
import PineCheck.Proofs.Passage
import PineCheck.Proofs.Pieces
import PineCheck.Proofs.Place
import PineCheck.Proofs.PlainHeads
import PineCheck.Proofs.Precedence
import PineCheck.Proofs.Printing
import PineCheck.Proofs.Progress
import PineCheck.Proofs.Quotation
import PineCheck.Proofs.Readers
import PineCheck.Proofs.Recursion
import PineCheck.Proofs.Renaming
import PineCheck.Proofs.Reporting
import PineCheck.Proofs.RoundTrip
import PineCheck.Proofs.RuleTrees
import PineCheck.Proofs.Safety
import PineCheck.Proofs.Script
import PineCheck.Proofs.Shadowing
import PineCheck.Proofs.ShortTitles
import PineCheck.Proofs.Sites
import PineCheck.Proofs.Slices
import PineCheck.Proofs.SortedFields
import PineCheck.Proofs.Statements
import PineCheck.Proofs.Suggestions
import PineCheck.Proofs.Surroundings
import PineCheck.Proofs.Termination
import PineCheck.Proofs.TextSites
import PineCheck.Proofs.Unfolding
import PineCheck.Proofs.Verdict
import PineCheck.Report.Console
import PineCheck.Report.Record
import PineCheck.Rulebook
import PineCheck.Run
import PineCheck.Text.Alphabetic
import PineCheck.Text.Blank
import PineCheck.Text.CallSite
import PineCheck.Text.CodeRange
import PineCheck.Text.Digit
import PineCheck.Text.GraphemeExtend
import PineCheck.Text.Line
import PineCheck.Text.Mask
import PineCheck.Text.Position
import PineCheck.Text.Quoted
import PineCheck.Text.Slice
import PineCheck.Text.Unprintable
import PineCheck.Token
import PineCheck.Token.Lexer
import PineCheck.Toml.Document
import PineCheck.Toml.Quoted
import PineCheck.Tree
