import LpcStyle.Arena.Bracketed
import LpcStyle.Arena.Builder
import LpcStyle.Arena.Cell
import LpcStyle.Arena.Declaration
import LpcStyle.Arena.Expression
import LpcStyle.Arena.Parse
import LpcStyle.Arena.Sequence
import LpcStyle.Arena.Statement
import LpcStyle.Command.Files
import LpcStyle.Command.Run
import LpcStyle.Config.Flags
import LpcStyle.Config.Toml
import LpcStyle.Config.Value
import LpcStyle.Format
import LpcStyle.Grammar.Bracketed
import LpcStyle.Grammar.Declaration
import LpcStyle.Grammar.Directive
import LpcStyle.Grammar.Expression
import LpcStyle.Grammar.Failure
import LpcStyle.Grammar.Operators
import LpcStyle.Grammar.Parse
import LpcStyle.Grammar.Reading
import LpcStyle.Grammar.Rules
import LpcStyle.Grammar.Sequence
import LpcStyle.Grammar.Statement
import LpcStyle.Layout.Doc
import LpcStyle.Layout.Lines
import LpcStyle.Layout.Render
import LpcStyle.Main
import LpcStyle.Proofs.Arena.Bracketed
import LpcStyle.Proofs.Arena.Builds
import LpcStyle.Proofs.Arena.Declaration
import LpcStyle.Proofs.Arena.Expression
import LpcStyle.Proofs.Arena.Forest
import LpcStyle.Proofs.Arena.Grown
import LpcStyle.Proofs.Arena.Owned
import LpcStyle.Proofs.Arena.Parks
import LpcStyle.Proofs.Arena.Parse
import LpcStyle.Proofs.Arena.Sequence
import LpcStyle.Proofs.Arena.Statement
import LpcStyle.Proofs.Command.Run
import LpcStyle.Proofs.Format.Conservation
import LpcStyle.Proofs.Format.Infallible
import LpcStyle.Proofs.Format.Normal
import LpcStyle.Proofs.Format.Operators
import LpcStyle.Proofs.Format.Reflow
import LpcStyle.Proofs.Format.Settings
import LpcStyle.Proofs.Format.Verbatim
import LpcStyle.Proofs.Grammar.Bracketed
import LpcStyle.Proofs.Grammar.Carries
import LpcStyle.Proofs.Grammar.Climb
import LpcStyle.Proofs.Grammar.Comments
import LpcStyle.Proofs.Grammar.Cover
import LpcStyle.Proofs.Grammar.Declaration
import LpcStyle.Proofs.Grammar.Depth
import LpcStyle.Proofs.Grammar.Draws
import LpcStyle.Proofs.Grammar.Draws.Expression
import LpcStyle.Proofs.Grammar.Draws.Statement
import LpcStyle.Proofs.Grammar.Echo
import LpcStyle.Proofs.Grammar.Echo.Expression
import LpcStyle.Proofs.Grammar.Echo.File
import LpcStyle.Proofs.Grammar.Echo.Statement
import LpcStyle.Proofs.Grammar.Expression
import LpcStyle.Proofs.Grammar.InStep
import LpcStyle.Proofs.Grammar.InStep.Bracketed
import LpcStyle.Proofs.Grammar.InStep.Declaration
import LpcStyle.Proofs.Grammar.InStep.Expression
import LpcStyle.Proofs.Grammar.InStep.Parse
import LpcStyle.Proofs.Grammar.InStep.Statement
import LpcStyle.Proofs.Grammar.Places
import LpcStyle.Proofs.Grammar.Reads
import LpcStyle.Proofs.Grammar.Runs
import LpcStyle.Proofs.Grammar.Spends
import LpcStyle.Proofs.Grammar.Spends.Expression
import LpcStyle.Proofs.Grammar.Spends.Statement
import LpcStyle.Proofs.Grammar.Statement
import LpcStyle.Proofs.Grammar.Term
import LpcStyle.Proofs.Grammar.Termination
import LpcStyle.Proofs.Grammar.Typeset
import LpcStyle.Proofs.Grammar.Typeset.File
import LpcStyle.Proofs.Grammar.Typeset.Sound
import LpcStyle.Proofs.Grammar.Walks
import LpcStyle.Proofs.Grammar.Walks.Bracketed
import LpcStyle.Proofs.Grammar.Walks.Declaration
import LpcStyle.Proofs.Grammar.Walks.Expression
import LpcStyle.Proofs.Grammar.Walks.Parse
import LpcStyle.Proofs.Grammar.Walks.Statement
import LpcStyle.Proofs.Grammar.Walks.Tree
import LpcStyle.Proofs.Layout.Fixed
import LpcStyle.Proofs.Layout.Ink
import LpcStyle.Proofs.Layout.Layouts
import LpcStyle.Proofs.Style.Alike
import LpcStyle.Proofs.Style.Comment
import LpcStyle.Proofs.Style.Even
import LpcStyle.Proofs.Style.Ink
import LpcStyle.Proofs.Style.Reprint
import LpcStyle.Proofs.Style.Typeset
import LpcStyle.Proofs.Style.Typeset.File
import LpcStyle.Proofs.Style.Within
import LpcStyle.Proofs.Text.Closing
import LpcStyle.Proofs.Text.Finish
import LpcStyle.Proofs.Text.Gaps
import LpcStyle.Proofs.Text.Location
import LpcStyle.Proofs.Text.Rows
import LpcStyle.Proofs.Text.Sieve
import LpcStyle.Proofs.Text.Words
import LpcStyle.Proofs.Token.Advance
import LpcStyle.Proofs.Token.BlankLines
import LpcStyle.Proofs.Token.Calls
import LpcStyle.Proofs.Token.Enclosures
import LpcStyle.Proofs.Token.Faults
import LpcStyle.Proofs.Token.KindSet
import LpcStyle.Proofs.Token.Linked
import LpcStyle.Proofs.Token.Literal
import LpcStyle.Proofs.Token.Numbers
import LpcStyle.Proofs.Token.Operators
import LpcStyle.Proofs.Token.Pairing
import LpcStyle.Proofs.Token.Progress
import LpcStyle.Proofs.Token.Spelling
import LpcStyle.Proofs.Token.Tiling
import LpcStyle.Proofs.Token.Whole
import LpcStyle.Proofs.Token.Written
import LpcStyle.Proofs.Tree.Allocated
import LpcStyle.Proofs.Tree.Comments
import LpcStyle.Proofs.Tree.Legible
import LpcStyle.Proofs.Tree.Lookup
import LpcStyle.Proofs.Tree.Nested
import LpcStyle.Proofs.Tree.Parts
import LpcStyle.Proofs.Tree.Paths
import LpcStyle.Proofs.Tree.Unplaced
import LpcStyle.Report
import LpcStyle.Store
import LpcStyle.Style.Collection
import LpcStyle.Style.Comment
import LpcStyle.Style.Expression
import LpcStyle.Style.Options
import LpcStyle.Style.Place
import LpcStyle.Style.Printer
import LpcStyle.Style.Statement
import LpcStyle.Text.Blank
import LpcStyle.Text.CodeRange
import LpcStyle.Text.Emoji
import LpcStyle.Text.Ligature
import LpcStyle.Text.Location
import LpcStyle.Text.Mark
import LpcStyle.Text.Quoted
import LpcStyle.Text.Span
import LpcStyle.Text.Width
import LpcStyle.Text.Width.Bounds
import LpcStyle.Text.WordChar
import LpcStyle.Token.Basic
import LpcStyle.Token.Kind
import LpcStyle.Token.KindSet
import LpcStyle.Token.Lexer
import LpcStyle.Token.Pattern
import LpcStyle.Token.Stream
import LpcStyle.Token.Words
import LpcStyle.Tree.Forest
import LpcStyle.Tree.Listing
import LpcStyle.Tree.Lookup
import LpcStyle.Tree.Node
import LpcStyle.Tree.Outline
import LpcStyle.Tree.Shape
