import Tacit.Text.Quoted
import Tacit.Text.Blank
import Tacit.Number.Decimal
import Tacit.Number.Whole
import Tacit.TypeDesc.Fit
import Tacit.Fault
import Tacit.Pattern.Search
import Tacit.Pattern.Notation
import Tacit.Token.Lexer
import Tacit.Expr.Source
import Tacit.Reading
import Tacit.FileSystem.Glob
import Tacit.Lint.Checks
import Tacit.Lint.Report
import Tacit.Diagnostic.Snippet
import Tacit.Help.Guide
import Tacit.Profile.Label
import Tacit.LineLog
import Tacit.Repl
import Tacit.Version
import Tacit.Text.Lines
import Tacit.Log
import Tacit.Profile.Trace
import Tacit.Profile.Span
import Tacit.Profile.Callgrind
import Tacit.Profiler
import Tacit.Host
import Tacit.Text.Distance
import Tacit.Setting
import Tacit.Flag
import Tacit.Setting.Document
import Tacit.Settings
import Tacit.Command
import Tacit.Console
import Tacit.Command.Shell
import Tacit.Command.Run
import Tacit.Command.Format
import Tacit.Command.Lint
import Tacit.Command.Doc
import Tacit.CommandLine
import Tacit.CommandLine.Inputs
import Tacit.Main
import Tacit.Proofs.Tables
import Tacit.Proofs.Pieces
import Tacit.Proofs.Glyphs
import Tacit.Proofs.Preferred
import Tacit.Proofs.Collecting
import Tacit.Proofs.Composing
import Tacit.Proofs.Origins
import Tacit.Proofs.Words
import Tacit.Proofs.Trees
import Tacit.Proofs.ReadTrees
import Tacit.Proofs.Rendering
import Tacit.Proofs.Fusing
import Tacit.Proofs.Reread
import Tacit.Proofs.RoundTrip
import Tacit.Proofs.Made
import Tacit.Proofs.SafeBuiltins
import Tacit.Proofs.SafeApply
import Tacit.Proofs.Safety
import Tacit.Proofs.Entering
import Tacit.Proofs.Raising
import Tacit.Proofs.Placing
import Tacit.Proofs.ArityFaults
import Tacit.Proofs.Following
import Tacit.Proofs.Blind
import Tacit.Proofs.DeadStores
import Tacit.Proofs.Findings
import Tacit.Proofs.OneWay
import Tacit.Proofs.Untabled
import Tacit.Proofs.Composition
import Tacit.Proofs.Currying
import Tacit.Proofs.Judging
import Tacit.Proofs.CallTrees
import Tacit.Proofs.Profiling
import Tacit.Proofs.ProfileFormat
import Tacit.Proofs.ProfileTrees
import Tacit.Proofs.Annotating
import Tacit.Proofs.Relocating
import Tacit.Proofs.Joining
import Tacit.Proofs.Tiling
import Tacit.Proofs.InTurn
import Tacit.Proofs.LineByLine
import Tacit.Proofs.Layers
import Tacit.Proofs.Precision
import Tacit.Proofs.Contracts
import Tacit.Proofs.Mismatches
import Tacit.Proofs.Nesting
import Tacit.Proofs.Lines
import Tacit.Proofs.Carets
import Tacit.Proofs.Reenabling
import Tacit.Proofs.Spelling
import Tacit.Proofs.Exactness
import Tacit.Proofs.Stretches
import Tacit.Proofs.Characters
import Tacit.Proofs.Searching
import Tacit.Proofs.Equality
import Tacit.Proofs.Splits
import Tacit.Proofs.Buffering
import Tacit.Proofs.Differences
import Tacit.Proofs.Files
import Tacit.Proofs.InPlace
import Tacit.Proofs.Positions
