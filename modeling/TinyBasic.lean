import TinyBasic.Text.Printable
import TinyBasic.Text.Escape
import TinyBasic.Text.Levenshtein
import TinyBasic.Token
import TinyBasic.Diagnostic
import TinyBasic.Token.Stream
import TinyBasic.Token.Window
import TinyBasic.Syntax
import TinyBasic.Syntax.Parser
import TinyBasic.Target.Buffer
import TinyBasic.Target.Fragments
import TinyBasic.Compile
import TinyBasic.File.Path
import TinyBasic.File.Failure
import TinyBasic.Text.Utf8
import TinyBasic.Text.Lines
import TinyBasic.File.Disk
import TinyBasic.Text.Numeral
import TinyBasic.Text.Style
import TinyBasic.Command.Args
import TinyBasic.Command
import TinyBasic.Command.Standard
import TinyBasic.Main
import TinyBasic.Proofs.Grammar
import TinyBasic.Proofs.Scoping
import TinyBasic.Proofs.Guard
import TinyBasic.Proofs.Lookahead
import TinyBasic.Proofs.Parse.Sound
import TinyBasic.Proofs.Parse.Complete
import TinyBasic.Proofs.Emission
import TinyBasic.Proofs.Unambiguous
import TinyBasic.Proofs.Spelling
import TinyBasic.Proofs.Translation
import TinyBasic.Proofs.C.Lexer
import TinyBasic.Proofs.C.Expression
import TinyBasic.Proofs.C.Reading
import TinyBasic.Proofs.C.Value
import TinyBasic.Proofs.Arithmetic
import TinyBasic.Proofs.Buffer
import TinyBasic.Proofs.Lines
import TinyBasic.Proofs.Lexemes
import TinyBasic.Proofs.Reach
import TinyBasic.Proofs.CommandLine
import TinyBasic.Proofs.Command
import TinyBasic.Proofs.ErrorOrder
import TinyBasic.Proofs.Frame
import TinyBasic.Proofs.C.Format
import TinyBasic.Proofs.Printing
import TinyBasic.Proofs.Walk
import TinyBasic.Proofs.Progress
import TinyBasic.Proofs.Depth
import TinyBasic.Proofs.EditDistance
import TinyBasic.Proofs.Positions
import TinyBasic.Proofs.Recovery
import TinyBasic.Proofs.Suggestions
