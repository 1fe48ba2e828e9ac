import ScriptLang.Source.WhiteSpace
import ScriptLang.Source.Line
import ScriptLang.Source.Cursor
import ScriptLang.Diagnostic.Render
import ScriptLang.Token.Tokenize
import ScriptLang.Program.Scope
import ScriptLang.Program.Printer
import ScriptLang.Log
import ScriptLang.Check
import ScriptLang.Proofs.Program.Extension
import ScriptLang.Proofs.Program.Tree
import ScriptLang.Proofs.Grammar.Forest
import ScriptLang.Proofs.Grammar.Planting
import ScriptLang.Proofs.Grammar.Nesting
import ScriptLang.Proofs.Token.Coherent
import ScriptLang.Proofs.Grammar.Infix
import ScriptLang.Proofs.Grammar.Climbing
import ScriptLang.Proofs.Grammar.Precedence
import ScriptLang.Proofs.Grammar.Steps
import ScriptLang.Proofs.Grammar.Leaves
import ScriptLang.Proofs.Grammar.Acceptance
import ScriptLang.Proofs.Program.StatementTree
import ScriptLang.Proofs.Grammar.Sentence
import ScriptLang.Proofs.Program.Assembly
import ScriptLang.Proofs.Grammar.Whole
import ScriptLang.Proofs.Program.Chain
import ScriptLang.Proofs.Program.Ascent
import ScriptLang.Proofs.Typing.Checker
import ScriptLang.Proofs.Typing.Inference
import ScriptLang.Proofs.Typing.Refinement
import ScriptLang.Proofs.Fault.Reading
import ScriptLang.Proofs.Fault.Checking
import ScriptLang.Proofs.Fault.Unreachable
import ScriptLang.Proofs.Program.Closed
import ScriptLang.Proofs.Numeric.Decimal
import ScriptLang.Proofs.Numeric.Binary64
import ScriptLang.Proofs.Token.Pieces
import ScriptLang.Proofs.Token.Printable
import ScriptLang.Proofs.Program.Unplaced
import ScriptLang.Proofs.Typing.Unplaced
import ScriptLang.Proofs.Program.Text
import ScriptLang.Proofs.Program.Separation
import ScriptLang.Proofs.Grammar.Spelling
import ScriptLang.Proofs.Grammar.Printing
import ScriptLang.Proofs.RoundTrip
import ScriptLang.Proofs.Program.Descent
import ScriptLang.Proofs.Program.Frontier
import ScriptLang.Proofs.Program.Shape
import ScriptLang.Proofs.Typing.Command
import ScriptLang.Proofs.Typing.CommandTree
import ScriptLang.Proofs.Typing.Agreement
import ScriptLang.Proofs.Typing.History
import ScriptLang.Proofs.Typing.DefiniteAssignment
import ScriptLang.Proofs.Token.LineWise
import ScriptLang.Proofs.Token.Indexed
import ScriptLang.Proofs.Token.Verdict
import ScriptLang.Proofs.Grammar.Concatenation
import ScriptLang.Proofs.Grammar.Phrase
import ScriptLang.Proofs.Grammar.Recognition
import ScriptLang.Proofs.Grammar.Conservation
import ScriptLang.Proofs.Grammar.Replay
import ScriptLang.Proofs.Grammar.Substitution
import ScriptLang.Proofs.Source.Place
import ScriptLang.Proofs.Source.Bytes
import ScriptLang.Proofs.Token.Laid
import ScriptLang.Proofs.Token.Spans
import ScriptLang.Proofs.Twin.Reading
import ScriptLang.Proofs.Twin.Checking
import ScriptLang.Proofs.Diagnostic.Caret
import ScriptLang.Proofs.Diagnostic.Pointing
import ScriptLang.Proofs.LineBreaks
import ScriptLang.Proofs.Program.Bare
import ScriptLang.Proofs.Twin.Layout
import ScriptLang.Proofs.Program.Links
import ScriptLang.Proofs.Program.Lookup
import ScriptLang.Proofs.Program.Rebound
import ScriptLang.Proofs.Program.Retagged
import ScriptLang.Proofs.Program.Postorder
import ScriptLang.Proofs.Typing.Shadowing
import ScriptLang.Proofs.Typing.Frame
import ScriptLang.Proofs.Typing.Tags
import ScriptLang.Proofs.Typing.Interruption
import ScriptLang.Proofs.Typing.Coverage
import ScriptLang.Proofs.Token.Respelling
import ScriptLang.Proofs.Typing.Footprint
import ScriptLang.Proofs.Typing.Registration
import ScriptLang.Proofs.Typing.Commutation
import ScriptLang.Proofs.Typing.Ascription
import ScriptLang.Proofs.Grammar.Interruption
import ScriptLang.Proofs.Token.Grouping
import ScriptLang.Proofs.Token.Words
import ScriptLang.Proofs.Token.Consistency
import ScriptLang.Proofs.Chronicle
import ScriptLang.Proofs.NestingLimit
