import Prose.CommandLine
import Prose.Main
import Prose.Proofs.Chain.Checked
import Prose.Proofs.Chain.Simulation
import Prose.Proofs.Eval.OnScope
import Prose.Proofs.Eval.ScopeNames
import Prose.Proofs.Text.Bytes
import Prose.Proofs.Token.Scanning
import Prose.Proofs.Layout.SourceLines
import Prose.Proofs.Layout.SourceMap
import Prose.Proofs.Token.Spelling
import Prose.Proofs.Grammar.Reading
import Prose.Proofs.Grammar.Clauses
import Prose.Proofs.Grammar.Expressions
import Prose.Proofs.Grammar.Statements
import Prose.Proofs.Grammar.RoundTrip
import Prose.Proofs.Chain.Ahead
import Prose.Proofs.Chain.Walking
import Prose.Proofs.Eval.Script
import Prose.Proofs.Value.Equality
import Prose.Proofs.Eval.Steady
import Prose.Proofs.Tree.Nodes
import Prose.Proofs.Eval.FreshFaults
import Prose.Proofs.Eval.FaultPlaces
import Prose.Proofs.Layout.Indented
import Prose.Proofs.Layout.Alternatives
import Prose.Proofs.Grammar.InBlock
import Prose.Proofs.Grammar.Progress
import Prose.Proofs.Caseless.Program
import Prose.Proofs.Eval.Contained
import Prose.Proofs.Eval.CallLimit
import Prose.Proofs.Layout.Joined
import Prose.Proofs.Layout.LineTokens
import Prose.Proofs.Eval.Pieces
import Prose.Proofs.Eval.SharedStream
import Prose.Proofs.Eval.ExitSignal
import Prose.Proofs.Eval.Endings
import Prose.Proofs.Eval.LoopExits
import Prose.Proofs.Eval.NearestLoop
import Prose.Proofs.Eval.NamedArguments
import Prose.Proofs.Eval.Shadowing
import Prose.Proofs.Grammar.Flawless
import Prose.Proofs.Grammar.Gathering
import Prose.Proofs.Grammar.Spans
import Prose.Proofs.Decimal.Integers
import Prose.Proofs.Value.Shown
import Prose.Proofs.Eval.Numbers
import Prose.Proofs.Grammar.Integers
import Prose.Proofs.Diagnostic.Carets
import Prose.Proofs.Token.Patterns
import Prose.Proofs.Eval.InputLines
import Prose.Proofs.Eval.LineSupplies
import Prose.Proofs.Layout.LineSizes
