import BitMachine.Binary64.Basic
import BitMachine.Binary64.Decimal
import BitMachine.CommandLine.Arguments
import BitMachine.CommandLine.Folder
import BitMachine.CommandLine.Job
import BitMachine.CommandLine.Usage
import BitMachine.Failure
import BitMachine.Fault
import BitMachine.Grammar.Automaton.Parser
import BitMachine.Grammar.Automaton.Payload
import BitMachine.Grammar.Automaton.Production
import BitMachine.Grammar.Automaton.State
import BitMachine.Grammar.Cursor
import BitMachine.Grammar.Descent
import BitMachine.Grammar.Diagnostic
import BitMachine.Grammar.FrontEnd
import BitMachine.Grammar.Keyword
import BitMachine.Graph.Basic
import BitMachine.Graph.Json
import BitMachine.Integer
import BitMachine.Json.Basic
import BitMachine.Json.Number
import BitMachine.Json.Parser
import BitMachine.Json.Printer
import BitMachine.Machine.Basic
import BitMachine.Machine.Evaluate
import BitMachine.Machine.Input
import BitMachine.Machine.Output
import BitMachine.Machine.Run
import BitMachine.Machine.Trace
import BitMachine.Main
import BitMachine.Memory
import BitMachine.Proofs.Automaton.Acceptance
import BitMachine.Proofs.Automaton.Completeness
import BitMachine.Proofs.Automaton.Feeding
import BitMachine.Proofs.Automaton.Positions
import BitMachine.Proofs.Automaton.Scanning
import BitMachine.Proofs.Automaton.Soundness
import BitMachine.Proofs.CommandLine.Agreement
import BitMachine.Proofs.CommandLine.Paths
import BitMachine.Proofs.CommandLine.Settings
import BitMachine.Proofs.Grammar.Acceptance
import BitMachine.Proofs.Grammar.Derivation
import BitMachine.Proofs.Grammar.DescentCompleteness
import BitMachine.Proofs.Grammar.DescentRecognition
import BitMachine.Proofs.Grammar.DescentSoundness
import BitMachine.Proofs.Grammar.Excerpts
import BitMachine.Proofs.Grammar.ExpressionRecognition
import BitMachine.Proofs.Grammar.Interchange
import BitMachine.Proofs.Grammar.Letters
import BitMachine.Proofs.Grammar.Lookahead
import BitMachine.Proofs.Grammar.Messages
import BitMachine.Proofs.Grammar.Positions
import BitMachine.Proofs.Grammar.PrematureEnd
import BitMachine.Proofs.Grammar.Progress
import BitMachine.Proofs.Grammar.Reading
import BitMachine.Proofs.Grammar.Recognition
import BitMachine.Proofs.Grammar.Segmentation
import BitMachine.Proofs.Grammar.Spacing
import BitMachine.Proofs.Grammar.Unambiguity
import BitMachine.Proofs.Grammar.Viability
import BitMachine.Proofs.Grammar.Writing
import BitMachine.Proofs.Graph.Keys
import BitMachine.Proofs.Graph.RoundTrip
import BitMachine.Proofs.Json.RoundTrip
import BitMachine.Proofs.Json.Scalars
import BitMachine.Proofs.Machine.Arising
import BitMachine.Proofs.Machine.Blame
import BitMachine.Proofs.Machine.Calls
import BitMachine.Proofs.Machine.Causality
import BitMachine.Proofs.Machine.Congruence
import BitMachine.Proofs.Machine.Consoles
import BitMachine.Proofs.Machine.Equivalence
import BitMachine.Proofs.Machine.Evaluation
import BitMachine.Proofs.Machine.FaithfulTrace
import BitMachine.Proofs.Machine.Frame
import BitMachine.Proofs.Machine.Graphs
import BitMachine.Proofs.Machine.Growth
import BitMachine.Proofs.Machine.GuardModes
import BitMachine.Proofs.Machine.Invariant
import BitMachine.Proofs.Machine.Lockstep
import BitMachine.Proofs.Machine.NandTrees
import BitMachine.Proofs.Machine.Nesting
import BitMachine.Proofs.Machine.Outcomes
import BitMachine.Proofs.Machine.Packing
import BitMachine.Proofs.Machine.Preservation
import BitMachine.Proofs.Machine.ReachedLines
import BitMachine.Proofs.Machine.Regularity
import BitMachine.Proofs.Machine.Rendering
import BitMachine.Proofs.Machine.Replay
import BitMachine.Proofs.Machine.StaticKinds
import BitMachine.Proofs.Machine.StepLimit
import BitMachine.Proofs.Machine.TraceText
import BitMachine.Proofs.Machine.Unpacking
import BitMachine.Proofs.Session.Tracing
import BitMachine.Session
import BitMachine.Text.Blank
import BitMachine.Text.LineBreak
import BitMachine.Text.Numeral
import BitMachine.Text.Printable
import BitMachine.Text.Quoted
import BitMachine.Value
