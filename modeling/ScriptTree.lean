import ScriptTree.Run
import ScriptTree.Script.Encode
import ScriptTree.Settings.Decode
import ScriptTree.Proofs.Machine
import ScriptTree.Proofs.Machine.Adequacy
import ScriptTree.Proofs.Outcome
import ScriptTree.Proofs.HeapGrowth
import ScriptTree.Proofs.Machine.Effects
import ScriptTree.Proofs.Machine.Moves
import ScriptTree.Proofs.PlainValues
import ScriptTree.Proofs.Isolation
import ScriptTree.Proofs.NonLocalReturn
import ScriptTree.Proofs.ScopeChains
import ScriptTree.Proofs.ScopeNames
import ScriptTree.Proofs.VisibleVariables
import ScriptTree.Proofs.NearestBinding
import ScriptTree.Proofs.Display
import ScriptTree.Proofs.Machine.Faults
import ScriptTree.Proofs.Machine.Open
import ScriptTree.Proofs.BindingHistory
import ScriptTree.Proofs.DisplayLocality
import ScriptTree.Proofs.Comparisons
import ScriptTree.Proofs.Division
import ScriptTree.Proofs.FailureLines
import ScriptTree.Proofs.Machine.Printed
import ScriptTree.Proofs.Json.ReadPrinted
import ScriptTree.Proofs.Json.ReadLimits
import ScriptTree.Proofs.Script.RoundTrip
import ScriptTree.Proofs.Lax
import ScriptTree.Proofs.Script.NormalForm
import ScriptTree.Proofs.Endings
import ScriptTree.Proofs.Report
import ScriptTree.Proofs.Machine.Disguise
import ScriptTree.Proofs.Machine.Output
import ScriptTree.Proofs.Sinks
import ScriptTree.Proofs.RecursionLimit
import ScriptTree.Proofs.Sequences
import ScriptTree.Proofs.Pairing.Heaps
import ScriptTree.Proofs.Pairing.Actions
import ScriptTree.Proofs.Pairing.Evaluation
import ScriptTree.Proofs.Replacement
import ScriptTree.Proofs.Pairing.Programs
import ScriptTree.Proofs.ParameterNames
import ScriptTree.Proofs.PureInsertion
import ScriptTree.Proofs.NestedBlocks
import ScriptTree.Proofs.Piecewise
import ScriptTree.Proofs.References
import ScriptTree.Proofs.InPlace
import ScriptTree.Proofs.Records
import ScriptTree.Proofs.Tracing
import ScriptTree.Proofs.LineNumbers
import ScriptTree.Proofs.Machine.Spans
import ScriptTree.Proofs.CallProtocol
import ScriptTree.Proofs.LegacyModulo
import ScriptTree.Proofs.Nodes
import ScriptTree.Proofs.Machine.Ahead
import ScriptTree.Proofs.Functionless
import ScriptTree.Proofs.Script.Contexts
import ScriptTree.Proofs.Script.DeclaredFields
import ScriptTree.Proofs.Script.RecordOrder
