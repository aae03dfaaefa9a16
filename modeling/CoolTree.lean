import CoolTree.Context.Relabelling
import CoolTree.Graph.Builder
import CoolTree.Graph.Dot
import CoolTree.Output.Printer
import CoolTree.Syntax.Descendant
import CoolTree.Syntax.Equality
import CoolTree.Walk.Recorder
import CoolTree.Proofs.Syntax.Assembling
import CoolTree.Proofs.Syntax.Occurrence
import CoolTree.Proofs.Syntax.Display
import CoolTree.Proofs.Syntax.Levels
import CoolTree.Proofs.Syntax.Outline
import CoolTree.Proofs.Syntax.Skeleton
import CoolTree.Proofs.Syntax.WellShaped
import CoolTree.Proofs.Walk.Passive
import CoolTree.Proofs.Walk.Projection
import CoolTree.Proofs.Walk.Recursion
import CoolTree.Proofs.Walk.Trace
import CoolTree.Proofs.Output.Dump
import CoolTree.Proofs.Output.Room
import CoolTree.Proofs.Graph.Building
import CoolTree.Proofs.Graph.Edges
import CoolTree.Proofs.Graph.Rendering
import CoolTree.Proofs.Context.Exchange
import CoolTree.Proofs.Context.Parts
import CoolTree.Proofs.Text.Escaping
import CoolTree.Proofs.Text.Separation
import CoolTree.Proofs.Output.Reading
import CoolTree.Proofs.Walk.Calls
import CoolTree.Proofs.Walk.SelfDriven
import CoolTree.Proofs.Walk.Schedule
import CoolTree.Proofs.Walk.Masking
import CoolTree.Proofs.Walk.Relation
import CoolTree.Proofs.Walk.Observation
import CoolTree.Proofs.Walk.Failing
import CoolTree.Proofs.Walk.Answers
import CoolTree.Proofs.Context.Pullback
import CoolTree.Proofs.Walk.Pruning
import CoolTree.Proofs.Walk.History
import CoolTree.Proofs.Walk.Errand
import CoolTree.Proofs.Walk.Account
import CoolTree.Proofs.Walk.Accounting
import CoolTree.Proofs.Walk.Invariant
import CoolTree.Proofs.Walk.Recording
import CoolTree.Proofs.Walk.OnSchedule
import CoolTree.Proofs.Walk.Marking
import CoolTree.Proofs.Walk.Watching
import CoolTree.Proofs.Output.Life
import CoolTree.Proofs.Walk.Census
import CoolTree.Proofs.Walk.Recalling
import CoolTree.Proofs.Walk.Driven
import CoolTree.Proofs.Walk.Multiplicity
import CoolTree.Proofs.Walk.Positions
import CoolTree.Proofs.Context.Fusion
import CoolTree.Proofs.Context.Refilling
import CoolTree.Proofs.Walk.Stopping
import CoolTree.Proofs.Walk.Unwinding
import CoolTree.Proofs.Syntax.Replacement
import CoolTree.Proofs.Output.LineCount
import CoolTree.Proofs.Output.Locality
import CoolTree.Proofs.Graph.Subtree
import CoolTree.Proofs.Text.BareQuotes
import CoolTree.Proofs.Graph.Statements
import CoolTree.Proofs.Text.Unquoting
import CoolTree.Proofs.Output.LineContent
import CoolTree.Proofs.Syntax.Addressing
import CoolTree.Proofs.Graph.Addresses
import CoolTree.Proofs.Walk.Turns
import CoolTree.Proofs.Walk.Progress
import CoolTree.Proofs.Walk.Enacting
import CoolTree.Proofs.Graph.OpenNodes
