import ModelSearch.Assignment
import ModelSearch.Command.Arguments
import ModelSearch.Command.Files
import ModelSearch.Command.Transcript
import ModelSearch.Decimal.Shortest
import ModelSearch.Dimacs.Document
import ModelSearch.Dimacs.Load
import ModelSearch.Fault
import ModelSearch.Main
import ModelSearch.Proofs.Actions.Alterations
import ModelSearch.Proofs.Actions.Fuel
import ModelSearch.Proofs.Actions.Outcomes
import ModelSearch.Proofs.Actions.Records
import ModelSearch.Proofs.Actions.Runs
import ModelSearch.Proofs.Calls.AcrossBasicCalls
import ModelSearch.Proofs.Calls.AcrossPlainCalls
import ModelSearch.Proofs.Calls.Relation
import ModelSearch.Proofs.Command.Transcripts
import ModelSearch.Proofs.Conflicts.Audits
import ModelSearch.Proofs.Conflicts.Certificates
import ModelSearch.Proofs.Conflicts.ImplicationPoints
import ModelSearch.Proofs.Conflicts.Jumps
import ModelSearch.Proofs.Conflicts.Novelty
import ModelSearch.Proofs.Conflicts.Reductions
import ModelSearch.Proofs.Conflicts.Resolution
import ModelSearch.Proofs.Conflicts.Resolving
import ModelSearch.Proofs.Dimacs.FaultyLines
import ModelSearch.Proofs.Dimacs.Layouts
import ModelSearch.Proofs.Dimacs.Loading
import ModelSearch.Proofs.Dimacs.Readings
import ModelSearch.Proofs.Dimacs.Texts
import ModelSearch.Proofs.Events.Ledgers
import ModelSearch.Proofs.Events.Moments
import ModelSearch.Proofs.Events.Statistics
import ModelSearch.Proofs.Events.Tallies
import ModelSearch.Proofs.Events.TrailEvents
import ModelSearch.Proofs.Operations.Additions
import ModelSearch.Proofs.Operations.AssignmentUpdates
import ModelSearch.Proofs.Operations.Basic
import ModelSearch.Proofs.Operations.Decisions
import ModelSearch.Proofs.Operations.Levels
import ModelSearch.Proofs.Operations.Requests
import ModelSearch.Proofs.Operations.Stating
import ModelSearch.Proofs.Operations.Undoing
import ModelSearch.Proofs.Propagation.Basic
import ModelSearch.Proofs.Propagation.Fixpoints
import ModelSearch.Proofs.Propagation.Promptness
import ModelSearch.Proofs.Propagation.Timeliness
import ModelSearch.Proofs.Propagation.UnitClosure
import ModelSearch.Proofs.Propagation.Vacancies
import ModelSearch.Proofs.Queue.MapReplies
import ModelSearch.Proofs.Queue.Membership
import ModelSearch.Proofs.Queue.Order
import ModelSearch.Proofs.Search.BooleanSearch
import ModelSearch.Proofs.Search.Clocks
import ModelSearch.Proofs.Search.Faults
import ModelSearch.Proofs.Search.FoundModels
import ModelSearch.Proofs.Search.OpenClauses
import ModelSearch.Proofs.Search.Progress
import ModelSearch.Proofs.Search.Rounds
import ModelSearch.Proofs.Search.Seesaw
import ModelSearch.Proofs.Search.Soundness
import ModelSearch.Proofs.Search.Termination
import ModelSearch.Proofs.Steps.Basic
import ModelSearch.Proofs.Steps.Changes
import ModelSearch.Proofs.Steps.Effects
import ModelSearch.Proofs.Steps.Invariants
import ModelSearch.Proofs.Stores.Coherence
import ModelSearch.Proofs.Stores.Detection
import ModelSearch.Proofs.Stores.Mirrors
import ModelSearch.Proofs.Syntax.CanonicalClauses
import ModelSearch.Proofs.Theory.Bounds
import ModelSearch.Proofs.Theory.Consultations
import ModelSearch.Proofs.Theory.Contract
import ModelSearch.Proofs.Theory.Evaluations
import ModelSearch.Proofs.Trail.Histories
import ModelSearch.Proofs.Trail.TopLiterals
import ModelSearch.Proofs.Trail.Views
import ModelSearch.Proofs.Watch.Index
import ModelSearch.Proofs.Watch.Marks
import ModelSearch.Proofs.Watch.Recounts
import ModelSearch.Queue.Heap
import ModelSearch.Queue.Lazy
import ModelSearch.Solver.Assign
import ModelSearch.Solver.Backjump
import ModelSearch.Solver.Closure
import ModelSearch.Solver.Event
import ModelSearch.Solver.Explain
import ModelSearch.Solver.Formula
import ModelSearch.Solver.Search
import ModelSearch.Solver.State
import ModelSearch.Store.Clauses
import ModelSearch.Store.Variables
import ModelSearch.Syntax.Clause
import ModelSearch.Syntax.Literal
import ModelSearch.Syntax.Value
import ModelSearch.Text.Blank
import ModelSearch.Text.Numeral
import ModelSearch.Theory.Bound
import ModelSearch.Theory.Hook
import ModelSearch.Theory.Linear
import ModelSearch.Theory.Scripted
import ModelSearch.Theory.Sum
import ModelSearch.Trail.Basic
import ModelSearch.Watch.Basic
