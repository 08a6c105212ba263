import ArrayFlow.Misuse
import ArrayFlow.Word
import ArrayFlow.Decimal
import ArrayFlow.Sorting.Small
import ArrayFlow.Sorting.Runs
import ArrayFlow.Sorting.Drift
import ArrayFlow.Sorting.Quick
import ArrayFlow.Store.Basic
import ArrayFlow.Store.Edit
import ArrayFlow.Store.Lookup
import ArrayFlow.Store.Query
import ArrayFlow.Pipeline.Stage
import ArrayFlow.Pipeline.Basic
import ArrayFlow.Pipeline.Strategy
import ArrayFlow.Closure.Basic
import ArrayFlow.Closure.Eval
import ArrayFlow.Session.Request
import ArrayFlow.Session.Admission
import ArrayFlow.Session.Reply
import ArrayFlow.Session.Pipeline
import ArrayFlow.Session.Store
import ArrayFlow.Session.Answer
import ArrayFlow.Proofs.Pipeline.Split
import ArrayFlow.Proofs.Pipeline.Walk
import ArrayFlow.Proofs.Store.Room
import ArrayFlow.Proofs.Store.Queries
import ArrayFlow.Proofs.Pipeline.Terminals
import ArrayFlow.Proofs.Pipeline.Fold
import ArrayFlow.Proofs.Store.Growth
import ArrayFlow.Proofs.Session.Buffer
import ArrayFlow.Proofs.Pipeline.Outcome
import ArrayFlow.Proofs.Pipeline.Failure
import ArrayFlow.Proofs.Pipeline.Isolation
import ArrayFlow.Proofs.Store.Repeats
import ArrayFlow.Proofs.Pipeline.Distinct
import ArrayFlow.Proofs.Pipeline.Groups
import ArrayFlow.Proofs.Store.Insertions
import ArrayFlow.Proofs.Bounds
import ArrayFlow.Proofs.Store.Reservation
import ArrayFlow.Proofs.Store.Sweep
import ArrayFlow.Proofs.Pipeline.Calls
import ArrayFlow.Proofs.Store.Searches
import ArrayFlow.Proofs.Store.Partition
import ArrayFlow.Proofs.Store.Extremes
import ArrayFlow.Proofs.Store.Sections
import ArrayFlow.Proofs.Store.Chunks
import ArrayFlow.Proofs.Store.Positions
import ArrayFlow.Proofs.Pipeline.Ranges
