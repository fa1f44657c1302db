import FizzbeeMbt.Lib.Delimiters
import FizzbeeMbt.Lib.Maps
import FizzbeeMbt.Lib.Deltas
import FizzbeeMbt.Lib.Dicts
import FizzbeeMbt.Lib.Digits
import FizzbeeMbt.Lib.Runs
import FizzbeeMbt.Lib.Fairness
import FizzbeeMbt.Lib.Joins
import FizzbeeMbt.Lib.Keys
import FizzbeeMbt.Lib.Progress
import FizzbeeMbt.Lib.Refinement
import FizzbeeMbt.Lib.Replay
import FizzbeeMbt.Lib.Slices
import FizzbeeMbt.Lib.Strings
import FizzbeeMbt.Lib.Trim
import FizzbeeMbt.Lib.Utf16
import FizzbeeMbt.Lib.Words
import FizzbeeMbt.FizzStore.Writer
import FizzbeeMbt.FizzStore.DirtyRead
import FizzbeeMbt.FizzStore.DurableRead
import FizzbeeMbt.GoStore.Json
import FizzbeeMbt.GoStore.Store
import FizzbeeMbt.GoStore.Machine
import FizzbeeMbt.GoStore.Locks
import FizzbeeMbt.GoStore.AppendOnly
import FizzbeeMbt.GoStore.Layers
import FizzbeeMbt.GoStore.Reads
import FizzbeeMbt.GoStore.DirtyReads
import FizzbeeMbt.GoStore.DurableReads
import FizzbeeMbt.GoStore.Runes
import FizzbeeMbt.GoStore.Encoding
import FizzbeeMbt.GoStore.Session
import FizzbeeMbt.GoStore.FailedReads
import FizzbeeMbt.GoStore.Specification
import FizzbeeMbt.GoStore.FaultyRuns
import FizzbeeMbt.GoStore.Losses
import FizzbeeMbt.GoStore.Progress
import FizzbeeMbt.GoStore.Reopen
import FizzbeeMbt.RustStore.Store
import FizzbeeMbt.RustStore.Machine
import FizzbeeMbt.RustStore.Gate
import FizzbeeMbt.RustStore.Layers
import FizzbeeMbt.RustStore.Reads
import FizzbeeMbt.RustStore.DirtyReads
import FizzbeeMbt.RustStore.DurableReads
import FizzbeeMbt.RustStore.Session
import FizzbeeMbt.RustStore.FailedReads
import FizzbeeMbt.RustStore.FaultyRuns
import FizzbeeMbt.RustStore.Listing
import FizzbeeMbt.RustStore.Losses
import FizzbeeMbt.RustStore.Progress
import FizzbeeMbt.RustStore.Restart
import FizzbeeMbt.RustStore.Specification
import FizzbeeMbt.StoreAdapters.Adapters
import FizzbeeMbt.StoreAdapters.Equivalence
import FizzbeeMbt.GoWriter.Writer
import FizzbeeMbt.GoWriter.Snapshots
import FizzbeeMbt.GoWriter.Aliasing
import FizzbeeMbt.Counter.PgTable
import FizzbeeMbt.Counter.Spec
import FizzbeeMbt.Counter.Implementations
import FizzbeeMbt.Counter.Agreement
import FizzbeeMbt.Counter.BadMemCounter
import FizzbeeMbt.Counter.FetchUpdate
import FizzbeeMbt.Counter.Handles
import FizzbeeMbt.Counter.Linearization
import FizzbeeMbt.Counter.Retries
import FizzbeeMbt.Counter.Sessions
import FizzbeeMbt.TodoApp.Spec
import FizzbeeMbt.TodoApp.Records
import FizzbeeMbt.TodoApp.Reachable
import FizzbeeMbt.TodoAdapters.Adapters
import FizzbeeMbt.TodoAdapters.Numerals
import FizzbeeMbt.TodoAdapters.Format
import FizzbeeMbt.TodoAdapters.Reading
import FizzbeeMbt.TodoAdapters.Reports
import FizzbeeMbt.TodoAdapters.Answers
import FizzbeeMbt.TodoAdapters.Equivalence
import FizzbeeMbt.TodoMvc.Spec
import FizzbeeMbt.TodoMvc.ListModel
import FizzbeeMbt.TodoMvc.Refinement
import FizzbeeMbt.TodoMvc.Reachable
import FizzbeeMbt.TodoMvc.ViewAdapter
