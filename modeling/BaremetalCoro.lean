import BaremetalCoro.StaticList.Invariant
import BaremetalCoro.StaticList.Sequence
import BaremetalCoro.StaticList.Refinement
import BaremetalCoro.Chrono.Duration
import BaremetalCoro.Scheduler.Run
import BaremetalCoro.Order.Insertion
import BaremetalCoro.Scheduler.Accounting
import BaremetalCoro.Scheduler.Ordering
import BaremetalCoro.Scheduler.Report
import BaremetalCoro.Scheduler.Unordered
import BaremetalCoro.Scheduler.Awaitable
import BaremetalCoro.Scheduler.Clocked
import BaremetalCoro.Scheduler.Ties
import BaremetalCoro.Tasks.Progress
import BaremetalCoro.Timer.Clock
import BaremetalCoro.Scheduler.Sleep
import BaremetalCoro.Scheduler.Drain
import BaremetalCoro.Tasks.Alternation
import BaremetalCoro.Interrupt.Preemption
import BaremetalCoro.Interrupt.LostWakeup
import BaremetalCoro.StaticList.Equivalence
import BaremetalCoro.StaticList.Stability
import BaremetalCoro.Arena.Blocks
import BaremetalCoro.NopTask.Heap
import BaremetalCoro.NopTask.Lifecycle
import BaremetalCoro.Tasks.MainProgram
import BaremetalCoro.Tasks.PollingLoop
import BaremetalCoro.Tasks.ResumingOnPriority
import BaremetalCoro.Tasks.RunToCompletion
import BaremetalCoro.Interrupt.Handover
import BaremetalCoro.Interrupt.TimerLoop
import BaremetalCoro.Circular.Recent
import BaremetalCoro.Trace.Log
import BaremetalCoro.Trace.Resume
import BaremetalCoro.Words.Field
import BaremetalCoro.Csr.Access
import BaremetalCoro.Csr.Fields
import BaremetalCoro.Csr.Preemption
import BaremetalCoro.Tasks.SingleCoroLoop
import BaremetalCoro.Tasks.Nested
import BaremetalCoro.Memory.Loops
import BaremetalCoro.Startup.Segments
import BaremetalCoro.Interrupt.Install
import BaremetalCoro.Tasks.Periodic
import BaremetalCoro.Csr.WideFields
