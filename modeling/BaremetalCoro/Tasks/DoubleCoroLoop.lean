import BaremetalCoro.Scheduler.Awaitable
import BaremetalCoro.Scheduler.Drain

/-!
# Tasks that alternate between two schedulers

`double_coro_loop` waits on one unordered scheduler and then on another,
`run_count` times.  Its body is cut at its two suspension points; a frame holds
the locals in between and the two counters the task reports to.

All tasks are called first, in the order of their numbers.  The main program
then calls `resume` on either scheduler as it likes.  A call of `resume` is one
action here: it drains its scheduler, and each task it resumes runs until it
waits on the other one, or ends.
-/

namespace BaremetalCoro

open SchedulerUnordered

/-- One of the two schedulers. -/
inductive Side where
  | a
  | b
  deriving DecidableEq

/-- The other scheduler. -/
def Side.other : Side → Side
  | .a => .b
  | .b => .a

/-- Where a task stands. -/
inductive DoubleStatus where
  | unstarted
  | waiting (side : Side)
  | finished
  deriving DecidableEq

/-- The locals of a task that does not run, with the counters it reports to. -/
structure DoubleFrame where
  i : Nat
  resumeCountA : Nat
  resumeCountB : Nat
  status : DoubleStatus
  deriving DecidableEq

/-- The two schedulers and the frames of the tasks. -/
structure DoubleSystem (k N : Nat) where
  schedulers : Side → SchedulerUnordered (Fin k) N
  frames : Fin k → DoubleFrame

namespace DoubleSystem

variable {k N : Nat}

/-- Replace a scheduler. -/
def setScheduler (system : DoubleSystem k N) (side : Side)
    (scheduler : SchedulerUnordered (Fin k) N) : DoubleSystem k N :=
  { system with schedulers := Function.update system.schedulers side scheduler }

@[simp]
theorem setScheduler_self (system : DoubleSystem k N) (side : Side)
    (scheduler : SchedulerUnordered (Fin k) N) :
    (system.setScheduler side scheduler).schedulers side = scheduler := by
  simp only [setScheduler, Function.update_self]

theorem setScheduler_of_ne {side side' : Side} (other : side' ≠ side) (system : DoubleSystem k N)
    (scheduler : SchedulerUnordered (Fin k) N) :
    (system.setScheduler side scheduler).schedulers side' = system.schedulers side' := by
  simp only [setScheduler, Function.update_of_ne other]

/-- Replace the frame of a task. -/
def setFrame (system : DoubleSystem k N) (j : Fin k) (frame : DoubleFrame) : DoubleSystem k N :=
  { system with frames := Function.update system.frames j frame }

/-- `co_await` on a scheduler.  The awaitable is never ready, so the task is
suspended and inserted. -/
def await (system : DoubleSystem k N) (side : Side) (j : Fin k) : DoubleSystem k N :=
  system.setScheduler side
    ((AwaitableUnordered.mk).awaitSuspend (system.schedulers side) j)

/-- From the head of the loop of task `j`, before turn `i`, to its first
suspension point or to the end. -/
def loopHead (runCount : Fin k → Nat) (system : DoubleSystem k N) (j : Fin k)
    (i resumeCountA resumeCountB : Nat) : DoubleSystem k N :=
  if i < runCount j then
    (system.await .a j).setFrame j ⟨i, resumeCountA, resumeCountB, .waiting .a⟩
  else system.setFrame j ⟨i, resumeCountA, resumeCountB, .finished⟩

/-- The call of `double_coro_loop` for task `j`; it does not suspend
initially. -/
def startTask (runCount : Fin k → Nat) (system : DoubleSystem k N) (j : Fin k) :
    DoubleSystem k N :=
  system.loopHead runCount j 0 0 0

/-- `handle.resume()`: continue behind the `co_await`.  Only a suspended
co-routine may be resumed. -/
def resumeTask (runCount : Fin k → Nat) (system : DoubleSystem k N) (j : Fin k) :
    Option (DoubleSystem k N) :=
  let frame := system.frames j
  match frame.status with
  | .waiting .a =>
      some ((system.await .b j).setFrame j
        ⟨frame.i, frame.i + 1, frame.resumeCountB, .waiting .b⟩)
  | .waiting .b =>
      some (system.loopHead runCount j (frame.i + 1) frame.resumeCountA (frame.i + 1))
  | .unstarted | .finished => none

/-- A task resumed by the scheduler of one side, seen from the loop of that
scheduler. -/
def taskBody (runCount : Fin k → Nat) (side : Side) : Body (DoubleSystem k N) (Fin k) N :=
  fun system j scheduler =>
    ((system.setScheduler side scheduler).resumeTask runCount j).map fun next =>
      (next, next.schedulers side)

/-- A call of `resume` on the scheduler of one side. -/
def step (runCount : Fin k → Nat) (fuel : Nat) : Transition.Step (DoubleSystem k N) Side :=
  fun system side =>
    (resume (taskBody runCount side) fuel system (system.schedulers side)).map fun returned =>
      returned.1.setScheduler side returned.2

/-- Two new schedulers in storage that held the buffers, and no task called. -/
def init [NeZero N] (buffers : Side → Fin N → StaticListNode (Fin k) N) : DoubleSystem k N :=
  { schedulers := fun side => SchedulerUnordered.init (buffers side),
    frames := fun _ => ⟨0, 0, 0, .unstarted⟩ }

/-- All tasks have been called. -/
def started [NeZero N] (runCount : Fin k → Nat)
    (buffers : Side → Fin N → StaticListNode (Fin k) N) : DoubleSystem k N :=
  (List.finRange k).foldl (startTask runCount) (init buffers)

/-- The tasks that wait on a scheduler, in list order. -/
def waiting (system : DoubleSystem k N) (side : Side) : List (Fin k) :=
  (system.schedulers side).entries

end DoubleSystem

end BaremetalCoro
