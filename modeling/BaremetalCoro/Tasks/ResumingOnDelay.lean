import BaremetalCoro.Scheduler.Awaitable
import BaremetalCoro.Tasks.MainProgram

/-!
# Periodic tasks on a delay scheduler

`resuming_on_delay` is a co-routine that waits for its period `run_count`
times.  Its body is cut at its one suspension point: `loop` is the code from
the head of the loop to the next `co_await` that suspends, or to the end, and a
frame holds the locals in between.

The tasks share one scheduler.  Time passes between any two clock readings and
never backwards, also between the reading `resume` is called with and the one
the resumed task takes for its next wait.  It counts in exact integers.  A task
that is refused a frame is one that is never started.
-/

namespace BaremetalCoro

open SchedulerOrdered

/-- The parameters of a call of `resuming_on_delay`; the period counts
microseconds. -/
structure ResumingOnDelay where
  period : Int
  runCount : Nat

namespace ResumingOnDelay

variable {H : Type} {N : Nat}

/-- From the head of the loop, with `remaining` turns left, when the clock
reads `now`.  A wait that is ready at once does not suspend. -/
def loop (task : ResumingOnDelay) (clock : Clock) (now : Int)
    (scheduler : SchedulerOrdered ScheduleByDelay H N) (handle : H) :
    Nat → Nat → Nat → Option (TaskFrame × SchedulerOrdered ScheduleByDelay H N)
  | 0, i, resumeCount => some (⟨i, resumeCount, .finished⟩, scheduler)
  | remaining + 1, i, resumeCount =>
      let awaitable : AwaitableTimer := ⟨task.period⟩
      if awaitable.awaitReady then
        task.loop clock now scheduler handle remaining (i + 1) (i + 1)
      else do
        let scheduler ← awaitable.awaitSuspend clock now scheduler handle
        return (⟨i, resumeCount, .suspended⟩, scheduler)

/-- The call of the co-routine; it does not suspend initially. -/
def start (task : ResumingOnDelay) (clock : Clock) (now : Int)
    (scheduler : SchedulerOrdered ScheduleByDelay H N) (handle : H) :
    Option (TaskFrame × SchedulerOrdered ScheduleByDelay H N) :=
  task.loop clock now scheduler handle task.runCount 0 0

/-- `handle.resume()`: continue behind the `co_await`.  Only a suspended
co-routine may be resumed. -/
def resume (task : ResumingOnDelay) (clock : Clock) (now : Int)
    (scheduler : SchedulerOrdered ScheduleByDelay H N) (handle : H) (frame : TaskFrame) :
    Option (TaskFrame × SchedulerOrdered ScheduleByDelay H N) :=
  match frame.status with
  | .suspended =>
      task.loop clock now scheduler handle (task.runCount - (frame.i + 1)) (frame.i + 1)
        (frame.i + 1)
  | .unstarted | .finished => none

/-- The period in ticks of the clock. -/
def ticks (task : ResumingOnDelay) (clock : Clock) : Int :=
  Chrono.durationCast Chrono.Period.micro clock.period task.period

/-- On the clocks of the repository the period is exact. -/
theorem ticks_steadyClock (task : ResumingOnDelay) :
    task.ticks steadyClock = 1000 * task.period := by
  have scaled : task.period * 1000000000 = 1000 * task.period * 1000000 := by
    omega
  have cancelled := Int.mul_tdiv_cancel (1000 * task.period) (by decide : (1000000 : Int) ≠ 0)
  rw [← scaled] at cancelled
  exact cancelled

/-- A task with a positive period either finishes or is inserted to wait for
its period. -/
theorem loop_spec {task : ResumingOnDelay} (positive : 0 < task.period) (clock : Clock) (now : Int)
    {scheduler : SchedulerOrdered ScheduleByDelay H N}
    {waiting : List (ScheduleEntry ScheduleByDelay H)} (holds : scheduler.Holds waiting)
    (handle : H) {i remaining : Nat} (turns : i + remaining = task.runCount) (resumeCount : Nat) :
    (i = task.runCount ∧ task.loop clock now scheduler handle remaining i resumeCount =
      some (⟨i, resumeCount, .finished⟩, scheduler)) ∨
    ∃ scheduler', i < task.runCount ∧
      task.loop clock now scheduler handle remaining i resumeCount =
        some (⟨i, resumeCount, .suspended⟩, scheduler') ∧
      scheduler'.Holds (inserted N waiting ⟨handle, ⟨now + task.ticks clock⟩⟩) := by
  cases remaining with
  | zero => exact Or.inl ⟨turns, rfl⟩
  | succ remaining =>
      right
      have notReady : ¬ (AwaitableTimer.mk task.period).awaitReady = true := by
        simp only [AwaitableTimer.awaitReady, decide_eq_true_eq]
        exact positive.ne'
      rcases holds.insert handle (makeCondition clock now task.period) with
        ⟨scheduler', insertEq, holds'⟩
      have more : i < task.runCount := by
        rw [← turns]
        exact Nat.lt_add_of_pos_right (Nat.succ_pos remaining)
      have loopEq : task.loop clock now scheduler handle (remaining + 1) i resumeCount =
          some (⟨i, resumeCount, .suspended⟩, scheduler') := by
        simp only [loop, if_neg notReady, AwaitableTimer.awaitSuspend, insertEq]
        rfl
      exact ⟨scheduler', more, loopEq, holds'⟩

end ResumingOnDelay

/-! ## The tasks and their scheduler -/

/-- What can happen next among the tasks. -/
inductive TaskAct (k : Nat) where
  /-- The clock moves on. -/
  | advance (ticks : Nat)
  /-- The main program calls a task for the first time. -/
  | start (j : Fin k)
  /-- The main program calls `resume` with the current time; `elapsed` passes
  until the task that runs reads the clock. -/
  | poll (elapsed : Nat)

/-- The scheduler, the clock and the frames, with the time each task was
started at and the log of resumptions: the task and the time `resume` was
called with. -/
structure TaskSystem (k N : Nat) where
  scheduler : SchedulerOrdered ScheduleByDelay (Fin k) N
  now : Int
  frames : Fin k → TaskFrame
  starts : Fin k → Int
  log : List (Fin k × Int)

namespace TaskSystem

variable {k N : Nat}

/-- A new scheduler in storage that held `buffer`, and no task started. -/
def init [NeZero N] (buffer : Fin N → StaticListNode (ScheduleEntry ScheduleByDelay (Fin k)) N)
    (now : Int) : TaskSystem k N :=
  { scheduler := SchedulerOrdered.init buffer, now := now,
    frames := fun _ => ⟨0, 0, .unstarted⟩, starts := fun _ => now, log := [] }

/-- The state once task `j` gave control back. -/
def afterTask (system : TaskSystem k N) (j : Fin k)
    (returned : TaskFrame × SchedulerOrdered ScheduleByDelay (Fin k) N) : TaskSystem k N :=
  { system with
    scheduler := returned.2
    frames := Function.update system.frames j returned.1 }

/-- Task `j` is called at the current time. -/
def startTask (system : TaskSystem k N) (j : Fin k) : TaskSystem k N :=
  { system with starts := Function.update system.starts j system.now }

/-- Task `j` is about to be resumed by a call of `resume` with the current
time, once `elapsed` has passed. -/
def resumeTask (system : TaskSystem k N) (j : Fin k) (elapsed : Nat)
    (scheduler : SchedulerOrdered ScheduleByDelay (Fin k) N) : TaskSystem k N :=
  { system with
    scheduler := scheduler
    now := system.now + elapsed
    log := system.log ++ [(j, system.now)] }

/-- One action. -/
def step (clock : Clock) (tasks : Fin k → ResumingOnDelay) :
    Transition.Step (TaskSystem k N) (TaskAct k) := fun system act =>
  match act with
  | .advance ticks => some { system with now := system.now + ticks }
  | .start j =>
      match (system.frames j).status with
      | .unstarted =>
          ((tasks j).start clock system.now system.scheduler j).map
            ((system.startTask j).afterTask j)
      | .suspended | .finished => none
  | .poll elapsed => do
      match ← system.scheduler.resume (ScheduleByDelay.immediate system.now) with
      | .idle _ _ => some { system with now := system.now + elapsed }
      | .resumed j _ scheduler _ =>
          let running := system.resumeTask j elapsed scheduler
          ((tasks j).resume clock running.now scheduler j (system.frames j)).map
            (running.afterTask j)

/-- Where a task stands. -/
def status (system : TaskSystem k N) (j : Fin k) : TaskStatus :=
  (system.frames j).status

/-- The waiting entries of the scheduler. -/
def waiting (system : TaskSystem k N) : List (ScheduleEntry ScheduleByDelay (Fin k)) :=
  system.scheduler.entries

/-- The tasks of the waiting entries. -/
def handles (system : TaskSystem k N) : List (Fin k) :=
  system.waiting.map ScheduleEntry.handle_

/-- How often task `j` reports to have been resumed. -/
def resumeCount (system : TaskSystem k N) (j : Fin k) : Nat :=
  (system.frames j).resumeCount

/-- The times of the calls of `resume` that resumed task `j`. -/
def resumptions (system : TaskSystem k N) (j : Fin k) : List Int :=
  (system.log.filter fun resumption => resumption.1 = j).map Prod.snd

end TaskSystem

end BaremetalCoro
