import BaremetalCoro.Scheduler.Awaitable
import BaremetalCoro.Tasks.MainProgram
import Mathlib.Algebra.GroupWithZero.Nat

/-!
# Tasks on a priority scheduler

`resuming_on_priority` waits `run_count` times, and its `i`-th wait has the
priority `(int)i`.  The counter is unsigned, so the conversion is exact only up
to the largest `int`; beyond it the priority is negative.

A wait for a priority always suspends, so the body is cut at the head of its
loop.  The main program calls `resume` with any priorities it likes.  A task
that is refused a frame is one that is never started.
-/

namespace BaremetalCoro

open SchedulerOrdered

/-- The conversion `(int)i` of a counter of 32 bits. -/
def toInt (i : Nat) : Int :=
  (BitVec.ofNat 32 i).toInt

theorem toInt_of_lt {i : Nat} (small : i < 2 ^ 31) : toInt i = i := by
  rw [toInt, BitVec.toInt_eq_toNat_bmod, BitVec.toNat_ofNat, Int.bmod_def]
  omega

/-- The first counter that does not fit is converted to the least `int`. -/
theorem toInt_overflow : toInt (2 ^ 31) < 0 := by
  rw [toInt, BitVec.toInt_eq_toNat_bmod, BitVec.toNat_ofNat, Int.bmod_def]
  omega

namespace ResumingOnPriority

variable {H : Type} {N : Nat}

/-- From the head of the loop to the next `co_await`, or to the end. -/
def loopHead (runCount : Nat) (scheduler : SchedulerOrdered ScheduleByPriority H N) (handle : H)
    (i resumeCount : Nat) : Option (TaskFrame × SchedulerOrdered ScheduleByPriority H N) :=
  if i < runCount then do
    let scheduler ← (AwaitablePriority.mk (toInt i)).awaitSuspend scheduler handle
    return (⟨i, resumeCount, .suspended⟩, scheduler)
  else some (⟨i, resumeCount, .finished⟩, scheduler)

/-- `handle.resume()`: continue behind the `co_await`. -/
def resume (runCount : Nat) (scheduler : SchedulerOrdered ScheduleByPriority H N) (handle : H)
    (frame : TaskFrame) : Option (TaskFrame × SchedulerOrdered ScheduleByPriority H N) :=
  match frame.status with
  | .suspended => loopHead runCount scheduler handle (frame.i + 1) (frame.i + 1)
  | .unstarted | .finished => none

end ResumingOnPriority

/-- What can happen next among the tasks. -/
inductive PriorityAct (k : Nat) where
  /-- The main program calls a task for the first time. -/
  | start (j : Fin k)
  /-- The main program calls `resume` with a priority. -/
  | resume (priority : Int)

/-- The scheduler and the frames, with the log of resumptions. -/
structure PrioritySystem (k N : Nat) where
  scheduler : SchedulerOrdered ScheduleByPriority (Fin k) N
  frames : Fin k → TaskFrame
  log : List (Fin k)

namespace PrioritySystem

variable {k N : Nat}

/-- A new scheduler in storage that held `buffer`, and no task started. -/
def init [NeZero N]
    (buffer : Fin N → StaticListNode (ScheduleEntry ScheduleByPriority (Fin k)) N) :
    PrioritySystem k N :=
  { scheduler := SchedulerOrdered.init buffer, frames := fun _ => ⟨0, 0, .unstarted⟩, log := [] }

/-- The state once task `j` gave control back. -/
def afterTask (system : PrioritySystem k N) (j : Fin k)
    (returned : TaskFrame × SchedulerOrdered ScheduleByPriority (Fin k) N) : PrioritySystem k N :=
  { system with
    scheduler := returned.2
    frames := Function.update system.frames j returned.1 }

/-- Task `j` is about to be resumed. -/
def resumeTask (system : PrioritySystem k N) (j : Fin k)
    (scheduler : SchedulerOrdered ScheduleByPriority (Fin k) N) : PrioritySystem k N :=
  { system with
    scheduler := scheduler
    log := system.log ++ [j] }

/-- One action. -/
def step (runCount : Fin k → Nat) : Transition.Step (PrioritySystem k N) (PriorityAct k) :=
  fun system act =>
    match act with
    | .start j =>
        match (system.frames j).status with
        | .unstarted =>
            (ResumingOnPriority.loopHead (runCount j) system.scheduler j 0 0).map
              (system.afterTask j)
        | .suspended | .finished => none
    | .resume priority => do
        match ← system.scheduler.resume ⟨priority⟩ with
        | .idle _ _ => some system
        | .resumed j _ scheduler _ =>
            (ResumingOnPriority.resume (runCount j) scheduler j (system.frames j)).map
              ((system.resumeTask j scheduler).afterTask j)

/-- The waiting entries of the scheduler. -/
def waiting (system : PrioritySystem k N) : List (ScheduleEntry ScheduleByPriority (Fin k)) :=
  system.scheduler.entries

/-- The tasks of the waiting entries. -/
def handles (system : PrioritySystem k N) : List (Fin k) :=
  system.waiting.map ScheduleEntry.handle_

/-- How often task `j` reports to have been resumed. -/
def resumeCount (system : PrioritySystem k N) (j : Fin k) : Nat :=
  (system.frames j).resumeCount

/-- Where a task stands. -/
def status (system : PrioritySystem k N) (j : Fin k) : TaskStatus :=
  (system.frames j).status

/-- The calls of tasks. -/
def callOf : PriorityAct k → Option (Fin k)
  | .start j => some j
  | .resume _ => none

/-- What the main program does. -/
def programStep {w : Nat} (build : Build k w) (runCount : Fin k → Nat) :
    Transition.Step (MainProgram (PrioritySystem k N) k w) (PriorityAct k) :=
  MainProgram.step build status callOf (step runCount)

/-- `do { resume(schedule_by_priority{ 0 }) } while (!task.done())` -/
def resumingLoop {w : Nat} (build : Build k w) (runCount : Fin k → Nat) :
    Nat → Nat → MainProgram (PrioritySystem k N) k w →
      Option (MainProgram (PrioritySystem k N) k w) :=
  MainProgram.loop build status (step runCount) fun _ => .resume 0

end PrioritySystem

end BaremetalCoro
