import BaremetalCoro.Scheduler.Accounting
import BaremetalCoro.Scheduler.Unordered

/-!
# Awaitables

A co-routine waits by `co_await` on an awaitable, which holds what to wait for
and a reference to a scheduler.  Unless the awaitable is ready at once, the
co-routine is suspended and `await_suspend` inserts its handle.  The scheduler
is an argument here and the updated one is the result; `none` would be a
fault.

None of the three layers below `await_suspend` returns a status, so whether the
handle was stored shows only in the waiting list.
-/

namespace BaremetalCoro

open SchedulerOrdered

variable {H : Type} {N : Nat}

/-- Create a condition for waking a delayed co-routine, when the clock reads
`now`. -/
def SchedulerOrdered.makeCondition (clock : Clock) (now arg : Int) : ScheduleByDelay :=
  ScheduleByDelay.afterDelay clock now arg

/-- Wait for a relative delay in microseconds. -/
structure AwaitableTimer where
  delay_ : Int

namespace AwaitableTimer

/-- Only wait if there is a delay. -/
def awaitReady (awaitable : AwaitableTimer) : Bool :=
  awaitable.delay_ = 0

/-- Insert into the schedule, when the clock reads `now`. -/
def awaitSuspend (awaitable : AwaitableTimer) (clock : Clock) (now : Int)
    (scheduler : SchedulerOrdered ScheduleByDelay H N) (handle : H) :
    Option (SchedulerOrdered ScheduleByDelay H N) :=
  scheduler.insert handle (makeCondition clock now awaitable.delay_)

end AwaitableTimer

/-- Wait for a priority. -/
structure AwaitablePriority where
  priority_ : Int

namespace AwaitablePriority

/-- Wait until the explicit context switch. -/
def awaitReady (_ : AwaitablePriority) : Bool :=
  false

/-- Insert into the schedule. -/
def awaitSuspend (awaitable : AwaitablePriority)
    (scheduler : SchedulerOrdered ScheduleByPriority H N) (handle : H) :
    Option (SchedulerOrdered ScheduleByPriority H N) :=
  scheduler.insert handle ⟨awaitable.priority_⟩

end AwaitablePriority

/-- Wait for the next turn of an unordered scheduler. -/
structure AwaitableUnordered where

namespace AwaitableUnordered

/-- Wait until the explicit context switch. -/
def awaitReady (_ : AwaitableUnordered) : Bool :=
  false

/-- Insert into the schedule. -/
def awaitSuspend (_ : AwaitableUnordered) (scheduler : SchedulerUnordered H N) (handle : H) :
    SchedulerUnordered H N :=
  scheduler.insert handle

end AwaitableUnordered

/-! ## Suspended co-routines that are kept -/

/-- The new entry waits, and every entry that waited before still does. -/
def Kept {ε : Type} (before after : List ε) (added : ε) : Prop :=
  added ∈ after ∧ ∀ entry ∈ before, entry ∈ after

theorem kept_inserted_iff {C : Type} [HasWakeUpTest C] {waiting : List (ScheduleEntry C H)}
    {added : ScheduleEntry C H} (new : added ∉ waiting) :
    Kept waiting (inserted N waiting added) added ↔ waiting.length < N := by
  constructor
  · intro kept
    by_contra full
    rw [inserted, if_neg full] at kept
    exact new kept.1
  · intro room
    have perm := System.inserted_perm room added
    constructor
    · exact perm.mem_iff.mpr List.mem_cons_self
    · intro entry member
      exact perm.mem_iff.mpr (List.mem_cons_of_mem added member)

theorem kept_appended_iff {waiting : List H} {added : H} (new : added ∉ waiting) :
    Kept waiting (SchedulerUnordered.appended N waiting added) added ↔ waiting.length < N := by
  constructor
  · intro kept
    by_contra full
    rw [SchedulerUnordered.appended, if_neg full] at kept
    exact new kept.1
  · intro room
    rw [SchedulerUnordered.appended, if_pos room]
    constructor
    · exact List.mem_append_right waiting List.mem_cons_self
    · intro entry member
      exact List.mem_append_left [added] member

/-- An insertion into an ordered scheduler always returns, and it is kept
exactly when there was room. -/
theorem System.Reachable.insert_kept_iff {C : Type} [HasWakeUpTest C] [NeZero N]
    {system : System C H N} (reachable : system.Reachable) (handle : H) (wakeCondition : C) :
    ∃ scheduler, system.scheduler.insert ⟨handle, system.serial⟩ wakeCondition = some scheduler ∧
      (Kept system.waiting scheduler.entries (system.newEntry handle wakeCondition) ↔
        system.waiting.length < N) := by
  rcases Holds.insert reachable.valid ⟨handle, system.serial⟩ wakeCondition with
    ⟨scheduler, insertEq, holds⟩
  have new : system.newEntry handle wakeCondition ∉ system.waiting := by
    intro member
    exact lt_irrefl _ (reachable.accounted.waiting_fresh member)
  have keptIff : Kept system.waiting scheduler.entries (system.newEntry handle wakeCondition) ↔
      system.waiting.length < N := by
    rw [holds.entries_eq]
    exact kept_inserted_iff new
  exact ⟨scheduler, insertEq, keptIff⟩

/-- `await_suspend` always returns, and the suspended co-routine and all others
are kept exactly when fewer than `N` entries waited. -/
theorem awaitSuspend_kept_iff [NeZero N] :
    (∀ (system : System ScheduleByDelay H N) (awaitable : AwaitableTimer) (clock : Clock)
      (now : Int) (handle : H), system.Reachable →
      ∃ scheduler, awaitable.awaitSuspend clock now system.scheduler ⟨handle, system.serial⟩ =
          some scheduler ∧
        (Kept system.waiting scheduler.entries
            (system.newEntry handle (makeCondition clock now awaitable.delay_)) ↔
          system.waiting.length < N)) ∧
    (∀ (system : System ScheduleByPriority H N) (awaitable : AwaitablePriority) (handle : H),
      system.Reachable →
      ∃ scheduler, awaitable.awaitSuspend system.scheduler ⟨handle, system.serial⟩ =
          some scheduler ∧
        (Kept system.waiting scheduler.entries
            (system.newEntry handle ⟨awaitable.priority_⟩) ↔
          system.waiting.length < N)) ∧
    (∀ (system : UnorderedSystem H N) (awaitable : AwaitableUnordered) (handle : H),
      system.Reachable →
      (Kept system.waiting
          (awaitable.awaitSuspend system.scheduler ⟨handle, system.serial⟩).entries
          ⟨handle, system.serial⟩ ↔
        system.waiting.length < N)) := by
  constructor
  · intro system awaitable clock now handle reachable
    exact reachable.insert_kept_iff handle _
  · constructor
    · intro system awaitable handle reachable
      exact reachable.insert_kept_iff handle _
    · intro system awaitable handle reachable
      have balanced := reachable.balanced
      have new : (⟨handle, system.serial⟩ : Insertion H) ∉ system.waiting := by
        intro member
        exact lt_irrefl _ (balanced.waiting_fresh member)
      have holds := balanced.holds.insert ⟨handle, system.serial⟩
      rw [AwaitableUnordered.awaitSuspend, holds.entries_eq]
      exact kept_appended_iff new

/-- Two co-routines wait. -/
def twoWaiting (N : Nat) [NeZero N] : System ScheduleByPriority Nat N :=
  System.after [.insert 1 ⟨3⟩, .insert 2 ⟨2⟩]

theorem awaitSuspend_kept_twoWaiting :
    ∃ scheduler, AwaitablePriority.awaitSuspend ⟨5⟩ (twoWaiting 3).scheduler ⟨3, 2⟩ =
        some scheduler ∧
      Kept (twoWaiting 3).waiting scheduler.entries ⟨⟨3, 2⟩, ⟨5⟩⟩ := by
  rcases (awaitSuspend_kept_iff (H := Nat) (N := 3)).2.1 (twoWaiting 3) ⟨5⟩ 3
    (System.after_reachable _) with ⟨scheduler, suspendEq, keptIff⟩
  exact ⟨scheduler, suspendEq, keptIff.mpr (by decide)⟩

/-- With room for two, a third co-routine is dropped without notice. -/
theorem awaitSuspend_drops_twoWaiting :
    (twoWaiting 2).Reachable ∧
      ∃ scheduler, AwaitablePriority.awaitSuspend ⟨5⟩ (twoWaiting 2).scheduler ⟨3, 2⟩ =
          some scheduler ∧
        scheduler.entries.map (fun entry => entry.handle_.handle) = [1, 2] ∧
        ¬ Kept (twoWaiting 2).waiting scheduler.entries ⟨⟨3, 2⟩, ⟨5⟩⟩ := by
  constructor
  · exact System.after_reachable _
  · have entriesEq : (AwaitablePriority.awaitSuspend ⟨5⟩ (twoWaiting 2).scheduler ⟨3, 2⟩).map
        SchedulerOrdered.entries = some [⟨⟨1, 0⟩, ⟨3⟩⟩, ⟨⟨2, 1⟩, ⟨2⟩⟩] := by decide
    rcases Option.map_eq_some_iff.mp entriesEq with ⟨scheduler, suspendEq, entries⟩
    have dropped : ¬ Kept (twoWaiting 2).waiting scheduler.entries ⟨⟨3, 2⟩, ⟨5⟩⟩ := by
      rintro ⟨member, _⟩
      rw [entries] at member
      exact absurd member (by decide)
    exact ⟨scheduler, suspendEq, by rw [entries]; rfl, dropped⟩

end BaremetalCoro
