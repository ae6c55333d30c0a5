import BaremetalCoro.Scheduler.Report

/-!
# Sleeping for the reported delay

A caller that finds nothing due takes the `delay()` of the soonest entry and
calls `resume` again once that much time has passed.  `delay()` counts down to
the expiry itself, while `ready_to_wake` asks for a time strictly after it, so
the two comparisons disagree at exactly one reading of the clock, and it is the
one the sleep ends at.
-/

namespace BaremetalCoro

open SchedulerOrdered

namespace ScheduleByDelay

/-- Once nothing is left to wait, the condition is ready, and only then. -/
def ZeroWhenReady (this : ScheduleByDelay) : Prop :=
  ∀ now, this.delay now = 0 ↔ readyToWake this (immediate now) = true

theorem delay_eq_zero_iff (this : ScheduleByDelay) (now : Int) :
    this.delay now = 0 ↔ this.expires_ ≤ now := by
  unfold delay
  split
  · omega
  · omega

/-- At the expiry itself there is nothing left to wait, yet the condition is
not ready. -/
theorem not_zeroWhenReady (this : ScheduleByDelay) : ¬ this.ZeroWhenReady := by
  intro agree
  have ready := (agree this.expires_).mp ((this.delay_eq_zero_iff this.expires_).mpr le_rfl)
  exact absurd ((readyToWake_iff _ _).mp ready) (lt_irrefl this.expires_)

/-- A condition that is not ready has not expired. -/
theorem le_expires_of_not_ready {this : ScheduleByDelay} {now : Int}
    (notReady : readyToWake this (immediate now) = false) : now ≤ this.expires_ := by
  by_contra passed
  rw [(readyToWake_iff this (immediate now)).mpr (not_le.mp passed)] at notReady
  contradiction

/-- The delay of a condition that is not ready ends at its expiry. -/
theorem add_delay {this : ScheduleByDelay} {now : Int} (le : now ≤ this.expires_) :
    now + this.delay now = this.expires_ := by
  unfold delay
  split
  · omega
  · omega

end ScheduleByDelay

namespace System

variable {H : Type} {N : Nat} [NeZero N]

/-- Sleeping for the delay of an entry is enough: a `resume` at the time it has
passed resumes the entry. -/
def DelaySuffices (system : System ScheduleByDelay H N)
    (entry : ScheduleEntry ScheduleByDelay (Insertion H)) (now : Int) : Prop :=
  ∃ next, system.step
      (.resume (ScheduleByDelay.immediate (now + entry.wakeCondition_.delay now))) = some next ∧
    entry ∈ next.resumed

/-- Nothing is ready when the delay of the soonest entry has passed: the call
finds nothing due once more and leaves everything as it is. -/
theorem Reachable.resume_after_delay {system : System ScheduleByDelay H N}
    (reachable : system.Reachable) {now : Int}
    (notReady : ∀ other ∈ system.waiting,
      other.readyToWake (ScheduleByDelay.immediate now) = false)
    {entry : ScheduleEntry ScheduleByDelay (Insertion H)} (waits : entry ∈ system.waiting)
    (soonest : ∀ other ∈ system.waiting,
      entry.wakeCondition_.expires_ ≤ other.wakeCondition_.expires_) :
    system.step (.resume (ScheduleByDelay.immediate (now + entry.wakeCondition_.delay now))) =
      some system := by
  have ends := ScheduleByDelay.add_delay
    (ScheduleByDelay.le_expires_of_not_ready (notReady entry waits))
  rw [ends]
  have stillNotReady : ∀ other ∈ system.waiting, ¬ other.readyToWake
      (ScheduleByDelay.immediate entry.wakeCondition_.expires_) = true := by
    intro other member ready
    exact absurd ((ScheduleByDelay.readyToWake_iff _ _).mp ready)
      (not_lt.mpr (soonest other member))
  rcases reachable.valid.step
    (.resume (ScheduleByDelay.immediate entry.wakeCondition_.expires_)) (by simp) with
    ⟨next, stepEq, _, effect⟩
  cases effect with
  | @resumed _ skipped rest first before _ ready =>
      have member : first ∈ system.waiting := by
        rw [before]
        exact List.mem_append_right skipped List.mem_cons_self
      exact absurd ready (stillNotReady first member)
  | idle _ same =>
      rw [stepEq, same]

/-- Sleeping for the reported delay is never enough: from every reachable state
with nothing due, the call at the end of the delay of the soonest entry does
not resume it.  Neither does a delay of zero tell that an entry is ready. -/
theorem delay_never_suffices {system : System ScheduleByDelay H N}
    (reachable : system.Reachable) {now : Int}
    (notReady : ∀ other ∈ system.waiting,
      other.readyToWake (ScheduleByDelay.immediate now) = false)
    {entry : ScheduleEntry ScheduleByDelay (Insertion H)} (waits : entry ∈ system.waiting)
    (soonest : ∀ other ∈ system.waiting,
      entry.wakeCondition_.expires_ ≤ other.wakeCondition_.expires_) :
    ¬ system.DelaySuffices entry now ∧ ¬ entry.wakeCondition_.ZeroWhenReady := by
  constructor
  · rintro ⟨next, stepped, ran⟩
    rw [reachable.resume_after_delay notReady waits soonest] at stepped
    cases stepped
    exact reachable.accounted.not_resumed_of_waiting waits ran
  · exact entry.wakeCondition_.not_zeroWhenReady

/-- The entry of the only waiting co-routine. -/
def onlyEntry : ScheduleEntry ScheduleByDelay (Insertion Nat) := ⟨⟨1, 0⟩, ⟨5⟩⟩

theorem delay_never_suffices_oneDelay : ¬ (oneDelay 2).DelaySuffices onlyEntry 3 := by
  have reachable : (oneDelay 2).Reachable := after_reachable _
  have notReady : ∀ other ∈ (oneDelay 2).waiting,
      other.readyToWake (ScheduleByDelay.immediate 3) = false := by decide
  exact (delay_never_suffices reachable notReady (by decide) (by decide)).1

/-- With expiry 5 at time 3 the delay is 2, and the call at time 5 resumes
nothing. -/
theorem not_resumed_after_delay_oneDelay :
    (oneDelay 2).Reachable ∧ onlyEntry.wakeCondition_.delay 3 = 2 ∧
      ((oneDelay 2).step (.resume (ScheduleByDelay.immediate 5))).map System.resumed = some [] ∧
      ¬ (oneDelay 2).DelaySuffices onlyEntry 3 := by
  have nothing : ((oneDelay 2).step (.resume (ScheduleByDelay.immediate 5))).map System.resumed =
      some [] := by decide
  refine ⟨after_reachable _, by decide, nothing, ?_⟩
  rintro ⟨next, stepped, ran⟩
  have same : ((oneDelay 2).step (.resume (ScheduleByDelay.immediate 5))) = some next := stepped
  rw [same, Option.map_some, Option.some.injEq] at nothing
  rw [nothing] at ran
  contradiction

end System

end BaremetalCoro
