import BaremetalCoro.Tasks.ResumingOnPriority

/-!
# Run to completion

A task that has been resumed waits with a higher priority than before, and the
one that was resumed already had the highest.  So it stays in front of all
others until it is done: tasks on a priority scheduler run to completion, the
one started last first.

All this ends at the largest `int`.  A task that gets that far waits with a
negative priority from then on, and calls of `resume` with the priority zero
never reach it again.
-/

namespace BaremetalCoro.PrioritySystem

open SchedulerOrdered

variable {k N : Nat}

/-- The entry is the one its task waits with. -/
def Waits (system : PrioritySystem k N) (entry : ScheduleEntry ScheduleByPriority (Fin k)) :
    Prop :=
  (system.frames entry.handle_).status = .suspended ∧
    entry.wakeCondition_ = ⟨toInt (system.frames entry.handle_).i⟩

/-- The counters of a task agree with its state. -/
structure FrameValid (runCount : Nat) (frame : TaskFrame) : Prop where
  counted : frame.resumeCount = frame.i
  status : match frame.status with
    | .unstarted => frame.i = 0
    | .suspended => frame.i < runCount
    | .finished => frame.i = runCount

/-- The list is well formed and holds the entries of the suspended tasks, each
once. -/
structure Consistent (runCount : Fin k → Nat) (system : PrioritySystem k N) : Prop where
  holds : system.scheduler.Holds system.waiting
  nodup : system.handles.Nodup
  entries : ∀ entry, entry ∈ system.waiting ↔ system.Waits entry
  frames : ∀ j, FrameValid (runCount j) (system.frames j)
  logged : ∀ j, system.log.count j = (system.frames j).i

/-- Task `j` has control at the head of its loop, before turn `i`. -/
structure Running (runCount : Fin k → Nat) (j : Fin k) (i : Nat) (system : PrioritySystem k N) :
    Prop where
  holds : system.scheduler.Holds system.waiting
  nodup : (j :: system.handles).Nodup
  entries : ∀ entry, entry.handle_ ≠ j → (entry ∈ system.waiting ↔ system.Waits entry)
  frames : ∀ other, other ≠ j → FrameValid (runCount other) (system.frames other)
  logged : ∀ other, system.log.count other = if other = j then i else (system.frames other).i
  bound : i ≤ runCount j

variable {runCount : Fin k → Nat}

/-- The entry task `j` waits with in turn `i`. -/
def entryAt (j : Fin k) (i : Nat) : ScheduleEntry ScheduleByPriority (Fin k) :=
  ⟨j, ⟨toInt i⟩⟩

@[simp]
theorem entryAt_priority (j : Fin k) (i : Nat) :
    (entryAt j i).wakeCondition_.priority_ = toInt i :=
  rfl

/-- The list after task `j` ran on to turn `i`. -/
def requeued (runCount : Fin k → Nat) (waiting : List (ScheduleEntry ScheduleByPriority (Fin k)))
    (j : Fin k) (i : Nat) : List (ScheduleEntry ScheduleByPriority (Fin k)) :=
  if i < runCount j then waiting.orderedInsert Precedes (entryAt j i) else waiting

theorem Running.room {system : PrioritySystem k N} {j : Fin k} {i : Nat}
    (running : system.Running runCount j i) (fits : k ≤ N) : system.waiting.length < N := by
  have bound := running.nodup.length_le_card
  rw [Fintype.card_fin, List.length_cons, handles, List.length_map] at bound
  exact bound.trans fits

/-- The frame of a task that gave control back before turn `i`. -/
def frameAt (runCount i : Nat) : TaskFrame :=
  ⟨i, i, if i < runCount then .suspended else .finished⟩

theorem frameAt_started (runCount i : Nat) : (frameAt runCount i).status ≠ .unstarted := by
  unfold frameAt
  split <;> simp

theorem frameAt_valid {runCount i : Nat} (bound : i ≤ runCount) :
    FrameValid runCount (frameAt runCount i) := by
  constructor
  · rfl
  · unfold frameAt
    by_cases more : i < runCount
    · simp [more]
    · simpa [more] using Nat.le_antisymm bound (Nat.le_of_not_lt more)

/-- A running task gives control back and waits again if it has turns left. -/
theorem Running.loopHead {system : PrioritySystem k N} {j : Fin k} {i : Nat}
    (running : system.Running runCount j i) (fits : k ≤ N) :
    ∃ returned, ResumingOnPriority.loopHead (runCount j) system.scheduler j i i = some returned ∧
      returned.1 = frameAt (runCount j) i ∧
      returned.2.Holds (requeued runCount system.waiting j i) := by
  unfold ResumingOnPriority.loopHead requeued frameAt
  by_cases more : i < runCount j
  · rcases running.holds.insert j ⟨toInt i⟩ with ⟨scheduler, insertEq, holds⟩
    rw [inserted, if_pos (running.room fits)] at holds
    rw [if_pos more, if_pos more, if_pos more]
    refine ⟨(⟨i, i, .suspended⟩, scheduler), ?_, rfl, holds⟩
    rw [AwaitablePriority.awaitSuspend, insertEq]
    rfl
  · rw [if_neg more, if_neg more, if_neg more]
    exact ⟨_, rfl, rfl, running.holds⟩

theorem mem_requeued {waiting : List (ScheduleEntry ScheduleByPriority (Fin k))} {j : Fin k}
    {i : Nat} (entry : ScheduleEntry ScheduleByPriority (Fin k)) :
    entry ∈ requeued runCount waiting j i ↔
      (i < runCount j ∧ entry = entryAt j i) ∨ entry ∈ waiting := by
  unfold requeued
  by_cases more : i < runCount j
  · rw [if_pos more, List.mem_orderedInsert]
    simp [more]
  · rw [if_neg more]
    simp [more]

/-- Everything is where it should be once a task gave control back. -/
theorem Running.settle {system : PrioritySystem k N} {j : Fin k} {i : Nat}
    (running : system.Running runCount j i)
    {returned : TaskFrame × SchedulerOrdered ScheduleByPriority (Fin k) N}
    (frameEq : returned.1 = frameAt (runCount j) i)
    (holds : returned.2.Holds (requeued runCount system.waiting j i)) :
    (system.afterTask j returned).Consistent runCount := by
  have waitingEq : (system.afterTask j returned).waiting = requeued runCount system.waiting j i :=
    holds.entries_eq
  have own : (system.afterTask j returned).frames j = frameAt (runCount j) i := by
    rw [← frameEq]
    exact Function.update_self j _ system.frames
  have others : ∀ other, other ≠ j →
      (system.afterTask j returned).frames other = system.frames other := by
    intro other different
    exact Function.update_of_ne different _ _
  have absent : ∀ entry ∈ system.waiting, entry.handle_ ≠ j := by
    intro entry member isTask
    exact (List.nodup_cons.mp running.nodup).1 (List.mem_map.mpr ⟨entry, member, isTask⟩)
  constructor
  · rw [waitingEq]
    exact holds
  · rw [handles, waitingEq, requeued]
    split
    · exact ((List.perm_orderedInsert _ _ _).map _).nodup_iff.mpr running.nodup
    · exact (List.nodup_cons.mp running.nodup).2
  · intro entry
    rw [waitingEq, mem_requeued, Waits]
    by_cases isTask : entry.handle_ = j
    · rw [isTask, own]
      constructor
      · rintro (⟨more, rfl⟩ | member)
        · exact ⟨if_pos more, rfl⟩
        · exact absurd isTask (absent entry member)
      · rintro ⟨suspended, wake⟩
        left
        constructor
        · by_contra last
          rw [frameAt, if_neg last] at suspended
          contradiction
        · calc
            entry = ⟨entry.handle_, entry.wakeCondition_⟩ := rfl
            _ = entryAt j i := congrArg₂ ScheduleEntry.mk isTask wake
    · rw [others _ isTask]
      constructor
      · rintro (⟨_, rfl⟩ | member)
        · exact absurd rfl isTask
        · exact (running.entries entry isTask).mp member
      · intro waits
        exact Or.inr ((running.entries entry isTask).mpr waits)
  · intro other
    by_cases same : other = j
    · rw [same, own]
      exact frameAt_valid running.bound
    · rw [others other same]
      exact running.frames other same
  · intro other
    refine (running.logged other).trans ?_
    by_cases same : other = j
    · rw [if_pos same, same, own]
      rfl
    · rw [if_neg same, others other same]

/-! ## What the actions do -/

/-- A task that waits has turns left. -/
theorem Consistent.turns_left {system : PrioritySystem k N}
    (consistent : system.Consistent runCount)
    {entry : ScheduleEntry ScheduleByPriority (Fin k)} (member : entry ∈ system.waiting) :
    (system.frames entry.handle_).i < runCount entry.handle_ := by
  have status := (consistent.frames entry.handle_).status
  rw [((consistent.entries entry).mp member).1] at status
  exact status

/-- A task that was not called does not wait. -/
theorem Consistent.not_waiting {system : PrioritySystem k N}
    (consistent : system.Consistent runCount) {j : Fin k}
    (unstarted : (system.frames j).status = .unstarted) : j ∉ system.handles := by
  intro member
  rcases List.mem_map.mp member with ⟨entry, inList, rfl⟩
  have suspended := ((consistent.entries entry).mp inList).1
  rw [unstarted] at suspended
  contradiction

/-- The main program calls a task that was not called yet. -/
theorem Consistent.start {system : PrioritySystem k N} (consistent : system.Consistent runCount)
    (fits : k ≤ N) {j : Fin k} (unstarted : (system.frames j).status = .unstarted) :
    ∃ next, step runCount system (.start j) = some next ∧ next.Consistent runCount ∧
      next.waiting = requeued runCount system.waiting j 0 ∧ next.log = system.log ∧
      next.frames = Function.update system.frames j (frameAt (runCount j) 0) := by
  have turn : (system.frames j).i = 0 := by
    have status := (consistent.frames j).status
    rw [unstarted] at status
    exact status
  have running : system.Running runCount j 0 := by
    refine ⟨consistent.holds,
      List.nodup_cons.mpr ⟨consistent.not_waiting unstarted, consistent.nodup⟩, ?_, ?_, ?_,
      Nat.zero_le _⟩
    · intro entry _
      exact consistent.entries entry
    · intro other _
      exact consistent.frames other
    · intro other
      rw [consistent.logged other]
      by_cases same : other = j
      · rw [if_pos same, same, turn]
      · rw [if_neg same]
  rcases running.loopHead fits with ⟨returned, loopEq, frameEq, holds⟩
  refine ⟨system.afterTask j returned, ?_, running.settle frameEq holds, holds.entries_eq, rfl, ?_⟩
  · simp only [step, unstarted, loopEq, Option.map_some]
  · rw [← frameEq]
    rfl

/-- A call of `resume` resumes the first task whose priority suffices, or finds
none and does nothing. -/
theorem Consistent.resume_cases {system : PrioritySystem k N}
    (consistent : system.Consistent runCount) (fits : k ≤ N) (priority : Int) :
    (∃ skipped entry rest next, system.waiting = skipped ++ entry :: rest ∧
      (∀ other ∈ skipped, other.wakeCondition_.priority_ < priority) ∧
      priority ≤ entry.wakeCondition_.priority_ ∧
      step runCount system (.resume priority) = some next ∧ next.Consistent runCount ∧
      next.waiting = requeued runCount (skipped ++ rest) entry.handle_
        ((system.frames entry.handle_).i + 1) ∧
      next.log = system.log ++ [entry.handle_] ∧
      next.frames = Function.update system.frames entry.handle_
        (frameAt (runCount entry.handle_) ((system.frames entry.handle_).i + 1))) ∨
    ((∀ entry ∈ system.waiting, entry.wakeCondition_.priority_ < priority) ∧
      step runCount system (.resume priority) = some system) := by
  have notReady : ∀ entry : ScheduleEntry ScheduleByPriority (Fin k),
      entry.readyToWake ⟨priority⟩ = false → entry.wakeCondition_.priority_ < priority := by
    intro entry isFalse
    by_contra high
    have ready := (ScheduleByPriority.readyToWake_iff entry.wakeCondition_ ⟨priority⟩).mpr
      (not_lt.mp high)
    exact Bool.false_ne_true (isFalse.symm.trans ready)
  rcases consistent.holds.resume_cases ⟨priority⟩ with
    ⟨skipped, entry, rest, scheduler, before, passed, ready, resumeEq, holds⟩ | ⟨passed, resumeEq⟩
  · left
    have member : entry ∈ system.waiting := by
      rw [before]
      exact List.mem_append_right skipped List.mem_cons_self
    have suspended := ((consistent.entries entry).mp member).1
    have more := consistent.turns_left member
    have perm : system.waiting.Perm (entry :: (skipped ++ rest)) := by
      rw [before]
      exact List.perm_middle
    have waitingEq : (system.resumeTask entry.handle_ scheduler).waiting = skipped ++ rest :=
      holds.entries_eq
    have running : (system.resumeTask entry.handle_ scheduler).Running runCount entry.handle_
        ((system.frames entry.handle_).i + 1) := by
      refine ⟨?_, ?_, ?_, ?_, ?_, more⟩
      · rw [waitingEq]
        exact holds
      · rw [handles, waitingEq]
        exact (perm.map ScheduleEntry.handle_).nodup_iff.mp consistent.nodup
      · intro other different
        have isOther : other ≠ entry := by
          rintro rfl
          exact different rfl
        refine Iff.trans ?_ (consistent.entries other)
        rw [waitingEq, perm.mem_iff, List.mem_cons]
        simp [isOther]
      · intro other _
        exact consistent.frames other
      · intro other
        change (system.log ++ [entry.handle_]).count other = _
        rw [List.count_append, consistent.logged other, List.count_singleton]
        by_cases same : other = entry.handle_
        · simp [same]
        · simp [same, Ne.symm same, resumeTask]
    rcases running.loopHead fits with ⟨returned, loopEq, frameEq, holds'⟩
    refine ⟨skipped, entry, rest, _, before, ?_, ?_, ?_, running.settle frameEq holds', ?_, rfl, ?_⟩
    · intro other inSkipped
      exact notReady other (passed other inSkipped)
    · exact (ScheduleByPriority.readyToWake_iff _ _).mp ready
    · have taskEq : ResumingOnPriority.resume (runCount entry.handle_) scheduler entry.handle_
          (system.frames entry.handle_) = some returned := by
        rw [ResumingOnPriority.resume, suspended]
        exact loopEq
      simp only [step, resumeEq, bind, Option.bind_some, taskEq, Option.map_some]
    · rw [← waitingEq]
      exact holds'.entries_eq
    · rw [← frameEq]
      rfl
  · right
    constructor
    · intro entry member
      exact notReady entry (passed entry member)
    · simp only [step, resumeEq, bind, Option.bind_some]

theorem init_consistent [NeZero N]
    (buffer : Fin N → StaticListNode (ScheduleEntry ScheduleByPriority (Fin k)) N) :
    (init buffer : PrioritySystem k N).Consistent runCount := by
  have waitingEq : (init buffer : PrioritySystem k N).waiting = [] :=
    (SchedulerOrdered.init_holds buffer).entries_eq
  constructor
  · rw [waitingEq]
    exact SchedulerOrdered.init_holds buffer
  · rw [handles, waitingEq]
    exact List.nodup_nil
  · intro entry
    rw [waitingEq]
    simp [Waits, init]
  · intro j
    exact ⟨rfl, rfl⟩
  · intro j
    rfl

/-! ## The order of resumptions -/

/-- The resumptions of tasks that run to completion, the one started last
first. -/
def schedule (runCount : Fin k → Nat) (order : List (Fin k)) : List (Fin k) :=
  order.reverse.flatMap fun j => List.replicate (runCount j) j

/-- The resumptions that are left when the tasks of a list run to completion
one after the other. -/
def ahead (runCount : Fin k → Nat) (frames : Fin k → TaskFrame)
    (waiting : List (ScheduleEntry ScheduleByPriority (Fin k))) : List (Fin k) :=
  waiting.flatMap fun entry =>
    List.replicate (runCount entry.handle_ - (frames entry.handle_).i) entry.handle_

/-- A task whose priority is not below any other goes to the front. -/
theorem requeued_eq {waiting : List (ScheduleEntry ScheduleByPriority (Fin k))} {j : Fin k}
    {i : Nat} (more : i < runCount j)
    (highest : ∀ entry ∈ waiting, entry.wakeCondition_.priority_ ≤ toInt i) :
    requeued runCount waiting j i = entryAt j i :: waiting := by
  rw [requeued, if_pos more]
  cases waiting with
  | nil => rfl
  | cons first rest =>
      rw [List.orderedInsert_cons, if_pos]
      apply (ScheduleByPriority.readyToWake_iff _ _).mpr
      rw [entryAt_priority]
      exact highest first List.mem_cons_self

theorem ahead_update {waiting : List (ScheduleEntry ScheduleByPriority (Fin k))}
    {frames : Fin k → TaskFrame} {j : Fin k} (frame : TaskFrame)
    (absent : j ∉ waiting.map ScheduleEntry.handle_) :
    ahead runCount (Function.update frames j frame) waiting = ahead runCount frames waiting := by
  apply List.flatMap_congr
  intro entry member
  have different : entry.handle_ ≠ j := by
    intro isTask
    exact absent (List.mem_map.mpr ⟨entry, member, isTask⟩)
  rw [Function.update_of_ne different]

/-- A task in front of the others has all its resumptions before theirs. -/
theorem ahead_requeued {waiting : List (ScheduleEntry ScheduleByPriority (Fin k))}
    {frames : Fin k → TaskFrame} {j : Fin k} {i : Nat}
    (highest : i < runCount j → ∀ entry ∈ waiting, entry.wakeCondition_.priority_ ≤ toInt i)
    (absent : j ∉ waiting.map ScheduleEntry.handle_) :
    ahead runCount (Function.update frames j (frameAt (runCount j) i))
        (requeued runCount waiting j i) =
      List.replicate (runCount j - i) j ++ ahead runCount frames waiting := by
  by_cases more : i < runCount j
  · rw [requeued_eq more (highest more), ← ahead_update (frameAt (runCount j) i) absent]
    change List.replicate (runCount j - (Function.update frames j _ j).i) j ++ _ = _
    rw [Function.update_self]
    rfl
  · rw [requeued, if_neg more, ahead_update _ absent,
      Nat.sub_eq_zero_of_le (Nat.le_of_not_lt more)]
    rfl

/-- While the tasks are started, in the given order so far. -/
structure Starting (runCount : Fin k → Nat) (order : List (Fin k)) (system : PrioritySystem k N) :
    Prop where
  consistent : system.Consistent runCount
  started : ∀ j, (system.frames j).status = .unstarted ↔ j ∉ order
  fresh : ∀ entry ∈ system.waiting, entry.wakeCondition_.priority_ = 0
  unresumed : system.log = []
  balance : ahead runCount system.frames system.waiting = schedule runCount order

/-- Once the tasks were started: only the first one of the list may have been
resumed, and what was resumed and what is left make up the schedule. -/
structure Serving (runCount : Fin k → Nat) (order : List (Fin k)) (system : PrioritySystem k N) :
    Prop where
  consistent : system.Consistent runCount
  started : ∀ j ∈ order, (system.frames j).status ≠ .unstarted
  fresh : ∀ entry ∈ system.waiting.tail, entry.wakeCondition_.priority_ = 0
  balance : system.log ++ ahead runCount system.frames system.waiting = schedule runCount order

theorem toInt_zero : toInt 0 = 0 :=
  toInt_of_lt (by decide)

theorem Starting.start {order : List (Fin k)} {system : PrioritySystem k N} {j : Fin k}
    (starting : system.Starting runCount order) (fits : k ≤ N) (new : j ∉ order) :
    ∃ next, step runCount system (.start j) = some next ∧
      next.Starting runCount (order ++ [j]) := by
  have unstarted := (starting.started j).mpr new
  rcases starting.consistent.start fits unstarted with
    ⟨next, stepEq, consistent, waitingEq, logEq, framesEq⟩
  have highest : 0 < runCount j →
      ∀ entry ∈ system.waiting, entry.wakeCondition_.priority_ ≤ toInt 0 := by
    intro _ entry member
    rw [starting.fresh entry member, toInt_zero]
  have absent := starting.consistent.not_waiting unstarted
  refine ⟨next, stepEq, consistent, ?_, ?_, logEq.trans starting.unresumed, ?_⟩
  · intro other
    rw [framesEq, List.mem_append, List.mem_singleton, not_or, ← starting.started other]
    by_cases same : other = j
    · rw [same, Function.update_self]
      simp [frameAt_started]
    · rw [Function.update_of_ne same]
      simp [same]
  · intro entry member
    rw [waitingEq, mem_requeued] at member
    rcases member with ⟨_, rfl⟩ | old
    · exact toInt_zero
    · exact starting.fresh entry old
  · rw [framesEq, waitingEq, ahead_requeued highest absent, starting.balance, schedule, schedule,
      List.reverse_append, List.reverse_singleton, List.singleton_append, List.flatMap_cons,
      Nat.sub_zero]

theorem Starting.serving {order : List (Fin k)} {system : PrioritySystem k N}
    (starting : system.Starting runCount order) : system.Serving runCount order := by
  refine ⟨starting.consistent, ?_, ?_, ?_⟩
  · intro j member unstarted
    exact (starting.started j).mp unstarted member
  · intro entry member
    exact starting.fresh entry (List.mem_of_mem_tail member)
  · rw [starting.unresumed, List.nil_append, starting.balance]

theorem init_starting [NeZero N]
    (buffer : Fin N → StaticListNode (ScheduleEntry ScheduleByPriority (Fin k)) N) :
    (init buffer : PrioritySystem k N).Starting runCount [] := by
  have waitingEq : (init buffer : PrioritySystem k N).waiting = [] :=
    (SchedulerOrdered.init_holds buffer).entries_eq
  refine ⟨init_consistent buffer, ?_, ?_, rfl, ?_⟩
  · intro j
    simp [init]
  · rw [waitingEq]
    intro entry member
    contradiction
  · rw [waitingEq]
    rfl

section Small

variable (small : ∀ j, runCount j ≤ 2 ^ 31)

include small

/-- As long as the counters fit, no task waits with a negative priority. -/
theorem Consistent.priority_nonneg {system : PrioritySystem k N}
    (consistent : system.Consistent runCount)
    {entry : ScheduleEntry ScheduleByPriority (Fin k)} (member : entry ∈ system.waiting) :
    0 ≤ entry.wakeCondition_.priority_ := by
  have more := consistent.turns_left member
  rw [((consistent.entries entry).mp member).2, toInt_of_lt (more.trans_le (small entry.handle_))]
  exact Int.natCast_nonneg _

/-- A call either resumes the first task, which stays in front while it is not
done, or does nothing; the latter only if its priority is positive or no task
is left. -/
theorem Serving.resume {order : List (Fin k)} {system : PrioritySystem k N}
    (serving : system.Serving runCount order) (fits : k ≤ N) (priority : Int) :
    ∃ next, step runCount system (.resume priority) = some next ∧
      next.Serving runCount order ∧
      ((∃ j, next.log = system.log ++ [j]) ∨
        (next = system ∧ (priority ≤ 0 → system.log = schedule runCount order))) := by
  rcases serving.consistent.resume_cases fits priority with
    ⟨skipped, entry, rest, next, before, passed, ready, stepEq, consistent, waitingEq, logEq,
      framesEq⟩ | ⟨passed, stepEq⟩
  · -- the others wait with priority zero, so the first one is ready if any is
    have first : skipped = [] := by
      cases skipped with
      | nil => rfl
      | cons other skipped =>
          have fresh := serving.fresh
          rw [before] at fresh
          have zero := fresh entry (List.mem_append_right skipped List.mem_cons_self)
          have low := passed other List.mem_cons_self
          have nonneg : 0 ≤ other.wakeCondition_.priority_ := by
            apply serving.consistent.priority_nonneg small
            rw [before]
            exact List.mem_cons_self
          rw [zero] at ready
          omega
    subst first
    rw [List.nil_append] at before waitingEq
    have fresh : ∀ other ∈ rest, other.wakeCondition_.priority_ = 0 := by
      have fresh := serving.fresh
      rw [before] at fresh
      exact fresh
    have nodup := serving.consistent.nodup
    rw [handles, before, List.map_cons, List.nodup_cons] at nodup
    have member : entry ∈ system.waiting := by
      rw [before]
      exact List.mem_cons_self
    have more := serving.consistent.turns_left member
    have highest : (system.frames entry.handle_).i + 1 < runCount entry.handle_ →
        ∀ other ∈ rest, other.wakeCondition_.priority_ ≤
          toInt ((system.frames entry.handle_).i + 1) := by
      intro left other inRest
      rw [fresh other inRest, toInt_of_lt (left.trans_le (small entry.handle_))]
      exact Int.natCast_nonneg _
    refine ⟨next, stepEq, ⟨consistent, ?_, ?_, ?_⟩, Or.inl ⟨_, logEq⟩⟩
    · intro j member
      rw [framesEq]
      by_cases same : j = entry.handle_
      · rw [same, Function.update_self]
        exact frameAt_started _ _
      · rw [Function.update_of_ne same]
        exact serving.started j member
    · rw [waitingEq]
      by_cases left : (system.frames entry.handle_).i + 1 < runCount entry.handle_
      · rw [requeued_eq left (highest left)]
        exact fresh
      · rw [requeued, if_neg left]
        intro other inTail
        exact fresh other (List.mem_of_mem_tail inTail)
    · have turns : runCount entry.handle_ - (system.frames entry.handle_).i =
          runCount entry.handle_ - ((system.frames entry.handle_).i + 1) + 1 := by
        omega
      rw [logEq, framesEq, waitingEq, ahead_requeued highest nodup.1, ← serving.balance, before,
        List.append_assoc, ahead, ahead, List.flatMap_cons, turns, List.replicate_succ]
      rfl
  · refine ⟨system, stepEq, serving, Or.inr ⟨rfl, ?_⟩⟩
    intro low
    have nothing : system.waiting = [] := by
      apply List.eq_nil_iff_forall_not_mem.mpr
      intro entry member
      have below := passed entry member
      have nonneg := serving.consistent.priority_nonneg small member
      omega
    rw [← serving.balance, nothing]
    exact (List.append_nil _).symm

end Small

theorem Serving.resumeCount_eq {order : List (Fin k)} {system : PrioritySystem k N}
    (serving : system.Serving runCount order) (j : Fin k) :
    system.resumeCount j = system.log.count j :=
  (serving.consistent.frames j).counted.trans (serving.consistent.logged j).symm

theorem Serving.log_length_le {order : List (Fin k)} {system : PrioritySystem k N}
    (serving : system.Serving runCount order) :
    system.log.length ≤ (schedule runCount order).length :=
  List.IsPrefix.length_le ⟨_, serving.balance⟩

/-! ## The main program -/

/-- A task that gives control back has been started. -/
theorem loopHead_started {runCount : Nat}
    {scheduler : SchedulerOrdered ScheduleByPriority (Fin k) N} {j : Fin k} {i resumeCount : Nat}
    {returned : TaskFrame × SchedulerOrdered ScheduleByPriority (Fin k) N}
    (loopEq : ResumingOnPriority.loopHead runCount scheduler j i resumeCount = some returned) :
    returned.1.status ≠ .unstarted := by
  rw [ResumingOnPriority.loopHead] at loopEq
  split at loopEq
  · rcases Option.bind_eq_some_iff.mp loopEq with ⟨scheduler', _, suspended⟩
    cases Option.some.inj suspended
    exact TaskStatus.noConfusion
  · cases Option.some.inj loopEq
    exact TaskStatus.noConfusion

theorem status_afterTask (system : PrioritySystem k N) (j : Fin k)
    (returned : TaskFrame × SchedulerOrdered ScheduleByPriority (Fin k) N) :
    (system.afterTask j returned).status =
      Function.update system.status j returned.1.status :=
  Function.comp_update TaskFrame.status system.frames j returned.1

theorem step_orderly {system next : PrioritySystem k N} (act : PriorityAct k)
    (stepped : step runCount system act = some next) :
    MainProgram.Orderly status (callOf act) system next := by
  cases act with
  | start j =>
      cases hstatus : (system.frames j).status with
      | unstarted =>
          simp only [step, hstatus] at stepped
          rcases Option.map_eq_some_iff.mp stepped with ⟨returned, startEq, rfl⟩
          exact .of_update (status_afterTask system j returned) (loopHead_started startEq)
            (Or.inl ⟨rfl, hstatus⟩)
      | suspended => simp [step, hstatus] at stepped
      | finished => simp [step, hstatus] at stepped
  | resume priority =>
      rcases Option.bind_eq_some_iff.mp stepped with ⟨exit, _, stepped⟩
      cases exit with
      | idle pending condition =>
          cases stepped
          exact .of_eq rfl
      | resumed j condition scheduler skipped =>
          rcases Option.map_eq_some_iff.mp stepped with ⟨returned, resumeEq, rfl⟩
          cases hstatus : (system.frames j).status with
          | suspended =>
              simp only [ResumingOnPriority.resume, hstatus] at resumeEq
              exact .of_update (status_afterTask (system.resumeTask j scheduler) j returned)
                (loopHead_started resumeEq) (Or.inr ⟨rfl, hstatus⟩)
          | unstarted => simp [ResumingOnPriority.resume, hstatus] at resumeEq
          | finished => simp [ResumingOnPriority.resume, hstatus] at resumeEq

section Program

variable {w : Nat} {build : Build k w} {life : Lifecycle w}

/-- The main program calls tasks, and those that are given a frame start. -/
theorem run_start [NeZero N] (earlier : life.Valid build.hostEmulation) (fits : k ≤ N)
    {order : List (Fin k)} (nodup : order.Nodup)
    (buffer : Fin N → StaticListNode (ScheduleEntry ScheduleByPriority (Fin k)) N) :
    ∃ program, Transition.run (programStep build runCount) (.init life (init buffer))
        (order.map .start) = some program ∧
      program.Valid build.hostEmulation status ∧
      program.system.Starting runCount (order.filter program.granted) := by
  have starts : ∀ ⦃called : List (Fin k)⦄ ⦃j⦄ ⦃state : PrioritySystem k N⦄,
      (called ++ [j]).Nodup → state.Starting runCount called →
      ∃ next, step runCount state (.start j) = some next ∧
        next.Starting runCount (called ++ [j]) ∧
        MainProgram.Orderly status (some j) state next := by
    intro called j state nodupCalled starting
    have new : j ∉ called := by
      intro member
      exact (List.nodup_append.mp nodupCalled).2.2 j member j List.mem_cons_self rfl
    rcases starting.start fits new with ⟨next, stepEq, starting'⟩
    exact ⟨next, stepEq, starting', step_orderly (.start j) stepEq⟩
  rcases MainProgram.run_calls earlier starts (fun _ => rfl) (init_starting buffer) nodup with
    ⟨program, ran, valid, _, starting⟩
  refine ⟨program, ?_, valid, starting⟩
  rw [Transition.run_map]
  exact ran

/-- The main program calls `resume`. -/
theorem Serving.program_resume {program : MainProgram (PrioritySystem k N) k w}
    {started : List (Fin k)} (serving : program.system.Serving runCount started)
    (valid : program.Valid build.hostEmulation status) (fits : k ≤ N)
    (small : ∀ j, runCount j ≤ 2 ^ 31) (priority : Int) :
    ∃ next, programStep build runCount program (.resume priority) = some next ∧
      next.Valid build.hostEmulation status ∧ next.objects = program.objects ∧
      next.system.Serving runCount started ∧
      ((∃ j, next.system.log = program.system.log ++ [j]) ∨
        (next.system = program.system ∧
          (priority ≤ 0 → program.system.log = schedule runCount started))) := by
  rcases serving.resume small fits priority with ⟨system, stepEq, serving', resumed⟩
  rcases valid.execute (fun system => step runCount system (.resume priority)) stepEq
    (step_orderly (.resume priority) stepEq) with ⟨next, executed, rfl, objects, valid'⟩
  exact ⟨next, executed, valid', objects, serving', resumed⟩

theorem Serving.program_run {program : MainProgram (PrioritySystem k N) k w}
    {started : List (Fin k)} (serving : program.system.Serving runCount started)
    (valid : program.Valid build.hostEmulation status) (fits : k ≤ N)
    (small : ∀ j, runCount j ≤ 2 ^ 31) (calls : List Int) :
    ∃ next, Transition.run (programStep build runCount) program (calls.map .resume) =
        some next ∧
      next.Valid build.hostEmulation status ∧ next.objects = program.objects ∧
      next.system.Serving runCount started ∧
      min (program.system.log.length + calls.countP fun priority => decide (priority ≤ 0))
        (schedule runCount started).length ≤ next.system.log.length := by
  induction calls generalizing program with
  | nil => exact ⟨program, rfl, valid, rfl, serving, Nat.min_le_left _ _⟩
  | cons priority calls ih =>
      rcases serving.program_resume valid fits small priority with
        ⟨middle, stepEq, valid', objects, serving', resumed⟩
      rcases ih serving' valid' with ⟨next, ran, valid'', objects', reached, counted⟩
      refine ⟨next, Transition.run_cons_of_step stepEq ran, valid'', objects'.trans objects,
        reached, ?_⟩
      rw [List.countP_cons]
      rcases resumed with ⟨j, logged⟩ | ⟨same, served⟩
      · rw [logged, List.length_append, List.length_singleton] at counted
        split
        · omega
        · omega
      · rw [same] at counted
        split
        · rename_i low
          rw [served (of_decide_eq_true low)] at counted
          omega
        · exact counted

/-- However the main program chooses the priorities it calls `resume` with, the
tasks that were given a frame run to completion in the reverse order of their
start; a call with a priority that is not positive always resumes one, until
none is left. -/
theorem tasks_run_to_completion [NeZero N] (build : Build k w)
    (earlier : Transition.Reachable (Lifecycle.step build.hostEmulation build.TASK_HEAP_SIZE)
      .init life)
    (fits : k ≤ N) (small : ∀ j, runCount j ≤ 2 ^ 31) {order : List (Fin k)}
    (nodup : order.Nodup)
    (buffer : Fin N → StaticListNode (ScheduleEntry ScheduleByPriority (Fin k)) N)
    (calls : List Int) :
    ∃ program, Transition.run (programStep build runCount) (.init life (init buffer))
        (order.map .start ++ calls.map .resume) = some program ∧
      program.system.log <+: schedule runCount (order.filter program.granted) ∧
      (∀ j, program.system.resumeCount j = program.system.log.count j) ∧
      min (calls.countP fun priority => decide (priority ≤ 0))
        (schedule runCount (order.filter program.granted)).length ≤
          program.system.log.length ∧
      ∀ priority ≤ 0, ∃ next, programStep build runCount program (.resume priority) = some next ∧
        ((∃ j, next.system.log = program.system.log ++ [j]) ∨
          (next.system = program.system ∧
            program.system.log = schedule runCount (order.filter program.granted))) := by
  rcases run_start (Lifecycle.valid_of_reachable earlier) fits nodup buffer with
    ⟨called, startRan, validCalled, starting⟩
  rcases starting.serving.program_run validCalled fits small calls with
    ⟨program, ran, valid, objects, serving, counted⟩
  have granted : order.filter program.granted = order.filter called.granted := by
    apply List.filter_congr
    intro j _
    exact MainProgram.granted_congr (congrFun objects j)
  rw [starting.unresumed, List.length_nil, Nat.zero_add] at counted
  rw [← granted] at counted serving
  refine ⟨program, Transition.run_append_of_run startRan ran, ⟨_, serving.balance⟩,
    serving.resumeCount_eq, counted, ?_⟩
  intro priority low
  rcases serving.program_resume valid fits small priority with ⟨next, stepEq, _, _, _, resumed⟩
  refine ⟨next, stepEq, ?_⟩
  rcases resumed with grown | ⟨same, served⟩
  · exact Or.inl grown
  · exact Or.inr ⟨same, served low⟩

/-- Two tasks that wait once and twice. -/
def oneAndTwo (j : Fin 2) : Nat :=
  j.val + 1

theorem oneAndTwo_le (j : Fin 2) : oneAndTwo j ≤ 2 ^ 31 :=
  Nat.le_trans j.isLt (by decide)

/-- The second task is refused a frame, so the second call of `resume` finds
nothing left. -/
theorem tasks_run_to_completion_oneAndTwo :
    ∃ program : MainProgram (PrioritySystem 2 2) 2 32,
      Transition.run (programStep (targetBuild 2) oneAndTwo)
        (.init .init (init fun _ => ⟨none, none, none⟩))
        ((List.finRange 2).map .start ++ [0, -1].map .resume) = some program ∧
      program.system.log = [Fin.castSucc (Fin.last 0)] := by
  have facts : (Transition.run (programStep (targetBuild 2) oneAndTwo)
      (.init .init (init fun _ => ⟨none, none, none⟩) : MainProgram (PrioritySystem 2 2) 2 32)
      ((List.finRange 2).map .start ++ [0, -1].map .resume)).map
        (fun program => (List.finRange 2).filter program.granted) =
      some [Fin.castSucc (Fin.last 0)] := by
    decide
  rcases tasks_run_to_completion (targetBuild 2) (N := 2) (.refl _ _) le_rfl oneAndTwo_le
    (List.nodup_finRange 2) (fun _ => ⟨none, none, none⟩) [0, -1] with
    ⟨program, ran, served, _, counted, _⟩
  rw [ran] at facts
  have granted : (List.finRange 2).filter program.granted = [Fin.castSucc (Fin.last 0)] :=
    Option.some.inj facts
  rw [granted] at served counted
  exact ⟨program, ran, served.eq_of_length (Nat.le_antisymm served.length_le counted)⟩

/-! ## The loop of the main program -/

/-- All tasks have ended exactly when the whole schedule was served. -/
theorem Serving.allFinished_iff {order : List (Fin k)} {system : PrioritySystem k N}
    (serving : system.Serving runCount order) (all : ∀ j, j ∈ order) :
    MainProgram.AllFinished status system ↔
      system.log.length = (schedule runCount order).length := by
  have total := congrArg List.length serving.balance
  rw [List.length_append] at total
  constructor
  · intro finished
    have nothing : system.waiting = [] := by
      apply List.eq_nil_iff_forall_not_mem.mpr
      intro entry member
      have suspended := ((serving.consistent.entries entry).mp member).1
      have ended : (system.frames entry.handle_).status = .finished := finished entry.handle_
      rw [ended] at suspended
      contradiction
    rw [nothing] at total
    exact total
  · intro served j
    have nothing : ahead runCount system.frames system.waiting = [] := by
      apply List.length_eq_zero_iff.mp
      omega
    rw [status]
    cases hstatus : (system.frames j).status with
    | unstarted => exact absurd hstatus (serving.started j (all j))
    | suspended =>
        have member := (serving.consistent.entries (entryAt j (system.frames j).i)).mpr
          ⟨hstatus, rfl⟩
        have none := List.flatMap_eq_nil_iff.mp nothing _ member
        have turns : (system.frames j).i < runCount j := serving.consistent.turns_left member
        exact absurd ((List.replicate_eq_nil_iff _).mp none) (Nat.sub_ne_zero_of_lt turns)
    | finished => rfl

/-- The tasks have all ended after a turn for each resumption. -/
theorem Serving.allFinished_turns {order : List (Fin k)} {system : PrioritySystem k N}
    (serving : system.Serving runCount order) (unresumed : system.log = [])
    (all : ∀ j, j ∈ order) (fits : k ≤ N) (small : ∀ j, runCount j ≤ 2 ^ 31) :
    ∃ finish, Transition.doUntil (step runCount)
        (fun system => decide (MainProgram.AllFinished status system)) (fun _ => .resume 0)
        (max 1 (schedule runCount order).length) 0 system = some finish ∧
      finish.Serving runCount order ∧ MainProgram.AllFinished status finish := by
  have returned : ∃ finish, Transition.doUntil (step runCount)
      (fun system => decide (MainProgram.AllFinished status system)) (fun _ => .resume 0)
      (max 1 (schedule runCount order).length) 0 system = some finish ∧
      finish.Serving runCount order ∧
      decide (MainProgram.AllFinished status finish) = true := by
    refine Transition.doUntil_of_rank
      (fun system => (schedule runCount order).length - system.log.length - 1) ?_ serving ?_ 0
    · intro system _ serving
      rcases serving.resume small fits 0 with ⟨next, stepEq, serving', resumed⟩
      refine ⟨next, stepEq, serving', ?_⟩
      by_cases finished : MainProgram.AllFinished status next
      · exact Or.inl (decide_eq_true finished)
      · right
        have unserved := mt (serving'.allFinished_iff all).mpr finished
        have bound := serving'.log_length_le
        rcases resumed with ⟨j, logged⟩ | ⟨same, served⟩
        · rw [logged, List.length_append, List.length_singleton] at unserved bound ⊢
          omega
        · rw [same, served le_rfl] at unserved
          contradiction
    · rw [unresumed, List.length_nil]
      omega
  rcases returned with ⟨finish, returns, serving', finished⟩
  exact ⟨finish, returns, serving', of_decide_eq_true finished⟩

/-- Fewer turns are not enough. -/
theorem Serving.unfinished_turns {order : List (Fin k)} {system : PrioritySystem k N}
    (serving : system.Serving runCount order) (unresumed : system.log = [])
    (all : ∀ j, j ∈ order) (fits : k ≤ N) (small : ∀ j, runCount j ≤ 2 ^ 31) {fuel : Nat}
    (few : fuel < max 1 (schedule runCount order).length) :
    Transition.doUntil (step runCount)
      (fun system => decide (MainProgram.AllFinished status system)) (fun _ => .resume 0)
      fuel 0 system = none := by
  cases fuel with
  | zero => rfl
  | succ fuel =>
      refine Transition.doUntil_eq_none_of_rank
        (fun system => (schedule runCount order).length - system.log.length) ?_ serving ?_ 0
      · intro system next _ serving stepped
        rcases serving.resume small fits 0 with ⟨next', stepEq, serving', resumed⟩
        cases Option.some.inj (stepped.symm.trans stepEq)
        refine ⟨serving', ?_, ?_⟩
        · rcases resumed with ⟨j, logged⟩ | ⟨same, _⟩
          · rw [logged, List.length_append, List.length_singleton]
            omega
          · rw [same]
            exact Nat.le_succ _
        · intro finished
          rw [(serving'.allFinished_iff all).mp (of_decide_eq_true finished)]
          exact Nat.sub_self _
      · rw [unresumed, List.length_nil]
        omega

/-- A task that is about to reach the largest `int` never gets beyond it. -/
structure Stuck (runCount : Fin k → Nat) (j : Fin k) (system : PrioritySystem k N) : Prop where
  consistent : system.Consistent runCount
  bound : (system.frames j).i ≤ 2 ^ 31

theorem Stuck.resume {system next : PrioritySystem k N} {j : Fin k}
    (stuck : system.Stuck runCount j) (fits : k ≤ N)
    (stepped : step runCount system (.resume 0) = some next) : next.Stuck runCount j := by
  rcases stuck.consistent.resume_cases fits 0 with
    ⟨skipped, entry, rest, returned, before, _, ready, stepEq, consistent, _, _, framesEq⟩ |
    ⟨_, stepEq⟩
  · cases Option.some.inj (stepped.symm.trans stepEq)
    refine ⟨consistent, ?_⟩
    rw [framesEq]
    by_cases same : j = entry.handle_
    · have member : entry ∈ system.waiting := by
        rw [before]
        exact List.mem_append_right skipped List.mem_cons_self
      rw [((stuck.consistent.entries entry).mp member).2, ← same] at ready
      have below : (system.frames j).i ≠ 2 ^ 31 := by
        intro last
        rw [last] at ready
        exact absurd ready (not_le.mpr toInt_overflow)
      rw [← same, Function.update_self]
      exact Nat.lt_of_le_of_ne stuck.bound below
    · rw [Function.update_of_ne same]
      exact stuck.bound
  · cases Option.some.inj (stepped.symm.trans stepEq)
    exact stuck

theorem Stuck.not_allFinished {system : PrioritySystem k N} {j : Fin k}
    (stuck : system.Stuck runCount j) (large : 2 ^ 31 < runCount j) :
    ¬ MainProgram.AllFinished status system := by
  intro all
  have finished : (system.frames j).status = .finished := all j
  have status := (stuck.consistent.frames j).status
  rw [finished] at status
  have turns : (system.frames j).i = runCount j := status
  have bound := stuck.bound
  rw [turns] at bound
  exact absurd large (Nat.not_lt.mpr bound)

theorem Stuck.never_allFinished {system : PrioritySystem k N} {j : Fin k}
    (stuck : system.Stuck runCount j) (large : 2 ^ 31 < runCount j) (fits : k ≤ N) (fuel : Nat) :
    Transition.doUntil (step runCount)
      (fun system => decide (MainProgram.AllFinished status system)) (fun _ => .resume 0)
      fuel 0 system = none := by
  refine Transition.doUntil_eq_none ?_ stuck fuel 0
  intro state next _ stuck stepped
  have stuck' := stuck.resume fits stepped
  refine ⟨stuck', ?_⟩
  intro finished
  exact stuck'.not_allFinished large (of_decide_eq_true finished)

/-- The loop of the main program is that of the tasks. -/
theorem resumingLoop_map {program : MainProgram (PrioritySystem k N) k w}
    (valid : program.Valid build.hostEmulation status) (host : build.hostEmulation = true)
    (allGranted : ∀ j, program.granted j = true) (fuel : Nat) :
    (resumingLoop build runCount fuel 0 program).map MainProgram.system =
      Transition.doUntil (step runCount)
        (fun system => decide (MainProgram.AllFinished status system)) (fun _ => .resume 0)
        fuel 0 program.system := by
  have kept : ∀ ⦃system next : PrioritySystem k N⦄ (_ : Nat), True →
      step runCount system (.resume 0) = some next →
      True ∧ MainProgram.Orderly status none system next :=
    fun _ _ _ _ stepped => ⟨trivial, step_orderly (.resume 0) stepped⟩
  exact valid.loop_map host allGranted kept trivial fuel 0

/-- In the host build, when all tasks were given a frame and none waits more
than `2 ^ 31` times, the loop of the main program returns after exactly as many
turns as there are resumptions, or after one turn if there are none.  Otherwise
it never returns: a task that waits too often is left with a negative priority,
and the other objects never report done. -/
theorem resumingLoop_returns [NeZero N] (build : Build k w)
    (earlier : Transition.Reachable (Lifecycle.step build.hostEmulation build.TASK_HEAP_SIZE)
      .init life)
    (fits : k ≤ N) {order : List (Fin k)} (nodup : order.Nodup) (all : ∀ j, j ∈ order)
    (buffer : Fin N → StaticListNode (ScheduleEntry ScheduleByPriority (Fin k)) N) :
    ∃ program, Transition.run (programStep build runCount) (.init life (init buffer))
        (order.map .start) = some program ∧
      (build.hostEmulation = true → (∀ j, program.granted j = true) →
        (∀ j, runCount j ≤ 2 ^ 31) →
        ∃ finish, resumingLoop build runCount (max 1 (schedule runCount order).length) 0
            program = some finish ∧
          finish.system.log = schedule runCount order ∧
          (∀ j, finish.system.resumeCount j = runCount j) ∧
          ∀ fuel < max 1 (schedule runCount order).length,
            resumingLoop build runCount fuel 0 program = none) ∧
      ∀ j, (build.hostEmulation = false ∨ program.granted j = false ∨ 2 ^ 31 < runCount j) →
        ∀ fuel, resumingLoop build runCount fuel 0 program = none := by
  rcases run_start (Lifecycle.valid_of_reachable earlier) fits nodup buffer with
    ⟨program, ran, valid, starting⟩
  refine ⟨program, ran, ?_, ?_⟩
  · intro host allGranted small
    have everyTask : order.filter program.granted = order :=
      List.filter_eq_self.mpr fun j _ => allGranted j
    rw [everyTask] at starting
    have serving := starting.serving
    rcases serving.allFinished_turns starting.unresumed all fits small with
      ⟨system, returns, serving', finished⟩
    rw [← resumingLoop_map valid host allGranted] at returns
    rcases Option.map_eq_some_iff.mp returns with ⟨finish, loopEq, rfl⟩
    refine ⟨finish, loopEq, ?_, ?_, ?_⟩
    · exact List.IsPrefix.eq_of_length ⟨_, serving'.balance⟩
        ((serving'.allFinished_iff all).mp finished)
    · intro j
      have ended : (finish.system.frames j).status = .finished := finished j
      have status := (serving'.consistent.frames j).status
      rw [ended] at status
      exact (serving'.consistent.frames j).counted.trans status
    · intro fuel few
      have unfinished := serving.unfinished_turns starting.unresumed all fits small few
      rw [← resumingLoop_map valid host allGranted] at unfinished
      exact Option.map_eq_none_iff.mp unfinished
  · intro j never fuel
    by_cases possible : build.hostEmulation = true ∧ ∀ j, program.granted j = true
    · rcases possible with ⟨host, allGranted⟩
      have large : 2 ^ 31 < runCount j := by
        rcases never with target | refused | large
        · rw [host] at target
          contradiction
        · rw [allGranted j] at refused
          contradiction
        · exact large
      have stuck : program.system.Stuck runCount j := by
        refine ⟨starting.consistent, ?_⟩
        rw [← starting.consistent.logged j, starting.unresumed]
        exact Nat.zero_le _
      have unfinished := stuck.never_allFinished large fits fuel
      rw [← resumingLoop_map valid host allGranted] at unfinished
      exact Option.map_eq_none_iff.mp unfinished
    · have silent : ∃ j, build.hostEmulation = false ∨ program.granted j = false := by
        by_contra none
        apply possible
        constructor
        · by_contra target
          exact none ⟨j, Or.inl (Bool.eq_false_iff.mpr target)⟩
        · intro other
          by_contra refused
          exact none ⟨other, Or.inr (Bool.eq_false_iff.mpr refused)⟩
      rcases silent with ⟨other, never⟩
      exact (valid.neverDone never).loop_eq_none _ _ fuel 0

theorem resumingLoop_returns_oneAndTwo :
    ∃ program finish : MainProgram (PrioritySystem 2 2) 2 64,
      Transition.run (programStep (hostBuild 2) oneAndTwo)
        (.init .init (init fun _ => ⟨none, none, none⟩)) ((List.finRange 2).map .start) =
          some program ∧
      resumingLoop (hostBuild 2) oneAndTwo 3 0 program = some finish ∧
      ∀ j, finish.system.resumeCount j = oneAndTwo j := by
  have facts : (Transition.run (programStep (hostBuild 2) oneAndTwo)
      (.init .init (init fun _ => ⟨none, none, none⟩) : MainProgram (PrioritySystem 2 2) 2 64)
      ((List.finRange 2).map .start)).map
        (fun program => decide (∀ j, program.granted j = true)) = some true := by
    decide
  rcases resumingLoop_returns (hostBuild 2) (N := 2) (.refl _ _) le_rfl (List.nodup_finRange 2)
    List.mem_finRange (fun _ => ⟨none, none, none⟩) with ⟨program, ran, returns, _⟩
  rw [ran] at facts
  have allGranted : ∀ j, program.granted j = true := of_decide_eq_true (Option.some.inj facts)
  rcases returns rfl allGranted oneAndTwo_le with ⟨finish, loopEq, _, counted, _⟩
  exact ⟨program, finish, ran, loopEq, counted⟩

end Program

end BaremetalCoro.PrioritySystem
