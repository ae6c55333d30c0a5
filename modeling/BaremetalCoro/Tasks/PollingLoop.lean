import BaremetalCoro.Scheduler.Sleep
import BaremetalCoro.Tasks.Progress
import BaremetalCoro.Transition.Loop
import Mathlib.Algebra.BigOperators.Fin
import Mathlib.Algebra.Order.BigOperators.Group.Finset

/-!
# The polling loop of the main program

The main program calls its periodic tasks and then polls: it calls `resume` with
the current time, sleeps for the delay `resume` reports, if it reports one, and
starts over until all tasks are done.

How long each statement takes is left to the environment.  A sleep may also end
early, as `wfi` may, so termination rests on nothing but turns that take time
again and again.  With a sleep that lasts as long as it was asked to, two turns
for each resumption are enough: the condition `resume` reports is the one of the
last entry, so after a sleep nothing is left that is not due.

All this is of the host build, and of tasks that were given a frame.  An object
that never reports done keeps the loop going for ever.
-/

namespace BaremetalCoro

open SchedulerOrdered

/-- How long the statements of a turn take. -/
structure Lapse where
  /-- From the reading `resume` is called with to the next one. -/
  running : Nat
  /-- From there to the reading `delay()` takes. -/
  returning : Nat
  /-- The sleep, by the delay it is asked for. -/
  sleepFor : Int → Nat
  /-- From there to the reading of the next turn. -/
  looping : Nat

namespace Lapse

/-- A turn that sleeps takes time, whatever delay it sleeps for. -/
def Moves (lapse : Lapse) : Prop :=
  ∀ delay, 0 < lapse.running + lapse.returning + lapse.sleepFor delay + lapse.looping

/-- A sleep lasts as long as it was asked to. -/
def SleepsLong (lapse : Lapse) : Prop :=
  ∀ delay, delay ≤ lapse.sleepFor delay

/-- The time after the sleep of a turn, if there is a condition to wait for. -/
def afterSleep (lapse : Lapse) (now : Int) : Option ScheduleByDelay → Int
  | none => now
  | some nextWake =>
      let now := now + lapse.returning
      now + lapse.sleepFor (nextWake.delay now)

theorem le_afterSleep (lapse : Lapse) (now : Int) (nextWake : Option ScheduleByDelay) :
    now ≤ lapse.afterSleep now nextWake := by
  cases nextWake with
  | none => exact le_rfl
  | some wake =>
      simp only [afterSleep]
      omega

/-- A turn that sleeps ends later than it began. -/
theorem Moves.lt_afterSleep {lapse : Lapse} (moves : lapse.Moves) (now : Int)
    (wake : ScheduleByDelay) :
    now < lapse.afterSleep (now + lapse.running) (some wake) + lapse.looping := by
  have moved := moves (wake.delay (now + lapse.running + lapse.returning))
  simp only [afterSleep]
  omega

/-- A sleep of full length lasts until the condition has expired. -/
theorem SleepsLong.le_afterSleep {lapse : Lapse} (long : lapse.SleepsLong) (now : Int)
    (wake : ScheduleByDelay) : wake.expires_ ≤ lapse.afterSleep now (some wake) := by
  have asked := long (wake.delay (now + lapse.returning))
  have expires : wake.expires_ ≤ now + lapse.returning + wake.delay (now + lapse.returning) := by
    unfold ScheduleByDelay.delay
    split
    · omega
    · omega
  exact expires.trans (Int.add_le_add_left asked _)

end Lapse

/-- The last entry of a sorted list is the latest. -/
theorem SchedulerOrdered.Sorted.le_getLast {C H : Type} [LinearOrder C]
    {waiting : List (ScheduleEntry C H)} (sorted : Sorted waiting) {last : ScheduleEntry C H}
    (isLast : waiting.getLast? = some last) {entry : ScheduleEntry C H}
    (member : entry ∈ waiting) : entry.wakeCondition_ ≤ last.wakeCondition_ := by
  rcases List.getLast?_eq_some_iff.mp isLast with ⟨front, rfl⟩
  rcases List.mem_append.mp member with inFront | isEntry
  · exact (List.pairwise_append.mp sorted).2.2 entry inFront last List.mem_cons_self
  · rw [List.mem_singleton.mp isEntry]

namespace ResumingOnDelay

variable {H : Type} {N : Nat}

/-- A task that gives control back has been started. -/
theorem loop_started {task : ResumingOnDelay} {clock : Clock} {now : Int}
    {scheduler : SchedulerOrdered ScheduleByDelay H N} {handle : H} {i remaining resumeCount : Nat}
    {returned : TaskFrame × SchedulerOrdered ScheduleByDelay H N}
    (loopEq : task.loop clock now scheduler handle remaining i resumeCount = some returned) :
    returned.1.status ≠ .unstarted := by
  induction remaining generalizing i resumeCount with
  | zero =>
      cases Option.some.inj loopEq
      exact TaskStatus.noConfusion
  | succ remaining ih =>
      simp only [loop] at loopEq
      split at loopEq
      · exact ih loopEq
      · rcases Option.bind_eq_some_iff.mp loopEq with ⟨scheduler', _, suspended⟩
        cases Option.some.inj suspended
        exact TaskStatus.noConfusion

/-- A task that gives control back leaves a sorted list sorted. -/
theorem loop_sorted {task : ResumingOnDelay} (positive : 0 < task.period) {clock : Clock}
    {now : Int} {scheduler : SchedulerOrdered ScheduleByDelay H N}
    {waiting : List (ScheduleEntry ScheduleByDelay H)} (holds : scheduler.Holds waiting)
    (sorted : Sorted waiting) {handle : H} {i remaining resumeCount : Nat}
    (turns : i + remaining = task.runCount)
    {returned : TaskFrame × SchedulerOrdered ScheduleByDelay H N}
    (loopEq : task.loop clock now scheduler handle remaining i resumeCount = some returned) :
    Sorted returned.2.entries := by
  rcases loop_spec positive clock now holds handle turns resumeCount with
    ⟨_, finished⟩ | ⟨scheduler', _, suspended, holds'⟩
  · cases Option.some.inj (finished.symm.trans loopEq)
    rw [holds.entries_eq]
    exact sorted
  · cases Option.some.inj (suspended.symm.trans loopEq)
    rw [holds'.entries_eq]
    exact sorted.inserted _

end ResumingOnDelay

namespace TaskSystem

variable {k N : Nat}

/-- The condition `resume` returns when it is called with the current time. -/
def nextWake (system : TaskSystem k N) : Option ScheduleByDelay :=
  (system.scheduler.resume (ScheduleByDelay.immediate system.now)).bind fun exit => exit.result.2

/-- The system when the clock reads `now`. -/
def setNow (system : TaskSystem k N) (now : Int) : TaskSystem k N :=
  { system with now := now }

/-- One turn of the loop. -/
def turn (clock : Clock) (tasks : Fin k → ResumingOnDelay) :
    Transition.Step (TaskSystem k N) Lapse := fun system lapse => do
  let polled ← step clock tasks system (.poll lapse.running)
  return polled.setNow (lapse.afterSleep polled.now system.nextWake + lapse.looping)

/-- The calls of tasks. -/
def callOf : TaskAct k → Option (Fin k)
  | .start j => some j
  | .advance _ | .poll _ => none

/-- What the main program does. -/
def programStep {w : Nat} (build : Build k w) (clock : Clock) (tasks : Fin k → ResumingOnDelay) :
    Transition.Step (MainProgram (TaskSystem k N) k w) (TaskAct k) :=
  MainProgram.step build status callOf (step clock tasks)

/-- The loop of the main program, from the given turn on. -/
def pollingLoop {w : Nat} (build : Build k w) (clock : Clock) (tasks : Fin k → ResumingOnDelay)
    (lapses : Nat → Lapse) :
    Nat → Nat → MainProgram (TaskSystem k N) k w → Option (MainProgram (TaskSystem k N) k w) :=
  MainProgram.loop build status (turn clock tasks) lapses

variable (clock : Clock) (tasks : Fin k → ResumingOnDelay)

/-- What holds at the head of the loop. -/
structure Polling (system : TaskSystem k N) : Prop where
  consistent : system.Consistent clock tasks
  sorted : Sorted system.waiting
  started : ∀ j, (system.frames j).status ≠ .unstarted

/-- How many resumptions are left. -/
def remaining (system : TaskSystem k N) : Nat :=
  ∑ j, ((tasks j).runCount - system.resumeCount j)

variable {clock tasks}

theorem status_afterTask (system : TaskSystem k N) (j : Fin k)
    (returned : TaskFrame × SchedulerOrdered ScheduleByDelay (Fin k) N) :
    (system.afterTask j returned).status =
      Function.update system.status j returned.1.status :=
  Function.comp_update TaskFrame.status system.frames j returned.1

/-! ## One call of `resume` -/

/-- A poll resumes the first task of the list and reports nothing, or it finds
nothing due and reports the last one. -/
theorem Consistent.poll_cases {system next : TaskSystem k N} {elapsed : Nat}
    (consistent : system.Consistent clock tasks) (sorted : Sorted system.waiting)
    (positive : ∀ j, 0 < (tasks j).period)
    (stepped : step clock tasks system (.poll elapsed) = some next) :
    (∃ entry rest frame, system.waiting = entry :: rest ∧
      entry.readyToWake (ScheduleByDelay.immediate system.now) = true ∧
      system.nextWake = none ∧ next.log = system.log ++ [(entry.handle_, system.now)] ∧
      next.now = system.now + elapsed ∧
      next.frames = Function.update system.frames entry.handle_ frame ∧
      frame.status ≠ .unstarted ∧ Sorted next.waiting) ∨
    ((∀ entry ∈ system.waiting,
        entry.readyToWake (ScheduleByDelay.immediate system.now) = false) ∧
      system.nextWake = system.waiting.getLast?.map ScheduleEntry.wakeCondition_ ∧
      next = { system with now := system.now + elapsed }) := by
  rcases consistent.holds.resume_cases (ScheduleByDelay.immediate system.now) with
    ⟨skipped, entry, rest, scheduler, before, notReady, ready, resumeEq, holds⟩ |
    ⟨notReady, resumeEq⟩
  · left
    rcases consistent.resumeTask before ready holds elapsed with ⟨suspended, running⟩
    rw [before] at sorted
    have first : skipped = [] := sorted.skipped_eq_nil notReady ready
    subst first
    have wakeEq : system.nextWake = none := by
      rw [nextWake, resumeEq]
      rfl
    simp only [step, resumeEq, bind, Option.bind_some, ResumingOnDelay.resume, suspended] at stepped
    rcases Option.map_eq_some_iff.mp stepped with ⟨returned, loopEq, rfl⟩
    have turns : (system.frames entry.handle_).i + 1 +
        ((tasks entry.handle_).runCount - ((system.frames entry.handle_).i + 1)) =
        (tasks entry.handle_).runCount := Nat.add_sub_of_le running.bound
    have started := ResumingOnDelay.loop_started loopEq
    have sorted' := ResumingOnDelay.loop_sorted (positive entry.handle_) holds
      (List.pairwise_cons.mp sorted).2 turns loopEq
    exact ⟨entry, rest, returned.1, before, ready, wakeEq, rfl, rfl, rfl, started, sorted'⟩
  · right
    have wakeEq : system.nextWake =
        system.waiting.getLast?.map ScheduleEntry.wakeCondition_ := by
      rw [nextWake, resumeEq, ← sorted.foldl_track]
      rfl
    simp only [step, resumeEq, bind, Option.bind_some] at stepped
    exact ⟨notReady, wakeEq, (Option.some.inj stepped).symm⟩

/-- No action takes the list out of order. -/
theorem Consistent.step_sorted {system next : TaskSystem k N} {act : TaskAct k}
    (consistent : system.Consistent clock tasks) (sorted : Sorted system.waiting)
    (positive : ∀ j, 0 < (tasks j).period) (stepped : step clock tasks system act = some next) :
    Sorted next.waiting := by
  cases act with
  | advance ticks =>
      cases stepped
      exact sorted
  | start j =>
      have unstarted : (system.frames j).status = .unstarted := possible_of_step stepped
      simp only [step, unstarted] at stepped
      rcases Option.map_eq_some_iff.mp stepped with ⟨returned, startEq, rfl⟩
      exact ResumingOnDelay.loop_sorted (positive j) consistent.holds sorted (Nat.zero_add _)
        startEq
  | poll elapsed =>
      rcases consistent.poll_cases sorted positive stepped with
        ⟨_, _, _, _, _, _, _, _, _, _, sorted'⟩ | ⟨_, _, rfl⟩
      · exact sorted'
      · exact sorted

theorem run_sorted [NeZero N] (fits : k ≤ N) (positive : ∀ j, 0 < (tasks j).period)
    {buffer : Fin N → StaticListNode (ScheduleEntry ScheduleByDelay (Fin k)) N} {now : Int}
    {acts : List (TaskAct k)} {system : TaskSystem k N}
    (ran : Transition.run (step clock tasks) (init buffer now) acts = some system) :
    Sorted system.waiting := by
  have initially : (init buffer now : TaskSystem k N).Consistent clock tasks ∧
      Sorted (init buffer now : TaskSystem k N).waiting := by
    refine ⟨init_consistent buffer now, ?_⟩
    rw [waiting, init, (SchedulerOrdered.init_holds buffer).entries_eq]
    exact List.Pairwise.nil
  have kept : ∀ ⦃before : TaskSystem k N⦄ ⦃act after⦄,
      before.Consistent clock tasks ∧ Sorted before.waiting →
      step clock tasks before act = some after →
      after.Consistent clock tasks ∧ Sorted after.waiting := by
    rintro before act after ⟨consistent, sorted⟩ stepped
    rcases consistent.step_possible fits positive (possible_of_step stepped) with
      ⟨next, stepEq, consistent'⟩
    cases Option.some.inj (stepped.symm.trans stepEq)
    exact ⟨consistent', consistent.step_sorted sorted positive stepped⟩
  exact (Transition.run_invariant kept initially ran).2

/-! ## What is left to do -/

/-- A started task is done exactly when it has been resumed as often as it
should. -/
theorem Polling.finished_iff {system : TaskSystem k N} (polling : system.Polling clock tasks)
    (j : Fin k) :
    (system.frames j).status = .finished ↔ system.resumeCount j = (tasks j).runCount := by
  have valid := polling.consistent.valid j
  have status := valid.status
  rw [resumeCount, valid.counted]
  cases hstatus : (system.frames j).status with
  | unstarted => exact absurd hstatus (polling.started j)
  | suspended =>
      rw [hstatus] at status
      simp [Nat.ne_of_lt status]
  | finished =>
      rw [hstatus] at status
      simp [status]

theorem Polling.allFinished_iff {system : TaskSystem k N}
    (polling : system.Polling clock tasks) :
    MainProgram.AllFinished status system ↔ system.remaining tasks = 0 := by
  rw [remaining, Finset.sum_eq_zero_iff]
  constructor
  · intro done j _
    rw [(polling.finished_iff j).mp (done j), Nat.sub_self]
  · intro nothing j
    apply (polling.finished_iff j).mpr
    apply Nat.le_antisymm (polling.consistent.valid j).resumeCount_le
    exact Nat.sub_eq_zero_iff_le.mp (nothing j (Finset.mem_univ j))

/-- With no task waiting, all have ended. -/
theorem Polling.allFinished_of_nil {system : TaskSystem k N}
    (polling : system.Polling clock tasks) (nothing : system.waiting = []) :
    MainProgram.AllFinished status system := by
  intro j
  rw [status]
  cases hstatus : (system.frames j).status with
  | unstarted => exact absurd hstatus (polling.started j)
  | suspended =>
      rcases (polling.consistent.valid j).waits.mpr hstatus with ⟨entry, member, _⟩
      rw [nothing] at member
      contradiction
  | finished => rfl

/-- A resumption is one of those that were left. -/
theorem remaining_lt {system next : TaskSystem k N} (consistent : system.Consistent clock tasks)
    (consistent' : next.Consistent clock tasks) {j : Fin k} {time : Int}
    (logged : next.log = system.log ++ [(j, time)]) :
    next.remaining tasks < system.remaining tasks := by
  have counts : ∀ other, next.resumeCount other =
      system.resumeCount other + if other = j then 1 else 0 := by
    intro other
    have count := (consistent.valid other).logged.trans (consistent.valid other).counted.symm
    have count' := (consistent'.valid other).logged.trans (consistent'.valid other).counted.symm
    rw [resumeCount, resumeCount, ← count, ← count', resumptions, resumptions, logged,
      List.filter_append, List.map_append, List.length_append]
    by_cases same : other = j
    · simp [same]
    · simp [same, Ne.symm same]
  have bounded := (consistent'.valid j).resumeCount_le
  have counted := counts j
  rw [if_pos rfl] at counted
  apply Finset.sum_lt_sum
  · intro other _
    rw [counts other]
    exact Nat.sub_le_sub_left (Nat.le_add_right _ _) _
  · refine ⟨j, Finset.mem_univ j, ?_⟩
    omega

/-! ## One turn -/

theorem Polling.setNow {system : TaskSystem k N} (polling : system.Polling clock tasks)
    (now : Int) : (system.setNow now).Polling clock tasks :=
  ⟨polling.consistent.setNow now, polling.sorted, polling.started⟩

/-- A turn resumes a task, or finds nothing due and only lets time pass; after
a sleep of full length everything has expired. -/
theorem Polling.turn {system : TaskSystem k N} (polling : system.Polling clock tasks)
    (fits : k ≤ N) (positive : ∀ j, 0 < (tasks j).period) (lapse : Lapse) :
    ∃ next, TaskSystem.turn clock tasks system lapse = some next ∧ next.Polling clock tasks ∧
      (next.remaining tasks < system.remaining tasks ∨
        ∃ now, next = system.setNow now ∧ system.now ≤ now ∧
          (system.waiting ≠ [] → lapse.Moves → system.now < now) ∧
          (∀ entry ∈ system.waiting, system.now ≤ entry.wakeCondition_.expires_) ∧
          (lapse.SleepsLong → ∀ entry ∈ system.waiting,
            entry.wakeCondition_.expires_ + lapse.looping ≤ now)) := by
  have possible : system.Possible (.poll lapse.running) := trivial
  rcases polling.consistent.step_possible fits positive possible with
    ⟨polled, stepEq, consistent⟩
  have turnEq : TaskSystem.turn clock tasks system lapse =
      some (polled.setNow (lapse.afterSleep polled.now system.nextWake + lapse.looping)) := by
    simp only [TaskSystem.turn, stepEq, bind, Option.bind_some]
    rfl
  refine ⟨_, turnEq, ?_⟩
  rcases polling.consistent.poll_cases polling.sorted positive stepEq with
    ⟨entry, rest, frame, before, ready, wakeEq, logged, nowEq, framesEq, started, sorted⟩ |
    ⟨notReady, wakeEq, rfl⟩
  · have polling' : polled.Polling clock tasks := by
      refine ⟨consistent, sorted, ?_⟩
      intro j
      rw [framesEq]
      by_cases same : j = entry.handle_
      · rw [same, Function.update_self]
        exact started
      · rw [Function.update_of_ne same]
        exact polling.started j
    have later := polling'.setNow (lapse.afterSleep polled.now system.nextWake + lapse.looping)
    exact ⟨later, Or.inl (remaining_lt polling.consistent later.consistent logged)⟩
  · refine ⟨polling.setNow _, Or.inr ⟨_, rfl, ?_, ?_, ?_, ?_⟩⟩
    · have slept := lapse.le_afterSleep (system.now + lapse.running) system.nextWake
      change system.now ≤ lapse.afterSleep (system.now + lapse.running) system.nextWake +
        lapse.looping
      omega
    · intro waits moves
      rw [List.getLast?_eq_some_getLast waits] at wakeEq
      rw [wakeEq]
      exact moves.lt_afterSleep system.now _
    · intro entry member
      exact ScheduleByDelay.le_expires_of_not_ready (notReady entry member)
    · intro long entry member
      have isLast := List.getLast?_eq_some_getLast (List.ne_nil_of_mem member)
      rw [isLast] at wakeEq
      rw [wakeEq]
      have le := polling.sorted.le_getLast isLast member
      exact Int.add_le_add_right (le.trans (long.le_afterSleep _ _)) lapse.looping

/-! ## The whole loop -/

/-- How long until the first task of the list is due. -/
def gap (system : TaskSystem k N) : Nat :=
  (system.waiting.head?.map fun entry =>
    (entry.wakeCondition_.expires_ - system.now + 1).toNat).getD 0

/-- One if a task waits that is not due yet. -/
def lagging (system : TaskSystem k N) : Nat :=
  if ∀ entry ∈ system.waiting, entry.wakeCondition_.expires_ < system.now then 0 else 1

/-- A task that is not due gets closer to it with time. -/
theorem gap_setNow {system : TaskSystem k N} {now : Int} (waits : system.waiting ≠ [])
    (notDue : ∀ entry ∈ system.waiting, system.now ≤ entry.wakeCondition_.expires_)
    (notBefore : system.now ≤ now) :
    (system.setNow now).gap < system.gap ∨
      ((system.setNow now).gap = system.gap ∧ now = system.now) := by
  rcases List.exists_cons_of_ne_nil waits with ⟨entry, rest, waitingEq⟩
  have ahead := notDue entry (waitingEq ▸ List.mem_cons_self)
  have gapEq : system.gap = (entry.wakeCondition_.expires_ - system.now + 1).toNat := by
    rw [gap, waitingEq]
    rfl
  have gapEq' : (system.setNow now).gap = (entry.wakeCondition_.expires_ - now + 1).toNat := by
    rw [gap, waiting, setNow]
    change ((system.waiting.head?.map _).getD 0) = _
    rw [waitingEq]
    rfl
  rw [gapEq, gapEq']
  omega

/-- What a run leaves once all tasks were started and all have ended. -/
theorem Polling.complete {system : TaskSystem k N} (polling : system.Polling clock tasks)
    (finished : MainProgram.AllFinished status system) :
    system.scheduler.empty = true ∧ ∀ j, system.resumeCount j = (tasks j).runCount ∧
      (system.resumptions j).length = (tasks j).runCount ∧ system.NeverEarly clock tasks j := by
  constructor
  · apply (Holds.empty_iff polling.consistent.holds).mpr
    apply List.eq_nil_iff_forall_not_mem.mpr
    intro entry member
    have suspended := (polling.consistent.valid entry.handle_).waits.mp ⟨entry, member, rfl⟩
    rw [show (system.frames entry.handle_).status = _ from finished entry.handle_] at suspended
    contradiction
  · intro j
    have valid := polling.consistent.valid j
    have counted := (polling.finished_iff j).mp (finished j)
    exact ⟨counted, (valid.logged.trans valid.counted.symm).trans counted, valid.late⟩

/-- The tasks have all ended after some turn. -/
theorem Polling.exists_allFinished {system : TaskSystem k N}
    (polling : system.Polling clock tasks) (fits : k ≤ N)
    (positive : ∀ j, 0 < (tasks j).period) {lapses : Nat → Lapse}
    (again : ∀ turn, ∃ later, turn ≤ later ∧ (lapses later).Moves) :
    ∃ fuel finish, Transition.doUntil (TaskSystem.turn clock tasks)
        (fun system => decide (MainProgram.AllFinished status system)) lapses fuel 0 system =
          some finish ∧ finish.Polling clock tasks ∧ MainProgram.AllFinished status finish := by
  have wellFounded := (Prod.lex Nat.lt_wfRel Nat.lt_wfRel).wf
  have loops : ∃ fuel finish, Transition.doUntil (TaskSystem.turn clock tasks)
      (fun system => decide (MainProgram.AllFinished status system)) lapses fuel 0 system =
        some finish ∧ finish.Polling clock tasks ∧
        decide (MainProgram.AllFinished status finish) = true := by
    refine Transition.exists_doUntil_of_fair wellFounded
      (fun system => (system.remaining tasks, system.gap)) again ?_ polling 0
    intro system turn polling
    rcases polling.turn fits positive (lapses turn) with ⟨next, turnEq, polling', resumed | idle⟩
    · exact ⟨next, turnEq, polling', Or.inr (Or.inl (Prod.Lex.left _ _ resumed))⟩
    · refine ⟨next, turnEq, polling', ?_⟩
      rcases idle with ⟨now, rfl, notBefore, moves, notDue, _⟩
      by_cases nothing : system.waiting = []
      · exact Or.inl (decide_eq_true (polling'.allFinished_of_nil nothing))
      · right
        rcases gap_setNow nothing notDue notBefore with closer | ⟨same, nowEq⟩
        · exact Or.inl (Prod.Lex.right _ closer)
        · refine Or.inr ⟨congrArg (Prod.mk (system.remaining tasks)) same, ?_⟩
          intro moved
          exact absurd nowEq (moves nothing moved).ne'
  rcases loops with ⟨fuel, finish, returns, polling', finished⟩
  exact ⟨fuel, finish, returns, polling', of_decide_eq_true finished⟩

/-- With sleeps of full length and time between any two turns, the tasks have
all ended after two turns for each resumption. -/
theorem Polling.allFinished_turns {system : TaskSystem k N}
    (polling : system.Polling clock tasks) (fits : k ≤ N)
    (positive : ∀ j, 0 < (tasks j).period) {lapses : Nat → Lapse}
    (loops : ∀ turn, 0 < (lapses turn).looping) (long : ∀ turn, (lapses turn).SleepsLong) :
    ∃ finish, Transition.doUntil (TaskSystem.turn clock tasks)
        (fun system => decide (MainProgram.AllFinished status system)) lapses
        (max 1 (2 * system.remaining tasks)) 0 system = some finish ∧
      finish.Polling clock tasks ∧ MainProgram.AllFinished status finish := by
  have laggingLe : ∀ system : TaskSystem k N, system.lagging ≤ 1 := by
    intro system
    unfold lagging
    split
    · exact Nat.zero_le 1
    · exact le_rfl
  have enough : 2 * system.remaining tasks + system.lagging - 2 <
      max 1 (2 * system.remaining tasks) := by
    have bound := laggingLe system
    omega
  have returned : ∃ finish, Transition.doUntil (TaskSystem.turn clock tasks)
      (fun system => decide (MainProgram.AllFinished status system)) lapses
      (max 1 (2 * system.remaining tasks)) 0 system = some finish ∧
      finish.Polling clock tasks ∧ decide (MainProgram.AllFinished status finish) = true := by
    refine Transition.doUntil_of_rank
      (fun system => 2 * system.remaining tasks + system.lagging - 2) ?_ polling enough 0
    intro system turn polling
    rcases polling.turn fits positive (lapses turn) with ⟨next, turnEq, polling', resumed | idle⟩
    · refine ⟨next, turnEq, polling', ?_⟩
      by_cases finished : MainProgram.AllFinished status next
      · exact Or.inl (decide_eq_true finished)
      · right
        have left : next.remaining tasks ≠ 0 := mt polling'.allFinished_iff.mpr finished
        have bound := laggingLe next
        change 2 * next.remaining tasks + next.lagging - 2 <
          2 * system.remaining tasks + system.lagging - 2
        omega
    · refine ⟨next, turnEq, polling', ?_⟩
      by_cases finished : MainProgram.AllFinished status next
      · exact Or.inl (decide_eq_true finished)
      · right
        have left : next.remaining tasks ≠ 0 := mt polling'.allFinished_iff.mpr finished
        rcases idle with ⟨now, rfl, _, _, notDue, expired⟩
        have lagged : system.lagging = 1 := by
          apply if_neg
          intro due
          rcases List.exists_mem_of_ne_nil _ (mt polling'.allFinished_of_nil finished) with
            ⟨entry, member⟩
          exact absurd (due entry member) (not_lt.mpr (notDue entry member))
        have caughtUp : (system.setNow now).lagging = 0 := by
          apply if_pos
          intro entry member
          have passed := expired (long turn) entry member
          have moved := loops turn
          change entry.wakeCondition_.expires_ < now
          omega
        change 2 * system.remaining tasks + (system.setNow now).lagging - 2 <
          2 * system.remaining tasks + system.lagging - 2
        change system.remaining tasks ≠ 0 at left
        omega
  rcases returned with ⟨finish, returns, polling', finished⟩
  exact ⟨finish, returns, polling', of_decide_eq_true finished⟩

/-! ## The main program -/

theorem step_orderly {system next : TaskSystem k N} (act : TaskAct k)
    (stepped : step clock tasks system act = some next) :
    MainProgram.Orderly status (callOf act) system next := by
  cases act with
  | advance ticks =>
      cases stepped
      exact .of_eq rfl
  | start j =>
      have unstarted : (system.frames j).status = .unstarted := possible_of_step stepped
      simp only [step, unstarted] at stepped
      rcases Option.map_eq_some_iff.mp stepped with ⟨returned, startEq, rfl⟩
      apply MainProgram.Orderly.of_update _ (ResumingOnDelay.loop_started startEq)
        (Or.inl ⟨rfl, unstarted⟩)
      exact status_afterTask (system.startTask j) j returned
  | poll elapsed =>
      rcases Option.bind_eq_some_iff.mp stepped with ⟨exit, _, stepped⟩
      cases exit with
      | idle pending next' =>
          cases stepped
          exact .of_eq rfl
      | resumed j condition scheduler skipped =>
          rcases Option.map_eq_some_iff.mp stepped with ⟨returned, resumeEq, rfl⟩
          cases hstatus : (system.frames j).status with
          | suspended =>
              simp only [ResumingOnDelay.resume, hstatus] at resumeEq
              apply MainProgram.Orderly.of_update _ (ResumingOnDelay.loop_started resumeEq)
                (Or.inr ⟨rfl, hstatus⟩)
              exact status_afterTask (system.resumeTask j elapsed scheduler) j returned
          | unstarted => simp [ResumingOnDelay.resume, hstatus] at resumeEq
          | finished => simp [ResumingOnDelay.resume, hstatus] at resumeEq

theorem turn_orderly {system next : TaskSystem k N} {lapse : Lapse}
    (stepped : turn clock tasks system lapse = some next) :
    MainProgram.Orderly status none system next := by
  rcases Option.bind_eq_some_iff.mp stepped with ⟨polled, pollEq, stepped⟩
  cases Option.some.inj stepped
  have orderly := step_orderly (.poll lapse.running) pollEq
  exact ⟨orderly.finished, orderly.started⟩

section Program

variable {w : Nat} {build : Build k w} {program : MainProgram (TaskSystem k N) k w}

/-- The loop of the main program is that of the tasks. -/
theorem pollingLoop_map (valid : program.Valid build.hostEmulation status)
    (host : build.hostEmulation = true) (allGranted : ∀ j, program.granted j = true)
    (lapses : Nat → Lapse) (fuel : Nat) :
    (pollingLoop build clock tasks lapses fuel 0 program).map MainProgram.system =
      Transition.doUntil (turn clock tasks)
        (fun system => decide (MainProgram.AllFinished status system)) lapses fuel 0
        program.system := by
  have kept : ∀ ⦃system next : TaskSystem k N⦄ index, True →
      turn clock tasks system (lapses index) = some next →
      True ∧ MainProgram.Orderly status none system next :=
    fun _ _ _ _ stepped => ⟨trivial, turn_orderly stepped⟩
  exact valid.loop_map host allGranted kept trivial fuel 0

variable [NeZero N] {life : Lifecycle w} {acts : List (TaskAct k)} {now : Int}
  {buffer : Fin N → StaticListNode (ScheduleEntry ScheduleByDelay (Fin k)) N}

/-- When all tasks were called and given a frame, the loop begins. -/
theorem program_polling (earlier : life.Valid build.hostEmulation) (fits : k ≤ N)
    (positive : ∀ j, 0 < (tasks j).period)
    (ran : Transition.run (programStep build clock tasks) (.init life (init buffer now)) acts =
      some program) :
    program.Valid build.hostEmulation status ∧
      ((∀ j, program.granted j = true) → program.system.Polling clock tasks) := by
  have unstarted : ∀ j, status (init buffer now : TaskSystem k N) j = .unstarted := fun _ => rfl
  rcases MainProgram.run_valid earlier (fun _ _ act => step_orderly act) unstarted ran with
    ⟨valid, tasksActs, tasksRan⟩
  refine ⟨valid, ?_⟩
  intro allGranted
  refine ⟨run_consistent fits positive tasksRan, run_sorted fits positive tasksRan, ?_⟩
  intro j
  exact (valid.started j).mp (allGranted j)

/-- In the host build, once all tasks were called and given a frame, the loop
returns if turns that sleep take time again and again: the scheduler is empty
then, and every task was resumed exactly as often as it should and never before
its time.  With an object of the target build, or one without a frame, it never
returns. -/
theorem pollingLoop_completes (fits : k ≤ N) (positive : ∀ j, 0 < (tasks j).period)
    (earlier : Transition.Reachable (Lifecycle.step build.hostEmulation build.TASK_HEAP_SIZE)
      .init life)
    (ran : Transition.run (programStep build clock tasks) (.init life (init buffer now)) acts =
      some program) {lapses : Nat → Lapse}
    (again : ∀ turn, ∃ later, turn ≤ later ∧ (lapses later).Moves) :
    (build.hostEmulation = true → (∀ j, program.granted j = true) →
      ∃ fuel finish, pollingLoop build clock tasks lapses fuel 0 program = some finish ∧
        finish.system.scheduler.empty = true ∧
        ∀ j, finish.system.resumeCount j = (tasks j).runCount ∧
          (finish.system.resumptions j).length = (tasks j).runCount ∧
          finish.system.NeverEarly clock tasks j) ∧
    ∀ j, (build.hostEmulation = false ∨ program.granted j = false) →
      ∀ fuel, pollingLoop build clock tasks lapses fuel 0 program = none := by
  rcases program_polling (Lifecycle.valid_of_reachable earlier) fits positive ran with
    ⟨valid, polling⟩
  constructor
  · intro host allGranted
    rcases (polling allGranted).exists_allFinished fits positive again with
      ⟨fuel, system, returns, polling', finished⟩
    rw [← pollingLoop_map valid host allGranted] at returns
    rcases Option.map_eq_some_iff.mp returns with ⟨finish, loopEq, rfl⟩
    exact ⟨fuel, finish, loopEq, polling'.complete finished⟩
  · intro j never fuel
    exact (valid.neverDone never).loop_eq_none _ _ fuel 0

/-- The main program calls both tasks. -/
def twoTasksStarted : List (TaskAct 2) :=
  (List.finRange 2).map TaskAct.start

/-- Every statement takes a tick and the sleeps are exact. -/
def tickLapse : Lapse :=
  ⟨1, 1, Int.toNat, 1⟩

theorem tickLapse_moves : tickLapse.Moves :=
  fun _ => Nat.succ_pos _

theorem pollingLoop_completes_twoTasks :
    ∃ (program finish : MainProgram (TaskSystem 2 2) 2 64) (fuel : Nat),
      Transition.run (programStep (hostBuild 2) steadyClock twoTasks)
        (.init .init (init (fun _ => ⟨none, none, none⟩) 0)) twoTasksStarted = some program ∧
      pollingLoop (hostBuild 2) steadyClock twoTasks (fun _ => tickLapse) fuel 0 program =
        some finish ∧
      ∀ j, finish.system.resumeCount j = (twoTasks j).runCount := by
  have facts : (Transition.run (programStep (hostBuild 2) steadyClock twoTasks)
      (.init .init (init (fun _ => ⟨none, none, none⟩) 0) : MainProgram (TaskSystem 2 2) 2 64)
        twoTasksStarted).map (fun program => decide (∀ j, program.granted j = true)) =
      some true := by
    decide
  rcases Option.map_eq_some_iff.mp facts with ⟨program, ran, allGranted⟩
  rcases (pollingLoop_completes (by decide) (by decide) (.refl _ _) ran
    (fun turn => ⟨turn, le_rfl, tickLapse_moves⟩)).1 rfl (of_decide_eq_true allGranted) with
    ⟨fuel, finish, returns, _, counted⟩
  exact ⟨program, finish, fuel, ran, returns, fun j => (counted j).1⟩

/-- When time passes between any two turns and no sleep ends early, the loop
takes at most two turns for each resumption that is left: one to sleep until
everything that waits has expired, and one to resume. -/
theorem pollingLoop_turns (fits : k ≤ N) (positive : ∀ j, 0 < (tasks j).period)
    (earlier : Transition.Reachable (Lifecycle.step build.hostEmulation build.TASK_HEAP_SIZE)
      .init life)
    (ran : Transition.run (programStep build clock tasks) (.init life (init buffer now)) acts =
      some program) (host : build.hostEmulation = true)
    (allGranted : ∀ j, program.granted j = true) {lapses : Nat → Lapse}
    (loops : ∀ turn, 0 < (lapses turn).looping) (long : ∀ turn, (lapses turn).SleepsLong) :
    ∃ finish, pollingLoop build clock tasks lapses
        (max 1 (2 * program.system.remaining tasks)) 0 program = some finish ∧
      finish.system.scheduler.empty = true ∧
      ∀ j, finish.system.resumeCount j = (tasks j).runCount ∧
        (finish.system.resumptions j).length = (tasks j).runCount ∧
        finish.system.NeverEarly clock tasks j := by
  rcases program_polling (Lifecycle.valid_of_reachable earlier) fits positive ran with
    ⟨valid, polling⟩
  rcases (polling allGranted).allFinished_turns fits positive loops long with
    ⟨system, returns, polling', finished⟩
  rw [← pollingLoop_map valid host allGranted] at returns
  rcases Option.map_eq_some_iff.mp returns with ⟨finish, loopEq, rfl⟩
  exact ⟨finish, loopEq, polling'.complete finished⟩

theorem pollingLoop_turns_twoTasks :
    ∃ program finish : MainProgram (TaskSystem 2 2) 2 64,
      Transition.run (programStep (hostBuild 2) steadyClock twoTasks)
        (.init .init (init (fun _ => ⟨none, none, none⟩) 0)) twoTasksStarted = some program ∧
      pollingLoop (hostBuild 2) steadyClock twoTasks (fun _ => tickLapse) 6 0 program =
        some finish ∧
      ∀ j, finish.system.resumeCount j = (twoTasks j).runCount := by
  have facts : (Transition.run (programStep (hostBuild 2) steadyClock twoTasks)
      (.init .init (init (fun _ => ⟨none, none, none⟩) 0) : MainProgram (TaskSystem 2 2) 2 64)
        twoTasksStarted).map (fun program => (program.system.remaining twoTasks,
          decide (∀ j, program.granted j = true))) = some (3, true) := by
    decide
  rcases Option.map_eq_some_iff.mp facts with ⟨program, ran, observed⟩
  have left : program.system.remaining twoTasks = 3 := congrArg Prod.fst observed
  have allGranted : ∀ j, program.granted j = true :=
    of_decide_eq_true (congrArg Prod.snd observed)
  have long : tickLapse.SleepsLong := Int.self_le_toNat
  rcases pollingLoop_turns (by decide) (by decide) (.refl _ _) ran rfl allGranted
    (fun _ => by decide : ∀ turn : Nat, 0 < tickLapse.looping) (fun _ => long) with
    ⟨finish, returns, _, counted⟩
  rw [left] at returns
  exact ⟨program, finish, ran, returns, fun j => (counted j).1⟩

end Program

end TaskSystem

end BaremetalCoro
