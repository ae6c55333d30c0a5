import BaremetalCoro.Tasks.ResumingOnDelay

/-!
# Progress of periodic tasks

Each task stands in one relation to its entry in the waiting list and to the
log of resumptions: it has been resumed as often as its counters say, and it
waits for a time not before the next multiple of its period.  `Consistent`
states this of all tasks.  It is lost while a task runs, so `Running` states it
of the others, together with what the running task needs to restore it; every
action that lets a task run goes through that state.
-/

namespace BaremetalCoro.TaskSystem

open SchedulerOrdered

variable {k N : Nat}

variable (clock : Clock) (tasks : Fin k → ResumingOnDelay)

/-- The `i`-th resumption of a task, counted from one, is by a call of `resume`
with a time after `i` periods from its start. -/
def NeverEarly (system : TaskSystem k N) (j : Fin k) : Prop :=
  ∀ (i : Nat) (time : Int), (system.resumptions j)[i]? = some time →
    system.starts j + (i + 1) * (tasks j).ticks clock < time

/-- Where a task stands is what its counters, its waiting entry and its log
say: it waits until after the next multiple of its period, counted from its
start, and was resumed after the earlier ones. -/
structure TaskValid (system : TaskSystem k N) (j : Fin k) : Prop where
  counted : (system.frames j).resumeCount = (system.frames j).i
  logged : (system.resumptions j).length = (system.frames j).i
  status : match (system.frames j).status with
    | .unstarted => (system.frames j).i = 0
    | .suspended => (system.frames j).i < (tasks j).runCount
    | .finished => (system.frames j).i = (tasks j).runCount
  waits : (∃ entry ∈ system.waiting, entry.handle_ = j) ↔
    (system.frames j).status = .suspended
  due : ∀ entry ∈ system.waiting, entry.handle_ = j →
    system.starts j + ((system.frames j).i + 1) * (tasks j).ticks clock ≤
      entry.wakeCondition_.expires_
  late : system.NeverEarly clock tasks j

/-- The list is well formed, holds each task at most once, and every task is
where it should be. -/
structure Consistent (system : TaskSystem k N) : Prop where
  holds : system.scheduler.Holds system.waiting
  nodup : system.handles.Nodup
  valid : ∀ j, system.TaskValid clock tasks j

/-- Task `j` has control at the head of its loop, before turn `i`. -/
structure Running (system : TaskSystem k N) (j : Fin k) (i : Nat) : Prop where
  holds : system.scheduler.Holds system.waiting
  nodup : system.handles.Nodup
  absent : j ∉ system.handles
  others : ∀ other, other ≠ j → system.TaskValid clock tasks other
  bound : i ≤ (tasks j).runCount
  logged : (system.resumptions j).length = i
  late : system.NeverEarly clock tasks j
  due : system.starts j + i * (tasks j).ticks clock ≤ system.now

variable {clock tasks}

/-- A task is not affected by what concerns other tasks. -/
theorem TaskValid.congr {system next : TaskSystem k N} {j : Fin k}
    (valid : system.TaskValid clock tasks j) (frame : next.frames j = system.frames j)
    (start : next.starts j = system.starts j) (log : next.resumptions j = system.resumptions j)
    (entries : ∀ entry : ScheduleEntry ScheduleByDelay (Fin k), entry.handle_ = j →
      (entry ∈ next.waiting ↔ entry ∈ system.waiting)) :
    next.TaskValid clock tasks j := by
  constructor
  · rw [frame]
    exact valid.counted
  · rw [frame, log]
    exact valid.logged
  · rw [frame]
    exact valid.status
  · rw [frame, ← valid.waits]
    constructor
    · rintro ⟨entry, member, isTask⟩
      exact ⟨entry, (entries entry isTask).mp member, isTask⟩
    · rintro ⟨entry, member, isTask⟩
      exact ⟨entry, (entries entry isTask).mpr member, isTask⟩
  · rw [frame, start]
    intro entry member isTask
    exact valid.due entry ((entries entry isTask).mp member) isTask
  · rw [NeverEarly, start, log]
    exact valid.late

theorem Running.room {system : TaskSystem k N} {j : Fin k} {i : Nat}
    (running : system.Running clock tasks j i) (fits : k ≤ N) : system.waiting.length < N := by
  have nodup : (j :: system.handles).Nodup := List.nodup_cons.mpr ⟨running.absent, running.nodup⟩
  have bound := nodup.length_le_card
  rw [Fintype.card_fin, List.length_cons, handles, List.length_map] at bound
  exact bound.trans fits

theorem Running.absent_entry {system : TaskSystem k N} {j : Fin k} {i : Nat}
    (running : system.Running clock tasks j i) {entry : ScheduleEntry ScheduleByDelay (Fin k)}
    (member : entry ∈ system.waiting) : entry.handle_ ≠ j := by
  intro isTask
  exact running.absent (List.mem_map.mpr ⟨entry, member, isTask⟩)

/-- A task that finishes leaves the list as it is. -/
theorem Running.finish {system : TaskSystem k N} {j : Fin k} {i : Nat}
    (running : system.Running clock tasks j i) (done : i = (tasks j).runCount) :
    (system.afterTask j (⟨i, i, .finished⟩, system.scheduler)).Consistent clock tasks := by
  refine ⟨running.holds, running.nodup, ?_⟩
  intro other
  by_cases same : other = j
  · subst same
    have frameEq : (system.afterTask other (⟨i, i, .finished⟩, system.scheduler)).frames other =
        ⟨i, i, .finished⟩ := Function.update_self other _ system.frames
    constructor
    · rw [frameEq]
    · rw [frameEq]
      exact running.logged
    · rw [frameEq]
      exact done
    · rw [frameEq]
      constructor
      · rintro ⟨entry, member, isTask⟩
        exact absurd isTask (running.absent_entry member)
      · intro impossible
        contradiction
    · intro entry member isTask
      exact absurd isTask (running.absent_entry member)
    · exact running.late
  · refine (running.others other same).congr (Function.update_of_ne same _ _) rfl rfl ?_
    intro entry _
    exact Iff.rfl

/-- A task that waits again is added to the list. -/
theorem Running.await {system : TaskSystem k N} {j : Fin k} {i : Nat}
    (running : system.Running clock tasks j i) (fits : k ≤ N) (more : i < (tasks j).runCount)
    {scheduler : SchedulerOrdered ScheduleByDelay (Fin k) N}
    (holds : scheduler.Holds
      (inserted N system.waiting ⟨j, ⟨system.now + (tasks j).ticks clock⟩⟩)) :
    (system.afterTask j (⟨i, i, .suspended⟩, scheduler)).Consistent clock tasks := by
  have waitingEq := holds.entries_eq
  have perm := System.inserted_perm (running.room fits)
    (⟨j, ⟨system.now + (tasks j).ticks clock⟩⟩ : ScheduleEntry ScheduleByDelay (Fin k))
  rw [← waitingEq] at perm
  have members : ∀ entry, entry ∈ scheduler.entries ↔
      entry = ⟨j, ⟨system.now + (tasks j).ticks clock⟩⟩ ∨ entry ∈ system.waiting := by
    intro entry
    rw [perm.mem_iff, List.mem_cons]
  constructor
  · change scheduler.Holds scheduler.entries
    rw [waitingEq]
    exact holds
  · apply (perm.map ScheduleEntry.handle_).nodup_iff.mpr
    exact List.nodup_cons.mpr ⟨running.absent, running.nodup⟩
  · intro other
    by_cases same : other = j
    · subst same
      have frameEq : (system.afterTask other (⟨i, i, .suspended⟩, scheduler)).frames other =
          ⟨i, i, .suspended⟩ := Function.update_self other _ system.frames
      constructor
      · rw [frameEq]
      · rw [frameEq]
        exact running.logged
      · rw [frameEq]
        exact more
      · rw [frameEq]
        constructor
        · intro _
          rfl
        · intro _
          exact ⟨_, (members _).mpr (Or.inl rfl), rfl⟩
      · rw [frameEq]
        intro entry member isTask
        rcases (members entry).mp member with rfl | old
        · change system.starts other + ((i : Int) + 1) * (tasks other).ticks clock ≤
            system.now + (tasks other).ticks clock
          rw [add_mul, one_mul, ← add_assoc]
          exact add_le_add_left running.due _
        · exact absurd isTask (running.absent_entry old)
      · exact running.late
    · refine (running.others other same).congr (Function.update_of_ne same _ _) rfl rfl ?_
      intro entry isTask
      rw [waiting, afterTask, members]
      constructor
      · rintro (rfl | old)
        · exact absurd isTask.symm same
        · exact old
      · exact Or.inr

/-- A running task gives control back, and everything is where it should be. -/
theorem Running.loop {system : TaskSystem k N} {j : Fin k} {i : Nat}
    (running : system.Running clock tasks j i) (fits : k ≤ N) (positive : 0 < (tasks j).period) :
    ∃ returned, (tasks j).loop clock system.now system.scheduler j ((tasks j).runCount - i) i i =
        some returned ∧ (system.afterTask j returned).Consistent clock tasks := by
  have turns : i + ((tasks j).runCount - i) = (tasks j).runCount :=
    Nat.add_sub_of_le running.bound
  rcases ResumingOnDelay.loop_spec positive clock system.now running.holds j turns i with
    ⟨done, loopEq⟩ | ⟨scheduler, more, loopEq, holds⟩
  · exact ⟨_, loopEq, running.finish done⟩
  · exact ⟨_, loopEq, running.await fits more holds⟩

/-! ## What the actions keep -/

/-- A task that was not started takes control before its first turn. -/
theorem Consistent.startTask {system : TaskSystem k N} (consistent : system.Consistent clock tasks)
    {j : Fin k} (unstarted : (system.frames j).status = .unstarted) :
    (system.startTask j).Running clock tasks j 0 := by
  have valid := consistent.valid j
  have turn : (system.frames j).i = 0 := by
    have status := valid.status
    rw [unstarted] at status
    exact status
  have logged : system.resumptions j = [] := by
    apply List.length_eq_zero_iff.mp
    rw [valid.logged, turn]
  have absent : j ∉ system.handles := by
    intro member
    have suspended := valid.waits.mp (List.mem_map.mp member)
    rw [unstarted] at suspended
    contradiction
  refine ⟨consistent.holds, consistent.nodup, absent, ?_, Nat.zero_le _, ?_, ?_, ?_⟩
  · intro other different
    refine (consistent.valid other).congr rfl (Function.update_of_ne different _ _) rfl ?_
    intro entry _
    exact Iff.rfl
  · change (system.resumptions j).length = 0
    rw [logged]
    rfl
  · intro i time resumed
    change (system.resumptions j)[i]? = some time at resumed
    rw [logged] at resumed
    contradiction
  · change Function.update system.starts j system.now j + _ ≤ system.now
    rw [Function.update_self]
    simp

theorem resumptions_resumeTask (system : TaskSystem k N) (j other : Fin k) (elapsed : Nat)
    (scheduler : SchedulerOrdered ScheduleByDelay (Fin k) N) :
    (system.resumeTask j elapsed scheduler).resumptions other =
      if other = j then system.resumptions other ++ [system.now]
      else system.resumptions other := by
  unfold resumptions resumeTask
  rw [List.filter_append, List.map_append]
  by_cases same : other = j
  · rw [if_pos same, same]
    simp
  · rw [if_neg same]
    simp [Ne.symm same]

/-- A task whose entry is due takes control before its next turn. -/
theorem Consistent.resumeTask {system : TaskSystem k N}
    (consistent : system.Consistent clock tasks)
    {skipped rest : List (ScheduleEntry ScheduleByDelay (Fin k))}
    {entry : ScheduleEntry ScheduleByDelay (Fin k)}
    (before : system.waiting = skipped ++ entry :: rest)
    (ready : entry.readyToWake (ScheduleByDelay.immediate system.now) = true)
    {scheduler : SchedulerOrdered ScheduleByDelay (Fin k) N}
    (holds : scheduler.Holds (skipped ++ rest)) (elapsed : Nat) :
    (system.frames entry.handle_).status = .suspended ∧
      (system.resumeTask entry.handle_ elapsed scheduler).Running clock tasks entry.handle_
        ((system.frames entry.handle_).i + 1) := by
  have valid := consistent.valid entry.handle_
  have member : entry ∈ system.waiting := by
    rw [before]
    exact List.mem_append_right skipped List.mem_cons_self
  have suspended := valid.waits.mp ⟨entry, member, rfl⟩
  have more : (system.frames entry.handle_).i < (tasks entry.handle_).runCount := by
    have status := valid.status
    rw [suspended] at status
    exact status
  have passed : system.starts entry.handle_ +
      ((system.frames entry.handle_).i + 1) * (tasks entry.handle_).ticks clock < system.now :=
    (valid.due entry member rfl).trans_lt ((ScheduleByDelay.readyToWake_iff _ _).mp ready)
  have nodup : (entry.handle_ :: (skipped ++ rest).map ScheduleEntry.handle_).Nodup := by
    have perm : system.waiting.Perm (entry :: (skipped ++ rest)) := by
      rw [before]
      exact List.perm_middle
    exact (perm.map ScheduleEntry.handle_).nodup_iff.mp consistent.nodup
  have waitingEq : (system.resumeTask entry.handle_ elapsed scheduler).waiting =
      skipped ++ rest := holds.entries_eq
  have handlesEq : (system.resumeTask entry.handle_ elapsed scheduler).handles =
      (skipped ++ rest).map ScheduleEntry.handle_ := congrArg _ waitingEq
  refine ⟨suspended, ?_, ?_, ?_, ?_, more, ?_, ?_, ?_⟩
  · rw [waitingEq]
    exact holds
  · rw [handlesEq]
    exact (List.nodup_cons.mp nodup).2
  · rw [handlesEq]
    exact (List.nodup_cons.mp nodup).1
  · intro other different
    refine (consistent.valid other).congr rfl rfl ?_ ?_
    · rw [resumptions_resumeTask, if_neg different]
    · intro old isOther
      rw [waitingEq, before, List.perm_middle.mem_iff, List.mem_cons]
      constructor
      · exact Or.inr
      · rintro (rfl | kept)
        · exact absurd isOther.symm different
        · exact kept
  · rw [resumptions_resumeTask, if_pos rfl, List.length_append, valid.logged]
    rfl
  · intro i time resumed
    rw [resumptions_resumeTask, if_pos rfl] at resumed
    rcases Nat.lt_or_ge i (system.resumptions entry.handle_).length with old | last
    · rw [List.getElem?_append_left old] at resumed
      exact valid.late i time resumed
    · rw [List.getElem?_append_right last, List.getElem?_singleton] at resumed
      by_cases atEnd : i - (system.resumptions entry.handle_).length = 0
      · rw [if_pos atEnd] at resumed
        have index : i = (system.frames entry.handle_).i := by
          rw [← valid.logged]
          exact Nat.le_antisymm (Nat.sub_eq_zero_iff_le.mp atEnd) last
        rw [index, ← Option.some.inj resumed]
        exact passed
      · rw [if_neg atEnd] at resumed
        contradiction
  · push_cast
    exact passed.le.trans (le_add_of_nonneg_right (Int.natCast_nonneg elapsed))

/-- Nothing depends on the time of the clock alone. -/
theorem Consistent.setNow {system : TaskSystem k N} (consistent : system.Consistent clock tasks)
    (now : Int) : { system with now := now }.Consistent clock tasks := by
  constructor
  · exact consistent.holds
  · exact consistent.nodup
  · intro j
    exact (consistent.valid j).congr rfl rfl rfl (fun _ _ => Iff.rfl)

/-- The actions that are possible: a task is called once, everything else
always. -/
def Possible (system : TaskSystem k N) : TaskAct k → Prop
  | .start j => (system.frames j).status = .unstarted
  | .advance _ | .poll _ => True

/-- Every possible action succeeds and leaves everything where it should be. -/
theorem Consistent.step_possible {system : TaskSystem k N}
    (consistent : system.Consistent clock tasks) (fits : k ≤ N)
    (positive : ∀ j, 0 < (tasks j).period) {act : TaskAct k} (possible : system.Possible act) :
    ∃ next, TaskSystem.step clock tasks system act = some next ∧
      next.Consistent clock tasks := by
  cases act with
  | advance ticks =>
      exact ⟨_, rfl, consistent.setNow (system.now + ticks)⟩
  | start j =>
      have unstarted : (system.frames j).status = .unstarted := possible
      rcases (consistent.startTask unstarted).loop fits (positive j) with
        ⟨returned, loopEq, consistent'⟩
      have startEq : (tasks j).start clock system.now system.scheduler j = some returned := loopEq
      have stepEq : TaskSystem.step clock tasks system (.start j) =
          some ((system.startTask j).afterTask j returned) := by
        simp only [TaskSystem.step, unstarted, startEq, Option.map_some]
      exact ⟨_, stepEq, consistent'⟩
  | poll elapsed =>
      rcases consistent.holds.resume_cases (ScheduleByDelay.immediate system.now) with
        ⟨skipped, entry, rest, scheduler, before, _, ready, resumeEq, holds⟩ | ⟨_, resumeEq⟩
      · rcases consistent.resumeTask before ready holds elapsed with ⟨suspended, running⟩
        rcases running.loop fits (positive entry.handle_) with ⟨returned, loopEq, consistent'⟩
        have taskEq : (tasks entry.handle_).resume clock
            (system.resumeTask entry.handle_ elapsed scheduler).now scheduler entry.handle_
            (system.frames entry.handle_) = some returned := by
          rw [ResumingOnDelay.resume, suspended]
          exact loopEq
        have stepEq : TaskSystem.step clock tasks system (.poll elapsed) =
            some ((system.resumeTask entry.handle_ elapsed scheduler).afterTask entry.handle_
              returned) := by
          simp only [TaskSystem.step, resumeEq, bind, Option.bind_some, taskEq, Option.map_some]
        exact ⟨_, stepEq, consistent'⟩
      · have stepEq : TaskSystem.step clock tasks system (.poll elapsed) =
            some { system with now := system.now + elapsed } := by
          simp only [TaskSystem.step, resumeEq, bind, Option.bind_some]
        exact ⟨_, stepEq, consistent.setNow (system.now + elapsed)⟩

theorem possible_of_step {system next : TaskSystem k N} {act : TaskAct k}
    (stepped : step clock tasks system act = some next) : system.Possible act := by
  cases act with
  | start j =>
      unfold Possible
      cases hstatus : (system.frames j).status with
      | unstarted => exact hstatus
      | suspended => simp only [step, hstatus, reduceCtorEq] at stepped
      | finished => simp only [step, hstatus, reduceCtorEq] at stepped
  | advance _ => trivial
  | poll _ => trivial

theorem init_consistent [NeZero N]
    (buffer : Fin N → StaticListNode (ScheduleEntry ScheduleByDelay (Fin k)) N) (now : Int) :
    (init buffer now : TaskSystem k N).Consistent clock tasks := by
  have waitingEq : (init buffer now : TaskSystem k N).waiting = [] :=
    Holds.entries_eq (SchedulerOrdered.init_holds buffer)
  constructor
  · rw [waitingEq]
    exact SchedulerOrdered.init_holds buffer
  · rw [handles, waitingEq]
    exact List.nodup_nil
  · intro j
    constructor
    · rfl
    · rfl
    · rfl
    · rw [waitingEq]
      simp [init]
    · rw [waitingEq]
      intro entry member
      contradiction
    · intro i time resumed
      simp [resumptions, init] at resumed

theorem run_consistent [NeZero N] (fits : k ≤ N) (positive : ∀ j, 0 < (tasks j).period)
    {buffer : Fin N → StaticListNode (ScheduleEntry ScheduleByDelay (Fin k)) N} {now : Int}
    {acts : List (TaskAct k)} {system : TaskSystem k N}
    (ran : Transition.run (step clock tasks) (init buffer now) acts = some system) :
    system.Consistent clock tasks := by
  apply Transition.run_invariant _ (init_consistent buffer now) ran
  intro before act after consistent stepped
  rcases consistent.step_possible fits positive (possible_of_step stepped) with
    ⟨next, stepEq, consistent'⟩
  cases Option.some.inj (stepped.symm.trans stepEq)
  exact consistent'

/-- A started task waits exactly while it has turns left. -/
theorem TaskValid.waits_iff {system : TaskSystem k N} {j : Fin k}
    (valid : system.TaskValid clock tasks j) (started : (system.frames j).status ≠ .unstarted) :
    j ∈ system.handles ↔ system.resumeCount j < (tasks j).runCount := by
  have status := valid.status
  rw [handles, List.mem_map, valid.waits, resumeCount, valid.counted]
  cases hstatus : (system.frames j).status with
  | unstarted => exact absurd hstatus started
  | suspended =>
      rw [hstatus] at status
      simpa using status
  | finished =>
      rw [hstatus] at status
      simp [status]

theorem TaskValid.resumeCount_le {system : TaskSystem k N} {j : Fin k}
    (valid : system.TaskValid clock tasks j) : system.resumeCount j ≤ (tasks j).runCount := by
  have status := valid.status
  rw [resumeCount, valid.counted]
  cases hstatus : (system.frames j).status with
  | unstarted =>
      rw [hstatus] at status
      exact status.le.trans (Nat.zero_le _)
  | suspended =>
      rw [hstatus] at status
      exact le_of_lt status
  | finished =>
      rw [hstatus] at status
      exact le_of_eq status

/-- With no more tasks than the scheduler has room for, in every run: each task
waits at most once and its `i`-th resumption is by a call with a time after `i`
of its periods; once all tasks were started, exactly the unfinished ones wait,
and all have finished with their exact counts whenever the scheduler is empty.
No action faults. -/
theorem tasks_resumed_on_time [NeZero N] (fits : k ≤ N) (positive : ∀ j, 0 < (tasks j).period)
    {buffer : Fin N → StaticListNode (ScheduleEntry ScheduleByDelay (Fin k)) N} {now : Int}
    {acts : List (TaskAct k)} {system : TaskSystem k N}
    (ran : Transition.run (step clock tasks) (init buffer now) acts = some system) :
    system.handles.Nodup ∧
      (∀ j, (system.resumptions j).length = system.resumeCount j ∧
        ∀ (i : Nat) (time : Int), (system.resumptions j)[i]? = some time →
          system.starts j + (i + 1) * (tasks j).ticks clock < time) ∧
      (∀ act, system.Possible act → ∃ next, step clock tasks system act = some next) ∧
      ((∀ j, (system.frames j).status ≠ .unstarted) →
        (∀ j, j ∈ system.handles ↔ system.resumeCount j < (tasks j).runCount) ∧
        (system.scheduler.empty = true → ∀ j, system.resumeCount j = (tasks j).runCount)) := by
  have consistent := run_consistent fits positive ran
  refine ⟨consistent.nodup, ?_, ?_, ?_⟩
  · intro j
    have valid := consistent.valid j
    exact ⟨valid.logged.trans valid.counted.symm, valid.late⟩
  · intro act possible
    rcases consistent.step_possible fits positive possible with ⟨next, stepEq, _⟩
    exact ⟨next, stepEq⟩
  · intro started
    constructor
    · intro j
      exact (consistent.valid j).waits_iff (started j)
    · intro isEmpty j
      have nothing := (Holds.empty_iff consistent.holds).mp isEmpty
      have valid := consistent.valid j
      apply le_antisymm valid.resumeCount_le
      by_contra unfinished
      have waits := (valid.waits_iff (started j)).mpr (not_le.mp unfinished)
      rw [handles, nothing] at waits
      contradiction

/-- Two tasks with two turns of two microseconds and one of three. -/
def twoTasks : Fin 2 → ResumingOnDelay
  | 0 => ⟨2, 2⟩
  | 1 => ⟨3, 1⟩

/-- Both tasks run to their ends. -/
def twoTasksActs : List (TaskAct 2) :=
  [.start 0, .start 1, .poll 0, .advance 4000, .poll 10, .poll 0, .advance 2500, .poll 0]

theorem tasks_resumed_on_time_twoTasks :
    ∃ system : TaskSystem 2 2,
      Transition.run (step steadyClock twoTasks) (init (fun _ => ⟨none, none, none⟩) 0)
        twoTasksActs = some system ∧
      (∀ j, system.resumeCount j = (twoTasks j).runCount) ∧
      system.resumptions 0 = [4000, 6510] ∧
      ∀ (i : Nat) (time : Int), (system.resumptions 0)[i]? = some time →
        system.starts 0 + (i + 1) * (1000 * 2) < time := by
  have facts : (Transition.run (step steadyClock twoTasks)
      (init (fun _ => ⟨none, none, none⟩) 0 : TaskSystem 2 2) twoTasksActs).map
        (fun system => (system.scheduler.empty, system.resumptions 0,
          decide (∀ j, (system.frames j).status ≠ .unstarted))) =
      some (true, [4000, 6510], true) := by decide
  rcases Option.map_eq_some_iff.mp facts with ⟨system, ran, observed⟩
  have isEmpty : system.scheduler.empty = true := congrArg Prod.fst observed
  have resumed : system.resumptions 0 = [4000, 6510] :=
    congrArg (fun observed => observed.2.1) observed
  have started : ∀ j, (system.frames j).status ≠ .unstarted :=
    of_decide_eq_true (congrArg (fun observed => observed.2.2) observed)
  have onTime := tasks_resumed_on_time (by decide) (by decide) ran
  have late := (onTime.2.1 0).2
  rw [ResumingOnDelay.ticks_steadyClock] at late
  exact ⟨system, ran, (onTime.2.2.2 started).2 isEmpty, resumed, late⟩

end BaremetalCoro.TaskSystem
