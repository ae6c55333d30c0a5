import BaremetalCoro.Tasks.DoubleCoroLoop
import Mathlib.Data.List.Destutter

/-!
# Alternation between two schedulers

The tasks move in step: after `m` calls of `resume` that found something to
do, every task is where its `m`-th suspension is, or has ended before.  Such a
state is a phase, and it determines all frames and both lists.  In each phase
all unfinished tasks wait on the same scheduler; a call on the other one does
nothing at all, and a call on this one leads to the next phase.

So what matters about a sequence of calls is only how often it alternates.
-/

namespace BaremetalCoro

open SchedulerUnordered

theorem Side.other_other (side : Side) : side.other.other = side := by
  cases side <;> rfl

theorem Side.other_ne (side : Side) : side.other ≠ side := by
  cases side <;> decide

theorem Side.eq_other_of_ne {first second : Side} (different : first ≠ second) :
    first = second.other := by
  cases first <;> cases second <;> first | rfl | contradiction

namespace DoubleSystem

variable {k N : Nat} {runCount : Fin k → Nat}

/-! ## Phases -/

/-- The scheduler the unfinished tasks wait on in phase `m`. -/
def sideAt (m : Nat) : Side :=
  if m % 2 = 0 then .a else .b

/-- The frame in phase `m` of a task with `runCount` turns. -/
def frameAt (m runCount : Nat) : DoubleFrame :=
  if m / 2 < runCount then ⟨m / 2, (m + 1) / 2, m / 2, .waiting (sideAt m)⟩
  else ⟨runCount, runCount, runCount, .finished⟩

/-- The tasks that wait in phase `m`. -/
def waitingAt (runCount : Fin k → Nat) (m : Nat) : List (Fin k) :=
  (List.finRange k).filter fun j => m / 2 < runCount j

/-- All tasks are in phase `m`. -/
structure Phase (runCount : Fin k → Nat) (m : Nat) (system : DoubleSystem k N) : Prop where
  frames : ∀ j, system.frames j = frameAt m (runCount j)
  queued : (system.schedulers (sideAt m)).Holds (waitingAt runCount m)
  drained : (system.schedulers (sideAt m).other).Holds []

theorem sideAt_succ (m : Nat) : sideAt (m + 1) = (sideAt m).other := by
  rcases Nat.mod_two_eq_zero_or_one m with even | odd
  · rw [sideAt, sideAt, if_neg (by omega), if_pos even]
    rfl
  · rw [sideAt, sideAt, if_pos (by omega), if_neg (by omega)]
    rfl

/-! ## A task enters a phase -/

/-- Task `j` suspends for the `m`-th time, or ends. -/
def enter (runCount : Fin k → Nat) (m : Nat) (system : DoubleSystem k N) (j : Fin k) :
    DoubleSystem k N :=
  (if m / 2 < runCount j then system.await (sideAt m) j else system).setFrame j
    (frameAt m (runCount j))

theorem loopHead_eq_enter {i : Nat} {j : Fin k} (turns : i ≤ runCount j)
    (system : DoubleSystem k N) :
    system.loopHead runCount j i i i = system.enter runCount (2 * i) j := by
  have half : 2 * i / 2 = i := by omega
  have half' : (2 * i + 1) / 2 = i := by omega
  have side : sideAt (2 * i) = .a := if_pos (by omega)
  by_cases more : i < runCount j
  · simp [loopHead, enter, frameAt, half, half', side, more]
  · have last : i = runCount j := Nat.le_antisymm turns (Nat.le_of_not_lt more)
    simp [loopHead, enter, frameAt, last]

/-- A suspended task enters the next phase when it is resumed. -/
theorem resumeTask_eq_enter {m : Nat} {j : Fin k} {system : DoubleSystem k N}
    (frame : system.frames j = frameAt m (runCount j)) (more : m / 2 < runCount j) :
    system.resumeTask runCount j = some (system.enter runCount (m + 1) j) := by
  rcases Nat.even_or_odd' m with ⟨i, rfl | rfl⟩
  · have half : 2 * i / 2 = i := by omega
    have half' : (2 * i + 1) / 2 = i := by omega
    have half'' : (2 * i + 1 + 1) / 2 = i + 1 := by omega
    have side : sideAt (2 * i) = .a := if_pos (by omega)
    have side' : sideAt (2 * i + 1) = .b := if_neg (by omega)
    rw [half] at more
    simp [resumeTask, frame, frameAt, enter, half, half', half'', side, side', more]
  · have half : (2 * i + 1) / 2 = i := by omega
    have half' : (2 * i + 1 + 1) / 2 = i + 1 := by omega
    have side : sideAt (2 * i + 1) = .b := if_neg (by omega)
    rw [half] at more
    have entered := loopHead_eq_enter (Nat.succ_le_of_lt more) system
    simp only [resumeTask, frame, frameAt, half, half', side, if_pos more]
    exact congrArg some entered

/-- The tasks in `served` have entered phase `m`, and the others have the
frames they had before. -/
structure Entered (runCount : Fin k → Nat) (m : Nat) (served : List (Fin k))
    (before : Fin k → DoubleFrame) (system : DoubleSystem k N) : Prop where
  frames : ∀ j, system.frames j = if j ∈ served then frameAt m (runCount j) else before j
  queued : (system.schedulers (sideAt m)).Holds (served.filter fun j => m / 2 < runCount j)

theorem Entered.enter {m : Nat} {served : List (Fin k)} {before : Fin k → DoubleFrame}
    {system : DoubleSystem k N} {j : Fin k} (entered : system.Entered runCount m served before)
    (nodup : (served ++ [j]).Nodup) (fits : k ≤ N) :
    (system.enter runCount m j).Entered runCount m (served ++ [j]) before := by
  have room : (served.filter fun j => m / 2 < runCount j).length < N := by
    have short := List.length_filter_le (fun j => decide (m / 2 < runCount j)) served
    have bound := nodup.length_le_card
    rw [Fintype.card_fin, List.length_append, List.length_singleton] at bound
    omega
  have awaited := entered.queued.insert j
  rw [appended, if_pos room] at awaited
  constructor
  · intro other
    have framesEq : (system.enter runCount m j).frames =
        Function.update system.frames j (frameAt m (runCount j)) := by
      unfold DoubleSystem.enter
      split <;> rfl
    rw [framesEq]
    by_cases same : other = j
    · subst same
      simp
    · rw [Function.update_of_ne same, entered.frames other]
      simp [same]
  · rw [List.filter_append]
    by_cases more : m / 2 < runCount j
    · have schedulerEq : (system.enter runCount m j).schedulers (sideAt m) =
          (system.schedulers (sideAt m)).insert j := by
        unfold DoubleSystem.enter
        rw [if_pos more]
        exact system.setScheduler_self (sideAt m) _
      rw [schedulerEq, List.filter_singleton]
      simpa [more] using awaited
    · have schedulerEq : (system.enter runCount m j).schedulers = system.schedulers := by
        unfold DoubleSystem.enter
        rw [if_neg more]
        rfl
      rw [schedulerEq, List.filter_singleton]
      simpa [more] using entered.queued

/-- A task that enters a phase leaves the other scheduler alone. -/
theorem enter_other (m : Nat) (system : DoubleSystem k N) (j : Fin k) {side : Side}
    (other : side ≠ sideAt m) : (system.enter runCount m j).schedulers side =
      system.schedulers side := by
  unfold DoubleSystem.enter
  split
  · exact system.setScheduler_of_ne other _
  · rfl

/-- Tasks that are called one after the other. -/
theorem Entered.start_all {served rest : List (Fin k)} {before : Fin k → DoubleFrame}
    {system : DoubleSystem k N} (entered : system.Entered runCount 0 served before)
    (drained : (system.schedulers .b).Holds []) (nodup : (served ++ rest).Nodup) (fits : k ≤ N) :
    (rest.foldl (startTask runCount) system).Entered runCount 0 (served ++ rest) before ∧
      ((rest.foldl (startTask runCount) system).schedulers .b).Holds [] := by
  induction rest generalizing served system with
  | nil =>
      rw [List.append_nil]
      exact ⟨entered, drained⟩
  | cons j rest ih =>
      have startEq : system.startTask runCount j = system.enter runCount 0 j :=
        loopHead_eq_enter (Nat.zero_le (runCount j)) system
      rw [List.append_cons] at nodup ⊢
      rw [List.foldl_cons, startEq]
      apply ih
      · exact entered.enter (List.nodup_append'.mp nodup).1 fits
      · rw [enter_other 0 system j (by decide)]
        exact drained
      · exact nodup

/-- All tasks are called in phase zero. -/
theorem started_phase [NeZero N] (fits : k ≤ N)
    (buffers : Side → Fin N → StaticListNode (Fin k) N) :
    (started runCount buffers).Phase runCount 0 := by
  have initially : (init buffers : DoubleSystem k N).Entered runCount 0 []
      (fun _ => ⟨0, 0, 0, .unstarted⟩) := by
    constructor
    · intro j
      rfl
    · exact SchedulerUnordered.init_holds (buffers .a)
  have nodup : ([] ++ List.finRange k).Nodup := List.nodup_finRange k
  rcases initially.start_all (SchedulerUnordered.init_holds (buffers .b)) nodup fits with
    ⟨entered, drained⟩
  rw [List.nil_append] at entered
  constructor
  · intro j
    rw [started, entered.frames j, if_pos (List.mem_finRange j)]
  · exact entered.queued
  · exact drained

/-! ## Calls of `resume` -/

/-- A call on the scheduler nobody waits on does nothing. -/
theorem Phase.step_redundant {m : Nat} {system : DoubleSystem k N}
    (phase : system.Phase runCount m) {fuel : Nat} (enough : k < fuel) {side : Side}
    (redundant : side ≠ sideAt m) : system.step runCount fuel side = some system := by
  rw [Side.eq_other_of_ne redundant, DoubleSystem.step,
    phase.drained.resume_nil _ (Nat.zero_lt_of_lt enough)]
  simp only [Option.map_some, setScheduler, Function.update_eq_self]

/-- While a call in phase `m` goes on, the tasks it has resumed are in the next
phase. -/
def Serving (runCount : Fin k → Nat) (m : Nat) (world : DoubleSystem k N)
    (waiting : List (Fin k)) : Prop :=
  ∃ served, waitingAt runCount m = served ++ waiting ∧
    world.Entered runCount (m + 1) served (fun j => frameAt m (runCount j))

/-- One turn of the loop. -/
theorem Serving.turn {m : Nat} {world : DoubleSystem k N} {j : Fin k} {rest : List (Fin k)}
    {scheduler : SchedulerUnordered (Fin k) N} (serving : world.Serving runCount m (j :: rest))
    (holds : scheduler.Holds rest) (fits : k ≤ N) :
    ∃ world' scheduler', taskBody runCount (sideAt m) world j scheduler =
        some (world', scheduler') ∧
      scheduler'.Holds rest ∧ world'.Serving runCount m rest := by
  rcases serving with ⟨served, split, entered⟩
  have nodup : (served ++ j :: rest).Nodup := by
    rw [← split]
    exact (List.nodup_finRange k).filter _
  have nodup' : (served ++ [j]).Nodup := by
    rw [List.append_cons] at nodup
    exact (List.nodup_append'.mp nodup).1
  have unserved : j ∉ served := by
    intro member
    exact (List.nodup_append'.mp nodup).2.2 member List.mem_cons_self
  have more : m / 2 < runCount j := by
    have member : j ∈ waitingAt runCount m := by
      rw [split]
      exact List.mem_append_right served List.mem_cons_self
    simpa [waitingAt] using member
  have elsewhere : sideAt m ≠ sideAt (m + 1) := by
    rw [sideAt_succ]
    exact (Side.other_ne (sideAt m)).symm
  have popped : (world.setScheduler (sideAt m) scheduler).Entered runCount (m + 1) served
      (fun j => frameAt m (runCount j)) := by
    constructor
    · exact entered.frames
    · rw [setScheduler_of_ne elsewhere.symm]
      exact entered.queued
  have frame : (world.setScheduler (sideAt m) scheduler).frames j = frameAt m (runCount j) := by
    rw [popped.frames j, if_neg unserved]
  have kept : ((world.setScheduler (sideAt m) scheduler).enter runCount (m + 1) j).schedulers
      (sideAt m) = scheduler := by
    rw [enter_other (m + 1) _ j elsewhere]
    exact world.setScheduler_self (sideAt m) scheduler
  refine ⟨(world.setScheduler (sideAt m) scheduler).enter runCount (m + 1) j, scheduler, ?_, holds,
    served ++ [j], ?_, popped.enter nodup' fits⟩
  · rw [taskBody, resumeTask_eq_enter frame more, Option.map_some, kept]
  · rw [← List.append_cons]
    exact split

/-- A task that had ended before phase `m` stays where it is. -/
theorem frameAt_succ {m turns : Nat} (done : ¬ m / 2 < turns) :
    frameAt (m + 1) turns = frameAt m turns := by
  rw [frameAt, frameAt, if_neg done, if_neg (by omega)]

/-- A call on the scheduler all unfinished tasks wait on leads to the next
phase. -/
theorem Phase.step_next {m : Nat} {system : DoubleSystem k N}
    (phase : system.Phase runCount m) (fits : k ≤ N) {fuel : Nat} (enough : k < fuel) :
    ∃ next, system.step runCount fuel (sideAt m) = some next ∧ next.Phase runCount (m + 1) := by
  have initially : system.Serving runCount m (waitingAt runCount m) := by
    refine ⟨[], rfl, ?_, ?_⟩
    · exact phase.frames
    · rw [sideAt_succ]
      exact phase.drained
  have short : (waitingAt runCount m).length ≤ k := by
    have bound := List.length_filter_le (fun j => decide (m / 2 < runCount j)) (List.finRange k)
    rwa [List.length_finRange] at bound
  rcases phase.queued.resume_rule (Serving runCount m) (fun _ waiting => waiting.length)
    (by
      intro world j rest scheduler serving holds
      rcases serving.turn holds fits with ⟨world', scheduler', bodyEq, holds', serving'⟩
      exact ⟨world', scheduler', rest, bodyEq, holds', serving', Nat.lt_succ_self rest.length⟩)
    initially with ⟨world, scheduler, returns, drained, served, split, entered⟩
  rw [List.append_nil] at split
  subst split
  have elsewhere : sideAt (m + 1) ≠ sideAt m := by
    rw [sideAt_succ]
    exact Side.other_ne (sideAt m)
  refine ⟨world.setScheduler (sideAt m) scheduler, ?_, ?_, ?_, ?_⟩
  · rw [DoubleSystem.step, returns fuel (short.trans_lt enough)]
    rfl
  · intro j
    change world.frames j = _
    rw [entered.frames j]
    by_cases more : m / 2 < runCount j
    · rw [if_pos (by simpa [waitingAt] using more)]
    · rw [if_neg (by simpa [waitingAt] using more), frameAt_succ more]
  · have waitingEq : (waitingAt runCount m).filter (fun j => (m + 1) / 2 < runCount j) =
        waitingAt runCount (m + 1) := by
      rw [waitingAt, List.filter_filter]
      apply List.filter_congr
      intro j _
      simp only [Bool.and_eq_decide, decide_eq_true_eq, decide_eq_decide]
      omega
    rw [setScheduler_of_ne elsewhere, ← waitingEq]
    exact entered.queued
  · rw [sideAt_succ, Side.other_other, setScheduler_self]
    exact drained

/-! ## Sequences of calls -/

/-- The calls of a sequence, begun in phase `m`, that find something to do. -/
def effective (m : Nat) : List Side → List Side
  | [] => []
  | side :: rest =>
      if side = sideAt m then side :: effective (m + 1) rest else effective m rest

/-- The other calls may as well be left out. -/
theorem Phase.run {m : Nat} {system : DoubleSystem k N} (phase : system.Phase runCount m)
    (fits : k ≤ N) {fuel : Nat} (enough : k < fuel) (calls : List Side) :
    ∃ final, Transition.run (step runCount fuel) system calls = some final ∧
      Transition.run (step runCount fuel) system (effective m calls) = some final ∧
      final.Phase runCount (m + (effective m calls).length) := by
  induction calls generalizing m system with
  | nil => exact ⟨system, rfl, rfl, phase⟩
  | cons side rest ih =>
      rw [effective]
      by_cases useful : side = sideAt m
      · subst useful
        rcases phase.step_next fits enough with ⟨next, stepped, phase'⟩
        rcases ih phase' with ⟨final, ran, ran', finalPhase⟩
        rw [Nat.succ_add_eq_add_succ] at finalPhase
        rw [if_pos rfl, List.length_cons]
        exact ⟨final, Transition.run_cons_of_step stepped ran,
          Transition.run_cons_of_step stepped ran', finalPhase⟩
      · rcases ih phase with ⟨final, ran, ran', finalPhase⟩
        rw [if_neg useful]
        exact ⟨final, Transition.run_cons_of_step (phase.step_redundant enough useful) ran, ran',
          finalPhase⟩

/-- The effective calls strictly alternate. -/
theorem effective_eq_map (m : Nat) (calls : List Side) :
    effective m calls = (List.range' m (effective m calls).length).map sideAt := by
  induction calls generalizing m with
  | nil => rfl
  | cons side rest ih =>
      rw [effective]
      by_cases useful : side = sideAt m
      · rw [if_pos useful, List.length_cons, List.range'_succ, List.map_cons, ← ih, useful]
      · rw [if_neg useful]
        exact ih m

/-- They are what is left when a call is dropped that is on the same side as
the one before it. -/
theorem cons_effective (m : Nat) (calls : List Side) :
    (sideAt m).other :: effective m calls = calls.destutter' (· ≠ ·) (sideAt m).other := by
  induction calls generalizing m with
  | nil => rfl
  | cons side rest ih =>
      rw [effective]
      by_cases useful : side = sideAt m
      · subst useful
        have next := ih (m + 1)
        rw [sideAt_succ, Side.other_other] at next
        rw [if_pos rfl, List.destutter'_cons_pos rest (Side.other_ne (sideAt m)), next]
      · rw [if_neg useful, Side.eq_other_of_ne useful,
          List.destutter'_cons_neg rest (not_not.mpr rfl)]
        exact ih m

/-- The alternation of a sequence of calls: without the leading calls on `b`,
and with adjacent repeats collapsed. -/
def alternation (calls : List Side) : List Side :=
  (calls.dropWhile (· = .b)).destutter (· ≠ ·)

theorem cons_alternation (calls : List Side) :
    .b :: alternation calls = calls.destutter' (· ≠ ·) .b := by
  induction calls with
  | nil => rfl
  | cons side rest ih =>
      cases side with
      | a => rfl
      | b =>
          rw [List.destutter'_cons_neg rest (not_not.mpr rfl)]
          exact ih

theorem effective_zero (calls : List Side) : effective 0 calls = alternation calls := by
  have same : .b :: effective 0 calls = .b :: alternation calls :=
    (cons_effective 0 calls).trans (cons_alternation calls).symm
  exact (List.cons.inj same).2

/-! ## Counters and lists of a phase -/

theorem frameAt_resumeCountA (m turns : Nat) :
    (frameAt m turns).resumeCountA = min turns ((m + 1) / 2) := by
  unfold frameAt
  split
  · change (m + 1) / 2 = min turns ((m + 1) / 2)
    omega
  · change turns = min turns ((m + 1) / 2)
    omega

theorem frameAt_resumeCountB (m turns : Nat) :
    (frameAt m turns).resumeCountB = min turns (m / 2) := by
  unfold frameAt
  split
  · change m / 2 = min turns (m / 2)
    omega
  · change turns = min turns (m / 2)
    omega

theorem frameAt_finished_iff (m turns : Nat) :
    (frameAt m turns).status = .finished ↔ ¬ m / 2 < turns := by
  rw [frameAt]
  split
  · simp [*]
  · simp [*]

/-- How often a task waits, on either scheduler. -/
def timesWaiting (system : DoubleSystem k N) (j : Fin k) : Nat :=
  (system.waiting .a).count j + (system.waiting .b).count j

theorem Phase.timesWaiting {m : Nat} {system : DoubleSystem k N}
    (phase : system.Phase runCount m) (j : Fin k) :
    system.timesWaiting j = if (system.frames j).status = .finished then 0 else 1 := by
  have queued := phase.queued.entries_eq
  have drained := phase.drained.entries_eq
  have once : system.timesWaiting j = (waitingAt runCount m).count j := by
    unfold DoubleSystem.timesWaiting waiting
    cases sideEq : sideAt m with
    | a =>
        rw [sideEq] at queued drained
        rw [queued, show (system.schedulers .b).entries = [] from drained]
        rfl
    | b =>
        rw [sideEq] at queued drained
        rw [queued, show (system.schedulers .a).entries = [] from drained]
        exact Nat.zero_add _
  have nodup : (waitingAt runCount m).Nodup := (List.nodup_finRange k).filter _
  rw [once, phase.frames j, nodup.count]
  by_cases more : m / 2 < runCount j
  · rw [if_pos (by simpa [waitingAt] using more),
      if_neg ((frameAt_finished_iff m (runCount j)).not_left.mpr more)]
  · rw [if_neg (by simpa [waitingAt] using more),
      if_pos ((frameAt_finished_iff m (runCount j)).mpr more)]

/-- Every sequence of calls leads where its alternation leads, and how far the
tasks are is determined by the length of that. -/
theorem run_alternation [NeZero N] (fits : k ≤ N) (runCount : Fin k → Nat)
    (buffers : Side → Fin N → StaticListNode (Fin k) N) {fuel : Nat} (enough : k < fuel)
    (calls : List Side) {m : Nat} (alternates : (alternation calls).length = m) :
    ∃ system, Transition.run (step runCount fuel) (started runCount buffers) calls = some system ∧
      Transition.run (step runCount fuel) (started runCount buffers)
        ((List.range m).map sideAt) = some system ∧
      ∀ j, (system.frames j).resumeCountA = min (runCount j) ((m + 1) / 2) ∧
        (system.frames j).resumeCountB = min (runCount j) (m / 2) ∧
        (system.frames j).resumeCountB ≤ (system.frames j).resumeCountA ∧
        (system.frames j).resumeCountA ≤ (system.frames j).resumeCountB + 1 ∧
        system.timesWaiting j = if (system.frames j).status = .finished then 0 else 1 := by
  rcases (started_phase fits buffers).run fits enough calls with ⟨system, ran, ran', phase⟩
  rw [effective_zero, alternates, Nat.zero_add] at phase
  rw [effective_eq_map, effective_zero, alternates, ← List.range_eq_range'] at ran'
  refine ⟨system, ran, ran', ?_⟩
  intro j
  have countA := frameAt_resumeCountA m (runCount j)
  have countB := frameAt_resumeCountB m (runCount j)
  rw [← phase.frames j] at countA countB
  refine ⟨countA, countB, ?_, ?_, phase.timesWaiting j⟩
  · omega
  · omega

/-- Two tasks of different length, called with redundant resumes. -/
theorem run_alternation_twoTasks :
    ∃ system, Transition.run (step (fun j => j.val + 1) 3)
        (started (fun j => j.val + 1) fun _ _ => ⟨none, none, none⟩ : DoubleSystem 2 2)
        [.b, .a, .a, .b, .b, .a] = some system ∧
      (system.frames 0).resumeCountA = 1 ∧ (system.frames 1).resumeCountA = 2 := by
  rcases run_alternation (le_refl 2) (fun j => j.val + 1) (fun _ _ => ⟨none, none, none⟩)
    (by decide : 2 < 3) [.b, .a, .a, .b, .b, .a] (rfl : _ = 3) with ⟨system, ran, -, counts⟩
  exact ⟨system, ran, (counts 0).1, (counts 1).1⟩

end DoubleSystem

end BaremetalCoro
