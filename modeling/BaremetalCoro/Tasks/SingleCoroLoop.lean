import BaremetalCoro.Scheduler.Awaitable
import BaremetalCoro.Scheduler.Drain
import BaremetalCoro.Tasks.MainProgram

/-!
# Tasks that wait on one unordered scheduler

`single_coro_loop` waits on a scheduler `run_count` times.  A task that waits
again inserts itself at the end of the list that `resume` is draining, so a
single call of `resume` runs all tasks that were given a frame to completion,
and it does so round by round: every task that is not done is resumed once in
each round, in the order in which the tasks were started.
-/

namespace BaremetalCoro

open SchedulerUnordered

/-- The frames of the tasks, and a log of their resumptions. -/
structure SingleWorld (k : Nat) where
  frames : Fin k → TaskFrame
  log : List (Fin k)

namespace SingleWorld

variable {k N : Nat}

/-- Replace the frame of a task. -/
def setFrame (world : SingleWorld k) (j : Fin k) (frame : TaskFrame) : SingleWorld k :=
  { world with frames := Function.update world.frames j frame }

/-- From the head of the loop of task `j`, before turn `i`, to its suspension
point or to the end. -/
def loopHead (runCount : Fin k → Nat) (state : SingleWorld k × SchedulerUnordered (Fin k) N)
    (j : Fin k) (i resumeCount : Nat) : SingleWorld k × SchedulerUnordered (Fin k) N :=
  if i < runCount j then
    (state.1.setFrame j ⟨i, resumeCount, .suspended⟩,
      (AwaitableUnordered.mk).awaitSuspend state.2 j)
  else (state.1.setFrame j ⟨i, resumeCount, .finished⟩, state.2)

/-- `handle.resume()`: continue behind the `co_await`.  Only a suspended
co-routine may be resumed. -/
def resumeTask (runCount : Fin k → Nat) : Body (SingleWorld k) (Fin k) N :=
  fun world j scheduler =>
    let frame := world.frames j
    match frame.status with
    | .suspended =>
        let resumeCount := frame.i + 1
        some (loopHead runCount ({ world with log := world.log ++ [j] }, scheduler) j
          (frame.i + 1) resumeCount)
    | .unstarted | .finished => none

/-- The call of `single_coro_loop` for task `j`; it does not suspend
initially. -/
def startTask (runCount : Fin k → Nat) (state : SingleWorld k × SchedulerUnordered (Fin k) N)
    (j : Fin k) : SingleWorld k × SchedulerUnordered (Fin k) N :=
  loopHead runCount state j 0 0

/-- A new scheduler in storage that held `buffer`, and no task started. -/
def init [NeZero N] (buffer : Fin N → StaticListNode (Fin k) N) :
    SingleWorld k × SchedulerUnordered (Fin k) N :=
  (⟨fun _ => ⟨0, 0, .unstarted⟩, []⟩, SchedulerUnordered.init buffer)

/-- Where a task stands. -/
def status (state : SingleWorld k × SchedulerUnordered (Fin k) N) (j : Fin k) : TaskStatus :=
  (state.1.frames j).status

section Program

variable {w : Nat} (build : Build k w) (runCount : Fin k → Nat)

/-- The main program has called tasks, in the given order. -/
def started [NeZero N] (life : Lifecycle w) (buffer : Fin N → StaticListNode (Fin k) N)
    (order : List (Fin k)) :
    Option (MainProgram (SingleWorld k × SchedulerUnordered (Fin k) N) k w) :=
  Transition.run
    (fun program j =>
      program.call build status (fun state => some (startTask runCount state j)) j)
    (.init life (init buffer)) order

/-- `a.resume()` -/
def resumeAll (fuel : Nat) : Transition.Step (SingleWorld k × SchedulerUnordered (Fin k) N) Unit :=
  fun state _ => resume (resumeTask runCount) fuel state.1 state.2

/-- One turn of the loop. -/
def turn (fuel : Nat) (program : MainProgram (SingleWorld k × SchedulerUnordered (Fin k) N) k w) :
    Option (MainProgram (SingleWorld k × SchedulerUnordered (Fin k) N) k w) :=
  program.execute build status fun state => resumeAll runCount fuel state ()

/-- The loop of the main program: `do { a.resume(); } while (!task.done())`. -/
def mainLoop (fuel turns : Nat) :
    MainProgram (SingleWorld k × SchedulerUnordered (Fin k) N) k w →
      Option (MainProgram (SingleWorld k × SchedulerUnordered (Fin k) N) k w) :=
  MainProgram.loop build status (resumeAll runCount fuel) (fun _ => ()) turns 0

end Program

/-! ## Rounds -/

/-- The tasks of a list that are resumed in the given round. -/
def roundOf (runCount : Fin k → Nat) (tasks : List (Fin k)) (r : Nat) : List (Fin k) :=
  tasks.filter fun j => r < runCount j

/-- Some rounds from the first one on. -/
def rounds (runCount : Fin k → Nat) (tasks : List (Fin k)) (first count : Nat) : List (Fin k) :=
  (List.range' first count).flatMap (roundOf runCount tasks)

/-- The frame of a task that was resumed `m` times. -/
def frameAt (m turns : Nat) : TaskFrame :=
  ⟨m, m, if m < turns then .suspended else .finished⟩

variable {runCount : Fin k → Nat} {tasks : List (Fin k)}

theorem frameAt_started (m turns : Nat) : (frameAt m turns).status ≠ .unstarted := by
  unfold frameAt
  split <;> simp

theorem mem_roundOf {r : Nat} {j : Fin k} :
    j ∈ roundOf runCount tasks r ↔ j ∈ tasks ∧ r < runCount j := by
  simp [roundOf]

theorem roundOf_nodup (nodup : tasks.Nodup) (r : Nat) : (roundOf runCount tasks r).Nodup :=
  nodup.filter _

/-- Of the tasks of a round, those that wait again are the next round. -/
theorem roundOf_succ (r : Nat) :
    (roundOf runCount tasks r).filter (fun j => r + 1 < runCount j) =
      roundOf runCount tasks (r + 1) := by
  rw [roundOf, List.filter_filter, roundOf]
  congr 1
  funext j
  rw [Bool.eq_iff_iff]
  simp only [Bool.and_eq_true, decide_eq_true_iff]
  omega

theorem roundOf_eq_nil {bound r : Nat} (bounded : ∀ j, runCount j ≤ bound) (late : bound ≤ r) :
    roundOf runCount tasks r = [] := by
  rw [roundOf, List.filter_eq_nil_iff]
  intro j _
  have runs := bounded j
  rw [decide_eq_true_iff]
  omega

/-- The rounds that are left begin with the next one. -/
theorem rounds_next {bound : Nat} (bounded : ∀ j, runCount j ≤ bound) (r : Nat) :
    rounds runCount tasks r (bound - r) =
      roundOf runCount tasks r ++ rounds runCount tasks (r + 1) (bound - (r + 1)) := by
  by_cases more : r < bound
  · have count : bound - r = bound - (r + 1) + 1 := by omega
    rw [rounds, count, List.range'_succ, List.flatMap_cons, rounds]
  · have none : bound - r = 0 := by omega
    have none' : bound - (r + 1) = 0 := by omega
    rw [roundOf_eq_nil bounded (Nat.le_of_not_lt more), rounds, none, rounds, none']
    rfl

/-- After an empty round no rounds are left. -/
theorem rounds_eq_nil {r : Nat} (empty : roundOf runCount tasks r = []) (count : Nat) :
    rounds runCount tasks r count = [] := by
  rw [rounds, List.flatMap_eq_nil_iff]
  intro later member
  have notBefore := (List.mem_range'_1.mp member).1
  rw [List.eq_nil_iff_forall_not_mem]
  intro j inLater
  rcases mem_roundOf.mp inLater with ⟨isTask, runs⟩
  have inRound : j ∈ roundOf runCount tasks r := mem_roundOf.mpr ⟨isTask, by omega⟩
  rw [empty] at inRound
  contradiction

/-- As long as there are rounds, each task is in as many of them as it has
turns. -/
theorem count_rounds (nodup : tasks.Nodup) {j : Fin k} (isTask : j ∈ tasks) (first count : Nat) :
    (rounds runCount tasks first count).count j = min (runCount j) (first + count) - first := by
  induction count with
  | zero =>
      have none : min (runCount j) (first + 0) - first = 0 := by omega
      rw [none]
      rfl
  | succ count ih =>
      have last : rounds runCount tasks first (count + 1) =
          rounds runCount tasks first count ++ roundOf runCount tasks (first + count) := by
        rw [rounds, List.range'_concat, List.flatMap_append, Nat.one_mul, List.flatMap_singleton]
        rfl
      rw [last, List.count_append, ih]
      by_cases runs : first + count < runCount j
      · rw [List.count_eq_one_of_mem (roundOf_nodup nodup _) (mem_roundOf.mpr ⟨isTask, runs⟩)]
        omega
      · have absent : j ∉ roundOf runCount tasks (first + count) := by
          intro member
          exact runs (mem_roundOf.mp member).2
        rw [List.count_eq_zero_of_not_mem absent]
        omega

/-! ## One resumption -/

theorem setFrame_self (world : SingleWorld k) (j : Fin k) (frame : TaskFrame) :
    (world.setFrame j frame).frames j = frame := by
  simp only [setFrame, Function.update_self]

theorem setFrame_of_ne (world : SingleWorld k) {j other : Fin k} (different : other ≠ j)
    (frame : TaskFrame) : (world.setFrame j frame).frames other = world.frames other := by
  simp only [setFrame, Function.update_of_ne different]

theorem loopHead_eq (state : SingleWorld k × SchedulerUnordered (Fin k) N) (j : Fin k) (m : Nat) :
    loopHead runCount state j m m =
      (state.1.setFrame j (frameAt m (runCount j)),
        if m < runCount j then state.2.insert j else state.2) := by
  rw [loopHead, frameAt]
  split
  · rfl
  · rfl

/-- In round `r` the tasks `served` have been resumed and the tasks `rest` have
not. -/
structure Serving (runCount : Fin k → Nat) (tasks : List (Fin k)) (bound r : Nat)
    (served rest : List (Fin k)) (world : SingleWorld k) : Prop where
  round : roundOf runCount tasks r = served ++ rest
  ran : ∀ j ∈ served, world.frames j = frameAt (r + 1) (runCount j)
  waits : ∀ j ∈ rest, world.frames j = frameAt r (runCount j)
  ended : ∀ j ∈ tasks, runCount j ≤ r → world.frames j = frameAt (runCount j) (runCount j)
  others : ∀ j, j ∉ tasks → (world.frames j).status = .unstarted
  logged : world.log ++ rest ++ rounds runCount tasks (r + 1) (bound - (r + 1)) =
    rounds runCount tasks 0 bound

/-- The tasks that wait in round `r`. -/
def waitingIn (runCount : Fin k → Nat) (r : Nat) (served rest : List (Fin k)) : List (Fin k) :=
  rest ++ served.filter fun j => r + 1 < runCount j

/-- When all tasks of a round were resumed, the next one begins. -/
theorem Serving.next {bound r : Nat} {served : List (Fin k)} {world : SingleWorld k}
    (serving : world.Serving runCount tasks bound r served [])
    (bounded : ∀ j, runCount j ≤ bound) :
    world.Serving runCount tasks bound (r + 1) [] (roundOf runCount tasks (r + 1)) := by
  have all : ∀ {j}, j ∈ tasks → r < runCount j → j ∈ served := by
    intro j isTask runs
    have member := mem_roundOf.mpr ⟨isTask, runs⟩
    rwa [serving.round, List.append_nil] at member
  constructor
  · rfl
  · intro j member
    contradiction
  · intro j member
    rcases mem_roundOf.mp member with ⟨isTask, runs⟩
    exact serving.ran j (all isTask (Nat.lt_of_succ_lt runs))
  · intro j isTask done
    rcases Nat.lt_or_ge r (runCount j) with runs | before
    · have last : runCount j = r + 1 := by omega
      rw [serving.ran j (all isTask runs), last]
    · exact serving.ended j isTask before
  · exact serving.others
  · have logged := serving.logged
    rw [List.append_nil, rounds_next bounded] at logged
    rw [List.append_assoc]
    exact logged

/-- The first task that waits is resumed, and waits again at the end of the
list if it is not done. -/
theorem Serving.turn {bound r : Nat} {served rest : List (Fin k)} {j : Fin k}
    {world : SingleWorld k} (serving : world.Serving runCount tasks bound r served (j :: rest))
    (nodup : tasks.Nodup) {scheduler : SchedulerUnordered (Fin k) N}
    (holds : scheduler.Holds (waitingIn runCount r served rest)) (fits : k ≤ N) :
    ∃ world' scheduler', resumeTask runCount world j scheduler = some (world', scheduler') ∧
      scheduler'.Holds (waitingIn runCount r (served ++ [j]) rest) ∧
      world'.Serving runCount tasks bound r (served ++ [j]) rest ∧
      world'.log = world.log ++ [j] := by
  have round := serving.round
  have nodupRound : (served ++ j :: rest).Nodup := by
    rw [← round]
    exact roundOf_nodup nodup r
  have unserved : ∀ other ∈ served, other ≠ j := by
    rintro other member rfl
    exact (List.nodup_append'.mp nodupRound).2.2 member List.mem_cons_self
  have notNext : ∀ other ∈ rest, other ≠ j := by
    rintro other member rfl
    exact (List.nodup_cons.mp (List.nodup_append'.mp nodupRound).2.1).1 member
  have current : j ∈ tasks ∧ r < runCount j := by
    apply mem_roundOf.mp
    rw [round]
    exact List.mem_append_right served List.mem_cons_self
  have room : (waitingIn runCount r served rest).length < N := by
    have bound := nodupRound.length_le_card
    have short := List.length_filter_le (fun j => decide (r + 1 < runCount j)) served
    rw [Fintype.card_fin] at bound
    simp only [waitingIn, List.length_append, List.length_cons] at bound ⊢
    omega
  have frame := serving.waits j List.mem_cons_self
  have resumed : resumeTask runCount world j scheduler =
      some (loopHead runCount ({ world with log := world.log ++ [j] }, scheduler) j
        (r + 1) (r + 1)) := by
    rw [resumeTask, frame, frameAt, if_pos current.2]
  rw [loopHead_eq] at resumed
  refine ⟨_, _, resumed, ?_, ?_, rfl⟩
  · rw [waitingIn, List.filter_append, List.filter_singleton, ← List.append_assoc]
    by_cases again : r + 1 < runCount j
    · have awaited := holds.insert j
      rw [appended, if_pos room] at awaited
      simpa [again, waitingIn] using awaited
    · simpa [again, waitingIn] using holds
  · constructor
    · rw [← List.append_cons]
      exact round
    · intro other member
      rcases List.mem_append.mp member with before | isLast
      · exact (setFrame_of_ne _ (unserved other before) _).trans (serving.ran other before)
      · rw [List.mem_singleton.mp isLast]
        exact setFrame_self _ j _
    · intro other member
      have waits := serving.waits other (List.mem_cons_of_mem j member)
      exact (setFrame_of_ne _ (notNext other member) _).trans waits
    · intro other isTask done
      have different : other ≠ j := by
        rintro rfl
        omega
      exact (setFrame_of_ne _ different _).trans (serving.ended other isTask done)
    · intro other notTask
      have different : other ≠ j := by
        rintro rfl
        exact notTask current.1
      rw [setFrame_of_ne _ different]
      exact serving.others other notTask
    · change world.log ++ [j] ++ rest ++ _ = _
      rw [← List.append_cons]
      exact serving.logged

/-! ## All tasks -/

/-- Some tasks were called and have not been resumed. -/
structure Entered (runCount : Fin k → Nat) (called : List (Fin k))
    (state : SingleWorld k × SchedulerUnordered (Fin k) N) : Prop where
  frames : ∀ j ∈ called, state.1.frames j = frameAt 0 (runCount j)
  others : ∀ j, j ∉ called → (state.1.frames j).status = .unstarted
  queued : state.2.Holds (roundOf runCount called 0)
  quiet : state.1.log = []

theorem init_entered [NeZero N] (buffer : Fin N → StaticListNode (Fin k) N) :
    Entered runCount [] (init buffer) := by
  constructor
  · intro j member
    contradiction
  · intro j _
    rfl
  · exact SchedulerUnordered.init_holds buffer
  · rfl

/-- One more task is called. -/
theorem Entered.start {called : List (Fin k)} {j : Fin k}
    {state : SingleWorld k × SchedulerUnordered (Fin k) N}
    (entered : Entered runCount called state) (nodup : (called ++ [j]).Nodup) (fits : k ≤ N) :
    Entered runCount (called ++ [j]) (startTask runCount state j) ∧
      MainProgram.Orderly status (some j) state (startTask runCount state j) := by
  have new : j ∉ called := by
    intro member
    exact (List.nodup_append.mp nodup).2.2 j member j List.mem_cons_self rfl
  have room : (roundOf runCount called 0).length < N := by
    have short := List.length_filter_le (fun j => decide (0 < runCount j)) called
    have bound := nodup.length_le_card
    rw [Fintype.card_fin, List.length_append, List.length_singleton] at bound
    exact lt_of_le_of_lt short (Nat.lt_of_lt_of_le (Nat.lt_of_succ_le bound) fits)
  rw [startTask, loopHead_eq]
  constructor
  · constructor
    · intro other member
      by_cases same : other = j
      · rw [same]
        exact setFrame_self _ j _
      · rw [setFrame_of_ne _ same]
        rcases List.mem_append.mp member with before | isLast
        · exact entered.frames other before
        · exact absurd (List.mem_singleton.mp isLast) same
    · intro other notCalled
      rw [List.mem_append, List.mem_singleton, not_or] at notCalled
      rw [setFrame_of_ne _ notCalled.2]
      exact entered.others other notCalled.1
    · rw [roundOf, List.filter_append, List.filter_singleton]
      by_cases runs : 0 < runCount j
      · have awaited := entered.queued.insert j
        rw [appended, if_pos room] at awaited
        simpa [runs, roundOf] using awaited
      · simpa [runs, roundOf] using entered.queued
    · exact entered.quiet
  · exact .of_update (Function.comp_update TaskFrame.status state.1.frames j _)
      (frameAt_started 0 (runCount j)) (Or.inl ⟨rfl, entered.others j new⟩)

/-- The loop of `resume` is in some round. -/
def InSomeRound (runCount : Fin k → Nat) (tasks : List (Fin k)) (bound : Nat)
    (world : SingleWorld k) (waiting : List (Fin k)) : Prop :=
  ∃ r served rest, waiting = waitingIn runCount r served rest ∧
    world.Serving runCount tasks bound r served rest

theorem Entered.inSomeRound {bound : Nat} (bounded : ∀ j, runCount j ≤ bound)
    {state : SingleWorld k × SchedulerUnordered (Fin k) N}
    (entered : Entered runCount tasks state) :
    InSomeRound runCount tasks bound state.1 (roundOf runCount tasks 0) := by
  refine ⟨0, [], roundOf runCount tasks 0, (List.append_nil _).symm, ?_⟩
  constructor
  · rfl
  · intro j member
    contradiction
  · intro j member
    exact entered.frames j (mem_roundOf.mp member).1
  · intro j isTask done
    rw [entered.frames j isTask, Nat.le_zero.mp done]
  · exact entered.others
  · rw [entered.quiet, List.nil_append]
    exact (rounds_next bounded 0).symm

theorem InSomeRound.turn {bound : Nat} (bounded : ∀ j, runCount j ≤ bound) (nodup : tasks.Nodup)
    (fits : k ≤ N) {world : SingleWorld k} {j : Fin k} {others : List (Fin k)}
    {scheduler : SchedulerUnordered (Fin k) N}
    (inRound : InSomeRound runCount tasks bound world (j :: others))
    (holds : scheduler.Holds others) :
    ∃ world' scheduler' waiting', resumeTask runCount world j scheduler =
        some (world', scheduler') ∧ scheduler'.Holds waiting' ∧
      InSomeRound runCount tasks bound world' waiting' ∧
      (rounds runCount tasks 0 bound).length - world'.log.length <
        (rounds runCount tasks 0 bound).length - world.log.length := by
  have current : ∃ r served rest, others = waitingIn runCount r served rest ∧
      world.Serving runCount tasks bound r served (j :: rest) := by
    rcases inRound with ⟨r, served, rest, waitingEq, serving⟩
    cases rest with
    | nil =>
        have nextEq : roundOf runCount tasks (r + 1) = j :: others := by
          have round := serving.round
          rw [List.append_nil] at round
          rw [← roundOf_succ, round, waitingEq]
          rfl
        have next := serving.next bounded
        rw [nextEq] at next
        refine ⟨r + 1, [], others, ?_, next⟩
        rw [waitingIn, List.filter_nil, List.append_nil]
    | cons first rest =>
        rcases List.cons_eq_cons.mp waitingEq with ⟨rfl, rfl⟩
        exact ⟨r, served, rest, rfl, serving⟩
  rcases current with ⟨r, served, rest, rfl, serving⟩
  rcases serving.turn nodup holds fits with ⟨world', scheduler', resumed, holds', serving', logged⟩
  refine ⟨world', scheduler', _, resumed, holds', ⟨r, served ++ [j], rest, rfl, serving'⟩, ?_⟩
  have left := congrArg List.length serving.logged
  have log := congrArg List.length logged
  simp only [List.length_append, List.length_cons, List.length_nil] at left log
  omega

/-- The loop ends when no round is left. -/
theorem InSomeRound.complete {bound : Nat} {world : SingleWorld k}
    (inRound : InSomeRound runCount tasks bound world []) :
    world.log = rounds runCount tasks 0 bound ∧
      (∀ j ∈ tasks, world.frames j = frameAt (runCount j) (runCount j)) ∧
      ∀ j, j ∉ tasks → (world.frames j).status = .unstarted := by
  rcases inRound with ⟨r, served, rest, waitingEq, serving⟩
  rcases List.append_eq_nil_iff.mp waitingEq.symm with ⟨rfl, noneAgain⟩
  have round := serving.round
  have logged := serving.logged
  rw [List.append_nil] at round logged
  have last : roundOf runCount tasks (r + 1) = [] := by
    rw [← roundOf_succ, round, noneAgain]
  rw [rounds_eq_nil last, List.append_nil] at logged
  refine ⟨logged, ?_, serving.others⟩
  intro j isTask
  by_cases runs : r < runCount j
  · have turns : runCount j = r + 1 := by
      have notAgain : ¬ r + 1 < runCount j := by
        intro again
        have member := mem_roundOf.mpr ⟨isTask, again⟩
        rw [last] at member
        contradiction
      omega
    have member := mem_roundOf.mpr ⟨isTask, runs⟩
    rw [round] at member
    rw [serving.ran j member, turns]
  · exact serving.ended j isTask (Nat.le_of_not_lt runs)

/-- One call of `resume` runs all tasks that were called to completion, and no
other one. -/
theorem Entered.resumeAll {bound : Nat} (bounded : ∀ j, runCount j ≤ bound)
    (nodup : tasks.Nodup) (fits : k ≤ N)
    {state : SingleWorld k × SchedulerUnordered (Fin k) N}
    (entered : Entered runCount tasks state) :
    ∃ next, (∀ fuel, (rounds runCount tasks 0 bound).length < fuel →
        SingleWorld.resumeAll runCount fuel state () = some next) ∧
      next.2.Holds [] ∧ next.1.log = rounds runCount tasks 0 bound ∧
      (∀ j ∈ tasks, next.1.frames j = frameAt (runCount j) (runCount j)) ∧
      MainProgram.Orderly status none state next := by
  rcases SchedulerUnordered.Holds.resume_rule (InSomeRound runCount tasks bound)
    (fun world _ => (rounds runCount tasks 0 bound).length - world.log.length)
    (InSomeRound.turn bounded nodup fits) entered.queued (entered.inSomeRound bounded) with
    ⟨world, scheduler, returns, drained, inRound⟩
  rcases inRound.complete with ⟨logged, frames, others⟩
  have ended : ∀ j ∈ tasks, (world.frames j).status = .finished := by
    intro j isTask
    rw [frames j isTask, frameAt, if_neg (Nat.lt_irrefl _)]
  refine ⟨(world, scheduler), ?_, drained, logged, frames, ?_, ?_⟩
  · intro fuel enough
    apply returns
    rw [entered.quiet]
    exact enough
  · intro j finished
    by_cases isTask : j ∈ tasks
    · exact ended j isTask
    · have unstarted : status state j = .unstarted := entered.others j isTask
      rw [finished] at unstarted
      contradiction
  · intro j
    by_cases isTask : j ∈ tasks
    · have before : status state j ≠ .unstarted := by
        rw [status, entered.frames j isTask]
        exact frameAt_started 0 (runCount j)
      have after : status (world, scheduler) j = .finished := ended j isTask
      simp [before, after]
    · have before : status state j = .unstarted := entered.others j isTask
      have after : status (world, scheduler) j = .unstarted := others j isTask
      simp [before, after]

/-! ## The main program -/

section Program

variable {w : Nat} {life : Lifecycle w}

/-- One call of `resume` runs all tasks that were given a frame to completion,
round by round.  So the main loop returns after its first turn in the host
build, if all tasks were given a frame; with an object of the target build, or
one without a frame, it never returns. -/
theorem mainLoop_rounds [NeZero N] (build : Build k w)
    (earlier : Transition.Reachable (Lifecycle.step build.hostEmulation build.TASK_HEAP_SIZE)
      .init life)
    (fits : k ≤ N) (runCount : Fin k → Nat) (buffer : Fin N → StaticListNode (Fin k) N)
    {order : List (Fin k)} (nodup : order.Nodup) {bound : Nat}
    (bounded : ∀ j, runCount j ≤ bound) :
    ∃ program, started build runCount life buffer order = some program ∧
      (∀ fuel, (rounds runCount (order.filter program.granted) 0 bound).length < fuel →
        ∃ finish, turn build runCount fuel program = some finish ∧
          finish.system.2.empty = true ∧
          finish.system.1.log = rounds runCount (order.filter program.granted) 0 bound ∧
          (∀ j, program.granted j = true →
            (finish.system.1.frames j).resumeCount = runCount j ∧
            (finish.system.1.frames j).status = .finished ∧
            finish.system.1.log.count j = runCount j) ∧
          (build.hostEmulation = true → (∀ j, program.granted j = true) →
            mainLoop build runCount fuel 1 program = some finish)) ∧
      ∀ j, (build.hostEmulation = false ∨ program.granted j = false) →
        ∀ fuel turns, mainLoop build runCount fuel turns program = none := by
  have starts : ∀ ⦃called : List (Fin k)⦄ ⦃j⦄
      ⦃state : SingleWorld k × SchedulerUnordered (Fin k) N⦄,
      (called ++ [j]).Nodup → Entered runCount called state →
      ∃ next, some (startTask runCount state j) = some next ∧
        Entered runCount (called ++ [j]) next ∧
        MainProgram.Orderly status (some j) state next := by
    intro called j state nodupCalled entered
    exact ⟨_, rfl, entered.start nodupCalled fits⟩
  rcases MainProgram.run_calls (Lifecycle.valid_of_reachable earlier) starts (fun _ => rfl)
    (init_entered buffer) nodup with ⟨program, ran, valid, called, entered⟩
  have mem_tasks : ∀ {j}, j ∈ order.filter program.granted ↔ program.granted j = true := by
    intro j
    rw [List.mem_filter]
    constructor
    · exact And.right
    · intro granted
      refine ⟨(called j).mp ?_, granted⟩
      intro uncalled
      rw [MainProgram.granted, MainProgram.coroutine, uncalled] at granted
      contradiction
  rcases entered.resumeAll bounded (nodup.filter _) fits with
    ⟨system, returns, drained, logged, frames, orderly⟩
  refine ⟨program, ran, ?_, ?_⟩
  · intro fuel enough
    rcases valid.execute (fun state => resumeAll runCount fuel state ()) (returns fuel enough)
      orderly with ⟨finish, executed, rfl, objects, valid'⟩
    have ended : ∀ j, program.granted j = true →
        (finish.system.1.frames j).status = .finished := by
      intro j granted
      rw [frames j (mem_tasks.mpr granted), frameAt, if_neg (Nat.lt_irrefl _)]
    have turned : turn build runCount fuel program = some finish := executed
    refine ⟨finish, turned, drained.empty_iff.mpr rfl, logged, ?_, ?_⟩
    · intro j granted
      refine ⟨?_, ended j granted, ?_⟩
      · rw [frames j (mem_tasks.mpr granted)]
        rfl
      · rw [logged, count_rounds (nodup.filter _) (mem_tasks.mpr granted), Nat.zero_add,
          Nat.sub_zero, Nat.min_eq_left (bounded j)]
    · intro host allGranted
      have done : finish.allDone = true := by
        rw [MainProgram.allDone, decide_eq_true_iff]
        intro j
        apply (valid'.done_iff j).mpr
        refine ⟨host, ?_, ended j (allGranted j)⟩
        rw [MainProgram.granted_congr (congrFun objects j)]
        exact allGranted j
      rw [mainLoop, MainProgram.loop, Transition.doUntil, ← turn, turned, Option.bind_some,
        if_pos done]
  · intro j never fuel turns
    exact (valid.neverDone never).loop_eq_none _ _ turns 0

/-- Three tasks of different length. -/
theorem mainLoop_rounds_threeTasks :
    ∃ program finish, started (hostBuild 3) (fun j => j.val) .init
        (fun _ : Fin 3 => ⟨none, none, none⟩) (List.finRange 3) = some program ∧
      mainLoop (hostBuild 3) (fun j => j.val) 4 1 program = some finish ∧
      finish.system.1.log.map Fin.val = [1, 2, 2] := by
  have facts : (started (hostBuild 3) (fun j => j.val) .init
      (fun _ : Fin 3 => ⟨none, none, none⟩) (List.finRange 3)).map
        (fun program => decide (∀ j, program.granted j = true)) = some true := by
    decide
  rcases mainLoop_rounds (hostBuild 3) (.refl _ _) (le_refl 3) (fun j => j.val)
    (fun _ => ⟨none, none, none⟩) (List.nodup_finRange 3) (fun j => j.isLt.le) with
    ⟨program, called, returns, _⟩
  rw [called] at facts
  have allGranted : ∀ j, program.granted j = true := of_decide_eq_true (Option.some.inj facts)
  have everyTask : (List.finRange 3).filter program.granted = List.finRange 3 :=
    List.filter_eq_self.mpr fun j _ => allGranted j
  rw [everyTask] at returns
  rcases returns 4 (by decide) with ⟨finish, _, _, logged, _, loopEq⟩
  refine ⟨program, finish, called, loopEq rfl allGranted, ?_⟩
  rw [logged]
  rfl

end Program

end SingleWorld

end BaremetalCoro
