import BaremetalCoro.Interrupt.LostWakeup

/-!
# Handing tasks over to the main thread

A task of `example_irq` alternates between the handler and the main loop: a trap
moves it to the main thread, and the loop resumes it there and lets it wait for
the next trap.  Its two counters tell on which side it is, whatever the
interleaving of traps and whole operations on the schedulers.

The loop never stops turning, so a task on the main thread is resumed soon.
What decides when is only the place the loop is at and the tasks that wait in
front; traps append to the list behind them.
-/

namespace BaremetalCoro

open SchedulerUnordered

/-- What every co-routine keeps, `resume` keeps. -/
theorem SchedulerUnordered.resume_preserves {σ H : Type} {N : Nat} {body : Body σ H N}
    {keeps : σ → Prop}
    (turn : ∀ ⦃world handle scheduler world' scheduler'⦄, keeps world →
      body world handle scheduler = some (world', scheduler') → keeps world')
    {fuel : Nat} {world world' : σ} {scheduler scheduler' : SchedulerUnordered H N}
    (initially : keeps world)
    (returned : resume body fuel world scheduler = some (world', scheduler')) : keeps world' := by
  induction fuel generalizing world scheduler with
  | zero => contradiction
  | succ fuel ih =>
      rw [resume] at returned
      split at returned
      · contradiction
      · cases returned
        exact initially
      · rcases Option.bind_eq_some_iff.mp returned with ⟨⟨middle, popped⟩, ran, remaining⟩
        exact ih (turn initially ran) remaining

namespace LoopPc

/-- The next place of the loop, with `waiting` on the main thread. -/
def next (waiting : List IrqTask) : LoopPc → LoopPc
  | .testEmpty => if waiting = [] then .setTimeCmp else .front
  | .front => (waiting.head?.map LoopPc.popFront).getD .front
  | .popFront handle => .resumeHandle handle
  | .resumeHandle _ => .testEmpty
  | .setTimeCmp => .clearMie
  | .clearMie => .setMti
  | .setMti => .wfi
  | .wfi => .setMie
  | .setMie => .testEmpty

/-- What is on the main thread after a statement of the loop. -/
def leaves (waiting : List IrqTask) : LoopPc → List IrqTask
  | .popFront _ => waiting.tail
  | _ => waiting

/-- How many statements of the loop come before the one that resumes a task on
the main thread. -/
def distance (waiting : List IrqTask) (task : IrqTask) : LoopPc → Nat
  | .resumeHandle handle => if handle = task then 0 else 4 * waiting.idxOf task + 4
  | .popFront _ => 4 * waiting.idxOf task + 1
  | .front => 4 * waiting.idxOf task + 2
  | .testEmpty => 4 * waiting.idxOf task + 3
  | .setMie => 4 * waiting.idxOf task + 4
  | .wfi => 4 * waiting.idxOf task + 5
  | .setMti => 4 * waiting.idxOf task + 6
  | .clearMie => 4 * waiting.idxOf task + 7
  | .setTimeCmp => 4 * waiting.idxOf task + 8

/-- A statement of the loop brings it closer to a task that waits in the list. -/
theorem distance_next {waiting : List IrqTask} {task : IrqTask} {pc : LoopPc}
    (member : task ∈ waiting) (knows : pc.Knows waiting) (elsewhere : pc ≠ .resumeHandle task) :
    (pc.next waiting).distance (pc.leaves waiting) task + 1 = pc.distance waiting task := by
  rcases List.exists_cons_of_ne_nil (List.ne_nil_of_mem member) with ⟨first, rest, rfl⟩
  cases pc with
  | popFront handle =>
      have isFirst : first = handle := Option.some.inj knows
      subst isFirst
      by_cases same : first = task
      · simp [next, distance, same]
      · simp [next, leaves, distance, same, List.idxOf_cons_ne]
        omega
  | resumeHandle handle =>
      have other : handle ≠ task := by
        rintro rfl
        exact elsewhere rfl
      simp [next, leaves, distance, other]
  | _ => rfl

/-- Tasks that are appended behind do not matter. -/
theorem distance_append {waiting : List IrqTask} {task : IrqTask} {pc : LoopPc}
    (present : task ∈ waiting ∨ pc = .resumeHandle task) (added : List IrqTask) :
    pc.distance (waiting ++ added) task = pc.distance waiting task := by
  rcases present with member | rfl
  · have index : (waiting ++ added).idxOf task = waiting.idxOf task :=
      List.idxOf_append_of_mem member
    cases pc <;> simp only [distance, index]
  · simp [distance]

theorem distance_le {waiting : List IrqTask} {task : IrqTask} (pc : LoopPc)
    (nodup : waiting.Nodup) (present : task ∈ waiting ∨ pc = .resumeHandle task) :
    pc.distance waiting task ≤ 16 := by
  rcases present with member | rfl
  · have short : waiting.length ≤ 3 := by
      have all : waiting ⊆ [.t3, .t4, .t5] := by
        intro other _
        cases other <;> decide
      exact (List.subperm_of_subset nodup all).length_le
    have index := List.idxOf_lt_length_of_mem member
    cases pc with
    | resumeHandle handle =>
        simp only [distance]
        split <;> omega
    | _ =>
        simp only [distance]
        omega
  · simp [distance]

end LoopPc

/-- A step of the loop. -/
def IrqAct.isMain {xlen : Nat} : IrqAct xlen → Bool
  | .main => true
  | .trap _ => false

namespace IrqSystem

/-! ## The loop -/

/-- A statement of the loop takes the loop and the main thread where they should
be. -/
theorem Valid.busyLoop_next {system next : IrqSystem} {waiting : List IrqTask}
    (valid : system.Valid waiting) (looped : system.busyLoop = some next) :
    next.Valid (system.pc.leaves waiting) ∧ next.pc = system.pc.next waiting := by
  have kept : ∃ waiting', next.Valid waiting' := by
    cases sleepy : system.pc.goesToSleep with
    | false =>
        rcases valid.busyLoop_awake sleepy with ⟨next', waiting', looped', valid', _⟩
        cases Option.some.inj (looped.symm.trans looped')
        exact ⟨waiting', valid'⟩
    | true =>
        rcases valid.busyLoop_goesToSleep sleepy with ⟨next', looped', valid', _⟩
        cases Option.some.inj (looped.symm.trans looped')
        exact ⟨waiting, valid'⟩
  have places : next.mainThread.entries = system.pc.leaves waiting ∧
      next.pc = system.pc.next waiting := by
    have entriesEq := valid.main.entries_eq
    have knows := valid.knows
    have holding := valid.holding
    unfold busyLoop at looped
    cases hpc : system.pc with
    | testEmpty =>
        simp only [hpc, Option.some.injEq] at looped
        cases looped
        refine ⟨entriesEq, ?_⟩
        by_cases nothing : waiting = []
        · simp [LoopPc.next, nothing, valid.main.empty_iff.mpr nothing]
        · have filled : system.mainThread.empty = false := by
            rw [Bool.eq_false_iff]
            exact mt valid.main.empty_iff.mp nothing
          simp [LoopPc.next, nothing, filled]
    | front =>
        rw [hpc] at knows
        rcases List.exists_cons_of_ne_nil knows with ⟨task, rest, rfl⟩
        simp only [hpc, valid.main.front, Option.map_some, Option.some.injEq] at looped
        cases looped
        exact ⟨entriesEq, rfl⟩
    | popFront handle =>
        rw [hpc] at knows
        rcases List.head?_eq_some_iff.mp knows with ⟨rest, rfl⟩
        simp only [hpc, Option.some.injEq] at looped
        cases looped
        exact ⟨valid.main.popFront.entries_eq, rfl⟩
    | resumeHandle handle =>
        have waits : (system.frames handle).status = .waitingMain := by
          apply holding
          rw [hpc]
          rfl
        simp only [hpc, resumeTask, waits, Option.some.injEq] at looped
        cases looped
        exact ⟨entriesEq, rfl⟩
    | _ =>
        simp only [hpc, Option.some.injEq] at looped
        cases looped
        exact ⟨entriesEq, rfl⟩
  rcases kept with ⟨waiting', valid'⟩
  have same : waiting' = system.pc.leaves waiting := valid'.main.entries_eq.symm.trans places.1
  exact ⟨same ▸ valid', places.2⟩

/-- A task is on the main thread, and the loop is so many statements away from
resuming it. -/
def Awaited (task : IrqTask) (distance : Nat) (system : IrqSystem) : Prop :=
  ∃ waiting, system.Valid waiting ∧ (system.frames task).status = .waitingMain ∧
    system.pc.distance waiting task = distance

section Steps

variable {xlen fuel : Nat} {system next : IrqSystem} {task : IrqTask} {distance : Nat}

/-- A task on the main thread waits there or has just been popped. -/
theorem Valid.mem_or_held {waiting : List IrqTask} (valid : system.Valid waiting)
    (waits : (system.frames task).status = .waitingMain) :
    task ∈ waiting ∨ system.pc = .resumeHandle task := by
  by_cases held : system.pc.held = some task
  · right
    cases hpc : system.pc with
    | resumeHandle handle =>
        rw [hpc] at held
        exact congrArg LoopPc.resumeHandle (Option.some.inj held)
    | _ =>
        rw [hpc] at held
        cases held
  · exact Or.inl ((valid.member task).mpr ⟨waits, held⟩)

theorem Valid.status_of_mem_or_held {waiting : List IrqTask} (valid : system.Valid waiting)
    (present : task ∈ waiting ∨ system.pc = .resumeHandle task) :
    (system.frames task).status = .waitingMain := by
  rcases present with member | held
  · exact ((valid.member task).mp member).1
  · apply valid.holding
    rw [held]
    rfl

/-- A step of the loop brings it closer to the task, unless it resumes it. -/
theorem Awaited.main (awaited : system.Awaited task distance)
    (elsewhere : system.pc ≠ .resumeHandle task) (looped : system.busyLoop = some next) :
    ∃ closer, next.Awaited task closer ∧ closer + 1 = distance := by
  rcases awaited with ⟨waiting, valid, waits, rfl⟩
  have member := (valid.mem_or_held waits).resolve_right elsewhere
  rcases valid.busyLoop_next looped with ⟨valid', pcEq⟩
  have present : task ∈ system.pc.leaves waiting ∨ next.pc = .resumeHandle task := by
    cases hpc : system.pc with
    | popFront handle =>
        have knows := valid.knows
        rw [hpc] at knows pcEq
        rcases List.head?_eq_some_iff.mp knows with ⟨rest, rfl⟩
        rcases List.mem_cons.mp member with rfl | inRest
        · exact Or.inr pcEq
        · exact Or.inl inRest
    | _ => exact Or.inl member
  refine ⟨_, ⟨_, valid', valid'.status_of_mem_or_held present, rfl⟩, ?_⟩
  rw [pcEq]
  exact LoopPc.distance_next member valid.knows elsewhere

theorem Awaited.trap (awaited : system.Awaited task distance) (enough : 1 < fuel)
    {mcause : BitVec xlen} (stepped : system.step fuel (.trap mcause) = some next) :
    next.Awaited task distance := by
  rcases awaited with ⟨waiting, valid, waits, rfl⟩
  have present := valid.mem_or_held waits
  rcases valid.trap enough stepped with ⟨_, valid', pcEq⟩
  refine ⟨_, valid', valid'.status_of_mem_or_held ?_, ?_⟩
  · rw [pcEq]
    exact present.imp_left (List.mem_append_left _)
  · rw [pcEq]
    exact LoopPc.distance_append present _

/-- A run with enough steps of the loop resumes the task. -/
theorem Awaited.resumed {acts : List (IrqAct xlen)} {target : IrqSystem}
    (awaited : system.Awaited task distance) (enough : 1 < fuel)
    (ran : Transition.run (IrqSystem.step fuel) system acts = some target)
    (long : distance < acts.countP IrqAct.isMain) :
    ∃ front rest middle, acts = front ++ .main :: rest ∧
      Transition.run (IrqSystem.step fuel) system front = some middle ∧
      middle.pc = .resumeHandle task := by
  induction acts generalizing system distance with
  | nil => exact absurd long (Nat.not_lt_zero _)
  | cons act acts ih =>
      rcases (Transition.run_cons_eq_some_iff _ _ _ _ _).mp ran with ⟨next, stepped, remaining⟩
      cases act with
      | main =>
          by_cases here : system.pc = .resumeHandle task
          · exact ⟨[], acts, system, rfl, rfl, here⟩
          · rcases awaited.main here stepped with ⟨closer, awaited', rfl⟩
            have long' : closer < acts.countP IrqAct.isMain := by
              rw [List.countP_cons_of_pos rfl] at long
              exact Nat.lt_of_succ_lt_succ long
            rcases ih awaited' remaining long' with ⟨front, rest, middle, rfl, frontRan, there⟩
            exact ⟨.main :: front, rest, middle, rfl, Transition.run_cons_of_step stepped frontRan,
              there⟩
      | trap mcause =>
          have long' : distance < acts.countP IrqAct.isMain := by
            rw [List.countP_cons_of_neg Bool.false_ne_true] at long
            exact long
          rcases ih (awaited.trap enough stepped) remaining long' with
            ⟨front, rest, middle, rfl, frontRan, there⟩
          exact ⟨.trap mcause :: front, rest, middle, rfl,
            Transition.run_cons_of_step stepped frontRan, there⟩

end Steps

/-! ## The counters -/

/-- The counters of a task agree while it waits for a trap, and differ by one
while it is on the main thread. -/
def Counted (frame : IrqFrame) : Prop :=
  frame.i = frame.mainResumeCount + 1 ∧
    match frame.status with
    | .unstarted => False
    | .waitingIsr => frame.isrResumeCount = frame.mainResumeCount
    | .waitingMain => frame.isrResumeCount = frame.i

/-- This holds of all tasks. -/
def AllCounted (system : IrqSystem) : Prop :=
  ∀ task, Counted (system.frames task)

theorem AllCounted.setFrame {system : IrqSystem} (counted : system.AllCounted) (task : IrqTask)
    {frame : IrqFrame} (own : Counted frame) : (system.setFrame task frame).AllCounted := by
  intro other
  unfold IrqSystem.setFrame
  by_cases same : other = task
  · subst same
    simp only [Function.update_self]
    exact own
  · simp only [Function.update_of_ne same]
    exact counted other

/-- A task counts when it is resumed, on either side. -/
theorem AllCounted.resumeTask {system next : IrqSystem} (counted : system.AllCounted)
    {task : IrqTask} (resumed : system.resumeTask task = some next) : next.AllCounted := by
  have own := counted task
  unfold IrqSystem.resumeTask at resumed
  cases hstatus : (system.frames task).status with
  | unstarted =>
      simp only [hstatus] at resumed
      contradiction
  | waitingIsr =>
      simp only [hstatus, Option.some.injEq] at resumed
      subst resumed
      have kept : (system.awaitMain task).AllCounted := counted
      exact kept.setFrame task ⟨own.1, rfl⟩
  | waitingMain =>
      simp only [hstatus, Option.some.injEq] at resumed
      subst resumed
      rw [Counted, hstatus] at own
      have kept : (system.awaitIsr task).AllCounted := counted
      exact kept.setFrame task ⟨rfl, own.2⟩

theorem AllCounted.resumeContext {system next : IrqSystem} (counted : system.AllCounted)
    {fuel : Nat} {context : IrqContext}
    (resumed : system.resumeContext fuel context = some next) : next.AllCounted := by
  rcases Option.map_eq_some_iff.mp resumed with ⟨⟨world, scheduler⟩, drained, rfl⟩
  have kept : world.AllCounted := by
    refine resume_preserves ?_ counted drained
    intro before handle popped after scheduler counted resumed
    rcases Option.map_eq_some_iff.mp resumed with ⟨middle, taskResumed, same⟩
    cases same
    have counted' : (before.setContext context popped).AllCounted := counted
    exact counted'.resumeTask taskResumed
  exact kept

theorem AllCounted.step {xlen fuel : Nat} {system next : IrqSystem} (counted : system.AllCounted)
    {act : IrqAct xlen} (stepped : system.step fuel act = some next) : next.AllCounted := by
  cases act with
  | main =>
      have looped : system.busyLoop = some next := stepped
      unfold busyLoop at looped
      cases hpc : system.pc with
      | front =>
          simp only [hpc] at looped
          rcases Option.map_eq_some_iff.mp looped with ⟨handle, _, rfl⟩
          exact counted
      | resumeHandle handle =>
          simp only [hpc] at looped
          have kept : { system with pc := .testEmpty }.AllCounted := counted
          exact kept.resumeTask looped
      | _ =>
          simp only [hpc, Option.some.injEq] at looped
          cases looped
          exact counted
  | trap mcause =>
      simp only [IrqSystem.step] at stepped
      split at stepped
      · rcases Option.bind_eq_some_iff.mp stepped with ⟨first, firstResumed, handled⟩
        have counted' := counted.resumeContext firstResumed
        split at handled
        · exact counted'.resumeContext handled
        · have masked : { first with mieMti := false }.AllCounted := counted'
          exact masked.resumeContext handled
        · cases handled
          exact counted'
      · contradiction

/-! ## Every run -/

section Runs

variable {xlen fuel : Nat} {buffers : IrqContext → Fin 1 → StaticListNode IrqTask 1}
  {mainBuffer : Fin 3 → StaticListNode IrqTask 3} {acts : List (IrqAct xlen)} {system : IrqSystem}

theorem run_valid (enough : 1 < fuel)
    (ran : Transition.run (step fuel) (started buffers mainBuffer) acts = some system) :
    (∃ waiting, system.Valid waiting) ∧ system.AllCounted := by
  have initially : (∃ waiting, (started buffers mainBuffer).Valid waiting) ∧
      (started buffers mainBuffer).AllCounted := by
    refine ⟨⟨[], started_valid buffers mainBuffer⟩, ?_⟩
    intro task
    cases task <;> exact ⟨rfl, rfl⟩
  have kept : ∀ ⦃before : IrqSystem⦄ ⦃act : IrqAct xlen⦄ ⦃after⦄,
      (∃ waiting, before.Valid waiting) ∧ before.AllCounted →
      step fuel before act = some after → (∃ waiting, after.Valid waiting) ∧ after.AllCounted := by
    rintro before act after ⟨⟨waiting, valid⟩, counted⟩ stepped
    refine ⟨?_, counted.step stepped⟩
    cases act with
    | main => exact ⟨_, (valid.busyLoop_next stepped).1⟩
    | trap mcause => exact ⟨_, (valid.trap enough stepped).2.1⟩
  exact Transition.run_invariant kept initially ran

/-- In every interleaving of traps and scheduler operations, which are steps of
their own, each task waits for a trap in its own scheduler with equal counters,
or is on the main thread exactly once, waiting or just popped, with one more
resumption by the handler than by the loop. -/
theorem handover_counts (enough : 1 < fuel)
    (ran : Transition.run (step fuel) (started buffers mainBuffer) acts = some system)
    (task : IrqTask) :
    ((system.contexts task.context).entries = [task] ∧ task ∉ system.mainThread.entries ∧
      system.pc ≠ .resumeHandle task ∧
      (system.frames task).isrResumeCount = (system.frames task).mainResumeCount) ∨
    ((system.contexts task.context).entries = [] ∧
      system.mainThread.entries.count task + (if system.pc = .resumeHandle task then 1 else 0) = 1 ∧
      (system.frames task).isrResumeCount = (system.frames task).mainResumeCount + 1) := by
  rcases run_valid enough ran with ⟨⟨waiting, valid⟩, counted⟩
  have own := counted task
  have context := (valid.contexts task).entries_eq
  have mainEq := valid.main.entries_eq
  have member := valid.member task
  rw [queued] at context
  rw [context, mainEq]
  unfold Counted at own
  cases hstatus : (system.frames task).status with
  | unstarted =>
      rw [hstatus] at own
      exact absurd own.2 id
  | waitingIsr =>
      left
      rw [hstatus] at own member
      refine ⟨if_pos rfl, ?_, ?_, own.2⟩
      · intro present
        cases (member.mp present).1
      · intro held
        have impossible := valid.status_of_mem_or_held (Or.inr held)
        rw [hstatus] at impossible
        cases impossible
  | waitingMain =>
      right
      rw [hstatus] at own
      refine ⟨if_neg (by decide), ?_, own.2.trans own.1⟩
      by_cases held : system.pc = .resumeHandle task
      · have absent : task ∉ waiting := by
          intro present
          apply (member.mp present).2
          rw [held]
          rfl
        rw [if_pos held, List.count_eq_zero_of_not_mem absent]
      · have present := (valid.mem_or_held hstatus).resolve_right held
        rw [if_neg held, List.count_eq_one_of_mem valid.nodup present]

theorem handover_counts_promptTimer :
    ∃ target, Transition.run (step 2) fresh promptTimer = some target ∧
      (target.frames .t4).isrResumeCount = (target.frames .t4).mainResumeCount := by
  have facts : (Transition.run (step 2) fresh promptTimer).map (fun target =>
      (target.contexts .mti).entries) = some [.t4] := by decide
  rcases Option.map_eq_some_iff.mp facts with ⟨target, ran, waits⟩
  refine ⟨target, ran, ?_⟩
  rcases handover_counts (by decide) ran .t4 with ⟨_, _, _, equal⟩ | ⟨nothing, _⟩
  · exact equal
  · cases waits.symm.trans nothing

/-- In every interleaving of traps and scheduler operations, which are steps of
their own, a task that is on the main thread is resumed there before the loop
has executed 18 statements, however many traps are taken meanwhile, and its
counters agree again. -/
theorem handover_bounded (enough : 1 < fuel)
    (ran : Transition.run (step fuel) (started buffers mainBuffer) acts = some system)
    {task : IrqTask} (waits : (system.frames task).status = .waitingMain)
    {later : List (IrqAct xlen)} {target : IrqSystem}
    (continued : Transition.run (step fuel) system later = some target)
    (long : 17 ≤ later.countP IrqAct.isMain) :
    ∃ front rest middle next, later = front ++ .main :: rest ∧
      Transition.run (step fuel) system front = some middle ∧
      middle.pc = .resumeHandle task ∧ step fuel middle (.main : IrqAct xlen) = some next ∧
      (next.frames task).mainResumeCount = (next.frames task).isrResumeCount := by
  rcases run_valid enough ran with ⟨⟨waiting, valid⟩, _⟩
  have close := system.pc.distance_le valid.nodup (valid.mem_or_held waits)
  have awaited : system.Awaited task (system.pc.distance waiting task) :=
    ⟨waiting, valid, waits, rfl⟩
  rcases awaited.resumed enough continued (Nat.lt_of_le_of_lt close long) with
    ⟨front, rest, middle, rfl, frontRan, there⟩
  rcases run_valid enough (Transition.run_append_of_run ran frontRan) with
    ⟨⟨waiting', valid'⟩, counted⟩
  rcases valid'.toIsr there with ⟨next, looped, _, _⟩
  have own := counted task
  have status := valid'.status_of_mem_or_held (Or.inr there)
  refine ⟨front, rest, middle, next, rfl, frontRan, there, looped, ?_⟩
  rw [Counted, status] at own
  simp only [busyLoop, there, resumeTask, status, Option.some.injEq] at looped
  subst looped
  simp only [setFrame, awaitIsr, setContext, Function.update_self]
  exact own.2.symm

theorem handover_bounded_timer :
    ∃ system front rest middle next,
      Transition.run (step 2) fresh [.trap timerCause] = some system ∧
      List.replicate 17 (.main : IrqAct 32) = front ++ .main :: rest ∧
      Transition.run (step 2) system front = some middle ∧ middle.pc = .resumeHandle .t4 ∧
      step 2 middle (.main : IrqAct 32) = some next ∧
      (next.frames .t4).mainResumeCount = (next.frames .t4).isrResumeCount := by
  have facts : (Transition.run (step 2) fresh [.trap timerCause]).map (fun system =>
      ((system.frames .t4).status,
        (Transition.run (step 2) system (List.replicate 17 (.main : IrqAct 32))).isSome)) =
      some (.waitingMain, true) := by decide
  rcases Option.map_eq_some_iff.mp facts with ⟨system, ran, observed⟩
  rcases Option.isSome_iff_exists.mp (congrArg Prod.snd observed) with ⟨target, continued⟩
  rcases handover_bounded (by decide) ran (congrArg Prod.fst observed) continued (by decide) with
    ⟨front, rest, middle, next, split, reached⟩
  exact ⟨system, front, rest, middle, next, ran, split, reached⟩

end Runs

end IrqSystem

end BaremetalCoro
