import BaremetalCoro.Interrupt.ExampleIrq

/-!
# Work that is left behind when the hart goes to sleep

The main loop sleeps with a clear conscience when nothing waits on the main
thread.  It looks only once, when `main_thread.resume()` returns, and masks the
interrupts two statements later.  A trap in between that wakes a task puts work
on the main thread that nobody looks at before the hart sleeps; all other traps
are harmless.

The tasks are never lost: each one waits in its own scheduler or on the main
thread, or the loop has just popped it.
-/

namespace BaremetalCoro

open SchedulerUnordered

theorem IrqTask.context_ne {first second : IrqTask} (different : first ≠ second) :
    first.context ≠ second.context := by
  intro same
  cases first <;> cases second <;> first | exact different rfl | cases same

/-- A task that is not in a list without repetitions leaves room for itself. -/
theorem IrqTask.room {waiting : List IrqTask} (nodup : waiting.Nodup) {task : IrqTask}
    (absent : task ∉ waiting) : waiting.length < 3 := by
  have all : task :: waiting ⊆ [.t3, .t4, .t5] := by
    intro other _
    cases other <;> decide
  exact (List.subperm_of_subset (List.nodup_cons.mpr ⟨absent, nodup⟩) all).length_le

namespace LoopPc

/-- The task that the loop has popped and not yet resumed. -/
def held : LoopPc → Option IrqTask
  | .resumeHandle handle => some handle
  | _ => none

/-- What the loop knows about the handles that wait on the main thread. -/
def Knows (waiting : List IrqTask) : LoopPc → Prop
  | .front => waiting ≠ []
  | .popFront handle => waiting.head? = some handle
  | _ => True

/-- Interrupts are enabled. -/
def unmasked : LoopPc → Bool
  | .setMti | .wfi | .setMie => false
  | _ => true

/-- `main_thread.resume()` has returned and the hart has not yet slept. -/
def goesToSleep : LoopPc → Bool
  | .setTimeCmp | .clearMie | .setMti | .wfi => true
  | _ => false

/-- More handles on the main thread do not contradict what the loop knows. -/
theorem Knows.append {waiting : List IrqTask} {pc : LoopPc} (knows : pc.Knows waiting)
    (task : IrqTask) : pc.Knows (waiting ++ [task]) := by
  cases pc with
  | front => exact List.append_ne_nil_of_left_ne_nil knows [task]
  | popFront handle =>
      rcases List.head?_eq_some_iff.mp knows with ⟨rest, rfl⟩
      rfl
  | _ => trivial

end LoopPc

namespace IrqSystem

/-! ## Where the tasks are -/

/-- What waits in the scheduler of a task. -/
def queued (system : IrqSystem) (task : IrqTask) : List IrqTask :=
  if (system.frames task).status = .waitingIsr then [task] else []

/-- Every task is in one place, and `waiting` are those on the main thread. -/
structure Valid (system : IrqSystem) (waiting : List IrqTask) : Prop where
  contexts : ∀ task, (system.contexts task.context).Holds (system.queued task)
  main : system.mainThread.Holds waiting
  nodup : waiting.Nodup
  member : ∀ task, task ∈ waiting ↔
    (system.frames task).status = .waitingMain ∧ system.pc.held ≠ some task
  holding : ∀ task, system.pc.held = some task → (system.frames task).status = .waitingMain
  knows : system.pc.Knows waiting
  masked : system.mstatusMie = system.pc.unmasked

theorem Valid.context_empty_iff {system : IrqSystem} {waiting : List IrqTask}
    (valid : system.Valid waiting) (task : IrqTask) :
    (system.contexts task.context).empty = true ↔ system.queued task = [] :=
  (valid.contexts task).empty_iff

/-- A task that waited for an interrupt is moved to the main thread. -/
theorem Valid.toMain {system next : IrqSystem} {waiting : List IrqTask}
    (valid : system.Valid waiting) {task : IrqTask}
    (waits : (system.frames task).status = .waitingIsr)
    (drained : (next.contexts task.context).Holds [])
    (contexts : ∀ context, context ≠ task.context →
      next.contexts context = system.contexts context)
    (main : next.mainThread = system.mainThread.insert task)
    (moved : (next.frames task).status = .waitingMain)
    (frames : ∀ other, other ≠ task → next.frames other = system.frames other)
    (pc : next.pc = system.pc) (mie : next.mstatusMie = system.mstatusMie) :
    next.Valid (waiting ++ [task]) := by
  have absent : task ∉ waiting := by
    intro member
    have impossible := (valid.member task).mp member
    rw [waits] at impossible
    cases impossible.1
  have notHeld : system.pc.held ≠ some task := by
    intro held
    have impossible := valid.holding task held
    rw [waits] at impossible
    cases impossible
  constructor
  · intro other
    by_cases same : other = task
    · subst same
      rw [queued, if_neg (by rw [moved]; decide)]
      exact drained
    · rw [queued, frames other same, contexts other.context (IrqTask.context_ne same)]
      exact valid.contexts other
  · have inserted := valid.main.insert task
    rw [appended, if_pos (IrqTask.room valid.nodup absent)] at inserted
    rw [main]
    exact inserted
  · exact List.nodup_append'.mpr ⟨valid.nodup, List.nodup_singleton task,
      List.disjoint_singleton.mpr absent⟩
  · intro other
    rw [pc, List.mem_append, List.mem_singleton]
    by_cases same : other = task
    · subst same
      exact iff_of_true (Or.inr rfl) ⟨moved, notHeld⟩
    · rw [frames other same, valid.member other]
      exact or_iff_left same
  · intro other held
    rw [pc] at held
    by_cases same : other = task
    · subst same
      exact moved
    · rw [frames other same]
      exact valid.holding other held
  · rw [pc]
    exact valid.knows.append task
  · rw [pc, mie]
    exact valid.masked

/-- A task that the loop has popped is resumed and waits for an interrupt
again. -/
theorem Valid.toIsr {system : IrqSystem} {waiting : List IrqTask} (valid : system.Valid waiting)
    {task : IrqTask} (popped : system.pc = .resumeHandle task) :
    ∃ next, system.busyLoop = some next ∧ next.Valid waiting ∧ next.pc = .testEmpty := by
  have held : system.pc.held = some task := by
    rw [popped]
    rfl
  have waits : (system.frames task).status = .waitingMain := valid.holding task held
  have drained : (system.contexts task.context).Holds [] := by
    have contexts := valid.contexts task
    rwa [queued, if_neg (by rw [waits]; decide)] at contexts
  have stepEq : system.busyLoop = some (({ system with pc := .testEmpty }.awaitIsr task).setFrame
      task { system.frames task with
        i := (system.frames task).i + 1, mainResumeCount := (system.frames task).i,
        status := .waitingIsr }) := by
    rw [busyLoop, popped]
    simp only [resumeTask, waits]
  refine ⟨_, stepEq, ?_, rfl⟩
  constructor
  · intro other
    by_cases same : other = task
    · subst same
      have inserted := drained.insert other
      simpa [queued, setFrame, awaitIsr, AwaitableUnordered.awaitSuspend, appended] using inserted
    · have elsewhere := IrqTask.context_ne same
      have contexts := valid.contexts other
      simpa [queued, setFrame, awaitIsr, setContext, Function.update_of_ne same,
        Function.update_of_ne elsewhere] using contexts
  · exact valid.main
  · exact valid.nodup
  · intro other
    have member := valid.member other
    rw [held] at member
    by_cases same : other = task
    · subst same
      simpa [setFrame, awaitIsr, setContext, LoopPc.held] using member
    · simpa [setFrame, awaitIsr, setContext, LoopPc.held, Function.update_of_ne same,
        Ne.symm same] using member
  · intro other impossible
    cases impossible
  · trivial
  · have masked := valid.masked
    rwa [popped] at masked

/-- When the busy loop begins, every task waits for an interrupt. -/
theorem started_valid (buffers : IrqContext → Fin 1 → StaticListNode IrqTask 1)
    (mainBuffer : Fin 3 → StaticListNode IrqTask 3) : (started buffers mainBuffer).Valid [] := by
  have frames : ∀ task, (started buffers mainBuffer).frames task = ⟨1, 0, 0, .waitingIsr⟩ := by
    intro task
    cases task <;> rfl
  have contexts : ∀ task : IrqTask, (started buffers mainBuffer).contexts task.context =
      (SchedulerUnordered.init (buffers task.context)).insert task := by
    intro task
    cases task <;> rfl
  constructor
  · intro task
    rw [queued, frames task, contexts task]
    exact (init_holds (buffers task.context)).insert task
  · exact init_holds mainBuffer
  · exact List.nodup_nil
  · intro task
    simp [frames task]
  · intro task impossible
    cases impossible
  · trivial
  · rfl

/-! ## The handler -/

/-- A call of `resume` in the handler returns, and what waited in the scheduler
now waits on the main thread. -/
theorem Valid.resumeContext {system : IrqSystem} {waiting : List IrqTask}
    (valid : system.Valid waiting) {fuel : Nat} (enough : 1 < fuel) (task : IrqTask) :
    ∃ next, system.resumeContext fuel task.context = some next ∧
      next.Valid (waiting ++ system.queued task) ∧ next.pc = system.pc ∧
      ∀ other, other ≠ task → next.frames other = system.frames other := by
  have holds := valid.contexts task
  rcases Nat.exists_eq_add_of_le' enough with ⟨more, rfl⟩
  by_cases waits : (system.frames task).status = .waitingIsr
  · rw [queued, if_pos waits] at holds ⊢
    rcases holds.resumeTurn_cons with ⟨popped, turnEq, drained⟩
    have bodyEq : taskBody task.context system task popped = some
        (((system.setContext task.context popped).awaitMain task).setFrame task
          { system.frames task with
            isrResumeCount := (system.frames task).i, status := .waitingMain }, popped) := by
      have frameEq : (system.setContext task.context popped).frames task = system.frames task := rfl
      simp only [taskBody, resumeTask, frameEq, waits, Option.map_some]
      congr 2
      exact system.setContext_self task.context popped
    have returns : system.resumeContext (more + 2) task.context = some
        ((((system.setContext task.context popped).awaitMain task).setFrame task
          { system.frames task with
            isrResumeCount := (system.frames task).i, status := .waitingMain }).setContext
          task.context popped) := by
      rw [IrqSystem.resumeContext, resume, turnEq]
      simp only [bodyEq, Option.bind_some]
      rw [drained.resume_nil _ (Nat.zero_lt_succ more)]
      rfl
    refine ⟨_, returns, ?_, rfl, ?_⟩
    · apply valid.toMain waits
      · rw [setContext_self]
        exact drained
      · intro context elsewhere
        rw [setContext_of_ne elsewhere]
        exact system.setContext_of_ne elsewhere popped
      · rfl
      · exact congrArg IrqFrame.status (Function.update_self task _ system.frames)
      · intro other different
        exact Function.update_of_ne different _ system.frames
      · rfl
      · rfl
    · intro other different
      exact Function.update_of_ne different _ system.frames
  · rw [queued, if_neg waits] at holds ⊢
    have returns : system.resumeContext (more + 2) task.context = some system := by
      rw [IrqSystem.resumeContext, holds.resume_nil _ (Nat.zero_lt_succ (more + 1))]
      simp only [Option.map_some, setContext, Function.update_eq_self]
    rw [List.append_nil]
    exact ⟨system, returns, valid, rfl, fun _ _ => rfl⟩

/-- The tasks that a trap moves to the main thread. -/
def moved {xlen : Nat} (system : IrqSystem) (mcause : BitVec xlen) : List IrqTask :=
  system.queued .t3 ++
    match dispatch mcause with
    | some .mei => system.queued .t5
    | some .mti => system.queued .t4
    | _ => []

theorem Valid.handler {xlen : Nat} {system : IrqSystem} {waiting : List IrqTask}
    (valid : system.Valid waiting) {fuel : Nat} (enough : 1 < fuel) (mcause : BitVec xlen) :
    ∃ next, system.handler fuel mcause = some next ∧
      next.Valid (waiting ++ system.moved mcause) ∧ next.pc = system.pc := by
  rcases valid.resumeContext enough .t3 with ⟨first, firstEq, firstValid, firstPc, frames⟩
  have isrEq : system.resumeContext fuel .isr = some first := firstEq
  have others : ∀ task, task ≠ .t3 → first.queued task = system.queued task := by
    intro task different
    rw [queued, queued, frames task different]
  rw [IrqSystem.handler, isrEq, Option.bind_some, moved, ← List.append_assoc]
  match dispatch mcause with
  | some .mei =>
      rcases firstValid.resumeContext enough .t5 with ⟨next, nextEq, nextValid, nextPc, -⟩
      rw [others .t5 (by decide)] at nextValid
      exact ⟨next, nextEq, nextValid, nextPc.trans firstPc⟩
  | some .mti =>
      have masked : { first with mieMti := false }.Valid (waiting ++ system.queued .t3) :=
        ⟨firstValid.contexts, firstValid.main, firstValid.nodup, firstValid.member,
          firstValid.holding, firstValid.knows, firstValid.masked⟩
      rcases masked.resumeContext enough .t4 with ⟨next, nextEq, nextValid, nextPc, -⟩
      have queuedEq : { first with mieMti := false }.queued .t4 = system.queued .t4 :=
        others .t4 (by decide)
      rw [queuedEq] at nextValid
      exact ⟨next, nextEq, nextValid, nextPc.trans firstPc⟩
  | some .isr =>
      rw [List.append_nil]
      exact ⟨first, rfl, firstValid, firstPc⟩
  | none =>
      rw [List.append_nil]
      exact ⟨first, rfl, firstValid, firstPc⟩

/-- The schedulers that the handler resumes for this cause are empty. -/
def FindsNothing {xlen : Nat} (system : IrqSystem) (mcause : BitVec xlen) : Prop :=
  (system.contexts .isr).empty = true ∧
    (dispatch mcause).all (fun context => (system.contexts context).empty) = true

instance {xlen : Nat} (system : IrqSystem) (mcause : BitVec xlen) :
    Decidable (system.FindsNothing mcause) :=
  inferInstanceAs (Decidable (_ ∧ _))

theorem Valid.findsNothing_iff {xlen : Nat} {system : IrqSystem} {waiting : List IrqTask}
    (valid : system.Valid waiting) (mcause : BitVec xlen) :
    system.FindsNothing mcause ↔ system.moved mcause = [] := by
  have isr := valid.context_empty_iff .t3
  have mti := valid.context_empty_iff .t4
  have mei := valid.context_empty_iff .t5
  simp only [IrqTask.context] at isr mti mei
  rw [FindsNothing, moved, List.append_eq_nil_iff, isr]
  match dispatch mcause with
  | some .mei => simp [mei]
  | some .mti => simp [mti]
  | some .isr => simp [isr]
  | none => simp

/-! ## The busy loop -/

/-- A statement that moves no task. -/
theorem Valid.goTo {system next : IrqSystem} {waiting : List IrqTask} (valid : system.Valid waiting)
    (contexts : next.contexts = system.contexts) (main : next.mainThread = system.mainThread)
    (frames : next.frames = system.frames) (held : system.pc.held = none)
    (held' : next.pc.held = none) (knows : next.pc.Knows waiting)
    (masked : next.mstatusMie = next.pc.unmasked) : next.Valid waiting := by
  constructor
  · intro task
    rw [queued, contexts, frames]
    exact valid.contexts task
  · rw [main]
    exact valid.main
  · exact valid.nodup
  · intro task
    rw [held', frames, ← held]
    exact valid.member task
  · intro task impossible
    rw [held'] at impossible
    cases impossible
  · exact knows
  · exact masked

/-- The first waiting handle is popped. -/
theorem Valid.pop {system : IrqSystem} {task : IrqTask} {rest : List IrqTask}
    (valid : system.Valid (task :: rest)) (pc : system.pc = .popFront task) :
    { system with
      mainThread := ⟨system.mainThread.waiting_.popFront⟩
      pc := .resumeHandle task }.Valid rest := by
  have fresh : task ∉ rest := (List.nodup_cons.mp valid.nodup).1
  have waits : (system.frames task).status = .waitingMain :=
    ((valid.member task).mp List.mem_cons_self).1
  constructor
  · exact valid.contexts
  · exact valid.main.popFront
  · exact (List.nodup_cons.mp valid.nodup).2
  · intro other
    have member := valid.member other
    rw [pc] at member
    by_cases same : other = task
    · subst same
      exact iff_of_false fresh (fun both => both.2 rfl)
    · simpa [LoopPc.held, same, Ne.symm same] using member
  · rintro other held
    cases held
    exact waits
  · trivial
  · have masked := valid.masked
    rwa [pc] at masked

/-- The loop turns to sleep only when it has found the main thread empty. -/
theorem Valid.busyLoop_awake {system : IrqSystem} {waiting : List IrqTask}
    (valid : system.Valid waiting) (awake : system.pc.goesToSleep = false) :
    ∃ next waiting', system.busyLoop = some next ∧ next.Valid waiting' ∧
      (next.pc.goesToSleep = true → waiting' = []) := by
  have masked := valid.masked
  have knows := valid.knows
  cases hpc : system.pc with
  | testEmpty =>
      rw [hpc] at masked
      have held : system.pc.held = none := by
        rw [hpc]
        rfl
      by_cases empty : system.mainThread.empty = true
      · have nothing : waiting = [] := valid.main.empty_iff.mp empty
        refine ⟨{ system with pc := .setTimeCmp }, waiting, ?_, ?_, fun _ => nothing⟩
        · rw [busyLoop, hpc]
          simp only [empty, if_true]
        · exact valid.goTo rfl rfl rfl held rfl trivial masked
      · have something : waiting ≠ [] := fun nothing => empty (valid.main.empty_iff.mpr nothing)
        refine ⟨{ system with pc := .front }, waiting, ?_, ?_, by simp [LoopPc.goesToSleep]⟩
        · rw [busyLoop, hpc]
          simp only [empty]
          rfl
        · exact valid.goTo rfl rfl rfl held rfl something masked
  | front =>
      rw [hpc] at masked knows
      have held : system.pc.held = none := by
        rw [hpc]
        rfl
      rcases List.exists_cons_of_ne_nil knows with ⟨task, rest, rfl⟩
      refine ⟨{ system with pc := .popFront task }, task :: rest, ?_, ?_,
        by simp [LoopPc.goesToSleep]⟩
      · rw [busyLoop, hpc]
        simp only [valid.main.front, Option.map_some]
      · exact valid.goTo rfl rfl rfl held rfl rfl masked
  | popFront task =>
      rw [hpc] at knows
      rcases List.head?_eq_some_iff.mp knows with ⟨rest, rfl⟩
      refine ⟨{ system with
        mainThread := ⟨system.mainThread.waiting_.popFront⟩, pc := .resumeHandle task }, rest, ?_,
        valid.pop hpc, by simp [LoopPc.goesToSleep]⟩
      rw [busyLoop, hpc]
  | resumeHandle task =>
      rcases valid.toIsr hpc with ⟨next, stepEq, valid', pc'⟩
      exact ⟨next, waiting, stepEq, valid', by simp [pc', LoopPc.goesToSleep]⟩
  | setMie =>
      refine ⟨{ system with mstatusMie := true, pc := .testEmpty }, waiting, ?_, ?_,
        by simp [LoopPc.goesToSleep]⟩
      · rw [busyLoop, hpc]
      · exact valid.goTo rfl rfl rfl (by rw [hpc]; rfl) rfl trivial rfl
  | _ =>
      rw [hpc] at awake
      cases awake

/-- On its way to sleep the loop leaves the tasks alone. -/
theorem Valid.busyLoop_goesToSleep {system : IrqSystem} {waiting : List IrqTask}
    (valid : system.Valid waiting) (sleepy : system.pc.goesToSleep = true) :
    ∃ next, system.busyLoop = some next ∧ next.Valid waiting ∧
      (next.pc.goesToSleep = true ↔ system.pc ≠ .wfi) := by
  have masked := valid.masked
  cases hpc : system.pc with
  | setTimeCmp =>
      rw [hpc] at masked
      refine ⟨{ system with pc := .clearMie }, ?_, ?_, by simp [LoopPc.goesToSleep]⟩
      · rw [busyLoop, hpc]
      · exact valid.goTo rfl rfl rfl (by rw [hpc]; rfl) rfl trivial masked
  | clearMie =>
      refine ⟨{ system with mstatusMie := false, pc := .setMti }, ?_, ?_,
        by simp [LoopPc.goesToSleep]⟩
      · rw [busyLoop, hpc]
      · exact valid.goTo rfl rfl rfl (by rw [hpc]; rfl) rfl trivial rfl
  | setMti =>
      rw [hpc] at masked
      refine ⟨{ system with mieMti := true, pc := .wfi }, ?_, ?_, by simp [LoopPc.goesToSleep]⟩
      · rw [busyLoop, hpc]
      · exact valid.goTo rfl rfl rfl (by rw [hpc]; rfl) rfl trivial masked
  | wfi =>
      rw [hpc] at masked
      refine ⟨{ system with pc := .setMie }, ?_, ?_, by simp [LoopPc.goesToSleep]⟩
      · rw [busyLoop, hpc]
      · exact valid.goTo rfl rfl rfl (by rw [hpc]; rfl) rfl trivial masked
  | _ =>
      rw [hpc] at sleepy
      cases sleepy

/-! ## Runs -/

/-- Between the return of `main_thread.resume()` and the masking of interrupts,
a trap finds nothing to resume. -/
def Quiet {xlen : Nat} (system : IrqSystem) : IrqAct xlen → Prop
  | .main => True
  | .trap mcause =>
      system.pc = .setTimeCmp ∨ system.pc = .clearMie → system.FindsNothing mcause

instance {xlen : Nat} (system : IrqSystem) : (act : IrqAct xlen) → Decidable (system.Quiet act)
  | .main => isTrue trivial
  | .trap _ => inferInstanceAs (Decidable (_ → _))

/-- When the loop executes `wfi`, nothing waits on the main thread. -/
def SleepsIdle {xlen : Nat} (system : IrqSystem) (_ : IrqAct xlen) : Prop :=
  system.pc = .wfi → system.mainThread.empty = true

/-- On the way to sleep nothing waits on the main thread. -/
def Settled (system : IrqSystem) : Prop :=
  ∃ waiting, system.Valid waiting ∧ (system.pc.goesToSleep = true → waiting = [])

/-- On the way to sleep something waits on the main thread. -/
def Disturbed (system : IrqSystem) : Prop :=
  ∃ waiting, system.Valid waiting ∧ system.pc.goesToSleep = true ∧ waiting ≠ []

section Steps

variable {xlen fuel : Nat} {system next : IrqSystem}

/-- A trap is only taken where interrupts are enabled. -/
theorem Valid.trap {waiting : List IrqTask} (valid : system.Valid waiting) (enough : 1 < fuel)
    {mcause : BitVec xlen} (stepped : system.step fuel (.trap mcause) = some next) :
    system.pc.unmasked = true ∧ next.Valid (waiting ++ system.moved mcause) ∧
      next.pc = system.pc := by
  rcases valid.handler enough mcause with ⟨next', handled, valid', pc'⟩
  simp only [step] at stepped
  by_cases enabled : system.mstatusMie = true
  · rw [if_pos enabled, handled] at stepped
    cases stepped
    exact ⟨valid.masked ▸ enabled, valid', pc'⟩
  · rw [if_neg enabled] at stepped
    cases stepped

/-- The two statements at which a trap may disturb. -/
theorem unmasked_goesToSleep {pc : LoopPc} (unmasked : pc.unmasked = true)
    (sleepy : pc.goesToSleep = true) : pc = .setTimeCmp ∨ pc = .clearMie := by
  cases pc with
  | setTimeCmp => exact Or.inl rfl
  | clearMie => exact Or.inr rfl
  | setMti => cases unmasked
  | wfi => cases unmasked
  | _ => cases sleepy

theorem Settled.step (settled : system.Settled) (enough : 1 < fuel) {act : IrqAct xlen}
    (quiet : system.Quiet act) (stepped : system.step fuel act = some next) : next.Settled := by
  rcases settled with ⟨waiting, valid, idle⟩
  cases act with
  | main =>
      have looped : system.busyLoop = some next := stepped
      cases sleepy : system.pc.goesToSleep with
      | false =>
          rcases valid.busyLoop_awake sleepy with ⟨next', waiting', looped', valid', idle'⟩
          rw [looped] at looped'
          cases looped'
          exact ⟨waiting', valid', idle'⟩
      | true =>
          rcases valid.busyLoop_goesToSleep sleepy with ⟨next', looped', valid', -⟩
          rw [looped] at looped'
          cases looped'
          exact ⟨waiting, valid', fun _ => idle sleepy⟩
  | trap mcause =>
      rcases valid.trap enough stepped with ⟨unmasked, valid', pc'⟩
      refine ⟨_, valid', ?_⟩
      rw [pc']
      intro sleepy
      have nothing := quiet (unmasked_goesToSleep unmasked sleepy)
      rw [idle sleepy, (valid.findsNothing_iff mcause).mp nothing]
      rfl

/-- A trap that is not quiet disturbs. -/
theorem Settled.disturbed (settled : system.Settled) (enough : 1 < fuel) {act : IrqAct xlen}
    (loud : ¬ system.Quiet act) (stepped : system.step fuel act = some next) :
    next.Disturbed := by
  rcases settled with ⟨waiting, valid, -⟩
  cases act with
  | main => exact absurd trivial loud
  | trap mcause =>
      rcases valid.trap enough stepped with ⟨-, valid', pc'⟩
      rcases Classical.not_imp.mp loud with ⟨window, finds⟩
      refine ⟨_, valid', ?_, ?_⟩
      · rw [pc']
        rcases window with pc | pc <;> rw [pc] <;> rfl
      · intro nothing
        exact finds ((valid.findsNothing_iff mcause).mpr (List.append_eq_nil_iff.mp nothing).2)

/-- What disturbs is still there when the loop executes `wfi`. -/
theorem Disturbed.step (disturbed : system.Disturbed) (enough : 1 < fuel) {act : IrqAct xlen}
    (idle : system.SleepsIdle act) (stepped : system.step fuel act = some next) :
    next.Disturbed := by
  rcases disturbed with ⟨waiting, valid, sleepy, something⟩
  cases act with
  | main =>
      have looped : system.busyLoop = some next := stepped
      rcases valid.busyLoop_goesToSleep sleepy with ⟨next', looped', valid', sleepy'⟩
      rw [looped] at looped'
      cases looped'
      have awake : system.pc ≠ .wfi := by
        intro wfi
        exact something (valid.main.empty_iff.mp (idle wfi))
      exact ⟨waiting, valid', sleepy'.mpr awake, something⟩
  | trap mcause =>
      rcases valid.trap enough stepped with ⟨-, valid', pc'⟩
      refine ⟨_, valid', ?_, ?_⟩
      · rw [pc']
        exact sleepy
      · exact List.append_ne_nil_of_left_ne_nil something _

theorem Settled.sleepsIdle (settled : system.Settled) (wfi : system.pc = .wfi) :
    system.mainThread.empty = true := by
  rcases settled with ⟨waiting, valid, idle⟩
  have nothing : waiting = [] := idle (by rw [wfi]; rfl)
  exact valid.main.empty_iff.mpr nothing

theorem Disturbed.not_sleepsIdle (disturbed : system.Disturbed) :
    ¬ system.mainThread.empty = true := by
  rcases disturbed with ⟨waiting, valid, -, something⟩
  intro empty
  exact something (valid.main.empty_iff.mp empty)

/-- Every state that a quiet run reaches is settled. -/
theorem Settled.run {acts : List (IrqAct xlen)} (settled : system.Settled) (enough : 1 < fuel)
    (quiet : Transition.Along (IrqSystem.step fuel) Quiet system acts)
    (ran : Transition.run (IrqSystem.step fuel) system acts = some next) : next.Settled := by
  apply quiet.invariant _ settled ran
  intro before act after settled quiet stepped
  exact settled.step enough quiet stepped

theorem Disturbed.run {acts : List (IrqAct xlen)} (disturbed : system.Disturbed)
    (enough : 1 < fuel)
    (idle : Transition.Along (IrqSystem.step fuel) SleepsIdle system acts)
    (ran : Transition.run (IrqSystem.step fuel) system acts = some next) : next.Disturbed := by
  apply idle.invariant _ disturbed ran
  intro before act after disturbed idle stepped
  exact disturbed.step enough idle stepped

end Steps

/-- In every run up to a `wfi`: the loop always sleeps with an empty main thread
exactly when every trap between the return of `main_thread.resume()` and the
masking of interrupts finds nothing to resume. -/
theorem sleeps_idle_iff {xlen fuel : Nat} (enough : 1 < fuel)
    {buffers : IrqContext → Fin 1 → StaticListNode IrqTask 1}
    {mainBuffer : Fin 3 → StaticListNode IrqTask 3} {acts : List (IrqAct xlen)}
    {target : IrqSystem}
    (ran : Transition.run (step fuel) (started buffers mainBuffer) acts = some target)
    (wfi : target.pc = .wfi) :
    Transition.Along (step fuel) SleepsIdle (started buffers mainBuffer) acts ∧
        target.mainThread.empty = true ↔
      Transition.Along (step fuel) Quiet (started buffers mainBuffer) acts := by
  have initially : (started buffers mainBuffer).Settled :=
    ⟨[], started_valid buffers mainBuffer, fun _ => rfl⟩
  constructor
  · rintro ⟨idle, emptyAtEnd⟩
    refine Transition.along_of_invariant initially ?_
    intro front act rest middle split frontRan settled
    rw [split] at ran idle
    have remaining := idle.right frontRan
    rw [Transition.run_append, frontRan, Option.bind_some] at ran
    rcases (Transition.run_cons_eq_some_iff _ middle target act rest).mp ran with
      ⟨next, stepped, restRan⟩
    -- Work that this step left behind would still be there at the end.
    have quiet : middle.Quiet act := by
      by_contra loud
      have disturbed := settled.disturbed enough loud stepped
      have idleRest := ((Transition.along_cons_iff _ _ middle act rest).mp remaining).2 next stepped
      exact (disturbed.run enough idleRest restRan).not_sleepsIdle emptyAtEnd
    exact ⟨quiet, fun after stepped' => settled.step enough quiet stepped'⟩
  · intro quiet
    constructor
    · intro front act rest middle split frontRan
      rw [split] at quiet
      exact (initially.run enough quiet.left frontRan).sleepsIdle
    · exact (initially.run enough quiet ran).sleepsIdle wfi

/-- The busy loop begins in storage that held nothing. -/
def fresh : IrqSystem :=
  started (fun _ _ => ⟨none, none, none⟩) (fun _ => ⟨none, none, none⟩)

/-- `mcause` of a machine timer interrupt. -/
def timerCause : BitVec 32 := 0x80000007

/-- A timer interrupt at the head of the loop, then the loop up to `wfi`. -/
def promptTimer : List (IrqAct 32) :=
  .trap timerCause :: List.replicate 12 .main

/-- The two tasks that the interrupt woke have run before the hart sleeps. -/
theorem sleeps_idle_iff_promptTimer :
    ∃ target, Transition.run (step 2) fresh promptTimer = some target ∧ target.pc = .wfi ∧
      target.mainThread.empty = true := by
  have atWfi : (Transition.run (step 2) fresh promptTimer).map IrqSystem.pc = some .wfi := by
    decide
  rcases Option.map_eq_some_iff.mp atWfi with ⟨target, ran, wfi⟩
  have quiet : Transition.Along (step 2) Quiet fresh promptTimer := by decide
  exact ⟨target, ran, wfi, ((sleeps_idle_iff (by decide) ran wfi).mpr quiet).2⟩

/-- A timer interrupt right behind the test for an empty list. -/
def lateTimer : List (IrqAct 32) :=
  [.main, .trap timerCause, .main, .main, .main]

/-- The hart goes to sleep with two tasks waiting on the main thread. -/
theorem sleeps_with_work_lateTimer :
    ∃ target, Transition.run (step 2) fresh lateTimer = some target ∧ target.pc = .wfi ∧
      target.mainThread.entries = [.t3, .t4] ∧ target.mainThread.empty = false := by
  have atWfi : (Transition.run (step 2) fresh lateTimer).map (fun target =>
      (target.pc, target.mainThread.entries, target.mainThread.empty)) =
        some (.wfi, [.t3, .t4], false) := by decide
  rcases Option.map_eq_some_iff.mp atWfi with ⟨target, ran, same⟩
  simp only [Prod.mk.injEq] at same
  exact ⟨target, ran, same⟩

end IrqSystem

end BaremetalCoro
