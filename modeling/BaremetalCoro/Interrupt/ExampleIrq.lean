import BaremetalCoro.Scheduler.Awaitable
import BaremetalCoro.Scheduler.Drain

/-!
# The example with an interrupt handler

`example_irq` runs three tasks that wait on a scheduler of their own until an
interrupt, and then on the scheduler of the main thread.  The handler resumes
the first task at every trap, and one of the others depending on `mcause`; the
main loop resumes what waits on the main thread, masks the interrupts and goes
to sleep.

An operation on a scheduler is one step of the main loop, and so is a write to
a register.  The handler runs as a whole, between any two steps while
`mstatus.mie` is set; whether the hardware would raise that interrupt there is
left open.
-/

namespace BaremetalCoro

open SchedulerUnordered

/-- The three tasks. -/
inductive IrqTask where
  | t3
  | t4
  | t5
  deriving DecidableEq

/-- The schedulers of the handler. -/
inductive IrqContext where
  | isr
  | mti
  | mei
  deriving DecidableEq

/-- The scheduler a task is called with. -/
def IrqTask.context : IrqTask → IrqContext
  | .t3 => .isr
  | .t4 => .mti
  | .t5 => .mei

/-- Where a task stands. -/
inductive IrqStatus where
  | unstarted
  | waitingIsr
  | waitingMain
  deriving DecidableEq

/-- The locals of a task that does not run, with the counters it reports to. -/
structure IrqFrame where
  i : UInt32
  isrResumeCount : UInt32
  mainResumeCount : UInt32
  status : IrqStatus

/-- The next statement of the busy loop; the first four are the loop inside
`main_thread.resume()`. -/
inductive LoopPc where
  | testEmpty
  | front
  | popFront (handle : IrqTask)
  | resumeHandle (handle : IrqTask)
  | setTimeCmp
  | clearMie
  | setMti
  | wfi
  | setMie
  deriving DecidableEq

/-- The schedulers, the tasks, the two interrupt enable bits and the busy
loop. -/
structure IrqSystem where
  contexts : IrqContext → SchedulerUnordered IrqTask 1
  mainThread : SchedulerUnordered IrqTask 3
  frames : IrqTask → IrqFrame
  mstatusMie : Bool
  mieMti : Bool
  pc : LoopPc

/-- What happens next: a step of the busy loop, or a trap. -/
inductive IrqAct (xlen : Nat) where
  | main
  | trap (mcause : BitVec xlen)

/-- The scheduler that the handler resumes for a known interrupt. -/
def dispatch {xlen : Nat} (mcause : BitVec xlen) : Option IrqContext :=
  if mcause &&& BitVec.twoPow xlen (xlen - 1) ≠ 0 then
    let thisCause := mcause &&& 0xFF
    if thisCause = 11 then some .mei
    else if thisCause = 7 then some .mti
    else none
  else none

namespace IrqSystem

/-- Replace a scheduler of the handler. -/
def setContext (system : IrqSystem) (context : IrqContext)
    (scheduler : SchedulerUnordered IrqTask 1) : IrqSystem :=
  { system with contexts := Function.update system.contexts context scheduler }

@[simp]
theorem setContext_self (system : IrqSystem) (context : IrqContext)
    (scheduler : SchedulerUnordered IrqTask 1) :
    (system.setContext context scheduler).contexts context = scheduler := by
  simp only [setContext, Function.update_self]

theorem setContext_of_ne {context other : IrqContext} (distinct : other ≠ context)
    (system : IrqSystem) (scheduler : SchedulerUnordered IrqTask 1) :
    (system.setContext context scheduler).contexts other = system.contexts other := by
  simp only [setContext, Function.update_of_ne distinct]

/-- Replace the frame of a task. -/
def setFrame (system : IrqSystem) (task : IrqTask) (frame : IrqFrame) : IrqSystem :=
  { system with frames := Function.update system.frames task frame }

/-- `co_await isr_scheduler`. -/
def awaitIsr (system : IrqSystem) (task : IrqTask) : IrqSystem :=
  system.setContext task.context
    ((AwaitableUnordered.mk).awaitSuspend (system.contexts task.context) task)

/-- `co_await main_scheduler`. -/
def awaitMain (system : IrqSystem) (task : IrqTask) : IrqSystem :=
  { system with mainThread := (AwaitableUnordered.mk).awaitSuspend system.mainThread task }

/-- The call of `resuming_on_isr_and_main` for a task, up to its first
suspension. -/
def startTask (system : IrqSystem) (task : IrqTask) : IrqSystem :=
  (system.awaitIsr task).setFrame task ⟨1, 0, 0, .waitingIsr⟩

/-- `handle.resume()`: continue behind the `co_await`, up to the next one.
Only a suspended co-routine may be resumed. -/
def resumeTask (system : IrqSystem) (task : IrqTask) : Option IrqSystem :=
  let frame := system.frames task
  match frame.status with
  | .waitingIsr =>
      some ((system.awaitMain task).setFrame task
        { frame with isrResumeCount := frame.i, status := .waitingMain })
  | .waitingMain =>
      some ((system.awaitIsr task).setFrame task
        { frame with i := frame.i + 1, mainResumeCount := frame.i, status := .waitingIsr })
  | .unstarted => none

/-- A task resumed by a scheduler of the handler, seen from the loop of that
scheduler. -/
def taskBody (context : IrqContext) : Body IrqSystem IrqTask 1 := fun system task scheduler =>
  ((system.setContext context scheduler).resumeTask task).map fun next =>
    (next, next.contexts context)

/-- A call of `resume` on a scheduler of the handler. -/
def resumeContext (fuel : Nat) (system : IrqSystem) (context : IrqContext) : Option IrqSystem :=
  (resume (taskBody context) fuel system (system.contexts context)).map fun returned =>
    returned.1.setContext context returned.2

/-- The interrupt handler. -/
def handler {xlen : Nat} (fuel : Nat) (system : IrqSystem) (mcause : BitVec xlen) :
    Option IrqSystem :=
  (system.resumeContext fuel .isr).bind fun system =>
    match dispatch mcause with
    | some .mei => system.resumeContext fuel .mei
    | some .mti => { system with mieMti := false }.resumeContext fuel .mti
    | _ => some system

/-- The next statement of the busy loop.  The time to the next timer interrupt
is not part of the state. -/
def busyLoop (system : IrqSystem) : Option IrqSystem :=
  match system.pc with
  | .testEmpty =>
      some { system with pc := if system.mainThread.empty then .setTimeCmp else .front }
  | .front =>
      (system.mainThread.waiting_.deref system.mainThread.waiting_.begin).map fun handle =>
        { system with pc := .popFront handle }
  | .popFront handle =>
      some { system with
        mainThread := ⟨system.mainThread.waiting_.popFront⟩, pc := .resumeHandle handle }
  | .resumeHandle handle => { system with pc := .testEmpty }.resumeTask handle
  | .setTimeCmp => some { system with pc := .clearMie }
  | .clearMie => some { system with mstatusMie := false, pc := .setMti }
  | .setMti => some { system with mieMti := true, pc := .wfi }
  | .wfi => some { system with pc := .setMie }
  | .setMie => some { system with mstatusMie := true, pc := .testEmpty }

/-- One step: of the busy loop, or a trap, which is taken only while
`mstatus.mie` is set. -/
def step {xlen : Nat} (fuel : Nat) : Transition.Step IrqSystem (IrqAct xlen) :=
  fun system act =>
    match act with
    | .main => system.busyLoop
    | .trap mcause => if system.mstatusMie then system.handler fuel mcause else none

-- The sizes as the template arguments of the example have them.
theorem context_size : NeZero 1 := ⟨Nat.one_ne_zero⟩

theorem main_size : NeZero 3 := ⟨Nat.succ_ne_zero 2⟩

/-- New schedulers in storage that held the buffers, with interrupts disabled
and no task called. -/
def init (buffers : IrqContext → Fin 1 → StaticListNode IrqTask 1)
    (mainBuffer : Fin 3 → StaticListNode IrqTask 3) : IrqSystem :=
  { contexts := fun context => @SchedulerUnordered.init _ 1 context_size (buffers context),
    mainThread := @SchedulerUnordered.init _ 3 main_size mainBuffer,
    frames := fun _ => ⟨0, 0, 0, .unstarted⟩,
    mstatusMie := false, mieMti := false, pc := .testEmpty }

/-- The tasks are called, interrupts are enabled, and the busy loop begins. -/
def started (buffers : IrqContext → Fin 1 → StaticListNode IrqTask 1)
    (mainBuffer : Fin 3 → StaticListNode IrqTask 3) : IrqSystem :=
  { ([.t3, .t4, .t5].foldl startTask (init buffers mainBuffer)) with
    mieMti := true, mstatusMie := true }

end IrqSystem

end BaremetalCoro
