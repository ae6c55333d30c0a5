import BaremetalCoro.Tasks.PollingLoop

/-!
# A task that starts another one

`nested_level1` waits, calls `nested_level2` and returns.  The task object of
the inner call is a local of the outer one and is destroyed when that returns.
It has no hold on the inner co-routine, which waits on the scheduler and runs to
its end later.

The bodies are cut at their three suspension points, and a handle is the number
of a co-routine with the point it waits at.  A flag of `cover_flags` is set by
each part, and the main program polls until the outer task is done and the
scheduler is empty.  A call that is refused a frame returns an object as well,
but no part of its body runs.
-/

namespace BaremetalCoro

open SchedulerOrdered

/-- The suspension points of the two co-routines. -/
inductive NestedPoint where
  | level1
  | level2First
  | level2Second
  deriving DecidableEq

/-- The delay that is waited for, in microseconds. -/
def NestedPoint.delay : NestedPoint → Int
  | .level1 => 24000
  | .level2First => 124000
  | .level2Second => 33000

/-- A suspended co-routine. -/
structure NestedHandle where
  coroutine : Nat
  point : NestedPoint

/-- How the test is built; the compiler chooses the sizes of the frames. -/
structure NestedBuild (w : Nat) where
  hostEmulation : Bool
  TASK_HEAP_SIZE : SizeT w
  level1Size : SizeT w
  level2Size : SizeT w

/-- The scheduler, the clock, `cover_flags`, the life of the co-routines, and
the two task objects: one of the main program, and one of `nested_level1`. -/
structure NestedSystem (w N : Nat) where
  scheduler : SchedulerOrdered ScheduleByDelay NestedHandle N
  now : Int
  coverFlags : BitVec 32
  life : Lifecycle w
  task1 : Option CalledTask
  task2 : Option CalledTask

namespace NestedSystem

variable {w N : Nat}

/-- The system when the clock reads `now`. -/
def setNow (system : NestedSystem w N) (now : Int) : NestedSystem w N :=
  { system with now := now }

/-- `collect_flags |= flags` -/
def collect (system : NestedSystem w N) (flags : BitVec 32) : NestedSystem w N :=
  { system with coverFlags := system.coverFlags ||| flags }

/-- The object `task2` is made or destroyed.  A destructor that is not for
logging does nothing. -/
def setTask2 (system : NestedSystem w N) (task2 : Option CalledTask) : NestedSystem w N :=
  { system with task2 := task2 }

/-- `co_await` at a suspension point; none of the delays is zero. -/
def await (clock : Clock) (system : NestedSystem w N) (handle : NestedHandle) :
    Option (NestedSystem w N) :=
  (AwaitableTimer.awaitSuspend ⟨handle.point.delay⟩ clock system.now system.scheduler
    handle).map fun scheduler => { system with scheduler := scheduler }

/-- A co-routine runs to its end. -/
def returnVoid (system : NestedSystem w N) (coroutine : Nat) : Option (NestedSystem w N) :=
  (system.life.finish coroutine NopTaskPromise.returnVoid).map
    fun life => { system with life := life }

section Execution

variable (build : NestedBuild w)

/-- A co-routine was called: its frame was requested. -/
def called (system : NestedSystem w N) (size : SizeT w) : NestedSystem w N :=
  { system with life := system.life.call build.hostEmulation build.TASK_HEAP_SIZE size }

/-- Call a co-routine, and run its body if it was given a frame. -/
def callTask (size : SizeT w) (body : Nat → NestedSystem w N → Option (NestedSystem w N))
    (system : NestedSystem w N) : Option (CalledTask × NestedSystem w N) := do
  let system := system.called build size
  let task ← system.life.tasks.getLast?
  match task.coroutine with
  | some coroutine => (body coroutine system).map fun system => (task, system)
  | none => return (task, system)

/-- The call of `nested_level1`, up to its suspension. -/
def nestedLevel1 (clock : Clock) :
    NestedSystem w N → Option (CalledTask × NestedSystem w N) :=
  callTask build build.level1Size fun coroutine system =>
    (system.collect 0x1).await clock ⟨coroutine, .level1⟩

/-- The call of `nested_level2`, up to its suspension. -/
def nestedLevel2 (clock : Clock) :
    NestedSystem w N → Option (CalledTask × NestedSystem w N) :=
  callTask build build.level2Size fun coroutine system =>
    (system.collect 0x10).await clock ⟨coroutine, .level2First⟩

/-- What follows a suspension point. -/
def continueAt (clock : Clock) (system : NestedSystem w N) (handle : NestedHandle) :
    Option (NestedSystem w N) :=
  match handle.point with
  | .level1 => do
      let system := system.collect 0x2
      let (task2, system) ← system.nestedLevel2 build clock
      let system := system.setTask2 (some task2)
      let system := system.collect 0x4
      -- the locals are destroyed after the promise was told
      let system ← system.returnVoid handle.coroutine
      return system.setTask2 none
  | .level2First => (system.collect 0x20).await clock ⟨handle.coroutine, .level2Second⟩
  | .level2Second => (system.collect 0x40).returnVoid handle.coroutine

/-- A co-routine was taken from the scheduler, and the clock reads `now`. -/
def popped (system : NestedSystem w N)
    (scheduler : SchedulerOrdered ScheduleByDelay NestedHandle N) (now : Int) :
    NestedSystem w N :=
  { system with scheduler := scheduler, now := now }

/-- One turn of the loop. -/
def turn (clock : Clock) : Transition.Step (NestedSystem w N) Lapse := fun system lapse => do
  let exit ← system.scheduler.resume (ScheduleByDelay.immediate system.now)
  let now := system.now + lapse.running
  let polled ←
    match exit with
    | .idle _ _ => some (system.setNow now)
    | .resumed handle _ scheduler _ => (system.popped scheduler now).continueAt build clock handle
  return polled.setNow (lapse.afterSleep polled.now exit.result.2 + lapse.looping)

/-- `task1.done()` -/
def done (system : NestedSystem w N) : Bool :=
  system.task1.any fun called => called.task.done system.life.store.flags

/-- The test of the loop. -/
def finished (system : NestedSystem w N) : Bool :=
  system.done && system.scheduler.empty

/-- The loop of the main program. -/
def mainLoop (clock : Clock) (lapses : Nat → Lapse) (fuel : Nat) (system : NestedSystem w N) :
    Option (NestedSystem w N) :=
  Transition.doUntil (turn build clock) finished lapses fuel 0 system

/-- The call of `nested_level1` by the main program; `life` is that of the
co-routines called earlier. -/
def started [NeZero N] (clock : Clock) (life : Lifecycle w)
    (buffer : Fin N → StaticListNode (ScheduleEntry ScheduleByDelay NestedHandle) N) (now : Int) :
    Option (NestedSystem w N) :=
  (nestedLevel1 build clock ⟨SchedulerOrdered.init buffer, now, 0, life, none, none⟩).map
    fun (task1, system) => { system with task1 := some task1 }

/-- The call of `nested_level1` is given a frame. -/
def level1Granted (life : Lifecycle w) : Bool :=
  (life.store.heap.operatorNew build.TASK_HEAP_SIZE build.level1Size).1.isSome

/-- So is the call of `nested_level2` that follows. -/
def level2Granted (life : Lifecycle w) : Bool :=
  let life := life.call build.hostEmulation build.TASK_HEAP_SIZE build.level1Size
  (life.store.heap.operatorNew build.TASK_HEAP_SIZE build.level2Size).1.isSome

end Execution

/-! ## The three waits -/

/-- The delay of a suspension point in ticks. -/
def ticks (clock : Clock) (point : NestedPoint) : Int :=
  Chrono.durationCast Chrono.Period.micro clock.period point.delay

/-- How long all waits up to a suspension point take. -/
def elapsedAt (clock : Clock) : NestedPoint → Int
  | .level1 => ticks clock .level1
  | .level2First => ticks clock .level1 + ticks clock .level2First
  | .level2Second =>
      ticks clock .level1 + ticks clock .level2First + ticks clock .level2Second

/-- The flags that are set while a co-routine waits at a suspension point. -/
def flagsAt : NestedPoint → BitVec 32
  | .level1 => 0x01
  | .level2First => 0x17
  | .level2Second => 0x37

/-- How many waits are left. -/
def waitsLeft : NestedPoint → Nat
  | .level1 => 3
  | .level2First => 2
  | .level2Second => 1

/-- The co-routine that waits at a suspension point, if `first` is the outer
one. -/
def coroutineAt (first : Nat) : NestedPoint → Nat
  | .level1 => first
  | .level2First | .level2Second => first + 1

/-- The co-routines that have ended by then. -/
def endedAt (first : Nat) : NestedPoint → List Nat
  | .level1 => []
  | .level2First | .level2Second => [first]

variable {build : NestedBuild w} {clock : Clock} {earlier : Lifecycle w} {start : Int}

/-- The object of the outer task, and how far the life of the co-routines has
come since the main program called it. -/
structure Lives (build : NestedBuild w) (earlier : Lifecycle w) (ended : List Nat)
    (life : Lifecycle w) (task1 : Option CalledTask) : Prop where
  valid : life.Valid build.hostEmulation
  ended : life.ended = earlier.ended ++ ended
  object : ∃ called, task1 = some called ∧ called ∈ life.tasks ∧
    called.coroutine = some earlier.frames.length

/-- One co-routine waits, until no earlier than the waits since the start
allow. -/
structure WaitsAt (build : NestedBuild w) (clock : Clock) (earlier : Lifecycle w) (start : Int)
    (point : NestedPoint) (expires : Int) (system : NestedSystem w N) : Prop where
  holds : system.scheduler.Holds
    [⟨⟨coroutineAt earlier.frames.length point, point⟩, ⟨expires⟩⟩]
  flags : system.coverFlags = flagsAt point
  late : start + elapsedAt clock point ≤ expires
  lives : Lives build earlier (endedAt earlier.frames.length point) system.life system.task1
  frames : system.life.frames.length = coroutineAt earlier.frames.length point + 1
  heap : point = .level1 → system.life.store.heap =
    (earlier.call build.hostEmulation build.TASK_HEAP_SIZE build.level1Size).store.heap
  granted : point ≠ .level1 → level2Granted build earlier = true
  task2 : system.task2 = none

/-- What is true in the end; the inner co-routine is missing if it was refused a
frame. -/
structure Returned (build : NestedBuild w) (clock : Clock) (earlier : Lifecycle w) (start : Int)
    (system : NestedSystem w N) : Prop where
  holds : system.scheduler.Holds []
  flags : system.coverFlags = if level2Granted build earlier then 0x77 else 0x07
  late : start + elapsedAt clock (if level2Granted build earlier then .level2Second else .level1) <
    system.now
  lives : Lives build earlier
    (if level2Granted build earlier then [earlier.frames.length, earlier.frames.length + 1]
      else [earlier.frames.length]) system.life system.task1
  task2 : system.task2 = none

/-- What holds at the head of the loop. -/
def Looping (build : NestedBuild w) (clock : Clock) (earlier : Lifecycle w) (start : Int)
    (system : NestedSystem w N) : Prop :=
  (∃ point expires, system.WaitsAt build clock earlier start point expires) ∨
    system.Returned build clock earlier start

theorem WaitsAt.setNow {system : NestedSystem w N} {point : NestedPoint} {expires : Int}
    (waits : system.WaitsAt build clock earlier start point expires) (now : Int) :
    (system.setNow now).WaitsAt build clock earlier start point expires :=
  ⟨waits.holds, waits.flags, waits.late, waits.lives, waits.frames, waits.heap,
    waits.granted, waits.task2⟩

theorem Returned.setNow {system : NestedSystem w N}
    (returned : system.Returned build clock earlier start) {now : Int}
    (notBefore : system.now ≤ now) : (system.setNow now).Returned build clock earlier start :=
  ⟨returned.holds, returned.flags, lt_of_lt_of_le returned.late notBefore, returned.lives,
    returned.task2⟩

/-! ## The parts of the bodies -/

theorem await_spec [NeZero N] (system : NestedSystem w N) (holds : system.scheduler.Holds [])
    (clock : Clock) (handle : NestedHandle) :
    ∃ scheduler, system.await clock handle = some { system with scheduler := scheduler } ∧
      scheduler.Holds [⟨handle, ⟨system.now + ticks clock handle.point⟩⟩] := by
  rcases holds.insert handle (makeCondition clock system.now handle.point.delay) with
    ⟨scheduler, insertEq, holds'⟩
  refine ⟨scheduler, ?_, ?_⟩
  · rw [await, AwaitableTimer.awaitSuspend, insertEq]
    rfl
  · have room : ([] : List (ScheduleEntry ScheduleByDelay NestedHandle)).length < N :=
      Nat.pos_of_neZero N
    rw [inserted, if_pos room] at holds'
    exact holds'

/-- A call returns an object; the body runs if the frame was granted. -/
theorem callTask_spec (build : NestedBuild w) (system : NestedSystem w N) (size : SizeT w)
    (body : Nat → NestedSystem w N → Option (NestedSystem w N)) :
    ∃ task, (system.called build size).life.tasks = system.life.tasks ++ [task] ∧
      (((system.life.store.heap.operatorNew build.TASK_HEAP_SIZE size).1.isSome = true ∧
        task.coroutine = some system.life.frames.length ∧
        (system.called build size).life.frames.length = system.life.frames.length + 1 ∧
        callTask build size body system =
          (body system.life.frames.length (system.called build size)).map
            fun system => (task, system)) ∨
      ((system.life.store.heap.operatorNew build.TASK_HEAP_SIZE size).1.isSome = false ∧
        task.coroutine = none ∧
        callTask build size body system = some (task, system.called build size))) := by
  rcases Lifecycle.call_tasks build.hostEmulation build.TASK_HEAP_SIZE system.life size with
    ⟨task, tasks, _, coroutine, frames⟩
  have last : (system.called build size).life.tasks.getLast? = some task := by
    rw [called, tasks, List.getLast?_append_of_ne_nil _ (List.cons_ne_nil _ _)]
    rfl
  refine ⟨task, tasks, ?_⟩
  cases grant : (system.life.store.heap.operatorNew build.TASK_HEAP_SIZE size).1 with
  | some frame =>
      left
      rw [grant] at coroutine frames
      have own : task.coroutine = some system.life.frames.length := coroutine
      refine ⟨rfl, own, ?_, ?_⟩
      · rw [called, frames, List.length_append]
        rfl
      · simp only [callTask, last, bind, Option.bind_some, own]
  | none =>
      right
      rw [grant] at coroutine
      have own : task.coroutine = none := coroutine
      refine ⟨rfl, own, ?_⟩
      simp only [callTask, last, bind, Option.bind_some, own]
      rfl

/-- The objects stay what they are when a co-routine is called. -/
theorem Lives.call {ended : List Nat} {life : Lifecycle w} {task1 : Option CalledTask}
    (lives : Lives build earlier ended life task1) (size : SizeT w) :
    Lives build earlier ended (life.call build.hostEmulation build.TASK_HEAP_SIZE size) task1 := by
  rcases lives.object with ⟨called, object, member, own⟩
  rcases Lifecycle.call_tasks build.hostEmulation build.TASK_HEAP_SIZE life size with
    ⟨task, tasks, sameEnded, _⟩
  refine ⟨(lives.valid.call build.TASK_HEAP_SIZE size).1, sameEnded.trans lives.ended, called,
    object, ?_, own⟩
  rw [tasks]
  exact List.mem_append_left _ member

/-- A co-routine that was started runs to its end. -/
theorem Lives.returnVoid {ended : List Nat} (system : NestedSystem w N)
    (lives : Lives build earlier ended system.life system.task1) {coroutine : Nat}
    (begun : coroutine < system.life.frames.length) (running : coroutine ∉ system.life.ended) :
    ∃ life, system.returnVoid coroutine = some { system with life := life } ∧
      life.frames = system.life.frames ∧
      Lives build earlier (ended ++ [coroutine]) life system.task1 := by
  rcases lives.object with ⟨called, object, member, own⟩
  rcases lives.valid.exists_finish begun running NopTaskPromise.returnVoid with
    ⟨life, finished, ended', tasks, frames⟩
  refine ⟨life, ?_, frames, ⟨(lives.valid.finish finished).1, ?_, called, object, ?_, own⟩⟩
  · rw [NestedSystem.returnVoid, finished, Option.map_some]
  · rw [← List.append_assoc, ← lives.ended]
    exact ended'
  · rw [tasks]
    exact member

/-- The co-routine that waits has not ended. -/
theorem WaitsAt.running {system : NestedSystem w N} {point : NestedPoint} {expires : Int}
    (waits : system.WaitsAt build clock earlier start point expires)
    (validEarlier : earlier.Valid build.hostEmulation) :
    coroutineAt earlier.frames.length point < system.life.frames.length ∧
      coroutineAt earlier.frames.length point ∉ system.life.ended := by
  constructor
  · rw [waits.frames]
    exact Nat.lt_succ_self _
  · intro member
    rw [waits.lives.ended] at member
    rcases List.mem_append.mp member with before | since
    · have bound := validEarlier.ended _ before
      cases point with
      | level1 => exact Nat.lt_irrefl _ bound
      | level2First => exact Nat.not_succ_lt_self bound
      | level2Second => exact Nat.not_succ_lt_self bound
    · cases point with
      | level1 => contradiction
      | level2First => exact Nat.succ_ne_self _ (List.mem_singleton.mp since)
      | level2Second => exact Nat.succ_ne_self _ (List.mem_singleton.mp since)

/-- Nor has the outer one when it has called another. -/
theorem WaitsAt.running_call {system : NestedSystem w N} {expires : Int}
    (waits : system.WaitsAt build clock earlier start .level1 expires)
    (validEarlier : earlier.Valid build.hostEmulation) (size : SizeT w) :
    earlier.frames.length <
        (system.life.call build.hostEmulation build.TASK_HEAP_SIZE size).frames.length ∧
      earlier.frames.length ∉
        (system.life.call build.hostEmulation build.TASK_HEAP_SIZE size).ended := by
  rcases waits.running validEarlier with ⟨begun, running⟩
  rcases Lifecycle.call_tasks build.hostEmulation build.TASK_HEAP_SIZE system.life size with
    ⟨_, _, ended, _, frames⟩
  rw [ended, frames, List.length_append]
  exact ⟨Nat.lt_add_right _ begun, running⟩

/-- Behind its suspension point the outer co-routine makes its call and
returns. -/
theorem continueAt_level1 {system inner returned : NestedSystem w N} {task2 : CalledTask}
    {coroutine : Nat} (callEq : (system.collect 0x2).nestedLevel2 build clock = some (task2, inner))
    (returnEq : ((inner.setTask2 (some task2)).collect 0x4).returnVoid coroutine =
      some returned) :
    system.continueAt build clock ⟨coroutine, .level1⟩ = some (returned.setTask2 none) := by
  simp only [continueAt, callEq, bind, Option.bind_some, returnEq]
  rfl

/-- The outer co-routine starts the inner one and returns, or it returns alone
when the inner one is refused a frame. -/
theorem WaitsAt.continueLevel1 [NeZero N] {system : NestedSystem w N} {expires : Int}
    (waits : system.WaitsAt build clock earlier start .level1 expires)
    (validEarlier : earlier.Valid build.hostEmulation)
    {scheduler : SchedulerOrdered ScheduleByDelay NestedHandle N} (holds : scheduler.Holds [])
    {now : Int} (due : expires < now) :
    ∃ next, (system.popped scheduler now).continueAt build clock
        ⟨earlier.frames.length, .level1⟩ = some next ∧ next.now = now ∧
      ((∃ expires', next.WaitsAt build clock earlier start .level2First expires') ∨
        next.Returned build clock earlier start) := by
  have late : start + ticks clock .level1 ≤ expires := waits.late
  have flags : system.coverFlags = 0x01 := waits.flags
  have lives := waits.lives.call build.level2Size
  rcases waits.running_call validEarlier build.level2Size with ⟨started, notEnded⟩
  have grant : (system.life.store.heap.operatorNew build.TASK_HEAP_SIZE build.level2Size).1.isSome =
      level2Granted build earlier := by
    rw [waits.heap rfl]
    rfl
  rcases callTask_spec build ((system.popped scheduler now).collect 0x2) build.level2Size
    (fun coroutine system => (system.collect 0x10).await clock ⟨coroutine, .level2First⟩) with
    ⟨task, tasks, ⟨granted, own, frames, callEq⟩ | ⟨refused, own, callEq⟩⟩
  · have both : level2Granted build earlier = true := grant.symm.trans granted
    rcases await_spec ((((system.popped scheduler now).collect 0x2).called build
      build.level2Size).collect 0x10) holds clock ⟨system.life.frames.length, .level2First⟩ with
      ⟨scheduler', awaited, holds'⟩
    have nested : ((system.popped scheduler now).collect 0x2).nestedLevel2 build clock =
        some (task, ⟨scheduler', now, (system.coverFlags ||| 0x2) ||| 0x10,
          system.life.call build.hostEmulation build.TASK_HEAP_SIZE build.level2Size,
          system.task1, system.task2⟩) :=
      callEq.trans (congrArg _ awaited)
    rcases Lives.returnVoid ⟨scheduler', now, ((system.coverFlags ||| 0x2) ||| 0x10) ||| 0x4,
      system.life.call build.hostEmulation build.TASK_HEAP_SIZE build.level2Size, system.task1,
      some task⟩ lives started notEnded with ⟨life, returnEq, sameFrames, lives'⟩
    refine ⟨_, continueAt_level1 nested returnEq, rfl,
      Or.inl ⟨now + ticks clock .level2First, ?_⟩⟩
    constructor
    · have inner : system.life.frames.length = earlier.frames.length + 1 := waits.frames
      rw [inner] at holds'
      exact holds'
    · change ((system.coverFlags ||| 0x2) ||| 0x10) ||| 0x4 = _
      rw [flags]
      rfl
    · change start + (ticks clock .level1 + ticks clock .level2First) ≤
        now + ticks clock .level2First
      omega
    · exact lives'
    · change life.frames.length = _
      rw [sameFrames]
      exact frames.trans (congrArg (· + 1) waits.frames)
    · intro impossible
      contradiction
    · intro _
      exact both
    · rfl
  · have alone : level2Granted build earlier = false := grant.symm.trans refused
    rcases Lives.returnVoid ⟨scheduler, now, (system.coverFlags ||| 0x2) ||| 0x4,
      system.life.call build.hostEmulation build.TASK_HEAP_SIZE build.level2Size, system.task1,
      some task⟩ lives started notEnded with ⟨life, returnEq, _, lives'⟩
    refine ⟨_, continueAt_level1 callEq returnEq, rfl, Or.inr ?_⟩
    constructor
    · exact holds
    · change (system.coverFlags ||| 0x2) ||| 0x4 = _
      rw [flags, alone]
      rfl
    · rw [alone]
      exact lt_of_le_of_lt late due
    · rw [alone]
      exact lives'
    · rfl

/-- A co-routine that is resumed after its time waits at its next suspension
point, or returns. -/
theorem WaitsAt.continueAt [NeZero N] {system : NestedSystem w N} {point : NestedPoint}
    {expires : Int} (waits : system.WaitsAt build clock earlier start point expires)
    (validEarlier : earlier.Valid build.hostEmulation)
    {scheduler : SchedulerOrdered ScheduleByDelay NestedHandle N} (holds : scheduler.Holds [])
    {now : Int} (due : expires < now) :
    ∃ next, (system.popped scheduler now).continueAt build clock
        ⟨coroutineAt earlier.frames.length point, point⟩ = some next ∧ next.now = now ∧
      ((∃ point' expires', next.WaitsAt build clock earlier start point' expires' ∧
          waitsLeft point' < waitsLeft point) ∨ next.Returned build clock earlier start) := by
  have late := waits.late
  have flags := waits.flags
  cases point with
  | level1 =>
      rcases waits.continueLevel1 validEarlier holds due with
        ⟨next, continued, nowEq, ⟨expires', waits'⟩ | returned⟩
      · exact ⟨next, continued, nowEq, Or.inl ⟨.level2First, expires', waits', by decide⟩⟩
      · exact ⟨next, continued, nowEq, Or.inr returned⟩
  | level2First =>
      rcases await_spec ((system.popped scheduler now).collect 0x20) holds clock
        ⟨earlier.frames.length + 1, .level2Second⟩ with ⟨scheduler', awaited, holds'⟩
      refine ⟨_, awaited, rfl,
        Or.inl ⟨.level2Second, now + ticks clock .level2Second, ?_, by decide⟩⟩
      constructor
      · exact holds'
      · change system.coverFlags ||| 0x20 = _
        rw [flags]
        rfl
      · change start + (ticks clock .level1 + ticks clock .level2First +
          ticks clock .level2Second) ≤ now + ticks clock .level2Second
        change start + (ticks clock .level1 + ticks clock .level2First) ≤ expires at late
        omega
      · exact waits.lives
      · exact waits.frames
      · intro impossible
        contradiction
      · intro _
        exact waits.granted NestedPoint.noConfusion
      · exact waits.task2
  | level2Second =>
      rcases waits.running validEarlier with ⟨begun, running⟩
      rcases Lives.returnVoid ((system.popped scheduler now).collect 0x40) waits.lives begun
        running with ⟨life, returnEq, _, lives⟩
      have both : level2Granted build earlier = true := waits.granted NestedPoint.noConfusion
      refine ⟨_, returnEq, rfl, Or.inr ?_⟩
      constructor
      · exact holds
      · change system.coverFlags ||| 0x40 = _
        rw [flags, both]
        rfl
      · rw [both]
        exact lt_of_le_of_lt late due
      · rw [both]
        exact lives
      · exact waits.task2

/-- A turn resumes the co-routine that waits when its time has passed, and else
only lets time pass. -/
theorem WaitsAt.turn [NeZero N] {system : NestedSystem w N} {point : NestedPoint} {expires : Int}
    (waits : system.WaitsAt build clock earlier start point expires)
    (validEarlier : earlier.Valid build.hostEmulation) (lapse : Lapse) :
    ∃ next, NestedSystem.turn build clock system lapse = some next ∧
      (next.Returned build clock earlier start ∨
        (∃ point' expires', next.WaitsAt build clock earlier start point' expires' ∧
          waitsLeft point' < waitsLeft point) ∨
        (next.WaitsAt build clock earlier start point expires ∧ system.now ≤ expires ∧
          system.now ≤ next.now ∧ (lapse.Moves → system.now < next.now))) := by
  rcases waits.holds.resume_cases (ScheduleByDelay.immediate system.now) with
    ⟨skipped, entry, rest, scheduler, before, _, ready, resumeEq, holds⟩ | ⟨notReady, resumeEq⟩
  · rcases List.append_eq_singleton_iff.mp before.symm with ⟨rfl, first⟩ | ⟨_, impossible⟩
    · rcases List.cons_eq_cons.mp first with ⟨rfl, rfl⟩
      have passed : expires < system.now := (ScheduleByDelay.readyToWake_iff _ _).mp ready
      have due : expires < system.now + lapse.running := by omega
      rcases waits.continueAt validEarlier holds due with ⟨polled, continued, nowEq, outcome⟩
      have turnEq : NestedSystem.turn build clock system lapse =
          some (polled.setNow (polled.now + lapse.looping)) := by
        simp only [NestedSystem.turn, resumeEq, bind, Option.bind_some, continued,
          List.map_nil, List.foldl_nil, ResumeExit.result]
        rfl
      refine ⟨_, turnEq, ?_⟩
      rcases outcome with ⟨point', expires', waits', fewer⟩ | returned
      · exact Or.inr (Or.inl ⟨point', expires', waits'.setNow _, fewer⟩)
      · exact Or.inl (returned.setNow (by omega))
    · contradiction
  · have idle : system.scheduler.resume (ScheduleByDelay.immediate system.now) =
        some (.idle true (some ⟨expires⟩)) := resumeEq
    have turnEq : NestedSystem.turn build clock system lapse = some (system.setNow
        (lapse.afterSleep (system.now + lapse.running) (some ⟨expires⟩) + lapse.looping)) := by
      simp only [NestedSystem.turn, idle, bind, Option.bind_some, ResumeExit.result]
      rfl
    refine ⟨_, turnEq, Or.inr (Or.inr ⟨waits.setNow _, ?_, ?_, ?_⟩)⟩
    · exact ScheduleByDelay.le_expires_of_not_ready (notReady _ List.mem_cons_self)
    · have notBefore := lapse.le_afterSleep (system.now + lapse.running) (some ⟨expires⟩)
      change system.now ≤ lapse.afterSleep _ _ + lapse.looping
      omega
    · intro moves
      exact moves.lt_afterSleep system.now ⟨expires⟩

/-- With nothing left to do, a turn only lets time pass. -/
theorem Returned.turn {system : NestedSystem w N}
    (returned : system.Returned build clock earlier start) (lapse : Lapse) :
    ∃ next, NestedSystem.turn build clock system lapse = some next ∧
      next.Returned build clock earlier start := by
  have idle : system.scheduler.resume (ScheduleByDelay.immediate system.now) =
      some (.idle false none) := by
    apply returned.holds.resume_idle
    intro entry member
    contradiction
  have turnEq : NestedSystem.turn build clock system lapse =
      some (system.setNow (system.now + lapse.running + lapse.looping)) := by
    simp only [NestedSystem.turn, idle, bind, Option.bind_some]
    rfl
  exact ⟨_, turnEq, returned.setNow (by omega)⟩

/-! ## What the outer object reports -/

/-- In the host build the object reports done once its co-routine has ended. -/
theorem Returned.finished {system : NestedSystem w N}
    (returned : system.Returned build clock earlier start) (host : build.hostEmulation = true) :
    system.finished = true := by
  rcases returned.lives.object with ⟨called, object, member, own⟩
  have ended : earlier.frames.length ∈ system.life.ended := by
    rw [returned.lives.ended]
    apply List.mem_append_right
    split <;> exact List.mem_cons_self
  have reports := (returned.lives.valid.done_iff member).mpr ⟨host, _, own, ended⟩
  rw [NestedSystem.finished, done, object, Option.any_some, reports]
  exact returned.holds.empty_iff.mpr rfl

/-- The object has no flag, so it never reports done. -/
def Silent (system : NestedSystem w N) : Prop :=
  ∃ called, system.task1 = some called ∧ called.task.done_ = none

theorem Silent.not_finished {system : NestedSystem w N} (silent : system.Silent) :
    ¬ system.finished = true := by
  rcases silent with ⟨called, object, noFlag⟩
  rw [NestedSystem.finished, done, object, Option.any_some, NopTask.done, noFlag]
  exact Bool.false_ne_true

/-- The objects of the target build have no flag. -/
theorem Lives.silent {ended : List Nat} {system : NestedSystem w N}
    (lives : Lives build earlier ended system.life system.task1)
    (target : build.hostEmulation = false) : system.Silent := by
  rcases lives.object with ⟨called, object, member, own⟩
  refine ⟨called, object, ?_⟩
  rw [(lives.valid.tasks called member).1, own, target]
  rfl

theorem await_task1 {system next : NestedSystem w N} {handle : NestedHandle}
    (awaited : system.await clock handle = some next) : next.task1 = system.task1 := by
  rcases Option.map_eq_some_iff.mp awaited with ⟨scheduler, _, rfl⟩
  rfl

theorem returnVoid_task1 {system next : NestedSystem w N} {coroutine : Nat}
    (returned : system.returnVoid coroutine = some next) : next.task1 = system.task1 := by
  rcases Option.map_eq_some_iff.mp returned with ⟨life, _, rfl⟩
  rfl

theorem nestedLevel2_task1 {system next : NestedSystem w N} {task2 : CalledTask}
    (callEq : system.nestedLevel2 build clock = some (task2, next)) :
    next.task1 = system.task1 := by
  rcases callTask_spec build system build.level2Size
    (fun coroutine system => (system.collect 0x10).await clock ⟨coroutine, .level2First⟩) with
    ⟨task, _, ⟨_, _, _, granted⟩ | ⟨_, _, refused⟩⟩
  · rcases Option.map_eq_some_iff.mp (granted.symm.trans callEq) with ⟨inner, awaited, same⟩
    cases same
    have kept := await_task1 awaited
    exact kept
  · cases Option.some.inj (refused.symm.trans callEq)
    rfl

/-- Only the main program has to do with its object. -/
theorem continueAt_task1 {system next : NestedSystem w N} {handle : NestedHandle}
    (continued : system.continueAt build clock handle = some next) :
    next.task1 = system.task1 := by
  rcases handle with ⟨coroutine, point⟩
  cases point with
  | level1 =>
      rcases Option.bind_eq_some_iff.mp continued with ⟨⟨task2, inner⟩, callEq, continued⟩
      rcases Option.bind_eq_some_iff.mp continued with ⟨returned, returnEq, continued⟩
      cases Option.some.inj continued
      have called := nestedLevel2_task1 callEq
      have kept := returnVoid_task1 returnEq
      exact kept.trans called
  | level2First =>
      have awaited : (system.collect 0x20).await clock ⟨coroutine, .level2Second⟩ = some next :=
        continued
      have kept := await_task1 awaited
      exact kept
  | level2Second =>
      have returned : (system.collect 0x40).returnVoid coroutine = some next := continued
      have kept := returnVoid_task1 returned
      exact kept

theorem turn_task1 {system next : NestedSystem w N} {lapse : Lapse}
    (turned : turn build clock system lapse = some next) : next.task1 = system.task1 := by
  rcases Option.bind_eq_some_iff.mp turned with ⟨exit, _, turned⟩
  cases exit with
  | idle pending condition =>
      cases Option.some.inj turned
      rfl
  | resumed handle condition scheduler skipped =>
      rcases Option.bind_eq_some_iff.mp turned with ⟨polled, continued, turned⟩
      cases Option.some.inj turned
      have kept := continueAt_task1 continued
      exact kept

theorem Silent.mainLoop_eq_none {system : NestedSystem w N} (silent : system.Silent)
    (lapses : Nat → Lapse) (fuel : Nat) : mainLoop build clock lapses fuel system = none := by
  refine Transition.doUntil_eq_none ?_ silent fuel 0
  rintro state next index ⟨called, object, noFlag⟩ turned
  have silent' : next.Silent := ⟨called, (turn_task1 turned).trans object, noFlag⟩
  exact ⟨silent', silent'.not_finished⟩

/-! ## The whole loop -/

/-- The main program calls `nested_level1`. -/
theorem started_spec [NeZero N] (build : NestedBuild w) (clock : Clock)
    (validEarlier : earlier.Valid build.hostEmulation)
    (buffer : Fin N → StaticListNode (ScheduleEntry ScheduleByDelay NestedHandle) N) (now : Int) :
    ∃ system, started build clock earlier buffer now = some system ∧
      ((level1Granted build earlier = true ∧ system.WaitsAt build clock earlier now .level1
        (now + ticks clock .level1)) ∨
      (level1Granted build earlier = false ∧ system.Silent)) := by
  have valid := (validEarlier.call build.TASK_HEAP_SIZE build.level1Size).1
  rcases callTask_spec build ⟨SchedulerOrdered.init buffer, now, 0, earlier, none, none⟩
    build.level1Size (fun coroutine system =>
      (system.collect 0x1).await clock ⟨coroutine, .level1⟩) with ⟨task, tasks, outcome⟩
  have member : task ∈ (earlier.call build.hostEmulation build.TASK_HEAP_SIZE
      build.level1Size).tasks := by
    change (earlier.call _ _ _).tasks = earlier.tasks ++ [task] at tasks
    rw [tasks]
    exact List.mem_append_right _ List.mem_cons_self
  rcases outcome with ⟨granted, own, frames, callEq⟩ | ⟨refused, own, callEq⟩
  · rcases await_spec ((called build ⟨SchedulerOrdered.init buffer, now, 0, earlier, none, none⟩
      build.level1Size).collect 0x1) (SchedulerOrdered.init_holds buffer) clock
      ⟨earlier.frames.length, .level1⟩ with ⟨scheduler, awaited, holds⟩
    have calls : nestedLevel1 build clock
        ⟨SchedulerOrdered.init buffer, now, 0, earlier, none, none⟩ =
        some (task, ⟨scheduler, now, 0 ||| 0x1, earlier.call build.hostEmulation
          build.TASK_HEAP_SIZE build.level1Size, none, none⟩) :=
      callEq.trans (congrArg _ awaited)
    have startedEq : started build clock earlier buffer now =
        some ⟨scheduler, now, 0 ||| 0x1, earlier.call build.hostEmulation
          build.TASK_HEAP_SIZE build.level1Size, some task, none⟩ := by
      rw [started, calls, Option.map_some]
    refine ⟨_, startedEq, Or.inl ⟨granted, ?_⟩⟩
    constructor
    · exact holds
    · rfl
    · exact le_rfl
    · rcases Lifecycle.call_tasks build.hostEmulation build.TASK_HEAP_SIZE earlier
        build.level1Size with ⟨_, _, ended, _⟩
      exact ⟨valid, ended.trans (List.append_nil _).symm, task, rfl, member, own⟩
    · exact frames
    · intro _
      rfl
    · intro impossible
      contradiction
    · rfl
  · have startedEq : started build clock earlier buffer now =
        some ⟨SchedulerOrdered.init buffer, now, 0, earlier.call build.hostEmulation
          build.TASK_HEAP_SIZE build.level1Size, some task, none⟩ := by
      rw [started, nestedLevel1, callEq]
      rfl
    refine ⟨_, startedEq, Or.inr ⟨refused, task, rfl, ?_⟩⟩
    rw [(valid.tasks task member).1, own]
    rfl

/-- The waits that are left. -/
def left (system : NestedSystem w N) : Nat :=
  (system.scheduler.entries.head?.map fun entry => waitsLeft entry.handle_.point).getD 0

/-- How long until the co-routine that waits is due. -/
def gap (system : NestedSystem w N) : Nat :=
  (system.scheduler.entries.head?.map fun entry =>
    (entry.wakeCondition_.expires_ - system.now + 1).toNat).getD 0

theorem WaitsAt.left_eq {system : NestedSystem w N} {point : NestedPoint} {expires : Int}
    (waits : system.WaitsAt build clock earlier start point expires) :
    system.left = waitsLeft point := by
  rw [left, waits.holds.entries_eq]
  rfl

theorem WaitsAt.gap_eq {system : NestedSystem w N} {point : NestedPoint} {expires : Int}
    (waits : system.WaitsAt build clock earlier start point expires) :
    system.gap = (expires - system.now + 1).toNat := by
  rw [gap, waits.holds.entries_eq]
  rfl

/-- In the host build the loop comes to an end. -/
theorem WaitsAt.exists_returned [NeZero N] {system : NestedSystem w N} {point : NestedPoint}
    {expires : Int} (waits : system.WaitsAt build clock earlier start point expires)
    (validEarlier : earlier.Valid build.hostEmulation) (host : build.hostEmulation = true)
    {lapses : Nat → Lapse} (again : ∀ turn, ∃ later, turn ≤ later ∧ (lapses later).Moves) :
    ∃ fuel finish, mainLoop build clock lapses fuel system = some finish ∧
      finish.Returned build clock earlier start := by
  have wellFounded := (Prod.lex Nat.lt_wfRel Nat.lt_wfRel).wf
  have loops : ∃ fuel finish, Transition.doUntil (NestedSystem.turn build clock)
      NestedSystem.finished lapses fuel 0 system = some finish ∧
      finish.Looping build clock earlier start ∧ finish.finished = true := by
    refine Transition.exists_doUntil_of_fair wellFounded
      (fun system : NestedSystem w N => (system.left, system.gap)) again ?_
      (Or.inl ⟨point, expires, waits⟩) 0
    rintro system index (⟨point, expires, waits⟩ | returned)
    · rcases waits.turn validEarlier (lapses index) with ⟨next, turnEq, outcome⟩
      refine ⟨next, turnEq, ?_⟩
      rcases outcome with
        returned | ⟨point', expires', waits', fewer⟩ | ⟨waits', ahead, notBefore, moves⟩
      · exact ⟨Or.inr returned, Or.inl (returned.finished host)⟩
      · refine ⟨Or.inl ⟨point', expires', waits'⟩, Or.inr (Or.inl (Prod.Lex.left _ _ ?_))⟩
        rw [waits.left_eq, waits'.left_eq]
        exact fewer
      · refine ⟨Or.inl ⟨point, expires, waits'⟩, Or.inr ?_⟩
        rw [waits.left_eq, waits'.left_eq, waits.gap_eq, waits'.gap_eq]
        rcases eq_or_ne next.now system.now with same | moved
        · rw [same]
          refine Or.inr ⟨rfl, ?_⟩
          intro helps
          exact absurd same (moves helps).ne'
        · left
          apply Prod.Lex.right
          change (expires - next.now + 1).toNat < (expires - system.now + 1).toNat
          omega
    · rcases returned.turn (lapses index) with ⟨next, turnEq, returned'⟩
      exact ⟨next, turnEq, Or.inr returned', Or.inl (returned'.finished host)⟩
  rcases loops with ⟨fuel, finish, returns, ⟨point', expires', waits'⟩ | returned, done⟩
  · have empty : finish.scheduler.empty = true := (Bool.and_eq_true_iff.mp done).2
    have impossible := waits'.holds.empty_iff.mp empty
    contradiction
  · exact ⟨fuel, finish, returns, returned⟩

/-- In the host build the outer task and the one it started both run to their
ends on every clock that moves on again and again: the loop returns, with all
flags set, and not before the three delays have passed one after the other.  By
then the object of the inner task was destroyed.  If the inner call is refused a
frame, the outer task ends without it; if the outer one is, or in the target
build, the loop never returns. -/
theorem mainLoop_covers [NeZero N] (build : NestedBuild w) (clock : Clock) {life : Lifecycle w}
    (earlier : Transition.Reachable (Lifecycle.step build.hostEmulation build.TASK_HEAP_SIZE)
      .init life)
    (buffer : Fin N → StaticListNode (ScheduleEntry ScheduleByDelay NestedHandle) N) (now : Int)
    {lapses : Nat → Lapse} (again : ∀ turn, ∃ later, turn ≤ later ∧ (lapses later).Moves) :
    ∃ system, started build clock life buffer now = some system ∧
      (build.hostEmulation = true → level1Granted build life = true →
        ∃ fuel finish, mainLoop build clock lapses fuel system = some finish ∧
          finish.scheduler.empty = true ∧ finish.task2 = none ∧
          (level2Granted build life = true → finish.coverFlags = 0x77 ∧
            finish.life.ended = life.ended ++ [life.frames.length, life.frames.length + 1] ∧
            now + ticks clock .level1 + ticks clock .level2First + ticks clock .level2Second <
              finish.now) ∧
          (level2Granted build life = false → finish.coverFlags = 0x07 ∧
            finish.life.ended = life.ended ++ [life.frames.length] ∧
            now + ticks clock .level1 < finish.now)) ∧
      ((build.hostEmulation = false ∨ level1Granted build life = false) →
        ∀ fuel, mainLoop build clock lapses fuel system = none) := by
  have validEarlier := Lifecycle.valid_of_reachable earlier
  rcases started_spec build clock validEarlier buffer now with ⟨system, startedEq, begun⟩
  refine ⟨system, startedEq, ?_, ?_⟩
  · intro host granted
    rcases begun with ⟨_, waits⟩ | ⟨refused, _⟩
    · rcases waits.exists_returned validEarlier host again with ⟨fuel, finish, returns, returned⟩
      have flags := returned.flags
      have ended := returned.lives.ended
      have late := returned.late
      refine ⟨fuel, finish, returns, returned.holds.empty_iff.mpr rfl, returned.task2, ?_, ?_⟩
      · intro both
        rw [both] at flags ended late
        change now + (ticks clock .level1 + ticks clock .level2First +
          ticks clock .level2Second) < finish.now at late
        rw [← add_assoc, ← add_assoc] at late
        exact ⟨flags, ended, late⟩
      · intro alone
        rw [alone] at flags ended late
        exact ⟨flags, ended, late⟩
    · rw [granted] at refused
      contradiction
  · intro never fuel
    rcases begun with ⟨granted, waits⟩ | ⟨_, silent⟩
    · rcases never with target | refused
      · exact (waits.lives.silent target).mainLoop_eq_none lapses fuel
      · rw [granted] at refused
        contradiction
    · exact silent.mainLoop_eq_none lapses fuel

/-- The host build, with frames of 200 bytes. -/
def nestedHostBuild : NestedBuild 64 :=
  ⟨true, 4096, 200, 200⟩

/-- On the clocks of the repository the delays take 181 milliseconds. -/
theorem mainLoop_covers_steadyClock :
    ∃ (system finish : NestedSystem 64 10) (fuel : Nat),
      started nestedHostBuild steadyClock .init (fun _ => ⟨none, none, none⟩) 0 = some system ∧
      mainLoop nestedHostBuild steadyClock (fun _ => TaskSystem.tickLapse) fuel system =
        some finish ∧
      finish.coverFlags = 0x77 ∧ 181000000 < finish.now := by
  rcases mainLoop_covers nestedHostBuild steadyClock (.refl _ _)
    (fun _ : Fin 10 => ⟨none, none, none⟩) 0
    (fun turn => ⟨turn, le_rfl, TaskSystem.tickLapse_moves⟩) with
    ⟨system, startedEq, returns, _⟩
  rcases returns rfl (by decide) with ⟨fuel, finish, loopEq, _, _, covered, _⟩
  rcases covered (by decide) with ⟨flags, _, late⟩
  exact ⟨system, finish, fuel, startedEq, loopEq, flags, late⟩

end NestedSystem

end BaremetalCoro
