import BaremetalCoro.NopTask.Lifecycle
import BaremetalCoro.Transition.Loop
import Mathlib.Data.List.FinRange
import Mathlib.Logic.Function.Basic

/-!
# Main programs and the tasks they call

The main programs of the tests call some tasks, keep the objects that the calls
return, and loop until `done()` is true for all of these.  What the tasks do
with their scheduler is left open here: a system is anything in which each task
stands somewhere.

A call allocates a frame first.  When that is refused, the body of the task does
not start, and the object never reports done.  A task that runs to its end tells
its promise, and in the host build its object reports done from then on; the
objects of the target build never do.
-/

namespace BaremetalCoro

open Transition

/-- Where a co-routine stands. -/
inductive TaskStatus where
  | unstarted
  | suspended
  | finished
  deriving DecidableEq

/-- The locals of a task that does not run, with the counter it reports to. -/
structure TaskFrame where
  i : Nat
  resumeCount : Nat
  status : TaskStatus
  deriving DecidableEq

/-- How a main program with `k` tasks is built; the compiler chooses the sizes
of their frames. -/
structure Build (k w : Nat) where
  hostEmulation : Bool
  TASK_HEAP_SIZE : SizeT w
  frameSize : Fin k → SizeT w

/-- A host build with room for all frames. -/
def hostBuild (k : Nat) : Build k 64 :=
  ⟨true, 4096, fun _ => 96⟩

/-- A target build in which the second frame does not fit. -/
def targetBuild (k : Nat) : Build k 32 :=
  ⟨false, 512, fun _ => 300⟩

/-- The system of the tasks, the life of their coroutines, and the objects that
the calls returned. -/
structure MainProgram (σ : Type) (k w : Nat) where
  system : σ
  life : Lifecycle w
  objects : Fin k → Option CalledTask

namespace MainProgram

variable {σ α : Type} {k w : Nat}

/-- Before the first call; `life` is that of the coroutines called earlier, as
all share one heap. -/
def init (life : Lifecycle w) (system : σ) : MainProgram σ k w :=
  ⟨system, life, fun _ => none⟩

/-- The coroutine of a task, if the task was called and given a frame. -/
def coroutine (program : MainProgram σ k w) (j : Fin k) : Option Nat :=
  (program.objects j).bind CalledTask.coroutine

/-- The task was called and given a frame. -/
def granted (program : MainProgram σ k w) (j : Fin k) : Bool :=
  (program.coroutine j).isSome

/-- `task.done()` -/
def done (program : MainProgram σ k w) (j : Fin k) : Bool :=
  (program.objects j).any fun called => called.task.done program.life.store.flags

/-- The test of the loops. -/
def allDone (program : MainProgram σ k w) : Bool :=
  decide (∀ j, program.done j = true)

/-- Task `j` was called: the object is there, and a frame if there was room for
it, but the body has not started. -/
def entered (build : Build k w) (program : MainProgram σ k w) (j : Fin k) : MainProgram σ k w :=
  let life := program.life.call build.hostEmulation build.TASK_HEAP_SIZE (build.frameSize j)
  { program with
    life := life
    objects := Function.update program.objects j life.tasks.getLast? }

section Execution

variable (build : Build k w) (status : σ → Fin k → TaskStatus)

/-- The coroutines that have ended when the system is `next`. -/
def ends (program : MainProgram σ k w) (next : σ) : List Nat :=
  ((List.finRange k).filter fun j =>
    status program.system j ≠ .finished ∧ status next j = .finished).filterMap program.coroutine

/-- The tasks run for a while.  Those that end tell their promises. -/
def execute (body : σ → Option σ) (program : MainProgram σ k w) : Option (MainProgram σ k w) := do
  let system ← body program.system
  let life ← run (Lifecycle.step build.hostEmulation build.TASK_HEAP_SIZE) program.life
    ((program.ends status system).map .returnVoid)
  return { program with system := system, life := life }

/-- Task `j` is called for the first time.  Its body does not suspend initially,
and without a frame it does not start. -/
def call (start : σ → Option σ) (j : Fin k) (program : MainProgram σ k w) :
    Option (MainProgram σ k w) :=
  match program.objects j with
  | some _ => none
  | none =>
      let called := program.entered build j
      if called.granted j then called.execute build status start else some called

/-- One action of the main program: the call of a task, or something else that
lets tasks run. -/
def step (callOf : α → Option (Fin k)) (body : Step σ α) : Step (MainProgram σ k w) α :=
  fun program act =>
    match callOf act with
    | some j => program.call build status (fun system => body system act) j
    | none => program.execute build status fun system => body system act

/-- `do { ... } while (!(task.done() && ...))` -/
def loop (body : Step σ α) (inputs : Nat → α) :
    Nat → Nat → MainProgram σ k w → Option (MainProgram σ k w) :=
  doUntil (fun program input => program.execute build status fun system => body system input)
    allDone inputs

end Execution

/-- All tasks have ended. -/
def AllFinished (status : σ → Fin k → TaskStatus) (system : σ) : Prop :=
  ∀ j, status system j = .finished

instance (status : σ → Fin k → TaskStatus) (system : σ) :
    Decidable (AllFinished status system) :=
  inferInstanceAs (Decidable (∀ j, status system j = .finished))

/-! ## What the objects tell -/

/-- The objects belong to the coroutines of their own calls, which have ended if
the tasks have. -/
structure Told (hostEmulation : Bool) (status : σ → Fin k → TaskStatus)
    (program : MainProgram σ k w) : Prop where
  life : program.life.Valid hostEmulation
  object : ∀ j called, program.objects j = some called → called ∈ program.life.tasks
  own : ∀ i j coroutine, program.coroutine i = some coroutine →
    program.coroutine j = some coroutine → i = j
  ended : ∀ j coroutine, program.coroutine j = some coroutine →
    (coroutine ∈ program.life.ended ↔ status program.system j = .finished)

/-- Besides, exactly the tasks that were given a frame have started. -/
structure Valid (hostEmulation : Bool) (status : σ → Fin k → TaskStatus)
    (program : MainProgram σ k w) : Prop extends Told hostEmulation status program where
  started : ∀ j, program.granted j = true ↔ status program.system j ≠ .unstarted

/-- What the tasks may do while the main program calls one of them, or none: no
other one starts, and what has ended has ended. -/
structure Orderly (status : σ → Fin k → TaskStatus) (called : Option (Fin k)) (system next : σ) :
    Prop where
  finished : ∀ j, status system j = .finished → status next j = .finished
  started : ∀ j, status next j ≠ .unstarted ↔ called = some j ∨ status system j ≠ .unstarted

variable {build : Build k w} {status : σ → Fin k → TaskStatus} {program : MainProgram σ k w}

theorem Orderly.of_eq {system next : σ} (same : status next = status system) :
    Orderly status none system next := by
  constructor
  · intro j finished
    rw [same, finished]
  · intro j
    rw [same]
    simp

/-- One task runs, which was called or resumed. -/
theorem Orderly.of_update {called : Option (Fin k)} {system next : σ} {j : Fin k}
    {after : TaskStatus} (updated : status next = Function.update (status system) j after)
    (runs : after ≠ .unstarted)
    (before : (called = some j ∧ status system j = .unstarted) ∨
      (called = none ∧ status system j = .suspended)) :
    Orderly status called system next := by
  have unended : status system j ≠ .finished := by
    rcases before with ⟨_, unstarted⟩ | ⟨_, suspended⟩
    · simp [unstarted]
    · simp [suspended]
  constructor
  · intro other finished
    have different : other ≠ j := by
      rintro rfl
      exact unended finished
    rw [updated, Function.update_of_ne different, finished]
  · intro other
    rw [updated]
    by_cases same : other = j
    · rw [same, Function.update_self]
      rcases before with ⟨isCall, _⟩ | ⟨_, suspended⟩
      · simp [isCall, runs]
      · simp [suspended, runs]
    · rw [Function.update_of_ne same]
      rcases before with ⟨isCall, _⟩ | ⟨isCall, _⟩
      · simp [isCall, Ne.symm same]
      · simp [isCall]

theorem coroutine_eq_some_iff {j : Fin k} {coroutine : Nat} :
    program.coroutine j = some coroutine ↔
      ∃ called, program.objects j = some called ∧ called.coroutine = some coroutine :=
  Option.bind_eq_some_iff

theorem granted_congr {next : MainProgram σ k w} {j : Fin k}
    (same : next.objects j = program.objects j) : next.granted j = program.granted j := by
  rw [granted, coroutine, same]
  rfl

theorem Told.coroutine_lt {hostEmulation : Bool} (told : program.Told hostEmulation status)
    {j : Fin k} {coroutine : Nat} (own : program.coroutine j = some coroutine) :
    coroutine < program.life.frames.length := by
  rcases coroutine_eq_some_iff.mp own with ⟨called, object, same⟩
  exact (told.life.tasks called (told.object j called object)).2 coroutine same

/-- A task reports done exactly when it was given a frame in the host build and
has ended. -/
theorem Told.done_iff {hostEmulation : Bool} (told : program.Told hostEmulation status)
    (j : Fin k) :
    program.done j = true ↔
      hostEmulation = true ∧ program.granted j = true ∧ status program.system j = .finished := by
  cases hobject : program.objects j with
  | none => simp [done, granted, coroutine, hobject]
  | some called =>
      have reports := told.life.done_iff (told.object j called hobject)
      have ended := told.ended j
      simp only [coroutine, hobject, Option.bind_some] at ended
      simp only [done, granted, coroutine, hobject, Option.any_some, Option.bind_some, reports]
      cases hcoroutine : called.coroutine with
      | none => simp
      | some coroutine => simp [ended coroutine hcoroutine]

/-! ## One action -/

theorem mem_ends {next : σ} {coroutine : Nat} :
    coroutine ∈ program.ends status next ↔
      ∃ j, program.coroutine j = some coroutine ∧ status program.system j ≠ .finished ∧
        status next j = .finished := by
  simp only [ends, List.mem_filterMap, List.mem_filter, List.mem_finRange, true_and,
    decide_eq_true_eq]
  constructor
  · rintro ⟨j, ended, own⟩
    exact ⟨j, own, ended⟩
  · rintro ⟨j, own, ended⟩
    exact ⟨j, ended, own⟩

theorem Told.ends_nodup {hostEmulation : Bool} (told : program.Told hostEmulation status)
    (next : σ) : (program.ends status next).Nodup := by
  apply ((List.nodup_finRange k).filter _).filterMap
  intro i j coroutine ofFirst ofSecond
  exact told.own i j coroutine ofFirst ofSecond

/-- What a step of the tasks is made of. -/
theorem execute_eq_some {body : σ → Option σ} {next : MainProgram σ k w}
    (executed : program.execute build status body = some next) :
    body program.system = some next.system ∧ next.objects = program.objects ∧
      run (Lifecycle.step build.hostEmulation build.TASK_HEAP_SIZE) program.life
        ((program.ends status next.system).map .returnVoid) = some next.life := by
  rcases Option.bind_eq_some_iff.mp executed with ⟨system, bodyEq, executed⟩
  rcases Option.bind_eq_some_iff.mp executed with ⟨life, ran, executed⟩
  cases Option.some.inj executed
  exact ⟨bodyEq, rfl, ran⟩

/-- The tasks run and the objects are told of it. -/
theorem Told.execute (told : program.Told build.hostEmulation status) {body : σ → Option σ}
    {system : σ} (bodyEq : body program.system = some system)
    (stays : ∀ j, status program.system j = .finished → status system j = .finished) :
    ∃ next, program.execute build status body = some next ∧ next.system = system ∧
      next.objects = program.objects ∧ next.Told build.hostEmulation status := by
  have running : ∀ coroutine ∈ program.ends status system,
      coroutine < program.life.frames.length ∧ coroutine ∉ program.life.ended := by
    intro coroutine member
    rcases mem_ends.mp member with ⟨j, own, notFinished, _⟩
    exact ⟨told.coroutine_lt own, mt (told.ended j coroutine own).mp notFinished⟩
  rcases told.life.run_returnVoid build.TASK_HEAP_SIZE (told.ends_nodup system) running with
    ⟨life, ran, valid, ended, tasks⟩
  have executed : program.execute build status body =
      some { program with system := system, life := life } := by
    simp only [MainProgram.execute, bodyEq, bind, Option.bind_some, ran]
    rfl
  refine ⟨_, executed, rfl, rfl, ⟨valid, ?_, told.own, ?_⟩⟩
  · intro j called object
    rw [tasks]
    exact told.object j called object
  · intro j coroutine own
    change coroutine ∈ life.ended ↔ status system j = .finished
    rw [ended, List.mem_append, told.ended j coroutine own, mem_ends]
    constructor
    · rintro (before | ⟨other, same, _, now⟩)
      · exact stays j before
      · rw [told.own j other coroutine own same]
        exact now
    · intro now
      by_cases before : status program.system j = .finished
      · exact Or.inl before
      · exact Or.inr ⟨j, own, before, now⟩

/-- The call of a task returns an object for it, of the next coroutine if it was
given a frame. -/
theorem entered_own (build : Build k w) (program : MainProgram σ k w) (j : Fin k) :
    ∃ task, (program.entered build j).objects j = some task ∧
      (program.entered build j).life.tasks = program.life.tasks ++ [task] ∧
      ∀ coroutine, task.coroutine = some coroutine →
        coroutine = program.life.frames.length := by
  rcases Lifecycle.call_tasks build.hostEmulation build.TASK_HEAP_SIZE program.life
    (build.frameSize j) with ⟨task, tasks, _, fresh, _⟩
  refine ⟨task, ?_, tasks, ?_⟩
  · change Function.update program.objects j _ j = _
    rw [Function.update_self, tasks, List.getLast?_append_of_ne_nil _ (List.cons_ne_nil _ _)]
    rfl
  · intro coroutine same
    rw [fresh] at same
    rcases Option.map_eq_some_iff.mp same with ⟨_, _, isNext⟩
    exact isNext.symm

theorem entered_others (build : Build k w) (program : MainProgram σ k w) {j other : Fin k}
    (different : other ≠ j) :
    (program.entered build j).objects other = program.objects other :=
  Function.update_of_ne different _ _

theorem entered_ended (build : Build k w) (program : MainProgram σ k w) (j : Fin k) :
    (program.entered build j).life.ended = program.life.ended := by
  rcases Lifecycle.call_tasks build.hostEmulation build.TASK_HEAP_SIZE program.life
    (build.frameSize j) with ⟨_, _, ended, _⟩
  exact ended

/-- The coroutine of the called task is the newest one, and the others have
theirs from before. -/
theorem entered_coroutine {j other : Fin k} {coroutine : Nat}
    (same : (program.entered build j).coroutine other = some coroutine) :
    (other = j ∧ coroutine = program.life.frames.length) ∨
      (other ≠ j ∧ program.coroutine other = some coroutine) := by
  by_cases isCalled : other = j
  · left
    rw [isCalled] at same
    rcases entered_own build program j with ⟨task, own, _, newest⟩
    rw [MainProgram.coroutine, own] at same
    exact ⟨isCalled, newest coroutine same⟩
  · right
    rw [MainProgram.coroutine, entered_others build program isCalled] at same
    exact ⟨isCalled, same⟩

/-- After the call the objects belong to the coroutines of their own calls
still. -/
theorem Told.entered (told : program.Told build.hostEmulation status) {j : Fin k}
    (unended : status program.system j ≠ .finished) :
    (program.entered build j).Told build.hostEmulation status := by
  rcases entered_own build program j with ⟨task, own, tasks, _⟩
  refine ⟨(told.life.call _ _).1, ?_, ?_, ?_⟩
  · intro other task' object
    rw [tasks]
    by_cases same : other = j
    · rw [same, own] at object
      rw [← Option.some.inj object]
      exact List.mem_append_right _ List.mem_cons_self
    · rw [entered_others build program same] at object
      exact List.mem_append_left _ (told.object other task' object)
  · intro first second coroutine ofFirst ofSecond
    rcases entered_coroutine ofFirst with ⟨isFirst, newest⟩ | ⟨_, firstBefore⟩
    · rcases entered_coroutine ofSecond with ⟨isSecond, _⟩ | ⟨_, secondBefore⟩
      · rw [isFirst, isSecond]
      · exact absurd newest (told.coroutine_lt secondBefore).ne
    · rcases entered_coroutine ofSecond with ⟨_, newest⟩ | ⟨_, secondBefore⟩
      · exact absurd newest (told.coroutine_lt firstBefore).ne
      · exact told.own first second coroutine firstBefore secondBefore
  · intro other coroutine same
    rw [entered_ended]
    change coroutine ∈ program.life.ended ↔ status program.system other = .finished
    rcases entered_coroutine same with ⟨rfl, newest⟩ | ⟨_, before⟩
    · constructor
      · intro member
        exact absurd newest (told.life.ended _ member).ne
      · intro finished
        exact absurd finished unended
    · exact told.ended other coroutine before

/-- Tasks run that were started before. -/
theorem Valid.execute (valid : program.Valid build.hostEmulation status) (body : σ → Option σ)
    {system : σ} (bodyEq : body program.system = some system)
    (orderly : Orderly status none program.system system) :
    ∃ next, program.execute build status body = some next ∧ next.system = system ∧
      next.objects = program.objects ∧ next.Valid build.hostEmulation status := by
  rcases valid.toTold.execute bodyEq orderly.finished with
    ⟨next, executed, rfl, objects, told⟩
  refine ⟨next, executed, rfl, objects, ⟨told, ?_⟩⟩
  intro j
  rw [granted_congr (congrFun objects j), valid.started j, orderly.started j]
  simp

/-- A task is called and starts, or it is refused a frame and nothing else
happens. -/
theorem Valid.call (valid : program.Valid build.hostEmulation status) {j : Fin k}
    (uncalled : program.objects j = none) (start : σ → Option σ)
    (starts : (program.entered build j).granted j = true →
      ∃ system, start program.system = some system ∧
        Orderly status (some j) program.system system) :
    ∃ next, program.call build status start j = some next ∧
      next.Valid build.hostEmulation status ∧ next.objects j ≠ none ∧
      (∀ other, other ≠ j → next.objects other = program.objects other) ∧
      ((next.granted j = true ∧ start program.system = some next.system) ∨
        (next.granted j = false ∧ next.system = program.system)) := by
  have notGranted : program.granted j = false := by
    rw [granted, coroutine, uncalled]
    rfl
  have unstarted : status program.system j = .unstarted := by
    by_contra started
    rw [(valid.started j).mpr started] at notGranted
    contradiction
  have unended : status program.system j ≠ .finished := by
    rw [unstarted]
    exact TaskStatus.noConfusion
  have told := valid.toTold.entered unended
  have others : ∀ other, other ≠ j →
      (program.entered build j).objects other = program.objects other :=
    fun _ different => entered_others build program different
  have object : (program.entered build j).objects j ≠ none := by
    rcases entered_own build program j with ⟨task, own, _⟩
    rw [own]
    exact Option.some_ne_none task
  have grantedOthers : ∀ {next : MainProgram σ k w}, (∀ other, other ≠ j →
      next.objects other = program.objects other) → ∀ other, other ≠ j →
      (next.granted other = true ↔ status program.system other ≠ .unstarted) := by
    intro next same other different
    rw [granted_congr (same other different)]
    exact valid.started other
  by_cases isGranted : (program.entered build j).granted j = true
  · rcases starts isGranted with ⟨system, startEq, orderly⟩
    rcases told.execute startEq orderly.finished with ⟨next, executed, rfl, objects, told'⟩
    have called : program.call build status start j = some next := by
      simp only [MainProgram.call, uncalled]
      exact (if_pos isGranted).trans executed
    have same : next.granted j = true := (granted_congr (congrFun objects j)).trans isGranted
    have others' : ∀ other, other ≠ j → next.objects other = program.objects other := by
      intro other different
      rw [objects]
      exact others other different
    refine ⟨next, called, ⟨told', ?_⟩, objects ▸ object, others', Or.inl ⟨same, startEq⟩⟩
    intro other
    rw [orderly.started other]
    by_cases isCalled : other = j
    · rw [isCalled, same]
      simp
    · rw [grantedOthers others' other isCalled]
      simp [Ne.symm isCalled]
  · have called : program.call build status start j = some (program.entered build j) := by
      simp only [MainProgram.call, uncalled]
      exact if_neg isGranted
    refine ⟨_, called, ⟨told, ?_⟩, object, others, Or.inr ⟨Bool.eq_false_iff.mpr isGranted, rfl⟩⟩
    intro other
    by_cases isCalled : other = j
    · rw [isCalled]
      constructor
      · intro impossible
        exact absurd impossible isGranted
      · intro started
        exact absurd unstarted started
    · exact grantedOthers others other isCalled

/-! ## Runs -/

theorem init_valid {hostEmulation : Bool} {life : Lifecycle w}
    (earlier : life.Valid hostEmulation) {system : σ}
    (unstarted : ∀ j, status system j = .unstarted) :
    (init life system : MainProgram σ k w).Valid hostEmulation status := by
  refine ⟨⟨earlier, ?_, ?_, ?_⟩, ?_⟩
  · intro j called impossible
    contradiction
  · intro i j coroutine impossible
    contradiction
  · intro j coroutine impossible
    contradiction
  · intro j
    constructor
    · intro impossible
      contradiction
    · intro started
      exact absurd (unstarted j) started

/-- Every action does to the system what it should, unless it is a call that is
refused a frame. -/
theorem Valid.step {callOf : α → Option (Fin k)} {body : Step σ α}
    (orderly : ∀ ⦃system next⦄ act, body system act = some next →
      Orderly status (callOf act) system next)
    (valid : program.Valid build.hostEmulation status) {act : α} {next : MainProgram σ k w}
    (stepped : program.step build status callOf body act = some next) :
    next.Valid build.hostEmulation status ∧
      (body program.system act = some next.system ∨ next.system = program.system) := by
  simp only [MainProgram.step] at stepped
  cases hcall : callOf act with
  | none =>
      simp only [hcall] at stepped
      have bodyEq := (execute_eq_some stepped).1
      have kept := orderly act bodyEq
      rw [hcall] at kept
      rcases valid.execute (fun system => body system act) bodyEq kept with
        ⟨next', executed, _, _, valid'⟩
      cases Option.some.inj (stepped.symm.trans executed)
      exact ⟨valid', Or.inl bodyEq⟩
  | some j =>
      simp only [hcall] at stepped
      have uncalled : program.objects j = none := by
        cases hobject : program.objects j with
        | none => rfl
        | some called => simp [MainProgram.call, hobject] at stepped
      have starts : (program.entered build j).granted j = true →
          ∃ system, body program.system act = some system ∧
            Orderly status (some j) program.system system := by
        intro isGranted
        have executed : (program.entered build j).execute build status
            (fun system => body system act) = some next := by
          simp only [MainProgram.call, uncalled] at stepped
          exact (if_pos isGranted).symm.trans stepped
        have bodyEq := (execute_eq_some executed).1
        have kept := orderly act bodyEq
        rw [hcall] at kept
        exact ⟨next.system, bodyEq, kept⟩
      rcases valid.call uncalled (fun system => body system act) starts with
        ⟨next', called, valid', _, _, outcome⟩
      cases Option.some.inj (stepped.symm.trans called)
      refine ⟨valid', ?_⟩
      rcases outcome with ⟨_, bodyEq⟩ | ⟨_, same⟩
      · exact Or.inl bodyEq
      · exact Or.inr same

/-- What a run of the main program does to the system is a run of the tasks that
were given a frame. -/
theorem run_valid {callOf : α → Option (Fin k)} {body : Step σ α} {life : Lifecycle w}
    (earlier : life.Valid build.hostEmulation)
    (orderly : ∀ ⦃system next⦄ act, body system act = some next →
      Orderly status (callOf act) system next)
    {system : σ} (unstarted : ∀ j, status system j = .unstarted) {acts : List α}
    (ran : run (step build status callOf body) (init life system) acts = some program) :
    program.Valid build.hostEmulation status ∧ Reachable body system program.system := by
  have kept : ∀ ⦃before : MainProgram σ k w⦄ ⦃act after⦄,
      before.Valid build.hostEmulation status ∧ Reachable body system before.system →
      step build status callOf body before act = some after →
      after.Valid build.hostEmulation status ∧ Reachable body system after.system := by
    rintro before act after ⟨valid, reachable⟩ stepped
    rcases valid.step orderly stepped with ⟨valid', bodyEq | same⟩
    · exact ⟨valid', reachable.tail bodyEq⟩
    · rw [same]
      exact ⟨valid', reachable⟩
  exact run_invariant kept ⟨init_valid earlier unstarted, Reachable.refl body system⟩ ran

/-- Tasks that are called one after the other: those that are given a frame
start, in this order. -/
theorem run_calls {build : Build k w} {life : Lifecycle w}
    (earlier : life.Valid build.hostEmulation) {start : Fin k → σ → Option σ}
    {holds : List (Fin k) → σ → Prop}
    (starts : ∀ ⦃called j state⦄, (called ++ [j]).Nodup → holds called state →
      ∃ next, start j state = some next ∧ holds (called ++ [j]) next ∧
        Orderly status (some j) state next)
    {system : σ} (unstarted : ∀ j, status system j = .unstarted) (initially : holds [] system)
    {order : List (Fin k)} (nodup : order.Nodup) :
    ∃ program, run (fun program j => program.call build status (start j) j)
        (init life system : MainProgram σ k w) order = some program ∧
      program.Valid build.hostEmulation status ∧
      (∀ j, program.objects j ≠ none ↔ j ∈ order) ∧
      holds (order.filter program.granted) program.system := by
  induction order using List.reverseRecOn with
  | nil =>
      refine ⟨init life system, rfl, init_valid earlier unstarted, ?_, initially⟩
      intro j
      simp [init]
  | append_singleton front j ih =>
      rcases List.nodup_append.mp nodup with ⟨nodupFront, _, apart⟩
      rcases ih nodupFront with ⟨program, ran, valid, called, held⟩
      have notBefore : j ∉ front := by
        intro member
        exact apart j member j List.mem_cons_self rfl
      have uncalled : program.objects j = none := by
        by_contra before
        exact notBefore ((called j).mp before)
      have nodupGranted : (front.filter program.granted ++ [j]).Nodup :=
        nodup.sublist (List.filter_sublist.append (List.Sublist.refl [j]))
      rcases starts nodupGranted held with ⟨system', startEq, held', orderly⟩
      have possible : (program.entered build j).granted j = true → ∃ next,
          start j program.system = some next ∧ Orderly status (some j) program.system next :=
        fun _ => ⟨system', startEq, orderly⟩
      rcases valid.call uncalled (start j) possible with
        ⟨next, callEq, valid', object, others, outcome⟩
      have ran' : run (fun program j => program.call build status (start j) j)
          (init life system : MainProgram σ k w) (front ++ [j]) = some next :=
        run_append_of_run ran (run_cons_of_step callEq rfl)
      have grantedFront : front.filter next.granted = front.filter program.granted := by
        apply List.filter_congr
        intro other member
        apply granted_congr (others other _)
        rintro rfl
        exact notBefore member
      refine ⟨next, ran', valid', ?_, ?_⟩
      · intro other
        rw [List.mem_append, List.mem_singleton]
        by_cases isCalled : other = j
        · rw [isCalled]
          exact iff_of_true object (Or.inr rfl)
        · rw [others other isCalled, called other]
          simp [isCalled]
      · rw [List.filter_append, grantedFront]
        rcases outcome with ⟨isGranted, same⟩ | ⟨isRefused, same⟩
        · rw [List.filter_cons_of_pos isGranted, List.filter_nil,
            Option.some.inj (same.symm.trans startEq)]
          exact held'
        · rw [List.filter_cons_of_neg (Bool.eq_false_iff.mp isRefused), List.filter_nil,
            List.append_nil, same]
          exact held

/-! ## Loops -/

/-- All tasks have a frame, and the system is in some state of a loop. -/
structure Looping (hostEmulation : Bool) (status : σ → Fin k → TaskStatus) (holds : σ → Prop)
    (program : MainProgram σ k w) : Prop where
  valid : program.Valid hostEmulation status
  allGranted : ∀ j, program.granted j = true
  held : holds program.system

/-- When all objects are of the host build and have a frame, the loop is one of
the tasks alone, until all of them have ended. -/
theorem Valid.loop_map (valid : program.Valid build.hostEmulation status)
    (host : build.hostEmulation = true) (allGranted : ∀ j, program.granted j = true)
    {body : Step σ α} {inputs : Nat → α} {holds : σ → Prop}
    (kept : ∀ ⦃system next⦄ turn, holds system → body system (inputs turn) = some next →
      holds next ∧ Orderly status none system next)
    (initially : holds program.system) (fuel turn : Nat) :
    (loop build status body inputs fuel turn program).map MainProgram.system =
      doUntil body (fun system => decide (AllFinished status system)) inputs fuel turn
        program.system := by
  have steps : ∀ ⦃state : MainProgram σ k w⦄ turn,
      state.Looping build.hostEmulation status holds →
      ∀ system, body state.system (inputs turn) = some system →
      ∃ next, state.execute build status (fun system => body system (inputs turn)) = some next ∧
        next.system = system ∧ next.Looping build.hostEmulation status holds := by
    rintro state turn ⟨valid, allGranted, held⟩ system bodyEq
    rcases kept turn held bodyEq with ⟨held', orderly⟩
    rcases valid.execute (fun system => body system (inputs turn)) bodyEq orderly with
      ⟨next, executed, same, objects, valid'⟩
    refine ⟨next, executed, same, ⟨valid', ?_, same ▸ held'⟩⟩
    intro j
    rw [granted_congr (congrFun objects j)]
    exact allGranted j
  have looping : program.Looping build.hostEmulation status holds :=
    ⟨valid, allGranted, initially⟩
  apply doUntil_map MainProgram.system _ _ looping
  · intro state turn held
    cases bodyEq : body state.system (inputs turn) with
    | none => simp only [MainProgram.execute, bodyEq, bind, Option.bind_none, Option.map_none]
    | some system =>
        rcases steps turn held system bodyEq with ⟨next, executed, same, _⟩
        rw [executed, Option.map_some, same]
  · intro state next turn held executed
    have bodyEq := (execute_eq_some executed).1
    rcases steps turn held next.system bodyEq with ⟨next', executed', _, held'⟩
    cases Option.some.inj (executed.symm.trans executed')
    refine ⟨held', ?_⟩
    rw [allDone, decide_eq_decide, AllFinished]
    apply forall_congr'
    intro j
    rw [held'.valid.done_iff j]
    simp [host, held'.allGranted j]

/-- An object that cannot report done: it is one of the target build, or its
task was refused a frame. -/
structure NeverDone (hostEmulation : Bool) (j : Fin k) (program : MainProgram σ k w) : Prop where
  life : program.life.Valid hostEmulation
  object : ∀ called, program.objects j = some called → called ∈ program.life.tasks
  never : hostEmulation = false ∨ program.granted j = false

theorem Valid.neverDone {hostEmulation : Bool} (valid : program.Valid hostEmulation status)
    {j : Fin k} (never : hostEmulation = false ∨ program.granted j = false) :
    program.NeverDone hostEmulation j :=
  ⟨valid.life, valid.object j, never⟩

theorem NeverDone.not_allDone {hostEmulation : Bool} {j : Fin k}
    (never : program.NeverDone hostEmulation j) : ¬ program.allDone = true := by
  intro all
  have done : program.done j = true := of_decide_eq_true all j
  rw [MainProgram.done, Option.any_eq_true] at done
  rcases done with ⟨called, object, reports⟩
  rcases (never.life.done_iff (never.object called object)).mp reports with
    ⟨host, coroutine, own, _⟩
  rcases never.never with target | refused
  · rw [host] at target
    contradiction
  · rw [granted, coroutine_eq_some_iff.mpr ⟨called, object, own⟩] at refused
    contradiction

theorem NeverDone.execute {j : Fin k} (never : program.NeverDone build.hostEmulation j)
    {body : σ → Option σ} {next : MainProgram σ k w}
    (executed : program.execute build status body = some next) :
    next.NeverDone build.hostEmulation j := by
  rcases execute_eq_some executed with ⟨_, objects, ran⟩
  refine ⟨(never.life.run ran).1, ?_, ?_⟩
  · intro called object
    rw [objects] at object
    exact (Lifecycle.run_tasks ran).subset (never.object called object)
  · rw [granted_congr (congrFun objects j)]
    exact never.never

/-- With such an object the loop never returns. -/
theorem NeverDone.loop_eq_none {j : Fin k} (never : program.NeverDone build.hostEmulation j)
    (body : Step σ α) (inputs : Nat → α) (fuel turn : Nat) :
    loop build status body inputs fuel turn program = none := by
  apply doUntil_eq_none _ never
  intro state next turn never executed
  have never' := never.execute executed
  exact ⟨never', never'.not_allDone⟩

end MainProgram

end BaremetalCoro
