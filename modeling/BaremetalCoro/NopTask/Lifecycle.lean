import BaremetalCoro.NopTask.Promise
import Mathlib.Data.List.GetD

/-!
# The life of a coroutine

A coroutine ends by `return_void` or by `unhandled_exception`, and both set the
flag it shares with its task.  It does not suspend finally, so its frame is
destroyed at once and given to `operator delete`, which ignores it.

Tasks may outlive their coroutines and coroutines their tasks.  What a task
reports is therefore stated over whole runs: it is done exactly when its own
coroutine has ended, however many others were started or ended meanwhile.
-/

namespace BaremetalCoro

open Transition

/-- Set the flag, if there is one. -/
def NopTaskPromise.setDone (promise : NopTaskPromise) (flags : List Bool) : List Bool :=
  match promise.done_ with
  | some flag => flags.set flag true
  | none => flags

/-- The coroutine ran to its end. -/
def NopTaskPromise.returnVoid : NopTaskPromise → List Bool → List Bool :=
  NopTaskPromise.setDone

/-- The coroutine was left by an exception, which is dropped. -/
def NopTaskPromise.unhandledException : NopTaskPromise → List Bool → List Bool :=
  NopTaskPromise.setDone

/-- What the program does with coroutines; they are numbered in the order in
which they started. -/
inductive LifecycleAct (w : Nat) where
  | call (size : SizeT w)
  | returnVoid (coroutine : Nat)
  | unhandledException (coroutine : Nat)
  deriving DecidableEq

/-- A returned task, and the number of its coroutine if that started. -/
structure CalledTask where
  task : NopTask
  coroutine : Option Nat
  deriving DecidableEq

/-- The store, the frames of all coroutines that started, the tasks that calls
returned, and the coroutines that ended. -/
structure Lifecycle (w : Nat) where
  store : TaskStore w
  frames : List (SizeT w)
  tasks : List CalledTask
  ended : List Nat

namespace Lifecycle

variable {w : Nat}

/-- Before the first coroutine call. -/
def init : Lifecycle w :=
  ⟨⟨TaskHeap.init, [], []⟩, [], [], []⟩

/-- A coroutine call. -/
def call (hostEmulation : Bool) (TASK_HEAP_SIZE : SizeT w) (life : Lifecycle w)
    (size : SizeT w) : Lifecycle w :=
  let (task, store) := life.store.callTask hostEmulation TASK_HEAP_SIZE size
  match (life.store.heap.operatorNew TASK_HEAP_SIZE size).1 with
  | some frame =>
      { life with
        store := store
        frames := life.frames ++ [frame]
        tasks := life.tasks ++ [⟨task, some life.frames.length⟩] }
  | none => { life with store := store, tasks := life.tasks ++ [⟨task, none⟩] }

/-- The end of a coroutine that has not ended before: its promise is told, and
its frame is destroyed. -/
def finish (life : Lifecycle w) (coroutine : Nat)
    (tell : NopTaskPromise → List Bool → List Bool) : Option (Lifecycle w) :=
  if coroutine ∈ life.ended then none
  else do
    let promise ← life.store.promises[coroutine]?
    let frame ← life.frames[coroutine]?
    let store := { life.store with
      flags := tell promise life.store.flags
      heap := life.store.heap.operatorDelete (some frame) }
    return { life with store := store, ended := life.ended ++ [coroutine] }

/-- Execute one action. -/
def step (hostEmulation : Bool) (TASK_HEAP_SIZE : SizeT w) :
    Step (Lifecycle w) (LifecycleAct w) := fun life act =>
  match act with
  | .call size => some (life.call hostEmulation TASK_HEAP_SIZE size)
  | .returnVoid coroutine => life.finish coroutine NopTaskPromise.returnVoid
  | .unhandledException coroutine => life.finish coroutine NopTaskPromise.unhandledException

/-- The request for a frame that an action makes. -/
def request : LifecycleAct w → Option (TaskHeap.Call w)
  | .call size => some (.operatorNew size)
  | .returnVoid _ | .unhandledException _ => none

/-! ## One flag for each coroutine -/

/-- The flag of a coroutine. -/
def flagOf (hostEmulation : Bool) (coroutine : Nat) : Option Nat :=
  if hostEmulation then some coroutine else none

/-- Every coroutine has a flag of its own, which tells whether it has ended. -/
structure Valid (hostEmulation : Bool) (life : Lifecycle w) : Prop where
  promises : life.store.promises =
    (List.range life.frames.length).map fun coroutine => ⟨flagOf hostEmulation coroutine⟩
  flags : life.store.flags =
    if hostEmulation then
      (List.range life.frames.length).map fun coroutine => decide (coroutine ∈ life.ended)
    else []
  tasks : ∀ called ∈ life.tasks,
    called.task.done_ = called.coroutine.bind (flagOf hostEmulation) ∧
      ∀ coroutine, called.coroutine = some coroutine → coroutine < life.frames.length
  ended : ∀ coroutine ∈ life.ended, coroutine < life.frames.length

variable {hostEmulation : Bool} {TASK_HEAP_SIZE : SizeT w}

theorem init_valid : (init : Lifecycle w).Valid hostEmulation := by
  constructor
  · rfl
  · cases hostEmulation <;> rfl
  · intro called member
    contradiction
  · intro coroutine member
    contradiction

/-- A call makes a flag for the coroutine it starts, and uses the heap as its
request for a frame does. -/
theorem Valid.call {life : Lifecycle w} (valid : life.Valid hostEmulation)
    (TASK_HEAP_SIZE size : SizeT w) :
    (life.call hostEmulation TASK_HEAP_SIZE size).Valid hostEmulation ∧
      (life.call hostEmulation TASK_HEAP_SIZE size).store.heap =
        (life.store.heap.operatorNew TASK_HEAP_SIZE size).2 := by
  have promises := valid.promises
  have flags := valid.flags
  rw [Lifecycle.call, TaskStore.callTask]
  cases hnew : life.store.heap.operatorNew TASK_HEAP_SIZE size with
  | mk retval heap =>
      cases retval with
      | none =>
          refine ⟨⟨promises, flags, ?_, valid.ended⟩, rfl⟩
          intro called member
          rcases List.mem_append.mp member with before | isLast
          · exact valid.tasks called before
          · rw [List.mem_singleton.mp isLast]
            exact ⟨rfl, fun _ impossible => absurd impossible (Option.some_ne_none _).symm⟩
      | some frame =>
          have fresh : life.frames.length ∉ life.ended := by
            intro member
            exact absurd (valid.ended _ member) (Nat.lt_irrefl _)
          have count : (life.frames ++ [frame]).length = life.frames.length + 1 := by
            rw [List.length_append, List.length_singleton]
          have flagsLength (host : hostEmulation = true) :
              life.store.flags.length = life.frames.length := by
            rw [flags, if_pos host, List.length_map, List.length_range]
          have older : ∀ called ∈ life.tasks, ∀ coroutine, called.coroutine = some coroutine →
              coroutine < (life.frames ++ [frame]).length := by
            intro called member coroutine same
            rw [count]
            exact Nat.lt_succ_of_lt ((valid.tasks called member).2 coroutine same)
          have newest : ∀ coroutine, some life.frames.length = some coroutine →
              coroutine < (life.frames ++ [frame]).length := by
            intro coroutine same
            rw [count, ← Option.some.inj same]
            exact Nat.lt_succ_self _
          have ended : ∀ coroutine ∈ life.ended, coroutine < (life.frames ++ [frame]).length := by
            intro coroutine member
            rw [count]
            exact Nat.lt_succ_of_lt (valid.ended coroutine member)
          cases hostEmulation with
          | false =>
              refine ⟨⟨?_, flags, ?_, ended⟩, rfl⟩
              · change life.store.promises ++ _ = _
                rw [count, List.range_succ, List.map_append, promises]
                rfl
              · intro called member
                rcases List.mem_append.mp member with before | isLast
                · exact ⟨(valid.tasks called before).1, older called before⟩
                · rw [List.mem_singleton.mp isLast]
                  exact ⟨rfl, newest⟩
          | true =>
              refine ⟨⟨?_, ?_, ?_, ended⟩, rfl⟩
              · change life.store.promises ++ [⟨some life.store.flags.length⟩] = _
                rw [count, List.range_succ, List.map_append, promises, flagsLength rfl]
                rfl
              · change life.store.flags ++ [false] = _
                rw [count, List.range_succ, if_pos rfl, List.map_append, flags, if_pos rfl,
                  List.map_singleton, decide_eq_false fresh]
              · intro called member
                rcases List.mem_append.mp member with before | isLast
                · exact ⟨(valid.tasks called before).1, older called before⟩
                · rw [List.mem_singleton.mp isLast]
                  refine ⟨?_, newest⟩
                  change some life.store.flags.length = some life.frames.length
                  rw [flagsLength rfl]

/-- Setting one flag adds one coroutine to those that have ended. -/
theorem set_map_range (ended : List Nat) {coroutine count : Nat} (started : coroutine < count) :
    ((List.range count).map fun other => decide (other ∈ ended)).set coroutine true =
      (List.range count).map fun other => decide (other ∈ ended ++ [coroutine]) := by
  apply List.ext_getElem?
  intro other
  rw [List.getElem?_set, List.getElem?_map, List.length_map, List.length_range]
  by_cases same : coroutine = other
  · subst same
    rw [if_pos rfl, if_pos started, List.getElem?_map, List.getElem?_range started]
    simp
  · rw [if_neg same, List.getElem?_map]
    rcases Nat.lt_or_ge other count with inside | outside
    · rw [List.getElem?_range inside]
      simp [Ne.symm same]
    · rw [List.getElem?_eq_none (by simpa using outside)]
      rfl

/-- The end of a coroutine sets its flag and leaves the heap alone. -/
theorem Valid.finish {life next : Lifecycle w} (valid : life.Valid hostEmulation)
    {coroutine : Nat} (finished : life.finish coroutine NopTaskPromise.setDone = some next) :
    next.Valid hostEmulation ∧ next.store.heap = life.store.heap := by
  rw [Lifecycle.finish] at finished
  split at finished
  · contradiction
  · rcases Option.bind_eq_some_iff.mp finished with ⟨promise, promiseEq, finished⟩
    rcases Option.bind_eq_some_iff.mp finished with ⟨frame, frameEq, finished⟩
    have started : coroutine < life.frames.length := (List.getElem?_eq_some_iff.mp frameEq).1
    have own : promise.done_ = flagOf hostEmulation coroutine := by
      rw [valid.promises, List.getElem?_map, List.getElem?_range started] at promiseEq
      rw [← Option.some.inj promiseEq]
    cases Option.some.inj finished
    refine ⟨⟨valid.promises, ?_, valid.tasks, ?_⟩, rfl⟩
    · change promise.setDone life.store.flags = _
      rw [NopTaskPromise.setDone, own, valid.flags]
      cases hostEmulation with
      | false => rfl
      | true =>
          exact set_map_range life.ended started
    · intro other member
      rcases List.mem_append.mp member with before | isLast
      · exact valid.ended other before
      · rw [List.mem_singleton.mp isLast]
        exact started

theorem Valid.step {life next : Lifecycle w} {act : LifecycleAct w}
    (valid : life.Valid hostEmulation)
    (stepped : Lifecycle.step hostEmulation TASK_HEAP_SIZE life act = some next) :
    next.Valid hostEmulation ∧
      run (TaskHeap.step TASK_HEAP_SIZE) life.store.heap (request act).toList =
        some next.store.heap := by
  cases act with
  | call size =>
      cases Option.some.inj stepped
      rcases valid.call TASK_HEAP_SIZE size with ⟨valid', heap⟩
      refine ⟨valid', ?_⟩
      rw [heap]
      rfl
  | returnVoid coroutine =>
      rcases valid.finish stepped with ⟨valid', heap⟩
      refine ⟨valid', ?_⟩
      rw [heap]
      rfl
  | unhandledException coroutine =>
      rcases valid.finish stepped with ⟨valid', heap⟩
      refine ⟨valid', ?_⟩
      rw [heap]
      rfl

theorem Valid.run {life target : Lifecycle w} {acts : List (LifecycleAct w)}
    (valid : life.Valid hostEmulation)
    (ran : Transition.run (Lifecycle.step hostEmulation TASK_HEAP_SIZE) life acts = some target) :
    target.Valid hostEmulation ∧
      Transition.run (TaskHeap.step TASK_HEAP_SIZE) life.store.heap (acts.filterMap request) =
        some target.store.heap := by
  induction acts generalizing life with
  | nil =>
      cases ran
      exact ⟨valid, rfl⟩
  | cons act rest ih =>
      rcases (run_cons_eq_some_iff _ life target act rest).mp ran with ⟨middle, stepped, remaining⟩
      rcases valid.step stepped with ⟨valid', heap⟩
      rcases ih valid' remaining with ⟨validTarget, heap'⟩
      refine ⟨validTarget, ?_⟩
      have requests : (act :: rest).filterMap request =
          (request act).toList ++ rest.filterMap request := by
        cases act <;> rfl
      rw [requests]
      exact run_append_of_run heap heap'

theorem valid_of_reachable {life : Lifecycle w}
    (reachable : Reachable (step hostEmulation TASK_HEAP_SIZE) init life) :
    life.Valid hostEmulation := by
  rcases reachable with ⟨acts, ran⟩
  exact (init_valid.run ran).1

/-- A task whose flag is that of its coroutine. -/
theorem Valid.done_iff {life : Lifecycle w} (valid : life.Valid hostEmulation)
    {called : CalledTask} (member : called ∈ life.tasks) :
    called.task.done life.store.flags = true ↔
      hostEmulation = true ∧ ∃ coroutine, called.coroutine = some coroutine ∧
        coroutine ∈ life.ended := by
  rcases valid.tasks called member with ⟨own, started⟩
  rw [NopTask.done, own]
  cases hcoroutine : called.coroutine with
  | none => simp
  | some coroutine =>
      have bound := started coroutine hcoroutine
      cases hostEmulation with
      | false => simp [flagOf]
      | true =>
          simp only [Option.bind_some, flagOf, if_true, true_and, Option.some.injEq,
            exists_eq_left', valid.flags]
          rw [List.getD_eq_getElem?_getD, List.getElem?_map, List.getElem?_range bound]
          simp

/-! ## Several ends -/

/-- A call returns one more task, and starts the next coroutine if its request
for a frame is granted. -/
theorem call_tasks (hostEmulation : Bool) (TASK_HEAP_SIZE : SizeT w) (life : Lifecycle w)
    (size : SizeT w) :
    ∃ called, (life.call hostEmulation TASK_HEAP_SIZE size).tasks = life.tasks ++ [called] ∧
      (life.call hostEmulation TASK_HEAP_SIZE size).ended = life.ended ∧
      called.coroutine = (life.store.heap.operatorNew TASK_HEAP_SIZE size).1.map
        (fun _ => life.frames.length) ∧
      (life.call hostEmulation TASK_HEAP_SIZE size).frames =
        life.frames ++ (life.store.heap.operatorNew TASK_HEAP_SIZE size).1.toList := by
  rw [Lifecycle.call]
  cases (life.store.heap.operatorNew TASK_HEAP_SIZE size).1 with
  | none => exact ⟨_, rfl, rfl, rfl, (List.append_nil _).symm⟩
  | some frame => exact ⟨_, rfl, rfl, rfl, rfl⟩

/-- The end of a coroutine returns no task. -/
theorem finish_tasks {life next : Lifecycle w} {coroutine : Nat}
    {tell : NopTaskPromise → List Bool → List Bool}
    (finished : life.finish coroutine tell = some next) : next.tasks = life.tasks := by
  rw [Lifecycle.finish] at finished
  split at finished
  · contradiction
  · rcases Option.bind_eq_some_iff.mp finished with ⟨promise, _, finished⟩
    rcases Option.bind_eq_some_iff.mp finished with ⟨frame, _, finished⟩
    cases Option.some.inj finished
    rfl

/-- No task is ever lost. -/
theorem run_tasks {life target : Lifecycle w} {acts : List (LifecycleAct w)}
    (ran : Transition.run (step hostEmulation TASK_HEAP_SIZE) life acts = some target) :
    life.tasks <+: target.tasks := by
  have kept : ∀ ⦃before : Lifecycle w⦄ ⦃act after⦄, life.tasks <+: before.tasks →
      step hostEmulation TASK_HEAP_SIZE before act = some after → life.tasks <+: after.tasks := by
    intro before act after older stepped
    cases act with
    | call size =>
        cases Option.some.inj stepped
        rcases call_tasks hostEmulation TASK_HEAP_SIZE before size with ⟨called, tasks, _⟩
        rw [tasks]
        exact older.trans (List.prefix_append _ _)
    | returnVoid coroutine =>
        rw [finish_tasks stepped]
        exact older
    | unhandledException coroutine =>
        rw [finish_tasks stepped]
        exact older
  exact run_invariant kept (List.prefix_rfl) ran

/-- A coroutine that was started and has not ended can end. -/
theorem Valid.exists_finish {life : Lifecycle w} (valid : life.Valid hostEmulation)
    {coroutine : Nat} (started : coroutine < life.frames.length)
    (running : coroutine ∉ life.ended) (tell : NopTaskPromise → List Bool → List Bool) :
    ∃ next, life.finish coroutine tell = some next ∧ next.ended = life.ended ++ [coroutine] ∧
      next.tasks = life.tasks ∧ next.frames = life.frames := by
  have promise : life.store.promises[coroutine]? = some ⟨flagOf hostEmulation coroutine⟩ := by
    rw [valid.promises, List.getElem?_map, List.getElem?_range started]
    rfl
  have finished : life.finish coroutine tell = some { life with
      store := { life.store with
        flags := tell ⟨flagOf hostEmulation coroutine⟩ life.store.flags }
      ended := life.ended ++ [coroutine] } := by
    rw [Lifecycle.finish, if_neg running, promise, List.getElem?_eq_getElem started]
    rfl
  exact ⟨_, finished, rfl, rfl, rfl⟩

/-- Coroutines that were started and have not ended can end one after the
other. -/
theorem Valid.run_returnVoid {life : Lifecycle w} (valid : life.Valid hostEmulation)
    (TASK_HEAP_SIZE : SizeT w) {coroutines : List Nat} (nodup : coroutines.Nodup)
    (running : ∀ coroutine ∈ coroutines,
      coroutine < life.frames.length ∧ coroutine ∉ life.ended) :
    ∃ next, Transition.run (Lifecycle.step hostEmulation TASK_HEAP_SIZE) life
        (coroutines.map .returnVoid) = some next ∧
      next.Valid hostEmulation ∧ next.ended = life.ended ++ coroutines ∧
      next.tasks = life.tasks := by
  induction coroutines generalizing life with
  | nil => exact ⟨life, rfl, valid, (List.append_nil _).symm, rfl⟩
  | cons coroutine rest ih =>
      rcases List.nodup_cons.mp nodup with ⟨notAgain, nodupRest⟩
      rcases running coroutine List.mem_cons_self with ⟨started, notEnded⟩
      rcases valid.exists_finish started notEnded NopTaskPromise.returnVoid with
        ⟨middle, finished, ended, tasks, frames⟩
      have stepped : Lifecycle.step hostEmulation TASK_HEAP_SIZE life (.returnVoid coroutine) =
          some middle := finished
      have runningRest : ∀ other ∈ rest,
          other < middle.frames.length ∧ other ∉ middle.ended := by
        intro other member
        rcases running other (List.mem_cons_of_mem coroutine member) with ⟨otherStarted, notYet⟩
        rw [frames, ended]
        refine ⟨otherStarted, ?_⟩
        intro inEnded
        rcases List.mem_append.mp inEnded with before | isLast
        · exact notYet before
        · rw [List.mem_singleton.mp isLast] at member
          exact notAgain member
      rcases ih (valid.step stepped).1 nodupRest runningRest with
        ⟨next, ran, valid', ended', tasks'⟩
      refine ⟨next, run_cons_of_step stepped ran, valid', ?_, tasks'.trans tasks⟩
      rw [ended', ended, List.append_assoc]
      rfl

/-! ## Whole runs -/

/-- Over every run, a task of the host build reports done exactly when its own
coroutine has ended, and a task of the target never does.  The heap is what the
calls alone make of it: a coroutine that ends makes no room. -/
theorem task_done_iff {acts : List (LifecycleAct w)} {life : Lifecycle w}
    (ran : Transition.run (Lifecycle.step hostEmulation TASK_HEAP_SIZE) init acts = some life) :
    (∀ called ∈ life.tasks, called.task.done life.store.flags = true ↔
      hostEmulation = true ∧ ∃ coroutine, called.coroutine = some coroutine ∧
        coroutine ∈ life.ended) ∧
    Transition.run (TaskHeap.step TASK_HEAP_SIZE) TaskHeap.init (acts.filterMap request) =
      some life.store.heap := by
  rcases init_valid.run ran with ⟨valid, heap⟩
  constructor
  · intro called member
    exact valid.done_iff member
  · exact heap

/-- Two coroutines are started, the second one ends, and a third one finds no
room. -/
def secondEnds : List (LifecycleAct 32) :=
  [.call 200#32, .call 200#32, .returnVoid 1, .call 200#32]

theorem task_done_iff_secondEnds :
    ∃ life : Lifecycle 32, Transition.run (step true 512#32) init secondEnds = some life ∧
      (life.tasks.map fun called => called.task.done life.store.flags) = [false, true, false] ∧
      Transition.run (TaskHeap.step 512#32) TaskHeap.init (secondEnds.filterMap request) =
        some life.store.heap := by
  have ran : (Transition.run (step true 512#32) init secondEnds).isSome = true := by decide
  rcases Option.isSome_iff_exists.mp ran with ⟨life, ran⟩
  have observed : (Transition.run (step true 512#32) init secondEnds).map (fun life =>
      life.tasks.map fun called => called.task.done life.store.flags) =
        some [false, true, false] := by decide
  rw [ran] at observed
  exact ⟨life, ran, Option.some.inj observed, (task_done_iff ran).2⟩

end Lifecycle

end BaremetalCoro
