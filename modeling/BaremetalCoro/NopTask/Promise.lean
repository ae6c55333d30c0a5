import BaremetalCoro.Arena.Blocks
import BaremetalCoro.Transition.Core

/-!
# Tasks and their promise

`nop_task_promise_type` allocates coroutine frames in a static array from which
nothing is ever given back, and hands out a `nop_task` for each coroutine.  A
pointer into `task_heap_` is its offset, and `std::size_t` is a word of any
width; the bytes of the array belong to the coroutines and are not modelled.

The flag that a task shares with its promise exists in the host build only, so
`done_` is the position of the flag, or null.  A coroutine call allocates its
frame first: when `operator new` returns `nullptr`, the call returns the object
of `get_return_object_on_allocation_failure` and the body does not start.
-/

namespace BaremetalCoro

open Transition

/-- `std::size_t` on a target with words of `w` bits. -/
abbrev SizeT (w : Nat) := BitVec w

/-- The task that a coroutine call returns. -/
structure NopTask where
  done_ : Option Nat
  deriving DecidableEq

/-- The promise of a coroutine that has started. -/
structure NopTaskPromise where
  done_ : Option Nat
  deriving DecidableEq

/-- Whether the coroutine has returned, as its flag says; `flags` are the
shared flags. -/
def NopTask.done (task : NopTask) (flags : List Bool) : Bool :=
  match task.done_ with
  | some flag => flags.getD flag false
  | none => false

/-- The static members of the promise type. -/
structure TaskHeap (w : Nat) where
  task_heap_index_ : SizeT w
  deriving DecidableEq

namespace TaskHeap

variable {w : Nat}

/-- Before the first coroutine call. -/
def init : TaskHeap w := ⟨0⟩

/-- Allocate the next region in the task heap, or return `nullptr`. -/
def operatorNew (TASK_HEAP_SIZE : SizeT w) (heap : TaskHeap w) (size : SizeT w) :
    Option (SizeT w) × TaskHeap w :=
  if heap.task_heap_index_ + size < TASK_HEAP_SIZE then
    let retval := heap.task_heap_index_
    (some retval, { heap with task_heap_index_ := heap.task_heap_index_ + size })
  else
    (none, heap)

/-- Nothing is given back. -/
def operatorDelete (heap : TaskHeap w) (_ptr : Option (SizeT w)) : TaskHeap w := heap

/-- One call of an allocation function. -/
inductive Call (w : Nat) where
  | operatorNew (size : SizeT w)
  | operatorDelete (ptr : Option (SizeT w))
  deriving DecidableEq

/-- Execute one call. -/
def step (TASK_HEAP_SIZE : SizeT w) : Step (TaskHeap w) (Call w) := fun heap call =>
  match call with
  | .operatorNew size => some (operatorNew TASK_HEAP_SIZE heap size).2
  | .operatorDelete ptr => some (operatorDelete heap ptr)

/-- The block that a call returns. -/
def grant (TASK_HEAP_SIZE : SizeT w) (heap : TaskHeap w) : Call w → Option Arena.Block
  | .operatorNew size =>
      (operatorNew TASK_HEAP_SIZE heap size).1.map fun retval => ⟨retval.toNat, size.toNat⟩
  | .operatorDelete _ => none

/-- The blocks returned over a whole run, in the order of the calls. -/
def blocks (TASK_HEAP_SIZE : SizeT w) (heap : TaskHeap w) (calls : List (Call w)) :
    List Arena.Block :=
  (labels (step TASK_HEAP_SIZE) (grant TASK_HEAP_SIZE) heap calls).filterMap id

/-- The size of a requested frame. -/
def Call.size? : Call w → Option Nat
  | .operatorNew size => some size.toNat
  | .operatorDelete _ => none

/-- The sizes of all frames requested in a run. -/
def requests (calls : List (Call w)) : List Nat :=
  calls.filterMap Call.size?

end TaskHeap

/-- The static heap, the shared flags, and the coroutines that were started. -/
structure TaskStore (w : Nat) where
  heap : TaskHeap w
  flags : List Bool
  promises : List NopTaskPromise

namespace TaskStore

variable {w : Nat}

/-- `get_return_object`: the host build makes a fresh flag for the task and its
promise. -/
def getReturnObject (hostEmulation : Bool) (flags : List Bool) :
    NopTaskPromise × NopTask × List Bool :=
  if hostEmulation then
    (⟨some flags.length⟩, ⟨some flags.length⟩, flags ++ [false])
  else
    (⟨none⟩, ⟨none⟩, flags)

/-- The task of a coroutine that has no frame. -/
def getReturnObjectOnAllocationFailure : NopTask := ⟨none⟩

/-- Call a coroutine whose frame has `size` bytes. -/
def callTask (hostEmulation : Bool) (TASK_HEAP_SIZE : SizeT w) (store : TaskStore w)
    (size : SizeT w) : NopTask × TaskStore w :=
  match store.heap.operatorNew TASK_HEAP_SIZE size with
  | (none, heap) => (getReturnObjectOnAllocationFailure, { store with heap := heap })
  | (some _, heap) =>
      let (promise, task, flags) := getReturnObject hostEmulation store.flags
      (task, { heap := heap, flags := flags, promises := store.promises ++ [promise] })

end TaskStore

end BaremetalCoro
