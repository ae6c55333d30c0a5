import BaremetalCoro.Linked.Chain
import BaremetalCoro.Transition.Core
import Mathlib.Algebra.GroupWithZero.Nat
import Mathlib.Data.Fintype.Basic
import Mathlib.Data.List.FinRange

/-!
# The statically allocated list

`static_list<T, N>` keeps `N` nodes in one buffer and threads two chains
through their `next` and `prev` fields: the elements of the list, and the free
nodes.  A node pointer is `none` for `nullptr` and otherwise an index of the
buffer.  Operations are written statement by statement over the whole object,
so every pointer write of the source is one write here.

The storage of a node is raw until an element is constructed in it, hence
`value` is optional; erasing an element leaves its bytes where they are.
Dereferencing `nullptr`, or reading a value that was never constructed, is the
hardware fault `none`.  Without the guard of an `if`, only `erase`, `front`,
`back` and the iterator's `*` dereference a pointer.
-/

namespace BaremetalCoro

universe u

/-- A pointer to a node of the buffer. -/
abbrev NodePtr (N : Nat) := Option (Fin N)

/-- Basic element of the linked list. -/
structure StaticListNode (T : Type u) (N : Nat) where
  next : NodePtr N
  prev : NodePtr N
  value : Option T
  deriving DecidableEq

/-- Iterator of the linked list; `reverse` selects the direction of `++`. -/
structure StaticListIterator (N : Nat) (reverse : Bool) where
  v_ : NodePtr N
  deriving DecidableEq

/-- Statically allocated doubly linked list. -/
structure StaticList (T : Type u) (N : Nat) where
  buffer_ : Fin N → StaticListNode T N
  free_ : NodePtr N
  first_ : NodePtr N
  last_ : NodePtr N
  deriving DecidableEq

namespace StaticList

variable {T : Type u} {N : Nat}

/-! ## Node fields -/

/-- The `next` field of every node. -/
def next (list : StaticList T N) (node : Fin N) : NodePtr N :=
  (list.buffer_ node).next

/-- The `prev` field of every node. -/
def prev (list : StaticList T N) (node : Fin N) : NodePtr N :=
  (list.buffer_ node).prev

/-- The storage of every node. -/
def value (list : StaticList T N) (node : Fin N) : Option T :=
  (list.buffer_ node).value

/-- `node->next = pointer;` -/
def setNext (list : StaticList T N) (node : Fin N) (pointer : NodePtr N) : StaticList T N :=
  { list with
    buffer_ := Function.update list.buffer_ node { list.buffer_ node with next := pointer } }

/-- `node->prev = pointer;` -/
def setPrev (list : StaticList T N) (node : Fin N) (pointer : NodePtr N) : StaticList T N :=
  { list with
    buffer_ := Function.update list.buffer_ node { list.buffer_ node with prev := pointer } }

/-- Placement construction of an element in a node. -/
def construct (list : StaticList T N) (node : Fin N) (element : T) : StaticList T N :=
  { list with
    buffer_ := Function.update list.buffer_ node
      { list.buffer_ node with value := some element } }

/-- `if (node) { node->next = pointer; }` -/
def setNextIf (list : StaticList T N) : NodePtr N → NodePtr N → StaticList T N
  | none, _ => list
  | some node, pointer => list.setNext node pointer

/-- `if (node) { node->prev = pointer; }` -/
def setPrevIf (list : StaticList T N) : NodePtr N → NodePtr N → StaticList T N
  | none, _ => list
  | some node, pointer => list.setPrev node pointer

@[simp]
theorem setNext_next (list : StaticList T N) (node : Fin N) (pointer : NodePtr N) :
    (list.setNext node pointer).next = Function.update list.next node pointer := by
  funext other
  by_cases equal : other = node
  · subst other
    simp [next, setNext]
  · simp [next, setNext, equal]

@[simp]
theorem setNext_prev (list : StaticList T N) (node : Fin N) (pointer : NodePtr N) :
    (list.setNext node pointer).prev = list.prev := by
  funext other
  by_cases equal : other = node
  · subst other
    simp [prev, setNext]
  · simp [prev, setNext, equal]

@[simp]
theorem setNext_value (list : StaticList T N) (node : Fin N) (pointer : NodePtr N) :
    (list.setNext node pointer).value = list.value := by
  funext other
  by_cases equal : other = node
  · subst other
    simp [value, setNext]
  · simp [value, setNext, equal]

@[simp]
theorem setNext_free_ (list : StaticList T N) (node : Fin N) (pointer : NodePtr N) :
    (list.setNext node pointer).free_ = list.free_ :=
  rfl

@[simp]
theorem setNext_first_ (list : StaticList T N) (node : Fin N) (pointer : NodePtr N) :
    (list.setNext node pointer).first_ = list.first_ :=
  rfl

@[simp]
theorem setNext_last_ (list : StaticList T N) (node : Fin N) (pointer : NodePtr N) :
    (list.setNext node pointer).last_ = list.last_ :=
  rfl

@[simp]
theorem setPrev_next (list : StaticList T N) (node : Fin N) (pointer : NodePtr N) :
    (list.setPrev node pointer).next = list.next := by
  funext other
  by_cases equal : other = node
  · subst other
    simp [next, setPrev]
  · simp [next, setPrev, equal]

@[simp]
theorem setPrev_prev (list : StaticList T N) (node : Fin N) (pointer : NodePtr N) :
    (list.setPrev node pointer).prev = Function.update list.prev node pointer := by
  funext other
  by_cases equal : other = node
  · subst other
    simp [prev, setPrev]
  · simp [prev, setPrev, equal]

@[simp]
theorem setPrev_value (list : StaticList T N) (node : Fin N) (pointer : NodePtr N) :
    (list.setPrev node pointer).value = list.value := by
  funext other
  by_cases equal : other = node
  · subst other
    simp [value, setPrev]
  · simp [value, setPrev, equal]

@[simp]
theorem setPrev_free_ (list : StaticList T N) (node : Fin N) (pointer : NodePtr N) :
    (list.setPrev node pointer).free_ = list.free_ :=
  rfl

@[simp]
theorem setPrev_first_ (list : StaticList T N) (node : Fin N) (pointer : NodePtr N) :
    (list.setPrev node pointer).first_ = list.first_ :=
  rfl

@[simp]
theorem setPrev_last_ (list : StaticList T N) (node : Fin N) (pointer : NodePtr N) :
    (list.setPrev node pointer).last_ = list.last_ :=
  rfl

@[simp]
theorem construct_next (list : StaticList T N) (node : Fin N) (element : T) :
    (list.construct node element).next = list.next := by
  funext other
  by_cases equal : other = node
  · subst other
    simp [next, construct]
  · simp [next, construct, equal]

@[simp]
theorem construct_prev (list : StaticList T N) (node : Fin N) (element : T) :
    (list.construct node element).prev = list.prev := by
  funext other
  by_cases equal : other = node
  · subst other
    simp [prev, construct]
  · simp [prev, construct, equal]

@[simp]
theorem construct_value (list : StaticList T N) (node : Fin N) (element : T) :
    (list.construct node element).value = Function.update list.value node (some element) := by
  funext other
  by_cases equal : other = node
  · subst other
    simp [value, construct]
  · simp [value, construct, equal]

@[simp]
theorem construct_free_ (list : StaticList T N) (node : Fin N) (element : T) :
    (list.construct node element).free_ = list.free_ :=
  rfl

@[simp]
theorem construct_first_ (list : StaticList T N) (node : Fin N) (element : T) :
    (list.construct node element).first_ = list.first_ :=
  rfl

@[simp]
theorem construct_last_ (list : StaticList T N) (node : Fin N) (element : T) :
    (list.construct node element).last_ = list.last_ :=
  rfl

@[simp]
theorem setNextIf_next (list : StaticList T N) (node pointer : NodePtr N) :
    (list.setNextIf node pointer).next = Linked.store list.next node pointer := by
  cases node with
  | none => rfl
  | some node => exact list.setNext_next node pointer

@[simp]
theorem setNextIf_prev (list : StaticList T N) (node pointer : NodePtr N) :
    (list.setNextIf node pointer).prev = list.prev := by
  cases node with
  | none => rfl
  | some node => exact list.setNext_prev node pointer

@[simp]
theorem setNextIf_value (list : StaticList T N) (node pointer : NodePtr N) :
    (list.setNextIf node pointer).value = list.value := by
  cases node with
  | none => rfl
  | some node => exact list.setNext_value node pointer

@[simp]
theorem setNextIf_free_ (list : StaticList T N) (node pointer : NodePtr N) :
    (list.setNextIf node pointer).free_ = list.free_ := by
  cases node <;> rfl

@[simp]
theorem setNextIf_first_ (list : StaticList T N) (node pointer : NodePtr N) :
    (list.setNextIf node pointer).first_ = list.first_ := by
  cases node <;> rfl

@[simp]
theorem setNextIf_last_ (list : StaticList T N) (node pointer : NodePtr N) :
    (list.setNextIf node pointer).last_ = list.last_ := by
  cases node <;> rfl

@[simp]
theorem setPrevIf_next (list : StaticList T N) (node pointer : NodePtr N) :
    (list.setPrevIf node pointer).next = list.next := by
  cases node with
  | none => rfl
  | some node => exact list.setPrev_next node pointer

@[simp]
theorem setPrevIf_prev (list : StaticList T N) (node pointer : NodePtr N) :
    (list.setPrevIf node pointer).prev = Linked.store list.prev node pointer := by
  cases node with
  | none => rfl
  | some node => exact list.setPrev_prev node pointer

@[simp]
theorem setPrevIf_value (list : StaticList T N) (node pointer : NodePtr N) :
    (list.setPrevIf node pointer).value = list.value := by
  cases node with
  | none => rfl
  | some node => exact list.setPrev_value node pointer

@[simp]
theorem setPrevIf_free_ (list : StaticList T N) (node pointer : NodePtr N) :
    (list.setPrevIf node pointer).free_ = list.free_ := by
  cases node <;> rfl

@[simp]
theorem setPrevIf_first_ (list : StaticList T N) (node pointer : NodePtr N) :
    (list.setPrevIf node pointer).first_ = list.first_ := by
  cases node <;> rfl

@[simp]
theorem setPrevIf_last_ (list : StaticList T N) (node pointer : NodePtr N) :
    (list.setPrevIf node pointer).last_ = list.last_ := by
  cases node <;> rfl

/-! ## Construction -/

/-- One iteration of the constructor's loop: `list` and the local `prev`. -/
def linkNode (state : StaticList T N × NodePtr N) (thisNode : Fin N) :
    StaticList T N × NodePtr N :=
  let list := state.1.setPrev thisNode state.2
  let list := list.setNextIf state.2 (some thisNode)
  (list, some thisNode)

/-- The constructor.  `buffer` is whatever the storage held before; the loop
counter and `N` have the same width on the 32 bit target, so the loop visits
every node.  With `N ≥ 1` the local `prev` is a node when the loop ends. -/
def init [NeZero N] (buffer : Fin N → StaticListNode T N) : StaticList T N :=
  let list : StaticList T N :=
    { buffer_ := buffer, free_ := some 0, first_ := none, last_ := none }
  let linked := (List.finRange N).foldl linkNode (list, none)
  linked.1.setNextIf linked.2 none

/-! ## Free nodes -/

/-- Get the next element in the free list. -/
def getFreeElem (list : StaticList T N) : NodePtr N × StaticList T N :=
  match list.free_ with
  | some elem =>
      let list := { list with free_ := list.next elem }
      let list := list.setPrevIf list.free_ none
      (some elem, list)
  | none => (none, list)

/-- Return an element to the free list. -/
def returnFreeElem (list : StaticList T N) (elem : Fin N) : StaticList T N :=
  let list := list.setPrev elem none
  let list := list.setNext elem list.free_
  let list := list.setPrevIf list.free_ (some elem)
  { list with free_ := some elem }

/-! ## Iterators -/

/-- Forward iterator to the start of the list. -/
def begin (list : StaticList T N) : StaticListIterator N false := ⟨list.first_⟩

/-- Forward iterator to the end of the list. -/
def end_ (_ : StaticList T N) : StaticListIterator N false := ⟨none⟩

/-- Reverse iterator to the last element of the list. -/
def rbegin (list : StaticList T N) : StaticListIterator N true := ⟨list.last_⟩

/-- Reverse iterator to the end of the list. -/
def rend (_ : StaticList T N) : StaticListIterator N true := ⟨none⟩

/-- `*i` and `i->`. -/
def deref {reverse : Bool} (list : StaticList T N) (i : StaticListIterator N reverse) :
    Option T :=
  i.v_.bind list.value

/-- `++i`: move to the next element in the list. -/
def increment {reverse : Bool} (list : StaticList T N) (i : StaticListIterator N reverse) :
    StaticListIterator N reverse :=
  match i.v_ with
  | some node => if reverse then ⟨list.prev node⟩ else ⟨list.next node⟩
  | none => i

/-- The loop `for (; i != last; ++i)` collecting `*i`.  It fails when `i` has
not reached `last` after `fuel` iterations. -/
def collect {reverse : Bool} (list : StaticList T N) (last : StaticListIterator N reverse) :
    Nat → StaticListIterator N reverse → Option (List T)
  | 0, i => if i = last then some [] else none
  | fuel + 1, i =>
      if i = last then some []
      else do
        let element ← list.deref i
        let rest ← list.collect last fuel (list.increment i)
        some (element :: rest)

/-! ## Element access -/

/-- The first element in the list. -/
def front (list : StaticList T N) : Option T :=
  list.first_.bind list.value

/-- The last element in the list. -/
def back (list : StaticList T N) : Option T :=
  list.last_.bind list.value

/-- Test for an empty list. -/
def empty (list : StaticList T N) : Bool :=
  list.first_ == none

/-! ## Modifiers -/

/-- Remove the first element in the list, return it to the free list. -/
def popFront (list : StaticList T N) : StaticList T N :=
  match list.first_ with
  | some first =>
      let next := list.next first
      let list := list.setPrevIf next none
      let list := list.returnFreeElem first
      let list := if list.first_ = list.last_ then { list with last_ := next } else list
      { list with first_ := next }
  | none => list

/-- Remove the last element in the list, return it to the free list. -/
def popBack (list : StaticList T N) : StaticList T N :=
  match list.last_ with
  | some last =>
      let prev := list.prev last
      let list := list.setNextIf prev none
      let list := list.returnFreeElem last
      let list := if list.first_ = list.last_ then { list with first_ := prev } else list
      { list with last_ := prev }
  | none => list

/-- Link a constructed node behind the last element. -/
def linkBack (list : StaticList T N) (elem : Fin N) : StaticList T N :=
  let list := list.setPrev elem list.last_
  let list := list.setNext elem none
  let list := list.setNextIf list.last_ (some elem)
  let list := { list with last_ := some elem }
  match list.first_ with
  | none => { list with first_ := some elem }
  | some _ => list

/-- Link a constructed node before the element at a non-null iterator `i`. -/
def linkBefore (list : StaticList T N) (elem i : Fin N) : StaticList T N :=
  let iPrev := list.prev i
  let next : NodePtr N := some i
  let list := list.setPrev elem iPrev
  let list :=
    match iPrev with
    | some node => list.setNext node (some elem)
    | none => { list with first_ := some elem }
  let list := list.setNext elem next
  match next with
  | some node => list.setPrev node (some elem)
  | none => { list with last_ := some elem }

/-- Instantiate an element before the iterator position in the list.  A list
without a free node is left as it is. -/
def emplace (list : StaticList T N) (i : StaticListIterator N false) (element : T) :
    StaticList T N :=
  match list.getFreeElem with
  | (some elem, list) =>
      let list := list.construct elem element
      match i.v_ with
      | none => list.linkBack elem
      | some node => list.linkBefore elem node
  | (none, list) => list

/-- Instantiate an element at the last place in the list. -/
def emplaceBack (list : StaticList T N) (element : T) : StaticList T N :=
  match list.getFreeElem with
  | (some elem, list) =>
      let list := list.construct elem element
      list.linkBack elem
  | (none, list) => list

/-- Erase at iterator position. -/
def erase (list : StaticList T N) (i : StaticListIterator N false) :
    Option (StaticList T N) :=
  i.v_.map fun orgPtr =>
    let orgNext := list.next orgPtr
    let orgPrev := list.prev orgPtr
    let list :=
      match orgPrev with
      | some node => list.setNext node orgNext
      | none => { list with first_ := orgNext }
    let list :=
      match orgNext with
      | some node => list.setPrev node orgPrev
      | none => { list with last_ := orgPrev }
    list.returnFreeElem orgPtr

/-! ## Contents -/

/-- The nodes met from `first_` along `next`. -/
def nodes (list : StaticList T N) : List (Fin N) :=
  Linked.walk list.next N list.first_

/-- The elements of the list in forward order. -/
def toList (list : StaticList T N) : List T :=
  list.nodes.filterMap list.value

/-- The iterator points at an element of the list. -/
def Live (list : StaticList T N) (i : StaticListIterator N false) : Prop :=
  ∃ node ∈ list.nodes, i.v_ = some node

instance (list : StaticList T N) (i : StaticListIterator N false) : Decidable (list.Live i) :=
  inferInstanceAs (Decidable (∃ node ∈ list.nodes, i.v_ = some node))

/-! ## Histories of operations -/

/-- One call of a modifier. -/
inductive Op (T : Type u) (N : Nat) where
  | emplace (i : StaticListIterator N false) (element : T)
  | emplaceBack (element : T)
  | erase (i : StaticListIterator N false)
  | popFront
  | popBack

/-- The calls a user may make: iterators are `end()` or point at an element,
and `end()` is not erased. -/
def Op.Allowed (list : StaticList T N) : Op T N → Prop
  | .emplace i _ => i = list.end_ ∨ list.Live i
  | .erase i => list.Live i
  | .emplaceBack _ | .popFront | .popBack => True

instance (list : StaticList T N) : (op : Op T N) → Decidable (op.Allowed list)
  | .emplace i _ => inferInstanceAs (Decidable (i = list.end_ ∨ list.Live i))
  | .erase i => inferInstanceAs (Decidable (list.Live i))
  | .emplaceBack _ => isTrue trivial
  | .popFront => isTrue trivial
  | .popBack => isTrue trivial

/-- Execute one call. -/
def apply (list : StaticList T N) : Op T N → Option (StaticList T N)
  | .emplace i element => some (list.emplace i element)
  | .emplaceBack element => some (list.emplaceBack element)
  | .erase i => list.erase i
  | .popFront => some list.popFront
  | .popBack => some list.popBack

/-- Execute one call that the user may make. -/
def step : Transition.Step (StaticList T N) (Op T N) := fun list op =>
  if op.Allowed list then list.apply op else none

end StaticList

end BaremetalCoro
