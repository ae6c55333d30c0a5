import BaremetalCoro.StaticList.Core

/-!
# The representation of a static list

`Threads` is the state of the two chains while an operation is under way: the
elements, the nodes held by the operation itself, and the free nodes share out
the buffer.  `Represents` is the state between operations: nothing is held and
`first_` and `last_` are the ends of the element chain.  Each operation has
one lemma that says which nodes and elements it leaves.
-/

namespace BaremetalCoro.StaticList

open Linked

universe u

variable {T : Type u} {N : Nat}

/-- The chain `active` holds `elements`, the chain `free` starts at `free_`,
and together with the nodes in `held` they are all nodes of the buffer. -/
structure Threads (list : StaticList T N) (active held free : List (Fin N))
    (elements : List T) : Prop where
  activeChain : Chained list.next list.prev none active none
  freeChain : Chained list.next list.prev none free none
  freeHead : list.free_ = free.head?
  covers : (active ++ (held ++ free)).Perm (List.finRange N)
  values : active.map list.value = elements.map some

/-- A list between two operations. -/
structure Represents (list : StaticList T N) (active free : List (Fin N))
    (elements : List T) : Prop extends Threads list active [] free elements where
  first : list.first_ = active.head?
  last : list.last_ = active.getLast?

namespace Threads

variable {list : StaticList T N} {active held free : List (Fin N)} {elements : List T}

theorem nodup (threads : list.Threads active held free elements) :
    (active ++ (held ++ free)).Nodup :=
  threads.covers.nodup_iff.mpr (List.nodup_finRange N)

theorem active_nodup (threads : list.Threads active held free elements) : active.Nodup :=
  (List.nodup_append'.mp threads.nodup).1

theorem free_nodup (threads : list.Threads active held free elements) : free.Nodup :=
  (List.nodup_append'.mp (List.nodup_append'.mp threads.nodup).2.1).2.1

theorem active_disjoint (threads : list.Threads active held free elements) :
    active.Disjoint (held ++ free) :=
  (List.nodup_append'.mp threads.nodup).2.2

theorem active_free_disjoint (threads : list.Threads active held free elements) :
    active.Disjoint free := by
  intro node inActive inFree
  exact threads.active_disjoint inActive (List.mem_append_right held inFree)

theorem active_held_disjoint (threads : list.Threads active held free elements) :
    active.Disjoint held := by
  intro node inActive inHeld
  exact threads.active_disjoint inActive (List.mem_append_left free inHeld)

theorem held_free_disjoint (threads : list.Threads active held free elements) :
    held.Disjoint free :=
  (List.nodup_append'.mp (List.nodup_append'.mp threads.nodup).2.1).2.2

theorem length_eq (threads : list.Threads active held free elements) :
    active.length + (held.length + free.length) = N := by
  simpa using threads.covers.length_eq

theorem elements_length (threads : list.Threads active held free elements) :
    elements.length = active.length := by
  simpa using (congrArg List.length threads.values).symm

/-- The `prev` link of an element points at the one in front of it. -/
theorem prev_eq {front back : List (Fin N)} {node : Fin N}
    (threads : list.Threads (front ++ node :: back) held free elements) :
    list.prev node = front.getLast? := by
  simpa using (chained_append.mp threads.activeChain).2.1

/-- The `next` link of an element points at the one behind it. -/
theorem next_eq {front back : List (Fin N)} {node : Fin N}
    (threads : list.Threads (front ++ node :: back) held free elements) :
    list.next node = back.head? := by
  simpa using (chained_append.mp threads.activeChain).2.2.1

/-! ## Moving one node between the chains -/

/-- Writes at the ends of parts of the element chain are not seen by the free
chain. -/
theorem freeChain_of_store (threads : list.Threads active held free elements)
    (front back : List (Fin N)) (frontActive : front ⊆ active) (backActive : back ⊆ active)
    {next' prev' : Fin N → NodePtr N} {nextValue prevValue : NodePtr N}
    (sameNext : ∀ other ∈ free,
      next' other = store list.next front.getLast? nextValue other)
    (samePrev : ∀ other ∈ free,
      prev' other = store list.prev back.head? prevValue other) :
    Chained next' prev' none free none := by
  apply threads.freeChain.congr
  · intro other member
    rw [sameNext other member]
    apply store_getLast?_of_mem _ member
    exact fun node inFront => threads.active_free_disjoint (frontActive inFront)
  · intro other member
    rw [samePrev other member]
    apply store_head?_of_mem _ member
    exact fun node inBack => threads.active_free_disjoint (backActive inBack)

/-- Unlinking `node` from the element chain leaves it held. -/
theorem unlink {list' : StaticList T N} {front back : List (Fin N)} {node : Fin N}
    {frontElements backElements : List T} {element : T}
    (threads : list.Threads (front ++ node :: back) [] free
      (frontElements ++ element :: backElements))
    (aligned : frontElements.length = front.length)
    (nextEq : list'.next = store list.next front.getLast? back.head?)
    (prevEq : list'.prev = store list.prev back.head? front.getLast?)
    (valueEq : list'.value = list.value) (freeEq : list'.free_ = list.free_) :
    list'.Threads (front ++ back) [node] free (frontElements ++ backElements) := by
  have rest : (front ++ back).Nodup :=
    threads.active_nodup.sublist (List.Sublist.append_left (List.sublist_cons_self node back) front)
  constructor
  · apply threads.activeChain.remove rest
    · intro other _
      rw [nextEq, Option.or_none]
    · intro other _
      rw [prevEq, Option.or_none]
  · apply threads.freeChain_of_store front back
    · exact List.subset_append_left front (node :: back)
    · exact fun other member => List.mem_append_right front (List.mem_cons_of_mem node member)
    · intro other _
      rw [nextEq]
    · intro other _
      rw [prevEq]
  · rw [freeEq, threads.freeHead]
  · have covers := threads.covers
    simp only [List.append_assoc, List.cons_append, List.nil_append] at covers ⊢
    apply List.Perm.trans _ covers
    exact List.Perm.append_left front List.perm_middle
  · have values := threads.values
    rw [List.map_append, List.map_append, List.map_cons, List.map_cons] at values
    have sameLength : (front.map list.value).length = (frontElements.map some).length := by
      simp [aligned]
    obtain ⟨frontEq, backEq⟩ := List.append_inj values sameLength
    rw [valueEq, List.map_append, List.map_append, frontEq, (List.cons_eq_cons.mp backEq).2]

/-- Linking the held node into the element chain. -/
theorem link {list' : StaticList T N} {front back : List (Fin N)} {node : Fin N}
    {frontElements backElements : List T} {element : T}
    (threads : list.Threads (front ++ back) [node] free (frontElements ++ backElements))
    (aligned : frontElements.length = front.length)
    (constructed : list.value node = some element)
    (nodeNext : list'.next node = back.head?)
    (nodePrev : list'.prev node = front.getLast?)
    (nextEq : ∀ other, other ≠ node →
      list'.next other = store list.next front.getLast? (some node) other)
    (prevEq : ∀ other, other ≠ node →
      list'.prev other = store list.prev back.head? (some node) other)
    (valueEq : list'.value = list.value) (freeEq : list'.free_ = list.free_) :
    list'.Threads (front ++ node :: back) [] free
      (frontElements ++ element :: backElements) := by
  have activeOther : ∀ other ∈ front ++ back, other ≠ node := by
    rintro other member rfl
    exact threads.active_held_disjoint member List.mem_cons_self
  have freeOther : ∀ other ∈ free, other ≠ node := by
    rintro other member rfl
    exact threads.held_free_disjoint List.mem_cons_self member
  constructor
  · apply threads.activeChain.insert threads.active_nodup
    · rw [nodeNext, Option.or_none]
    · rw [nodePrev, Option.or_none]
    · intro other member
      exact nextEq other (activeOther other member)
    · intro other member
      exact prevEq other (activeOther other member)
  · apply threads.freeChain_of_store front back
    · exact List.subset_append_left front back
    · exact List.subset_append_right front back
    · intro other member
      exact nextEq other (freeOther other member)
    · intro other member
      exact prevEq other (freeOther other member)
  · rw [freeEq, threads.freeHead]
  · have covers := threads.covers
    simp only [List.append_assoc, List.cons_append, List.nil_append] at covers ⊢
    apply List.Perm.trans _ covers
    exact List.Perm.append_left front List.perm_middle.symm
  · have values := threads.values
    rw [List.map_append, List.map_append] at values
    have sameLength : (front.map list.value).length = (frontElements.map some).length := by
      simp [aligned]
    obtain ⟨frontEq, backEq⟩ := List.append_inj values sameLength
    rw [valueEq, List.map_append, List.map_append, List.map_cons, List.map_cons, frontEq, backEq,
      constructed]

end Threads

/-! ## Free nodes -/

@[simp]
theorem returnFreeElem_next (list : StaticList T N) (elem : Fin N) :
    (list.returnFreeElem elem).next = Function.update list.next elem list.free_ := by
  change (((list.setPrev elem none).setNext elem list.free_).setPrevIf _ _).next = _
  simp

@[simp]
theorem returnFreeElem_prev (list : StaticList T N) (elem : Fin N) :
    (list.returnFreeElem elem).prev =
      store (Function.update list.prev elem none) list.free_ (some elem) := by
  change (((list.setPrev elem none).setNext elem list.free_).setPrevIf list.free_ _).prev = _
  simp

@[simp]
theorem returnFreeElem_value (list : StaticList T N) (elem : Fin N) :
    (list.returnFreeElem elem).value = list.value := by
  change (((list.setPrev elem none).setNext elem list.free_).setPrevIf _ _).value = _
  simp

@[simp]
theorem returnFreeElem_free_ (list : StaticList T N) (elem : Fin N) :
    (list.returnFreeElem elem).free_ = some elem :=
  rfl

@[simp]
theorem returnFreeElem_first_ (list : StaticList T N) (elem : Fin N) :
    (list.returnFreeElem elem).first_ = list.first_ := by
  simp [returnFreeElem]

@[simp]
theorem returnFreeElem_last_ (list : StaticList T N) (elem : Fin N) :
    (list.returnFreeElem elem).last_ = list.last_ := by
  simp [returnFreeElem]

/-- A held node becomes the first free node. -/
theorem Threads.returnFreeElem {list : StaticList T N} {active free : List (Fin N)}
    {elements : List T} {elem : Fin N} (threads : list.Threads active [elem] free elements) :
    (list.returnFreeElem elem).Threads active [] (elem :: free) elements := by
  have activeOther : ∀ other ∈ active, other ≠ elem := by
    rintro other member rfl
    exact threads.active_held_disjoint member List.mem_cons_self
  have freeOther : ∀ other ∈ free, other ≠ elem := by
    rintro other member rfl
    exact threads.held_free_disjoint List.mem_cons_self member
  have freeDisjoint : free.Disjoint active := List.disjoint_symm threads.active_free_disjoint
  constructor
  · apply threads.activeChain.congr
    · intro other member
      rw [returnFreeElem_next, Function.update_of_ne (activeOther other member)]
    · intro other member
      rw [returnFreeElem_prev, threads.freeHead, store_head?_of_mem freeDisjoint member,
        Function.update_of_ne (activeOther other member)]
  · have whole : Chained list.next list.prev none ([] ++ free) none := threads.freeChain
    apply whole.insert threads.free_nodup
    · rw [returnFreeElem_next, Function.update_self, threads.freeHead, Option.or_none]
    · have headOther : list.free_ ≠ some elem := by
        intro equal
        exact freeOther elem (List.mem_of_mem_head? (threads.freeHead ▸ equal)) rfl
      rw [returnFreeElem_prev, store_of_ne headOther, Function.update_self]
      rfl
    · intro other member
      rw [returnFreeElem_next, Function.update_of_ne (freeOther other member)]
      rfl
    · intro other member
      rw [returnFreeElem_prev, threads.freeHead]
      by_cases atHead : free.head? = some other
      · rw [atHead, store_some, store_some, Function.update_self, Function.update_self]
      · rw [store_of_ne atHead, store_of_ne atHead,
          Function.update_of_ne (freeOther other member)]
  · rfl
  · exact threads.covers
  · rw [returnFreeElem_value]
    exact threads.values

/-- Without a free node nothing is handed out. -/
theorem getFreeElem_of_free_nil {list : StaticList T N} {active : List (Fin N)}
    {elements : List T} (represents : list.Represents active [] elements) :
    list.getFreeElem = (none, list) := by
  rw [getFreeElem, represents.freeHead]
  rfl

/-- The first free node is handed out and held by the caller. -/
theorem Represents.getFreeElem {list : StaticList T N} {active free : List (Fin N)}
    {elements : List T} {elem : Fin N}
    (represents : list.Represents active (elem :: free) elements) :
    ∃ list' : StaticList T N, list.getFreeElem = (some elem, list') ∧
      list'.Threads active [elem] free elements ∧
      list'.first_ = list.first_ ∧ list'.last_ = list.last_ := by
  have nextEq : list.next elem = free.head? := by
    simpa using represents.freeChain.2.1
  refine ⟨({ list with free_ := list.next elem } : StaticList T N).setPrevIf (list.next elem) none,
    ?_, ?_, ?_, ?_⟩
  · rw [StaticList.getFreeElem, represents.freeHead]
    rfl
  · have disjoint : free.Disjoint active := by
      intro node inFree inActive
      exact represents.active_free_disjoint inActive (List.mem_cons_of_mem elem inFree)
    have freeNodup : free.Nodup := (List.nodup_cons.mp represents.free_nodup).2
    constructor
    · apply represents.activeChain.congr
      · intro other _
        rw [setPrevIf_next]
        rfl
      · intro other member
        rw [setPrevIf_prev, nextEq, store_head?_of_mem disjoint member]
        rfl
    · rw [setPrevIf_next, setPrevIf_prev, nextEq]
      exact represents.freeChain.2.2.store_prev freeNodup none
    · rw [setPrevIf_free_]
      exact nextEq
    · exact represents.covers
    · rw [setPrevIf_value]
      exact represents.values
  · rw [setPrevIf_first_]
  · rw [setPrevIf_last_]

/-! ## Insertion -/

/-- Constructing an element in a held node touches neither chain. -/
theorem Threads.construct {list : StaticList T N} {active free : List (Fin N)}
    {elements : List T} {elem : Fin N} (threads : list.Threads active [elem] free elements)
    (element : T) : (list.construct elem element).Threads active [elem] free elements := by
  constructor
  · rw [construct_next, construct_prev]
    exact threads.activeChain
  · rw [construct_next, construct_prev]
    exact threads.freeChain
  · rw [construct_free_]
    exact threads.freeHead
  · exact threads.covers
  · rw [construct_value, ← threads.values]
    apply List.map_congr_left
    intro other member
    apply Function.update_of_ne
    rintro rfl
    exact threads.active_held_disjoint member List.mem_cons_self

/-- `linkBack` writes the links of the new node and of the last element, then
the two ends. -/
theorem linkBack_eq (list : StaticList T N) (elem : Fin N) :
    list.linkBack elem =
      { ((list.setPrev elem list.last_).setNext elem none).setNextIf list.last_ (some elem) with
        first_ := list.first_.or (some elem)
        last_ := some elem } := by
  unfold linkBack
  cases hfirst : list.first_ <;> simp [hfirst]

theorem linkBack_next (list : StaticList T N) (elem : Fin N) :
    (list.linkBack elem).next =
      store (Function.update list.next elem none) list.last_ (some elem) := by
  rw [linkBack_eq]
  exact (setNextIf_next _ _ _).trans (by simp)

theorem linkBack_prev (list : StaticList T N) (elem : Fin N) :
    (list.linkBack elem).prev = Function.update list.prev elem list.last_ := by
  rw [linkBack_eq]
  exact (setNextIf_prev _ _ _).trans (by simp)

theorem linkBack_value (list : StaticList T N) (elem : Fin N) :
    (list.linkBack elem).value = list.value := by
  rw [linkBack_eq]
  exact (setNextIf_value _ _ _).trans (by simp)

/-- `linkBack` appends the held node to the element chain. -/
theorem Threads.linkBack {list : StaticList T N} {active free : List (Fin N)}
    {elements : List T} {elem : Fin N} {element : T}
    (threads : list.Threads active [elem] free elements)
    (first : list.first_ = active.head?) (last : list.last_ = active.getLast?)
    (constructed : list.value elem = some element) :
    (list.linkBack elem).Represents (active ++ [elem]) free (elements ++ [element]) := by
  have lastOther : list.last_ ≠ some elem := by
    intro equal
    rw [last] at equal
    exact threads.active_held_disjoint (List.mem_of_getLast? equal) List.mem_cons_self
  have held : list.Threads (active ++ []) [elem] free (elements ++ []) := by
    simpa using threads
  constructor
  · apply held.link threads.elements_length constructed
    · rw [linkBack_next, store_of_ne lastOther, Function.update_self]
      rfl
    · rw [linkBack_prev, Function.update_self, last]
    · intro other distinct
      rw [linkBack_next, last]
      by_cases atLast : active.getLast? = some other
      · rw [atLast, store_some, store_some, Function.update_self, Function.update_self]
      · rw [store_of_ne atLast, store_of_ne atLast, Function.update_of_ne distinct]
    · intro other distinct
      rw [linkBack_prev, Function.update_of_ne distinct]
      rfl
    · exact list.linkBack_value elem
    · simp [linkBack_eq]
  · rw [linkBack_eq, first]
    cases active <;> rfl
  · rw [linkBack_eq, List.getLast?_concat]

/-- `linkBefore` writes the links of the new node and of its two neighbours,
and makes it the first element when it has no predecessor. -/
theorem linkBefore_eq (list : StaticList T N) (elem i : Fin N) :
    list.linkBefore elem i =
      { (((list.setPrev elem (list.prev i)).setNextIf (list.prev i) (some elem)).setNext elem
          (some i)).setPrev i (some elem) with
        first_ := if list.prev i = none then some elem else list.first_ } := by
  unfold linkBefore
  cases hprev : list.prev i <;> rfl

theorem linkBefore_value (list : StaticList T N) (elem i : Fin N) :
    (list.linkBefore elem i).value = list.value := by
  rw [linkBefore_eq]
  exact (setPrev_value _ _ _).trans (by simp)

/-- `linkBefore` puts the held node in front of the element at `i`. -/
theorem Threads.linkBefore {list : StaticList T N} {front back free : List (Fin N)}
    {frontElements backElements : List T} {elem i : Fin N} {element : T}
    (threads : list.Threads (front ++ i :: back) [elem] free (frontElements ++ backElements))
    (aligned : frontElements.length = front.length)
    (first : list.first_ = (front ++ i :: back).head?)
    (last : list.last_ = (front ++ i :: back).getLast?)
    (constructed : list.value elem = some element) :
    (list.linkBefore elem i).Represents (front ++ elem :: i :: back) free
      (frontElements ++ element :: backElements) := by
  have prevEq : list.prev i = front.getLast? := threads.prev_eq
  have newNext : (list.linkBefore elem i).next =
      Function.update (store list.next front.getLast? (some elem)) elem (some i) := by
    rw [linkBefore_eq, prevEq]
    exact (setPrev_next _ _ _).trans (by simp)
  have newPrev : (list.linkBefore elem i).prev =
      Function.update (Function.update list.prev elem front.getLast?) i (some elem) := by
    rw [linkBefore_eq, prevEq]
    exact (setPrev_prev _ _ _).trans (by simp)
  have distinct : elem ≠ i := by
    rintro rfl
    exact threads.active_held_disjoint (List.mem_append_right front List.mem_cons_self)
      List.mem_cons_self
  constructor
  · apply threads.link aligned constructed
    · rw [newNext, Function.update_self]
      rfl
    · rw [newPrev, Function.update_of_ne distinct, Function.update_self]
    · intro other otherNe
      rw [newNext, Function.update_of_ne otherNe]
    · intro other otherNe
      rw [newPrev, List.head?_cons, store_some]
      by_cases atNext : other = i
      · rw [atNext, Function.update_self, Function.update_self]
      · rw [Function.update_of_ne atNext, Function.update_of_ne otherNe,
          Function.update_of_ne atNext]
    · exact list.linkBefore_value elem i
    · simp [linkBefore_eq]
  · rw [linkBefore_eq, prevEq, first]
    cases front with
    | nil => rfl
    | cons node rest => simp
  · rw [linkBefore_eq]
    simp [last, List.getLast?_append]

/-- A full list ignores `emplace`. -/
theorem Represents.emplace_full {list : StaticList T N} {active : List (Fin N)}
    {elements : List T} (represents : list.Represents active [] elements)
    (i : StaticListIterator N false) (element : T) : list.emplace i element = list := by
  rw [emplace, getFreeElem_of_free_nil represents]

/-- `emplace` at `end()` appends the first free node. -/
theorem Represents.emplace_end {list : StaticList T N} {active free : List (Fin N)}
    {elements : List T} {elem : Fin N}
    (represents : list.Represents active (elem :: free) elements) (element : T) :
    (list.emplace list.end_ element).Represents (active ++ [elem]) free
      (elements ++ [element]) := by
  obtain ⟨taken, takenEq, threads, first, last⟩ := represents.getFreeElem
  rw [emplace, takenEq]
  apply (threads.construct element).linkBack
  · rw [construct_first_, first, represents.first]
  · rw [construct_last_, last, represents.last]
  · rw [construct_value, Function.update_self]

/-- `emplace` at an element puts the first free node in front of it. -/
theorem Represents.emplace_live {list : StaticList T N} {front back free : List (Fin N)}
    {frontElements backElements : List T} {elem i : Fin N}
    (represents : list.Represents (front ++ i :: back) (elem :: free)
      (frontElements ++ backElements))
    (aligned : frontElements.length = front.length) (element : T) :
    (list.emplace ⟨some i⟩ element).Represents (front ++ elem :: i :: back) free
      (frontElements ++ element :: backElements) := by
  obtain ⟨taken, takenEq, threads, first, last⟩ := represents.getFreeElem
  rw [emplace, takenEq]
  apply (threads.construct element).linkBefore aligned
  · rw [construct_first_, first, represents.first]
  · rw [construct_last_, last, represents.last]
  · rw [construct_value, Function.update_self]

/-- The two ways to append are the same code. -/
theorem emplaceBack_eq_emplace_end (list : StaticList T N) (element : T) :
    list.emplaceBack element = list.emplace list.end_ element :=
  rfl

/-- Two lists are the same when their fields are. -/
theorem ext_fields {list list' : StaticList T N} (next : list.next = list'.next)
    (prev : list.prev = list'.prev) (value : list.value = list'.value)
    (free : list.free_ = list'.free_) (first : list.first_ = list'.first_)
    (last : list.last_ = list'.last_) : list = list' := by
  rcases list with ⟨buffer, _, _, _⟩
  rcases list' with ⟨buffer', _, _, _⟩
  have same : buffer = buffer' := by
    funext node
    have nextEq : (buffer node).next = (buffer' node).next := congrFun next node
    have prevEq : (buffer node).prev = (buffer' node).prev := congrFun prev node
    have valueEq : (buffer node).value = (buffer' node).value := congrFun value node
    cases hnode : buffer node
    cases hnode' : buffer' node
    simp_all
  simp only at free first last
  rw [same, free, first, last]

section EmplaceBack

variable {list : StaticList T N} {elem : Fin N} (free : list.free_ = some elem) (element : T)

include free

/-- `emplace_back` with its reads written out. -/
theorem emplaceBack_some :
    list.emplaceBack element =
      ((({ list with free_ := list.next elem } : StaticList T N).setPrevIf (list.next elem)
        none).construct elem element).linkBack elem := by
  rw [emplaceBack, StaticList.getFreeElem, free]

theorem emplaceBack_first_ :
    (list.emplaceBack element).first_ = list.first_.or (some elem) := by
  rw [emplaceBack_some free, linkBack_eq]
  simp

theorem emplaceBack_last_ : (list.emplaceBack element).last_ = some elem := by
  rw [emplaceBack_some free, linkBack_eq]

theorem emplaceBack_free_ : (list.emplaceBack element).free_ = list.next elem := by
  rw [emplaceBack_some free, linkBack_eq]
  simp

theorem emplaceBack_next :
    (list.emplaceBack element).next =
      store (Function.update list.next elem none) list.last_ (some elem) := by
  rw [emplaceBack_some free, linkBack_next, construct_next, construct_last_, setPrevIf_next,
    setPrevIf_last_]
  rfl

theorem emplaceBack_prev :
    (list.emplaceBack element).prev =
      Function.update (store list.prev (list.next elem) none) elem list.last_ := by
  rw [emplaceBack_some free, linkBack_prev, construct_prev, construct_last_, setPrevIf_prev,
    setPrevIf_last_]
  rfl

theorem emplaceBack_value :
    (list.emplaceBack element).value = Function.update list.value elem (some element) := by
  rw [emplaceBack_some free, linkBack_value, construct_value, setPrevIf_value]
  rfl

/-- A write to `prev` may as well come before an insertion that neither takes
the node nor makes it the first free one. -/
theorem emplaceBack_setPrev {node : Fin N} (fresh : node ≠ elem)
    (linked : list.next elem ≠ some node) (pointer : NodePtr N) :
    (list.setPrev node pointer).emplaceBack element =
      (list.emplaceBack element).setPrev node pointer := by
  have free' : (list.setPrev node pointer).free_ = some elem := free
  apply ext_fields
  · rw [setPrev_next, emplaceBack_next free, emplaceBack_next free', setPrev_next, setPrev_last_]
  · rw [setPrev_prev, emplaceBack_prev free, emplaceBack_prev free', setPrev_next, setPrev_prev,
      setPrev_last_]
    cases hnext : list.next elem with
    | none => exact Function.update_comm fresh _ _ _
    | some second =>
        have other : node ≠ second := by
          rintro rfl
          exact linked hnext
        rw [store_some, store_some, Function.update_comm other, Function.update_comm fresh]
  · rw [setPrev_value, emplaceBack_value free, emplaceBack_value free', setPrev_value]
  · rw [setPrev_free_, emplaceBack_free_ free, emplaceBack_free_ free', setPrev_next]
  · rw [setPrev_first_, emplaceBack_first_ free, emplaceBack_first_ free', setPrev_first_]
  · rw [setPrev_last_, emplaceBack_last_ free, emplaceBack_last_ free']

end EmplaceBack

/-! ## Removal -/

/-- The chains do not depend on the two ends stored in the object. -/
theorem Threads.withEnds {list : StaticList T N} {active held free : List (Fin N)}
    {elements : List T} (threads : list.Threads active held free elements)
    (first last : NodePtr N) :
    ({ list with first_ := first, last_ := last } : StaticList T N).Threads active held free
      elements :=
  ⟨threads.activeChain, threads.freeChain, threads.freeHead, threads.covers, threads.values⟩

/-- Returning a node neither reads nor writes the two ends. -/
theorem returnFreeElem_withEnds (list : StaticList T N) (elem : Fin N) (first last : NodePtr N) :
    ({ list with first_ := first, last_ := last } : StaticList T N).returnFreeElem elem =
      { list.returnFreeElem elem with first_ := first, last_ := last } := by
  cases hfree : list.free_ <;> simp [returnFreeElem, setPrev, setNext, setPrevIf, hfree]

/-- `erase` writes at the two neighbours, moves an end that pointed at the
element, and returns the node. -/
theorem erase_some (list : StaticList T N) (node : Fin N) :
    list.erase ⟨some node⟩ = some
      { ((list.setNextIf (list.prev node) (list.next node)).setPrevIf (list.next node)
          (list.prev node)).returnFreeElem node with
        first_ := if list.prev node = none then list.next node else list.first_
        last_ := if list.next node = none then list.prev node else list.last_ } := by
  rw [← returnFreeElem_withEnds]
  simp only [erase, Option.map_some]
  cases hprev : list.prev node <;> cases hnext : list.next node <;> rfl

/-- `erase` removes exactly the element at the iterator. -/
theorem Represents.erase {list : StaticList T N} {front back free : List (Fin N)}
    {frontElements backElements : List T} {node : Fin N} {element : T}
    (represents : list.Represents (front ++ node :: back) free
      (frontElements ++ element :: backElements))
    (aligned : frontElements.length = front.length) :
    ∃ list', list.erase ⟨some node⟩ = some list' ∧
      list'.Represents (front ++ back) (node :: free) (frontElements ++ backElements) := by
  have prevEq : list.prev node = front.getLast? := represents.prev_eq
  have nextEq : list.next node = back.head? := represents.next_eq
  have unlinked : ((list.setNextIf front.getLast? back.head?).setPrevIf back.head?
      front.getLast?).Threads (front ++ back) [node] free (frontElements ++ backElements) := by
    apply represents.toThreads.unlink aligned <;> simp
  rw [erase_some, prevEq, nextEq]
  refine ⟨_, rfl, unlinked.returnFreeElem.withEnds _ _, ?_, ?_⟩
  · cases front <;> simp [represents.first]
  · cases back <;> simp [represents.last, List.getLast?_append]

/-- `pop_front` on a non-empty list, its reads written out. -/
theorem popFront_some {list : StaticList T N} {node : Fin N} (first : list.first_ = some node) :
    list.popFront =
      { (list.setPrevIf (list.next node) none).returnFreeElem node with
        first_ := list.next node
        last_ := if list.first_ = list.last_ then list.next node else list.last_ } := by
  unfold popFront
  rw [first]
  simp only [returnFreeElem_first_, returnFreeElem_last_, setPrevIf_first_, setPrevIf_last_, first]
  split <;> simp

/-- `pop_back` on a non-empty list, its reads written out. -/
theorem popBack_some {list : StaticList T N} {node : Fin N} (last : list.last_ = some node) :
    list.popBack =
      { (list.setNextIf (list.prev node) none).returnFreeElem node with
        first_ := if list.first_ = list.last_ then list.prev node else list.first_
        last_ := list.prev node } := by
  unfold popBack
  rw [last]
  simp only [returnFreeElem_first_, returnFreeElem_last_, setNextIf_first_, setNextIf_last_, last]
  split <;> simp

/-- An empty list ignores `pop_front`. -/
theorem Represents.popFront_nil {list : StaticList T N} {free : List (Fin N)}
    {elements : List T} (represents : list.Represents [] free elements) :
    list.popFront = list := by
  rw [popFront, represents.first]
  rfl

/-- An empty list ignores `pop_back`. -/
theorem Represents.popBack_nil {list : StaticList T N} {free : List (Fin N)}
    {elements : List T} (represents : list.Represents [] free elements) :
    list.popBack = list := by
  rw [popBack, represents.last]
  rfl

/-- In a chain without repetitions the first node is the last one only when it
is the only one. -/
theorem head_eq_getLast_iff {node : Fin N} {back : List (Fin N)}
    (nodup : (node :: back).Nodup) : some node = (node :: back).getLast? ↔ back = [] := by
  constructor
  · intro equal
    by_contra nonempty
    have member := List.getLast_mem nonempty
    rw [List.getLast?_cons, List.getLast?_eq_some_getLast nonempty] at equal
    exact (List.nodup_cons.mp nodup).1 (Option.some.inj equal ▸ member)
  · rintro rfl
    rfl

/-- The first node is both ends exactly when nothing follows it. -/
theorem Represents.first_eq_last_iff {list : StaticList T N} {back free : List (Fin N)}
    {node : Fin N} {elements : List T}
    (represents : list.Represents (node :: back) free elements) :
    list.first_ = list.last_ ↔ back = [] := by
  rw [represents.first, represents.last]
  exact head_eq_getLast_iff represents.active_nodup

/-- The last node is both ends exactly when nothing precedes it. -/
theorem Represents.first_eq_last_concat_iff {list : StaticList T N} {front free : List (Fin N)}
    {node : Fin N} {elements : List T}
    (represents : list.Represents (front ++ [node]) free elements) :
    list.first_ = list.last_ ↔ front = [] := by
  cases front with
  | nil => exact represents.first_eq_last_iff.trans (by simp)
  | cons first rest => exact represents.first_eq_last_iff.trans (by simp)

/-- `pop_front` removes the first element. -/
theorem Represents.popFront {list : StaticList T N} {back free : List (Fin N)} {node : Fin N}
    {element : T} {elements : List T}
    (represents : list.Represents (node :: back) free (element :: elements)) :
    list.popFront.Represents back (node :: free) elements := by
  have nextEq : list.next node = back.head? := by
    simpa using represents.activeChain.2.1
  have whole : list.Threads ([] ++ node :: back) [] free ([] ++ element :: elements) :=
    represents.toThreads
  have unlinked : (list.setPrevIf back.head? none).Threads ([] ++ back) [node] free
      ([] ++ elements) := by
    apply whole.unlink rfl <;> simp
  rw [popFront_some represents.first, nextEq]
  refine ⟨unlinked.returnFreeElem.withEnds _ _, rfl, ?_⟩
  simp only [represents.first_eq_last_iff]
  cases back with
  | nil => rfl
  | cons second rest => simp [represents.last]

/-- `pop_back` removes the last element. -/
theorem Represents.popBack {list : StaticList T N} {front free : List (Fin N)} {node : Fin N}
    {element : T} {elements : List T}
    (represents : list.Represents (front ++ [node]) free (elements ++ [element])) :
    list.popBack.Represents front (node :: free) elements := by
  have aligned : elements.length = front.length := by
    simpa using represents.elements_length
  have prevEq : list.prev node = front.getLast? := represents.prev_eq
  have last : list.last_ = some node := by
    rw [represents.last, List.getLast?_concat]
  have unlinked : (list.setNextIf front.getLast? none).Threads (front ++ []) [node] free
      (elements ++ []) := by
    apply represents.toThreads.unlink aligned <;> simp
  rw [List.append_nil, List.append_nil] at unlinked
  rw [popBack_some last, prevEq]
  refine ⟨unlinked.returnFreeElem.withEnds _ _, ?_, rfl⟩
  simp only [represents.first_eq_last_concat_iff]
  cases front with
  | nil => rfl
  | cons first rest => simp [represents.first]

/-! ## Construction -/

/-- Linking a fresh node behind the nodes linked so far. -/
theorem linkNode_chained {list : StaticList T N} {linked : List (Fin N)} {node : Fin N}
    {after : NodePtr N} (chained : Chained list.next list.prev none linked after)
    (nodup : (linked ++ [node]).Nodup) :
    ∃ after', Chained (linkNode (list, linked.getLast?) node).1.next
      (linkNode (list, linked.getLast?) node).1.prev none (linked ++ [node]) after' := by
  obtain ⟨linkedNodup, -, disjoint⟩ := List.nodup_append'.mp nodup
  refine ⟨(linkNode (list, linked.getLast?) node).1.next node, ?_⟩
  apply chained_append.mpr
  constructor
  · apply (chained.store_next linkedNodup (some node)).congr
    · intro other _
      simp [linkNode]
    · intro other member
      have distinct : other ≠ node := by
        rintro rfl
        exact disjoint member List.mem_cons_self
      simp [linkNode, Function.update_of_ne distinct]
  · refine ⟨?_, rfl, trivial⟩
    simp [linkNode]

/-- The constructor's loop links the remaining nodes behind the linked ones
and leaves the three entry pointers alone. -/
theorem foldl_linkNode {list : StaticList T N} {linked : List (Fin N)} {after : NodePtr N}
    (rest : List (Fin N)) (chained : Chained list.next list.prev none linked after)
    (nodup : (linked ++ rest).Nodup) :
    ∃ list' after', rest.foldl linkNode (list, linked.getLast?) =
        (list', (linked ++ rest).getLast?) ∧
      Chained list'.next list'.prev none (linked ++ rest) after' ∧
      list'.free_ = list.free_ ∧ list'.first_ = list.first_ ∧ list'.last_ = list.last_ := by
  induction rest generalizing list linked after with
  | nil =>
      refine ⟨list, after, ?_, ?_, rfl, rfl, rfl⟩
      · rw [List.append_nil]
        rfl
      · rwa [List.append_nil]
  | cons node rest ih =>
      have split : linked ++ node :: rest = (linked ++ [node]) ++ rest := by simp
      rw [split] at nodup ⊢
      obtain ⟨middleAfter, middleChained⟩ :=
        linkNode_chained chained (List.nodup_append'.mp nodup).1
      obtain ⟨list', after', foldEq, finalChained, freeEq, firstEq, lastEq⟩ :=
        ih middleChained nodup
      refine ⟨list', after', ?_, finalChained, ?_, ?_, ?_⟩
      · rw [← foldEq, List.getLast?_concat]
        rfl
      · rw [freeEq]
        simp [linkNode]
      · rw [firstEq]
        simp [linkNode]
      · rw [lastEq]
        simp [linkNode]

/-- The constructed list is empty and every node is free, whatever the storage
held before. -/
theorem init_represents [NeZero N] (buffer : Fin N → StaticListNode T N) :
    (init buffer).Represents [] (List.finRange N) [] := by
  have chained : Chained
      (next { buffer_ := buffer, free_ := some 0, first_ := none, last_ := none })
      (prev { buffer_ := buffer, free_ := some 0, first_ := none, last_ := none })
      none [] none := trivial
  obtain ⟨list', after', foldEq, linked, freeEq, firstEq, lastEq⟩ :=
    foldl_linkNode (List.finRange N) chained (List.nodup_finRange N)
  have initEq : init buffer = list'.setNextIf (List.finRange N).getLast? none := by
    rw [List.getLast?_nil] at foldEq
    simp only [init, foldEq]
    rfl
  rw [initEq]
  constructor
  · constructor
    · trivial
    · rw [setNextIf_next, setNextIf_prev]
      exact linked.store_next (List.nodup_finRange N) none
    · rw [setNextIf_free_, freeEq]
      obtain ⟨n, rfl⟩ := Nat.exists_eq_succ_of_ne_zero (NeZero.ne N)
      rw [List.finRange_succ]
      rfl
    · rfl
    · rfl
  · rw [setNextIf_first_, firstEq]
    rfl
  · rw [setNextIf_last_, lastEq]
    rfl

/-! ## Contents -/

section Contents

variable {list : StaticList T N} {active free : List (Fin N)} {elements : List T}

/-- The nodes met from `first_` are the element chain. -/
theorem Represents.nodes_eq (represents : list.Represents active free elements) :
    list.nodes = active := by
  have visits : Visits list.next list.first_ active := by
    rw [represents.first]
    exact represents.activeChain.visits_next
  apply visits.walk_eq
  have total := represents.length_eq
  omega

/-- The contents of the list are the represented elements. -/
theorem Represents.toList_eq (represents : list.Represents active free elements) :
    list.toList = elements := by
  rw [toList, represents.nodes_eq]
  have mapped := congrArg (List.filterMap id) represents.values
  simpa [List.filterMap_map, Function.comp_def] using mapped

/-- Splitting the element chain at a node splits the elements. -/
theorem Represents.split {front back : List (Fin N)} {node : Fin N}
    (represents : list.Represents (front ++ node :: back) free elements) :
    ∃ frontElements element backElements, elements = frontElements ++ element :: backElements ∧
      frontElements.length = front.length := by
  have bound : front.length < elements.length := by
    rw [represents.elements_length]
    simp
  refine ⟨elements.take front.length, elements[front.length], elements.drop (front.length + 1),
    ?_, ?_⟩
  · rw [List.getElem_cons_drop, List.take_append_drop]
  · rw [List.length_take]
    omega

/-- A node of the element chain stores the element at its position. -/
theorem Represents.value_eq {front back : List (Fin N)} {node : Fin N}
    {frontElements backElements : List T} {element : T}
    (represents : list.Represents (front ++ node :: back) free
      (frontElements ++ element :: backElements))
    (aligned : frontElements.length = front.length) : list.value node = some element := by
  have values := represents.values
  rw [List.map_append, List.map_append] at values
  have sameLength : (front.map list.value).length = (frontElements.map some).length := by
    simp [aligned]
  exact (List.cons_eq_cons.mp (List.append_inj_right values sameLength)).1

/-- `++` moves a forward iterator to the next node of the element chain. -/
theorem Represents.increment_eq {front back : List (Fin N)} {node : Fin N}
    (represents : list.Represents (front ++ node :: back) free elements) :
    list.increment (⟨some node⟩ : StaticListIterator N false) = ⟨back.head?⟩ := by
  exact congrArg StaticListIterator.mk represents.next_eq

end Contents

end BaremetalCoro.StaticList
