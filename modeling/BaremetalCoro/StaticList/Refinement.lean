import BaremetalCoro.StaticList.Invariant
import BaremetalCoro.StaticList.Sequence

/-!
# The static list refines a bounded sequence

Every call on the pointer structure is one operation on the represented
sequence, at the position of the iterator it was given.  From this one step
simulation follow the representation invariant over whole histories and the
refinement of bounded sequences, with all observers of the class.
-/

namespace BaremetalCoro.StaticList

open Linked Transition

universe u

variable {T : Type u} {N : Nat}

/-- The number of elements in front of an iterator. -/
def position (list : StaticList T N) (i : StaticListIterator N false) : Nat :=
  match i.v_ with
  | none => list.nodes.length
  | some node => list.nodes.idxOf node

/-- What a call means for the represented sequence. -/
def Op.meaning (list : StaticList T N) : Op T N → BoundedSeq.Op T
  | .emplace i element => .insert (list.position i) element
  | .emplaceBack element => .insert (list.position list.end_) element
  | .erase i => .remove (list.position i)
  | .popFront => .removeFirst
  | .popBack => .removeLast

section Step

variable {list : StaticList T N} {active free : List (Fin N)} {elements : List T}

theorem Represents.position_end (represents : list.Represents active free elements) :
    list.position list.end_ = elements.length := by
  change list.nodes.length = elements.length
  rw [represents.nodes_eq, represents.elements_length]

theorem Represents.position_live {front back : List (Fin N)} {node : Fin N}
    (represents : list.Represents (front ++ node :: back) free elements) :
    list.position ⟨some node⟩ = front.length := by
  have fresh : node ∉ front := by
    intro member
    exact (List.nodup_append'.mp represents.active_nodup).2.2 member List.mem_cons_self
  change list.nodes.idxOf node = front.length
  rw [represents.nodes_eq, List.idxOf_append_of_notMem fresh, List.idxOf_cons_self,
    Nat.add_zero]

/-- A live iterator splits the list at its element. -/
theorem Represents.live_split (represents : list.Represents active free elements)
    {i : StaticListIterator N false} (live : list.Live i) :
    ∃ front node back frontElements element backElements, i = ⟨some node⟩ ∧
      active = front ++ node :: back ∧ elements = frontElements ++ element :: backElements ∧
      frontElements.length = front.length := by
  obtain ⟨node, member, atNode⟩ := live
  rw [represents.nodes_eq] at member
  obtain ⟨front, back, rfl⟩ := List.append_of_mem member
  obtain ⟨frontElements, element, backElements, rfl, aligned⟩ := represents.split
  have position : i = ⟨some node⟩ := by
    cases i
    exact congrArg StaticListIterator.mk atNode
  exact ⟨front, node, back, frontElements, element, backElements, position, rfl, rfl, aligned⟩

/-- There is room exactly when there is a free node. -/
theorem Represents.length_lt_iff (represents : list.Represents active free elements) :
    elements.length < N ↔ free ≠ [] := by
  have total := represents.length_eq
  rw [represents.elements_length, List.length_nil] at *
  cases free with
  | nil =>
      simp only [ne_eq, not_true_eq_false, iff_false, not_lt]
      simp only [List.length_nil] at total
      omega
  | cons node rest =>
      simp only [ne_eq, reduceCtorEq, not_false_eq_true, iff_true]
      simp only [List.length_cons] at total
      omega

/-- `emplace` at any position of the list, whether or not there is room. -/
theorem Represents.emplace_at {front back : List (Fin N)} {frontElements backElements : List T}
    (represents : list.Represents (front ++ back) free (frontElements ++ backElements))
    (aligned : frontElements.length = front.length) (element : T) :
    ∃ active' free', (list.emplace ⟨back.head?⟩ element).Represents active' free'
      (if (frontElements ++ backElements).length < N then
        frontElements ++ element :: backElements
      else frontElements ++ backElements) := by
  cases free with
  | nil =>
      have noRoom : ¬ (frontElements ++ backElements).length < N := by
        rw [represents.length_lt_iff]
        simp
      rw [if_neg noRoom, represents.emplace_full]
      exact ⟨front ++ back, [], represents⟩
  | cons elem free =>
      rw [if_pos (represents.length_lt_iff.mpr (List.cons_ne_nil elem free))]
      cases back with
      | nil =>
          have nothing : backElements = [] := by
            have total := represents.elements_length
            simpa [aligned] using total
          subst nothing
          rw [List.append_nil, List.append_nil] at represents
          exact ⟨front ++ [elem], free, represents.emplace_end element⟩
      | cons node back =>
          exact ⟨front ++ elem :: node :: back, free, represents.emplace_live aligned element⟩

/-- Appending one element, whether or not there is room. -/
theorem Represents.emplace_end_effect (represents : list.Represents active free elements)
    (element : T) :
    ∃ active' free', (list.emplace list.end_ element).Represents active' free'
      ((BoundedSeq.Op.insert (list.position list.end_) element).effect N elements) := by
  have whole : list.Represents (active ++ []) free (elements ++ []) := by
    simpa using represents
  have inserted := whole.emplace_at represents.elements_length element
  rw [List.append_nil] at inserted
  simp only [BoundedSeq.Op.effect, represents.position_end, List.take_length, List.drop_length]
  exact inserted

/-- Inserting before an element, whether or not there is room. -/
theorem Represents.emplace_live_effect (represents : list.Represents active free elements)
    {i : StaticListIterator N false} (live : list.Live i) (element : T) :
    ∃ active' free', (list.emplace i element).Represents active' free'
      ((BoundedSeq.Op.insert (list.position i) element).effect N elements) := by
  obtain ⟨front, node, back, frontElements, old, backElements, rfl, rfl, rfl, aligned⟩ :=
    represents.live_split live
  simp only [BoundedSeq.Op.effect, represents.position_live, ← aligned, List.take_left,
    List.drop_left]
  exact represents.emplace_at aligned element

/-- Removing the element at a live iterator. -/
theorem Represents.erase_effect (represents : list.Represents active free elements)
    {i : StaticListIterator N false} (live : list.Live i) :
    ∃ list' active' free', list.erase i = some list' ∧ list'.Represents active' free'
      ((BoundedSeq.Op.remove (list.position i)).effect N elements) := by
  obtain ⟨front, node, back, frontElements, old, backElements, rfl, rfl, rfl, aligned⟩ :=
    represents.live_split live
  obtain ⟨list', eraseEq, erased⟩ := represents.erase aligned
  refine ⟨list', front ++ back, node :: free, eraseEq, ?_⟩
  have dropEq : (frontElements ++ old :: backElements).drop (frontElements.length + 1) =
      backElements := by
    rw [← List.drop_drop, List.drop_left]
    rfl
  simp only [BoundedSeq.Op.effect, represents.position_live, ← aligned, List.take_left, dropEq]
  exact erased

/-- Removing the first element, if there is one. -/
theorem Represents.popFront_effect (represents : list.Represents active free elements) :
    ∃ active' free', list.popFront.Represents active' free' elements.tail := by
  cases active with
  | nil =>
      have nothing : elements = [] := List.length_eq_zero_iff.mp represents.elements_length
      subst nothing
      rw [represents.popFront_nil]
      exact ⟨[], free, represents⟩
  | cons node back =>
      obtain ⟨element, rest, rfl⟩ :=
        List.exists_cons_of_length_eq_add_one represents.elements_length
      exact ⟨back, node :: free, represents.popFront⟩

/-- A last node stores a last element. -/
theorem Represents.elements_concat {front : List (Fin N)} {node : Fin N}
    (represents : list.Represents (front ++ [node]) free elements) :
    ∃ rest element, elements = rest ++ [element] := by
  rcases List.eq_nil_or_concat' elements with rfl | split
  · have total := represents.elements_length
    simp at total
  · exact split

/-- Removing the last element, if there is one. -/
theorem Represents.popBack_effect (represents : list.Represents active free elements) :
    ∃ active' free', list.popBack.Represents active' free' elements.dropLast := by
  rcases List.eq_nil_or_concat' active with rfl | ⟨front, node, rfl⟩
  · have nothing : elements = [] := List.length_eq_zero_iff.mp represents.elements_length
    subst nothing
    rw [represents.popBack_nil]
    exact ⟨[], free, represents⟩
  · obtain ⟨rest, element, rfl⟩ := represents.elements_concat
    rw [List.dropLast_concat]
    exact ⟨front, node :: free, represents.popBack⟩

/-- Every call a user may make succeeds, and it changes the represented
elements as its meaning says. -/
theorem Represents.step (represents : list.Represents active free elements) {op : Op T N}
    (allowed : op.Allowed list) :
    ∃ list' active' free', list.step op = some list' ∧
      list'.Represents active' free' ((op.meaning list).effect N elements) := by
  rw [StaticList.step, if_pos allowed]
  cases op with
  | emplace i element =>
      rcases allowed with rfl | live
      · obtain ⟨active', free', after⟩ := represents.emplace_end_effect element
        exact ⟨_, active', free', rfl, after⟩
      · obtain ⟨active', free', after⟩ := represents.emplace_live_effect live element
        exact ⟨_, active', free', rfl, after⟩
  | emplaceBack element =>
      obtain ⟨active', free', after⟩ := represents.emplace_end_effect element
      exact ⟨_, active', free', rfl, after⟩
  | erase i => exact represents.erase_effect allowed
  | popFront =>
      obtain ⟨active', free', after⟩ := represents.popFront_effect
      exact ⟨_, active', free', rfl, after⟩
  | popBack =>
      obtain ⟨active', free', after⟩ := represents.popBack_effect
      exact ⟨_, active', free', rfl, after⟩

/-- A call that went through was one that the user may make. -/
theorem Represents.of_step (represents : list.Represents active free elements) {op : Op T N}
    {list' : StaticList T N} (stepped : list.step op = some list') :
    ∃ active' free', list'.Represents active' free' ((op.meaning list).effect N elements) := by
  by_cases allowed : op.Allowed list
  · obtain ⟨after, active', free', stepEq, represents'⟩ := represents.step allowed
    rw [stepped] at stepEq
    cases stepEq
    exact ⟨active', free', represents'⟩
  · rw [StaticList.step, if_neg allowed] at stepped
    contradiction

end Step

/-! ## Histories -/

section Histories

variable [NeZero N]

/-- Every history of calls from the constructor leaves a represented list. -/
theorem run_represents {buffer : Fin N → StaticListNode T N} {ops : List (Op T N)}
    {list : StaticList T N} (ran : run step (init buffer) ops = some list) :
    ∃ active free elements, list.Represents active free elements := by
  apply run_invariant _ _ ran
  · rintro before op after ⟨active, free, elements, represents⟩ stepped
    obtain ⟨active', free', represents'⟩ := represents.of_step stepped
    exact ⟨active', free', _, represents'⟩
  · exact ⟨[], List.finRange N, [], init_represents buffer⟩

/-- The two chains as they are found by following the pointers: the elements
from `first_` to `last_` and back, and the free nodes from `free_`. -/
structure RepInvariant (list : StaticList T N) (active free : List (Fin N)) : Prop where
  forward : Visits list.next list.first_ active
  forwardEnd : active.getLast? = list.last_
  backward : Visits list.prev list.last_ active.reverse
  backwardEnd : active.reverse.getLast? = list.first_
  activeNodup : active.Nodup
  firstPrev : ∀ node, list.first_ = some node → list.prev node = none
  lastNext : ∀ node, list.last_ = some node → list.next node = none
  emptyEnds : list.first_ = none ↔ list.last_ = none
  freeForward : Visits list.next list.free_ free
  freeBackward : Visits list.prev free.getLast? free.reverse
  freeNodup : free.Nodup
  partition : (active ++ free).Perm (List.finRange N)

omit [NeZero N] in
theorem Represents.repInvariant {list : StaticList T N} {active free : List (Fin N)}
    {elements : List T} (represents : list.Represents active free elements) :
    list.RepInvariant active free := by
  constructor
  · rw [represents.first]
    exact represents.activeChain.visits_next
  · exact represents.last.symm
  · rw [represents.last]
    exact represents.activeChain.visits_prev
  · rw [List.getLast?_reverse, represents.first]
  · exact represents.active_nodup
  · intro node first
    rw [represents.first] at first
    obtain ⟨back, rfl⟩ := List.head?_eq_some_iff.mp first
    exact represents.activeChain.1
  · intro node last
    rw [represents.last] at last
    obtain ⟨front, rfl⟩ := List.getLast?_eq_some_iff.mp last
    exact represents.next_eq
  · rw [represents.first, represents.last, List.head?_eq_none_iff, List.getLast?_eq_none_iff]
  · rw [represents.freeHead]
    exact represents.freeChain.visits_next
  · exact represents.freeChain.visits_prev
  · exact represents.free_nodup
  · exact represents.covers

/-- The representation invariant holds after every history of calls, and no
call that is allowed there faults. -/
theorem repInvariant_of_run {buffer : Fin N → StaticListNode T N} {ops : List (Op T N)}
    {list : StaticList T N} (ran : run step (init buffer) ops = some list) :
    (∃ active free, list.RepInvariant active free) ∧
      ∀ op : Op T N, op.Allowed list → ∃ list', list.step op = some list' := by
  obtain ⟨active, free, elements, represents⟩ := run_represents ran
  constructor
  · exact ⟨active, free, represents.repInvariant⟩
  · intro op allowed
    obtain ⟨list', _, _, stepEq, _⟩ := represents.step allowed
    exact ⟨list', stepEq⟩

/-- Uninitialised storage for three nodes, with links that point nowhere
useful. -/
def staleBuffer : Fin 3 → StaticListNode Nat 3 := fun _ => ⟨some 1, some 2, some 7⟩

/-- A history that fills the list from both ends, overfills it, erases in the
middle, reuses the node and pops until after it is empty. -/
def mixedOps : List (Op Nat 3) :=
  [.popFront, .emplaceBack 5, .emplace ⟨some 0⟩ 6, .emplace ⟨none⟩ 7, .emplaceBack 8,
    .erase ⟨some 0⟩, .emplace ⟨some 2⟩ 9, .popBack, .popFront, .popBack, .popFront]

theorem repInvariant_of_run_mixedOps :
    ∃ list : StaticList Nat 3, run step (init staleBuffer) mixedOps = some list ∧
      ∃ active free, list.RepInvariant active free := by
  have succeeds : (run step (init staleBuffer) mixedOps).isSome := by decide
  obtain ⟨list, ran⟩ := Option.isSome_iff_exists.mp succeeds
  exact ⟨list, ran, (repInvariant_of_run ran).1⟩

end Histories

/-! ## Observers -/

/-- Every observer of the class sees `elements`. -/
structure Observes (list : StaticList T N) (elements : List T) : Prop where
  contents : list.toList = elements
  empty : list.empty = true ↔ elements = []
  forward : list.collect list.end_ N list.begin = some elements
  backward : list.collect list.rend N list.rbegin = some elements.reverse
  front : list.front = elements.head?
  back : list.back = elements.getLast?
  deref : ∀ i, list.Live i →
    list.position i < elements.length ∧ list.deref i = elements[list.position i]?

/-- An iterator loop collects the values of the nodes it visits. -/
theorem collect_of_visits {reverse : Bool} {list : StaticList T N} {nodes : List (Fin N)}
    {elements : List T} {start : NodePtr N} {fuel : Nat}
    (visits : Visits (fun node => (list.increment (⟨some node⟩ : StaticListIterator N reverse)).v_)
      start nodes)
    (values : nodes.map list.value = elements.map some) (enough : nodes.length ≤ fuel) :
    list.collect ⟨none⟩ fuel (⟨start⟩ : StaticListIterator N reverse) = some elements := by
  induction nodes generalizing start elements fuel with
  | nil =>
      cases visits
      have nothing : elements = [] := by
        simpa using values.symm
      subst nothing
      cases fuel <;> rfl
  | cons node rest ih =>
      obtain ⟨rfl, visitsRest⟩ := visits
      cases elements with
      | nil => simp at values
      | cons element restElements =>
          cases fuel with
          | zero => simp at enough
          | succ fuel =>
              obtain ⟨valueEq, restValues⟩ := List.cons_eq_cons.mp values
              have restCollected := ih visitsRest restValues (by simpa using enough)
              have derefEq : list.deref (⟨some node⟩ : StaticListIterator N reverse) =
                  some element := valueEq
              rw [collect, if_neg (by simp), derefEq]
              change (list.collect _ fuel (list.increment _)).bind _ = _
              rw [restCollected]
              rfl

theorem Represents.observes {list : StaticList T N} {active free : List (Fin N)}
    {elements : List T} (represents : list.Represents active free elements) :
    list.Observes elements := by
  have enough : active.length ≤ N := by
    have total := represents.length_eq
    omega
  constructor
  · exact represents.toList_eq
  · rw [StaticList.empty, represents.first, beq_iff_eq, List.head?_eq_none_iff,
      ← List.length_eq_zero_iff, ← represents.elements_length, List.length_eq_zero_iff]
  · rw [begin, represents.first]
    exact collect_of_visits represents.activeChain.visits_next represents.values enough
  · have reversedValues : active.reverse.map list.value = elements.reverse.map some := by
      rw [List.map_reverse, List.map_reverse, represents.values]
    rw [rbegin, represents.last]
    exact collect_of_visits represents.activeChain.visits_prev reversedValues
      (by simpa using enough)
  · rw [StaticList.front, represents.first]
    have headEq := congrArg List.head? represents.values
    rw [List.head?_map, List.head?_map] at headEq
    cases active <;> cases elements <;> simp_all
  · rw [StaticList.back, represents.last]
    have lastEq := congrArg List.getLast? represents.values
    rw [List.getLast?_map, List.getLast?_map] at lastEq
    cases hactive : active.getLast? <;> cases helements : elements.getLast? <;> simp_all
  · intro i live
    obtain ⟨front, node, back, frontElements, element, backElements, rfl, rfl, rfl, aligned⟩ :=
      represents.live_split live
    have valueEq := represents.value_eq aligned
    rw [represents.position_live, ← aligned]
    constructor
    · simp
    · simpa [StaticList.deref] using valueEq

/-- From any represented list, as many elements can be appended as are missing
to the capacity. -/
theorem Represents.append_all {list : StaticList T N} {active free : List (Fin N)}
    {elements : List T} (represents : list.Represents active free elements) (added : List T)
    (room : elements.length + added.length ≤ N) :
    ∃ list', run StaticList.step list (added.map Op.emplaceBack) = some list' ∧
      list'.toList = elements ++ added := by
  induction added generalizing list active free elements with
  | nil => exact ⟨list, rfl, by rw [represents.toList_eq, List.append_nil]⟩
  | cons element rest ih =>
      rw [List.length_cons] at room
      have allowed : (Op.emplaceBack element).Allowed list := trivial
      obtain ⟨middle, active', free', stepEq, represents'⟩ := represents.step allowed
      have grown : ((Op.emplaceBack element).meaning list).effect N elements =
          elements ++ [element] := by
        simp only [Op.meaning, BoundedSeq.Op.effect, represents.position_end]
        rw [if_pos (by omega), List.take_length, List.drop_length]
      rw [grown] at represents'
      obtain ⟨list', ran, contents⟩ := ih represents' (by simp; omega)
      refine ⟨list', ?_, ?_⟩
      · rw [List.map_cons, run_cons_eq_some_iff]
        exact ⟨middle, stepEq, ran⟩
      · rw [contents, List.append_assoc]
        rfl

/-! ## Refinement -/

/-- A list and the bounded sequence it stores. -/
def Refines (list : StaticList T N) (sequence : BoundedSeq T N) : Prop :=
  ∃ active free, list.Represents active free sequence.elements

/-- One call is one operation on the stored sequence. -/
theorem Refines.step {list list' : StaticList T N} {sequence : BoundedSeq T N} {op : Op T N}
    (refines : list.Refines sequence) (stepped : list.step op = some list') :
    ∃ sequence', BoundedSeq.step sequence (op.meaning list) = some sequence' ∧
      list'.Refines sequence' := by
  obtain ⟨active, free, represents⟩ := refines
  obtain ⟨active', free', represents'⟩ := represents.of_step stepped
  exact ⟨_, rfl, active', free', represents'⟩

/-- Every history of calls from the constructor is a history of operations on
a bounded sequence.  The list it ends in shows exactly that sequence to every
observer, every further call has its meaning, calls that cannot change the
sequence leave the object as it is, and the capacity is never used up by past
elements. -/
theorem refines_boundedSeq [NeZero N] {buffer : Fin N → StaticListNode T N}
    {ops : List (Op T N)} {list : StaticList T N}
    (ran : run step (init buffer) ops = some list) :
    ∃ sequence : BoundedSeq T N,
      run BoundedSeq.step BoundedSeq.nil
        (labels step (fun before op => op.meaning before) (init buffer) ops) = some sequence ∧
      list.Observes sequence.elements ∧
      (∀ op : Op T N, op.Allowed list → ∃ list', list.step op = some list' ∧
        list'.Observes ((op.meaning list).effect N sequence.elements)) ∧
      (sequence.elements.length = N → ∀ i element,
        list.emplace i element = list ∧ list.emplaceBack element = list) ∧
      (sequence.elements = [] → list.popFront = list ∧ list.popBack = list) ∧
      (∀ added : List T, sequence.elements.length + added.length ≤ N →
        ∃ list', run step list (added.map Op.emplaceBack) = some list' ∧
          list'.toList = sequence.elements ++ added) := by
  have initially : (init buffer).Refines BoundedSeq.nil :=
    ⟨[], List.finRange N, init_represents buffer⟩
  obtain ⟨sequence, abstractRan, active, free, represents⟩ :=
    run_simulation (fun _ _ _ _ => Refines.step) initially ran
  refine ⟨sequence, abstractRan, represents.observes, ?_, ?_, ?_, ?_⟩
  · intro op allowed
    obtain ⟨list', active', free', stepEq, represents'⟩ := represents.step allowed
    exact ⟨list', stepEq, represents'.observes⟩
  · intro full i element
    have noFree : free = [] := by
      by_contra someFree
      have room := represents.length_lt_iff.mpr someFree
      omega
    subst noFree
    exact ⟨represents.emplace_full i element, represents.emplace_full list.end_ element⟩
  · intro nothing
    rw [nothing] at represents
    have noActive : active = [] := by
      have total := represents.elements_length
      simpa using total.symm
    subst noActive
    exact ⟨represents.popFront_nil, represents.popBack_nil⟩
  · exact represents.append_all

theorem refines_boundedSeq_mixedOps :
    ∃ list : StaticList Nat 3, run step (init staleBuffer) mixedOps = some list ∧
      ∃ sequence : BoundedSeq Nat 3, list.Observes sequence.elements ∧
        ∀ added : List Nat, sequence.elements.length + added.length ≤ 3 →
          ∃ list', run step list (added.map Op.emplaceBack) = some list' ∧
            list'.toList = sequence.elements ++ added := by
  have succeeds : (run step (init staleBuffer) mixedOps).isSome := by decide
  obtain ⟨list, ran⟩ := Option.isSome_iff_exists.mp succeeds
  obtain ⟨sequence, _, observes, _, _, _, capacity⟩ := refines_boundedSeq ran
  exact ⟨list, ran, sequence, observes, capacity⟩

end BaremetalCoro.StaticList
