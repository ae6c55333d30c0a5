import BaremetalCoro.Interrupt.PopFront

/-!
# An insertion from an interrupt handler

The handler inserts into the list while a turn of `resume` on the same list is
under way.  Up to a certain access its insertion may as well have come before
the turn, and behind the last access but one it may as well come after it.  In
between the turn works on with what it has read before: a `next` that was
null, a first free node that is no longer free, or a last node that is no
longer the last.  Each of these leaves its mark in the final state, and with
it the list is damaged.
-/

namespace BaremetalCoro

open Linked

namespace PopTurn

variable {H : Type} {N : Nat}

/-- The handler inserts `handle`, the turn goes on to its end, and what it
leaves is a list with `handle` and the others. -/
def Consistent (turn : PopTurn H N) (handle : H) (others : List H) : Prop :=
  ∃ count final, Transition.run step turn (.insert handle :: List.replicate count .main) =
      some final ∧
    final.pc = .done ∧ (∃ active free, final.waiting_.RepInvariant active free) ∧
    handle ∈ final.waiting_.toList ∧ ∀ other ∈ others, other ∈ final.waiting_.toList

/-- The accesses before which the handler may insert while `length` handles
wait. -/
def SafeAt (length : Nat) : PopPc N → Prop
  | .testEmpty | .begin | .deref _ | .testFirst | .loadFirst | .loadNext _ | .done => True
  -- `next` is loaded; the handler changes it only when it appends to the first node
  | .clearPrev _ | .loadElem _ | .clearElemPrev _ _ | .loadFree _ _ => 2 ≤ length
  -- the handler takes the free node that was read, or the one that is being popped
  | .storeElemNext _ _ _ | .testFree _ _ | .loadFreeHead _ _ | .storeFreePrev _ _ _
  | .storeFree _ _ | .compareFirst _ | .compareLast _ _ => False
  -- the first node is returned and `last_` is settled
  | .storeLast _ | .storeFirst _ => 2 ≤ length

/-- The turn once the handler has inserted. -/
def afterInsert (turn : PopTurn H N) (handle : H) : PopTurn H N :=
  { turn with waiting_ := turn.waiting_.emplaceBack handle }

theorem consistent_of_represents {turn final : PopTurn H N} {handle : H} {others : List H}
    {count : Nat}
    (ran : Transition.run step (turn.afterInsert handle) (List.replicate count .main) = some final)
    (done : final.pc = .done) {active free : List (Fin N)}
    (represents : final.waiting_.Represents active free (others ++ [handle])) :
    turn.Consistent handle others := by
  refine ⟨count, final, Transition.run_cons_of_step rfl ran, done,
    ⟨active, free, represents.repInvariant⟩, ?_, ?_⟩
  · rw [represents.toList_eq]
    exact List.mem_append_right others List.mem_cons_self
  · intro other member
    rw [represents.toList_eq]
    exact List.mem_append_left [handle] member

section Popped

variable {list : StaticList H N} {node elem : Fin N} {back free : List (Fin N)} {popped : H}
  {rest : List H}

/-! ## Insertions -/

theorem emplaceBack_represents {list : StaticList H N} {active : List (Fin N)} {elements : List H}
    (represents : list.Represents active (elem :: free) elements) (handle : H) :
    (list.emplaceBack handle).Represents (active ++ [elem]) free (elements ++ [handle]) :=
  represents.emplace_end handle

/-- An insertion does not see which node is first, as long as there is one. -/
theorem emplaceBack_withFirst {list : StaticList H N} {elem : Fin N}
    (free : list.free_ = some elem) (second : Fin N) (handle : H) :
    ({ list with first_ := some second } : StaticList H N).emplaceBack handle =
      { list.emplaceBack handle with first_ := some second } := by
  have free' : ({ list with first_ := some second } : StaticList H N).free_ = some elem := free
  apply StaticList.ext_fields
  · exact (StaticList.emplaceBack_next free' handle).trans
      (StaticList.emplaceBack_next free handle).symm
  · exact (StaticList.emplaceBack_prev free' handle).trans
      (StaticList.emplaceBack_prev free handle).symm
  · exact (StaticList.emplaceBack_value free' handle).trans
      (StaticList.emplaceBack_value free handle).symm
  · exact (StaticList.emplaceBack_free_ free' handle).trans
      (StaticList.emplaceBack_free_ free handle).symm
  · exact StaticList.emplaceBack_first_ free' handle
  · exact (StaticList.emplaceBack_last_ free' handle).trans
      (StaticList.emplaceBack_last_ free handle).symm

/-! ## The insertion may as well come first -/

section Safe

variable (represents : list.Represents (node :: back) (elem :: free) (popped :: rest))

include represents

theorem node_ne_elem : node ≠ elem := by
  rintro rfl
  exact represents.active_free_disjoint List.mem_cons_self List.mem_cons_self

/-- A write to `prev` of a node of the list commutes with the insertion. -/
theorem emplaceBack_setPrev_active {list' : StaticList H N} (freeEq : list'.free_ = list.free_)
    (nextEq : list'.next = list.next) {active : Fin N} (member : active ∈ node :: back)
    (pointer : NodePtr N) (handle : H) :
    (list'.setPrev active pointer).emplaceBack handle =
      (list'.emplaceBack handle).setPrev active pointer := by
  apply StaticList.emplaceBack_setPrev (freeEq.trans represents.freeHead)
  · rintro rfl
    exact represents.active_free_disjoint member List.mem_cons_self
  · rw [nextEq, represents.freeChain.2.1, Option.or_none]
    intro second
    exact represents.active_free_disjoint member
      (List.mem_cons_of_mem elem (List.mem_of_mem_head? second))

theorem last_ne_node (more : back ≠ []) : list.last_ ≠ some node := by
  intro last
  rw [represents.last] at last
  exact more ((StaticList.head_eq_getLast_iff represents.active_nodup).mp last.symm)

theorem emplaceBack_next_first (more : back ≠ []) (handle : H) :
    (list.emplaceBack handle).next node = list.next node := by
  rw [StaticList.emplaceBack_next represents.freeHead, store_of_ne (last_ne_node represents more),
    Function.update_of_ne (node_ne_elem represents)]

theorem unlinked_emplaceBack (more : back ≠ []) (handle : H) :
    unlinked (list.emplaceBack handle) node = (unlinked list node).emplaceBack handle := by
  have nextEq : list.next node = back.head? := by
    simpa using represents.activeChain.2.1
  rw [unlinked, unlinked, emplaceBack_next_first represents more, nextEq]
  cases back with
  | nil => contradiction
  | cons second later =>
      have member : second ∈ node :: second :: later :=
        List.mem_cons_of_mem node List.mem_cons_self
      exact (emplaceBack_setPrev_active represents rfl rfl member none handle).symm

/-- Before the read of `free_`, and with a second node once `next` is loaded,
the stage is that of a turn on the list with the new handle. -/
theorem Stage.insert_before {now : StaticList H N} {pc : PopPc N}
    (stage : Stage list node now pc) (early : 10 ≤ rank pc) (more : rank pc < 14 → back ≠ [])
    (handle : H) :
    Stage (list.emplaceBack handle) node (now.emplaceBack handle) pc := by
  cases pc with
  | testEmpty => exact congrArg (StaticList.emplaceBack · handle) stage
  | begin => exact congrArg (StaticList.emplaceBack · handle) stage
  | deref it => exact ⟨stage.1, congrArg (StaticList.emplaceBack · handle) stage.2⟩
  | testFirst => exact congrArg (StaticList.emplaceBack · handle) stage
  | loadFirst => exact congrArg (StaticList.emplaceBack · handle) stage
  | loadNext first => exact ⟨stage.1, congrArg (StaticList.emplaceBack · handle) stage.2⟩
  | clearPrev next =>
      have second : back ≠ [] := more (by simp [rank])
      rcases stage with ⟨hnext, rfl⟩
      exact ⟨hnext.trans (emplaceBack_next_first represents second handle).symm, rfl⟩
  | loadElem next =>
      have second : back ≠ [] := more (by simp [rank])
      rcases stage with ⟨rfl, rfl⟩
      exact ⟨(emplaceBack_next_first represents second handle).symm,
        (unlinked_emplaceBack represents second handle).symm⟩
  | clearElemPrev next elem =>
      have second : back ≠ [] := more (by simp [rank])
      rcases stage with ⟨rfl, rfl, rfl⟩
      exact ⟨(emplaceBack_next_first represents second handle).symm, rfl,
        (unlinked_emplaceBack represents second handle).symm⟩
  | loadFree next elem =>
      have second : back ≠ [] := more (by simp [rank])
      rcases stage with ⟨rfl, rfl, rfl⟩
      refine ⟨(emplaceBack_next_first represents second handle).symm, rfl, ?_⟩
      rw [unlinked_emplaceBack represents second]
      exact emplaceBack_setPrev_active represents (unlinked_free_ list elem)
        (unlinked_next list elem) List.mem_cons_self none handle
  | _ => simp [rank] at early

theorem Popping.insert_before {turn : PopTurn H N} (popping : Popping list node turn)
    (early : 10 ≤ rank turn.pc) (more : rank turn.pc < 14 → back ≠ []) (handle : H) :
    Popping (list.emplaceBack handle) node (turn.afterInsert handle) := by
  rcases popping with ⟨stage, held⟩
  constructor
  · exact stage.insert_before represents early more handle
  · intro later
    rw [StaticList.emplaceBack_value represents.freeHead,
      Function.update_of_ne (node_ne_elem represents)]
    exact held later

/-- An interrupt that comes early enough. -/
theorem Popping.consistent_early {turn : PopTurn H N} (popping : Popping list node turn)
    (early : 10 ≤ rank turn.pc) (more : rank turn.pc < 14 → back ≠ []) (handle : H) :
    turn.Consistent handle rest := by
  have inserted := emplaceBack_represents represents handle
  have constructed : (list.emplaceBack handle).value node = some popped :=
    (List.cons_eq_cons.mp inserted.values).1
  rcases (popping.insert_before represents early more handle).completes inserted.first constructed
    with ⟨count, final, ran, ⟨stage, -⟩, done⟩
  rw [done] at stage
  have final_eq : final.waiting_ = (list.emplaceBack handle).popFront := stage
  have represents' := inserted.popFront
  rw [← final_eq] at represents'
  exact consistent_of_represents ran done represents'

/-! ## The insertion may as well come last -/

theorem Popping.consistent_done {turn : PopTurn H N} (popping : Popping list node turn)
    (done : turn.pc = .done) (handle : H) : turn.Consistent handle rest := by
  rcases popping with ⟨stage, -⟩
  rw [done] at stage
  have popEq : turn.waiting_ = list.popFront := stage
  have represents' := emplaceBack_represents represents.popFront handle
  rw [← popEq] at represents'
  have nothing : Transition.run step (turn.afterInsert handle) (List.replicate 0 .main) =
      some (turn.afterInsert handle) := rfl
  exact consistent_of_represents nothing done represents'

/-- An interrupt before the last write, with a second node. -/
theorem Popping.consistent_storeFirst {turn : PopTurn H N} (popping : Popping list node turn)
    {next : NodePtr N} (last : turn.pc = .storeFirst next) (more : back ≠ []) (handle : H) :
    turn.Consistent handle rest := by
  rcases popping with ⟨stage, -⟩
  rw [last] at stage
  rcases stage with ⟨rfl, nowEq⟩
  have popEq : { turn.waiting_ with first_ := list.next node } = list.popFront := by
    rw [nowEq, StaticList.popFront_some represents.first]
    rfl
  have freeEq : turn.waiting_.free_ = some node := by
    rw [nowEq]
    rfl
  rcases List.exists_cons_of_ne_nil more with ⟨second, later, rfl⟩
  have nextEq : list.next node = some second := represents.activeChain.2.1
  have represents' := emplaceBack_represents represents.popFront handle
  rw [← popEq, nextEq, emplaceBack_withFirst freeEq] at represents'
  have stored : (turn.afterInsert handle).step .main = some
      { turn.afterInsert handle with
        pc := .done
        waiting_ := { turn.waiting_.emplaceBack handle with first_ := some second } } := by
    simp only [step, afterInsert, last, nextEq]
    rfl
  have ran : Transition.run step (turn.afterInsert handle) (List.replicate 1 .main) = some
      { turn.afterInsert handle with
        pc := .done
        waiting_ := { turn.waiting_.emplaceBack handle with first_ := some second } } :=
    Transition.run_cons_of_step stored rfl
  exact consistent_of_represents ran rfl represents'

end Safe

/-! ## Marks of damage -/

/-- The local `next`, once it is loaded. -/
def loaded : PopPc N → Option (NodePtr N)
  | .testEmpty | .begin | .deref _ | .testFirst | .loadFirst | .loadNext _ | .done => none
  | .clearPrev next => some (some next)
  | .loadElem next | .clearElemPrev next _ | .loadFree next _ | .storeElemNext next _ _
  | .testFree next _ | .loadFreeHead next _ | .storeFreePrev next _ _ | .storeFree next _
  | .compareFirst next | .compareLast next _ | .storeLast next | .storeFirst next => some next

/-- The turn is going to make the list empty, or has done so. -/
def EmptiesList (turn : PopTurn H N) : Prop :=
  loaded turn.pc = some none ∨ turn.pc = .done ∧ turn.waiting_.first_ = none

theorem EmptiesList.step_main {turn next : PopTurn H N} (empties : turn.EmptiesList)
    (stepped : turn.step .main = some next) : next.EmptiesList := by
  have accessed : turn.access = some next := stepped
  rcases empties with null | ⟨done, -⟩
  · rcases turn with ⟨pc, popped, now⟩
    cases pc with
    | testEmpty => cases null
    | begin => cases null
    | deref it => cases null
    | testFirst => cases null
    | loadFirst => cases null
    | loadNext first => cases null
    | done => cases null
    | clearPrev next => cases null
    | clearElemPrev _ _ =>
        rcases Option.map_eq_some_iff.mp accessed with ⟨node, -, rfl⟩
        exact Or.inl null
    | testFree _ _ =>
        cases accessed
        left
        dsimp only
        split <;> exact null
    | storeFreePrev _ _ _ =>
        rcases Option.map_eq_some_iff.mp accessed with ⟨node, -, rfl⟩
        exact Or.inl null
    | compareLast _ _ =>
        cases accessed
        left
        dsimp only
        split <;> exact null
    | storeFirst next =>
        cases accessed
        exact Or.inr ⟨rfl, Option.some.inj null⟩
    | _ =>
        cases accessed
        exact Or.inl null
  · rw [access, done] at accessed
    cases accessed

/-- The node `elem` that was the first free one is now the last of the list,
and the turn is going to put it behind `node` in the free chain. -/
def SharesNode (node elem : Fin N) (turn : PopTurn H N) : Prop :=
  turn.waiting_.last_ = some elem ∧
    match turn.pc with
    | .storeElemNext _ it free => it = node ∧ free = some elem ∧ turn.waiting_.first_ = some node
    | .testFree _ it | .loadFreeHead _ it | .storeFreePrev _ it _ | .storeFree _ it =>
        it = node ∧ turn.waiting_.next node = some elem ∧ turn.waiting_.first_ = some node
    | .compareFirst _ =>
        turn.waiting_.free_ = some node ∧ turn.waiting_.next node = some elem ∧
          turn.waiting_.first_ = some node
    | .compareLast _ first =>
        turn.waiting_.free_ = some node ∧ turn.waiting_.next node = some elem ∧ first = some node
    | .storeFirst _ | .done =>
        turn.waiting_.free_ = some node ∧ turn.waiting_.next node = some elem
    | _ => False

theorem SharesNode.step_main {turn next : PopTurn H N} (distinct : node ≠ elem)
    (shares : SharesNode node elem turn) (stepped : turn.step .main = some next) :
    SharesNode node elem next := by
  have accessed : turn.access = some next := stepped
  rcases turn with ⟨pc, popped, now⟩
  rcases shares with ⟨last, marks⟩
  cases pc with
  | storeElemNext _ it free =>
      rcases marks with ⟨rfl, rfl, first⟩
      cases accessed
      refine ⟨last, rfl, ?_, first⟩
      simp
  | testFree _ it =>
      cases accessed
      refine ⟨last, ?_⟩
      by_cases empty : now.free_ = none
      · simp only [if_pos empty]
        exact marks
      · simp only [if_neg empty]
        exact marks
  | loadFreeHead _ it =>
      cases accessed
      exact ⟨last, marks⟩
  | storeFreePrev _ it free =>
      rcases Option.map_eq_some_iff.mp accessed with ⟨node, -, rfl⟩
      refine ⟨last, marks.1, ?_, marks.2.2⟩
      rw [StaticList.setPrev_next]
      exact marks.2.1
  | storeFree _ it =>
      rcases marks with ⟨rfl, marks⟩
      cases accessed
      exact ⟨last, rfl, marks⟩
  | compareFirst _ =>
      cases accessed
      exact ⟨last, marks⟩
  | compareLast _ first =>
      rcases marks with ⟨free, next, rfl⟩
      have other : some node ≠ now.last_ := by
        rw [last]
        simpa using distinct
      cases accessed
      refine ⟨last, ?_⟩
      dsimp only
      rw [if_neg other]
      exact ⟨free, next⟩
  | storeFirst _ =>
      cases accessed
      exact ⟨last, marks⟩
  | done => cases accessed
  | _ => exact marks.elim

/-- The node `node` is first and last in the list again, but only until
`second` is made the first; `second` becomes the last node as well, although
there is one behind it. -/
def LosesEnd (node second : Fin N) (turn : PopTurn H N) : Prop :=
  turn.waiting_.next second ≠ none ∧
    match turn.pc with
    | .compareFirst next =>
        next = some second ∧ turn.waiting_.first_ = some node ∧ turn.waiting_.last_ = some node
    | .compareLast next first =>
        next = some second ∧ first = some node ∧ turn.waiting_.last_ = some node
    | .storeLast next => next = some second
    | .storeFirst _ | .done => turn.waiting_.last_ = some second
    | _ => False

theorem LosesEnd.step_main {second : Fin N} {turn next : PopTurn H N}
    (loses : LosesEnd node second turn) (stepped : turn.step .main = some next) :
    LosesEnd node second next := by
  have accessed : turn.access = some next := stepped
  rcases turn with ⟨pc, popped, now⟩
  rcases loses with ⟨behind, marks⟩
  cases pc with
  | compareFirst _ =>
      cases accessed
      exact ⟨behind, marks⟩
  | compareLast _ first =>
      rcases marks with ⟨nextEq, rfl, last⟩
      cases accessed
      refine ⟨behind, ?_⟩
      simp only [if_pos last.symm]
      exact nextEq
  | storeLast next =>
      cases accessed
      exact ⟨behind, marks⟩
  | storeFirst _ =>
      cases accessed
      exact ⟨behind, marks⟩
  | done => cases accessed
  | _ => exact marks.elim

/-! ## A turn that leaves a damaged list -/

/-- A mark that the rest of the turn keeps, and that no list with the handle
can bear at the end, rules consistency out. -/
theorem not_consistent_of_mark {turn : PopTurn H N} {handle : H} {others : List H}
    {mark : PopTurn H N → Prop}
    (kept : ∀ ⦃turn next : PopTurn H N⦄, mark turn → turn.step .main = some next → mark next)
    (damaged : ∀ ⦃final : PopTurn H N⦄, mark final → final.pc = .done →
      ∀ active free, final.waiting_.RepInvariant active free →
        handle ∉ final.waiting_.toList)
    (marked : mark (turn.afterInsert handle)) : ¬ turn.Consistent handle others := by
  rintro ⟨count, final, ran, done, ⟨active, free, invariant⟩, member, -⟩
  have remaining : Transition.run step (turn.afterInsert handle) (List.replicate count .main) =
      some final := ran
  have markedFinal := Transition.run_replicate_invariant kept marked remaining
  exact damaged markedFinal done active free invariant member

theorem not_consistent_of_emptiesList {turn : PopTurn H N} {handle : H} {others : List H}
    (marked : (turn.afterInsert handle).EmptiesList) : ¬ turn.Consistent handle others := by
  apply not_consistent_of_mark _ _ marked
  · intro turn next empties stepped
    exact empties.step_main stepped
  · rintro final (null | ⟨-, first⟩) done active free - member
    · rw [done] at null
      cases null
    · have nodes : final.waiting_.nodes = [] := by
        rw [StaticList.nodes, first]
        cases N <;> rfl
      rw [StaticList.toList, nodes] at member
      cases member

/-- No node is both in the list and free. -/
theorem not_consistent_of_sharesNode {turn : PopTurn H N} {handle : H} {others : List H}
    (distinct : node ≠ elem) (marked : SharesNode node elem (turn.afterInsert handle)) :
    ¬ turn.Consistent handle others := by
  apply not_consistent_of_mark _ _ marked
  · intro turn next shares stepped
    exact shares.step_main distinct stepped
  · rintro final ⟨last, marks⟩ done active free invariant -
    rw [done] at marks
    rcases marks with ⟨freeEq, nextEq⟩
    have inActive : elem ∈ active := by
      apply List.mem_of_getLast?
      rw [invariant.forwardEnd, last]
    have inFree : elem ∈ free := by
      have visits := invariant.freeForward
      rw [freeEq] at visits
      cases free with
      | nil => cases visits
      | cons head tail =>
          rcases visits with ⟨headEq, visits⟩
          cases headEq
          rw [nextEq] at visits
          cases tail with
          | nil => cases visits
          | cons second _ =>
              cases visits.1
              exact List.mem_cons_of_mem _ List.mem_cons_self
    have nodup : (active ++ free).Nodup :=
      invariant.partition.nodup_iff.mpr (List.nodup_finRange N)
    exact (List.nodup_append'.mp nodup).2.2 inActive inFree

theorem not_consistent_of_losesEnd {second : Fin N} {turn : PopTurn H N} {handle : H}
    {others : List H} (marked : LosesEnd node second (turn.afterInsert handle)) :
    ¬ turn.Consistent handle others := by
  apply not_consistent_of_mark _ _ marked
  · intro turn next loses stepped
    exact loses.step_main stepped
  · rintro final ⟨behind, marks⟩ done active free invariant -
    rw [done] at marks
    exact behind (invariant.lastNext second marks)

/-- Between the load of `next` and the last write, `next` is what it was when
the turn began. -/
theorem Stage.loaded_eq {now : StaticList H N} {pc : PopPc N} (stage : Stage list node now pc)
    (later : rank pc < 14) (unfinished : pc ≠ .done) : loaded pc = some (list.next node) := by
  cases pc with
  | testEmpty => simp [rank] at later
  | begin => simp [rank] at later
  | deref it => simp [rank] at later
  | testFirst => simp [rank] at later
  | loadFirst => simp [rank] at later
  | loadNext first => simp [rank] at later
  | done => contradiction
  | _ => exact congrArg some stage.1

/-- With a single node in the list, the interrupt comes too late once `next` is
loaded. -/
theorem Popping.not_consistent_single
    (represents : list.Represents [node] (elem :: free) (popped :: rest))
    {turn : PopTurn H N} (popping : Popping list node turn) (later : rank turn.pc < 14)
    (unfinished : turn.pc ≠ .done) (handle : H) (others : List H) :
    ¬ turn.Consistent handle others := by
  have nextEq : list.next node = none := represents.activeChain.2.1
  apply not_consistent_of_emptiesList
  left
  exact (popping.1.loaded_eq later unfinished).trans (congrArg some nextEq)

/-- The insertion takes the node that `free_` pointed to when it was read. -/
theorem sharesNode_emplaceBack {now : StaticList H N} (freeEq : now.free_ = some elem)
    (firstEq : now.first_ = some node) (distinct : node ≠ elem) (handle : H) :
    (now.emplaceBack handle).last_ = some elem ∧ (now.emplaceBack handle).first_ = some node ∧
      (now.next node = some elem → (now.emplaceBack handle).next node = some elem) := by
  refine ⟨StaticList.emplaceBack_last_ freeEq handle, ?_, ?_⟩
  · rw [StaticList.emplaceBack_first_ freeEq, firstEq]
    rfl
  · intro nextEq
    rw [StaticList.emplaceBack_next freeEq]
    by_cases last : now.last_ = some node
    · rw [last, store_some, Function.update_self]
    · rw [store_of_ne last, Function.update_of_ne distinct, nextEq]

/-- While `return_free_elem` is at work, `free_` and `first_` are still what
they were. -/
theorem Stage.returning {now : StaticList H N} {pc : PopPc N} (stage : Stage list node now pc)
    (late : rank pc < 10) (early : 5 ≤ rank pc) :
    now.free_ = list.free_ ∧ now.first_ = list.first_ ∧
      (rank pc < 9 → now.next node = list.free_) := by
  cases pc with
  | storeElemNext next it pointer =>
      rcases stage with ⟨-, -, -, rfl⟩
      simp [rank]
  | testFree next it =>
      rcases stage with ⟨-, -, rfl⟩
      simp
  | loadFreeHead next it =>
      rcases stage with ⟨-, -, -, rfl⟩
      simp
  | storeFreePrev next it pointer =>
      rcases stage with ⟨-, -, -, -, rfl⟩
      simp
  | storeFree next it =>
      rcases stage with ⟨-, -, rfl⟩
      simp
  | _ => simp [rank] at late early

/-- The interrupt comes while `return_free_elem` works with a value of `free_`
that it has read. -/
theorem Popping.not_consistent_shared
    (represents : list.Represents (node :: back) (elem :: free) (popped :: rest))
    {turn : PopTurn H N} (popping : Popping list node turn) (late : rank turn.pc < 10)
    (early : 5 ≤ rank turn.pc) (handle : H) (others : List H) :
    ¬ turn.Consistent handle others := by
  have distinct := node_ne_elem represents
  rcases turn with ⟨pc, taken, now⟩
  rcases popping with ⟨stage, -⟩
  rcases stage.returning late early with ⟨freeEq, firstEq, nextEq⟩
  rw [represents.freeHead] at freeEq nextEq
  rw [represents.first] at firstEq
  rcases sharesNode_emplaceBack freeEq firstEq distinct handle with ⟨last, first, next⟩
  apply not_consistent_of_sharesNode distinct
  cases pc with
  | storeElemNext _ it pointer =>
      exact ⟨last, stage.2.1, stage.2.2.1.trans represents.freeHead, first⟩
  | testFree _ it => exact ⟨last, stage.2.1, next (nextEq (by simp [rank])), first⟩
  | loadFreeHead _ it => exact ⟨last, stage.2.1, next (nextEq (by simp [rank])), first⟩
  | storeFreePrev _ it pointer => exact ⟨last, stage.2.1, next (nextEq (by simp [rank])), first⟩
  | storeFree _ it => exact ⟨last, stage.2.1, next (nextEq (by simp [rank])), first⟩
  | _ => simp [rank] at late early

/-- The second node has a successor once the returned first node is appended. -/
theorem emplaceBack_next_second {second : Fin N} {later : List (Fin N)}
    (represents : list.Represents (node :: second :: later) (elem :: free) (popped :: rest))
    (handle : H) :
    (((unlinked list node).returnFreeElem node).emplaceBack handle).next second ≠ none := by
  have nodup := represents.active_nodup
  have other : second ≠ node := by
    rintro rfl
    exact (List.nodup_cons.mp nodup).1 List.mem_cons_self
  rw [StaticList.emplaceBack_next rfl, StaticList.returnFreeElem_last_, unlinked_last_,
    represents.last]
  cases later with
  | nil =>
      change store _ (some second) _ second ≠ none
      rw [store_some, Function.update_self]
      exact Option.some_ne_none node
  | cons third later =>
      have notLast : (node :: second :: third :: later).getLast? ≠ some second := by
        intro last
        rw [List.getLast?_cons_cons] at last
        have tail := (List.nodup_cons.mp nodup).2
        simpa using (StaticList.head_eq_getLast_iff tail).mp last.symm
      have nextEq : list.next second = some third := represents.activeChain.2.2.2.1
      rw [store_of_ne notLast, Function.update_of_ne other, StaticList.returnFreeElem_next,
        Function.update_of_ne other, unlinked_next, nextEq]
      exact Option.some_ne_none third

/-- The interrupt comes when the first node is already returned, and before
`last_` is read. -/
theorem Popping.not_consistent_compare
    (represents : list.Represents (node :: back) (elem :: free) (popped :: rest))
    (more : back ≠ []) {turn : PopTurn H N} (popping : Popping list node turn)
    (late : rank turn.pc < 5) (early : 3 ≤ rank turn.pc) (handle : H) (others : List H) :
    ¬ turn.Consistent handle others := by
  rcases List.exists_cons_of_ne_nil more with ⟨second, later, rfl⟩
  have nextEq : list.next node = some second := represents.activeChain.2.1
  have behind := emplaceBack_next_second represents handle
  have last : (((unlinked list node).returnFreeElem node).emplaceBack handle).last_ = some node :=
    StaticList.emplaceBack_last_ rfl handle
  have first : (((unlinked list node).returnFreeElem node).emplaceBack handle).first_ =
      some node := by
    rw [StaticList.emplaceBack_first_ rfl, StaticList.returnFreeElem_first_, unlinked_first_,
      represents.first]
    rfl
  rcases turn with ⟨pc, taken, now⟩
  rcases popping with ⟨stage, -⟩
  suffices marked : LosesEnd node second (PopTurn.afterInsert ⟨pc, taken, now⟩ handle) from
    not_consistent_of_losesEnd marked
  cases pc with
  | compareFirst next =>
      rcases stage with ⟨rfl, rfl⟩
      exact ⟨behind, nextEq, first, last⟩
  | compareLast next head =>
      rcases stage with ⟨rfl, rfl, rfl⟩
      exact ⟨behind, nextEq, rfl, last⟩
  | _ => simp [rank] at late early

/-! ## The exact condition -/

theorem safeAt_iff (length : Nat) (pc : PopPc N) :
    SafeAt length pc ↔
      14 ≤ rank pc ∨ pc = .done ∨ (10 ≤ rank pc ∨ rank pc < 3) ∧ 2 ≤ length := by
  cases pc <;> simp [SafeAt, rank]

/-- The two accesses at the end, with a second node: only the last one can come
next. -/
theorem Popping.consistent_late
    (represents : list.Represents (node :: back) (elem :: free) (popped :: rest))
    (more : back ≠ []) {turn : PopTurn H N} (popping : Popping list node turn)
    (late : rank turn.pc < 3) (handle : H) : turn.Consistent handle rest := by
  cases hpc : turn.pc with
  | storeLast next =>
      have stage := popping.1
      rw [hpc] at stage
      exact absurd stage.2.1 (last_ne_node represents more)
  | storeFirst next => exact popping.consistent_storeFirst represents hpc more handle
  | done => exact popping.consistent_done represents hpc handle
  | _ => simp [hpc, rank] at late

/-- The interrupt does no harm at the safe accesses, and damages the list at all
others. -/
theorem Popping.consistent_iff
    (represents : list.Represents (node :: back) (elem :: free) (popped :: rest))
    {turn : PopTurn H N} (popping : Popping list node turn) (handle : H) :
    turn.Consistent handle rest ↔ SafeAt (popped :: rest).length turn.pc := by
  have length : (popped :: rest).length = (node :: back).length := represents.elements_length
  have several : 2 ≤ (popped :: rest).length ↔ back ≠ [] := by
    rw [length, List.length_cons, Nat.succ_le_succ_iff, Nat.one_le_iff_ne_zero, ne_eq,
      List.length_eq_zero_iff]
  rw [safeAt_iff, several]
  by_cases finished : turn.pc = .done
  · exact iff_of_true (popping.consistent_done represents finished handle) (by simp [finished])
  by_cases first : 14 ≤ rank turn.pc
  · have early : 10 ≤ rank turn.pc := by omega
    have unloaded : rank turn.pc < 14 → back ≠ [] := fun loaded => absurd first (by omega)
    exact iff_of_true (popping.consistent_early represents early unloaded handle) (Or.inl first)
  by_cases single : back = []
  · subst single
    have later : rank turn.pc < 14 := Nat.lt_of_not_le first
    exact iff_of_false (popping.not_consistent_single represents later finished handle rest)
      (by simp [finished, first])
  by_cases early : 10 ≤ rank turn.pc
  · exact iff_of_true (popping.consistent_early represents early (fun _ => single) handle)
      (by simp [early, single])
  by_cases late : rank turn.pc < 3
  · exact iff_of_true (popping.consistent_late represents single late handle)
      (by simp [late, single])
  · have damaged : ¬ turn.Consistent handle rest := by
      by_cases returning : 5 ≤ rank turn.pc
      · exact popping.not_consistent_shared represents (Nat.lt_of_not_le early) returning handle
          rest
      · exact popping.not_consistent_compare represents single (Nat.lt_of_not_le returning)
          (Nat.le_of_not_lt late) handle rest
    exact iff_of_false damaged (by simp [finished, first, early, late])

end Popped

end PopTurn

open PopTurn

namespace UnorderedSystem

variable {H : Type} {N : Nat} [NeZero N]

/-- In every reachable state with a waiting handle and room for another one,
and before every access of the turn that pops the first handle: the insertion
from an interrupt handler keeps the list consistent exactly at the safe
accesses. -/
theorem preempted_consistent_iff {system : UnorderedSystem H N} (reachable : system.Reachable)
    {popped : Insertion H} {rest : List (Insertion H)} (waits : system.waiting = popped :: rest)
    (room : system.waiting.length < N) {turn : PopTurn (Insertion H) N} {count : Nat}
    (reached : Transition.run PopTurn.step (start system.scheduler)
      (List.replicate count .main) = some turn) (handle : H) :
    turn.Consistent ⟨handle, system.serial⟩ rest ↔ SafeAt system.waiting.length turn.pc := by
  rcases reachable.balanced.holds with ⟨active, free, represents⟩
  rw [waits] at represents room ⊢
  have free_ne : free ≠ [] := by
    rintro rfl
    have lengths := represents.length_eq
    rw [← represents.elements_length, List.length_nil] at lengths
    omega
  have active_ne : active ≠ [] := by
    rintro rfl
    simpa using represents.elements_length
  rcases List.exists_cons_of_ne_nil free_ne with ⟨elem, free, rfl⟩
  rcases List.exists_cons_of_ne_nil active_ne with ⟨node, back, rfl⟩
  have constructed : system.scheduler.waiting_.value node = some popped :=
    (List.cons_eq_cons.mp represents.values).1
  have popping : Popping system.scheduler.waiting_ node turn := by
    apply Transition.run_replicate_invariant _ (start_popping node) reached
    intro turn next popping stepped
    exact popping.step_main represents.first constructed stepped
  exact popping.consistent_iff represents ⟨handle, system.serial⟩

/-- A new scheduler after some insertions. -/
def filled (N : Nat) [NeZero N] (handles : List Nat) : UnorderedSystem Nat N :=
  handles.foldl afterInsert (init fun _ => ⟨none, none, none⟩)

/-- With two handles waiting, the handler may still insert before `free_` is
read. -/
theorem preempted_consistent_iff_loadFree :
    ∃ turn, Transition.run PopTurn.step (start (filled 3 [7, 8]).scheduler)
        (List.replicate 9 .main) = some turn ∧
      turn.pc = .loadFree (some 1) 0 ∧ turn.Consistent ⟨9, 2⟩ [⟨8, 1⟩] := by
  have reachable : (filled 3 [7, 8]).Reachable := ⟨_, [.insert 7, .insert 8], rfl⟩
  have atLoad : (Transition.run PopTurn.step (start (filled 3 [7, 8]).scheduler)
      (List.replicate 9 .main)).map PopTurn.pc = some (.loadFree (some 1) 0) := by decide
  rcases Option.map_eq_some_iff.mp atLoad with ⟨turn, reached, pc⟩
  have waits : (filled 3 [7, 8]).waiting = [⟨7, 0⟩, ⟨8, 1⟩] := by decide
  have safe : SafeAt (filled 3 [7, 8]).waiting.length turn.pc := by
    rw [pc, waits]
    exact Nat.le_refl 2
  exact ⟨turn, reached, pc,
    (preempted_consistent_iff reachable waits (by decide) reached 9).mpr safe⟩

/-- With a single handle waiting, the handler inserts right behind the load of
`first_->next`, and its handle is lost. -/
theorem not_consistent_behind_loadNext :
    (filled 2 [7]).Reachable ∧ (filled 2 [7]).waiting = [⟨7, 0⟩] ∧
      ∃ turn, Transition.run PopTurn.step (start (filled 2 [7]).scheduler)
          (List.replicate 6 .main) = some turn ∧
        ¬ turn.Consistent ⟨8, 1⟩ [] := by
  have atLoad : (Transition.run PopTurn.step (start (filled 2 [7]).scheduler)
      (List.replicate 6 .main)).map PopTurn.pc = some (.loadElem none) := by decide
  rcases Option.map_eq_some_iff.mp atLoad with ⟨turn, reached, pc⟩
  refine ⟨⟨_, [.insert 7], rfl⟩, by decide, turn, reached, ?_⟩
  apply not_consistent_of_emptiesList
  left
  change loaded turn.pc = some none
  rw [pc]
  rfl

end UnorderedSystem

end BaremetalCoro
