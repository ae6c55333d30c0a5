import BaremetalCoro.StaticList.Refinement

/-!
# The duplicated code paths of the static list

`pop_front` and `pop_back` unlink an end of the list with code of their own,
and `emplace` at `end()` repeats `emplace_back`.  The pops look at
`first_ == last_` where `erase` looks at the two neighbours of the node; these
tests agree because a node of the element chain is both ends only when it is
the only one.  The paths then leave the same object, link by link.
-/

namespace BaremetalCoro.StaticList

open Linked Transition

universe u

variable {T : Type u} {N : Nat} {list : StaticList T N} {active free : List (Fin N)}
  {elements : List T}

/-- A list that is not empty has a node. -/
theorem Represents.active_ne_nil (represents : list.Represents active free elements)
    (nonempty : list.empty = false) : active ≠ [] := by
  rintro rfl
  rw [empty, represents.first] at nonempty
  contradiction

/-- `pop_front` is `erase` at `begin()`. -/
theorem Represents.erase_begin {node : Fin N} {back : List (Fin N)}
    (represents : list.Represents (node :: back) free elements) :
    list.erase list.begin = some list.popFront := by
  have first : list.first_ = some node := represents.first
  have prevEq : list.prev node = none := represents.activeChain.1
  have nextEq : list.next node = back.head? := by
    simpa using represents.activeChain.2.1
  have ends : list.first_ = list.last_ ↔ list.next node = none := by
    rw [nextEq, List.head?_eq_none_iff]
    exact represents.first_eq_last_iff
  -- Without a neighbour in front `erase` writes nothing there.
  have silent : list.setNextIf none (list.next node) = list := rfl
  rw [begin, first, erase_some, popFront_some first, prevEq, silent]
  simp only [ends, if_true]
  by_cases alone : list.next node = none
  · rw [if_pos alone, if_pos alone, alone]
  · rw [if_neg alone, if_neg alone]

/-- `pop_back` is `erase` at the last element. -/
theorem Represents.erase_last {front : List (Fin N)} {node : Fin N}
    (represents : list.Represents (front ++ [node]) free elements) :
    list.erase ⟨list.last_⟩ = some list.popBack := by
  have last : list.last_ = some node := by
    rw [represents.last, List.getLast?_concat]
  have nextEq : list.next node = none := represents.next_eq
  have ends : list.first_ = list.last_ ↔ list.prev node = none := by
    rw [represents.prev_eq, List.getLast?_eq_none_iff]
    exact represents.first_eq_last_concat_iff
  have silent : (list.setNextIf (list.prev node) none).setPrevIf none (list.prev node) =
      list.setNextIf (list.prev node) none := rfl
  rw [last, erase_some, popBack_some last, nextEq, silent]
  simp only [ends, if_true]
  by_cases alone : list.prev node = none
  · rw [if_pos alone, if_pos alone, alone]
  · rw [if_neg alone, if_neg alone]

/-- The element from which one `++` reaches `end()` is the last one. -/
theorem Represents.erase_before_end (represents : list.Represents active free elements)
    {i : StaticListIterator N false} (live : list.Live i)
    (atEnd : list.increment i = list.end_) : list.erase i = some list.popBack := by
  obtain ⟨front, node, back, _, _, _, rfl, rfl, rfl, _⟩ := represents.live_split live
  rw [represents.increment_eq] at atEnd
  have nothing : back = [] := List.head?_eq_none_iff.mp (congrArg StaticListIterator.v_ atEnd)
  subst nothing
  have last : list.last_ = some node := by
    rw [represents.last, List.getLast?_concat]
  rw [← last]
  exact represents.erase_last

/-- In every state that a history of calls reaches, the pops of a list that is
not empty are `erase` at its ends, and `emplace` at `end()` is `emplace_back`,
as equalities of whole objects.  The last element is the one whose iterator
reaches `end()` by one `++`. -/
theorem duplicated_paths_agree [NeZero N] {buffer : Fin N → StaticListNode T N}
    {ops : List (Op T N)} {list : StaticList T N}
    (ran : run step (init buffer) ops = some list) :
    (list.empty = false → list.erase list.begin = some list.popFront) ∧
      (list.empty = false → list.erase ⟨list.last_⟩ = some list.popBack) ∧
      (∀ i, list.Live i → list.increment i = list.end_ → list.erase i = some list.popBack) ∧
      ∀ element, list.emplace list.end_ element = list.emplaceBack element := by
  obtain ⟨active, free, elements, represents⟩ := run_represents ran
  refine ⟨?_, ?_, ?_, ?_⟩
  · intro nonempty
    obtain ⟨node, back, rfl⟩ := List.exists_cons_of_ne_nil (represents.active_ne_nil nonempty)
    exact represents.erase_begin
  · intro nonempty
    rcases List.eq_nil_or_concat' active with rfl | ⟨front, node, rfl⟩
    · exact absurd rfl (represents.active_ne_nil nonempty)
    · exact represents.erase_last
  · intro i live atEnd
    exact represents.erase_before_end live atEnd
  · intro element
    exact (list.emplaceBack_eq_emplace_end element).symm

theorem duplicated_paths_agree_mixedOps :
    ∃ list : StaticList Nat 3, run step (init staleBuffer) (mixedOps.take 7) = some list ∧
      list.empty = false ∧ list.erase list.begin = some list.popFront ∧
      list.erase ⟨list.last_⟩ = some list.popBack := by
  have succeeds : (run step (init staleBuffer) (mixedOps.take 7)).isSome := by decide
  obtain ⟨list, ran⟩ := Option.isSome_iff_exists.mp succeeds
  have filled : (run step (init staleBuffer) (mixedOps.take 7)).all fun list => !list.empty := by
    decide
  have nonempty : list.empty = false := by
    simpa [ran] using filled
  obtain ⟨front, back, _⟩ := duplicated_paths_agree ran
  exact ⟨list, ran, nonempty, front nonempty, back nonempty⟩

end BaremetalCoro.StaticList
