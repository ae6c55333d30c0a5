import BaremetalCoro.StaticList.Refinement

/-!
# Iterators of the static list stay valid

A call changes the element chain in one of three ways: not at all, by linking
in a node that was free, or by unlinking one node.  Values are only written in
the node that is linked in.  An iterator therefore keeps its element, and two
iterators keep their order, until a call removes the element itself, however
often other nodes are freed and reused in the meantime.
-/

namespace BaremetalCoro.StaticList

open Linked Transition

universe u

variable {T : Type u} {N : Nat}

/-- The node that a call takes out of the list. -/
def Op.removed (list : StaticList T N) : Op T N → NodePtr N
  | .emplace _ _ => none
  | .emplaceBack _ => none
  | .erase i => i.v_
  | .popFront => list.first_
  | .popBack => list.last_

/-- The call does not remove the element at `node`. -/
def Op.Spares (node : Fin N) (list : StaticList T N) (op : Op T N) : Prop :=
  op.removed list ≠ some node

instance (node : Fin N) (list : StaticList T N) (op : Op T N) : Decidable (op.Spares node list) :=
  inferInstanceAs (Decidable (op.removed list ≠ some node))

/-- What a call does to the element chain and to the values, given the node it
removes. -/
inductive Edited (list list' : StaticList T N) : NodePtr N → Prop where
  | kept (nodes : list'.nodes = list.nodes) (values : list'.value = list.value) :
      Edited list list' none
  | inserted {front back : List (Fin N)} {node : Fin N} (before : list.nodes = front ++ back)
      (after : list'.nodes = front ++ node :: back) (fresh : node ∉ list.nodes)
      (values : ∀ other, other ≠ node → list'.value other = list.value other) :
      Edited list list' none
  | removed {front back : List (Fin N)} {node : Fin N}
      (before : list.nodes = front ++ node :: back) (after : list'.nodes = front ++ back)
      (values : list'.value = list.value) : Edited list list' (some node)

namespace Edited

variable {list list' : StaticList T N} {removed : NodePtr N} {node other : Fin N}

/-- An element that is not removed stays in the chain. -/
theorem mem_nodes (edited : list.Edited list' removed) (member : node ∈ list.nodes)
    (spared : removed ≠ some node) : node ∈ list'.nodes := by
  cases edited with
  | kept nodes _ => rwa [nodes]
  | inserted before after _ _ =>
      rw [before] at member
      rw [after]
      exact List.Sublist.mem member (List.Sublist.append_left (List.sublist_cons_self _ _) _)
  | removed before after _ =>
      rw [before] at member
      rw [after]
      rcases List.mem_append.mp member with inFront | inBack
      · exact List.mem_append_left _ inFront
      · rcases List.mem_cons.mp inBack with rfl | inBack
        · exact absurd rfl spared
        · exact List.mem_append_right _ inBack

/-- The value of an element is not written. -/
theorem value_eq (edited : list.Edited list' removed) (member : node ∈ list.nodes) :
    list'.value node = list.value node := by
  cases edited with
  | kept _ values => rw [values]
  | inserted _ _ fresh values =>
      apply values
      rintro rfl
      exact fresh member
  | removed _ _ values => rw [values]

/-- Two elements that are not removed keep their order. -/
theorem idxOf_lt_iff (edited : list.Edited list' removed) (member : node ∈ list.nodes)
    (otherMember : other ∈ list.nodes) (spared : removed ≠ some node)
    (otherSpared : removed ≠ some other) :
    list'.nodes.idxOf node < list'.nodes.idxOf other ↔
      list.nodes.idxOf node < list.nodes.idxOf other := by
  cases edited with
  | kept nodes _ => rw [nodes]
  | @inserted front back linked before after fresh _ =>
      have nodeNe : node ≠ linked := by
        rintro rfl
        exact fresh member
      have otherNe : other ≠ linked := by
        rintro rfl
        exact fresh otherMember
      rw [before, after]
      exact idxOf_lt_insert_iff nodeNe otherNe
  | @removed front back unlinked before after _ =>
      have nodeNe : node ≠ unlinked := by
        rintro rfl
        exact spared rfl
      have otherNe : other ≠ unlinked := by
        rintro rfl
        exact otherSpared rfl
      rw [before, after]
      exact (idxOf_lt_insert_iff nodeNe otherNe).symm

end Edited

/-! ## Values -/

/-- `emplace` writes the value of the first free node and no other. -/
theorem emplace_value {list : StaticList T N} {elem : Fin N} (free : list.free_ = some elem)
    (i : StaticListIterator N false) (element : T) :
    (list.emplace i element).value = Function.update list.value elem (some element) := by
  have taken : ((({ list with free_ := list.next elem } : StaticList T N).setPrevIf
      (list.next elem) none).construct elem element).value =
        Function.update list.value elem (some element) := by
    rw [construct_value, setPrevIf_value]
    rfl
  rw [emplace, getFreeElem, free]
  cases hi : i.v_ with
  | none => exact (linkBack_value _ _).trans taken
  | some node => exact (linkBefore_value _ _ _).trans taken

/-- Erased elements leave their bytes where they are. -/
theorem erase_value {list list' : StaticList T N} {i : StaticListIterator N false}
    (erased : list.erase i = some list') : list'.value = list.value := by
  rcases i with ⟨_ | node⟩
  · contradiction
  · rw [erase_some] at erased
    cases erased
    exact (returnFreeElem_value _ _).trans (by simp)

theorem popFront_value (list : StaticList T N) : list.popFront.value = list.value := by
  cases first : list.first_ with
  | none =>
      rw [popFront, first]
  | some node =>
      rw [popFront_some first]
      exact (returnFreeElem_value _ _).trans (by simp)

theorem popBack_value (list : StaticList T N) : list.popBack.value = list.value := by
  cases last : list.last_ with
  | none =>
      rw [popBack, last]
  | some node =>
      rw [popBack_some last]
      exact (returnFreeElem_value _ _).trans (by simp)

/-! ## One call -/

section Step

variable {list list' : StaticList T N} {active free : List (Fin N)} {elements : List T}

/-- `emplace` links in the first free node, if there is one. -/
theorem Represents.emplace_edited (represents : list.Represents active free elements)
    {i : StaticListIterator N false} (allowed : i = list.end_ ∨ list.Live i) (element : T) :
    list.Edited (list.emplace i element) none := by
  cases free with
  | nil =>
      rw [represents.emplace_full]
      exact .kept rfl rfl
  | cons elem free =>
      have fresh : elem ∉ list.nodes := by
        rw [represents.nodes_eq]
        intro member
        exact represents.active_free_disjoint member List.mem_cons_self
      have values : ∀ other, other ≠ elem →
          (list.emplace i element).value other = list.value other := by
        intro other distinct
        rw [emplace_value represents.freeHead, Function.update_of_ne distinct]
      rcases allowed with rfl | live
      · have before : list.nodes = active ++ [] := by
          rw [represents.nodes_eq, List.append_nil]
        exact .inserted before (represents.emplace_end element).nodes_eq fresh values
      · obtain ⟨front, node, back, _, _, _, rfl, rfl, rfl, aligned⟩ := represents.live_split live
        exact .inserted represents.nodes_eq (represents.emplace_live aligned element).nodes_eq
          fresh values

/-- `erase` unlinks the node of its iterator. -/
theorem Represents.erase_edited (represents : list.Represents active free elements)
    {i : StaticListIterator N false} (live : list.Live i)
    (erased : list.erase i = some list') : list.Edited list' i.v_ := by
  obtain ⟨front, node, back, _, _, _, rfl, rfl, rfl, aligned⟩ := represents.live_split live
  obtain ⟨after, eraseEq, represents'⟩ := represents.erase aligned
  cases eraseEq.symm.trans erased
  exact .removed represents.nodes_eq represents'.nodes_eq (erase_value erased)

/-- `pop_front` unlinks the first node, if there is one. -/
theorem Represents.popFront_edited (represents : list.Represents active free elements) :
    list.Edited list.popFront list.first_ := by
  rw [represents.first]
  cases active with
  | nil =>
      rw [represents.popFront_nil]
      exact .kept rfl rfl
  | cons node back =>
      obtain ⟨element, rest, rfl⟩ :=
        List.exists_cons_of_length_eq_add_one represents.elements_length
      have before : list.nodes = [] ++ node :: back := represents.nodes_eq
      exact .removed before represents.popFront.nodes_eq list.popFront_value

/-- `pop_back` unlinks the last node, if there is one. -/
theorem Represents.popBack_edited (represents : list.Represents active free elements) :
    list.Edited list.popBack list.last_ := by
  rw [represents.last]
  rcases List.eq_nil_or_concat' active with rfl | ⟨front, node, rfl⟩
  · rw [represents.popBack_nil]
    exact .kept rfl rfl
  · obtain ⟨rest, element, rfl⟩ := represents.elements_concat
    have after : list.popBack.nodes = front ++ [] := by
      rw [represents.popBack.nodes_eq, List.append_nil]
    rw [List.getLast?_concat]
    exact .removed represents.nodes_eq after list.popBack_value

/-- Every call edits the chain at the node it removes. -/
theorem Represents.edited (represents : list.Represents active free elements) {op : Op T N}
    (stepped : list.step op = some list') : list.Edited list' (op.removed list) := by
  by_cases allowed : op.Allowed list
  · rw [StaticList.step, if_pos allowed] at stepped
    cases op with
    | emplace i element =>
        cases stepped
        exact represents.emplace_edited allowed element
    | emplaceBack element =>
        cases stepped
        exact represents.emplace_edited (Or.inl rfl) element
    | erase i => exact represents.erase_edited allowed stepped
    | popFront =>
        cases stepped
        exact represents.popFront_edited
    | popBack =>
        cases stepped
        exact represents.popBack_edited
  · rw [StaticList.step, if_neg allowed] at stepped
    contradiction

end Step

/-! ## Histories -/

section Histories

variable {list : StaticList T N} {active free : List (Fin N)} {elements : List T}
  {node other : Fin N}

/-- The list is represented, and the element that `node` had in `origin` is
still there. -/
def Retains (origin : StaticList T N) (node : Fin N) (list : StaticList T N) : Prop :=
  (∃ active free elements, list.Represents active free elements) ∧
    node ∈ list.nodes ∧ list.value node = origin.value node

/-- A call keeps the elements that it does not remove. -/
theorem Retains.step {origin list' : StaticList T N} {op : Op T N}
    (retains : Retains origin node list)
    (spared : op.Spares node list) (stepped : list.step op = some list') :
    Retains origin node list' := by
  obtain ⟨⟨active, free, elements, represents⟩, member, value⟩ := retains
  have edited := represents.edited stepped
  obtain ⟨active', free', represents'⟩ := represents.of_step stepped
  refine ⟨⟨active', free', _, represents'⟩, edited.mem_nodes member spared, ?_⟩
  rw [edited.value_eq member, value]

/-- A history keeps the elements that none of its calls removes. -/
theorem Retains.run {origin list' : StaticList T N} {ops : List (Op T N)}
    (retains : Retains origin node list) (spared : Along StaticList.step (Op.Spares node) list ops)
    (ran : Transition.run StaticList.step list ops = some list') : Retains origin node list' :=
  spared.invariant (fun _ _ _ => Retains.step) retains ran

/-- A history keeps the order of two elements that none of its calls removes. -/
theorem idxOf_lt_run {list' : StaticList T N} {ops : List (Op T N)}
    (retains : Retains list node list) (otherRetains : Retains list other list)
    (spared : Along StaticList.step (Op.Spares node) list ops)
    (otherSpared : Along StaticList.step (Op.Spares other) list ops)
    (ran : Transition.run StaticList.step list ops = some list') :
    list'.nodes.idxOf node < list'.nodes.idxOf other ↔
      list.nodes.idxOf node < list.nodes.idxOf other := by
  have both : Along StaticList.step (fun state op => op.Spares node state ∧ op.Spares other state)
      list ops := by
    intro front op rest middle split frontRan
    exact ⟨spared split frontRan, otherSpared split frontRan⟩
  have kept : Retains list node list' ∧ Retains list other list' ∧
      (list'.nodes.idxOf node < list'.nodes.idxOf other ↔
        list.nodes.idxOf node < list.nodes.idxOf other) := by
    apply both.invariant _ ⟨retains, otherRetains, Iff.rfl⟩ ran
    rintro state op next ⟨nodeRetains, otherRetains, order⟩ ⟨nodeSpared, otherSpared⟩ stepped
    refine ⟨nodeRetains.step nodeSpared stepped, otherRetains.step otherSpared stepped, ?_⟩
    obtain ⟨⟨active, free, elements, represents⟩, member, _⟩ := nodeRetains
    exact ((represents.edited stepped).idxOf_lt_iff member otherRetains.2.1 nodeSpared
      otherSpared).trans order
  exact kept.2.2

/-- An element of the list has a value. -/
theorem Represents.exists_value (represents : list.Represents active free elements)
    (member : node ∈ list.nodes) : ∃ element, list.value node = some element := by
  rw [represents.nodes_eq] at member
  obtain ⟨front, back, rfl⟩ := List.append_of_mem member
  obtain ⟨frontElements, element, backElements, rfl, aligned⟩ := represents.split
  exact ⟨element, represents.value_eq aligned⟩

/-- In every state that a history of calls reaches, an iterator to an element
stays valid over every further history that does not remove this element: its
node stays in the element chain and stores the same value.  Two such elements
keep their order. -/
theorem iterators_stable [NeZero N] {buffer : Fin N → StaticListNode T N}
    {before later : List (Op T N)} {list list' : StaticList T N}
    (ran : run step (init buffer) before = some list)
    (continued : run step list later = some list') :
    (∀ (reverse : Bool) (i : StaticListIterator N reverse) (node : Fin N), i.v_ = some node →
      node ∈ list.nodes → Along step (Op.Spares node) list later →
      node ∈ list'.nodes ∧
        ∃ element, list.deref i = some element ∧ list'.deref i = some element) ∧
      ∀ node ∈ list.nodes, ∀ other ∈ list.nodes, Along step (Op.Spares node) list later →
        Along step (Op.Spares other) list later →
        (list'.nodes.idxOf node < list'.nodes.idxOf other ↔
          list.nodes.idxOf node < list.nodes.idxOf other) := by
  have represented := run_represents ran
  constructor
  · intro reverse i node atNode member spared
    obtain ⟨active, free, elements, represents⟩ := represented
    obtain ⟨element, value⟩ := represents.exists_value member
    have retains : Retains list node list := ⟨⟨active, free, elements, represents⟩, member, rfl⟩
    obtain ⟨_, member', value'⟩ := retains.run spared continued
    refine ⟨member', element, ?_, ?_⟩
    · rw [deref, atNode]
      exact value
    · rw [deref, atNode]
      exact value'.trans value
  · intro node member other otherMember spared otherSpared
    exact idxOf_lt_run ⟨represented, member, rfl⟩ ⟨represented, otherMember, rfl⟩ spared
      otherSpared continued

/-- Iterators to the two outer elements of `mixedOps` outlive the erasure of
the element between them and the reuse of its node. -/
theorem iterators_stable_mixedOps :
    ∃ list list' : StaticList Nat 3, run step (init staleBuffer) (mixedOps.take 5) = some list ∧
      run step list ((mixedOps.drop 5).take 2) = some list' ∧
      (∃ element, list.deref (⟨some 2⟩ : StaticListIterator 3 false) = some element ∧
        list'.deref (⟨some 2⟩ : StaticListIterator 3 false) = some element) ∧
      (list'.nodes.idxOf 1 < list'.nodes.idxOf 2 ↔ list.nodes.idxOf 1 < list.nodes.idxOf 2) := by
  have succeeds : (run step (init staleBuffer) (mixedOps.take 5)).isSome := by decide
  obtain ⟨list, ran⟩ := Option.isSome_iff_exists.mp succeeds
  have further : (run step (init staleBuffer) (mixedOps.take 5)).all fun list =>
      (run step list ((mixedOps.drop 5).take 2)).isSome && decide (1 ∈ list.nodes) &&
        decide (2 ∈ list.nodes) &&
        decide (Along step (Op.Spares 1) list ((mixedOps.drop 5).take 2)) &&
        decide (Along step (Op.Spares 2) list ((mixedOps.drop 5).take 2)) := by
    decide
  simp only [ran, Option.all_some, Bool.and_eq_true, decide_eq_true_eq] at further
  obtain ⟨⟨⟨⟨laterSucceeds, first⟩, second⟩, firstSpared⟩, secondSpared⟩ := further
  obtain ⟨list', continued⟩ := Option.isSome_iff_exists.mp laterSucceeds
  obtain ⟨valid, order⟩ := iterators_stable ran continued
  exact ⟨list, list', ran, continued, (valid false ⟨some 2⟩ 2 rfl second secondSpared).2,
    order 1 first 2 second firstSpared secondSpared⟩

end Histories

end BaremetalCoro.StaticList
