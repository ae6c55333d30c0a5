import BaremetalCoro.Scheduler.Unordered

/-!
# A turn of `resume`, access by access

An interrupt can come between any two accesses to memory.  This module cuts
the statements of `resume` before `handle.resume()`, and those of `pop_front`
inside it, at their reads and writes of the pointers of the list.  The program
counter names the access that comes next and holds the local variables that
are still needed; tests of locals go with the access before them.

`Popping` says where the list stands at each access of a turn that is left
alone, so the turn as a whole is the `popFront` of the other modules.
-/

namespace BaremetalCoro

/-- The next access of the turn, with the locals that are live there.  In
`return_free_elem` the parameter `elem` is known not to be null once it has
been dereferenced. -/
inductive PopPc (N : Nat) where
  | testEmpty
  | begin
  | deref (it : NodePtr N)
  | testFirst
  | loadFirst
  | loadNext (first : NodePtr N)
  | clearPrev (next : Fin N)
  | loadElem (next : NodePtr N)
  | clearElemPrev (next elem : NodePtr N)
  | loadFree (next : NodePtr N) (elem : Fin N)
  | storeElemNext (next : NodePtr N) (elem : Fin N) (free : NodePtr N)
  | testFree (next : NodePtr N) (elem : Fin N)
  | loadFreeHead (next : NodePtr N) (elem : Fin N)
  | storeFreePrev (next : NodePtr N) (elem : Fin N) (free : NodePtr N)
  | storeFree (next : NodePtr N) (elem : Fin N)
  | compareFirst (next : NodePtr N)
  | compareLast (next first : NodePtr N)
  | storeLast (next : NodePtr N)
  | storeFirst (next : NodePtr N)
  | done
  deriving DecidableEq

/-- A turn of `resume` that is under way, with the local `handle`. -/
structure PopTurn (H : Type) (N : Nat) where
  pc : PopPc N
  handle : Option H
  waiting_ : StaticList H N

/-- What happens next while a turn is under way: an access of the turn, or an
interrupt whose handler inserts a handle. -/
inductive PopAct (H : Type) where
  | main
  | insert (handle : H)

namespace PopTurn

variable {H : Type} {N : Nat}

/-- A turn that has not yet looked at the list. -/
def start (scheduler : SchedulerUnordered H N) : PopTurn H N :=
  ⟨.testEmpty, none, scheduler.waiting_⟩

/-- `if (next)` behind the load of `next`. -/
def afterNext : NodePtr N → PopPc N
  | none => .loadElem none
  | some next => .clearPrev next

/-- The next access.  There is none left once `pop_front` returned, and a null
pointer that is dereferenced is a fault. -/
def access (turn : PopTurn H N) : Option (PopTurn H N) :=
  let list := turn.waiting_
  match turn.pc with
  | .testEmpty => some { turn with pc := if list.first_ = none then .done else .begin }
  | .begin => some { turn with pc := .deref list.first_ }
  | .deref it =>
      (it.bind list.value).map fun handle => { turn with pc := .testFirst, handle := some handle }
  -- pop_front
  | .testFirst => some { turn with pc := if list.first_ = none then .done else .loadFirst }
  | .loadFirst => some { turn with pc := .loadNext list.first_ }
  | .loadNext first => first.map fun node => { turn with pc := afterNext (list.next node) }
  | .clearPrev next =>
      some { turn with pc := .loadElem (some next), waiting_ := list.setPrev next none }
  -- return_free_elem
  | .loadElem next => some { turn with pc := .clearElemPrev next list.first_ }
  | .clearElemPrev next elem =>
      elem.map fun node =>
        { turn with pc := .loadFree next node, waiting_ := list.setPrev node none }
  | .loadFree next elem => some { turn with pc := .storeElemNext next elem list.free_ }
  | .storeElemNext next elem free =>
      some { turn with pc := .testFree next elem, waiting_ := list.setNext elem free }
  | .testFree next elem =>
      some { turn with
        pc := if list.free_ = none then .storeFree next elem else .loadFreeHead next elem }
  | .loadFreeHead next elem => some { turn with pc := .storeFreePrev next elem list.free_ }
  | .storeFreePrev next elem free =>
      free.map fun node =>
        { turn with pc := .storeFree next elem, waiting_ := list.setPrev node (some elem) }
  | .storeFree next elem =>
      some { turn with pc := .compareFirst next, waiting_ := { list with free_ := some elem } }
  -- the end of pop_front
  | .compareFirst next => some { turn with pc := .compareLast next list.first_ }
  | .compareLast next first =>
      some { turn with pc := if first = list.last_ then .storeLast next else .storeFirst next }
  | .storeLast next =>
      some { turn with pc := .storeFirst next, waiting_ := { list with last_ := next } }
  | .storeFirst next =>
      some { turn with pc := .done, waiting_ := { list with first_ := next } }
  | .done => none

/-- One access, or one interrupt.  The handler runs to its end before the turn
goes on. -/
def step : Transition.Step (PopTurn H N) (PopAct H) := fun turn act =>
  match act with
  | .main => turn.access
  | .insert handle =>
      some { turn with waiting_ := (SchedulerUnordered.insert ⟨turn.waiting_⟩ handle).waiting_ }

/-- How many accesses are left, at most. -/
def rank : PopPc N → Nat
  | .testEmpty => 19
  | .begin => 18
  | .deref _ => 17
  | .testFirst => 16
  | .loadFirst => 15
  | .loadNext _ => 14
  | .clearPrev _ => 13
  | .loadElem _ => 12
  | .clearElemPrev _ _ => 11
  | .loadFree _ _ => 10
  | .storeElemNext _ _ _ => 9
  | .testFree _ _ => 8
  | .loadFreeHead _ _ => 7
  | .storeFreePrev _ _ _ => 6
  | .storeFree _ _ => 5
  | .compareFirst _ => 4
  | .compareLast _ _ => 3
  | .storeLast _ => 2
  | .storeFirst _ => 1
  | .done => 0

/-! ## A turn that is left alone -/

/-- The list without its first node `node`, which is not yet returned. -/
def unlinked (list : StaticList H N) (node : Fin N) : StaticList H N :=
  list.setPrevIf (list.next node) none

/-- What the locals and the list `now` are at each access of a turn that pops
`node` from `list`. -/
def Stage (list : StaticList H N) (node : Fin N) (now : StaticList H N) : PopPc N → Prop
  | .testEmpty | .begin | .testFirst | .loadFirst => now = list
  | .deref it => it = some node ∧ now = list
  | .loadNext first => first = some node ∧ now = list
  | .clearPrev next => some next = list.next node ∧ now = list
  | .loadElem next => next = list.next node ∧ now = unlinked list node
  | .clearElemPrev next elem =>
      next = list.next node ∧ elem = some node ∧ now = unlinked list node
  | .loadFree next elem =>
      next = list.next node ∧ elem = node ∧
        now = (unlinked list node).setPrev node none
  | .storeElemNext next elem free =>
      next = list.next node ∧ elem = node ∧ free = list.free_ ∧
        now = (unlinked list node).setPrev node none
  | .testFree next elem =>
      next = list.next node ∧ elem = node ∧
        now = ((unlinked list node).setPrev node none).setNext node list.free_
  | .loadFreeHead next elem =>
      next = list.next node ∧ elem = node ∧ list.free_ ≠ none ∧
        now = ((unlinked list node).setPrev node none).setNext node list.free_
  | .storeFreePrev next elem free =>
      next = list.next node ∧ elem = node ∧ free = list.free_ ∧ list.free_ ≠ none ∧
        now = ((unlinked list node).setPrev node none).setNext node list.free_
  | .storeFree next elem =>
      next = list.next node ∧ elem = node ∧
        now = (((unlinked list node).setPrev node none).setNext node
          list.free_).setPrevIf list.free_ (some node)
  | .compareFirst next =>
      next = list.next node ∧ now = (unlinked list node).returnFreeElem node
  | .compareLast next first =>
      next = list.next node ∧ first = some node ∧
        now = (unlinked list node).returnFreeElem node
  | .storeLast next =>
      next = list.next node ∧ list.last_ = some node ∧
        now = (unlinked list node).returnFreeElem node
  | .storeFirst next =>
      next = list.next node ∧
        now = { (unlinked list node).returnFreeElem node with
          last_ := if list.first_ = list.last_ then list.next node else list.last_ }
  | .done => now = list.popFront

/-- A turn that pops `node` from `list` and is left alone; behind the access
`deref` it holds the handle. -/
def Popping (list : StaticList H N) (node : Fin N) (turn : PopTurn H N) : Prop :=
  Stage list node turn.waiting_ turn.pc ∧ (rank turn.pc < 17 → turn.handle = list.value node)

section Alone

variable {list : StaticList H N} {node : Fin N}

@[simp]
theorem unlinked_first_ (list : StaticList H N) (node : Fin N) :
    (unlinked list node).first_ = list.first_ :=
  list.setPrevIf_first_ (list.next node) none

@[simp]
theorem unlinked_last_ (list : StaticList H N) (node : Fin N) :
    (unlinked list node).last_ = list.last_ :=
  list.setPrevIf_last_ (list.next node) none

@[simp]
theorem unlinked_free_ (list : StaticList H N) (node : Fin N) :
    (unlinked list node).free_ = list.free_ :=
  list.setPrevIf_free_ (list.next node) none

@[simp]
theorem unlinked_next (list : StaticList H N) (node : Fin N) :
    (unlinked list node).next = list.next :=
  list.setPrevIf_next (list.next node) none

/-- Every access is defined and leads to the next stage. -/
theorem Stage.access (first : list.first_ = some node) {handle : H}
    (constructed : list.value node = some handle) {turn : PopTurn H N}
    (stage : Stage list node turn.waiting_ turn.pc) :
    turn.pc = .done ∨ ∃ next, turn.access = some next ∧
      Stage list node next.waiting_ next.pc ∧ rank next.pc < rank turn.pc := by
  rcases turn with ⟨pc, popped, now⟩
  cases pc with
  | testEmpty =>
      have unchanged : now = list := stage
      subst unchanged
      right
      simp [PopTurn.access, Stage, first, rank]
  | begin =>
      have unchanged : now = list := stage
      subst unchanged
      right
      simp [PopTurn.access, Stage, first, rank]
  | deref it =>
      rcases stage with ⟨rfl, rfl⟩
      right
      simp [PopTurn.access, Stage, constructed, rank]
  | testFirst =>
      have unchanged : now = list := stage
      subst unchanged
      right
      simp [PopTurn.access, Stage, first, rank]
  | loadFirst =>
      have unchanged : now = list := stage
      subst unchanged
      right
      simp [PopTurn.access, Stage, first, rank]
  | loadNext first =>
      rcases stage with ⟨rfl, rfl⟩
      right
      cases hnext : now.next node with
      | none =>
          simp [PopTurn.access, Stage, afterNext, unlinked, hnext, StaticList.setPrevIf, rank]
      | some next => simp [PopTurn.access, Stage, afterNext, hnext, rank]
  | clearPrev next =>
      rcases stage with ⟨hnext, rfl⟩
      right
      simp [PopTurn.access, Stage, unlinked, ← hnext, StaticList.setPrevIf, rank]
  | loadElem next =>
      rcases stage with ⟨rfl, rfl⟩
      right
      simp [PopTurn.access, Stage, first, rank]
  | clearElemPrev next elem =>
      rcases stage with ⟨rfl, rfl, rfl⟩
      right
      simp [PopTurn.access, Stage, rank]
  | loadFree next elem =>
      rcases stage with ⟨rfl, rfl, rfl⟩
      right
      simp [PopTurn.access, Stage, rank]
  | storeElemNext next elem free =>
      rcases stage with ⟨rfl, rfl, rfl, rfl⟩
      right
      simp [PopTurn.access, Stage, rank]
  | testFree next elem =>
      rcases stage with ⟨rfl, rfl, rfl⟩
      right
      cases hfree : list.free_ with
      | none => simp [PopTurn.access, Stage, hfree, StaticList.setPrevIf, rank]
      | some free => simp [PopTurn.access, Stage, hfree, rank]
  | loadFreeHead next elem =>
      rcases stage with ⟨rfl, rfl, some_, rfl⟩
      right
      simp [PopTurn.access, Stage, some_, rank]
  | storeFreePrev next elem free =>
      rcases stage with ⟨rfl, rfl, rfl, some_, rfl⟩
      right
      rcases Option.ne_none_iff_exists'.mp some_ with ⟨free, hfree⟩
      simp [PopTurn.access, Stage, hfree, StaticList.setPrevIf, rank]
  | storeFree next elem =>
      rcases stage with ⟨rfl, rfl, rfl⟩
      right
      simp [PopTurn.access, Stage, StaticList.returnFreeElem, rank]
  | compareFirst next =>
      rcases stage with ⟨rfl, rfl⟩
      right
      simp [PopTurn.access, Stage, first, rank]
  | compareLast next head =>
      rcases stage with ⟨rfl, rfl, rfl⟩
      right
      by_cases only : some node = list.last_
      · simp [PopTurn.access, Stage, only, rank]
      · have kept : list.last_ = ((unlinked list node).returnFreeElem node).last_ := by simp
        refine ⟨⟨.storeFirst (list.next node), popped, (unlinked list node).returnFreeElem node⟩,
          ?_, ⟨rfl, ?_⟩, ?_⟩
        · simp [PopTurn.access, only]
        · rw [first, if_neg only, kept]
        · simp [rank]
  | storeLast next =>
      rcases stage with ⟨rfl, last, rfl⟩
      right
      simp [PopTurn.access, Stage, first, last, rank]
  | storeFirst next =>
      rcases stage with ⟨rfl, rfl⟩
      right
      simp [PopTurn.access, Stage, rank, StaticList.popFront_some first, unlinked]
  | done => exact Or.inl rfl

/-- Behind the access `deref` the handle stays as it is. -/
theorem access_handle {turn next : PopTurn H N} (accessed : turn.access = some next)
    (later : rank turn.pc < 17) : next.handle = turn.handle := by
  rcases turn with ⟨pc, popped, now⟩
  cases pc with
  | testEmpty => simp [rank] at later
  | begin => simp [rank] at later
  | deref it => simp [rank] at later
  | loadNext first =>
      rcases Option.map_eq_some_iff.mp accessed with ⟨node, -, rfl⟩
      rfl
  | clearElemPrev next elem =>
      rcases Option.map_eq_some_iff.mp accessed with ⟨node, -, rfl⟩
      rfl
  | storeFreePrev next elem free =>
      rcases Option.map_eq_some_iff.mp accessed with ⟨node, -, rfl⟩
      rfl
  | done => cases accessed
  | _ =>
      cases accessed
      rfl

theorem Popping.access (first : list.first_ = some node) {handle : H}
    (constructed : list.value node = some handle) {turn : PopTurn H N}
    (popping : Popping list node turn) :
    turn.pc = .done ∨
      ∃ next, turn.access = some next ∧ Popping list node next ∧ rank next.pc < rank turn.pc := by
  rcases popping with ⟨stage, held⟩
  rcases stage.access first constructed with done | ⟨next, accessed, stage', lower⟩
  · exact Or.inl done
  · refine Or.inr ⟨next, accessed, ⟨stage', ?_⟩, lower⟩
    intro later
    by_cases past : rank turn.pc < 17
    · rw [access_handle accessed past, held past]
    · rcases turn with ⟨pc, popped, now⟩
      cases pc with
      | testEmpty =>
          have unchanged : now = list := stage
          cases accessed
          simp [unchanged, first, rank] at later
      | begin =>
          cases accessed
          simp [rank] at later
      | deref it =>
          rcases stage with ⟨rfl, rfl⟩
          rcases Option.map_eq_some_iff.mp accessed with ⟨read, readEq, rfl⟩
          exact readEq.symm
      | _ => simp [rank] at past

theorem Popping.step_main (first : list.first_ = some node) {handle : H}
    (constructed : list.value node = some handle) {turn next : PopTurn H N}
    (popping : Popping list node turn) (stepped : turn.step .main = some next) :
    Popping list node next := by
  have accessed : turn.access = some next := stepped
  rcases popping.access first constructed with done | ⟨next', accessed', popping', -⟩
  · rw [PopTurn.access, done] at accessed
    cases accessed
  · rw [accessed] at accessed'
    cases accessed'
    exact popping'

/-- The turn runs to its end when it is left alone from here on. -/
theorem Popping.completes (first : list.first_ = some node) {handle : H}
    (constructed : list.value node = some handle) {turn : PopTurn H N}
    (popping : Popping list node turn) :
    ∃ count final, Transition.run step turn (List.replicate count .main) = some final ∧
      Popping list node final ∧ final.pc = .done := by
  apply Transition.exists_run_replicate (fun turn => rank turn.pc) _ popping
  intro turn popping
  exact popping.access first constructed

end Alone

theorem start_popping {scheduler : SchedulerUnordered H N} (node : Fin N) :
    Popping scheduler.waiting_ node (start scheduler) := by
  constructor
  · rfl
  · intro later
    simp [start, rank] at later

/-- Access by access, a turn does what `resumeTurn` does. -/
theorem start_completes {scheduler : SchedulerUnordered H N} {handle : H} {rest : List H}
    (holds : scheduler.Holds (handle :: rest)) :
    ∃ count final, Transition.run step (start scheduler) (List.replicate count .main) =
        some final ∧
      final.pc = .done ∧ final.handle = some handle ∧
      scheduler.resumeTurn = some (.resumed handle ⟨final.waiting_⟩) := by
  have notEmpty : ¬ scheduler.waiting_.empty = true := by
    intro empty
    exact List.cons_ne_nil handle rest (holds.empty_iff.mp empty)
  rcases Option.bind_eq_some_iff.mp holds.front with ⟨node, first, constructed⟩
  rcases (start_popping node).completes first constructed with
    ⟨count, final, ran, ⟨stage, held⟩, done⟩
  rw [done] at stage held
  have popped : final.waiting_ = scheduler.waiting_.popFront := stage
  refine ⟨count, final, ran, done, ?_, ?_⟩
  · rw [held (Nat.zero_lt_succ 16), constructed]
  · rw [SchedulerUnordered.resumeTurn, if_neg notEmpty, holds.front, popped]
    rfl

end PopTurn

end BaremetalCoro
