import BaremetalCoro.Scheduler.Run

/-!
# The unordered scheduler

`scheduler_unordered<MAX_TASKS>` keeps plain handles in a `static_list`,
appends to its end and runs from its front.  Its `resume` loops until the list
is empty, and each turn of the loop hands control to a co-routine; one turn is
therefore a function of its own here, with the two ways it can go as data.

A run of the system interleaves insertions and calls of `resume` as the code
that has control likes.  When a co-routine gives control back, it is the loop
of the innermost call that takes it up again.
-/

namespace BaremetalCoro

/-- A container for co-routines that run in the order they were inserted. -/
structure SchedulerUnordered (H : Type) (N : Nat) where
  waiting_ : StaticList H N

namespace SchedulerUnordered

variable {H : Type} {N : Nat}

/-- The scheduler after its construction in storage that held `buffer`. -/
def init [NeZero N] (buffer : Fin N → StaticListNode H N) : SchedulerUnordered H N :=
  ⟨StaticList.init buffer⟩

/-- Test for an empty schedule list. -/
def empty (scheduler : SchedulerUnordered H N) : Bool :=
  scheduler.waiting_.empty

/-- The waiting handles in list order. -/
def entries (scheduler : SchedulerUnordered H N) : List H :=
  scheduler.waiting_.toList

/-- Insert an entry to be scheduled to run at a later point. -/
def insert (scheduler : SchedulerUnordered H N) (handle : H) : SchedulerUnordered H N :=
  ⟨scheduler.waiting_.emplaceBack handle⟩

/-- The two ways a turn of the loop of `resume` can go. -/
inductive Turn (H : Type) (N : Nat) where
  | resumed (handle : H) (scheduler : SchedulerUnordered H N)
  | done

/-- One turn of the loop of `resume`: the test, and the statements before
`handle.resume()`. -/
def resumeTurn (scheduler : SchedulerUnordered H N) : Option (Turn H N) :=
  if scheduler.waiting_.empty then some .done
  else do
    let handle ← scheduler.waiting_.deref scheduler.waiting_.begin
    return .resumed handle ⟨scheduler.waiting_.popFront⟩

/-! ## Specifications over the list of handles -/

/-- The scheduler is well formed and `waiting` are its handles. -/
def Holds (scheduler : SchedulerUnordered H N) (waiting : List H) : Prop :=
  ∃ active free, scheduler.waiting_.Represents active free waiting

theorem Holds.entries_eq {scheduler : SchedulerUnordered H N} {waiting : List H}
    (holds : scheduler.Holds waiting) : scheduler.entries = waiting := by
  rcases holds with ⟨active, free, represents⟩
  exact represents.toList_eq

theorem init_holds [NeZero N] (buffer : Fin N → StaticListNode H N) : (init buffer).Holds [] :=
  ⟨[], List.finRange N, StaticList.init_represents buffer⟩

/-- The handles after an insertion. -/
def appended (N : Nat) (waiting : List H) (handle : H) : List H :=
  if waiting.length < N then waiting ++ [handle] else waiting

/-- `insert` appends when there is room, and else changes nothing. -/
theorem Holds.insert {scheduler : SchedulerUnordered H N} {waiting : List H}
    (holds : scheduler.Holds waiting) (handle : H) :
    (scheduler.insert handle).Holds (appended N waiting handle) := by
  rcases holds with ⟨active, free, represents⟩
  have whole : scheduler.waiting_.Represents (active ++ []) free (waiting ++ []) := by
    simpa using represents
  have appendedAt := whole.emplace_at represents.elements_length handle
  rw [List.append_nil] at appendedAt
  rw [SchedulerUnordered.insert, StaticList.emplaceBack_eq_emplace_end]
  exact appendedAt

theorem Holds.empty_iff {scheduler : SchedulerUnordered H N} {waiting : List H}
    (holds : scheduler.Holds waiting) : scheduler.empty = true ↔ waiting = [] := by
  rcases holds with ⟨active, free, represents⟩
  exact represents.observes.empty

theorem Holds.front {scheduler : SchedulerUnordered H N} {handle : H} {rest : List H}
    (holds : scheduler.Holds (handle :: rest)) :
    scheduler.waiting_.deref scheduler.waiting_.begin = some handle := by
  rcases holds with ⟨active, free, represents⟩
  exact represents.observes.front

theorem Holds.popFront {scheduler : SchedulerUnordered H N} {handle : H} {rest : List H}
    (holds : scheduler.Holds (handle :: rest)) :
    (⟨scheduler.waiting_.popFront⟩ : SchedulerUnordered H N).Holds rest := by
  rcases holds with ⟨active, free, represents⟩
  exact represents.popFront_effect

theorem Holds.resumeTurn_nil {scheduler : SchedulerUnordered H N} (holds : scheduler.Holds []) :
    scheduler.resumeTurn = some .done := by
  have empty : scheduler.waiting_.empty = true := holds.empty_iff.mpr rfl
  rw [resumeTurn, if_pos empty]

/-- A turn on a list with a handle pops and runs the first one. -/
theorem Holds.resumeTurn_cons {scheduler : SchedulerUnordered H N} {handle : H} {rest : List H}
    (holds : scheduler.Holds (handle :: rest)) :
    ∃ scheduler', scheduler.resumeTurn = some (.resumed handle scheduler') ∧
      scheduler'.Holds rest := by
  have notEmpty : ¬ scheduler.waiting_.empty = true := by
    intro empty
    exact List.cons_ne_nil handle rest (holds.empty_iff.mp empty)
  have turnEq : scheduler.resumeTurn = some (.resumed handle ⟨scheduler.waiting_.popFront⟩) := by
    rw [resumeTurn, if_neg notEmpty, holds.front]
    rfl
  exact ⟨⟨scheduler.waiting_.popFront⟩, turnEq, holds.popFront⟩

end SchedulerUnordered

open SchedulerUnordered

/-- What the code that has control may do next with an unordered scheduler. -/
inductive UnorderedAct (H : Type) where
  | insert (handle : H)
  | resume
  | suspend

/-- An unordered scheduler with the number of calls in progress and its
history. -/
structure UnorderedSystem (H : Type) (N : Nat) where
  scheduler : SchedulerUnordered (Insertion H) N
  calls : Nat
  serial : Nat
  stored : List (Insertion H)
  resumed : List (Insertion H)

namespace UnorderedSystem

variable {H : Type} {N : Nat}

/-- The waiting handles of the scheduler. -/
def waiting (system : UnorderedSystem H N) : List (Insertion H) :=
  system.scheduler.entries

/-- A new scheduler in storage that held `buffer`. -/
def init [NeZero N] (buffer : Fin N → StaticListNode (Insertion H) N) : UnorderedSystem H N :=
  { scheduler := SchedulerUnordered.init buffer, calls := 0, serial := 0, stored := [],
    resumed := [] }

/-- The state once `insert` returned. -/
def afterInsert (system : UnorderedSystem H N) (handle : H) : UnorderedSystem H N :=
  { system with
    scheduler := system.scheduler.insert ⟨handle, system.serial⟩
    serial := system.serial + 1
    stored := if system.waiting.length < N then
        system.stored ++ [⟨handle, system.serial⟩]
      else system.stored }

/-- The state once the innermost call took a turn: either a co-routine runs
inside it, or it returned. -/
def afterTurn (system : UnorderedSystem H N) : Turn (Insertion H) N → UnorderedSystem H N
  | .resumed handle scheduler =>
      { system with scheduler := scheduler, resumed := system.resumed ++ [handle] }
  | .done => { system with calls := system.calls - 1 }

/-- One action of the code that has control. -/
def step : Transition.Step (UnorderedSystem H N) (UnorderedAct H) := fun system act =>
  match act with
  | .insert handle => some (system.afterInsert handle)
  | .resume =>
      system.scheduler.resumeTurn.map { system with calls := system.calls + 1 }.afterTurn
  | .suspend =>
      if system.calls = 0 then none else system.scheduler.resumeTurn.map system.afterTurn

/-- A state that some run reaches from a new scheduler. -/
def Reachable [NeZero N] (system : UnorderedSystem H N) : Prop :=
  ∃ buffer, Transition.Reachable step (init buffer) system

/-- Handles run in the order they were inserted: those inserted with room are
the ones that ran followed by the ones that wait. -/
structure Balanced (system : UnorderedSystem H N) : Prop where
  holds : system.scheduler.Holds system.waiting
  order : system.stored = system.resumed ++ system.waiting
  stamped : Order.Stamped Insertion.serial system.stored system.serial

theorem init_waiting [NeZero N] (buffer : Fin N → StaticListNode (Insertion H) N) :
    (init buffer).waiting = [] :=
  Holds.entries_eq (SchedulerUnordered.init_holds buffer)

theorem init_balanced [NeZero N] (buffer : Fin N → StaticListNode (Insertion H) N) :
    (init buffer).Balanced := by
  constructor
  · rw [init_waiting]
    exact SchedulerUnordered.init_holds buffer
  · rw [init_waiting]
    rfl
  · exact Order.Stamped.nil Insertion.serial 0

theorem Balanced.waiting_fresh {system : UnorderedSystem H N} (balanced : system.Balanced)
    {insertion : Insertion H} (member : insertion ∈ system.waiting) :
    insertion.serial < system.serial := by
  apply balanced.stamped.below
  rw [balanced.order]
  exact List.mem_append_right system.resumed member

theorem Balanced.afterInsert_waiting {system : UnorderedSystem H N} (balanced : system.Balanced)
    (handle : H) :
    (system.afterInsert handle).waiting =
      appended N system.waiting ⟨handle, system.serial⟩ :=
  (balanced.holds.insert ⟨handle, system.serial⟩).entries_eq

theorem Balanced.afterInsert {system : UnorderedSystem H N} (balanced : system.Balanced)
    (handle : H) : (system.afterInsert handle).Balanced := by
  have waitingEq := balanced.afterInsert_waiting handle
  have holds : (system.afterInsert handle).scheduler.Holds
      (system.afterInsert handle).waiting := by
    rw [waitingEq]
    exact balanced.holds.insert ⟨handle, system.serial⟩
  by_cases room : system.waiting.length < N
  · have storedEq : (system.afterInsert handle).stored =
        system.stored ++ [⟨handle, system.serial⟩] := if_pos room
    rw [appended, if_pos room] at waitingEq
    constructor
    · exact holds
    · rw [storedEq, waitingEq, balanced.order, List.append_assoc]
      rfl
    · rw [storedEq]
      exact balanced.stamped.append rfl
  · have storedEq : (system.afterInsert handle).stored = system.stored := if_neg room
    rw [appended, if_neg room] at waitingEq
    constructor
    · exact holds
    · rw [storedEq, waitingEq]
      exact balanced.order
    · rw [storedEq]
      exact balanced.stamped.skip

/-- A turn always succeeds, and it moves the first waiting handle to the log of
those that ran. -/
theorem Balanced.turn {system : UnorderedSystem H N} (balanced : system.Balanced) :
    ∃ turn, system.scheduler.resumeTurn = some turn ∧ (system.afterTurn turn).Balanced := by
  have holds := balanced.holds
  cases hwaiting : system.waiting with
  | nil =>
      rw [hwaiting] at holds
      exact ⟨.done, holds.resumeTurn_nil, balanced.holds, balanced.order, balanced.stamped⟩
  | cons handle rest =>
      rw [hwaiting] at holds
      rcases holds.resumeTurn_cons with ⟨scheduler, turnEq, holds'⟩
      have waitingEq : (system.afterTurn (.resumed handle scheduler)).waiting = rest :=
        holds'.entries_eq
      have order : system.stored = (system.resumed ++ [handle]) ++ rest := by
        rw [balanced.order, hwaiting, List.append_assoc]
        rfl
      rw [← waitingEq] at holds' order
      exact ⟨.resumed handle scheduler, turnEq, holds', order, balanced.stamped⟩

theorem Balanced.step {system next : UnorderedSystem H N} {act : UnorderedAct H}
    (balanced : system.Balanced) (stepped : system.step act = some next) : next.Balanced := by
  cases act with
  | insert handle =>
      cases stepped
      exact balanced.afterInsert handle
  | resume =>
      have entered : { system with calls := system.calls + 1 }.Balanced :=
        ⟨balanced.holds, balanced.order, balanced.stamped⟩
      rcases entered.turn with ⟨turn, turnEq, balanced'⟩
      simp only [UnorderedSystem.step, turnEq, Option.map_some, Option.some.injEq] at stepped
      rw [← stepped]
      exact balanced'
  | suspend =>
      rcases balanced.turn with ⟨turn, turnEq, balanced'⟩
      simp only [UnorderedSystem.step, turnEq, Option.map_some, Option.ite_none_left_eq_some,
        Option.some.injEq] at stepped
      rw [← stepped.2]
      exact balanced'

theorem Reachable.balanced [NeZero N] {system : UnorderedSystem H N}
    (reachable : system.Reachable) : system.Balanced := by
  rcases reachable with ⟨buffer, acts, ran⟩
  apply Transition.run_invariant _ (init_balanced buffer) ran
  intro before act after balanced stepped
  exact balanced.step stepped

end UnorderedSystem

end BaremetalCoro
