import BaremetalCoro.Scheduler.Run

/-!
# Every stored insertion is accounted for

Over any run, with co-routines nesting calls as they like, the insertions made
while there was room are exactly the resumed ones and the waiting ones.  The
serial numbers of insertions are distinct, so none is resumed twice.  Nothing
is assumed about the wake condition here.
-/

namespace BaremetalCoro.System

open SchedulerOrdered

variable {C H : Type} {N : Nat}

/-- The serial number of the insertion an entry stems from. -/
def serialOf (entry : ScheduleEntry C (Insertion H)) : Nat :=
  entry.handle_.serial

/-- The history of a system balances. -/
structure Accounted (system : System C H N) : Prop where
  balance : system.stored.Perm (system.resumed ++ system.waiting)
  stamped : Order.Stamped serialOf system.stored system.serial

section Consequences

variable {system : System C H N}

/-- Resumed and waiting insertions are all distinct. -/
theorem Accounted.serials_nodup (accounted : system.Accounted) :
    ((system.resumed ++ system.waiting).map serialOf).Nodup :=
  (accounted.balance.map serialOf).nodup_iff.mp accounted.stamped.nodup

/-- What waits was not resumed. -/
theorem Accounted.not_resumed_of_waiting (accounted : system.Accounted)
    {entry : ScheduleEntry C (Insertion H)} (waits : entry ∈ system.waiting) :
    entry ∉ system.resumed := by
  intro ran
  have nodup := accounted.serials_nodup
  rw [List.map_append, List.nodup_append'] at nodup
  exact nodup.2.2 (List.mem_map_of_mem ran) (List.mem_map_of_mem waits)

theorem Accounted.mem_stored_iff (accounted : system.Accounted)
    (entry : ScheduleEntry C (Insertion H)) :
    entry ∈ system.stored ↔ entry ∈ system.resumed ∨ entry ∈ system.waiting := by
  rw [accounted.balance.mem_iff, List.mem_append]

theorem Accounted.waiting_fresh (accounted : system.Accounted)
    {entry : ScheduleEntry C (Insertion H)} (member : entry ∈ system.waiting) :
    serialOf entry < system.serial :=
  accounted.stamped.below entry ((accounted.mem_stored_iff entry).mpr (Or.inr member))

theorem Accounted.resumed_fresh (accounted : system.Accounted)
    {entry : ScheduleEntry C (Insertion H)} (member : entry ∈ system.resumed) :
    serialOf entry < system.serial :=
  accounted.stamped.below entry ((accounted.mem_stored_iff entry).mpr (Or.inl member))

end Consequences

variable [HasWakeUpTest C]

theorem inserted_perm {waiting : List (ScheduleEntry C H)} (room : waiting.length < N)
    (added : ScheduleEntry C H) : (inserted N waiting added).Perm (added :: waiting) := by
  rw [inserted, if_pos room]
  exact List.perm_orderedInsert Precedes added waiting

/-- An insertion with room adds one entry to the log and to the list. -/
theorem Accounted.insert {system next : System C H N} (accounted : system.Accounted)
    {handle : H} {wakeCondition : C}
    (waiting : next.waiting = inserted N system.waiting (system.newEntry handle wakeCondition))
    (stored : next.stored = if system.waiting.length < N then
        system.stored ++ [system.newEntry handle wakeCondition] else system.stored)
    (resumed : next.resumed = system.resumed)
    (serial : next.serial = system.serial + 1) : next.Accounted := by
  by_cases room : system.waiting.length < N
  · rw [if_pos room] at stored
    constructor
    · rw [stored, resumed, waiting]
      calc
        (system.stored ++ [system.newEntry handle wakeCondition]).Perm
            (system.newEntry handle wakeCondition :: system.stored) :=
          List.perm_append_singleton _ _
        List.Perm _ (system.newEntry handle wakeCondition ::
            (system.resumed ++ system.waiting)) := accounted.balance.cons _
        List.Perm _ (system.resumed ++ (system.newEntry handle wakeCondition ::
            system.waiting)) := List.perm_middle.symm
        List.Perm _ (system.resumed ++ inserted N system.waiting
            (system.newEntry handle wakeCondition)) :=
          (inserted_perm room _).symm.append_left _
    · rw [stored, serial]
      exact accounted.stamped.append rfl
  · rw [if_neg room] at stored
    rw [inserted, if_neg room] at waiting
    constructor
    · rw [stored, resumed, waiting]
      exact accounted.balance
    · rw [stored, serial]
      exact accounted.stamped.skip

/-- Every effect keeps the history balanced. -/
theorem Effect.accounted {system next : System C H N} {act : Act C H}
    (effect : Effect system next act) (accounted : system.Accounted) : next.Accounted := by
  cases effect with
  | insert waiting stored resumed serial _ =>
      exact accounted.insert waiting stored resumed serial
  | @resumed _ skipped rest entry before _ _ waiting resumed stored serial _ =>
      constructor
      · rw [stored, resumed, waiting]
        calc
          system.stored.Perm (system.resumed ++ (skipped ++ entry :: rest)) :=
            before ▸ accounted.balance
          List.Perm _ (system.resumed ++ (entry :: (skipped ++ rest))) :=
            List.perm_middle.append_left _
          List.Perm _ ((system.resumed ++ [entry]) ++ (skipped ++ rest)) := by
            rw [List.append_assoc]
            exact List.Perm.refl _
      · rw [stored, serial]
        exact accounted.stamped
  | idle _ same =>
      rw [same]
      exact accounted
  | suspend _ popped =>
      rw [popped]
      exact ⟨accounted.balance, accounted.stamped⟩

omit [HasWakeUpTest C] in
theorem init_accounted [NeZero N]
    (buffer : Fin N → StaticListNode (ScheduleEntry C (Insertion H)) N) :
    (init buffer : System C H N).Accounted := by
  constructor
  · rw [init_waiting]
    exact List.Perm.nil
  · exact Order.Stamped.nil serialOf 0

theorem Reachable.accounted [NeZero N] {system : System C H N}
    (reachable : system.Reachable) : system.Accounted := by
  apply (Reachable.induction Accounted init_accounted _ reachable).2
  intro before after act _ accounted effect
  exact effect.accounted accounted

/-- In every reachable state the insertions made with room are the resumed and
the waiting ones, no insertion occurs twice among them, a `resume` that finds
no due entry changes nothing, and `insert` and `resume` always return. -/
theorem stored_eq_resumed_add_waiting [NeZero N] {system : System C H N}
    (reachable : system.Reachable) :
    (system.stored : Multiset (ScheduleEntry C (Insertion H))) =
        (system.resumed : Multiset (ScheduleEntry C (Insertion H))) + system.waiting ∧
      (system.stored.map serialOf).Nodup ∧ (system.resumed.map serialOf).Nodup ∧
      (∀ readyCondition, (∀ entry ∈ system.waiting, entry.readyToWake readyCondition = false) →
        system.step (.resume readyCondition) = some system) ∧
      ∀ act : Act C H, act ≠ .suspend → ∃ next, system.step act = some next := by
  have accounted := reachable.accounted
  refine ⟨?_, accounted.stamped.nodup, ?_, ?_, ?_⟩
  · rw [Multiset.coe_add]
    exact Multiset.coe_eq_coe.mpr accounted.balance
  · have both := accounted.serials_nodup
    rw [List.map_append] at both
    exact (List.nodup_append'.mp both).1
  · intro readyCondition notReady
    simp only [System.step, Holds.resume_idle reachable.valid notReady, Option.map_some,
      afterResume]
  · intro act running
    rcases reachable.valid.step act (fun suspends => absurd suspends running) with
      ⟨next, stepEq, _, _⟩
    exact ⟨next, stepEq⟩

/-- Two co-routines wait; the first to run re-inserts itself and resumes the
scheduler before both give control back. -/
def nested (N : Nat) [NeZero N] : System ScheduleByPriority Nat N :=
  after [.insert 1 ⟨5⟩, .insert 2 ⟨7⟩, .resume ⟨0⟩, .insert 2 ⟨9⟩, .resume ⟨0⟩, .suspend, .suspend]

theorem stored_eq_resumed_add_waiting_nested :
    ((nested 2).stored.map serialOf, (nested 2).resumed.map serialOf) = ([0, 1, 2], [1, 2]) ∧
      ((nested 2).stored : Multiset (ScheduleEntry ScheduleByPriority (Insertion Nat))) =
        ((nested 2).resumed : Multiset (ScheduleEntry ScheduleByPriority (Insertion Nat))) +
          (nested 2).waiting := by
  constructor
  · decide
  · exact (stored_eq_resumed_add_waiting (after_reachable _)).1

end BaremetalCoro.System
