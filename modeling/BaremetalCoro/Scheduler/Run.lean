import BaremetalCoro.Scheduler.Ordered

/-!
# Runs of an ordered scheduler

A run is any interleaving of calls on one scheduler.  Code that has control
calls `insert` or `resume`; a `resume` that finds a due entry passes control to
a co-routine, which has the same choices, may nest further `resume` calls, and
gives control back by suspending or finishing.  Nothing else is assumed about
co-routines, so the actions of a run are arbitrary.

`calls` is the stack of `resume` calls whose co-routine is running, each with
the local it will return.  Two logs record the history: the insertions made
while there was room, and the co-routines on which `resume()` was called.  The
scheduler never looks at a handle, so each insertion can carry a serial number
next to its handle; it tells apart the insertions of one co-routine.
-/

namespace BaremetalCoro

open SchedulerOrdered

/-- A co-routine handle and the serial number of its insertion. -/
structure Insertion (H : Type) where
  handle : H
  serial : Nat
  deriving DecidableEq

/-- What the code that has control may do next. -/
inductive Act (C H : Type) where
  | insert (handle : H) (wakeCondition : C)
  | resume (readyCondition : C)
  | suspend

/-- An ordered scheduler with the calls in progress and its history. -/
structure System (C H : Type) (N : Nat) where
  scheduler : SchedulerOrdered C (Insertion H) N
  calls : List (Option C)
  serial : Nat
  stored : List (ScheduleEntry C (Insertion H))
  resumed : List (ScheduleEntry C (Insertion H))

namespace System

variable {C H : Type} {N : Nat}

/-- The waiting entries of the scheduler. -/
def waiting (system : System C H N) : List (ScheduleEntry C (Insertion H)) :=
  system.scheduler.entries

/-- The entry an insertion would add. -/
def newEntry (system : System C H N) (handle : H) (wakeCondition : C) :
    ScheduleEntry C (Insertion H) :=
  ⟨⟨handle, system.serial⟩, wakeCondition⟩

/-- A new scheduler in storage that held `buffer`. -/
def init [NeZero N] (buffer : Fin N → StaticListNode (ScheduleEntry C (Insertion H)) N) :
    System C H N :=
  { scheduler := SchedulerOrdered.init buffer, calls := [], serial := 0, stored := [],
    resumed := [] }

variable [HasWakeUpTest C]

/-- The state once `insert` returned `scheduler`. -/
def afterInsert (system : System C H N) (handle : H) (wakeCondition : C)
    (scheduler : SchedulerOrdered C (Insertion H) N) : System C H N :=
  { system with
    scheduler := scheduler
    serial := system.serial + 1
    stored := if system.waiting.length < N then
        system.stored ++ [system.newEntry handle wakeCondition]
      else system.stored }

/-- The state once `resume` left its scan: either the co-routine runs inside
the call, or the call returned. -/
def afterResume (system : System C H N) : ResumeExit C (Insertion H) N → System C H N
  | .resumed handle c scheduler priorityCondition =>
      { system with
        scheduler := scheduler
        calls := priorityCondition :: system.calls
        resumed := system.resumed ++ [⟨handle, c⟩] }
  | .idle _ _ => system

/-- One action of the code that has control.  Only a running co-routine can
give control back. -/
def step : Transition.Step (System C H N) (Act C H) := fun system act =>
  match act with
  | .insert handle wakeCondition =>
      (system.scheduler.insert ⟨handle, system.serial⟩ wakeCondition).map
        (system.afterInsert handle wakeCondition)
  | .resume readyCondition => (system.scheduler.resume readyCondition).map system.afterResume
  | .suspend =>
      match system.calls with
      | [] => none
      | _ :: calls => some { system with calls := calls }

/-- A state that some run reaches from a new scheduler. -/
def Reachable [NeZero N] (system : System C H N) : Prop :=
  ∃ buffer, Transition.Reachable step (init buffer) system

theorem Reachable.continue [NeZero N] {system later : System C H N} (reachable : system.Reachable)
    (continued : Transition.Reachable step system later) : later.Reachable := by
  rcases reachable with ⟨buffer, reached⟩
  exact ⟨buffer, reached.trans continued⟩

theorem Reachable.step [NeZero N] {system next : System C H N} {act : Act C H}
    (reachable : system.Reachable) (stepped : system.step act = some next) : next.Reachable :=
  reachable.continue ((Transition.Reachable.refl System.step system).tail stepped)

/-- Storage that was never written to. -/
def blankBuffer : Fin N → StaticListNode (ScheduleEntry C (Insertion H)) N :=
  fun _ => ⟨none, none, none⟩

/-- The state that actions lead to in blank storage, or the initial state when
they cannot all be taken. -/
def after [NeZero N] (acts : List (Act C H)) : System C H N :=
  (Transition.run step (init blankBuffer) acts).getD (init blankBuffer)

theorem after_reachable [NeZero N] (acts : List (Act C H)) :
    (after acts : System C H N).Reachable := by
  refine ⟨blankBuffer, ?_⟩
  unfold after
  cases hrun : Transition.run step (init blankBuffer : System C H N) acts with
  | none => exact Transition.Reachable.refl step (init blankBuffer)
  | some system => exact ⟨acts, hrun⟩

/-! ## What one action does -/

/-- The waiting list of the scheduler is well formed. -/
def Valid (system : System C H N) : Prop :=
  system.scheduler.Holds system.waiting

/-- The effect of one action on the entries, the calls and the logs. -/
inductive Effect (system next : System C H N) : Act C H → Prop
  | insert {handle : H} {wakeCondition : C}
      (waiting : next.waiting =
        inserted N system.waiting (system.newEntry handle wakeCondition))
      (stored : next.stored = if system.waiting.length < N then
          system.stored ++ [system.newEntry handle wakeCondition] else system.stored)
      (resumed : next.resumed = system.resumed)
      (serial : next.serial = system.serial + 1)
      (calls : next.calls = system.calls) :
      Effect system next (.insert handle wakeCondition)
  | resumed {readyCondition : C} {skipped rest : List (ScheduleEntry C (Insertion H))}
      {entry : ScheduleEntry C (Insertion H)}
      (before : system.waiting = skipped ++ entry :: rest)
      (notReady : ∀ other ∈ skipped, other.readyToWake readyCondition = false)
      (ready : entry.readyToWake readyCondition = true)
      (waiting : next.waiting = skipped ++ rest)
      (resumed : next.resumed = system.resumed ++ [entry])
      (stored : next.stored = system.stored)
      (serial : next.serial = system.serial)
      (calls : next.calls =
        (skipped.map ScheduleEntry.wakeCondition_).foldl track none :: system.calls) :
      Effect system next (.resume readyCondition)
  | idle {readyCondition : C}
      (notReady : ∀ entry ∈ system.waiting, entry.readyToWake readyCondition = false)
      (same : next = system) :
      Effect system next (.resume readyCondition)
  | suspend {call : Option C} {rest : List (Option C)}
      (calls : system.calls = call :: rest)
      (popped : next = { system with calls := rest }) :
      Effect system next .suspend

omit [HasWakeUpTest C] in
theorem init_waiting [NeZero N]
    (buffer : Fin N → StaticListNode (ScheduleEntry C (Insertion H)) N) :
    (init buffer : System C H N).waiting = [] :=
  Holds.entries_eq (init_holds buffer)

omit [HasWakeUpTest C] in
theorem init_valid [NeZero N]
    (buffer : Fin N → StaticListNode (ScheduleEntry C (Insertion H)) N) :
    (init buffer : System C H N).Valid := by
  rw [Valid, init_waiting]
  exact init_holds buffer

/-- `insert` and `resume` always return, and no action faults. -/
theorem Valid.step {system : System C H N} (valid : system.Valid) (act : Act C H)
    (running : act = .suspend → system.calls ≠ []) :
    ∃ next, system.step act = some next ∧ next.Valid ∧ Effect system next act := by
  cases act with
  | insert handle wakeCondition =>
      obtain ⟨scheduler, insertEq, holds⟩ :=
        Holds.insert valid ⟨handle, system.serial⟩ wakeCondition
      have waitingEq : (system.afterInsert handle wakeCondition scheduler).waiting =
          inserted N system.waiting (system.newEntry handle wakeCondition) := holds.entries_eq
      refine ⟨system.afterInsert handle wakeCondition scheduler, ?_, ?_, ?_⟩
      · simp only [System.step, insertEq, Option.map_some]
      · rw [Valid, waitingEq]
        exact holds
      · exact Effect.insert waitingEq rfl rfl rfl rfl
  | resume readyCondition =>
      rcases Holds.resume_cases valid readyCondition with
        ⟨skipped, entry, rest, scheduler, before, notReady, ready, resumeEq, holds⟩ |
        ⟨notReady, resumeEq⟩
      · refine ⟨system.afterResume (.resumed entry.handle_ entry.wakeCondition_ scheduler
          ((skipped.map ScheduleEntry.wakeCondition_).foldl track none)), ?_, ?_, ?_⟩
        · simp only [System.step, resumeEq, Option.map_some]
        · change scheduler.Holds scheduler.entries
          rw [holds.entries_eq]
          exact holds
        · exact Effect.resumed before notReady ready holds.entries_eq rfl rfl rfl rfl
      · refine ⟨system, ?_, valid, Effect.idle notReady rfl⟩
        simp only [System.step, resumeEq, Option.map_some, afterResume]
  | suspend =>
      cases hcalls : system.calls with
      | nil => exact absurd hcalls (running rfl)
      | cons call rest =>
          refine ⟨{ system with calls := rest }, ?_, valid, Effect.suspend hcalls rfl⟩
          simp only [System.step, hcalls]

/-- Every successful action has its effect and keeps the list well formed. -/
theorem Valid.effect {system next : System C H N} {act : Act C H} (valid : system.Valid)
    (stepped : system.step act = some next) : next.Valid ∧ Effect system next act := by
  have running : act = .suspend → system.calls ≠ [] := by
    rintro rfl nothing
    simp only [System.step, nothing, reduceCtorEq] at stepped
  obtain ⟨next', stepEq, valid', effect⟩ := valid.step act running
  rw [stepped] at stepEq
  cases stepEq
  exact ⟨valid', effect⟩

/-- Apart from insertions the entries keep every relation between them. -/
theorem Effect.pairwise_waiting {system next : System C H N} {act : Act C H}
    (effect : Effect system next act)
    {related : ScheduleEntry C (Insertion H) → ScheduleEntry C (Insertion H) → Prop}
    (insertion : ∀ handle wakeCondition, act = .insert handle wakeCondition →
      (inserted N system.waiting (system.newEntry handle wakeCondition)).Pairwise related)
    (pairwise : system.waiting.Pairwise related) : next.waiting.Pairwise related := by
  cases effect with
  | insert waiting =>
      rw [waiting]
      exact insertion _ _ rfl
  | resumed before _ _ waiting =>
      rw [before] at pairwise
      rw [waiting]
      exact pairwise.sublist (List.Sublist.append_left (List.sublist_cons_self _ _) _)
  | idle _ same =>
      rw [same]
      exact pairwise
  | suspend _ popped =>
      rw [popped]
      exact pairwise

/-- What has been resumed stays in the log. -/
theorem Effect.mem_resumed {system next : System C H N} {act : Act C H}
    (effect : Effect system next act) {entry : ScheduleEntry C (Insertion H)}
    (ran : entry ∈ system.resumed) : entry ∈ next.resumed := by
  cases effect with
  | insert _ _ resumed =>
      rw [resumed]
      exact ran
  | resumed _ _ _ _ resumed =>
      rw [resumed]
      exact List.mem_append_left _ ran
  | idle _ same =>
      rw [same]
      exact ran
  | suspend _ popped =>
      rw [popped]
      exact ran

/-- A `resume` under which the first entry is due takes that entry. -/
theorem Valid.resume_head {system : System C H N} (valid : system.Valid)
    {entry : ScheduleEntry C (Insertion H)} {rest : List (ScheduleEntry C (Insertion H))}
    (waits : system.waiting = entry :: rest) {readyCondition : C}
    (ready : entry.readyToWake readyCondition = true) :
    ∃ next, system.step (.resume readyCondition) = some next ∧ next.waiting = rest ∧
      next.resumed = system.resumed ++ [entry] ∧ next.calls = none :: system.calls := by
  rw [Valid, waits, ← List.nil_append (entry :: rest)] at valid
  have nothing : ∀ other ∈ ([] : List (ScheduleEntry C (Insertion H))),
      other.readyToWake readyCondition = false := by
    intro other member
    contradiction
  rcases Holds.resume_ready valid nothing ready with ⟨scheduler, resumeEq, holds⟩
  refine ⟨system.afterResume (.resumed entry.handle_ entry.wakeCondition_ scheduler none), ?_,
    holds.entries_eq, rfl, rfl⟩
  simp only [System.step, resumeEq, Option.map_some]
  rfl

/-- An invariant of all runs: it holds of a new scheduler and every effect
keeps it. -/
theorem Reachable.induction [NeZero N] (keeps : System C H N → Prop)
    (initially : ∀ buffer, keeps (init buffer))
    (preserved : ∀ {before after : System C H N} {act : Act C H}, before.Valid → keeps before →
      Effect before after act → keeps after)
    {system : System C H N} (reachable : system.Reachable) : system.Valid ∧ keeps system := by
  obtain ⟨buffer, acts, ran⟩ := reachable
  have step : ∀ ⦃before : System C H N⦄ ⦃act after⦄, before.Valid ∧ keeps before →
      before.step act = some after → after.Valid ∧ keeps after := by
    rintro before act after ⟨valid, kept⟩ stepped
    obtain ⟨valid', effect⟩ := valid.effect stepped
    exact ⟨valid', preserved valid kept effect⟩
  exact Transition.run_invariant step ⟨init_valid buffer, initially buffer⟩ ran

theorem Reachable.valid [NeZero N] {system : System C H N} (reachable : system.Reachable) :
    system.Valid :=
  (Reachable.induction (fun _ => True) (fun _ => trivial) (fun _ _ _ => trivial) reachable).1

/-! ## Sorted entries -/

section Sorted

variable [LinearOrder C] [SoonestFirst C]

theorem Effect.sorted {system next : System C H N} {act : Act C H}
    (effect : Effect system next act) (sorted : Sorted system.waiting) : Sorted next.waiting := by
  apply effect.pairwise_waiting _ sorted
  intro handle wakeCondition _
  exact sorted.inserted (system.newEntry handle wakeCondition)

theorem Reachable.sorted [NeZero N] {system : System C H N} (reachable : system.Reachable) :
    Sorted system.waiting := by
  refine (Reachable.induction (fun system => Sorted system.waiting) ?_ ?_ reachable).2
  · intro buffer
    rw [init_waiting]
    exact List.Pairwise.nil
  · intro before after act _ sorted effect
    exact effect.sorted sorted

end Sorted

end System

end BaremetalCoro
