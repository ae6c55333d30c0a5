import BaremetalCoro.Scheduler.Ordering

/-!
# What `resume` reports to its caller

`resume` returns whether co-routines are pending and, optionally, a wake
condition its caller may sleep until.  The condition is collected from the
entries the scan passes over, so it is decided before any co-routine runs, and
it is the value returned even when that co-routine inserts entries and nests
further calls.

`ResumeCall` is a whole call, from its start to its return.  It relates the
states before and after to the pair returned, over all that the co-routine it
may run can do.
-/

namespace BaremetalCoro

open SchedulerOrdered

namespace SchedulerOrdered

variable {C H : Type} {N : Nat} [HasWakeUpTest C]

theorem track_isSome (priorityCondition : Option C) (wakeCondition : C) :
    (track priorityCondition wakeCondition).isSome = true := by
  cases priorityCondition with
  | none => rfl
  | some kept =>
      change (if readyToWake kept wakeCondition then some wakeCondition
        else some kept).isSome = true
      split
      · rfl
      · rfl

/-- The scan has a condition to report as soon as it passed over one entry. -/
theorem foldl_track_isSome (passed : List C) :
    (passed.foldl track none).isSome = !passed.isEmpty := by
  induction passed using List.reverseRecOn with
  | nil => rfl
  | append_singleton front last ih =>
      rw [List.foldl_append]
      simp only [List.foldl_cons, List.foldl_nil, track_isSome]
      simp

end SchedulerOrdered

namespace System

variable {C H : Type} {N : Nat}

section Calls

variable [HasWakeUpTest C]

/-- What a co-routine may do from the moment it has control until it is about
to give it back: insert entries and make whole calls of `resume`. -/
inductive Body : System C H N → System C H N → Prop
  | done (system : System C H N) : Body system system
  | insert {system next finish : System C H N} {handle : H} {wakeCondition : C}
      (inserts : system.step (.insert handle wakeCondition) = some next)
      (rest : Body next finish) : Body system finish
  | idle {system finish : System C H N} {readyCondition : C} {pending : Bool}
      {priorityCondition : Option C}
      (exits : system.scheduler.resume readyCondition = some (.idle pending priorityCondition))
      (rest : Body system finish) : Body system finish
  | nested {system inner returned finish : System C H N} {readyCondition c : C}
      {handle : Insertion H} {scheduler : SchedulerOrdered C (Insertion H) N}
      {priorityCondition : Option C}
      (exits : system.scheduler.resume readyCondition =
        some (.resumed handle c scheduler priorityCondition))
      (body : Body (system.afterResume (.resumed handle c scheduler priorityCondition)) inner)
      (suspends : inner.step .suspend = some returned)
      (rest : Body returned finish) : Body system finish

/-- A whole call of `resume`.  When a co-routine ran, the pair returned is read
off the frame of the call once it has given control back. -/
inductive ResumeCall (system : System C H N) (readyCondition : C) :
    System C H N → Bool × Option C → Prop
  | idle {pending : Bool} {priorityCondition : Option C}
      (exits : system.scheduler.resume readyCondition = some (.idle pending priorityCondition)) :
      ResumeCall system readyCondition system (pending, priorityCondition)
  | resumed {inner returned : System C H N} {handle : Insertion H} {c : C}
      {scheduler : SchedulerOrdered C (Insertion H) N} {atExit atReturn : Option C}
      {outer : List (Option C)}
      (exits : system.scheduler.resume readyCondition =
        some (.resumed handle c scheduler atExit))
      (body : Body (system.afterResume (.resumed handle c scheduler atExit)) inner)
      (frame : inner.calls = atReturn :: outer)
      (suspends : inner.step .suspend = some returned) :
      ResumeCall system readyCondition returned (true, atReturn)

theorem step_suspend_eq_some {system next : System C H N}
    (suspends : system.step .suspend = some next) :
    ∃ call, system.calls = call :: next.calls := by
  cases hcalls : system.calls with
  | nil => simp only [step, hcalls, reduceCtorEq] at suspends
  | cons call rest =>
      simp only [step, hcalls, Option.some.injEq] at suspends
      exact ⟨call, by rw [← suspends]⟩

theorem step_insert_calls {system next : System C H N} {handle : H} {wakeCondition : C}
    (inserts : system.step (.insert handle wakeCondition) = some next) :
    next.calls = system.calls := by
  simp only [step, Option.map_eq_some_iff] at inserts
  rcases inserts with ⟨scheduler, _, rfl⟩
  rfl

theorem step_resume {system : System C H N} {readyCondition : C}
    {exit : ResumeExit C (Insertion H) N}
    (exits : system.scheduler.resume readyCondition = some exit) :
    system.step (.resume readyCondition) = some (system.afterResume exit) := by
  simp only [step, exits, Option.map_some]

/-- The calls a co-routine makes leave the frames below them untouched. -/
theorem Body.calls {system finish : System C H N} (body : Body system finish) :
    finish.calls = system.calls := by
  induction body with
  | done => rfl
  | insert inserts _ ih => rw [ih, step_insert_calls inserts]
  | idle _ _ ih => exact ih
  | nested _ _ suspends _ innerCalls restCalls =>
      rcases step_suspend_eq_some suspends with ⟨call, frames⟩
      rw [innerCalls] at frames
      rw [restCalls]
      exact (List.cons.inj frames).2.symm

/-- A co-routine only takes steps of the system. -/
theorem Body.reachable {system finish : System C H N} (body : Body system finish) :
    Transition.Reachable step system finish := by
  induction body with
  | done => exact Transition.Reachable.refl step _
  | insert inserts _ ih => exact ((Transition.Reachable.refl step _).tail inserts).trans ih
  | idle _ _ ih => exact ih
  | nested exits _ suspends _ innerReached restReached =>
      have entered := (Transition.Reachable.refl step _).tail (step_resume exits)
      exact (entered.trans (innerReached.tail suspends)).trans restReached

/-- A whole call is a run of the system. -/
theorem ResumeCall.reachable {system returned : System C H N} {readyCondition : C}
    {result : Bool × Option C} (call : system.ResumeCall readyCondition returned result) :
    Transition.Reachable step system returned := by
  cases call with
  | idle _ => exact Transition.Reachable.refl step system
  | resumed exits body _ suspends =>
      have entered := (Transition.Reachable.refl step system).tail (step_resume exits)
      exact (entered.trans body.reachable).tail suspends

/-- The pair returned is decided at the exit of the scan, whatever the
co-routine does. -/
theorem ResumeCall.result_eq {system returned : System C H N} {readyCondition : C}
    {result : Bool × Option C} (call : system.ResumeCall readyCondition returned result) :
    ∃ exit, system.scheduler.resume readyCondition = some exit ∧ exit.result = result := by
  cases call with
  | idle exits => exact ⟨_, exits, rfl⟩
  | @resumed inner _ handle c scheduler atExit atReturn outer exits body frame _ =>
      have frames : atExit :: system.calls = atReturn :: outer := body.calls.symm.trans frame
      exact ⟨_, exits, congrArg (Prod.mk true) (List.cons.inj frames).1⟩

/-- A call whose co-routine gives control back at once. -/
theorem exists_resumeCall {system : System C H N} {readyCondition : C}
    {exit : ResumeExit C (Insertion H) N}
    (exits : system.scheduler.resume readyCondition = some exit) :
    ∃ returned, system.ResumeCall readyCondition returned exit.result := by
  cases exit with
  | idle pending priorityCondition => exact ⟨system, ResumeCall.idle exits⟩
  | resumed handle c scheduler priorityCondition =>
      exact ⟨_, ResumeCall.resumed exits (Body.done _) rfl rfl⟩

/-- The scan reports a condition together with `pending` exactly when it does
not stop at the first entry. -/
theorem Valid.result_isSome_iff {system : System C H N} (valid : system.Valid)
    {readyCondition : C} {exit : ResumeExit C (Insertion H) N}
    (exits : system.scheduler.resume readyCondition = some exit) :
    (exit.result.1 = true → exit.result.2.isSome = true) ↔
      ∀ first, system.waiting.head? = some first → first.readyToWake readyCondition = false := by
  rcases Holds.resume_cases valid readyCondition with
    ⟨skipped, entry, rest, scheduler, before, notReady, ready, resumeEq, _⟩ |
    ⟨notReady, resumeEq⟩
  · cases Option.some.inj (exits.symm.trans resumeEq)
    rw [before]
    simp only [ResumeExit.result, forall_const, foldl_track_isSome]
    cases skipped with
    | nil => simp [ready]
    | cons first others => simpa using notReady first List.mem_cons_self
  · cases Option.some.inj (exits.symm.trans resumeEq)
    simp only [ResumeExit.result, foldl_track_isSome, List.isEmpty_map]
    constructor
    · intro _ first isHead
      exact notReady first (List.mem_of_head? isHead)
    · intro _ pending
      exact pending

/-- Every call of `resume` can return, and whenever it returns, `pending` comes
with a wake condition exactly when the first waiting entry was not due. -/
theorem pending_reports_condition_iff [NeZero N] {system : System C H N}
    (reachable : system.Reachable) (readyCondition : C) :
    (∃ returned result, system.ResumeCall readyCondition returned result) ∧
      ∀ returned result, system.ResumeCall readyCondition returned result →
        ((result.1 = true → result.2.isSome = true) ↔
          ∀ first, system.waiting.head? = some first →
            first.readyToWake readyCondition = false) := by
  have exits : ∃ exit, system.scheduler.resume readyCondition = some exit := by
    rcases Holds.resume_cases reachable.valid readyCondition with
      ⟨_, _, _, _, _, _, _, resumeEq, _⟩ | ⟨_, resumeEq⟩
    · exact ⟨_, resumeEq⟩
    · exact ⟨_, resumeEq⟩
  constructor
  · rcases exits with ⟨exit, resumeEq⟩
    rcases exists_resumeCall resumeEq with ⟨returned, call⟩
    exact ⟨returned, exit.result, call⟩
  · intro returned result call
    rcases call.result_eq with ⟨exit, resumeEq, rfl⟩
    exact reachable.valid.result_isSome_iff resumeEq

/-- One co-routine waits. -/
def oneDelay (N : Nat) [NeZero N] : System ScheduleByDelay Nat N :=
  after [.insert 1 ⟨5⟩]

theorem pending_reports_condition_oneDelay :
    ∃ returned result, (oneDelay 2).ResumeCall ⟨3⟩ returned result ∧
      (result.1 = true → result.2.isSome = true) := by
  have reachable : (oneDelay 2).Reachable := after_reachable _
  have answered := pending_reports_condition_iff reachable ⟨3⟩
  rcases answered.1 with ⟨returned, result, call⟩
  exact ⟨returned, result, call, (answered.2 returned result call).mpr (by decide)⟩

/-- Once its expiry has passed, the call that runs it returns `pending` and no
condition. -/
theorem pending_without_condition_oneDelay :
    (oneDelay 2).Reachable ∧
      ¬ ∀ returned result, (oneDelay 2).ResumeCall ⟨7⟩ returned result →
        result.1 = true → result.2.isSome = true := by
  constructor
  · exact after_reachable _
  · intro reports
    have exits : ((oneDelay 2).scheduler.resume ⟨7⟩).map ResumeExit.result =
        some (true, none) := by decide
    rcases Option.map_eq_some_iff.mp exits with ⟨exit, resumeEq, resultEq⟩
    rcases exists_resumeCall resumeEq with ⟨returned, call⟩
    rw [resultEq] at call
    have reported := reports returned _ call rfl
    contradiction

end Calls

/-! ## The soonest waiting entry -/

section Soonest

variable [HasWakeUpTest C] [LinearOrder C] [SoonestFirst C]

/-- A call that finds nothing due reports the condition of a waiting entry that
is due no later than any other. -/
def ReportsSoonest (system : System C H N) (readyCondition : C) : Prop :=
  ∃ exit soonest, system.scheduler.resume readyCondition = some exit ∧
    exit.result.2 = some soonest.wakeCondition_ ∧ soonest ∈ system.waiting ∧
    ∀ entry ∈ system.waiting, soonest.wakeCondition_ ≤ entry.wakeCondition_

omit [HasWakeUpTest C] [SoonestFirst C] in
theorem sorted_le_getLast {waiting : List (ScheduleEntry C (Insertion H))}
    (sorted : Sorted waiting) {last : ScheduleEntry C (Insertion H)}
    (isLast : waiting.getLast? = some last) {entry : ScheduleEntry C (Insertion H)}
    (member : entry ∈ waiting) : entry.wakeCondition_ ≤ last.wakeCondition_ := by
  rcases List.getLast?_eq_some_iff.mp isLast with ⟨front, rfl⟩
  rcases List.mem_append.mp member with inFront | isEntry
  · exact (List.pairwise_append.mp sorted).2.2 entry inFront last List.mem_cons_self
  · rw [List.mem_singleton.mp isEntry]

/-- The scan reports the last entry of the sorted list, so it reports a soonest
one only when all entries are due equally soon. -/
theorem Reachable.reportsSoonest_iff [NeZero N] {system : System C H N}
    (reachable : system.Reachable) {readyCondition : C}
    (notReady : ∀ entry ∈ system.waiting, entry.readyToWake readyCondition = false)
    (waits : system.waiting ≠ []) :
    system.ReportsSoonest readyCondition ↔
      ∀ first ∈ system.waiting, ∀ second ∈ system.waiting,
        first.wakeCondition_ = second.wakeCondition_ := by
  have sorted := reachable.sorted
  have resumeEq := Holds.resume_idle reachable.valid notReady
  rw [sorted.foldl_track, List.getLast?_eq_some_getLast waits, Option.map_some] at resumeEq
  have bound : ∀ entry ∈ system.waiting,
      entry.wakeCondition_ ≤ (system.waiting.getLast waits).wakeCondition_ := by
    intro entry member
    exact sorted_le_getLast sorted (List.getLast?_eq_some_getLast waits) member
  constructor
  · rintro ⟨exit, soonest, exits, reported, _, least⟩
    cases Option.some.inj (exits.symm.trans resumeEq)
    have lastEq : (system.waiting.getLast waits).wakeCondition_ = soonest.wakeCondition_ :=
      Option.some.inj reported
    have allEq : ∀ entry ∈ system.waiting, entry.wakeCondition_ = soonest.wakeCondition_ := by
      intro entry member
      exact le_antisymm (lastEq ▸ bound entry member) (least entry member)
    intro first firstWaits second secondWaits
    rw [allEq first firstWaits, allEq second secondWaits]
  · intro allEq
    have lastWaits := List.getLast_mem waits
    have least : ∀ entry ∈ system.waiting,
        (system.waiting.getLast waits).wakeCondition_ ≤ entry.wakeCondition_ := by
      intro entry member
      exact (allEq _ lastWaits entry member).le
    exact ⟨_, system.waiting.getLast waits, resumeEq, rfl, lastWaits, least⟩

end Soonest

/-- `resume` reports the least expiry of the waiting entries. -/
def ReportsLeastExpiry (system : System ScheduleByDelay H N)
    (readyCondition : ScheduleByDelay) : Prop :=
  ∃ exit soonest, system.scheduler.resume readyCondition = some exit ∧
    exit.result.2 = some soonest.wakeCondition_ ∧ soonest ∈ system.waiting ∧
    ∀ entry ∈ system.waiting, soonest.wakeCondition_.expires_ ≤ entry.wakeCondition_.expires_

/-- `resume` reports the highest priority of the waiting entries. -/
def ReportsHighestPriority (system : System ScheduleByPriority H N)
    (readyCondition : ScheduleByPriority) : Prop :=
  ∃ exit soonest, system.scheduler.resume readyCondition = some exit ∧
    exit.result.2 = some soonest.wakeCondition_ ∧ soonest ∈ system.waiting ∧
    ∀ entry ∈ system.waiting, entry.wakeCondition_.priority_ ≤ soonest.wakeCondition_.priority_

/-- When nothing is due, `resume` reports the least expiry, or the highest
priority, of the waiting entries exactly when these are all equal. -/
theorem resume_reports_soonest_iff [NeZero N] :
    (∀ (system : System ScheduleByDelay H N) (readyCondition : ScheduleByDelay),
      system.Reachable → system.waiting ≠ [] →
      (∀ entry ∈ system.waiting, entry.readyToWake readyCondition = false) →
      (system.ReportsLeastExpiry readyCondition ↔
        ∀ first ∈ system.waiting, ∀ second ∈ system.waiting,
          first.wakeCondition_.expires_ = second.wakeCondition_.expires_)) ∧
    (∀ (system : System ScheduleByPriority H N) (readyCondition : ScheduleByPriority),
      system.Reachable → system.waiting ≠ [] →
      (∀ entry ∈ system.waiting, entry.readyToWake readyCondition = false) →
      (system.ReportsHighestPriority readyCondition ↔
        ∀ first ∈ system.waiting, ∀ second ∈ system.waiting,
          first.wakeCondition_.priority_ = second.wakeCondition_.priority_)) := by
  constructor
  · intro system readyCondition reachable waits notReady
    have decided := reachable.reportsSoonest_iff notReady waits
    simp only [← ScheduleByDelay.expires_injective.eq_iff] at decided
    exact decided
  · intro system readyCondition reachable waits notReady
    have decided := reachable.reportsSoonest_iff notReady waits
    simp only [← ScheduleByPriority.priority_injective.eq_iff] at decided
    exact decided

/-- Two co-routines wait for the same time. -/
def equalDelays (N : Nat) [NeZero N] : System ScheduleByDelay Nat N :=
  after [.insert 1 ⟨5⟩, .insert 2 ⟨5⟩]

/-- Two co-routines wait with the same priority. -/
def equalPriorities (N : Nat) [NeZero N] : System ScheduleByPriority Nat N :=
  after [.insert 1 ⟨3⟩, .insert 2 ⟨3⟩]

theorem resume_reports_soonest_equal :
    (equalDelays 2).ReportsLeastExpiry ⟨4⟩ ∧ (equalPriorities 2).ReportsHighestPriority ⟨4⟩ := by
  have decided := resume_reports_soonest_iff (H := Nat) (N := 2)
  constructor
  · exact (decided.1 (equalDelays 2) ⟨4⟩ (after_reachable _) (by decide) (by decide)).mpr
      (by decide)
  · exact (decided.2 (equalPriorities 2) ⟨4⟩ (after_reachable _) (by decide) (by decide)).mpr
      (by decide)

/-- Two co-routines wait for different times. -/
def twoDelays (N : Nat) [NeZero N] : System ScheduleByDelay Nat N :=
  after [.insert 1 ⟨5⟩, .insert 2 ⟨9⟩]

/-- Two co-routines wait with different priorities. -/
def twoPriorities (N : Nat) [NeZero N] : System ScheduleByPriority Nat N :=
  after [.insert 1 ⟨3⟩, .insert 2 ⟨2⟩]

/-- The later expiry and the lower priority are reported. -/
theorem resume_reports_latest :
    ((twoDelays 2).Reachable ∧ (twoDelays 2).waiting ≠ [] ∧
      (∀ entry ∈ (twoDelays 2).waiting, entry.readyToWake ⟨4⟩ = false) ∧
      ((twoDelays 2).scheduler.resume ⟨4⟩).map ResumeExit.result = some (true, some ⟨9⟩) ∧
      ¬ (twoDelays 2).ReportsLeastExpiry ⟨4⟩) ∧
    ((twoPriorities 2).Reachable ∧ (twoPriorities 2).waiting ≠ [] ∧
      (∀ entry ∈ (twoPriorities 2).waiting, entry.readyToWake ⟨4⟩ = false) ∧
      ((twoPriorities 2).scheduler.resume ⟨4⟩).map ResumeExit.result = some (true, some ⟨2⟩) ∧
      ¬ (twoPriorities 2).ReportsHighestPriority ⟨4⟩) := by
  constructor
  · have reachable : (twoDelays 2).Reachable := after_reachable _
    have notReady : ∀ entry ∈ (twoDelays 2).waiting, entry.readyToWake ⟨4⟩ = false := by decide
    have decided := reachable.reportsSoonest_iff notReady (by decide)
    exact ⟨reachable, by decide, notReady, by decide, decided.not.mpr (by decide)⟩
  · have reachable : (twoPriorities 2).Reachable := after_reachable _
    have notReady : ∀ entry ∈ (twoPriorities 2).waiting, entry.readyToWake ⟨4⟩ = false := by decide
    have decided := reachable.reportsSoonest_iff notReady (by decide)
    exact ⟨reachable, by decide, notReady, by decide, decided.not.mpr (by decide)⟩

end System

end BaremetalCoro
