import BaremetalCoro.Scheduler.Report
import BaremetalCoro.Trace.Log

/-!
# The trace of a scan

`scheduler_ordered::resume` reports on its scan through the trace log: the
number of entries it passed, and a flag for each thing it did.  The macros do
not depend on the log, so the traced scan lists them in the order of their
execution.  All of them come before `handle.resume()`.

The report is read off the waiting list.  In a reachable state a call that
resumes a co-routine resumes the first one, so it has passed none.  A call that
finds nothing due has passed every entry; flag 4 tells that two delays expire
together, and is never set by priorities, whose test is reflexive.
-/

namespace BaremetalCoro

namespace SchedulerOrdered

variable {C H : Type} {N : Nat} [HasWakeUpTest C]

/-- The flag for an entry that is not due: did its condition replace
`priority_condition`? -/
def trackFlag (priorityCondition : Option C) (wakeCondition : C) : BitVec 16 :=
  match priorityCondition with
  | none => 2
  | some kept => if readyToWake kept wakeCondition then 2 else 4

/-- The loop of `resume` with its macros and its local `j`. -/
def tracedScan (waiting : StaticList (ScheduleEntry C H) N) (readyCondition : C) :
    Nat → Bool → Option C → StaticListIterator N false → BitVec 16 →
      Option (ResumeExit C H N × List TraceAct)
  | 0, pending, priorityCondition, i, _ =>
      if i = waiting.end_ then
        some (.idle pending priorityCondition, [.schedulerUpdateRFlag 8])
      else none
  | fuel + 1, pending, priorityCondition, i, j =>
      if i = waiting.end_ then
        some (.idle pending priorityCondition, [.schedulerUpdateRFlag 8])
      else do
        let entry ← waiting.deref i
        if entry.readyToWake readyCondition then
          let c := entry.wakeCondition_
          let handle := entry.handle_
          let waiting ← waiting.erase i
          some (.resumed handle c ⟨waiting⟩ priorityCondition, [.schedulerUpdateRFlag 1])
        else
          let flag := trackFlag priorityCondition entry.wakeCondition_
          let (exit, acts) ← tracedScan waiting readyCondition fuel true
            (track priorityCondition entry.wakeCondition_) (waiting.increment i) (j + 1)
          some (exit, .schedulerUpdateRFlag flag :: .schedulerUpdateI (j + 1) :: acts)

/-- `resume` with its macros. -/
def tracedResume (scheduler : SchedulerOrdered C H N) (readyCondition : C) :
    Option (ResumeExit C H N × List TraceAct) := do
  let (exit, acts) ← tracedScan scheduler.waiting_ readyCondition N false none
    scheduler.waiting_.begin 0
  some (exit, .schedulerUpdateI 0 :: .schedulerUpdateR 0 :: acts)

/-- The macros do not change what the scan does. -/
theorem tracedScan_erase (waiting : StaticList (ScheduleEntry C H) N) (readyCondition : C)
    (fuel : Nat) (pending : Bool) (priorityCondition : Option C)
    (i : StaticListIterator N false) (j : BitVec 16) :
    (tracedScan waiting readyCondition fuel pending priorityCondition i j).map Prod.fst =
      scan waiting readyCondition fuel pending priorityCondition i := by
  induction fuel generalizing pending priorityCondition i j with
  | zero =>
      rw [tracedScan, scan]
      split
      · rfl
      · rfl
  | succ fuel ih =>
      rw [tracedScan, scan]
      split
      · rfl
      · cases waiting.deref i with
        | none => rfl
        | some entry =>
            simp only [Option.bind_eq_bind, Option.bind_some]
            split
            · cases waiting.erase i <;> rfl
            · rw [← ih true _ _ (j + 1)]
              cases tracedScan waiting readyCondition fuel true
                (track priorityCondition entry.wakeCondition_) (waiting.increment i) (j + 1) <;> rfl

theorem tracedResume_erase (scheduler : SchedulerOrdered C H N) (readyCondition : C) :
    (scheduler.tracedResume readyCondition).map Prod.fst = scheduler.resume readyCondition := by
  rw [resume, ← tracedScan_erase scheduler.waiting_ readyCondition N false none _ 0, tracedResume]
  cases tracedScan scheduler.waiting_ readyCondition N false none scheduler.waiting_.begin 0 <;> rfl

/-! ## The trace over the list of entries -/

/-- The macros of a scan over the given entries. -/
def scanTrace (readyCondition : C) :
    Option C → BitVec 16 → List (ScheduleEntry C H) → List TraceAct
  | _, _, [] => [.schedulerUpdateRFlag 8]
  | priorityCondition, j, entry :: rest =>
      if entry.readyToWake readyCondition then [.schedulerUpdateRFlag 1]
      else
        .schedulerUpdateRFlag (trackFlag priorityCondition entry.wakeCondition_) ::
          .schedulerUpdateI (j + 1) ::
            scanTrace readyCondition (track priorityCondition entry.wakeCondition_) (j + 1) rest

theorem tracedScan_spec {waiting : StaticList (ScheduleEntry C H) N}
    {front back free : List (Fin N)} {frontEntries backEntries : List (ScheduleEntry C H)}
    (represents : waiting.Represents (front ++ back) free (frontEntries ++ backEntries))
    (aligned : frontEntries.length = front.length) (readyCondition : C) {fuel : Nat}
    (enough : back.length ≤ fuel) (pending : Bool) (priorityCondition : Option C)
    (j : BitVec 16) :
    ∃ exit, tracedScan waiting readyCondition fuel pending priorityCondition ⟨back.head?⟩ j =
      some (exit, scanTrace readyCondition priorityCondition j backEntries) := by
  induction back generalizing front frontEntries backEntries fuel pending priorityCondition j with
  | nil =>
      have nothing : backEntries = [] := by
        have total := represents.elements_length
        simpa [aligned] using total
      subst nothing
      refine ⟨.idle pending priorityCondition, ?_⟩
      cases fuel <;> rfl
  | cons node rest ih =>
      cases fuel with
      | zero => simp at enough
      | succ fuel =>
          obtain ⟨_, entry, restEntries, splitEq, splitAligned⟩ := represents.split
          obtain ⟨rfl, rfl⟩ := List.append_inj splitEq (aligned.trans splitAligned.symm)
          have derefEq : waiting.deref (⟨some node⟩ : StaticListIterator N false) =
              some entry := represents.value_eq aligned
          rw [tracedScan, if_neg (by simp [StaticList.end_]), List.head?_cons, derefEq,
            represents.increment_eq, scanTrace, Option.bind_eq_bind, Option.bind_some]
          by_cases ready : entry.readyToWake readyCondition = true
          · rw [if_pos ready, if_pos ready]
            obtain ⟨waiting', eraseEq, _⟩ := represents.erase aligned
            refine ⟨.resumed entry.handle_ entry.wakeCondition_ ⟨waiting'⟩ priorityCondition, ?_⟩
            rw [eraseEq]
            rfl
          · rw [if_neg ready, if_neg ready]
            have moved : waiting.Represents ((front ++ [node]) ++ rest) free
                ((frontEntries ++ [entry]) ++ restEntries) := by
              simpa using represents
            obtain ⟨exit, restEq⟩ := ih moved (by simp [aligned])
              (Nat.le_of_succ_le_succ enough) true
              (track priorityCondition entry.wakeCondition_) (j + 1)
            refine ⟨exit, ?_⟩
            rw [restEq]
            rfl

/-- A traced call of `resume` leaves through the exit of the plain one, and its
macros are those of the list. -/
theorem Holds.tracedResume {scheduler : SchedulerOrdered C H N}
    {waiting : List (ScheduleEntry C H)} (holds : scheduler.Holds waiting) (readyCondition : C) :
    ∃ exit, scheduler.resume readyCondition = some exit ∧
      scheduler.tracedResume readyCondition = some (exit, .schedulerUpdateI 0 ::
        .schedulerUpdateR 0 :: scanTrace readyCondition none 0 waiting) := by
  obtain ⟨active, free, represents⟩ := holds
  have enough : active.length ≤ N := by
    have total := represents.length_eq
    omega
  have whole : scheduler.waiting_.Represents ([] ++ active) free ([] ++ waiting) := represents
  have begins : scheduler.waiting_.begin = ⟨active.head?⟩ :=
    congrArg StaticListIterator.mk represents.first
  obtain ⟨exit, scanned⟩ := tracedScan_spec whole rfl readyCondition enough false none 0
  have traced : scheduler.tracedResume readyCondition = some (exit, .schedulerUpdateI 0 ::
      .schedulerUpdateR 0 :: scanTrace readyCondition none 0 waiting) := by
    rw [SchedulerOrdered.tracedResume, begins, scanned]
    rfl
  refine ⟨exit, ?_, traced⟩
  rw [← tracedResume_erase, traced]
  rfl

/-! ## What the record says -/

/-- All flags set for entries that are not due. -/
def trackFlags : Option C → List C → BitVec 16
  | _, [] => 0
  | priorityCondition, c :: rest =>
      trackFlag priorityCondition c ||| trackFlags (track priorityCondition c) rest

/-- A scan that finds nothing due counts the entries and collects their flags. -/
theorem foldl_scanTrace_idle {readyCondition : C} {waiting : List (ScheduleEntry C H)}
    (notReady : ∀ entry ∈ waiting, entry.readyToWake readyCondition = false)
    (priorityCondition : Option C) (record : TraceLogEntry) :
    (scanTrace readyCondition priorityCondition record.schedulerUpdateI waiting).foldl
        TraceAct.write record =
      { record with
        schedulerUpdateI := record.schedulerUpdateI + BitVec.ofNat 16 waiting.length
        schedulerUpdateR := record.schedulerUpdateR |||
          (trackFlags priorityCondition (waiting.map ScheduleEntry.wakeCondition_) ||| 8) } := by
  induction waiting generalizing priorityCondition record with
  | nil => simp [scanTrace, trackFlags, TraceAct.write]
  | cons entry rest ih =>
      have restNot : ∀ other ∈ rest, other.readyToWake readyCondition = false := by
        intro other member
        exact notReady other (List.mem_cons_of_mem entry member)
      rw [scanTrace, notReady entry List.mem_cons_self]
      have passed := ih restNot (track priorityCondition entry.wakeCondition_)
        { record with
          schedulerUpdateI := record.schedulerUpdateI + 1
          schedulerUpdateR := record.schedulerUpdateR |||
            trackFlag priorityCondition entry.wakeCondition_ }
      have count : record.schedulerUpdateI + 1 + BitVec.ofNat 16 rest.length =
          record.schedulerUpdateI + BitVec.ofNat 16 (rest.length + 1) := by
        rw [BitVec.add_assoc, BitVec.ofNat_add, BitVec.add_comm 1]
        rfl
      simp only [Bool.false_eq_true, if_false, List.foldl_cons, TraceAct.write]
      rw [passed, count]
      simp only [List.length_cons, List.map_cons, trackFlags, BitVec.or_assoc]

/-! ## Flags of sorted conditions -/

/-- Delays are passed with flag 4 exactly when two of them expire together. -/
theorem trackFlags_delay {conditions : List ScheduleByDelay} (kept : ScheduleByDelay)
    (sorted : (kept :: conditions).Pairwise (· ≤ ·)) :
    2 ||| trackFlags (some kept) conditions =
      if (kept :: conditions).Nodup then 2 else 6 := by
  induction conditions generalizing kept with
  | nil => simp [trackFlags]
  | cons c rest ih =>
      rcases List.pairwise_cons.mp sorted with ⟨keptLe, restSorted⟩
      have restFlags := ih c restSorted
      rcases lt_or_eq_of_le (keptLe c List.mem_cons_self) with before | rfl
      · have ready : readyToWake kept c = true := SoonestFirst.ready_of_lt before
        have apart : kept ∉ c :: rest := by
          intro member
          rcases List.mem_cons.mp member with rfl | inRest
          · exact lt_irrefl _ before
          · have le := (List.pairwise_cons.mp restSorted).1 kept inRest
            exact not_le_of_gt before le
        rw [trackFlags, track, trackFlag, ready]
        simp only [if_true]
        rw [← BitVec.or_assoc, BitVec.or_self, restFlags]
        simp only [List.nodup_cons (a := kept), apart, not_false_eq_true, true_and]
      · have notReady : readyToWake kept kept = false := by
          simp [readyToWake]
        rw [trackFlags, track, trackFlag, notReady]
        simp only [Bool.false_eq_true, if_false]
        rw [← BitVec.or_assoc, BitVec.or_comm 2 4, BitVec.or_assoc, restFlags]
        have together : ¬ (kept :: kept :: rest).Nodup := by simp
        rw [if_neg together]
        split
        · rfl
        · rfl

/-- Priorities never set flag 4. -/
theorem trackFlags_priority {conditions : List ScheduleByPriority} (kept : ScheduleByPriority)
    (sorted : (kept :: conditions).Pairwise (· ≤ ·)) :
    2 ||| trackFlags (some kept) conditions = 2 := by
  induction conditions generalizing kept with
  | nil => simp [trackFlags]
  | cons c rest ih =>
      rcases List.pairwise_cons.mp sorted with ⟨keptLe, restSorted⟩
      have ready : readyToWake kept c = true :=
        (ScheduleByPriority.readyToWake_iff kept c).mpr (keptLe c List.mem_cons_self)
      rw [trackFlags, track, trackFlag, ready]
      simp only [if_true]
      rw [← BitVec.or_assoc, BitVec.or_self]
      exact ih c restSorted

/-! ## The report of a call -/

/-- A scan begins no record. -/
theorem scanTrace_stamp {readyCondition : C} {priorityCondition : Option C} {j : BitVec 16}
    {waiting : List (ScheduleEntry C H)} {act : TraceAct}
    (member : act ∈ scanTrace readyCondition priorityCondition j waiting) : act.stamp = none := by
  induction waiting generalizing priorityCondition j with
  | nil =>
      rw [List.mem_singleton.mp member]
      rfl
  | cons entry rest ih =>
      rw [scanTrace] at member
      split at member
      · rw [List.mem_singleton.mp member]
        rfl
      · rcases List.mem_cons.mp member with rfl | member
        · rfl
        · rcases List.mem_cons.mp member with rfl | member
          · rfl
          · exact ih member

end SchedulerOrdered

namespace System

open SchedulerOrdered TraceLogManager

variable {C H : Type} {N : Nat}

/-- A traced call of `resume` returns as the plain one does, and changes the
trace log only by reporting in its latest record how many entries it passed and
what it found. -/
def ResumeReports [HasWakeUpTest C] (system : System C H N) (readyCondition : C)
    (passed flags : BitVec 16) : Prop :=
  ∃ exit acts, system.scheduler.resume readyCondition = some exit ∧
    system.scheduler.tracedResume readyCondition = some (exit, acts) ∧
    ∀ manager : TraceLogManager, acts.foldl TraceLogManager.step manager =
      manager.setEntry { manager.getEntry with
        schedulerUpdateI := passed
        schedulerUpdateR := flags }

theorem delay_flags {waiting : List (ScheduleEntry ScheduleByDelay (Insertion H))}
    (sorted : Sorted waiting) :
    trackFlags none (waiting.map ScheduleEntry.wakeCondition_) ||| 8 =
      if waiting = [] then 8 else if (waiting.map expiresOf).Nodup then 2 + 8 else 2 + 4 + 8 := by
  cases waiting with
  | nil => simp [trackFlags]
  | cons first rest =>
      have conditions := List.pairwise_map.mpr sorted
      rw [List.map_cons] at conditions
      have flags := trackFlags_delay first.wakeCondition_ conditions
      have expiries : ((first :: rest).map expiresOf).Nodup ↔
          (first.wakeCondition_ :: rest.map ScheduleEntry.wakeCondition_).Nodup := by
        rw [← List.map_cons, ← List.nodup_map_iff ScheduleByDelay.expires_injective,
          List.map_map]
        rfl
      rw [if_neg (List.cons_ne_nil first rest), if_congr expiries rfl rfl]
      change 2 ||| trackFlags (some first.wakeCondition_) _ ||| 8 = _
      rw [flags]
      split
      · rfl
      · rfl

theorem priority_flags {waiting : List (ScheduleEntry ScheduleByPriority (Insertion H))}
    (sorted : Sorted waiting) :
    trackFlags none (waiting.map ScheduleEntry.wakeCondition_) ||| 8 =
      if waiting = [] then 8 else 2 + 8 := by
  cases waiting with
  | nil => simp [trackFlags]
  | cons first rest =>
      have conditions := List.pairwise_map.mpr sorted
      rw [List.map_cons] at conditions
      have flags := trackFlags_priority first.wakeCondition_ conditions
      rw [if_neg (List.cons_ne_nil first rest)]
      change 2 ||| trackFlags (some first.wakeCondition_) _ ||| 8 = _
      rw [flags]
      rfl

variable [HasWakeUpTest C] [LinearOrder C] [SoonestFirst C]

/-- A call that resumes a co-routine resumes the first one. -/
theorem Reachable.reports_due [NeZero N] {system : System C H N} (reachable : system.Reachable)
    {readyCondition : C}
    (due : ∃ entry ∈ system.waiting, entry.readyToWake readyCondition = true) :
    system.ResumeReports readyCondition 0 1 := by
  rcases (headDecides_of_sorted reachable.sorted readyCondition).mp due with
    ⟨first, isFirst, ready⟩
  rcases List.head?_eq_some_iff.mp isFirst with ⟨rest, waitingEq⟩
  rcases Holds.tracedResume reachable.valid readyCondition with ⟨exit, resumeEq, traced⟩
  refine ⟨exit, _, resumeEq, traced, ?_⟩
  intro manager
  rw [waitingEq, scanTrace, if_pos ready, foldl_step_writes]
  · simp [TraceAct.write]
  · simp [TraceAct.stamp]

omit [LinearOrder C] [SoonestFirst C] in
/-- A call that finds nothing due has passed every entry. -/
theorem Reachable.reports_idle [NeZero N] {system : System C H N} (reachable : system.Reachable)
    {readyCondition : C}
    (notReady : ∀ entry ∈ system.waiting, entry.readyToWake readyCondition = false) :
    system.ResumeReports readyCondition (BitVec.ofNat 16 system.waiting.length)
      (trackFlags none (system.waiting.map ScheduleEntry.wakeCondition_) ||| 8) := by
  rcases Holds.tracedResume reachable.valid readyCondition with ⟨exit, resumeEq, traced⟩
  refine ⟨exit, _, resumeEq, traced, ?_⟩
  intro manager
  rw [foldl_step_writes]
  · have passed := foldl_scanTrace_idle notReady none
      { manager.getEntry with schedulerUpdateI := 0, schedulerUpdateR := 0 }
    simp only [BitVec.ofNat_eq_ofNat, BitVec.zero_add, BitVec.zero_or] at passed
    exact congrArg manager.setEntry passed
  · intro act member
    rcases List.mem_cons.mp member with rfl | member
    · rfl
    · rcases List.mem_cons.mp member with rfl | member
      · rfl
      · exact scanTrace_stamp member

/-- The report of a call tells whether it resumed a co-routine, and otherwise
how many wait.  Flag 4 says that two delays expire together, and priorities
never set it. -/
theorem resume_reports_trace [NeZero N] :
    (∀ (system : System ScheduleByDelay H N) (readyCondition : ScheduleByDelay),
      system.Reachable →
      if ∃ entry ∈ system.waiting, entry.readyToWake readyCondition = true then
        system.ResumeReports readyCondition 0 1
      else system.ResumeReports readyCondition (BitVec.ofNat 16 system.waiting.length)
        (if system.waiting = [] then 8
          else if (system.waiting.map expiresOf).Nodup then 2 + 8 else 2 + 4 + 8)) ∧
    (∀ (system : System ScheduleByPriority H N) (readyCondition : ScheduleByPriority),
      system.Reachable →
      if ∃ entry ∈ system.waiting, entry.readyToWake readyCondition = true then
        system.ResumeReports readyCondition 0 1
      else system.ResumeReports readyCondition (BitVec.ofNat 16 system.waiting.length)
        (if system.waiting = [] then 8 else 2 + 8)) := by
  constructor
  · intro system readyCondition reachable
    by_cases due : ∃ entry ∈ system.waiting, entry.readyToWake readyCondition = true
    · rw [if_pos due]
      exact reachable.reports_due due
    · rw [if_neg due, ← delay_flags reachable.sorted]
      apply reachable.reports_idle
      intro entry member
      by_contra ready
      exact due ⟨entry, member, Bool.eq_true_of_not_eq_false ready⟩
  · intro system readyCondition reachable
    by_cases due : ∃ entry ∈ system.waiting, entry.readyToWake readyCondition = true
    · rw [if_pos due]
      exact reachable.reports_due due
    · rw [if_neg due, ← priority_flags reachable.sorted]
      apply reachable.reports_idle
      intro entry member
      by_contra ready
      exact due ⟨entry, member, Bool.eq_true_of_not_eq_false ready⟩

theorem resume_reports_trace_equal :
    (equalDelays 2).ResumeReports ⟨4⟩ 2 14 ∧ (equalPriorities 2).ResumeReports ⟨4⟩ 2 10 ∧
      (equalPriorities 2).ResumeReports ⟨3⟩ 0 1 := by
  have reports := resume_reports_trace (H := Nat) (N := 2)
  have delays := reports.1 (equalDelays 2) ⟨4⟩ (after_reachable _)
  have idle := reports.2 (equalPriorities 2) ⟨4⟩ (after_reachable _)
  have due := reports.2 (equalPriorities 2) ⟨3⟩ (after_reachable _)
  rw [if_neg (by decide), if_neg (by decide), if_neg (by decide)] at delays
  rw [if_neg (by decide), if_neg (by decide)] at idle
  rw [if_pos (by decide)] at due
  exact ⟨delays, idle, due⟩

end System

end BaremetalCoro
