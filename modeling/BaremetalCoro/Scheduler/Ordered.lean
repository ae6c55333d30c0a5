import BaremetalCoro.Order.Insertion
import BaremetalCoro.Scheduler.Condition
import BaremetalCoro.StaticList.Refinement

/-!
# The ordered scheduler

`scheduler_ordered<WAKE_CONDITION_T, MAX_TASKS>` keeps its entries in a
`static_list` and walks it with iterators.  Handles of co-routines are an
arbitrary type `H`: the scheduler only stores and copies them.

`resume` either runs one co-routine or none.  Running a co-routine hands
control to code the scheduler does not know, so its two exits are data here:
`resumed` carries the handle on which `handle.resume()` is called, the
scheduler at that moment and the local that is returned once the co-routine
gives control back, and `idle` is the return at the end of the scan.  The trace
values written by the scan are left to `Trace.Resume`; nothing reads them back.
-/

namespace BaremetalCoro

/-- A co-routine that has been scheduled to run at a later time. -/
structure ScheduleEntry (C H : Type) where
  handle_ : H
  wakeCondition_ : C
  deriving DecidableEq

namespace ScheduleEntry

variable {C H : Type}

/-- The move constructor swaps both members out of its source, a temporary
that is destroyed at once. -/
def move (src : ScheduleEntry C H) : ScheduleEntry C H :=
  ⟨src.handle_, src.wakeCondition_⟩

/-- Is this entry due under the given condition? -/
def readyToWake [HasWakeUpTest C] (entry : ScheduleEntry C H) (readyCondition : C) : Bool :=
  HasWakeUpTest.readyToWake entry.wakeCondition_ readyCondition

end ScheduleEntry

/-- A container for a set of scheduled co-routines. -/
structure SchedulerOrdered (C H : Type) (N : Nat) where
  waiting_ : StaticList (ScheduleEntry C H) N

namespace SchedulerOrdered

variable {C H : Type} {N : Nat}

/-- The scheduler after its construction in storage that held `buffer`. -/
def init [NeZero N] (buffer : Fin N → StaticListNode (ScheduleEntry C H) N) :
    SchedulerOrdered C H N :=
  ⟨StaticList.init buffer⟩

/-- Test for an empty schedule list. -/
def empty (scheduler : SchedulerOrdered C H N) : Bool :=
  scheduler.waiting_.empty

/-- The waiting entries in list order. -/
def entries (scheduler : SchedulerOrdered C H N) : List (ScheduleEntry C H) :=
  scheduler.waiting_.toList

variable [HasWakeUpTest C]

/-- The loop of `insert`: stop before the first entry the new condition
precedes. -/
def findPosition (waiting : StaticList (ScheduleEntry C H) N) (wakeCondition : C) :
    Nat → StaticListIterator N false → Option (StaticListIterator N false)
  | 0, i => if i = waiting.end_ then some i else none
  | fuel + 1, i =>
      if i = waiting.end_ then some i
      else do
        let entry ← waiting.deref i
        if readyToWake wakeCondition entry.wakeCondition_ then some i
        else findPosition waiting wakeCondition fuel (waiting.increment i)

/-- Insert an entry to be scheduled to run when a condition is met. -/
def insert (scheduler : SchedulerOrdered C H N) (handle : H) (wakeCondition : C) :
    Option (SchedulerOrdered C H N) := do
  let i ← findPosition scheduler.waiting_ wakeCondition N scheduler.waiting_.begin
  return ⟨scheduler.waiting_.emplace i (ScheduleEntry.move ⟨handle, wakeCondition⟩)⟩

/-- The two ways out of the scan of `resume`. -/
inductive ResumeExit (C H : Type) (N : Nat) where
  | resumed (handle : H) (c : C) (scheduler : SchedulerOrdered C H N)
      (priorityCondition : Option C)
  | idle (pending : Bool) (priorityCondition : Option C)

/-- The pair `resume` returns from each exit. -/
def ResumeExit.result : ResumeExit C H N → Bool × Option C
  | .resumed _ _ _ priorityCondition => (true, priorityCondition)
  | .idle pending priorityCondition => (pending, priorityCondition)

/-- How the scan updates `priority_condition` at an entry that is not due. -/
def track (priorityCondition : Option C) (wakeCondition : C) : Option C :=
  match priorityCondition with
  | none => some wakeCondition
  | some kept => if readyToWake kept wakeCondition then some wakeCondition else some kept

/-- The loop of `resume`, with its locals `pending` and `priority_condition`. -/
def scan (waiting : StaticList (ScheduleEntry C H) N) (readyCondition : C) :
    Nat → Bool → Option C → StaticListIterator N false → Option (ResumeExit C H N)
  | 0, pending, priorityCondition, i =>
      if i = waiting.end_ then some (.idle pending priorityCondition) else none
  | fuel + 1, pending, priorityCondition, i =>
      if i = waiting.end_ then some (.idle pending priorityCondition)
      else do
        let entry ← waiting.deref i
        if entry.readyToWake readyCondition then
          let c := entry.wakeCondition_
          let handle := entry.handle_
          let waiting ← waiting.erase i
          some (.resumed handle c ⟨waiting⟩ priorityCondition)
        else
          scan waiting readyCondition fuel true (track priorityCondition entry.wakeCondition_)
            (waiting.increment i)

/-- Run the first co-routine that is due, if there is one. -/
def resume (scheduler : SchedulerOrdered C H N) (readyCondition : C) :
    Option (ResumeExit C H N) :=
  scan scheduler.waiting_ readyCondition N false none scheduler.waiting_.begin

/-! ## Specifications over the list of entries -/

/-- The scheduler is well formed and `waiting` are its entries. -/
def Holds (scheduler : SchedulerOrdered C H N) (waiting : List (ScheduleEntry C H)) : Prop :=
  ∃ active free, scheduler.waiting_.Represents active free waiting

omit [HasWakeUpTest C] in
theorem Holds.entries_eq {scheduler : SchedulerOrdered C H N}
    {waiting : List (ScheduleEntry C H)} (holds : scheduler.Holds waiting) :
    scheduler.entries = waiting := by
  obtain ⟨active, free, represents⟩ := holds
  exact represents.toList_eq

omit [HasWakeUpTest C] in
theorem Holds.length_le {scheduler : SchedulerOrdered C H N}
    {waiting : List (ScheduleEntry C H)} (holds : scheduler.Holds waiting) :
    waiting.length ≤ N := by
  obtain ⟨active, free, represents⟩ := holds
  rw [represents.elements_length]
  have total := represents.length_eq
  omega

omit [HasWakeUpTest C] in
theorem Holds.empty_iff {scheduler : SchedulerOrdered C H N}
    {waiting : List (ScheduleEntry C H)} (holds : scheduler.Holds waiting) :
    scheduler.empty = true ↔ waiting = [] := by
  obtain ⟨active, free, represents⟩ := holds
  exact represents.observes.empty

omit [HasWakeUpTest C] in
theorem init_holds [NeZero N] (buffer : Fin N → StaticListNode (ScheduleEntry C H) N) :
    (init buffer).Holds [] :=
  ⟨[], List.finRange N, StaticList.init_represents buffer⟩

/-- The new entry precedes an old one when its condition is ready under the old
one. -/
def Precedes (added old : ScheduleEntry C H) : Prop :=
  readyToWake added.wakeCondition_ old.wakeCondition_ = true

instance : DecidableRel (Precedes : ScheduleEntry C H → ScheduleEntry C H → Prop) :=
  fun added old => inferInstanceAs
    (Decidable (readyToWake added.wakeCondition_ old.wakeCondition_ = true))

/-- The entries after an insertion: in front of the first entry the new one
precedes, or unchanged when the list is full. -/
def inserted (N : Nat) (waiting : List (ScheduleEntry C H)) (added : ScheduleEntry C H) :
    List (ScheduleEntry C H) :=
  if waiting.length < N then waiting.orderedInsert Precedes added else waiting

/-- The search of `insert` stops where the ordered insertion puts the new
entry. -/
theorem findPosition_spec {waiting : StaticList (ScheduleEntry C H) N}
    {front back free : List (Fin N)} {frontEntries backEntries : List (ScheduleEntry C H)}
    (represents : waiting.Represents (front ++ back) free (frontEntries ++ backEntries))
    (aligned : frontEntries.length = front.length) (added : ScheduleEntry C H) {fuel : Nat}
    (enough : back.length ≤ fuel) :
    ∃ skipped rest skippedEntries restEntries, back = skipped ++ rest ∧
      backEntries = skippedEntries ++ restEntries ∧ skippedEntries.length = skipped.length ∧
      findPosition waiting added.wakeCondition_ fuel ⟨back.head?⟩ = some ⟨rest.head?⟩ ∧
      backEntries.orderedInsert Precedes added = skippedEntries ++ added :: restEntries := by
  induction back generalizing front frontEntries backEntries fuel with
  | nil =>
      have nothing : backEntries = [] := by
        have total := represents.elements_length
        simpa [aligned] using total
      subst nothing
      refine ⟨[], [], [], [], rfl, rfl, rfl, ?_, rfl⟩
      cases fuel <;> rfl
  | cons node rest ih =>
      cases fuel with
      | zero => simp at enough
      | succ fuel =>
          obtain ⟨_, entry, restEntries, splitEq, splitAligned⟩ := represents.split
          obtain ⟨rfl, rfl⟩ := List.append_inj splitEq (aligned.trans splitAligned.symm)
          have derefEq : waiting.deref (⟨some node⟩ : StaticListIterator N false) =
              some entry := represents.value_eq aligned
          have unfolded : findPosition waiting added.wakeCondition_ (fuel + 1) ⟨some node⟩ =
              if Precedes added entry then some ⟨some node⟩
              else findPosition waiting added.wakeCondition_ fuel ⟨rest.head?⟩ := by
            rw [findPosition, if_neg (by simp [StaticList.end_]), derefEq,
              represents.increment_eq]
            rfl
          rw [List.orderedInsert_cons]
          by_cases fits : Precedes added entry
          · refine ⟨[], node :: rest, [], entry :: restEntries, rfl, rfl, rfl, ?_, ?_⟩
            · rw [List.head?_cons, unfolded, if_pos fits]
            · rw [if_pos fits]
              rfl
          · have moved : waiting.Represents ((front ++ [node]) ++ rest) free
                ((frontEntries ++ [entry]) ++ restEntries) := by
              simpa using represents
            obtain ⟨skipped, remaining, skippedEntries, remainingEntries, rfl, rfl,
              skippedAligned, found, insertedEq⟩ :=
                ih moved (by simp [aligned]) (by simpa using enough)
            refine ⟨node :: skipped, remaining, entry :: skippedEntries, remainingEntries, rfl,
              rfl, by simp [skippedAligned], ?_, ?_⟩
            · rw [List.head?_cons, unfolded, if_neg fits, found]
            · rw [if_neg fits, insertedEq]
              rfl

/-- `insert` always returns, and performs the ordered insertion. -/
theorem Holds.insert {scheduler : SchedulerOrdered C H N} {waiting : List (ScheduleEntry C H)}
    (holds : scheduler.Holds waiting) (handle : H) (wakeCondition : C) :
    ∃ scheduler', scheduler.insert handle wakeCondition = some scheduler' ∧
      scheduler'.Holds (inserted N waiting ⟨handle, wakeCondition⟩) := by
  obtain ⟨active, free, represents⟩ := holds
  have enough : active.length ≤ N := by
    have total := represents.length_eq
    omega
  have whole : scheduler.waiting_.Represents ([] ++ active) free ([] ++ waiting) := represents
  obtain ⟨skipped, rest, skippedEntries, restEntries, rfl, rfl, aligned, found, insertedEq⟩ :=
    findPosition_spec whole rfl ⟨handle, wakeCondition⟩ enough
  obtain ⟨active', free', after⟩ := represents.emplace_at aligned ⟨handle, wakeCondition⟩
  have begins : scheduler.waiting_.begin = ⟨(skipped ++ rest).head?⟩ :=
    congrArg StaticListIterator.mk represents.first
  refine ⟨⟨scheduler.waiting_.emplace ⟨rest.head?⟩ ⟨handle, wakeCondition⟩⟩, ?_, active', free',
    ?_⟩
  · rw [SchedulerOrdered.insert, begins, found]
    rfl
  · rw [inserted, insertedEq]
    exact after

/-- One iteration of the scan at an element of the list. -/
theorem scan_cons {waiting : StaticList (ScheduleEntry C H) N} {front back free : List (Fin N)}
    {frontEntries backEntries : List (ScheduleEntry C H)} {node : Fin N}
    {entry : ScheduleEntry C H}
    (represents : waiting.Represents (front ++ node :: back) free
      (frontEntries ++ entry :: backEntries))
    (aligned : frontEntries.length = front.length) (readyCondition : C) (fuel : Nat)
    (pending : Bool) (priorityCondition : Option C) :
    scan waiting readyCondition (fuel + 1) pending priorityCondition ⟨some node⟩ =
      if entry.readyToWake readyCondition then
        (waiting.erase ⟨some node⟩).map fun waiting =>
          .resumed entry.handle_ entry.wakeCondition_ ⟨waiting⟩ priorityCondition
      else
        scan waiting readyCondition fuel true (track priorityCondition entry.wakeCondition_)
          ⟨back.head?⟩ := by
  have derefEq : waiting.deref (⟨some node⟩ : StaticListIterator N false) = some entry :=
    represents.value_eq aligned
  rw [scan, if_neg (by simp [StaticList.end_]), derefEq, represents.increment_eq,
    Option.map_eq_bind]
  rfl

/-- The scan passes over entries that are not due and keeps track of their
conditions. -/
theorem scan_skip {waiting : StaticList (ScheduleEntry C H) N}
    {front skipped back free : List (Fin N)}
    {frontEntries skippedEntries backEntries : List (ScheduleEntry C H)} {readyCondition : C}
    (represents : waiting.Represents (front ++ (skipped ++ back)) free
      (frontEntries ++ (skippedEntries ++ backEntries)))
    (aligned : frontEntries.length = front.length)
    (skippedAligned : skippedEntries.length = skipped.length)
    (notReady : ∀ entry ∈ skippedEntries, entry.readyToWake readyCondition = false)
    {total fuel : Nat} (totalEq : total = skipped.length + fuel) (pending : Bool)
    (priorityCondition : Option C) :
    scan waiting readyCondition total pending priorityCondition ⟨(skipped ++ back).head?⟩ =
      scan waiting readyCondition fuel (pending || !skipped.isEmpty)
        ((skippedEntries.map ScheduleEntry.wakeCondition_).foldl track priorityCondition)
        ⟨back.head?⟩ := by
  induction skipped generalizing front frontEntries skippedEntries total pending
    priorityCondition with
  | nil =>
      have nothing : skippedEntries = [] := List.length_eq_zero_iff.mp skippedAligned
      subst nothing
      simp [totalEq]
  | cons node rest ih =>
      obtain ⟨entry, restEntries, rfl⟩ := List.exists_cons_of_length_eq_add_one skippedAligned
      have moved : waiting.Represents ((front ++ [node]) ++ (rest ++ back)) free
          ((frontEntries ++ [entry]) ++ (restEntries ++ backEntries)) := by
        simpa using represents
      have fuelEq : total = (rest.length + fuel) + 1 := by
        rw [totalEq, List.length_cons]
        omega
      rw [List.cons_append, List.cons_append] at represents
      rw [List.cons_append, List.head?_cons, fuelEq, scan_cons represents aligned,
        notReady entry List.mem_cons_self]
      simp only [Bool.false_eq_true, if_false]
      rw [ih moved (by simp [aligned]) (by simpa using skippedAligned)
        (fun other member => notReady other (List.mem_cons_of_mem entry member)) rfl]
      simp

/-- With no entry due, `resume` returns at the end of the scan and leaves the
scheduler as it is. -/
theorem Holds.resume_idle {scheduler : SchedulerOrdered C H N}
    {waiting : List (ScheduleEntry C H)} (holds : scheduler.Holds waiting) {readyCondition : C}
    (notReady : ∀ entry ∈ waiting, entry.readyToWake readyCondition = false) :
    scheduler.resume readyCondition = some (.idle (!waiting.isEmpty)
      ((waiting.map ScheduleEntry.wakeCondition_).foldl track none)) := by
  obtain ⟨active, free, represents⟩ := holds
  have begins : scheduler.waiting_.begin = ⟨(active ++ []).head?⟩ := by
    rw [List.append_nil]
    exact congrArg StaticListIterator.mk represents.first
  have whole : scheduler.waiting_.Represents ([] ++ (active ++ [])) free
      ([] ++ (waiting ++ [])) := by
    simpa using represents
  obtain ⟨fuel, fuelEq⟩ : ∃ fuel, N = active.length + fuel := by
    have total := represents.length_eq
    exact ⟨free.length, by simpa using total.symm⟩
  have emptyEq : active.isEmpty = waiting.isEmpty := by
    rw [Bool.eq_iff_iff, List.isEmpty_iff_length_eq_zero, List.isEmpty_iff_length_eq_zero,
      represents.elements_length]
  rw [resume, begins, scan_skip whole rfl represents.elements_length notReady fuelEq, emptyEq,
    Bool.false_or]
  cases fuel <;> rfl

/-- With an entry due, `resume` erases the first such entry and runs its
co-routine. -/
theorem Holds.resume_ready {scheduler : SchedulerOrdered C H N}
    {skipped rest : List (ScheduleEntry C H)} {entry : ScheduleEntry C H}
    (holds : scheduler.Holds (skipped ++ entry :: rest)) {readyCondition : C}
    (notReady : ∀ other ∈ skipped, other.readyToWake readyCondition = false)
    (ready : entry.readyToWake readyCondition = true) :
    ∃ scheduler', scheduler.resume readyCondition = some (.resumed entry.handle_
        entry.wakeCondition_ scheduler'
        ((skipped.map ScheduleEntry.wakeCondition_).foldl track none)) ∧
      scheduler'.Holds (skipped ++ rest) := by
  obtain ⟨active, free, represents⟩ := holds
  obtain ⟨front, node, back, rfl, aligned⟩ : ∃ front node back, active = front ++ node :: back ∧
      skipped.length = front.length := by
    have bound : skipped.length < active.length := by
      rw [← represents.elements_length]
      simp
    refine ⟨active.take skipped.length, active[skipped.length], active.drop (skipped.length + 1),
      ?_, ?_⟩
    · rw [List.getElem_cons_drop, List.take_append_drop]
    · rw [List.length_take]
      omega
  obtain ⟨waiting', eraseEq, erased⟩ := represents.erase aligned
  have begins : scheduler.waiting_.begin = ⟨(front ++ node :: back).head?⟩ :=
    congrArg StaticListIterator.mk represents.first
  obtain ⟨fuel, fuelEq⟩ : ∃ fuel, N = front.length + (fuel + 1) := by
    have total := represents.length_eq
    refine ⟨back.length + free.length, ?_⟩
    simp only [List.length_append, List.length_cons, List.length_nil] at total
    omega
  have whole : scheduler.waiting_.Represents ([] ++ (front ++ node :: back)) free
      ([] ++ (skipped ++ entry :: rest)) := represents
  refine ⟨⟨waiting'⟩, ?_, front ++ back, node :: free, erased⟩
  rw [resume, begins, scan_skip whole rfl aligned notReady fuelEq, List.head?_cons,
    scan_cons represents aligned, if_pos ready, eraseEq]
  rfl

/-- `resume` always leaves its scan, through one of its two exits. -/
theorem Holds.resume_cases {scheduler : SchedulerOrdered C H N}
    {waiting : List (ScheduleEntry C H)} (holds : scheduler.Holds waiting) (readyCondition : C) :
    (∃ skipped entry rest scheduler', waiting = skipped ++ entry :: rest ∧
      (∀ other ∈ skipped, other.readyToWake readyCondition = false) ∧
      entry.readyToWake readyCondition = true ∧
      scheduler.resume readyCondition = some (.resumed entry.handle_ entry.wakeCondition_
        scheduler' ((skipped.map ScheduleEntry.wakeCondition_).foldl track none)) ∧
      scheduler'.Holds (skipped ++ rest)) ∨
    ((∀ entry ∈ waiting, entry.readyToWake readyCondition = false) ∧
      scheduler.resume readyCondition = some (.idle (!waiting.isEmpty)
        ((waiting.map ScheduleEntry.wakeCondition_).foldl track none))) := by
  cases hfind : waiting.find? fun entry => entry.readyToWake readyCondition with
  | some entry =>
      left
      obtain ⟨ready, skipped, rest, rfl, skippedNot⟩ := List.find?_eq_some_iff_append.mp hfind
      have notReady : ∀ other ∈ skipped, other.readyToWake readyCondition = false := by
        intro other member
        simpa using skippedNot other member
      obtain ⟨scheduler', resumeEq, holds'⟩ := holds.resume_ready notReady ready
      exact ⟨skipped, entry, rest, scheduler', rfl, notReady, ready, resumeEq, holds'⟩
  | none =>
      right
      have notReady : ∀ entry ∈ waiting, entry.readyToWake readyCondition = false := by
        intro entry member
        simpa using List.find?_eq_none.mp hfind entry member
      exact ⟨notReady, holds.resume_idle notReady⟩

/-! ## Sorted lists of entries -/

section Sorted

variable [LinearOrder C]

/-- Entries are sorted by how soon their conditions are due. -/
def Sorted (waiting : List (ScheduleEntry C H)) : Prop :=
  Order.SortedBy ScheduleEntry.wakeCondition_ waiting

omit [HasWakeUpTest C] in
theorem Sorted.head_le {entry other : ScheduleEntry C H} {rest : List (ScheduleEntry C H)}
    (sorted : Sorted (entry :: rest)) (member : other ∈ entry :: rest) :
    entry.wakeCondition_ ≤ other.wakeCondition_ := by
  rcases List.mem_cons.mp member with rfl | inRest
  · exact le_rfl
  · exact (List.pairwise_cons.mp sorted).1 other inRest

variable [SoonestFirst C]

theorem Sorted.inserted {waiting : List (ScheduleEntry C H)} (sorted : Sorted waiting)
    (added : ScheduleEntry C H) : Sorted (inserted N waiting added) := by
  unfold SchedulerOrdered.inserted
  split
  · exact sorted.orderedInsert SoonestFirst.ready_of_lt SoonestFirst.le_of_ready added
  · exact sorted

/-- In a sorted list an entry is due only if the first one is. -/
theorem Sorted.head_ready {entry other : ScheduleEntry C H} {rest : List (ScheduleEntry C H)}
    (sorted : Sorted (entry :: rest)) (member : other ∈ entry :: rest) {readyCondition : C}
    (ready : other.readyToWake readyCondition = true) :
    entry.readyToWake readyCondition = true :=
  SoonestFirst.ready_of_le (sorted.head_le member) ready

/-- Over a sorted list the scan ends up with the condition of the last entry. -/
theorem Sorted.foldl_track {waiting : List (ScheduleEntry C H)} (sorted : Sorted waiting) :
    (waiting.map ScheduleEntry.wakeCondition_).foldl track none =
      waiting.getLast?.map ScheduleEntry.wakeCondition_ := by
  induction waiting using List.reverseRecOn with
  | nil => rfl
  | append_singleton front entry ih =>
      obtain ⟨frontSorted, -, bound⟩ := List.pairwise_append.mp sorted
      rw [List.map_append, List.foldl_append, ih frontSorted, List.getLast?_concat]
      change track (front.getLast?.map ScheduleEntry.wakeCondition_) entry.wakeCondition_ =
        some entry.wakeCondition_
      cases hlast : front.getLast? with
      | none => rfl
      | some last =>
          have le := bound last (List.mem_of_getLast? hlast) entry List.mem_cons_self
          change (if readyToWake last.wakeCondition_ entry.wakeCondition_ then
            some entry.wakeCondition_ else some last.wakeCondition_) = some entry.wakeCondition_
          by_cases ready : readyToWake last.wakeCondition_ entry.wakeCondition_ = true
          · rw [if_pos ready]
          · rw [if_neg ready]
            rw [Bool.not_eq_true] at ready
            rw [le_antisymm le (SoonestFirst.le_of_not_ready ready)]

/-- In a sorted list no entry is passed over before one that is due. -/
theorem Sorted.skipped_eq_nil {skipped rest : List (ScheduleEntry C H)}
    {entry : ScheduleEntry C H} (sorted : Sorted (skipped ++ entry :: rest)) {readyCondition : C}
    (notReady : ∀ other ∈ skipped, other.readyToWake readyCondition = false)
    (ready : entry.readyToWake readyCondition = true) : skipped = [] := by
  cases skipped with
  | nil => rfl
  | cons first others =>
      have member : entry ∈ first :: (others ++ entry :: rest) :=
        List.mem_cons_of_mem first (List.mem_append_right others List.mem_cons_self)
      have firstReady := sorted.head_ready member ready
      rw [notReady first List.mem_cons_self] at firstReady
      contradiction

end Sorted

end SchedulerOrdered

end BaremetalCoro
