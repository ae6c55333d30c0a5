import BaremetalCoro.Scheduler.Accounting

/-!
# The order of the waiting list

In every reachable state the waiting list is sorted by how soon its entries are
due, whatever conditions `resume` was called with.  For delays ties are broken
by the order of insertion, so the list is the stable sort of the waiting
entries; for priorities nothing is said about ties here.

Two consequences hold of both conditions.  The first entry decides whether any
entry is due, and an entry that is due strictly later than another one is not
resumed while the other one waits, however the run continues.
-/

namespace BaremetalCoro.System

open SchedulerOrdered

variable {C H : Type} {N : Nat}

/-- The waiting entries in the order of their insertions. -/
def arrivals (system : System C H N) : List (ScheduleEntry C (Insertion H)) :=
  system.stored.filter fun entry => serialOf entry ∈ system.waiting.map serialOf

theorem Accounted.arrivals_perm {system : System C H N} (accounted : system.Accounted) :
    system.waiting.Perm system.arrivals := by
  have nodup := accounted.serials_nodup
  rw [List.map_append, List.nodup_append'] at nodup
  have resumedNot : system.resumed.filter
      (fun entry => serialOf entry ∈ system.waiting.map serialOf) = [] := by
    rw [List.filter_eq_nil_iff]
    intro entry member waits
    exact nodup.2.2 (List.mem_map_of_mem member) (of_decide_eq_true waits)
  have waitingAll : system.waiting.filter
      (fun entry => serialOf entry ∈ system.waiting.map serialOf) = system.waiting := by
    rw [List.filter_eq_self]
    intro entry member
    exact decide_eq_true (List.mem_map_of_mem member)
  have filtered := accounted.balance.filter
    (fun entry => serialOf entry ∈ system.waiting.map serialOf)
  rw [List.filter_append, resumedNot, waitingAll, List.nil_append] at filtered
  exact filtered.symm

theorem Accounted.arrivals_serials {system : System C H N} (accounted : system.Accounted) :
    system.arrivals.Pairwise fun first second => serialOf first < serialOf second :=
  accounted.stamped.increasing.sublist List.filter_sublist

variable [HasWakeUpTest C]

/-- Some waiting entry is due exactly when the first one is. -/
def HeadDecides (system : System C H N) : Prop :=
  ∀ readyCondition : C,
    (∃ entry ∈ system.waiting, entry.readyToWake readyCondition = true) ↔
      ∃ entry, system.waiting.head? = some entry ∧ entry.readyToWake readyCondition = true

/-- However the run continues, `late` is not resumed while `soon` waits. -/
def NeverOvertakes (system : System C H N) (late soon : ScheduleEntry C (Insertion H)) : Prop :=
  ∀ ⦃later next : System C H N⦄ ⦃act : Act C H⦄, Transition.Reachable step system later →
    later.step act = some next → soon ∈ later.waiting → next.resumed ≠ later.resumed ++ [late]

section Sorted

variable [LinearOrder C] [SoonestFirst C]

theorem headDecides_of_sorted {system : System C H N} (sorted : Sorted system.waiting) :
    system.HeadDecides := by
  intro readyCondition
  constructor
  · rintro ⟨entry, member, ready⟩
    cases hwaiting : system.waiting with
    | nil =>
        rw [hwaiting] at member
        contradiction
    | cons head rest =>
        rw [hwaiting] at sorted member
        exact ⟨head, rfl, sorted.head_ready member ready⟩
  · rintro ⟨entry, isHead, ready⟩
    exact ⟨entry, List.mem_of_head? isHead, ready⟩

/-- What a step resumes is due no later than anything that waits. -/
theorem Effect.resumed_le {system next : System C H N} {act : Act C H}
    (effect : Effect system next act) (sorted : Sorted system.waiting)
    {entry : ScheduleEntry C (Insertion H)} (resumes : next.resumed = system.resumed ++ [entry])
    {other : ScheduleEntry C (Insertion H)} (waits : other ∈ system.waiting) :
    entry.wakeCondition_ ≤ other.wakeCondition_ := by
  have unchanged : next.resumed ≠ system.resumed → entry.wakeCondition_ ≤ other.wakeCondition_ := by
    intro changed
    cases effect with
    | insert _ _ resumed => exact absurd resumed changed
    | @resumed _ skipped rest first before notReady ready _ resumed =>
        have sameEntry : first = entry := by
          rw [resumed] at resumes
          exact List.singleton_inj.mp (List.append_cancel_left resumes)
        rw [before] at sorted waits
        have nothing := sorted.skipped_eq_nil notReady ready
        subst nothing
        rw [← sameEntry]
        exact sorted.head_le waits
    | idle _ same => exact absurd (congrArg System.resumed same) changed
    | suspend _ popped => exact absurd (congrArg System.resumed popped) changed
  apply unchanged
  rw [resumes]
  simp

theorem Reachable.neverOvertakes [NeZero N] {system : System C H N}
    (reachable : system.Reachable) {late soon : ScheduleEntry C (Insertion H)}
    (sooner : soon.wakeCondition_ < late.wakeCondition_) : system.NeverOvertakes late soon := by
  intro later next act continued stepped waits resumes
  have laterReachable := reachable.continue continued
  have effect := (laterReachable.valid.effect stepped).2
  exact absurd sooner (not_lt.mpr (effect.resumed_le laterReachable.sorted resumes waits))

end Sorted

/-! ## Ties between delays -/

section Delay

/-- The time point at which an entry expires. -/
def expiresOf (entry : ScheduleEntry ScheduleByDelay (Insertion H)) : Int :=
  entry.wakeCondition_.expires_

/-- Delays keep the order of expiry, and the order of insertion among equal
expiries. -/
theorem Effect.pairwise_before {system next : System ScheduleByDelay H N}
    {act : Act ScheduleByDelay H} (effect : Effect system next act)
    (accounted : system.Accounted)
    (ordered : system.waiting.Pairwise (Order.Before expiresOf serialOf)) :
    next.waiting.Pairwise (Order.Before expiresOf serialOf) := by
  apply effect.pairwise_waiting _ ordered
  intro handle wakeCondition _
  unfold inserted
  split
  · apply Order.pairwise_before_orderedInsert _ _ ordered
    · intro first second
      exact ScheduleByDelay.readyToWake_iff first.wakeCondition_ second.wakeCondition_
    · intro entry member
      exact accounted.waiting_fresh member
  · exact ordered

theorem Reachable.pairwise_before [NeZero N] {system : System ScheduleByDelay H N}
    (reachable : system.Reachable) :
    system.waiting.Pairwise (Order.Before expiresOf serialOf) := by
  have both := Reachable.induction
    (fun system : System ScheduleByDelay H N =>
      system.Accounted ∧ system.waiting.Pairwise (Order.Before expiresOf serialOf))
    ?_ ?_ reachable
  · exact both.2.2
  · intro buffer
    rw [init_waiting]
    exact ⟨init_accounted buffer, List.Pairwise.nil⟩
  · rintro before after act _ ⟨accounted, ordered⟩ effect
    exact ⟨effect.accounted accounted, effect.pairwise_before accounted ordered⟩

end Delay

/-- The waiting list of a delay scheduler is the stable sort by expiry of the
waiting entries in the order of their insertions, and that of a priority
scheduler is sorted by descending priority.  In both the first entry decides
whether any is due, and no entry is resumed while one that is due strictly
before it waits. -/
theorem waiting_ordered [NeZero N] :
    (∀ system : System ScheduleByDelay H N, system.Reachable →
      system.waiting = system.arrivals.insertionSort
          (fun first second => expiresOf first ≤ expiresOf second) ∧
        (system.waiting.Pairwise fun first second =>
          expiresOf first = expiresOf second → serialOf first < serialOf second) ∧
        system.HeadDecides ∧
        ∀ soon ∈ system.waiting, ∀ late ∈ system.waiting,
          soon.wakeCondition_.expires_ < late.wakeCondition_.expires_ →
            system.NeverOvertakes late soon) ∧
    (∀ system : System ScheduleByPriority H N, system.Reachable →
      system.waiting.Perm system.arrivals ∧
        (system.waiting.Pairwise fun first second =>
          second.wakeCondition_.priority_ ≤ first.wakeCondition_.priority_) ∧
        system.HeadDecides ∧
        ∀ soon ∈ system.waiting, ∀ late ∈ system.waiting,
          late.wakeCondition_.priority_ < soon.wakeCondition_.priority_ →
            system.NeverOvertakes late soon) := by
  constructor
  · intro system reachable
    have accounted := reachable.accounted
    have ordered := reachable.pairwise_before
    constructor
    · exact Order.eq_insertionSort_of_pairwise_before accounted.arrivals_perm ordered
        accounted.arrivals_serials
    · constructor
      · apply ordered.imp
        rintro first second (less | ⟨_, earlier⟩) equal
        · exact absurd equal less.ne
        · exact earlier
      · constructor
        · exact headDecides_of_sorted reachable.sorted
        · intro soon _ late _ sooner
          exact reachable.neverOvertakes ((ScheduleByDelay.lt_iff _ _).mpr sooner)
  · intro system reachable
    constructor
    · exact reachable.accounted.arrivals_perm
    · constructor
      · exact reachable.sorted
      · constructor
        · exact headDecides_of_sorted reachable.sorted
        · intro soon _ late _ sooner
          exact reachable.neverOvertakes ((ScheduleByPriority.lt_iff _ _).mpr sooner)

/-- A co-routine is overtaken by one with a shorter delay, which then waits
again. -/
def overtaken (N : Nat) [NeZero N] : System ScheduleByDelay Nat N :=
  after [.insert 1 ⟨9⟩, .insert 2 ⟨5⟩, .insert 3 ⟨9⟩, .resume ⟨7⟩, .insert 2 ⟨12⟩, .suspend]

theorem waiting_ordered_overtaken :
    (overtaken 3).waiting = (overtaken 3).arrivals.insertionSort
        (fun first second => expiresOf first ≤ expiresOf second) ∧
      (overtaken 3).NeverOvertakes ⟨⟨2, 3⟩, ⟨12⟩⟩ ⟨⟨1, 0⟩, ⟨9⟩⟩ ∧ (nested 2).HeadDecides := by
  have delays := (waiting_ordered (H := Nat) (N := 3)).1 (overtaken 3) (after_reachable _)
  have priorities := (waiting_ordered (H := Nat) (N := 2)).2 (nested 2) (after_reachable _)
  constructor
  · exact delays.1
  · constructor
    · exact delays.2.2.2 _ (by decide) _ (by decide) (by decide)
    · exact priorities.2.2.1

end BaremetalCoro.System
