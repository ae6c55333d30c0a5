import BaremetalCoro.Scheduler.Ordering

/-!
# Ties between priorities

The test of a priority is reflexive, and `insert` uses it to find its place, so
a new entry goes in front of the waiting entries of its own priority and is
resumed before them.  Entries of equal priority are therefore resumed in the
order of their insertion only as long as no two of them wait together, and a
co-routine that waits again each time it runs keeps the others of its priority
from running.
-/

namespace BaremetalCoro.System

open SchedulerOrdered

variable {H : Type} {N : Nat}

/-- The priority of an entry. -/
def priorityOf (entry : ScheduleEntry ScheduleByPriority (Insertion H)) : Int :=
  entry.wakeCondition_.priority_

/-- Entries of equal priority were resumed in the order of their insertion, and
none of them overtook one that still waits. -/
structure Fifo (system : System ScheduleByPriority H N) : Prop where
  ran : system.resumed.Pairwise fun first second =>
    priorityOf first = priorityOf second → serialOf first < serialOf second
  waits : ∀ first ∈ system.resumed, ∀ second ∈ system.waiting,
    priorityOf first = priorityOf second → serialOf first < serialOf second

/-- An insertion that is stored finds no waiting entry of its priority. -/
def InsertsApart (system : System ScheduleByPriority H N) : Act ScheduleByPriority H → Prop
  | .insert _ wakeCondition => system.waiting.length < N →
      ∀ entry ∈ system.waiting, priorityOf entry ≠ wakeCondition.priority_
  | .resume _ | .suspend => True

instance (system : System ScheduleByPriority H N) (act : Act ScheduleByPriority H) :
    Decidable (system.InsertsApart act) :=
  match act with
  | .insert _ wakeCondition => inferInstanceAs (Decidable (system.waiting.length < N →
      ∀ entry ∈ system.waiting, priorityOf entry ≠ wakeCondition.priority_))
  | .resume _ => isTrue trivial
  | .suspend => isTrue trivial

/-! ## Insertions apart keep the order -/

/-- All waiting entries have different priorities, and the order was kept so
far. -/
structure Apart [NeZero N] (system : System ScheduleByPriority H N) : Prop where
  reachable : system.Reachable
  distinct : system.waiting.Pairwise fun first second => priorityOf first ≠ priorityOf second
  fifo : system.Fifo

theorem Apart.inserted [NeZero N] {system : System ScheduleByPriority H N} (apart : system.Apart)
    {handle : H} {wakeCondition : ScheduleByPriority}
    (guard : system.InsertsApart (.insert handle wakeCondition)) :
    ((inserted N system.waiting (system.newEntry handle wakeCondition)).Pairwise
        fun first second => priorityOf first ≠ priorityOf second) ∧
      ∀ first ∈ system.resumed,
        ∀ second ∈ inserted N system.waiting (system.newEntry handle wakeCondition),
        priorityOf first = priorityOf second → serialOf first < serialOf second := by
  by_cases room : system.waiting.length < N
  · have perm := inserted_perm room (system.newEntry handle wakeCondition)
    constructor
    · rw [perm.pairwise_iff Ne.symm]
      have unequal : ∀ entry ∈ system.waiting,
          priorityOf (system.newEntry handle wakeCondition) ≠ priorityOf entry := by
        intro entry member
        exact (guard room entry member).symm
      exact List.pairwise_cons.mpr ⟨unequal, apart.distinct⟩
    · intro first firstRan second member equal
      rcases List.mem_cons.mp (perm.mem_iff.mp member) with rfl | old
      · exact apart.reachable.accounted.resumed_fresh firstRan
      · exact apart.fifo.waits first firstRan second old equal
  · rw [SchedulerOrdered.inserted, if_neg room]
    exact ⟨apart.distinct, apart.fifo.waits⟩

theorem Apart.step [NeZero N] {system next : System ScheduleByPriority H N}
    {act : Act ScheduleByPriority H} (apart : system.Apart) (guard : system.InsertsApart act)
    (stepped : system.step act = some next) : next.Apart := by
  have reachable' := apart.reachable.step stepped
  have effect := (apart.reachable.valid.effect stepped).2
  cases effect with
  | insert waiting _ resumed =>
      rcases apart.inserted guard with ⟨distinct, waits⟩
      constructor
      · exact reachable'
      · rw [waiting]
        exact distinct
      · constructor
        · rw [resumed]
          exact apart.fifo.ran
        · rw [resumed, waiting]
          exact waits
  | @resumed _ skipped rest entry before _ _ waiting resumed =>
      have distinct := apart.distinct
      have fifo := apart.fifo
      have entryWaits : entry ∈ system.waiting := by
        rw [before]
        exact List.mem_append_right skipped List.mem_cons_self
      rw [before] at distinct
      have swapped := (List.perm_middle.pairwise_iff Ne.symm).mp distinct
      constructor
      · exact reachable'
      · rw [waiting]
        exact (List.pairwise_cons.mp swapped).2
      · constructor
        · rw [resumed]
          apply Order.pairwise_concat fifo.ran
          intro first firstRan equal
          exact fifo.waits first firstRan entry entryWaits equal
        · rw [resumed, waiting]
          intro first firstRan second secondWaits equal
          rcases List.mem_append.mp firstRan with old | isEntry
          · apply fifo.waits first old second _ equal
            rw [before]
            exact List.perm_middle.mem_iff.mpr (List.mem_cons_of_mem entry secondWaits)
          · rw [List.mem_singleton.mp isEntry] at equal
            exact absurd equal ((List.pairwise_cons.mp swapped).1 second secondWaits)
  | idle _ same =>
      rw [same]
      exact apart
  | suspend _ popped =>
      rw [popped] at reachable' ⊢
      exact ⟨reachable', apart.distinct, apart.fifo.ran, apart.fifo.waits⟩

theorem init_apart [NeZero N]
    (buffer : Fin N → StaticListNode (ScheduleEntry ScheduleByPriority (Insertion H)) N) :
    (init buffer : System ScheduleByPriority H N).Apart := by
  constructor
  · exact ⟨buffer, Transition.Reachable.refl System.step _⟩
  · rw [init_waiting]
    exact List.Pairwise.nil
  · constructor
    · exact List.Pairwise.nil
    · intro first firstRan
      contradiction

/-! ## An insertion in front of an equal -/

/-- Resuming again and again under which the first entries are due takes them
all. -/
theorem Reachable.drain {C : Type} [HasWakeUpTest C] [NeZero N] {system : System C H N}
    (reachable : system.Reachable) {left behind : List (ScheduleEntry C (Insertion H))}
    {entry : ScheduleEntry C (Insertion H)} (waits : system.waiting = left ++ entry :: behind)
    {readyCondition : C}
    (ready : ∀ other ∈ left ++ [entry], other.readyToWake readyCondition = true) :
    ∃ (conditions : List C) (later : System C H N),
      Transition.run System.step system (conditions.map Act.resume) = some later ∧
      later.waiting = behind ∧ entry ∈ later.resumed := by
  induction left generalizing system with
  | nil =>
      rcases reachable.valid.resume_head waits (ready entry List.mem_cons_self) with
        ⟨next, stepped, waiting, resumed, _⟩
      have ran : entry ∈ next.resumed := by
        rw [resumed]
        exact List.mem_append_right _ List.mem_cons_self
      exact ⟨[readyCondition], next, Transition.run_cons_of_step stepped rfl, waiting, ran⟩
  | cons head left ih =>
      rcases reachable.valid.resume_head waits (ready head List.mem_cons_self) with
        ⟨next, stepped, waiting, _, _⟩
      have ready' : ∀ other ∈ left ++ [entry], other.readyToWake readyCondition = true := by
        intro other member
        exact ready other (List.mem_cons_of_mem head member)
      rcases ih (reachable.step stepped) waiting ready' with
        ⟨conditions, later, ran, laterWaiting, laterResumed⟩
      exact ⟨readyCondition :: conditions, later, Transition.run_cons_of_step stepped ran,
        laterWaiting, laterResumed⟩

/-- A stored insertion goes in front of the waiting entries of its priority. -/
theorem Effect.insert_front {system next : System ScheduleByPriority H N} {handle : H}
    {wakeCondition : ScheduleByPriority}
    (effect : Effect system next (.insert handle wakeCondition))
    (room : system.waiting.length < N) :
    ∃ left behind, next.waiting = left ++ system.newEntry handle wakeCondition :: behind ∧
      (∀ entry ∈ left, wakeCondition.priority_ < priorityOf entry) ∧
      ∀ entry ∈ system.waiting, priorityOf entry ≤ wakeCondition.priority_ → entry ∈ behind := by
  cases effect with
  | insert waiting =>
      rcases Order.exists_orderedInsert_eq_append Precedes system.waiting
        (system.newEntry handle wakeCondition) with ⟨left, behind, split, insertedEq, passed⟩
      have ahead : ∀ entry ∈ left, wakeCondition.priority_ < priorityOf entry := by
        intro entry member
        exact not_le.mp fun le =>
          passed entry member ((ScheduleByPriority.readyToWake_iff _ _).mpr le)
      rw [inserted, if_pos room, insertedEq] at waiting
      have kept : ∀ entry ∈ system.waiting, priorityOf entry ≤ wakeCondition.priority_ →
          entry ∈ behind := by
        intro entry member le
        rw [split] at member
        rcases List.mem_append.mp member with inLeft | inBehind
        · exact absurd le (not_le.mpr (ahead entry inLeft))
        · exact inBehind
      exact ⟨left, behind, waiting, ahead, kept⟩

/-- After a stored insertion next to an equal, some calls of `resume` break the
order. -/
theorem Reachable.exists_not_fifo [NeZero N] {system next : System ScheduleByPriority H N}
    {handle : H} {wakeCondition : ScheduleByPriority} (reachable : system.Reachable)
    (stepped : system.step (.insert handle wakeCondition) = some next)
    (room : system.waiting.length < N)
    {old : ScheduleEntry ScheduleByPriority (Insertion H)} (oldWaits : old ∈ system.waiting)
    (equal : priorityOf old = wakeCondition.priority_) :
    ∃ (conditions : List ScheduleByPriority) (later : System ScheduleByPriority H N),
      Transition.run System.step next (conditions.map Act.resume) = some later ∧ ¬ later.Fifo := by
  have effect := (reachable.valid.effect stepped).2
  rcases effect.insert_front room with ⟨left, behind, waiting, ahead, kept⟩
  have ready : ∀ other ∈ left ++ [system.newEntry handle wakeCondition],
      other.readyToWake wakeCondition = true := by
    intro other member
    apply (ScheduleByPriority.readyToWake_iff _ _).mpr
    rcases List.mem_append.mp member with inLeft | isNew
    · exact (ahead other inLeft).le
    · rw [List.mem_singleton.mp isNew]
      exact le_rfl
  rcases (reachable.step stepped).drain waiting ready with
    ⟨conditions, later, ran, laterWaiting, newRan⟩
  have broken : ¬ later.Fifo := by
    intro fifo
    have oldBehind : old ∈ later.waiting := by
      rw [laterWaiting]
      exact kept old oldWaits equal.le
    have overtaken := fifo.waits _ newRan old oldBehind equal.symm
    exact absurd overtaken (not_lt.mpr (reachable.accounted.waiting_fresh oldWaits).le)
  exact ⟨conditions, later, ran, broken⟩

/-- A run keeps entries of equal priority in the order of their insertion, in
every state it passes and after any further calls of `resume` there, exactly
when each of its stored insertions finds no waiting entry of the same
priority. -/
theorem fifo_iff_insertsApart [NeZero N]
    {buffer : Fin N → StaticListNode (ScheduleEntry ScheduleByPriority (Insertion H)) N}
    {acts : List (Act ScheduleByPriority H)} {system : System ScheduleByPriority H N}
    (ran : Transition.run step (init buffer) acts = some system) :
    (∀ front rest middle, acts = front ++ rest →
      Transition.run step (init buffer) front = some middle →
      ∀ (conditions : List ScheduleByPriority) (later : System ScheduleByPriority H N),
        Transition.run step middle (conditions.map Act.resume) = some later → later.Fifo) ↔
      Transition.Along step InsertsApart (init buffer) acts := by
  constructor
  · intro keeps front act rest middle split frontRan
    cases act with
    | insert handle wakeCondition =>
        intro room old oldWaits equal
        have reachable : middle.Reachable := ⟨buffer, front, frontRan⟩
        rw [split, Transition.run_append_eq_some_iff] at ran
        rcases ran with ⟨middle', frontRan', restRan⟩
        cases Option.some.inj (frontRan.symm.trans frontRan')
        rcases (Transition.run_cons_eq_some_iff step middle system _ rest).mp restRan with
          ⟨next, stepped, _⟩
        rcases reachable.exists_not_fifo stepped room oldWaits equal with
          ⟨conditions, later, drained, broken⟩
        apply broken
        apply keeps (front ++ [.insert handle wakeCondition]) rest next _ _ conditions later drained
        · rw [split, List.append_assoc]
          rfl
        · exact Transition.run_append_of_run frontRan (Transition.run_cons_of_step stepped rfl)
    | resume _ => trivial
    | suspend => trivial
  · intro along front rest middle split frontRan conditions later drained
    rw [split] at along
    have preserved : ∀ ⦃before : System ScheduleByPriority H N⦄ ⦃act after⦄, before.Apart →
        before.InsertsApart act → before.step act = some after → after.Apart := by
      intro before act after apart guard stepped
      exact apart.step guard stepped
    have apart := along.left.invariant preserved (init_apart buffer) frontRan
    have resumes : Transition.Along step InsertsApart middle (conditions.map Act.resume) := by
      intro before act after _ isSplit _
      have member : act ∈ conditions.map Act.resume := by
        rw [isSplit]
        exact List.mem_append_right before List.mem_cons_self
      rcases List.mem_map.mp member with ⟨condition, _, rfl⟩
      trivial
    exact (resumes.invariant preserved apart drained).fifo

/-- Two co-routines wait one after the other with the same priority. -/
def apartActs : List (Act ScheduleByPriority Nat) :=
  [.insert 1 ⟨3⟩, .insert 2 ⟨5⟩, .resume ⟨0⟩, .suspend, .resume ⟨0⟩, .insert 1 ⟨3⟩, .suspend]

theorem fifo_apartActs :
    Transition.Along step InsertsApart
        (init blankBuffer : System ScheduleByPriority Nat 2) apartActs ∧
      (after apartActs : System ScheduleByPriority Nat 2).Fifo := by
  have succeeds : (Transition.run step
      (init blankBuffer : System ScheduleByPriority Nat 2) apartActs).isSome := by decide
  have apart : Transition.Along step InsertsApart
      (init blankBuffer : System ScheduleByPriority Nat 2) apartActs := by decide
  rcases Option.isSome_iff_exists.mp succeeds with ⟨system, ran⟩
  refine ⟨apart, ?_⟩
  rw [after, ran, Option.getD_some]
  exact (fifo_iff_insertsApart ran).mpr apart apartActs [] system (List.append_nil _).symm ran []
    system rfl

/-- Two co-routines wait together with the same priority. -/
def tied (N : Nat) [NeZero N] : System ScheduleByPriority Nat N :=
  after [.insert 1 ⟨3⟩, .insert 2 ⟨3⟩, .resume ⟨3⟩]

/-- The one inserted later runs first. -/
theorem not_fifo_tied :
    (tied 2).Reachable ∧
      ((tied 2).resumed.map serialOf, (tied 2).waiting.map serialOf) = ([1], [0]) ∧
      ¬ (tied 2).Fifo := by
  constructor
  · exact after_reachable _
  · constructor
    · decide
    · intro fifo
      have overtaken := fifo.waits ⟨⟨2, 1⟩, ⟨3⟩⟩ (by decide) ⟨⟨1, 0⟩, ⟨3⟩⟩ (by decide) rfl
      exact absurd overtaken (by decide)

/-! ## Starvation -/

/-- The first co-routine runs and waits again with the same priority. -/
def round (handle : H) (priority : Int) : List (Act ScheduleByPriority H) :=
  [.resume ⟨priority⟩, .insert handle ⟨priority⟩, .suspend]

/-- A round leaves everything behind the first entry as it was. -/
theorem Reachable.round [NeZero N] {system : System ScheduleByPriority H N}
    (reachable : system.Reachable) {first : ScheduleEntry ScheduleByPriority (Insertion H)}
    {rest : List (ScheduleEntry ScheduleByPriority (Insertion H))}
    (waits : system.waiting = first :: rest) (handle : H) :
    ∃ next first', Transition.run System.step system (System.round handle (priorityOf first)) =
        some next ∧
      next.waiting = first' :: rest ∧ priorityOf first' = priorityOf first := by
  have ready : first.readyToWake ⟨priorityOf first⟩ = true :=
    (ScheduleByPriority.readyToWake_iff _ _).mpr le_rfl
  have sorted := reachable.sorted
  have room : rest.length < N := by
    have length := Holds.length_le reachable.valid
    rw [waits] at length
    exact length
  rw [waits] at sorted
  rcases reachable.valid.resume_head waits ready with
    ⟨running, resumes, runningWaits, _, runningCalls⟩
  rcases (reachable.step resumes).valid.step (.insert handle ⟨priorityOf first⟩)
    (fun impossible => by cases impossible) with ⟨again, inserts, againValid, effect⟩
  have againWaits : again.waiting = running.newEntry handle ⟨priorityOf first⟩ :: rest ∧
      again.calls ≠ [] := by
    cases effect with
    | insert waiting _ _ _ calls =>
        rw [runningWaits, inserted, if_pos room] at waiting
        rw [waiting, calls, runningCalls]
        refine ⟨?_, List.cons_ne_nil _ _⟩
        cases rest with
        | nil => rfl
        | cons head others =>
            rw [List.orderedInsert_cons, if_pos]
            have le := sorted.head_le (List.mem_cons_of_mem first List.mem_cons_self)
            exact (ScheduleByPriority.readyToWake_iff _ _).mpr le
  rcases againValid.step .suspend (fun _ => againWaits.2) with ⟨next, suspends, _, suspended⟩
  refine ⟨next, running.newEntry handle ⟨priorityOf first⟩, ?_, ?_, rfl⟩
  · simp only [System.round, Transition.run_cons, resumes, inserts, suspends, Option.bind_some,
      Transition.run_nil]
  · cases suspended with
    | suspend _ popped =>
        rw [popped]
        exact againWaits.1

/-- However often the first co-routine waits again, nothing behind it runs. -/
theorem Reachable.rounds_starve [NeZero N] {system : System ScheduleByPriority H N}
    (reachable : system.Reachable) {first : ScheduleEntry ScheduleByPriority (Insertion H)}
    {rest : List (ScheduleEntry ScheduleByPriority (Insertion H))}
    (waits : system.waiting = first :: rest) (handle : H) (rounds : Nat) :
    ∃ later first', Transition.run System.step system
        (List.replicate rounds (System.round handle (priorityOf first))).flatten = some later ∧
      later.waiting = first' :: rest := by
  induction rounds generalizing system first with
  | zero => exact ⟨system, first, rfl, waits⟩
  | succ rounds ih =>
      rcases reachable.round waits handle with ⟨next, first', ran, nextWaits, same⟩
      rcases ih (reachable.continue ⟨_, ran⟩) nextWaits with ⟨later, last, laterRan, laterWaits⟩
      rw [same] at laterRan
      exact ⟨later, last, Transition.run_append_of_run ran laterRan, laterWaits⟩

end BaremetalCoro.System
