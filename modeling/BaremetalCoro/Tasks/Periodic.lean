import BaremetalCoro.Tasks.ResumingOnDelay
import BaremetalCoro.Timer.Clock

/-!
# A periodic task that records its timestamps

`periodic` waits for a millisecond ten times.  Each time it is resumed, it
writes the time of the machine timer into the next entry of a table of ten
timestamps, which it finds by the global counter of its resumptions.

The co-routine and the busy loop that resumes it read the same counter, but in
different units: the scheduler counts nanoseconds, the table ticks of the
timer.  The counter goes on between any two statements.  What else the loop does
in a turn only takes time: it programs the timer and waits.  That includes the
delay it reads out of an empty `next_wake` after each resumption, whose value is
set aside here.
-/

namespace BaremetalCoro

open SchedulerOrdered Timer

/-- The next statement: the `co_await` of the task, the two of the loop, and
what follows the `co_await`. -/
inductive PeriodicPc where
  | await
  | readNow
  | resume (now : Int)
  | stamp

/-- What happens next. -/
inductive PeriodicAct where
  /-- The next statement. -/
  | main
  /-- The counter moves on. -/
  | tick (mtime : UInt64)

/-- The scheduler, the counter, the frame of the task with `resume_simple`, and
the table. -/
structure PeriodicSystem (N : Nat) where
  scheduler : SchedulerOrdered ScheduleByDelay Unit N
  mtime : UInt64
  frame : TaskFrame
  timestampResume : List UInt64
  pc : PeriodicPc

/-- `mtimer.get_time<timer_ticks>().count()` in an `uint64_t`. -/
def timestamp (mtime : UInt64) : UInt64 :=
  UInt64.ofInt (timerTicks mtime).toInt

namespace PeriodicSystem

variable {N : Nat}

/-- The period of a millisecond, in microseconds. -/
def period : AwaitableTimer := ⟨1000⟩

/-- The head of the loop of the task. -/
def loopHead (system : PeriodicSystem N) : PeriodicSystem N :=
  if system.frame.i < 10 then { system with pc := .await }
  else { system with frame := { system.frame with status := .finished }, pc := .readNow }

/-- What a turn of the task leaves behind when it wrote the table. -/
def recorded (system : PeriodicSystem N) (timestampResume : List UInt64) : PeriodicSystem N :=
  { system with
    timestampResume := timestampResume
    frame := { system.frame with i := system.frame.i + 1, resumeCount := system.frame.i + 1 } }

/-- Execute the next statement.  Only a suspended co-routine may be resumed,
and only the entries of the table may be written. -/
def statement (config : TimerConfig) (system : PeriodicSystem N) : Option (PeriodicSystem N) :=
  match system.pc with
  | .await => do
      let now ← MtimerClock.nowAt config system.mtime
      let scheduler ← period.awaitSuspend steadyClock now system.scheduler ()
      return { system with
        scheduler := scheduler
        frame := { system.frame with status := .suspended }
        pc := .readNow }
  | .readNow =>
      (MtimerClock.nowAt config system.mtime).map fun now => { system with pc := .resume now }
  | .resume now => do
      match ← system.scheduler.resume (ScheduleByDelay.immediate now) with
      | .idle _ _ => some { system with pc := .readNow }
      | .resumed _ _ scheduler _ =>
          match system.frame.status with
          | .suspended => some { system with scheduler := scheduler, pc := .stamp }
          | .unstarted | .finished => none
  | .stamp =>
      if system.frame.resumeCount < system.timestampResume.length then
        some (system.recorded (system.timestampResume.set system.frame.resumeCount
          (timestamp system.mtime))).loopHead
      else none

/-- One step.  The counter never goes back. -/
def step (config : TimerConfig) : Transition.Step (PeriodicSystem N) PeriodicAct :=
  fun system act =>
    match act with
    | .main => system.statement config
    | .tick mtime => if system.mtime ≤ mtime then some { system with mtime := mtime } else none

/-- The task is called for the first time, at the head of its loop. -/
def started [NeZero N]
    (buffer : Fin N → StaticListNode (ScheduleEntry ScheduleByDelay Unit) N) (mtime : UInt64) :
    PeriodicSystem N :=
  loopHead ⟨SchedulerOrdered.init buffer, mtime, ⟨0, 0, .unstarted⟩, List.replicate 10 0, .await⟩

/-- The entries of the table that were written. -/
def stamps (system : PeriodicSystem N) : List UInt64 :=
  system.timestampResume.take system.frame.resumeCount

/-- More than a period is between two times of the counter. -/
def Apart (config : TimerConfig) (earlier later : UInt64) : Prop :=
  MtimerClock.nanos config earlier.toNat + 1000000 < MtimerClock.nanos config later.toNat

/-! ## The table -/

/-- The scheduler holds the task while it is suspended, and nothing else. -/
def Placed (system : PeriodicSystem N) : PeriodicPc → Prop
  | .await => system.frame.i < 10 ∧ system.frame.status ≠ .finished ∧ system.scheduler.Holds []
  | .stamp => system.frame.i < 10 ∧ system.frame.status = .suspended ∧ system.scheduler.Holds []
  | .readNow | .resume _ =>
      (system.frame.i < 10 ∧ system.frame.status = .suspended ∧
        ∃ expires, system.scheduler.Holds [⟨(), ⟨expires⟩⟩]) ∨
      (system.frame.i = 10 ∧ system.frame.status = .finished ∧ system.scheduler.Holds [])

/-- What holds between any two steps. -/
structure Valid (system : PeriodicSystem N) : Prop where
  size : system.timestampResume.length = 10
  unwritten : ∀ index, system.frame.resumeCount ≤ index → index < 10 →
    system.timestampResume[index]? = some 0
  counted : system.frame.resumeCount = system.frame.i
  placed : system.Placed system.pc

theorem started_valid [NeZero N]
    (buffer : Fin N → StaticListNode (ScheduleEntry ScheduleByDelay Unit) N) (mtime : UInt64) :
    (started buffer mtime).Valid := by
  constructor
  · rfl
  · intro index _ bound
    exact List.getElem?_replicate_of_lt bound
  · rfl
  · exact ⟨Nat.zero_lt_succ 9, TaskStatus.noConfusion, SchedulerOrdered.init_holds buffer⟩

/-! ## The times in the table -/

/-- What is known of the waiting task, when the last time written is `last`. -/
def Awaited (config : TimerConfig) (system : PeriodicSystem N) (last : UInt64) : PeriodicPc → Prop
  | .await => True
  | .readNow => ∀ entry ∈ system.scheduler.entries,
      MtimerClock.nanos config last.toNat + 1000000 ≤ entry.wakeCondition_.expires_
  | .resume now =>
      (∀ entry ∈ system.scheduler.entries,
        MtimerClock.nanos config last.toNat + 1000000 ≤ entry.wakeCondition_.expires_) ∧
      now ≤ MtimerClock.nanos config system.mtime.toNat
  | .stamp => Apart config last system.mtime

/-- The times are apart, and so will be the next one. -/
structure Timed (config : TimerConfig) (start : UInt64) (system : PeriodicSystem N) : Prop where
  apart : (start :: system.stamps).IsChain (Apart config)
  past : ∀ stamp ∈ start :: system.stamps, stamp ≤ system.mtime
  awaited : ∀ last ∈ (start :: system.stamps).getLast?, system.Awaited config last system.pc

theorem timestamp_of_lt {mtime : UInt64} (small : mtime.toNat < 2 ^ 31) :
    timestamp mtime = mtime := by
  rw [timestamp, timerTicks_of_lt small]
  apply UInt64.toNat_inj.mp
  rw [UInt64.ofInt, UInt64.toNat_ofNat']
  omega

theorem nanos_mono_of_le (config : TimerConfig) {earlier later : UInt64} (le : earlier ≤ later) :
    MtimerClock.nanos config earlier.toNat ≤ MtimerClock.nanos config later.toNat :=
  MtimerClock.nanos_mono config (Int.ofNat_le.mpr (UInt64.le_iff_toNat_le.mp le))

variable {config : TimerConfig} {system : PeriodicSystem N} {start : UInt64}

/-- A time that is known to be apart stays so. -/
theorem Apart.mono {last mtime later : UInt64} (apart : Apart config last mtime)
    (le : mtime ≤ later) : Apart config last later :=
  lt_of_lt_of_le apart (nanos_mono_of_le config le)

/-- The counter moves on. -/
theorem Timed.tick (timed : system.Timed config start) {mtime : UInt64}
    (notBefore : system.mtime ≤ mtime) : Timed config start { system with mtime := mtime } := by
  constructor
  · exact timed.apart
  · intro stamp member
    exact UInt64.le_trans (timed.past stamp member) notBefore
  · intro last isLast
    have awaited := timed.awaited last isLast
    change Awaited config { system with mtime := mtime } last system.pc
    cases hpc : system.pc with
    | await => trivial
    | readNow =>
        rw [hpc] at awaited
        exact awaited
    | resume now =>
        rw [hpc] at awaited
        exact ⟨awaited.1, awaited.2.trans (nanos_mono_of_le config notBefore)⟩
    | stamp =>
        rw [hpc] at awaited
        exact Apart.mono awaited notBefore

/-! ## One statement -/

/-- A statement is possible, and it keeps the table and its times. -/
def Continues (config : TimerConfig) (start : UInt64) (system : PeriodicSystem N) : Prop :=
  ∃ next, system.statement config = some next ∧ next.Valid ∧ next.mtime = system.mtime ∧
    (system.mtime.toNat < 2 ^ 31 → system.Timed config start → next.Timed config start)

/-- The task waits for its period. -/
theorem Valid.await [NeZero N] (valid : system.Valid) (atAwait : system.pc = .await) :
    system.Continues config start := by
  have placed := valid.placed
  rw [atAwait] at placed
  rcases placed with ⟨more, _, holds⟩
  rcases holds.insert () (makeCondition steadyClock
    (MtimerClock.nanos config (timerTicks system.mtime).toInt) 1000) with
    ⟨scheduler, insertEq, holds'⟩
  have room : ([] : List (ScheduleEntry ScheduleByDelay Unit)).length < N := Nat.pos_of_neZero N
  rw [inserted, if_pos room] at holds'
  have statementEq : system.statement config = some
      { system with
        scheduler := scheduler
        frame := { system.frame with status := .suspended }
        pc := .readNow } := by
    simp only [PeriodicSystem.statement, atAwait, MtimerClock.nowAt_eq, bind, Option.bind_some,
      period, AwaitableTimer.awaitSuspend, insertEq]
    rfl
  refine ⟨_, statementEq, ?_, rfl, ?_⟩
  · exact ⟨valid.size, valid.unwritten, valid.counted, Or.inl ⟨more, rfl, _, holds'⟩⟩
  · intro small timed
    refine ⟨timed.apart, timed.past, ?_⟩
    intro last isLast entry member
    change entry ∈ scheduler.entries at member
    rw [holds'.entries_eq] at member
    rw [List.mem_singleton.mp member]
    have notBefore := nanos_mono_of_le config (timed.past last (List.mem_of_getLast? isLast))
    change _ ≤ MtimerClock.nanos config (timerTicks system.mtime).toInt + 1000000
    rw [timerTicks_of_lt small]
    exact Int.add_le_add_right notBefore 1000000

/-- The loop reads the clock. -/
theorem Valid.readNow (valid : system.Valid) (atRead : system.pc = .readNow) :
    system.Continues config start := by
  have placed := valid.placed
  rw [atRead] at placed
  have statementEq : system.statement config = some { system with
      pc := .resume (MtimerClock.nanos config (timerTicks system.mtime).toInt) } := by
    simp only [PeriodicSystem.statement, atRead, MtimerClock.nowAt_eq, Option.map_some]
  refine ⟨_, statementEq, ⟨valid.size, valid.unwritten, valid.counted, placed⟩, rfl, ?_⟩
  intro small timed
  refine ⟨timed.apart, timed.past, ?_⟩
  intro last isLast
  have awaited := timed.awaited last isLast
  rw [atRead] at awaited
  refine ⟨awaited, ?_⟩
  rw [timerTicks_of_lt small]

/-- A call of `resume` that finds nothing due changes nothing. -/
theorem Valid.resume_idle (valid : system.Valid) {now : Int} (atResume : system.pc = .resume now)
    {pending : Bool} {priorityCondition : Option ScheduleByDelay}
    (resumeEq : system.scheduler.resume (ScheduleByDelay.immediate now) =
      some (.idle pending priorityCondition)) : system.Continues config start := by
  have placed := valid.placed
  rw [atResume] at placed
  have statementEq : system.statement config = some { system with pc := .readNow } := by
    simp only [PeriodicSystem.statement, atResume, resumeEq, bind, Option.bind_some]
  refine ⟨_, statementEq, ⟨valid.size, valid.unwritten, valid.counted, placed⟩, rfl, ?_⟩
  intro _ timed
  refine ⟨timed.apart, timed.past, ?_⟩
  intro last isLast
  have awaited := timed.awaited last isLast
  rw [atResume] at awaited
  exact awaited.1

/-- The loop calls `resume`: the task is resumed after its time, or goes on
waiting. -/
theorem Valid.resume (valid : system.Valid) {now : Int} (atResume : system.pc = .resume now) :
    system.Continues config start := by
  have placed := valid.placed
  rw [atResume] at placed
  rcases placed with ⟨more, suspended, expires, holds⟩ | ⟨_, _, holds⟩
  · rcases holds.resume_cases (ScheduleByDelay.immediate now) with
      ⟨skipped, entry, rest, scheduler, before, _, ready, resumeEq, holds'⟩ | ⟨_, resumeEq⟩
    · rcases List.append_eq_singleton_iff.mp before.symm with ⟨rfl, first⟩ | ⟨_, impossible⟩
      · rcases List.cons_eq_cons.mp first with ⟨rfl, rfl⟩
        have statementEq : system.statement config =
            some { system with scheduler := scheduler, pc := .stamp } := by
          simp only [PeriodicSystem.statement, atResume, resumeEq, bind, Option.bind_some,
            suspended]
        refine ⟨_, statementEq, ?_, rfl, ?_⟩
        · exact ⟨valid.size, valid.unwritten, valid.counted, more, suspended, holds'⟩
        · intro _ timed
          refine ⟨timed.apart, timed.past, ?_⟩
          intro last isLast
          have awaited := timed.awaited last isLast
          rw [atResume] at awaited
          have waited := awaited.1 ⟨(), ⟨expires⟩⟩ (by
            rw [holds.entries_eq]
            exact List.mem_cons_self)
          have passed : expires < now := (ScheduleByDelay.readyToWake_iff _ _).mp ready
          exact lt_of_le_of_lt waited (lt_of_lt_of_le passed awaited.2)
      · contradiction
    · exact valid.resume_idle atResume resumeEq
  · apply valid.resume_idle atResume (holds.resume_idle ?_)
    intro entry member
    contradiction

/-- The entries written before, and the next one. -/
theorem take_set {table : List UInt64} {index : Nat} (inside : index < table.length)
    (stamp : UInt64) :
    (table.set index stamp).take (index + 1) = table.take index ++ [stamp] := by
  rw [List.take_add_one, List.getElem?_set_self inside, List.take_set_of_le le_rfl]
  rfl

/-- The next time is apart from the last one. -/
theorem Timed.stamped (timed : system.Timed config start) (atStamp : system.pc = .stamp)
    (small : system.mtime.toNat < 2 ^ 31) :
    (start :: (system.stamps ++ [timestamp system.mtime])).IsChain (Apart config) ∧
      ∀ stamp ∈ start :: (system.stamps ++ [timestamp system.mtime]), stamp ≤ system.mtime := by
  rw [timestamp_of_lt small, ← List.cons_append]
  constructor
  · apply List.isChain_append.mpr ⟨timed.apart, List.isChain_singleton _, ?_⟩
    intro last isLast stamp isStamp
    have awaited := timed.awaited last isLast
    rw [atStamp] at awaited
    cases isStamp
    exact awaited
  · intro stamp member
    rcases List.mem_append.mp member with before | isStamp
    · exact timed.past stamp before
    · rw [List.mem_singleton.mp isStamp]
      exact UInt64.le_refl _

/-- The time is written into the table, and the task goes to the head of its
loop. -/
theorem Valid.stamp (valid : system.Valid) (atStamp : system.pc = .stamp) :
    system.Continues config start := by
  have counted := valid.counted
  have placed := valid.placed
  rw [atStamp] at placed
  rcases placed with ⟨more, suspended, holds⟩
  have inside : system.frame.resumeCount < system.timestampResume.length := by
    rw [valid.size, counted]
    exact more
  have size : (system.timestampResume.set system.frame.resumeCount
      (timestamp system.mtime)).length = 10 := by
    rw [List.length_set, valid.size]
  have unwritten : ∀ index, system.frame.i + 1 ≤ index → index < 10 →
      (system.timestampResume.set system.frame.resumeCount (timestamp system.mtime))[index]? =
        some 0 := by
    intro index behind bound
    have other : system.frame.resumeCount ≠ index := by omega
    rw [List.getElem?_set_ne other]
    exact valid.unwritten index (by omega) bound
  have written : (system.timestampResume.set system.frame.resumeCount
      (timestamp system.mtime)).take (system.frame.i + 1) =
        system.stamps ++ [timestamp system.mtime] := by
    rw [← counted]
    exact take_set inside _
  have statementEq : system.statement config = some (system.recorded
      (system.timestampResume.set system.frame.resumeCount (timestamp system.mtime))).loopHead := by
    simp only [PeriodicSystem.statement, atStamp, if_pos inside]
  generalize system.timestampResume.set system.frame.resumeCount (timestamp system.mtime) = table
    at size unwritten written statementEq
  rcases Nat.lt_or_ge (system.recorded table).frame.i 10 with again | ends
  · rw [loopHead, if_pos again] at statementEq
    refine ⟨_, statementEq, ⟨size, unwritten, rfl, again, ?_, holds⟩, rfl, ?_⟩
    · change system.frame.status ≠ .finished
      rw [suspended]
      exact TaskStatus.noConfusion
    · intro small timed
      rcases timed.stamped atStamp small with ⟨chain, past⟩
      rw [← written] at chain past
      exact ⟨chain, past, fun _ _ => trivial⟩
  · rw [loopHead, if_neg (Nat.not_lt.mpr ends)] at statementEq
    have last : system.frame.i + 1 = 10 := le_antisymm more ends
    refine ⟨_, statementEq, ⟨size, unwritten, rfl, Or.inr ⟨last, rfl, holds⟩⟩, rfl, ?_⟩
    intro small timed
    rcases timed.stamped atStamp small with ⟨chain, past⟩
    rw [← written] at chain past
    refine ⟨chain, past, ?_⟩
    intro _ _ entry member
    change entry ∈ system.scheduler.entries at member
    rw [holds.entries_eq] at member
    contradiction

/-! ## Every run -/

theorem Valid.continues [NeZero N] (valid : system.Valid) (config : TimerConfig)
    (start : UInt64) : system.Continues config start := by
  cases hpc : system.pc with
  | await => exact valid.await hpc
  | readNow => exact valid.readNow hpc
  | resume now => exact valid.resume hpc
  | stamp => exact valid.stamp hpc

/-- The table and, while the counter is small, its times are in order. -/
def Recording (config : TimerConfig) (start : UInt64) (system : PeriodicSystem N) : Prop :=
  system.Valid ∧ (system.mtime.toNat < 2 ^ 31 → system.Timed config start)

/-- The counter never goes back, so it was small before a step if it is small
after it. -/
theorem Recording.step [NeZero N] {act : PeriodicAct} {next : PeriodicSystem N}
    (recording : system.Recording config start)
    (stepped : PeriodicSystem.step config system act = some next) :
    next.Recording config start := by
  rcases recording with ⟨valid, timed⟩
  cases act with
  | main =>
      rcases valid.continues config start with
        ⟨next', statementEq, valid', same, timed'⟩
      cases Option.some.inj (statementEq.symm.trans stepped)
      refine ⟨valid', fun small => ?_⟩
      rw [same] at small
      exact timed' small (timed small)
  | tick mtime =>
      simp only [PeriodicSystem.step] at stepped
      split at stepped
      · rename_i notBefore
        cases Option.some.inj stepped
        refine ⟨⟨valid.size, valid.unwritten, valid.counted, valid.placed⟩, fun small => ?_⟩
        have earlier := UInt64.le_iff_toNat_le.mp notBefore
        exact (timed (lt_of_le_of_lt earlier small)).tick notBefore
      · contradiction

theorem started_timed [NeZero N] (config : TimerConfig)
    (buffer : Fin N → StaticListNode (ScheduleEntry ScheduleByDelay Unit) N) (mtime : UInt64) :
    (started buffer mtime).Timed config mtime := by
  refine ⟨List.isChain_singleton mtime, ?_, fun _ _ => trivial⟩
  intro stamp member
  rw [List.mem_singleton.mp member]
  exact UInt64.le_refl mtime

/-- The task has finished exactly when it has gone through all turns. -/
theorem Placed.ends {pc : PeriodicPc} (placed : system.Placed pc) :
    system.frame.i ≤ 10 ∧ (system.frame.status = .finished ↔ system.frame.i = 10) ∧
      (system.frame.status = .finished → system.scheduler.empty = true) := by
  have stands : (system.frame.i < 10 ∧ system.frame.status ≠ .finished) ∨
      (system.frame.i = 10 ∧ system.frame.status = .finished ∧ system.scheduler.Holds []) := by
    have notFinished (suspended : system.frame.status = .suspended) :
        system.frame.status ≠ .finished := by
      rw [suspended]
      exact TaskStatus.noConfusion
    cases pc with
    | await => exact Or.inl ⟨placed.1, placed.2.1⟩
    | stamp => exact Or.inl ⟨placed.1, notFinished placed.2.1⟩
    | _ =>
        rcases placed with ⟨more, suspended, _⟩ | finished
        · exact Or.inl ⟨more, notFinished suspended⟩
        · exact Or.inr finished
  rcases stands with ⟨more, notFinished⟩ | ⟨last, finished, holds⟩
  · exact ⟨more.le, iff_of_false notFinished more.ne, fun finished => absurd finished notFinished⟩
  · exact ⟨last.le, iff_of_true finished last, fun _ => holds.empty_iff.mpr rfl⟩

/-- What was not written is zero. -/
theorem Valid.table_eq (valid : system.Valid) :
    system.timestampResume =
      system.stamps ++ List.replicate (10 - system.frame.resumeCount) 0 := by
  have rest : system.timestampResume.drop system.frame.resumeCount =
      List.replicate (10 - system.frame.resumeCount) 0 := by
    apply List.eq_replicate_iff.mpr
    constructor
    · rw [List.length_drop, valid.size]
    · intro stamp member
      rcases List.mem_iff_getElem?.mp member with ⟨index, stampEq⟩
      rw [List.getElem?_drop] at stampEq
      have inside : system.frame.resumeCount + index < 10 := by
        rw [← valid.size]
        exact (List.getElem?_eq_some_iff.mp stampEq).1
      rw [valid.unwritten _ (Nat.le_add_right _ _) inside] at stampEq
      exact (Option.some.inj stampEq).symm
  rw [← rest]
  exact (List.take_append_drop _ _).symm

/-- In every run the task gets on: no statement writes beyond the table or
resumes the task when it is not suspended, and the entries of the table are
written one after the other.  The task has finished exactly when it has written
all ten, and then the scheduler is empty.  As long as the counter has not
reached `2 ^ 31`, more than a millisecond is between the start of the task and
the first entry, and between any entry and the next one. -/
theorem timestamps_apart [NeZero N] {config : TimerConfig}
    {buffer : Fin N → StaticListNode (ScheduleEntry ScheduleByDelay Unit) N} {mtime : UInt64}
    {acts : List PeriodicAct} {target : PeriodicSystem N}
    (ran : Transition.run (step config) (started buffer mtime) acts = some target) :
    (∃ next, step config target .main = some next) ∧
      target.frame.resumeCount ≤ 10 ∧
      target.timestampResume =
        target.stamps ++ List.replicate (10 - target.frame.resumeCount) 0 ∧
      (target.frame.status = .finished ↔ target.frame.resumeCount = 10) ∧
      (target.frame.status = .finished → target.scheduler.empty = true) ∧
      (target.mtime.toNat < 2 ^ 31 →
        (mtime :: target.stamps).IsChain fun earlier later =>
          MtimerClock.nanos config earlier.toNat + 1000000 <
            MtimerClock.nanos config later.toNat) := by
  have recording : target.Recording config mtime :=
    Transition.run_invariant (fun _ _ _ recording stepped => recording.step stepped)
      ⟨started_valid buffer mtime, fun _ => started_timed config buffer mtime⟩ ran
  rcases recording with ⟨valid, timed⟩
  rcases valid.continues config mtime with ⟨next, possible, _⟩
  rcases valid.placed.ends with ⟨bound, finishes, empties⟩
  rw [← valid.counted] at bound finishes
  exact ⟨⟨next, possible⟩, bound, valid.table_eq, finishes, empties,
    fun small => (timed small).apart⟩

/-- The task is started, waits for its first period, and is resumed. -/
def firstPeriod : List PeriodicAct :=
  [.main, .tick 34, .main, .main, .tick 35, .main]

/-- At 32768 Hz the period is over after 33 ticks. -/
theorem timestamps_apart_firstPeriod :
    ∃ target : PeriodicSystem 10, Transition.run (step defaultTimerConfig)
        (started (fun _ => ⟨none, none, none⟩) 0) firstPeriod = some target ∧
      target.timestampResume = 35 :: List.replicate 9 0 ∧
      [0, 35].IsChain fun earlier later : UInt64 =>
        MtimerClock.nanos defaultTimerConfig earlier.toNat + 1000000 <
          MtimerClock.nanos defaultTimerConfig later.toNat := by
  have observed : (Transition.run (step defaultTimerConfig)
      (started (fun _ : Fin 10 => ⟨none, none, none⟩) 0) firstPeriod).map (fun target =>
        (target.mtime, target.timestampResume, target.frame.resumeCount)) =
          some (35, 35 :: List.replicate 9 0, 1) := by
    decide
  rcases Option.map_eq_some_iff.mp observed with ⟨target, ran, seen⟩
  rcases Prod.mk.inj seen with ⟨mtimeEq, seenRest⟩
  rcases Prod.mk.inj seenRest with ⟨tableEq, countEq⟩
  rcases timestamps_apart ran with ⟨_, _, _, _, _, apart⟩
  have stampsEq : target.stamps = [35] := by
    rw [stamps, tableEq, countEq]
    rfl
  rw [mtimeEq, stampsEq] at apart
  exact ⟨target, ran, tableEq, apart (by decide)⟩

end PeriodicSystem

end BaremetalCoro
