import BaremetalCoro.Scheduler.Sleep
import BaremetalCoro.Timer.Clock

/-!
# The busy loop that is woken by the timer

`example_simple` and `example_timer` run the same loop: it calls `resume` with
the current time, programs the timer for the delay `resume` reports, masks the
interrupts, enables the timer interrupt and waits for it.  The handler only
disables the timer interrupt again.  All the co-routines are left open; what a
call of `resume` does is an input of the loop.

When `resume` ran a co-routine it reports no condition, and the loop reads a
delay out of an empty `std::optional`.  That delay is an input, too: nothing is
assumed about it.
-/

namespace BaremetalCoro

open Chrono SchedulerOrdered Timer

/-- The next statement of the loop, with the locals that are live there. -/
inductive TimerPc where
  | readNow
  | resume (now : Int)
  | delay (nextWake : Option ScheduleByDelay)
  | setTimeCmp (nextWake : Option ScheduleByDelay) (timeOffset : Int)
  | clearMie (nextWake : Option ScheduleByDelay)
  | setMti (nextWake : Option ScheduleByDelay)
  | wfi (nextWake : Option ScheduleByDelay)
  | setMie (nextWake : Option ScheduleByDelay)

/-- The scheduler, the registers of the timer, the two interrupt enable bits
and the loop. -/
structure TimerSystem (H : Type) (N : Nat) where
  scheduler : System ScheduleByDelay H N
  mtime : UInt64
  mtimecmp : UInt64
  mstatusMie : Bool
  mieMti : Bool
  pc : TimerPc

/-- What a statement of the loop depends on beyond the state: what `resume`
returned and left behind, and what is in an empty `std::optional`. -/
structure TimerInput (H : Type) (N : Nat) where
  returned : System ScheduleByDelay H N
  result : Bool × Option ScheduleByDelay
  garbage : Int

/-- What happens next. -/
inductive TimerAct (H : Type) (N xlen : Nat) where
  /-- A statement of the loop. -/
  | main (input : TimerInput H N)
  /-- The counter moves on. -/
  | tick (mtime : UInt64)
  /-- The handler runs. -/
  | trap (mcause : BitVec xlen)

/-- The handler knows the cause as a machine timer interrupt. -/
def isTimer {xlen : Nat} (mcause : BitVec xlen) : Bool :=
  mcause &&& BitVec.twoPow xlen (xlen - 1) ≠ 0 && mcause &&& 0xFF == 7

/-- The handler runs for the timer interrupt. -/
def TimerAct.isTimerTrap {H : Type} {N width : Nat} : TimerAct H N width → Bool
  | .trap mcause => isTimer mcause
  | .main _ | .tick _ => false

namespace TimerSystem

variable {H : Type} {N : Nat}

/-- A statement of the loop.  A register of 64 bits is read and written as a
whole. -/
def busyLoop (config : TimerConfig) (xlen : Xlen) (system : TimerSystem H N)
    (input : TimerInput H N) : Option (TimerSystem H N) :=
  match system.pc with
  | .readNow =>
      (MtimerClock.nowAt config system.mtime).map fun now => { system with pc := .resume now }
  | .resume _ =>
      some { system with
        scheduler := input.returned
        pc := if input.result.1 then .delay input.result.2 else .readNow }
  | .delay (some wake) =>
      (MtimerClock.nowAt config system.mtime).map fun now =>
        { system with pc := .setTimeCmp (some wake) (wake.delay now) }
  | .delay none => some { system with pc := .setTimeCmp none input.garbage }
  | .setTimeCmp nextWake timeOffset =>
      (setTimeCmp config Period.nano xlen (fun _ => system.mtime) 1 0 system.mtimecmp
        timeOffset).map fun cmp => { system with mtimecmp := cmp, pc := .clearMie nextWake }
  | .clearMie nextWake => some { system with mstatusMie := false, pc := .setMti nextWake }
  | .setMti nextWake => some { system with mieMti := true, pc := .wfi nextWake }
  | .wfi nextWake => some { system with pc := .setMie nextWake }
  | .setMie _ => some { system with mstatusMie := true, pc := .readNow }

/-- The interrupt handler. -/
def handler {width : Nat} (system : TimerSystem H N) (mcause : BitVec width) : TimerSystem H N :=
  if isTimer mcause then { system with mieMti := false } else system

/-- The hart takes a trap: always with interrupts enabled, and the timer
interrupt only while it is enabled and the counter has reached the compare
point. -/
def Takes {width : Nat} (system : TimerSystem H N) (mcause : BitVec width) : Prop :=
  system.mstatusMie = true ∧
    (isTimer mcause = true → system.mieMti = true ∧ system.mtimecmp ≤ system.mtime)

instance {width : Nat} (system : TimerSystem H N) (mcause : BitVec width) :
    Decidable (system.Takes mcause) :=
  inferInstanceAs (Decidable (_ ∧ _))

/-- One step.  The counter never goes back. -/
def step {width : Nat} (config : TimerConfig) (xlen : Xlen) :
    Transition.Step (TimerSystem H N) (TimerAct H N width) := fun system act =>
  match act with
  | .main input => system.busyLoop config xlen input
  | .tick mtime => if system.mtime ≤ mtime then some { system with mtime := mtime } else none
  | .trap mcause => if system.Takes mcause then some (system.handler mcause) else none

/-- The loop enables the timer interrupt. -/
def armsTimer {width : Nat} (system : TimerSystem H N) : TimerAct H N width → Bool
  | .main _ =>
      match system.pc with
      | .setMti _ => true
      | _ => false
  | .tick _ | .trap _ => false

/-- What the environment keeps to: a call of `resume` is a call, and a delay
that is programmed ends in the range of the tick count. -/
def Sound {width : Nat} (config : TimerConfig) (system : TimerSystem H N) :
    TimerAct H N width → Prop
  | .main input =>
      match system.pc with
      | .resume now => system.scheduler.ResumeCall (ScheduleByDelay.immediate now)
          input.returned input.result
      | .setTimeCmp (some _) timeOffset =>
          system.mtime.toNat + offsetTicks config timeOffset.toNat < 2 ^ 31
      | _ => True
  | .tick _ | .trap _ => True

end TimerSystem

/-- A condition that `resume` reports is the latest of those that wait when it
returns. -/
theorem System.ResumeCall.latest {H : Type} {N : Nat} [NeZero N]
    {system returned : System ScheduleByDelay H N} {readyCondition : ScheduleByDelay}
    {result : Bool × Option ScheduleByDelay}
    (reachable : system.Reachable) (call : system.ResumeCall readyCondition returned result)
    {wake : ScheduleByDelay} (reports : result.2 = some wake) :
    ∀ entry ∈ returned.waiting, entry.wakeCondition_.expires_ ≤ wake.expires_ := by
  have sorted := reachable.sorted
  rcases Holds.resume_cases reachable.valid readyCondition with
    ⟨skipped, entry, rest, scheduler, before, notReady, ready, resumeEq, _⟩ | ⟨_, resumeEq⟩
  · rcases call.result_eq with ⟨exit, exits, rfl⟩
    cases Option.some.inj (exits.symm.trans resumeEq)
    rw [before] at sorted
    rw [sorted.skipped_eq_nil notReady ready] at reports
    contradiction
  · cases call with
    | idle exits =>
        cases Option.some.inj (exits.symm.trans resumeEq)
        intro entry member
        have isLast := List.getLast?_eq_some_getLast (List.ne_nil_of_mem member)
        have reported := reports
        rw [sorted.foldl_track, isLast] at reported
        rw [← Option.some.inj reported]
        exact (ScheduleByDelay.le_iff _ _).mp (System.sorted_le_getLast sorted isLast member)
    | resumed exits _ _ _ =>
        cases Option.some.inj (exits.symm.trans resumeEq)

namespace TimerSystem

variable {H : Type} {N : Nat} [NeZero N]

/-- The compare point is late enough for a condition: two ticks behind it the
condition is ready. -/
def LateEnough (config : TimerConfig) (mtimecmp : UInt64) (wake : ScheduleByDelay) : Prop :=
  ∀ later : UInt64, mtimecmp.toNat + 2 ≤ later.toNat → later.toNat < 2 ^ 31 →
    ∃ awake, MtimerClock.nowAt config later = some awake ∧ wake.expires_ < awake

/-- A condition that was reported is the latest of those that wait. -/
def Latest (system : TimerSystem H N) (nextWake : Option ScheduleByDelay) : Prop :=
  ∀ wake, nextWake = some wake →
    ∀ entry ∈ system.scheduler.waiting, entry.wakeCondition_.expires_ ≤ wake.expires_

/-- The compare point is late enough for a condition that was reported. -/
def Programmed (config : TimerConfig) (system : TimerSystem H N)
    (nextWake : Option ScheduleByDelay) : Prop :=
  ∀ wake, nextWake = some wake → LateEnough config system.mtimecmp wake

/-- The offset is the delay of the condition at some earlier time. -/
def Measured (config : TimerConfig) (system : TimerSystem H N)
    (nextWake : Option ScheduleByDelay) (timeOffset : Int) : Prop :=
  ∀ wake, nextWake = some wake → ∃ (rawTime : UInt64) (now : Int), rawTime ≤ system.mtime ∧
    MtimerClock.nowAt config rawTime = some now ∧ timeOffset = wake.delay now

/-- What is known of the co-routines at each place of the loop. -/
def Knows (config : TimerConfig) (system : TimerSystem H N) : TimerPc → Prop
  | .readNow | .resume _ => True
  | .delay nextWake => system.Latest nextWake
  | .setTimeCmp nextWake timeOffset =>
      system.Latest nextWake ∧ system.Measured config nextWake timeOffset
  | .clearMie nextWake | .setMti nextWake | .wfi nextWake | .setMie nextWake =>
      system.Latest nextWake ∧ system.Programmed config nextWake

/-- What is known of the two enable bits at each place of the loop. -/
def Masked (system : TimerSystem H N) : TimerPc → Prop
  | .setMti _ => system.mstatusMie = false
  | .wfi _ | .setMie _ => system.mstatusMie = false ∧ system.mieMti = true
  | _ => True

/-- What holds between any two steps of a sound environment. -/
structure Valid (config : TimerConfig) (system : TimerSystem H N) : Prop where
  reachable : system.scheduler.Reachable
  knows : system.Knows config system.pc

/-! ## What the statements rely on -/

theorem getRawTime_const (xlen : Xlen) (mtime : UInt64) :
    ∃ next, getRawTime xlen (fun _ => mtime) 1 0 = some (mtime, next) := by
  cases xlen with
  | rv32 =>
      refine ⟨3, ?_⟩
      rw [getRawTime, getRawTimeLoop, if_neg (not_not.mpr rfl), Words.joinWords_halves]
  | rv64 => exact ⟨1, rfl⟩

/-- The delay of a condition, programmed when it was measured or later, is long
enough. -/
theorem setTimeCmp_lateEnough {config : TimerConfig} (coarse : config.mtimeFreqHz ≤ 10 ^ 9)
    {xlen : Xlen} {wake : ScheduleByDelay} {rawTime mtime mtimecmp cmp : UInt64} {now : Int}
    (notBefore : rawTime ≤ mtime) (nowEq : MtimerClock.nowAt config rawTime = some now)
    (inRange : mtime.toNat + offsetTicks config (wake.delay now).toNat < 2 ^ 31)
    (sets : setTimeCmp config Period.nano xlen (fun _ => mtime) 1 0 mtimecmp (wake.delay now) =
      some cmp) : LateEnough config cmp wake := by
  have nonneg : 0 ≤ wake.delay now := by
    unfold ScheduleByDelay.delay
    split
    · omega
    · exact le_rfl
  have expires : wake.expires_ ≤ now + wake.delay now := by
    unfold ScheduleByDelay.delay
    split
    · omega
    · omega
  obtain ⟨span, spanEq⟩ := Int.eq_ofNat_of_zero_le nonneg
  rw [spanEq] at sets expires
  rw [spanEq, Int.toNat_natCast] at inRange
  rcases getRawTime_const xlen mtime with ⟨next, read⟩
  rcases setTimeCmp_inRange read mtimecmp inRange with ⟨cmp', sets', cmpEq⟩
  cases Option.some.inj (sets.symm.trans sets')
  have before := UInt64.le_iff_toNat_le.mp notBefore
  have current : now = durationCast (tickPeriod config) Period.nano rawTime.toNat := by
    rw [nowAt_of_lt (by omega)] at nowEq
    exact (Option.some.inj nowEq).symm
  have fine : 0 < (tickPeriod config).den * Period.nano.num :=
    Nat.mul_pos config.positive Nat.one_pos
  intro later past laterInRange
  refine ⟨_, nowAt_of_lt laterInRange, lt_of_le_of_lt expires ?_⟩
  rw [current]
  apply lt_durationCast_add fine
  · simpa [tickPeriod, Period.nano] using coarse
  · rw [durationCast_offset]
    have late : rawTime.toNat + offsetTicks config span + 2 ≤ later.toNat := by
      omega
    exact_mod_cast late

/-! ## Every step keeps it -/

section Steps

variable {width : Nat} {config : TimerConfig} {xlen : Xlen} {system next : TimerSystem H N}

/-- A statement of the loop. -/
theorem Valid.main (valid : system.Valid config) (coarse : config.mtimeFreqHz ≤ 10 ^ 9)
    {input : TimerInput H N}
    (sound : system.Sound config (.main input : TimerAct H N width))
    (looped : system.busyLoop config xlen input = some next) : next.Valid config := by
  have reachable := valid.reachable
  have knows := valid.knows
  unfold Sound at sound
  unfold busyLoop at looped
  cases hpc : system.pc with
  | readNow =>
      simp only [hpc] at looped
      rcases Option.map_eq_some_iff.mp looped with ⟨now, _, rfl⟩
      exact ⟨reachable, trivial⟩
  | resume now =>
      simp only [hpc] at sound
      simp only [hpc, Option.some.injEq] at looped
      subst looped
      have later : input.returned.Reachable := reachable.continue sound.reachable
      refine ⟨later, ?_⟩
      cases hpending : input.result.1 with
      | false => trivial
      | true =>
          intro wake reports
          exact sound.latest reachable reports
  | delay nextWake =>
      rw [hpc] at knows
      cases nextWake with
      | none =>
          simp only [hpc, Option.some.injEq] at looped
          subst looped
          refine ⟨reachable, knows, ?_⟩
          intro wake impossible
          contradiction
      | some wake =>
          simp only [hpc] at looped
          rcases Option.map_eq_some_iff.mp looped with ⟨now, nowEq, rfl⟩
          refine ⟨reachable, knows, ?_⟩
          intro other same
          cases same
          exact ⟨system.mtime, now, UInt64.le_refl _, nowEq, rfl⟩
  | setTimeCmp nextWake timeOffset =>
      rw [hpc] at knows
      simp only [hpc] at looped
      rcases Option.map_eq_some_iff.mp looped with ⟨cmp, sets, rfl⟩
      refine ⟨reachable, knows.1, ?_⟩
      rintro wake rfl
      simp only [hpc] at sound
      rcases knows.2 wake rfl with ⟨rawTime, now, notBefore, nowEq, rfl⟩
      exact setTimeCmp_lateEnough coarse notBefore nowEq sound sets
  | clearMie nextWake =>
      rw [hpc] at knows
      simp only [hpc, Option.some.injEq] at looped
      subst looped
      exact ⟨reachable, knows⟩
  | setMti nextWake =>
      rw [hpc] at knows
      simp only [hpc, Option.some.injEq] at looped
      subst looped
      exact ⟨reachable, knows⟩
  | wfi nextWake =>
      rw [hpc] at knows
      simp only [hpc, Option.some.injEq] at looped
      subst looped
      exact ⟨reachable, knows⟩
  | setMie nextWake =>
      simp only [hpc, Option.some.injEq] at looped
      subst looped
      exact ⟨reachable, trivial⟩

/-- The time a delay was measured at stays in the past. -/
theorem Valid.tick (valid : system.Valid config) {mtime : UInt64}
    (notBefore : system.mtime ≤ mtime) : { system with mtime := mtime }.Valid config := by
  have knows := valid.knows
  refine ⟨valid.reachable, ?_⟩
  change { system with mtime := mtime }.Knows config system.pc
  cases hpc : system.pc with
  | setTimeCmp nextWake timeOffset =>
      rw [hpc] at knows
      refine ⟨knows.1, ?_⟩
      intro wake reported
      rcases knows.2 wake reported with ⟨rawTime, now, past, nowEq, offsetEq⟩
      exact ⟨rawTime, now, UInt64.le_trans past notBefore, nowEq, offsetEq⟩
  | _ =>
      rw [hpc] at knows
      exact knows

theorem Valid.trap (valid : system.Valid config) (mcause : BitVec width) :
    (system.handler mcause).Valid config := by
  have knows := valid.knows
  unfold handler
  split
  · refine ⟨valid.reachable, ?_⟩
    change { system with mieMti := false }.Knows config system.pc
    cases hpc : system.pc <;> rw [hpc] at knows <;> exact knows
  · exact valid

theorem Valid.step (valid : system.Valid config) (coarse : config.mtimeFreqHz ≤ 10 ^ 9)
    {act : TimerAct H N width} (sound : system.Sound config act)
    (stepped : system.step config xlen act = some next) : next.Valid config := by
  cases act with
  | main input => exact valid.main coarse sound stepped
  | tick mtime =>
      simp only [TimerSystem.step] at stepped
      split at stepped
      · rename_i notBefore
        cases stepped
        exact valid.tick notBefore
      · contradiction
  | trap mcause =>
      simp only [TimerSystem.step] at stepped
      split at stepped
      · cases stepped
        exact valid.trap mcause
      · contradiction

omit [NeZero N] in
/-- A statement of the loop: interrupts are masked before the timer interrupt
is enabled, and enabled again after the wait. -/
theorem Masked.main (masked : system.Masked system.pc) {input : TimerInput H N}
    (looped : system.busyLoop config xlen input = some next) : next.Masked next.pc := by
  unfold busyLoop at looped
  cases hpc : system.pc with
  | readNow | setTimeCmp nextWake timeOffset =>
      simp only [hpc] at looped
      rcases Option.map_eq_some_iff.mp looped with ⟨_, _, rfl⟩
      trivial
  | resume now =>
      simp only [hpc, Option.some.injEq] at looped
      subst looped
      cases hpending : input.result.1 <;> trivial
  | delay nextWake =>
      cases nextWake with
      | none =>
          simp only [hpc, Option.some.injEq] at looped
          subst looped
          trivial
      | some wake =>
          simp only [hpc] at looped
          rcases Option.map_eq_some_iff.mp looped with ⟨_, _, rfl⟩
          trivial
  | clearMie nextWake =>
      simp only [hpc, Option.some.injEq] at looped
      subst looped
      exact rfl
  | setMti nextWake =>
      rw [hpc] at masked
      simp only [hpc, Option.some.injEq] at looped
      subst looped
      exact ⟨masked, rfl⟩
  | wfi nextWake =>
      rw [hpc] at masked
      simp only [hpc, Option.some.injEq] at looped
      subst looped
      exact masked
  | setMie nextWake =>
      simp only [hpc, Option.some.injEq] at looped
      subst looped
      trivial

omit [NeZero N] in
/-- A trap is only taken where nothing is known about the enable bits. -/
theorem Masked.trap (masked : system.Masked system.pc) {mcause : BitVec width}
    (takes : system.Takes mcause) : (system.handler mcause).Masked (system.handler mcause).pc := by
  have enabled := takes.1
  unfold handler
  split
  · change { system with mieMti := false }.Masked system.pc
    cases hpc : system.pc with
    | setMti nextWake =>
        rw [hpc] at masked
        cases masked.symm.trans enabled
    | wfi nextWake | setMie nextWake =>
        rw [hpc] at masked
        cases masked.1.symm.trans enabled
    | _ => trivial
  · exact masked

omit [NeZero N] in
theorem Masked.step (masked : system.Masked system.pc) {act : TimerAct H N width}
    (stepped : system.step config xlen act = some next) : next.Masked next.pc := by
  cases act with
  | main input => exact masked.main stepped
  | tick mtime =>
      simp only [TimerSystem.step] at stepped
      split at stepped
      · cases stepped
        cases hpc : system.pc <;> rw [hpc] at masked <;> exact masked
      · contradiction
  | trap mcause =>
      simp only [TimerSystem.step] at stepped
      split at stepped
      · rename_i takes
        cases stepped
        exact masked.trap takes
      · contradiction

end Steps

/-! ## Every run -/

section Runs

variable {width : Nat} {config : TimerConfig} {xlen : Xlen} {source target : TimerSystem H N}
  {acts : List (TimerAct H N width)}

/-- In every run, whenever the loop waits for an interrupt, interrupts are
disabled and the timer interrupt is enabled, so the hart wakes up once the
counter reaches the compare point, and no handler can run and disable it before.
If `resume` found nothing due in this turn, every co-routine that waits is due
two ticks behind the compare point, provided that the counter is no faster than
the clock and the programmed delays end in the range of the tick count. -/
theorem wfi_armed (atHead : source.pc = .readNow)
    (ran : Transition.run (step config xlen) source acts = some target)
    {nextWake : Option ScheduleByDelay} (sleeps : target.pc = .wfi nextWake) :
    (target.mstatusMie = false ∧ target.mieMti = true) ∧
      (config.mtimeFreqHz ≤ 10 ^ 9 → source.scheduler.Reachable →
        Transition.Along (step config xlen) (Sound config) source acts →
        ∀ wake, nextWake = some wake → ∀ later : UInt64,
          target.mtimecmp.toNat + 2 ≤ later.toNat → later.toNat < 2 ^ 31 →
          ∃ awake, MtimerClock.nowAt config later = some awake ∧
            ∀ entry ∈ target.scheduler.waiting,
              entry.readyToWake (ScheduleByDelay.immediate awake) = true) := by
  constructor
  · have initially : source.Masked source.pc := by
      rw [atHead]
      trivial
    have kept : ∀ ⦃before : TimerSystem H N⦄ ⦃act : TimerAct H N width⦄ ⦃after⦄,
        before.Masked before.pc → step config xlen before act = some after →
        after.Masked after.pc :=
      fun _ _ _ masked stepped => masked.step stepped
    have masked := Transition.run_invariant kept initially ran
    rw [sleeps] at masked
    exact masked
  · intro coarse reachable sound wake reported later past inRange
    have initially : source.Valid config := by
      refine ⟨reachable, ?_⟩
      rw [atHead]
      trivial
    have valid : target.Valid config := by
      apply sound.invariant _ initially ran
      intro before act after valid sound stepped
      exact valid.step coarse sound stepped
    have knows := valid.knows
    rw [sleeps] at knows
    rcases knows.2 wake reported later past inRange with ⟨awake, awakeEq, expired⟩
    refine ⟨awake, awakeEq, ?_⟩
    intro entry member
    apply (ScheduleByDelay.readyToWake_iff _ _).mpr
    exact lt_of_le_of_lt (knows.1 wake reported entry member) expired

/-- One co-routine waits, and nothing is due yet. -/
def idleInput (N : Nat) [NeZero N] : TimerInput Nat N :=
  ⟨System.oneDelay N, (true, some ⟨5⟩), 0⟩

/-- The loop at the given place, with the counter at zero. -/
def atZero (N : Nat) [NeZero N] (mstatusMie mieMti : Bool) (pc : TimerPc) : TimerSystem Nat N :=
  ⟨System.oneDelay N, 0, 0, mstatusMie, mieMti, pc⟩

theorem wfi_armed_oneDelay :
    ∃ target : TimerSystem Nat 2,
      Transition.run (step defaultTimerConfig .rv64) (atZero 2 true false .readNow)
        (List.replicate 6 (.main (idleInput 2) : TimerAct Nat 2 64)) = some target ∧
      target.pc = .wfi (some ⟨5⟩) ∧ target.mstatusMie = false ∧ target.mieMti = true ∧
      ∃ awake, MtimerClock.nowAt defaultTimerConfig 2 = some awake ∧
        ∀ entry ∈ target.scheduler.waiting,
          entry.readyToWake (ScheduleByDelay.immediate awake) = true := by
  have reachable : (System.oneDelay 2).Reachable := System.after_reachable _
  have notReady : ∀ entry ∈ (System.oneDelay 2).waiting,
      entry.readyToWake (ScheduleByDelay.immediate 0) = false := by decide
  have call : (System.oneDelay 2).ResumeCall (ScheduleByDelay.immediate 0) (System.oneDelay 2)
      (true, some ⟨5⟩) :=
    .idle (Holds.resume_idle reachable.valid notReady)
  have nowEq : MtimerClock.nowAt defaultTimerConfig 0 = some 0 := by decide
  have setEq : setTimeCmp defaultTimerConfig Period.nano .rv64 (fun _ => 0) 1 0 0 5 = some 0 := by
    decide
  have reads : step defaultTimerConfig .rv64 (atZero 2 true false .readNow)
      (.main (idleInput 2) : TimerAct Nat 2 64) = some (atZero 2 true false (.resume 0)) := by
    simp only [step, busyLoop, atZero, nowEq, Option.map_some]
  have resumes : step defaultTimerConfig .rv64 (atZero 2 true false (.resume 0))
      (.main (idleInput 2) : TimerAct Nat 2 64) =
      some (atZero 2 true false (.delay (some ⟨5⟩))) := rfl
  have measures : step defaultTimerConfig .rv64 (atZero 2 true false (.delay (some ⟨5⟩)))
      (.main (idleInput 2) : TimerAct Nat 2 64) =
      some (atZero 2 true false (.setTimeCmp (some ⟨5⟩) 5)) := by
    simp only [step, busyLoop, atZero, nowEq, Option.map_some]
    rfl
  have programs : step defaultTimerConfig .rv64 (atZero 2 true false (.setTimeCmp (some ⟨5⟩) 5))
      (.main (idleInput 2) : TimerAct Nat 2 64) =
      some (atZero 2 true false (.clearMie (some ⟨5⟩))) := by
    simp only [step, busyLoop, atZero, setEq, Option.map_some]
  have masks : step defaultTimerConfig .rv64 (atZero 2 true false (.clearMie (some ⟨5⟩)))
      (.main (idleInput 2) : TimerAct Nat 2 64) =
      some (atZero 2 false false (.setMti (some ⟨5⟩))) := rfl
  have arms : step defaultTimerConfig .rv64 (atZero 2 false false (.setMti (some ⟨5⟩)))
      (.main (idleInput 2) : TimerAct Nat 2 64) =
      some (atZero 2 false true (.wfi (some ⟨5⟩))) := rfl
  have ran : Transition.run (step defaultTimerConfig .rv64) (atZero 2 true false .readNow)
      (List.replicate 6 (.main (idleInput 2) : TimerAct Nat 2 64)) =
      some (atZero 2 false true (.wfi (some ⟨5⟩))) :=
    Transition.run_cons_of_step reads <| Transition.run_cons_of_step resumes <|
      Transition.run_cons_of_step measures <| Transition.run_cons_of_step programs <|
      Transition.run_cons_of_step masks <| Transition.run_cons_of_step arms rfl
  have inRange : (0 : UInt64).toNat + offsetTicks defaultTimerConfig (5 : Int).toNat < 2 ^ 31 := by
    decide
  have sound : Transition.Along (step defaultTimerConfig .rv64) (Sound defaultTimerConfig)
      (atZero 2 true false .readNow)
      (List.replicate 6 (.main (idleInput 2) : TimerAct Nat 2 64)) :=
    Transition.along_cons_of_step trivial reads <| Transition.along_cons_of_step call resumes <|
      Transition.along_cons_of_step trivial measures <|
      Transition.along_cons_of_step inRange programs <|
      Transition.along_cons_of_step trivial masks <|
      Transition.along_cons_of_step trivial arms (Transition.along_nil _ _ _)
  rcases wfi_armed rfl ran rfl with ⟨⟨masked, enabled⟩, wakes⟩
  have wakes' := wakes (by decide) reachable sound ⟨5⟩ rfl 2 (by decide) (by decide)
  exact ⟨_, ran, rfl, masked, enabled, wakes'⟩

omit [NeZero N] in
/-- A timer interrupt uses up an enable bit that only the loop sets. -/
theorem step_mieMti {system next : TimerSystem H N} {act : TimerAct H N width}
    (stepped : system.step config xlen act = some next) :
    act.isTimerTrap.toNat + next.mieMti.toNat ≤
      (system.armsTimer act).toNat + system.mieMti.toNat := by
  cases act with
  | main input =>
      have looped : system.busyLoop config xlen input = some next := stepped
      unfold busyLoop at looped
      cases hpc : system.pc with
      | setMti nextWake =>
          simp only [hpc, Option.some.injEq] at looped
          subst looped
          simp [TimerAct.isTimerTrap, armsTimer, hpc]
      | readNow | setTimeCmp nextWake timeOffset =>
          simp only [hpc] at looped
          rcases Option.map_eq_some_iff.mp looped with ⟨_, _, rfl⟩
          simp [TimerAct.isTimerTrap, armsTimer, hpc]
      | delay nextWake =>
          cases nextWake with
          | none =>
              simp only [hpc, Option.some.injEq] at looped
              subst looped
              simp [TimerAct.isTimerTrap, armsTimer, hpc]
          | some wake =>
              simp only [hpc] at looped
              rcases Option.map_eq_some_iff.mp looped with ⟨_, _, rfl⟩
              simp [TimerAct.isTimerTrap, armsTimer, hpc]
      | _ =>
          simp only [hpc, Option.some.injEq] at looped
          subst looped
          simp [TimerAct.isTimerTrap, armsTimer, hpc]
  | tick mtime =>
      simp only [TimerSystem.step] at stepped
      split at stepped
      · cases stepped
        simp [TimerAct.isTimerTrap]
      · contradiction
  | trap mcause =>
      simp only [TimerSystem.step] at stepped
      split at stepped
      · rename_i takes
        cases stepped
        unfold handler
        split
        · rename_i isTimerCause
          simp [TimerAct.isTimerTrap, isTimerCause, (takes.2 isTimerCause).1]
        · rename_i other
          simp [TimerAct.isTimerTrap, other]
      · contradiction

omit [NeZero N] in
/-- The timer interrupt never storms: in every run it is taken at most once for
each time the loop enables it, and once more if it was enabled before. -/
theorem timer_traps_le
    (ran : Transition.run (step config xlen) source acts = some target) :
    acts.countP TimerAct.isTimerTrap + target.mieMti.toNat ≤
      (Transition.labels (step config xlen) armsTimer source acts).count true +
        source.mieMti.toNat := by
  induction acts generalizing source with
  | nil =>
      cases ran
      exact le_rfl
  | cons act rest ih =>
      rcases (Transition.run_cons_eq_some_iff _ _ _ _ _).mp ran with ⟨next, stepped, remaining⟩
      have first := step_mieMti stepped
      have others := ih remaining
      have trapped : (act :: rest).countP TimerAct.isTimerTrap =
          act.isTimerTrap.toNat + rest.countP TimerAct.isTimerTrap := by
        rw [List.countP_cons, Nat.add_comm]
        cases act.isTimerTrap <;> rfl
      have armed :
          (Transition.labels (step config xlen) armsTimer source (act :: rest)).count true =
          (source.armsTimer act).toNat +
            (Transition.labels (step config xlen) armsTimer next rest).count true := by
        rw [Transition.labels, stepped, List.count_cons, Nat.add_comm]
        cases source.armsTimer act <;> rfl
      omega

/-- The loop enables the timer interrupt, waits and goes on, and then the
interrupt is taken. -/
def rearmedActs (N : Nat) [NeZero N] : List (TimerAct Nat N 64) :=
  [.main (idleInput N), .main (idleInput N), .main (idleInput N), .trap 0x8000000000000007]

theorem timer_traps_le_rearmed :
    Transition.run (step defaultTimerConfig .rv64) (atZero 2 false false (.setMti none))
        (rearmedActs 2) = some (atZero 2 true false .readNow) ∧
    (rearmedActs 2).countP TimerAct.isTimerTrap = 1 ∧
    1 + false.toNat ≤ (Transition.labels (step defaultTimerConfig .rv64) armsTimer
      (atZero 2 false false (.setMti none)) (rearmedActs 2)).count true + false.toNat := by
  have takes : (atZero 2 true true .readNow).Takes (0x8000000000000007 : BitVec 64) := by decide
  have handled : (atZero 2 true true .readNow).handler (0x8000000000000007 : BitVec 64) =
      atZero 2 true false .readNow := if_pos (by decide)
  have arms : step defaultTimerConfig .rv64 (atZero 2 false false (.setMti none))
      (.main (idleInput 2) : TimerAct Nat 2 64) = some (atZero 2 false true (.wfi none)) := rfl
  have waits : step defaultTimerConfig .rv64 (atZero 2 false true (.wfi none))
      (.main (idleInput 2) : TimerAct Nat 2 64) = some (atZero 2 false true (.setMie none)) := rfl
  have unmasks : step defaultTimerConfig .rv64 (atZero 2 false true (.setMie none))
      (.main (idleInput 2) : TimerAct Nat 2 64) = some (atZero 2 true true .readNow) := rfl
  have traps : step defaultTimerConfig .rv64 (atZero 2 true true .readNow)
      (.trap 0x8000000000000007 : TimerAct Nat 2 64) = some (atZero 2 true false .readNow) := by
    simp only [step, if_pos takes, handled]
  have ran : Transition.run (step defaultTimerConfig .rv64) (atZero 2 false false (.setMti none))
      (rearmedActs 2) = some (atZero 2 true false .readNow) :=
    Transition.run_cons_of_step arms <| Transition.run_cons_of_step waits <|
      Transition.run_cons_of_step unmasks <| Transition.run_cons_of_step traps rfl
  exact ⟨ran, by decide, timer_traps_le ran⟩

end Runs

end TimerSystem

end BaremetalCoro
