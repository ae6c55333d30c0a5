import BaremetalCoro.Scheduler.Condition
import BaremetalCoro.Timer.Mtimer
import Mathlib.Tactic.Linarith

/-!
# The clock of the machine timer

`timer_ticks` counts the clocks of the timer in an `int`, while the registers
have 64 bits and the clock of the scheduler counts nanoseconds in 64 bits.  So
the raw time loses its high bits on the way to `now()`, and an offset in
nanoseconds loses the high bits of its tick count on the way to the compare
point, where its sign is extended.

Conversions between integer types keep the value modulo the width of the
target: `Int32.ofInt` and `UInt64.ofInt`.
-/

namespace BaremetalCoro

open Chrono

/-- The parameters of the timer device.  The frequency is an `unsigned int`,
and a period of `1 / 0` does not compile. -/
structure TimerConfig where
  mtimeFreqHz : Nat
  positive : 0 < mtimeFreqHz
  bounded : mtimeFreqHz < 2 ^ 32

/-- The frequency without `TARGET_MTIME_FREQ_HZ`. -/
def defaultTimerConfig : TimerConfig := ⟨32768, by decide, by decide⟩

namespace Timer

/-- The duration of each timer tick. -/
def tickPeriod (config : TimerConfig) : Period := ⟨1, config.mtimeFreqHz⟩

/-- A count of `timer_ticks` from a raw time. -/
def timerTicks (rawTime : UInt64) : Int32 := Int32.ofInt rawTime.toNat

/-- The current system time as a duration since the counter was initialized. -/
def getTicksTime (xlen : Xlen) (mtime : Nat → UInt64) (fuel time : Nat) : Option Int32 :=
  (getRawTime xlen mtime fuel time).map fun rawTime => timerTicks rawTime.1

/-- The system timer in ticks of `target`. -/
def getTime (config : TimerConfig) (target : Period) (xlen : Xlen) (mtime : Nat → UInt64)
    (fuel time : Nat) : Option Int := do
  let ticks ← getTicksTime xlen mtime fuel time
  durationCast64 (tickPeriod config) target ticks.toInt

/-- Set the time compare point in ticks of the system timer counter. -/
def setTicksTimeCmp (xlen : Xlen) (mtime : Nat → UInt64) (fuel time : Nat) (mtimecmp : UInt64)
    (timeOffset : Int32) : Option UInt64 :=
  setRawTimeCmp xlen mtime fuel time mtimecmp (UInt64.ofInt timeOffset.toInt)

/-- Set the timer compare point by an offset in ticks of `source`. -/
def setTimeCmp (config : TimerConfig) (source : Period) (xlen : Xlen) (mtime : Nat → UInt64)
    (fuel time : Nat) (mtimecmp : UInt64) (timeOffset : Int) : Option UInt64 := do
  let ticks ← durationCast64 source (tickPeriod config) timeOffset
  setTicksTimeCmp xlen mtime fuel time mtimecmp (Int32.ofInt ticks)

end Timer

namespace MtimerClock

open Timer

/-- The time since the epoch, which is zero. -/
def now (config : TimerConfig) (xlen : Xlen) (mtime : Nat → UInt64) (fuel time : Nat) :
    Option Int := do
  let durationSinceEpoch ← getTime config Period.nano xlen mtime fuel time
  return 0 + durationSinceEpoch

/-- What `now()` returns when `get_raw_time` returns `rawTime`. -/
def nowAt (config : TimerConfig) (rawTime : UInt64) : Option Int := do
  let durationSinceEpoch ←
    durationCast64 (tickPeriod config) Period.nano (timerTicks rawTime).toInt
  return 0 + durationSinceEpoch

theorem now_of_getRawTime {config : TimerConfig} {xlen : Xlen} {mtime : Nat → UInt64}
    {fuel time next : Nat} {rawTime : UInt64}
    (read : getRawTime xlen mtime fuel time = some (rawTime, next)) :
    now config xlen mtime fuel time = nowAt config rawTime := by
  simp only [now, getTime, getTicksTime, read, Option.map_some, nowAt]
  rfl

end MtimerClock

namespace Timer

variable {config : TimerConfig}

/-! ## Counts of ticks -/

theorem timerTicks_toInt (rawTime : UInt64) :
    (timerTicks rawTime).toInt = (rawTime.toNat : Int).bmod (2 ^ 32) :=
  Int32.toInt_ofInt

theorem timerTicks_of_lt {rawTime : UInt64} (small : rawTime.toNat < 2 ^ 31) :
    (timerTicks rawTime).toInt = rawTime.toNat := by
  apply Int32.toInt_ofInt_of_le
  · omega
  · omega

/-- From `2 ^ 31` on the count is short of the raw time by the clocks of some
turns of the `int`. -/
theorem timerTicks_of_ge {rawTime : UInt64} (large : 2 ^ 31 ≤ rawTime.toNat) :
    (timerTicks rawTime).toInt + 2 ^ 32 ≤ rawTime.toNat := by
  rw [timerTicks_toInt, Int.bmod_def]
  omega

theorem timerTicks_bounds (rawTime : UInt64) :
    -2 ^ 31 ≤ (timerTicks rawTime).toInt ∧ (timerTicks rawTime).toInt < 2 ^ 31 := by
  rw [timerTicks_toInt, Int.bmod_def]
  omega

/-- The cast from ticks to nanoseconds never overflows. -/
theorem cast_ticks (ticks : Int) (low : -2 ^ 31 ≤ ticks) (high : ticks < 2 ^ 31) :
    durationCast64 (tickPeriod config) Period.nano ticks =
      some (durationCast (tickPeriod config) Period.nano ticks) := by
  apply durationCast64_of_fits
  · exact Nat.mul_pos config.positive Nat.one_pos
  · have factor : (ratioDivide (tickPeriod config) Period.nano).num ≤
        (tickPeriod config).num * Period.nano.den := Nat.div_le_self _ _
    have nonneg : 0 ≤ ((ratioDivide (tickPeriod config) Period.nano).num : Int) :=
      Int.natCast_nonneg _
    have upper : ((ratioDivide (tickPeriod config) Period.nano).num : Int) ≤ 1000000000 := by
      simpa [tickPeriod, Period.nano] using factor
    refine ⟨?_, ?_⟩
    · nlinarith
    · nlinarith

end Timer

namespace MtimerClock

open Timer

variable {config : TimerConfig}

/-- The nanoseconds of a count of ticks. -/
def nanos (config : TimerConfig) (ticks : Int) : Int :=
  durationCast (tickPeriod config) Period.nano ticks

theorem nowAt_eq (config : TimerConfig) (rawTime : UInt64) :
    nowAt config rawTime = some (nanos config (timerTicks rawTime).toInt) := by
  have bounds := timerTicks_bounds rawTime
  rw [nowAt, cast_ticks _ bounds.1 bounds.2]
  exact congrArg some (Int.zero_add _)

theorem nanos_natCast (config : TimerConfig) (ticks : Nat) :
    nanos config ticks = (ticks * 10 ^ 9 / config.mtimeFreqHz : Nat) := by
  rw [nanos, durationCast_natCast]
  simp [tickPeriod, Period.nano]

theorem nanos_mono (config : TimerConfig) {first second : Int} (le : first ≤ second) :
    nanos config first ≤ nanos config second :=
  durationCast_mono (Nat.mul_pos config.positive Nat.one_pos) le

/-- Ticks enough for one turn of the frequency are never lost to rounding. -/
theorem nanos_lt (config : TimerConfig) {ticks : Int} {later : Nat}
    (ahead : ticks + 2 ^ 30 ≤ later) (positive : 2 ^ 30 ≤ later) :
    nanos config ticks < nanos config later := by
  have bounded := config.bounded
  have below : ticks.toNat + 2 ^ 30 ≤ later := by omega
  have scaled : ticks.toNat * 10 ^ 9 + config.mtimeFreqHz ≤ later * 10 ^ 9 := by omega
  calc
    nanos config ticks ≤ nanos config ticks.toNat := nanos_mono config (Int.self_le_toNat ticks)
    _ < nanos config later := by
        rw [nanos_natCast, nanos_natCast, Nat.cast_lt, ← Nat.succ_le_iff, Nat.succ_eq_add_one,
          ← Nat.add_div_right _ config.positive]
        exact Nat.div_le_div_right scaled

/-! ## Steadiness -/

/-- The clock is steady while the counter runs from `low` to `high`: it never
goes back, and it shows the nanoseconds of the counter wherever these fit in
64 bits. -/
structure SteadyOn (config : TimerConfig) (low high : UInt64) : Prop where
  ordered : ∀ first second, low ≤ first → first ≤ second → second ≤ high →
    ∃ earlier later, nowAt config first = some earlier ∧ nowAt config second = some later ∧
      earlier ≤ later
  exact : ∀ rawTime : UInt64, low ≤ rawTime → rawTime ≤ high →
    rawTime.toNat * 10 ^ 9 / config.mtimeFreqHz < 2 ^ 63 →
    nowAt config rawTime = some ((rawTime.toNat * 10 ^ 9 / config.mtimeFreqHz : Nat) : Int)

/-- The clock shows the nanoseconds of the counter exactly below `2 ^ 31`. -/
theorem nowAt_exact_iff (config : TimerConfig) (rawTime : UInt64) :
    nowAt config rawTime = some ((rawTime.toNat * 10 ^ 9 / config.mtimeFreqHz : Nat) : Int) ↔
      rawTime.toNat < 2 ^ 31 := by
  rw [nowAt_eq, ← nanos_natCast]
  constructor
  · intro same
    by_contra large
    have short := timerTicks_of_ge (not_lt.mp large)
    have behind : nanos config (timerTicks rawTime).toInt < nanos config rawTime.toNat := by
      apply nanos_lt
      · omega
      · omega
    exact behind.ne (Option.some.inj same)
  · intro small
    rw [timerTicks_of_lt small]

/-- Between two overflows of the `int` the count of ticks keeps the order. -/
theorem timerTicks_mono {first second : UInt64} (le : first ≤ second)
    (sameTurn : (first.toNat + 2 ^ 31) / 2 ^ 32 = (second.toNat + 2 ^ 31) / 2 ^ 32) :
    (timerTicks first).toInt ≤ (timerTicks second).toInt := by
  have leNat := UInt64.le_iff_toNat_le.mp le
  rw [timerTicks_toInt, timerTicks_toInt, Int.bmod_def, Int.bmod_def]
  omega

/-- Where the `int` overflows, the clock goes back. -/
theorem nowAt_overflow (config : TimerConfig) {low high : UInt64}
    (turn : (low.toNat + 2 ^ 31) / 2 ^ 32 < (high.toNat + 2 ^ 31) / 2 ^ 32) :
    ∃ first second, low ≤ first ∧ first ≤ second ∧ second ≤ high ∧
      nanos config (timerTicks second).toInt < nanos config (timerTicks first).toInt := by
  have bound := high.toNat_lt
  obtain ⟨overflow, overflowEq⟩ : ∃ overflow,
      overflow + 2 ^ 31 = (high.toNat + 2 ^ 31) / 2 ^ 32 * 2 ^ 32 :=
    ⟨(high.toNat + 2 ^ 31) / 2 ^ 32 * 2 ^ 32 - 2 ^ 31, by omega⟩
  have secondEq : (UInt64.ofNat overflow).toNat = overflow := by
    rw [UInt64.toNat_ofNat']
    omega
  have firstEq : (UInt64.ofNat (overflow - 1)).toNat = overflow - 1 := by
    rw [UInt64.toNat_ofNat']
    omega
  refine ⟨UInt64.ofNat (overflow - 1), UInt64.ofNat overflow, ?_, ?_, ?_, ?_⟩
  · rw [UInt64.le_iff_toNat_le, firstEq]
    omega
  · rw [UInt64.le_iff_toNat_le, firstEq, secondEq]
    omega
  · rw [UInt64.le_iff_toNat_le, secondEq]
    omega
  · have last : (timerTicks (UInt64.ofNat (overflow - 1))).toInt = (2 ^ 31 - 1 : Nat) := by
      rw [timerTicks_toInt, firstEq, Int.bmod_def]
      omega
    have wrapped : (timerTicks (UInt64.ofNat overflow)).toInt = -2 ^ 31 := by
      rw [timerTicks_toInt, secondEq, Int.bmod_def]
      omega
    rw [last, wrapped]
    apply nanos_lt
    · decide
    · decide

/-- From one overflow of the `int` to the next the clock keeps the order. -/
theorem nowAt_ordered (config : TimerConfig) {low high : UInt64}
    (turn : (low.toNat + 2 ^ 31) / 2 ^ 32 = (high.toNat + 2 ^ 31) / 2 ^ 32)
    {first second : UInt64} (fromLow : low ≤ first) (between : first ≤ second)
    (toHigh : second ≤ high) :
    ∃ earlier later, nowAt config first = some earlier ∧ nowAt config second = some later ∧
      earlier ≤ later := by
  have fromLowNat := UInt64.le_iff_toNat_le.mp fromLow
  have betweenNat := UInt64.le_iff_toNat_le.mp between
  have toHighNat := UInt64.le_iff_toNat_le.mp toHigh
  have sameTurn : (first.toNat + 2 ^ 31) / 2 ^ 32 = (second.toNat + 2 ^ 31) / 2 ^ 32 := by
    omega
  exact ⟨_, _, nowAt_eq config first, nowAt_eq config second,
    nanos_mono config (timerTicks_mono between sameTurn)⟩

theorem SteadyOn.sameTurn {config : TimerConfig} {low high : UInt64}
    (steady : SteadyOn config low high) (le : low ≤ high) :
    (low.toNat + 2 ^ 31) / 2 ^ 32 = (high.toNat + 2 ^ 31) / 2 ^ 32 := by
  have leNat := UInt64.le_iff_toNat_le.mp le
  by_contra crossed
  have turn : (low.toNat + 2 ^ 31) / 2 ^ 32 < (high.toNat + 2 ^ 31) / 2 ^ 32 := by
    omega
  rcases nowAt_overflow config turn with ⟨first, second, fromLow, between, toHigh, back⟩
  rcases steady.ordered first second fromLow between toHigh with
    ⟨earlier, later, earlierEq, laterEq, forward⟩
  rw [nowAt_eq] at earlierEq laterEq
  cases earlierEq
  cases laterEq
  exact absurd forward (not_le.mpr back)

/-- Beyond `2 ^ 31` a steady clock only shows what does not fit in 64 bits. -/
theorem SteadyOn.large {config : TimerConfig} {low high : UInt64}
    (steady : SteadyOn config low high) (le : low ≤ high) (beyond : ¬ high.toNat < 2 ^ 31) :
    2 ^ 63 ≤ low.toNat * 10 ^ 9 / config.mtimeFreqHz := by
  -- Otherwise the larger of `low` and `2 ^ 31` fits, and its count is wrong.
  by_contra fits
  by_cases lowSmall : low.toNat < 2 ^ 31
  · have startEq : (UInt64.ofNat (2 ^ 31)).toNat = 2 ^ 31 := by decide
    have shown := steady.exact (UInt64.ofNat (2 ^ 31))
      (by rw [UInt64.le_iff_toNat_le, startEq]; omega)
      (by rw [UInt64.le_iff_toNat_le, startEq]; omega)
      (by
        rw [startEq, Nat.div_lt_iff_lt_mul config.positive]
        have positive := config.positive
        omega)
    have below := (nowAt_exact_iff config _).mp shown
    omega
  · have shown := steady.exact low (UInt64.le_refl low) le (not_le.mp fits)
    exact lowSmall ((nowAt_exact_iff config low).mp shown)

/-- The clock is steady as long as the counter stays below `2 ^ 31`, where the
`int` overflows for the first time.  Beyond that it is only where the
nanoseconds do not fit in 64 bits that it can still count as steady, from one
overflow of the `int` to the next. -/
theorem steadyOn_iff (config : TimerConfig) {low high : UInt64} (le : low ≤ high) :
    SteadyOn config low high ↔
      high.toNat < 2 ^ 31 ∨
        (2 ^ 63 ≤ low.toNat * 10 ^ 9 / config.mtimeFreqHz ∧
          (low.toNat + 2 ^ 31) / 2 ^ 32 = (high.toNat + 2 ^ 31) / 2 ^ 32) := by
  have leNat := UInt64.le_iff_toNat_le.mp le
  constructor
  · intro steady
    by_cases small : high.toNat < 2 ^ 31
    · exact Or.inl small
    · exact Or.inr ⟨steady.large le small, steady.sameTurn le⟩
  · rintro (small | ⟨large, turn⟩)
    · constructor
      · intro first second
        apply nowAt_ordered
        omega
      · intro rawTime _ toHigh _
        have toHighNat := UInt64.le_iff_toNat_le.mp toHigh
        exact (nowAt_exact_iff config rawTime).mpr (by omega)
    · constructor
      · intro first second
        exact nowAt_ordered config turn
      · intro rawTime fromLow _ fits
        have fromLowNat := UInt64.le_iff_toNat_le.mp fromLow
        have scaled : low.toNat * 10 ^ 9 / config.mtimeFreqHz ≤
            rawTime.toNat * 10 ^ 9 / config.mtimeFreqHz :=
          Nat.div_le_div_right (Nat.mul_le_mul_right _ fromLowNat)
        omega

theorem steadyOn_firstTurn : SteadyOn defaultTimerConfig 0 0x7FFFFFFF :=
  (steadyOn_iff defaultTimerConfig (by decide)).mpr (Or.inl (by decide))

/-- At 32768 Hz the clock goes back after eighteen hours. -/
theorem nowAt_goes_back :
    nowAt defaultTimerConfig 0x7FFFFFFF = some 65535999969482 ∧
      nowAt defaultTimerConfig 0x80000000 = some (-65536000000000) ∧
      ¬ SteadyOn defaultTimerConfig 0 0x80000000 := by
  have before : nowAt defaultTimerConfig 0x7FFFFFFF = some 65535999969482 := by decide
  have after : nowAt defaultTimerConfig 0x80000000 = some (-65536000000000) := by decide
  refine ⟨before, after, ?_⟩
  intro steady
  rcases steady.ordered 0x7FFFFFFF 0x80000000 (by decide) (by decide) (by decide) with
    ⟨earlier, later, earlierEq, laterEq, forward⟩
  rw [before] at earlierEq
  rw [after] at laterEq
  cases earlierEq
  cases laterEq
  exact absurd forward (by decide)

end MtimerClock

namespace Timer

variable {config : TimerConfig} {xlen : Xlen} {mtime : Nat → UInt64} {fuel time next : Nat}
  {rawTime : UInt64}

/-! ## The compare point -/

/-- The ticks of an offset of nanoseconds, rounded down. -/
def offsetTicks (config : TimerConfig) (offset : Nat) : Nat :=
  offset * config.mtimeFreqHz / 10 ^ 9

theorem durationCast_offset (config : TimerConfig) (offset : Nat) :
    durationCast Period.nano (tickPeriod config) offset = offsetTicks config offset := by
  rw [durationCast_natCast]
  simp [offsetTicks, tickPeriod, Period.nano]

theorem nano_den_pos (config : TimerConfig) : 0 < Period.nano.den * (tickPeriod config).num :=
  Nat.mul_pos (by decide) Nat.one_pos

/-- The compare point that `set_time_cmp` leaves: the ticks of the offset pass
through an `int`, whose sign is extended. -/
theorem setTimeCmp_eq (read : getRawTime xlen mtime fuel time = some (rawTime, next))
    (mtimecmp : UInt64) {offset : Nat}
    (fits : Fits64 (offset * (ratioDivide Period.nano (tickPeriod config)).num)) :
    setTimeCmp config Period.nano xlen mtime fuel time mtimecmp offset =
      some (rawTime + UInt64.ofInt ((offsetTicks config offset : Int).bmod (2 ^ 32))) := by
  have cast := durationCast64_of_fits (nano_den_pos config) fits
  rw [durationCast_offset] at cast
  have narrowed : (Int32.ofInt (offsetTicks config offset)).toInt =
      (offsetTicks config offset : Int).bmod (2 ^ 32) := Int32.toInt_ofInt
  simp only [setTimeCmp, cast, Option.bind_eq_bind, Option.bind_some, setTicksTimeCmp,
    setRawTimeCmp, read, Option.map_some, foldl_cmpWrites, narrowed]

/-- The ticks of an offset whose product fits are fewer than `2 ^ 63`. -/
theorem offsetTicks_lt {offset : Nat}
    (fits : Fits64 (offset * (ratioDivide Period.nano (tickPeriod config)).num)) :
    offsetTicks config offset < 2 ^ 63 := by
  have quotient : (offsetTicks config offset : Int) ≤
      offset * (ratioDivide Period.nano (tickPeriod config)).num := by
    rw [← durationCast_offset, durationCast_eq_tdiv (nano_den_pos config)]
    exact Int.tdiv_le_self _ (by positivity)
  exact_mod_cast quotient.trans_lt fits.2

/-- What `set_time_cmp` is for: the compare point is the ticks of the offset
away from the current time, and a shorter offset is no later. -/
def SetsOffset (config : TimerConfig) (xlen : Xlen) (mtime : Nat → UInt64) (fuel time : Nat)
    (mtimecmp rawTime : UInt64) (offset : Nat) : Prop :=
  ∃ cmp, setTimeCmp config Period.nano xlen mtime fuel time mtimecmp offset = some cmp ∧
    cmp.toNat = (rawTime.toNat + offsetTicks config offset) % 2 ^ 64 ∧
    ∀ shorter ≤ offset, ∃ cmp',
      setTimeCmp config Period.nano xlen mtime fuel time mtimecmp shorter = some cmp' ∧
      cmp' - rawTime ≤ cmp - rawTime

/-- Up to `2 ^ 31` the compare point is the ticks away that it should be. -/
theorem toNat_offset_of_lt {ticks : Nat} (small : ticks < 2 ^ 31) :
    (UInt64.ofInt ((ticks : Int).bmod (2 ^ 32))).toNat = ticks := by
  have kept : (ticks : Int).bmod (2 ^ 32) = ticks := by
    rw [Int.bmod_def]
    omega
  rw [kept, UInt64.ofInt, UInt64.toNat_ofNat']
  omega

/-- From `2 ^ 31` on it is not. -/
theorem toNat_offset_ne {ticks : Nat} (large : 2 ^ 31 ≤ ticks) (bound : ticks < 2 ^ 63) :
    (UInt64.ofInt ((ticks : Int).bmod (2 ^ 32))).toNat ≠ ticks := by
  rw [UInt64.ofInt, UInt64.toNat_ofNat', Int.bmod_def]
  omega

/-- `set_time_cmp` does what it is for exactly when the offset is shorter than
`2 ^ 31` ticks. -/
theorem setsOffset_iff (read : getRawTime xlen mtime fuel time = some (rawTime, next))
    (mtimecmp : UInt64) {offset : Nat}
    (fits : Fits64 (offset * (ratioDivide Period.nano (tickPeriod config)).num)) :
    SetsOffset config xlen mtime fuel time mtimecmp rawTime offset ↔
      offset * config.mtimeFreqHz < 2 ^ 31 * 10 ^ 9 := by
  have ticksIff : offsetTicks config offset < 2 ^ 31 ↔
      offset * config.mtimeFreqHz < 2 ^ 31 * 10 ^ 9 := Nat.div_lt_iff_lt_mul (by decide)
  rw [← ticksIff]
  constructor
  · rintro ⟨cmp, setEq, cmpEq, _⟩
    rw [setTimeCmp_eq read mtimecmp fits] at setEq
    rw [← Option.some.inj setEq, UInt64.toNat_add] at cmpEq
    by_contra large
    have bound := offsetTicks_lt fits
    have wrong := toNat_offset_ne (not_lt.mp large) bound
    have offsetBound := (UInt64.ofInt ((offsetTicks config offset : Int).bmod (2 ^ 32))).toNat_lt
    omega
  · intro small
    refine ⟨_, setTimeCmp_eq read mtimecmp fits, ?_, ?_⟩
    · rw [UInt64.toNat_add, toNat_offset_of_lt small]
    · intro shorter le
      have fitsShorter :
          Fits64 (shorter * (ratioDivide Period.nano (tickPeriod config)).num) := by
        have product : (shorter * (ratioDivide Period.nano (tickPeriod config)).num : Int) ≤
            offset * (ratioDivide Period.nano (tickPeriod config)).num :=
          mul_le_mul_of_nonneg_right (by exact_mod_cast le) (by positivity)
        have nonneg :
            0 ≤ (shorter * (ratioDivide Period.nano (tickPeriod config)).num : Int) := by
          positivity
        exact ⟨le_trans (by decide) nonneg, product.trans_lt fits.2⟩
      have ticksLe : offsetTicks config shorter ≤ offsetTicks config offset :=
        Nat.div_le_div_right (Nat.mul_le_mul_right _ le)
      refine ⟨_, setTimeCmp_eq read mtimecmp fitsShorter, ?_⟩
      rw [UInt64.add_comm, UInt64.add_sub_cancel, UInt64.add_comm, UInt64.add_sub_cancel,
        UInt64.le_iff_toNat_le, toNat_offset_of_lt small,
        toNat_offset_of_lt (ticksLe.trans_lt small)]
      exact ticksLe

/-- On a hart of 32 bits at 32768 Hz, an offset of one second read at a raw
time of seven is programmed 32768 ticks later. -/
theorem setsOffset_oneSecond :
    SetsOffset defaultTimerConfig .rv32 (fun _ => 7) 1 0 0 7 1000000000 := by
  have read : getRawTime .rv32 (fun _ => 7) 1 0 = some (7, 3) := by decide
  exact (setsOffset_iff read 0 (by decide)).mpr (by decide)

/-- An offset of twenty hours programs a compare point in the past. -/
theorem not_setsOffset_twentyHours :
    setTimeCmp defaultTimerConfig Period.nano .rv64 (fun _ => 0x100000000) 0 0 0 72000000000000 =
        some 0x8CA00000 ∧
      ¬ SetsOffset defaultTimerConfig .rv64 (fun _ => 0x100000000) 0 0 0 0x100000000
        72000000000000 := by
  have setEq : setTimeCmp defaultTimerConfig Period.nano .rv64 (fun _ => 0x100000000) 0 0 0
      72000000000000 = some 0x8CA00000 := by decide
  refine ⟨setEq, ?_⟩
  rintro ⟨cmp, sets, cmpEq, _⟩
  have same := Option.some.inj (setEq.symm.trans sets)
  rw [← same] at cmpEq
  exact absurd cmpEq (by decide)

/-! ## Sleeping until an entry is due -/

/-- A raw time below `2 ^ 31` is shown as its nanoseconds. -/
theorem nowAt_of_lt {rawTime : UInt64} (small : rawTime.toNat < 2 ^ 31) :
    MtimerClock.nowAt config rawTime =
      some (durationCast (tickPeriod config) Period.nano rawTime.toNat) := by
  rw [MtimerClock.nowAt_eq, timerTicks_of_lt small]
  rfl

/-- The product of an offset of fewer than `2 ^ 31` ticks fits. -/
theorem fits_of_offsetTicks_lt {offset : Nat} (small : offsetTicks config offset < 2 ^ 31) :
    Fits64 (offset * (ratioDivide Period.nano (tickPeriod config)).num) := by
  have product : offset * config.mtimeFreqHz < 2 ^ 31 * 10 ^ 9 :=
    (Nat.div_lt_iff_lt_mul (by decide)).mp small
  have reduced : (ratioDivide Period.nano (tickPeriod config)).num ≤
      Period.nano.num * (tickPeriod config).den := Nat.div_le_self _ _
  have factor : (ratioDivide Period.nano (tickPeriod config)).num ≤ config.mtimeFreqHz := by
    simpa [tickPeriod, Period.nano] using reduced
  have bound : offset * (ratioDivide Period.nano (tickPeriod config)).num < 2 ^ 31 * 10 ^ 9 :=
    (Nat.mul_le_mul_left offset factor).trans_lt product
  have nonneg : 0 ≤ (offset * (ratioDivide Period.nano (tickPeriod config)).num : Int) := by
    positivity
  refine ⟨le_trans (by decide) nonneg, ?_⟩
  exact_mod_cast bound.trans (by decide)

/-- In the range of the `int` the compare point is the raw time and the ticks of
the offset. -/
theorem setTimeCmp_inRange (read : getRawTime xlen mtime fuel time = some (rawTime, next))
    (mtimecmp : UInt64) {offset : Nat}
    (inRange : rawTime.toNat + offsetTicks config offset < 2 ^ 31) :
    ∃ cmp, setTimeCmp config Period.nano xlen mtime fuel time mtimecmp offset = some cmp ∧
      cmp.toNat = rawTime.toNat + offsetTicks config offset := by
  have small : offsetTicks config offset < 2 ^ 31 := by omega
  refine ⟨_, setTimeCmp_eq read mtimecmp (fits_of_offsetTicks_lt small), ?_⟩
  rw [UInt64.toNat_add, toNat_offset_of_lt small]
  omega

/-- With a tick no shorter than a nanosecond, sleeping for the delay of an
entry never oversleeps and never stalls: the compare point is not after the
expiry, and two ticks later the entry is ready. -/
theorem setTimeCmp_delay (coarse : config.mtimeFreqHz ≤ 10 ^ 9) {entry : ScheduleByDelay}
    {current : Int} {time' next' : Nat}
    (nowRead : getRawTime xlen mtime fuel time = some (rawTime, next))
    (nowEq : MtimerClock.now config xlen mtime fuel time = some current)
    (cmpRead : getRawTime xlen mtime fuel time' = some (rawTime, next'))
    (waits : current < entry.expires_)
    (inRange : rawTime.toNat + offsetTicks config (entry.delay current).toNat < 2 ^ 31)
    (mtimecmp : UInt64) :
    ∃ cmp, setTimeCmp config Period.nano xlen mtime fuel time' mtimecmp (entry.delay current) =
        some cmp ∧
      (∃ wake, MtimerClock.nowAt config cmp = some wake ∧ wake ≤ entry.expires_) ∧
      ∀ later : UInt64, cmp.toNat + 2 ≤ later.toNat → later.toNat < 2 ^ 31 →
        ∃ awake, MtimerClock.nowAt config later = some awake ∧
          readyToWake entry (ScheduleByDelay.immediate awake) = true := by
  have delayEq : entry.delay current = entry.expires_ - current := if_pos waits
  obtain ⟨span, spanEq⟩ := Int.eq_ofNat_of_zero_le (sub_nonneg.mpr waits.le)
  rw [← delayEq] at spanEq
  rw [spanEq, Int.toNat_natCast] at inRange
  have currentEq : current = durationCast (tickPeriod config) Period.nano rawTime.toNat := by
    rw [MtimerClock.now_of_getRawTime nowRead, nowAt_of_lt (by omega)] at nowEq
    exact (Option.some.inj nowEq).symm
  have expiresEq : entry.expires_ =
      durationCast (tickPeriod config) Period.nano rawTime.toNat + span := by
    omega
  have fine : 0 < (tickPeriod config).den * Period.nano.num :=
    Nat.mul_pos config.positive Nat.one_pos
  rcases setTimeCmp_inRange cmpRead mtimecmp inRange with ⟨cmp, setEq, cmpEq⟩
  rw [spanEq]
  refine ⟨cmp, setEq, ?_, ?_⟩
  · refine ⟨_, nowAt_of_lt (cmpEq ▸ inRange), ?_⟩
    rw [cmpEq, Nat.cast_add, ← durationCast_offset, expiresEq]
    exact durationCast_add_le fine rawTime.toNat span
  · intro later past laterInRange
    refine ⟨_, nowAt_of_lt laterInRange, ?_⟩
    rw [ScheduleByDelay.readyToWake_iff, expiresEq]
    apply lt_durationCast_add fine
    · simpa [tickPeriod, Period.nano] using coarse
    · rw [durationCast_offset]
      exact_mod_cast cmpEq ▸ past

/-- One millisecond from raw time 100 at 32768 Hz, on a hart of 32 bits. -/
theorem setTimeCmp_delay_oneMilli :
    ∃ cmp, setTimeCmp defaultTimerConfig Period.nano .rv32 (fun _ => 100) 1 0 0 1000000 =
        some cmp ∧
      (∃ wake, MtimerClock.nowAt defaultTimerConfig cmp = some wake ∧ wake ≤ 4051757) ∧
      ∀ later : UInt64, cmp.toNat + 2 ≤ later.toNat → later.toNat < 2 ^ 31 →
        ∃ awake, MtimerClock.nowAt defaultTimerConfig later = some awake ∧
          readyToWake (⟨4051757⟩ : ScheduleByDelay) (ScheduleByDelay.immediate awake) = true := by
  have read : getRawTime .rv32 (fun _ => 100) 1 0 = some (100, 3) := by decide
  have nowEq : MtimerClock.now defaultTimerConfig .rv32 (fun _ => 100) 1 0 = some 3051757 := by
    decide
  have waits : 3051757 < (⟨4051757⟩ : ScheduleByDelay).expires_ := by decide
  exact setTimeCmp_delay (by decide) read nowEq read waits (by decide) 0

end Timer

end BaremetalCoro
