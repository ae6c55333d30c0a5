import BaremetalCoro.Chrono.Duration
import Mathlib.Order.Lattice
import Mathlib.Order.OrderDual

/-!
# Wake conditions

A scheduler is generic in the condition its entries wait for.  The one test it
may use is `ready_to_wake`, which compares a stored condition with a current
one; the same test also decides where a new entry is inserted.

Both conditions of the library are linearly ordered by how soon they are due,
and in both the test lies between the strict and the reflexive order: it is
strict for delays and reflexive for priorities.  `SoonestFirst` states only
that common part, so what is proved from it holds of both schedulers and says
nothing about ties.
-/

namespace BaremetalCoro

open Chrono

/-- A condition that can be compared with the current one. -/
class HasWakeUpTest (C : Type) where
  /-- Is a co-routine waiting for the first condition ready under the second? -/
  readyToWake : C → C → Bool

export HasWakeUpTest (readyToWake)

/-- The order of a condition is how soon it is due, and its test decides that
order up to ties. -/
class SoonestFirst (C : Type) [LinearOrder C] [HasWakeUpTest C] : Prop where
  ready_of_lt : ∀ {first second : C}, first < second → readyToWake first second = true
  le_of_ready : ∀ {first second : C}, readyToWake first second = true → first ≤ second

namespace SoonestFirst

variable {C : Type} [LinearOrder C] [HasWakeUpTest C] [SoonestFirst C]

theorem le_of_not_ready {first second : C} (notReady : readyToWake first second = false) :
    second ≤ first := by
  by_contra before
  rw [ready_of_lt (not_le.mp before)] at notReady
  contradiction

/-- What is due no later than a ready condition is ready. -/
theorem ready_of_le {first second current : C} (le : first ≤ second)
    (ready : readyToWake second current = true) : readyToWake first current = true := by
  rcases lt_or_eq_of_le le with before | rfl
  · exact ready_of_lt (lt_of_lt_of_le before (le_of_ready ready))
  · exact ready

end SoonestFirst

/-! ## Delays -/

/-- A clock, given by the period of its ticks; its time points are tick counts
since its epoch. -/
structure Clock where
  period : Period
  deriving DecidableEq

/-- The clocks of the repository tick in nanoseconds: `steady_clock` on the
host, and `mtimer_clock`, which takes its duration from it. -/
def steadyClock : Clock := ⟨Period.nano⟩

/-- Wake up once a time point has passed. -/
structure ScheduleByDelay where
  expires_ : Int
  deriving DecidableEq

namespace ScheduleByDelay

/-- Schedule a co-routine to wake up after `delay` microseconds, when the
clock reads `now`, with exact counts. -/
def afterDelay (clock : Clock) (now delay : Int) : ScheduleByDelay :=
  ⟨now + durationCast Period.micro clock.period delay⟩

/-- The same with counts of 64 bits, as a machine computes it. -/
def afterDelay64 (clock : Clock) (now delay : Int) : ScheduleByDelay :=
  ⟨wrap64 (now + durationCastWrapped Period.micro clock.period delay)⟩

/-- Neither the cast of the delay nor the sum overflows, so the expiry is
defined. -/
def DelayFits (clock : Clock) (now delay : Int) : Prop :=
  let factor := ratioDivide Period.micro clock.period
  Fits64 (delay * factor.num) ∧ Fits64 (now + (delay * factor.num).tdiv factor.den)

instance (clock : Clock) (now delay : Int) : Decidable (DelayFits clock now delay) :=
  inferInstanceAs (Decidable (_ ∧ _))

/-- Schedule a co-routine to wake up immediately, when the clock reads `now`. -/
def immediate (now : Int) : ScheduleByDelay := ⟨now⟩

instance : HasWakeUpTest ScheduleByDelay where
  readyToWake this currentState := decide (currentState.expires_ > this.expires_)

/-- The time to wait until this is ready, when the clock reads `now`. -/
def delay (this : ScheduleByDelay) (now : Int) : Int :=
  if this.expires_ > now then this.expires_ - now else 0

/-- An expiry that fits into 64 bits is exact. -/
theorem afterDelay64_of_fits {clock : Clock} (positive : 0 < clock.period.num) {now delay : Int}
    (fits : DelayFits clock now delay) :
    afterDelay64 clock now delay = afterDelay clock now delay := by
  have scale : 0 < Period.micro.den * clock.period.num := Nat.mul_pos (by decide) positive
  rw [afterDelay64, durationCastWrapped, wrap64_of_fits fits.1, wrap64_of_fits fits.2, afterDelay,
    durationCast_eq_tdiv scale]

/-- A delay that is not negative does not expire before the time it is counted
from. -/
theorem le_afterDelay64 {clock : Clock} {now delay : Int} (fits : DelayFits clock now delay)
    (nonneg : 0 ≤ delay) : now ≤ (afterDelay64 clock now delay).expires_ := by
  rw [afterDelay64, durationCastWrapped, wrap64_of_fits fits.1, wrap64_of_fits fits.2]
  apply le_add_of_nonneg_right
  apply Int.tdiv_nonneg
  · exact mul_nonneg nonneg (Int.natCast_nonneg _)
  · exact Int.natCast_nonneg _

/-- On the clocks of the repository the range ends with the last nanosecond. -/
theorem delayFits_steadyClock_iff {now delay : Int} (past : 0 ≤ now) (nonneg : 0 ≤ delay) :
    DelayFits steadyClock now delay ↔ now + 1000 * delay < 2 ^ 63 := by
  have factor : ratioDivide Period.micro steadyClock.period = ⟨1000, 1⟩ := by decide
  rw [DelayFits, factor]
  simp only [Fits64, Nat.cast_ofNat, Nat.cast_one, Int.tdiv_one]
  omega

@[simp]
theorem readyToWake_iff (this currentState : ScheduleByDelay) :
    readyToWake this currentState = true ↔ this.expires_ < currentState.expires_ := by
  simp [readyToWake]

theorem expires_injective : Function.Injective expires_ := by
  rintro ⟨_⟩ ⟨_⟩ equal
  exact congrArg mk equal

/-- A delay is due sooner when it expires earlier. -/
instance : LinearOrder ScheduleByDelay := LinearOrder.lift' expires_ expires_injective

theorem le_iff (first second : ScheduleByDelay) :
    first ≤ second ↔ first.expires_ ≤ second.expires_ :=
  Iff.rfl

theorem lt_iff (first second : ScheduleByDelay) :
    first < second ↔ first.expires_ < second.expires_ :=
  Iff.rfl

instance : SoonestFirst ScheduleByDelay where
  ready_of_lt before := (readyToWake_iff _ _).mpr ((lt_iff _ _).mp before)
  le_of_ready ready := (le_iff _ _).mpr (le_of_lt ((readyToWake_iff _ _).mp ready))

end ScheduleByDelay

/-! ## Priorities -/

/-- Objects with the highest priority are scheduled to run first. -/
structure ScheduleByPriority where
  priority_ : Int
  deriving DecidableEq

namespace ScheduleByPriority

instance : HasWakeUpTest ScheduleByPriority where
  readyToWake this currentState := decide (this.priority_ ≥ currentState.priority_)

@[simp]
theorem readyToWake_iff (this currentState : ScheduleByPriority) :
    readyToWake this currentState = true ↔ currentState.priority_ ≤ this.priority_ := by
  simp [readyToWake]

theorem priority_injective : Function.Injective priority_ := by
  rintro ⟨_⟩ ⟨_⟩ equal
  exact congrArg mk equal

/-- A priority is due sooner when it is higher. -/
instance : LinearOrder ScheduleByPriority :=
  LinearOrder.lift' (fun this => OrderDual.toDual this.priority_)
    (OrderDual.toDual.injective.comp priority_injective)

theorem le_iff (first second : ScheduleByPriority) :
    first ≤ second ↔ second.priority_ ≤ first.priority_ :=
  Iff.rfl

theorem lt_iff (first second : ScheduleByPriority) :
    first < second ↔ second.priority_ < first.priority_ :=
  Iff.rfl

instance : SoonestFirst ScheduleByPriority where
  ready_of_lt before := (readyToWake_iff _ _).mpr (le_of_lt ((lt_iff _ _).mp before))
  le_of_ready ready := (le_iff _ _).mpr ((readyToWake_iff _ _).mp ready)

end ScheduleByPriority

end BaremetalCoro
