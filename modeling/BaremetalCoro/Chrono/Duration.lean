import Mathlib.Tactic.Positivity
import Mathlib.Tactic.Ring

/-!
# Durations

A duration counts ticks of a rational number of seconds, as in `std::chrono`.
Counts are unbounded integers here; a cast multiplies by the quotient of the
two periods and truncates towards zero.

Where the width of the counts matters, the cast is the one the standard
prescribes: the quotient of the periods is in lowest terms, and the product is
formed in the common representation of 64 bits, where it may overflow.  While
it does not, the two casts agree.  The standard leaves an overflow undefined; a
machine keeps the low 64 bits.
-/

namespace BaremetalCoro.Chrono

/-- A tick period of `num / den` seconds. -/
structure Period where
  num : Nat
  den : Nat
  deriving DecidableEq

namespace Period

/-- The period of `std::chrono::microseconds`. -/
def micro : Period := ⟨1, 1000000⟩

/-- The period of `std::chrono::nanoseconds`. -/
def nano : Period := ⟨1, 1000000000⟩

end Period

/-- `std::chrono::duration_cast` on tick counts. -/
def durationCast (source target : Period) (count : Int) : Int :=
  (count * (source.num * target.den)).tdiv (source.den * target.num)

/-- On counts from zero on a cast rounds down. -/
theorem durationCast_natCast (source target : Period) (count : Nat) :
    durationCast source target count =
      (count * (source.num * target.den) / (source.den * target.num) : Nat) := by
  rw [Int.natCast_ediv, durationCast, Int.tdiv_eq_ediv_of_nonneg (by positivity)]
  push_cast
  rfl

theorem durationCast_mono {source target : Period} (positive : 0 < source.den * target.num)
    {first second : Int} (le : first ≤ second) :
    durationCast source target first ≤ durationCast source target second := by
  apply Int.tdiv_le_tdiv
  · exact_mod_cast positive
  · exact mul_le_mul_of_nonneg_right le (by positivity)

/-! ## There and back again

A count on one grid of ticks, moved on by a span that was itself measured on
another grid: the span is rounded down on the way there and the sum on the way
back.
-/

/-- Rounding the span down never overshoots. -/
theorem durationCast_add_le {source target : Period} (fine : 0 < source.den * target.num)
    (count span : Nat) :
    durationCast source target (count + durationCast target source span) ≤
      durationCast source target count + span := by
  have spanLe := Nat.div_mul_le_self (span * (target.num * source.den))
    (target.den * source.num)
  rw [durationCast_natCast target source, ← Nat.cast_add, durationCast_natCast,
    durationCast_natCast, ← Nat.cast_add, Nat.cast_le, ← Nat.add_mul_div_right _ _ fine]
  apply Nat.div_le_div_right
  calc
    (count + span * (target.num * source.den) / (target.den * source.num)) *
          (source.num * target.den)
      = count * (source.num * target.den) +
          span * (target.num * source.den) / (target.den * source.num) *
            (target.den * source.num) := by ring
    _ ≤ count * (source.num * target.den) + span * (target.num * source.den) :=
        Nat.add_le_add_left spanLe _
    _ = count * (source.num * target.den) + span * (source.den * target.num) := by ring

/-- Two ticks more than the rounded span are past the span, when a tick is no
shorter than a tick of the grid the span was measured on. -/
theorem lt_durationCast_add {source target : Period} (fine : 0 < source.den * target.num)
    (coarse : source.den * target.num ≤ source.num * target.den) {count span later : Nat}
    (past : (count : Int) + durationCast target source span + 2 ≤ later) :
    durationCast source target count + span < durationCast source target later := by
  have scale : 0 < target.den * source.num := by
    rw [Nat.mul_comm]
    exact fine.trans_le coarse
  have spanLt := Nat.lt_div_mul_add (a := span * (target.num * source.den)) scale
  rw [durationCast_natCast target source, ← Nat.cast_add] at past
  have past' :
      count + span * (target.num * source.den) / (target.den * source.num) + 2 ≤ later := by
    exact_mod_cast past
  rw [durationCast_natCast, durationCast_natCast, ← Nat.cast_add, Nat.cast_lt,
    ← Nat.add_mul_div_right _ _ fine, ← Nat.succ_le_iff, Nat.succ_eq_add_one,
    ← Nat.add_div_right _ fine]
  apply Nat.div_le_div_right
  calc
    count * (source.num * target.den) + span * (source.den * target.num) +
          source.den * target.num
      = count * (source.num * target.den) + span * (target.num * source.den) +
          source.den * target.num := by ring
    _ ≤ count * (source.num * target.den) +
          (span * (target.num * source.den) / (target.den * source.num) *
            (target.den * source.num) + target.den * source.num) +
          source.num * target.den :=
        Nat.add_le_add (Nat.add_le_add_left spanLt.le _) coarse
    _ = (count + span * (target.num * source.den) / (target.den * source.num) + 2) *
          (source.num * target.den) := by ring
    _ ≤ later * (source.num * target.den) := Nat.mul_le_mul_right _ past'

/-! ## Casts in 64 bits -/

/-- A count that a signed integer of 64 bits can hold. -/
def Fits64 (count : Int) : Prop :=
  -2 ^ 63 ≤ count ∧ count < 2 ^ 63

instance (count : Int) : Decidable (Fits64 count) :=
  inferInstanceAs (Decidable (_ ∧ _))

/-- `std::ratio_divide`: the quotient of two periods in lowest terms. -/
def ratioDivide (source target : Period) : Period :=
  let num := source.num * target.den
  let den := source.den * target.num
  ⟨num / num.gcd den, den / num.gcd den⟩

/-- `std::chrono::duration_cast` with counts of 64 bits.  Overflow of the
product is undefined. -/
def durationCast64 (source target : Period) (count : Int) : Option Int :=
  let factor := ratioDivide source target
  let product := count * factor.num
  if Fits64 product then some (product.tdiv factor.den) else none

/-- Dividing the two periods by their common divisor does not change the
cast. -/
theorem durationCast_eq_tdiv {source target : Period} (positive : 0 < source.den * target.num)
    (count : Int) :
    durationCast source target count =
      (count * (ratioDivide source target).num).tdiv (ratioDivide source target).den := by
  have positiveGcd := Nat.gcd_pos_of_pos_right (source.num * target.den) positive
  have numEq := Nat.div_mul_cancel (Nat.gcd_dvd_left (source.num * target.den)
    (source.den * target.num))
  have denEq := Nat.div_mul_cancel (Nat.gcd_dvd_right (source.num * target.den)
    (source.den * target.num))
  simp only [durationCast, ratioDivide]
  generalize (source.num * target.den).gcd (source.den * target.num) = common at *
  generalize source.num * target.den / common = num at *
  generalize source.den * target.num / common = den at *
  have numCast : (source.num * target.den : Int) = num * common := by exact_mod_cast numEq.symm
  have denCast : (source.den * target.num : Int) = den * common := by exact_mod_cast denEq.symm
  rw [numCast, denCast, ← mul_assoc]
  exact Int.mul_tdiv_mul_of_pos_left _ _ (Int.natCast_pos.mpr positiveGcd)

/-- The count that is left of one when arithmetic wraps around at 64 bits. -/
def wrap64 (count : Int) : Int :=
  count.bmod (2 ^ 64)

theorem wrap64_of_fits {count : Int} (fits : Fits64 count) : wrap64 count = count := by
  rcases fits with ⟨low, high⟩
  apply Int.bmod_eq_of_le_mul_two
  · push_cast
    omega
  · push_cast
    omega

/-- The cast as a machine computes it. -/
def durationCastWrapped (source target : Period) (count : Int) : Int :=
  let factor := ratioDivide source target
  (wrap64 (count * factor.num)).tdiv factor.den

/-- While the product fits, the cast is the one on unbounded counts. -/
theorem durationCast64_of_fits {source target : Period} (positive : 0 < source.den * target.num)
    {count : Int} (fits : Fits64 (count * (ratioDivide source target).num)) :
    durationCast64 source target count = some (durationCast source target count) := by
  rw [durationCast64, if_pos fits, durationCast_eq_tdiv positive]

end BaremetalCoro.Chrono
