import Mathlib.Algebra.GroupWithZero.Nat

/-!
# Double words

A 64 bit register on a 32 bit bus is accessed in two halves.  The halves are
taken and joined by shifts and masks, and everything is then reasoned about in
the numbers they stand for: the high word is the quotient by `2 ^ 32` and the
low word the remainder.
-/

namespace BaremetalCoro.Words

/-- The low half of a double word. -/
def lowWord (value : UInt64) : UInt32 :=
  (value &&& 0xFFFFFFFF).toUInt32

/-- The high half of a double word. -/
def highWord (value : UInt64) : UInt32 :=
  (value >>> 32).toUInt32

/-- The double word with the given halves. -/
def joinWords (high low : UInt32) : UInt64 :=
  (high.toUInt64 <<< 32) ||| low.toUInt64

theorem toNat_lowWord (value : UInt64) : (lowWord value).toNat = value.toNat % 2 ^ 32 := by
  have masked : value.toNat &&& 2 ^ 32 - 1 = value.toNat % 2 ^ 32 :=
    Nat.and_two_pow_sub_one_eq_mod value.toNat 32
  rw [lowWord, UInt64.toNat_toUInt32, UInt64.toNat_and]
  change (value.toNat &&& 2 ^ 32 - 1) % 2 ^ 32 = value.toNat % 2 ^ 32
  rw [masked, Nat.mod_mod]

theorem toNat_highWord (value : UInt64) : (highWord value).toNat = value.toNat / 2 ^ 32 := by
  have bound := value.toNat_lt
  have shifted : (value >>> 32).toNat = value.toNat / 2 ^ 32 := by
    rw [UInt64.toNat_shiftRight]
    exact Nat.shiftRight_eq_div_pow value.toNat 32
  rw [highWord, UInt64.toNat_toUInt32, shifted]
  apply Nat.mod_eq_of_lt
  omega

theorem toNat_joinWords (high low : UInt32) :
    (joinWords high low).toNat = high.toNat * 2 ^ 32 + low.toNat := by
  have highBound := high.toNat_lt
  have lowBound := low.toNat_lt
  have shifted : (high.toUInt64 <<< 32).toNat = high.toNat <<< 32 := by
    rw [UInt64.toNat_shiftLeft, UInt32.toNat_toUInt64]
    change high.toNat <<< 32 % 2 ^ 64 = high.toNat <<< 32
    apply Nat.mod_eq_of_lt
    rw [Nat.shiftLeft_eq]
    omega
  rw [joinWords, UInt64.toNat_or, shifted, UInt32.toNat_toUInt64,
    ← Nat.shiftLeft_add_eq_or_of_lt lowBound, Nat.shiftLeft_eq]

/-- A double word is the join of its halves. -/
theorem joinWords_halves (value : UInt64) : joinWords (highWord value) (lowWord value) = value := by
  apply UInt64.toNat_inj.mp
  rw [toNat_joinWords, toNat_highWord, toNat_lowWord, Nat.mul_comm]
  exact Nat.div_add_mod value.toNat (2 ^ 32)

@[simp]
theorem highWord_joinWords (high low : UInt32) : highWord (joinWords high low) = high := by
  have lowBound := low.toNat_lt
  apply UInt32.toNat_inj.mp
  rw [toNat_highWord, toNat_joinWords]
  omega

@[simp]
theorem lowWord_joinWords (high low : UInt32) : lowWord (joinWords high low) = low := by
  have lowBound := low.toNat_lt
  apply UInt32.toNat_inj.mp
  rw [toNat_lowWord, toNat_joinWords]
  omega

/-- Later values have no smaller high word. -/
theorem highWord_mono {first second : UInt64} (le : first ≤ second) :
    highWord first ≤ highWord second := by
  rw [UInt32.le_iff_toNat_le, toNat_highWord, toNat_highWord]
  exact Nat.div_le_div_right (UInt64.le_iff_toNat_le.mp le)

/-- With the largest high word no value of the same low word is exceeded. -/
theorem le_joinWords_max (value : UInt64) : value ≤ joinWords 0xFFFFFFFF (lowWord value) := by
  have bound := value.toNat_lt
  rw [UInt64.le_iff_toNat_le, toNat_joinWords, toNat_lowWord]
  change value.toNat ≤ 4294967295 * 2 ^ 32 + value.toNat % 2 ^ 32
  omega

end BaremetalCoro.Words
