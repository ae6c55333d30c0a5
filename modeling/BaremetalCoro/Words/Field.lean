import Mathlib.Algebra.GroupWithZero.Nat

/-!
# Fields of a word

A field is a run of consecutive bits of a word.  It is read and replaced by
masks and shifts.  Everything about these is decided bit by bit: a bit of the
word belongs to the field or it does not, and replacing the field changes
exactly the bits that belong to it.
-/

namespace BaremetalCoro.Words

variable {w : Nat}

/-- Some consecutive bits of a word. -/
structure Field (w : Nat) where
  offset : Nat
  width : Nat
  fits : offset + width ≤ w

namespace Field

/-- The bit belongs to the field. -/
def Covers (field : Field w) (i : Nat) : Prop :=
  field.offset ≤ i ∧ i < field.offset + field.width

instance (field : Field w) (i : Nat) : Decidable (field.Covers i) :=
  inferInstanceAs (Decidable (_ ∧ _))

/-- The largest value of the field. -/
def ones (field : Field w) : BitVec w :=
  BitVec.ofNat w (2 ^ field.width - 1)

/-- The word whose bits are those of the field. -/
def mask (field : Field w) : BitVec w :=
  BitVec.ofNat w ((2 ^ field.width - 1) <<< field.offset)

/-- The value of the field. -/
def get (field : Field w) (word : BitVec w) : BitVec w :=
  (word &&& field.mask) >>> field.offset

/-- Replace the field. -/
def set (field : Field w) (word value : BitVec w) : BitVec w :=
  (word &&& ~~~field.mask) ||| ((value <<< field.offset) &&& field.mask)

/-- The fields have no bit in common. -/
def Apart (field other : Field w) : Prop :=
  field.offset + field.width ≤ other.offset ∨ other.offset + other.width ≤ field.offset

instance (field other : Field w) : Decidable (field.Apart other) :=
  inferInstanceAs (Decidable (_ ∨ _))

theorem Apart.symm {field other : Field w} (apart : field.Apart other) : other.Apart field :=
  Or.symm apart

theorem Apart.not_covers {field other : Field w} (apart : field.Apart other) {i : Nat}
    (covers : field.Covers i) : ¬ other.Covers i := by
  rintro ⟨first, last⟩
  rcases covers with ⟨first', last'⟩
  rcases apart with before | after
  · omega
  · omega

/-! ## Bits -/

theorem getLsbD_ones (field : Field w) (i : Nat) :
    field.ones.getLsbD i = decide (i < field.width) := by
  have fits := field.fits
  rw [ones, BitVec.getLsbD_ofNat, Nat.testBit_two_pow_sub_one, Bool.and_eq_right_iff_imp,
    decide_eq_true_iff, decide_eq_true_iff]
  intro inside
  omega

theorem getLsbD_mask (field : Field w) (i : Nat) :
    field.mask.getLsbD i = decide (field.Covers i) := by
  have fits := field.fits
  rw [mask, BitVec.getLsbD_ofNat, Nat.testBit_shiftLeft, Nat.testBit_two_pow_sub_one,
    Bool.eq_iff_iff]
  simp only [Bool.and_eq_true, decide_eq_true_iff]
  constructor
  · rintro ⟨_, first, last⟩
    constructor
    · exact first
    · omega
  · rintro ⟨first, last⟩
    constructor
    · omega
    · constructor
      · exact first
      · omega

theorem getLsbD_get (field : Field w) (word : BitVec w) (i : Nat) :
    (field.get word).getLsbD i = (decide (i < field.width) && word.getLsbD (field.offset + i)) := by
  have inside : field.Covers (field.offset + i) ↔ i < field.width := by
    simp only [Covers]
    omega
  rw [get, BitVec.getLsbD_ushiftRight, BitVec.getLsbD_and, getLsbD_mask, Bool.and_comm,
    decide_eq_decide.mpr inside]

theorem getLsbD_set (field : Field w) (word value : BitVec w) (i : Nat) :
    (field.set word value).getLsbD i =
      if field.Covers i then value.getLsbD (i - field.offset) else word.getLsbD i := by
  have fits := field.fits
  rw [set, BitVec.getLsbD_or, BitVec.getLsbD_and, BitVec.getLsbD_and, BitVec.getLsbD_not,
    BitVec.getLsbD_shiftLeft, getLsbD_mask]
  by_cases covers : field.Covers i
  · rcases covers with ⟨first, last⟩
    have bound : i < w := Nat.lt_of_lt_of_le last fits
    simp [Covers, first, last, bound]
  · by_cases bound : i < w
    · simp [covers, bound]
    · simp [covers, BitVec.getLsbD_of_ge word i (Nat.le_of_not_lt bound)]

/-! ## Reading and replacing -/

/-- A field reads what was written, cut to its width. -/
theorem get_set (field : Field w) (word value : BitVec w) :
    field.get (field.set word value) = value &&& field.ones := by
  apply BitVec.eq_of_getLsbD_eq
  intro i _
  rw [getLsbD_get, BitVec.getLsbD_and, getLsbD_ones, getLsbD_set, Bool.and_comm]
  by_cases inside : i < field.width
  · have covers : field.Covers (field.offset + i) := by
      constructor
      · omega
      · omega
    rw [if_pos covers, Nat.add_sub_cancel_left]
  · simp [inside]

/-- A field keeps its value when another one is replaced. -/
theorem get_set_of_apart {field other : Field w} (apart : field.Apart other)
    (word value : BitVec w) : field.get (other.set word value) = field.get word := by
  apply BitVec.eq_of_getLsbD_eq
  intro i _
  rw [getLsbD_get, getLsbD_get, getLsbD_set]
  by_cases inside : i < field.width
  · have covers : field.Covers (field.offset + i) := by
      constructor
      · omega
      · omega
    rw [if_neg (apart.not_covers covers)]
  · simp [inside]

/-! ## Setting and clearing all bits of a field -/

theorem or_mask (field : Field w) (word : BitVec w) :
    word ||| field.mask = field.set word field.ones := by
  apply BitVec.eq_of_getLsbD_eq
  intro i _
  rw [BitVec.getLsbD_or, getLsbD_mask, getLsbD_set, getLsbD_ones]
  split
  · rename_i covers
    rcases covers with ⟨first, last⟩
    have inside : i - field.offset < field.width := by omega
    simp [Covers, first, last, inside]
  · rename_i covers
    simp [covers]

theorem and_not_mask (field : Field w) (word : BitVec w) :
    word &&& ~~~field.mask = field.set word 0 := by
  rw [set]
  simp

end Field

end BaremetalCoro.Words
