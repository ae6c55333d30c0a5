import BaremetalCoro.Csr.Fields

/-!
# Fields whose width depends on XLEN

Most fields have a constant mask.  Where a field ends at a bit that depends on
XLEN, the header computes the mask from the first and the last bit, as
`(1 << (width - 1)) << offset`.  That is the last bit of the field alone, and
no bit at all for `platform_defined`, which is declared to end at bit XLEN.

The accesses are the same for all fields, as they only take the parameter data
of a field.
-/

namespace BaremetalCoro

open Words

variable {xlen : Nat} {ι : Type}

namespace FieldParams

/-- A field from bit `lsb` to bit `msb`, where these depend on XLEN. -/
def computed (msb lsb : Nat) : FieldParams xlen where
  bitOffset := lsb
  bitWidth := msb - lsb + 1
  bitMask := ((1 : BitVec xlen) <<< (msb - lsb + 1 - 1)) <<< lsb
  allSetMask := ((1 : BitVec xlen) <<< (msb - lsb + 1 - 1)) <<< 0

/-- `mtvec_data::base`, and that of `stvec` and `utvec`. -/
def mtvecBase : FieldParams xlen :=
  computed (xlen - 1) 2

/-- `mcause_data::exception_code`, and that of `scause` and `ucause`. -/
def mcauseExceptionCode : FieldParams xlen :=
  computed (xlen - 2) 0

/-- `mie_data::platform_defined`, and that of `mip`. -/
def miePlatformDefined : FieldParams xlen :=
  computed xlen 16

/-- The register after some accesses. -/
def after (params : ι → FieldParams xlen) (writable word : BitVec xlen)
    (accesses : List (FieldAccess xlen ι)) : BitVec xlen :=
  (Transition.outputs (perform params writable) word accesses).2

/-- The fields of a register that has a computed one, `none`, next to others. -/
def withComputed (fields : CsrFields xlen ι) (msb lsb : Nat) : Option ι → FieldParams xlen
  | none => computed msb lsb
  | some i => fields.params i

variable {params : ι → FieldParams xlen} {writable : BitVec xlen}

/-- An access changes no bit outside of the mask of its field. -/
theorem perform_keeps (large : 5 ≤ xlen) {bit : Nat}
    (outside : ∀ i, (params i).bitMask.getLsbD bit = false) (word : BitVec xlen)
    (access : FieldAccess xlen ι) :
    (perform params writable word access).2.getLsbD bit = word.getLsbD bit := by
  have written (i : ι) (value : BitVec xlen) :
      ((params i).write writable word value).getLsbD bit = word.getLsbD bit := by
    rw [write, CsrOps.write, getLsbD_csrrw, newValue, CsrOps.read, BitVec.getLsbD_or,
      BitVec.getLsbD_and, BitVec.getLsbD_and, BitVec.getLsbD_not, outside i]
    by_cases bound : bit < xlen
    · simp [bound]
    · simp [BitVec.getLsbD_of_ge _ bit (Nat.le_of_not_lt bound)]
  cases access with
  | read i => rfl
  | set i =>
      rw [perform, set, CsrReg.setConst_eq _ _ large, CsrOps.setBits, csrrs, getLsbD_csrrw,
        BitVec.getLsbD_or, outside i, Bool.or_false, ite_self]
  | clr i =>
      rw [perform, clr, CsrReg.clrConst_eq _ _ large, CsrOps.clrBits, csrrc, getLsbD_csrrw,
        BitVec.getLsbD_and, BitVec.getLsbD_not, outside i]
      by_cases bound : bit < xlen
      · simp [bound]
      · simp [BitVec.getLsbD_of_ge _ bit (Nat.le_of_not_lt bound)]
  | write i value => exact written i value
  | readWrite i value => exact written i value

/-- No sequence of accesses changes a bit outside of all masks. -/
theorem after_keeps (large : 5 ≤ xlen) {bit : Nat}
    (outside : ∀ i, (params i).bitMask.getLsbD bit = false) (word : BitVec xlen)
    (accesses : List (FieldAccess xlen ι)) :
    (after params writable word accesses).getLsbD bit = word.getLsbD bit := by
  induction accesses generalizing word with
  | nil => rfl
  | cons access rest ih =>
      change (after params writable (perform params writable word access).2 rest).getLsbD bit = _
      rw [ih, perform_keeps large outside]

/-! ## Computed masks -/

/-- The computed mask has the last bit of the field, if that is a bit of the
register, and no other. -/
theorem computed_bitMask {msb lsb : Nat} (ordered : lsb ≤ msb) (bit : Nat) :
    (computed msb lsb : FieldParams xlen).bitMask.getLsbD bit =
      decide (bit = msb ∧ msb < xlen) := by
  rw [Bool.eq_iff_iff]
  simp only [computed, Nat.add_sub_cancel, BitVec.getLsbD_shiftLeft, BitVec.ofNat_eq_ofNat,
    BitVec.getLsbD_one, Bool.and_eq_true, Bool.not_eq_true', decide_eq_true_eq,
    decide_eq_false_iff_not]
  omega

/-- A computed field reads its last bit alone. -/
theorem computed_read {msb lsb : Nat} (ordered : lsb ≤ msb) (word : BitVec xlen) (bit : Nat) :
    ((computed msb lsb).read word).getLsbD bit =
      (decide (lsb + bit = msb) && word.getLsbD msb) := by
  rw [read, CsrOps.read, BitVec.getLsbD_ushiftRight, BitVec.getLsbD_and]
  change (word.getLsbD (lsb + bit) && (computed msb lsb).bitMask.getLsbD (lsb + bit)) = _
  rw [computed_bitMask ordered]
  by_cases last : lsb + bit = msb
  · by_cases bound : msb < xlen
    · simp [last, bound]
    · simp [last, BitVec.getLsbD_of_ge word msb (Nat.le_of_not_lt bound)]
  · simp [last]

-- The code of the timer interrupt reads as zero.
example : (mcauseExceptionCode : FieldParams 32).read 0x80000007 = 0 := by decide

/-- A write to a computed field stores one bit of the value. -/
theorem computed_write {msb lsb : Nat} (ordered : lsb ≤ msb) {writable : BitVec xlen}
    (implemented : msb < xlen → writable.getLsbD msb = true) (word value : BitVec xlen) :
    ((computed msb lsb).write writable word value).getLsbD msb =
      (decide (msb < xlen) && value.getLsbD (msb - lsb)) := by
  by_cases bound : msb < xlen
  · have mask : (computed msb lsb : FieldParams xlen).bitMask.getLsbD msb = true := by
      rw [computed_bitMask ordered, decide_eq_true ⟨rfl, bound⟩]
    rw [write, CsrOps.write, getLsbD_csrrw, if_pos (implemented bound), newValue,
      BitVec.getLsbD_or, BitVec.getLsbD_and, BitVec.getLsbD_and, BitVec.getLsbD_not, mask]
    have first : ¬ msb < lsb := Nat.not_lt.mpr ordered
    simp only [computed, BitVec.getLsbD_shiftLeft, bound, first, decide_true, decide_false,
      Bool.not_true, Bool.not_false, Bool.and_false, Bool.false_or, Bool.true_and, Bool.and_true]
  · rw [BitVec.getLsbD_of_ge _ msb (Nat.le_of_not_lt bound), decide_eq_false bound,
      Bool.false_and]

/-- A computed field reads back what is written to it exactly if it has one
bit. -/
theorem computed_roundTrip_iff {msb lsb : Nat} (ordered : lsb ≤ msb) (inside : lsb < xlen)
    {writable : BitVec xlen} (implemented : msb < xlen → writable.getLsbD msb = true) :
    (∀ word value, (computed msb lsb).read ((computed msb lsb).write writable word value) =
      value &&& BitVec.ofNat xlen (2 ^ (computed msb lsb : FieldParams xlen).bitWidth - 1)) ↔
        msb = lsb := by
  have ones (bit : Nat) : (BitVec.ofNat xlen
      (2 ^ (computed msb lsb : FieldParams xlen).bitWidth - 1)).getLsbD bit =
        (decide (bit < xlen) && decide (bit < msb - lsb + 1)) := by
    rw [BitVec.getLsbD_ofNat, Nat.testBit_two_pow_sub_one]
    rfl
  constructor
  · intro roundTrip
    by_contra longer
    -- The first bit of the value is lost.
    have lowest := congrArg (fun value => value.getLsbD 0) (roundTrip 0 1)
    simp only [computed_read ordered, BitVec.getLsbD_and, ones] at lowest
    have positive : 0 < xlen := Nat.zero_lt_of_lt inside
    have notLast : ¬ lsb = msb := fun same => longer same.symm
    simp [notLast, positive] at lowest
  · rintro rfl word value
    apply BitVec.eq_of_getLsbD_eq
    intro bit bound
    rw [computed_read ordered, computed_write ordered implemented, BitVec.getLsbD_and, ones]
    cases bit with
    | zero => simp [inside, bound]
    | succ bit => simp

/-- The field `platform_defined` has no bit: no access changes the register. -/
theorem miePlatformDefined_after (large : 16 ≤ xlen) (writable word : BitVec xlen)
    (accesses : List (FieldAccess xlen Unit)) :
    after (fun _ => miePlatformDefined) writable word accesses = word := by
  apply BitVec.eq_of_getLsbD_eq
  intro bit _
  apply after_keeps (Nat.le_trans (by decide) large)
  intro _
  rw [miePlatformDefined, computed_bitMask large, decide_eq_false]
  exact fun last => Nat.lt_irrefl xlen last.2

/-- Whatever accesses to the fields of a register a program makes, those with a
computed mask included, the bits of the computed field below its last one stay
as they are.  It reads as nothing but its last bit, and it reads back what is
written to it only if it has no other, where the hart implements that bit. -/
theorem computed_topBit_only (large : 5 ≤ xlen) {fields : CsrFields xlen ι} {msb lsb : Nat}
    (ordered : lsb ≤ msb) (inside : lsb < xlen)
    (apart : ∀ i bit, lsb ≤ bit → bit ≤ msb → ¬ (fields.field i).bits.Covers bit)
    (writable : BitVec xlen) :
    (∀ (accesses : List (FieldAccess xlen (Option ι))) (word : BitVec xlen) (bit : Nat),
      lsb ≤ bit → bit < msb →
        (after (withComputed fields msb lsb) writable word accesses).getLsbD bit =
          word.getLsbD bit) ∧
    (∀ (word : BitVec xlen) (bit : Nat), ((computed msb lsb).read word).getLsbD bit =
      (decide (lsb + bit = msb) && word.getLsbD msb)) ∧
    ((msb < xlen → writable.getLsbD msb = true) →
      ((∀ word value, (computed msb lsb).read ((computed msb lsb).write writable word value) =
        value &&& BitVec.ofNat xlen (2 ^ (computed msb lsb : FieldParams xlen).bitWidth - 1)) ↔
          msb = lsb)) := by
  refine ⟨?_, computed_read ordered, computed_roundTrip_iff ordered inside⟩
  intro accesses word bit first below
  apply after_keeps large
  intro i
  cases i with
  | none =>
      change (computed msb lsb : FieldParams xlen).bitMask.getLsbD bit = false
      rw [computed_bitMask ordered, decide_eq_false]
      rintro ⟨last, _⟩
      exact absurd last (Nat.ne_of_lt below)
  | some i =>
      change (fields.field i).bitMask.getLsbD bit = false
      rw [CsrField.bitMask_eq_mask, Field.getLsbD_mask]
      exact decide_eq_false (apart i bit first (Nat.le_of_lt below))

/-- On a hart of 32 bits the base of `mtvec` is not what was written to it. -/
theorem computed_topBit_only_mtvec :
    (after (withComputed (mtvecMode (Nat.le_refl 32)) 31 2) (BitVec.allOnes 32) 0
        [.write none 0x8000040, .write (some ()) 1]).getLsbD 8 = false ∧
      ¬ ∀ word value : BitVec 32, mtvecBase.read (mtvecBase.write (BitVec.allOnes 32) word value) =
        value &&& BitVec.ofNat 32 (2 ^ (mtvecBase : FieldParams 32).bitWidth - 1) := by
  have mode : ∀ (i : Unit) (bit : Nat), 2 ≤ bit → bit ≤ 31 →
      ¬ ((mtvecMode (Nat.le_refl 32)).field i).bits.Covers bit := by
    intro _ bit first _ covers
    exact absurd covers.2 (Nat.not_lt.mpr first)
  have only := @computed_topBit_only 32 Unit (by decide) (mtvecMode (Nat.le_refl 32)) 31 2
    (by decide) (by decide) mode (BitVec.allOnes 32)
  constructor
  · rw [only.1 _ 0 8 (by decide) (by decide)]
    rfl
  · exact (only.2.2 fun _ => rfl).not.mpr (by decide)

end FieldParams

end BaremetalCoro
