import BaremetalCoro.Words.Field

/-!
# Access to control and status registers

`riscv-csr.hpp` wraps the CSR instructions in one `*_ops` struct for each
register, and builds register and field access on top of them.  An access is a
function from the register before it to the returned value and the register
after it.

The structs differ in the type of a register's value.  Most have `uint_xlen_t`,
and `xlen` stands for its width; three have `uint_csr64_t`, which is as wide.
In the seven with `uint_csr32_t` all values have 32 bits, and all functions that
return one return `uint32_t`: they are those with `xlen` at 32.

A hart need not implement all bits of a register.  The bits it does implement
are storage, given by the mask `writable`, and the others keep their value.
-/

namespace BaremetalCoro

open Words

variable {xlen : Nat}

/-! ## Instructions -/

/-- `csrrw rd, csr, rs1` -/
def csrrw (writable word rs1 : BitVec xlen) : BitVec xlen × BitVec xlen :=
  (word, (word &&& ~~~writable) ||| (rs1 &&& writable))

/-- `csrrs rd, csr, rs1` -/
def csrrs (writable word rs1 : BitVec xlen) : BitVec xlen × BitVec xlen :=
  csrrw writable word (word ||| rs1)

/-- `csrrc rd, csr, rs1` -/
def csrrc (writable word rs1 : BitVec xlen) : BitVec xlen × BitVec xlen :=
  csrrw writable word (word &&& ~~~rs1)

/-- The operand of an immediate instruction, which has five bits. -/
def immediate (value : BitVec xlen) : BitVec xlen :=
  (value.setWidth 5).setWidth xlen

/-- A value returned as `uint32_t`. -/
def asUint32 (value : BitVec xlen) : BitVec xlen :=
  (value.setWidth 32).setWidth xlen

namespace CsrOps

variable (writable word : BitVec xlen)

def read : BitVec xlen := word

def write (value : BitVec xlen) : BitVec xlen :=
  (csrrw writable word value).2

def writeImm (value : BitVec xlen) : BitVec xlen :=
  (csrrw writable word (immediate value)).2

def readWrite (newValue : BitVec xlen) : BitVec xlen × BitVec xlen :=
  csrrw writable word newValue

def readWriteImm (newValue : BitVec xlen) : BitVec xlen × BitVec xlen :=
  csrrw writable word (immediate newValue)

def setBits (mask : BitVec xlen) : BitVec xlen :=
  (csrrs writable word mask).2

/-- Its return type is `uint32_t`, whatever `uint_xlen_t` is. -/
def readSetBits (mask : BitVec xlen) : BitVec xlen × BitVec xlen :=
  let (value, word') := csrrs writable word mask
  (asUint32 value, word')

def clrBits (mask : BitVec xlen) : BitVec xlen :=
  (csrrc writable word mask).2

/-- Its return type is `uint32_t`, whatever `uint_xlen_t` is. -/
def readClrBits (mask : BitVec xlen) : BitVec xlen × BitVec xlen :=
  let (value, word') := csrrc writable word mask
  (asUint32 value, word')

def setBitsImm (mask : BitVec xlen) : BitVec xlen :=
  (csrrs writable word (immediate mask)).2

def readSetBitsImm (mask : BitVec xlen) : BitVec xlen × BitVec xlen :=
  csrrs writable word (immediate mask)

def clrBitsImm (mask : BitVec xlen) : BitVec xlen :=
  (csrrc writable word (immediate mask)).2

def readClrBitsImm (mask : BitVec xlen) : BitVec xlen × BitVec xlen :=
  csrrc writable word (immediate mask)

end CsrOps

/-! ## Registers -/

/-- `CSR_IMM_OP_MASK`. -/
def csrImmOpMask : BitVec xlen :=
  BitVec.ofNat xlen 0x01F

/-- The test of the constant accesses. -/
def FitsImm (value : BitVec xlen) : Prop :=
  value &&& csrImmOpMask = value

instance (value : BitVec xlen) : Decidable (FitsImm value) :=
  inferInstanceAs (Decidable (_ = _))

-- The accesses of `write_only_reg` and `read_write_reg` that take a constant;
-- the others are those of the ops.
namespace CsrReg

variable (writable word : BitVec xlen)

def writeConst (value : BitVec xlen) : BitVec xlen :=
  if FitsImm value then CsrOps.writeImm writable word value
  else CsrOps.write writable word value

def setConst (mask : BitVec xlen) : BitVec xlen :=
  if FitsImm mask then CsrOps.setBitsImm writable word mask
  else CsrOps.setBits writable word mask

def clrConst (mask : BitVec xlen) : BitVec xlen :=
  if FitsImm mask then CsrOps.clrBitsImm writable word mask
  else CsrOps.clrBits writable word mask

def readWriteConst (value : BitVec xlen) : BitVec xlen × BitVec xlen :=
  if FitsImm value then CsrOps.readWriteImm writable word value
  else CsrOps.readWrite writable word value

def readSetBitsConst (mask : BitVec xlen) : BitVec xlen × BitVec xlen :=
  if FitsImm mask then CsrOps.readSetBitsImm writable word mask
  else CsrOps.readSetBits writable word mask

def readClrBitsConst (mask : BitVec xlen) : BitVec xlen × BitVec xlen :=
  if FitsImm mask then CsrOps.readClrBitsImm writable word mask
  else CsrOps.readClrBits writable word mask

end CsrReg

/-! ## Fields -/

/-- The parameter data of a field, as they are declared. -/
structure FieldParams (xlen : Nat) where
  bitOffset : Nat
  bitWidth : Nat
  bitMask : BitVec xlen
  allSetMask : BitVec xlen

namespace FieldParams

variable (params : FieldParams xlen) (writable word : BitVec xlen)

/-- Read a given field value from a CSR. -/
def read : BitVec xlen :=
  (CsrOps.read word &&& params.bitMask) >>> params.bitOffset

def set : BitVec xlen :=
  CsrReg.setConst writable word params.bitMask

def clr : BitVec xlen :=
  CsrReg.clrConst writable word params.bitMask

/-- What `write` and `read_write` compute between their two instructions. -/
def newValue (orgValue value : BitVec xlen) : BitVec xlen :=
  (orgValue &&& ~~~params.bitMask) ||| ((value <<< params.bitOffset) &&& params.bitMask)

/-- Read-modify-write to write a field.  NOTE - not atomic. -/
def write (value : BitVec xlen) : BitVec xlen :=
  let orgValue := CsrOps.read word
  CsrOps.write writable word (params.newValue orgValue value)

/-- Read-modify-write to set a field, and return original value.  NOTE - not
atomic. -/
def readWrite (value : BitVec xlen) : BitVec xlen × BitVec xlen :=
  let orgValue := CsrOps.read word
  ((orgValue &&& params.bitMask) >>> params.bitOffset,
    CsrOps.write writable word (params.newValue orgValue value))

end FieldParams

/-- A field with the masks of its bits. -/
structure CsrField (xlen : Nat) extends FieldParams xlen where
  fits : bitOffset + bitWidth ≤ xlen
  bitMask_eq : bitMask = BitVec.ofNat xlen ((2 ^ bitWidth - 1) <<< bitOffset)
  allSetMask_eq : allSetMask = BitVec.ofNat xlen (2 ^ bitWidth - 1)

/-- A field with constant parameter data. -/
def CsrField.ofNat (bitOffset bitWidth bitMask allSetMask : Nat)
    (fits : bitOffset + bitWidth ≤ xlen)
    (bitMask_eq : bitMask = (2 ^ bitWidth - 1) <<< bitOffset)
    (allSetMask_eq : allSetMask = 2 ^ bitWidth - 1) : CsrField xlen where
  bitOffset := bitOffset
  bitWidth := bitWidth
  bitMask := BitVec.ofNat xlen bitMask
  allSetMask := BitVec.ofNat xlen allSetMask
  fits := fits
  bitMask_eq := congrArg (BitVec.ofNat xlen) bitMask_eq
  allSetMask_eq := congrArg (BitVec.ofNat xlen) allSetMask_eq

/-- The bits of the field. -/
def CsrField.bits (field : CsrField xlen) : Field xlen :=
  ⟨field.bitOffset, field.bitWidth, field.fits⟩

/-! ## Constants -/

theorem immediate_eq (large : 5 ≤ xlen) {value : BitVec xlen} (fitsImm : FitsImm value) :
    immediate value = value := by
  have mask : (csrImmOpMask : BitVec xlen).toNat = 2 ^ 5 - 1 := by
    have small : (0x01F : Nat) < 2 ^ xlen :=
      Nat.lt_of_lt_of_le (by decide) (Nat.pow_le_pow_right (by decide) large)
    rw [csrImmOpMask, BitVec.toNat_ofNat, Nat.mod_eq_of_lt small]
    rfl
  have small : value.toNat % 2 ^ 5 = value.toNat := by
    have masked := congrArg BitVec.toNat fitsImm
    rwa [BitVec.toNat_and, mask, Nat.and_two_pow_sub_one_eq_mod] at masked
  apply BitVec.eq_of_toNat_eq
  rw [immediate, BitVec.toNat_setWidth, BitVec.toNat_setWidth, small]
  exact Nat.mod_eq_of_lt value.isLt

theorem asUint32_eq_iff {value : BitVec xlen} :
    asUint32 value = value ↔ value.toNat < 2 ^ 32 := by
  rw [asUint32, ← BitVec.toNat_inj, BitVec.toNat_setWidth, BitVec.toNat_setWidth]
  constructor
  · intro kept
    have bound := Nat.mod_lt value.toNat (Nat.two_pow_pos 32)
    have le := Nat.mod_le (value.toNat % 2 ^ 32) (2 ^ xlen)
    omega
  · intro small
    rw [Nat.mod_eq_of_lt small]
    exact Nat.mod_eq_of_lt value.isLt

/-- An instruction does the same with a constant as an immediate. -/
theorem constant_operand {α : Type} (large : 5 ≤ xlen) (access : BitVec xlen → α)
    (value : BitVec xlen) :
    (if FitsImm value then access (immediate value) else access value) = access value := by
  split
  · rename_i fitsImm
    rw [immediate_eq large fitsImm]
  · rfl

namespace CsrReg

variable (writable word : BitVec xlen)

theorem setConst_eq (large : 5 ≤ xlen) (mask : BitVec xlen) :
    setConst writable word mask = CsrOps.setBits writable word mask :=
  constant_operand large (CsrOps.setBits writable word) mask

theorem clrConst_eq (large : 5 ≤ xlen) (mask : BitVec xlen) :
    clrConst writable word mask = CsrOps.clrBits writable word mask :=
  constant_operand large (CsrOps.clrBits writable word) mask

/-- The returned value is cut to 32 bits unless the mask is an immediate. -/
theorem readSetBitsConst_eq (large : 5 ≤ xlen) (mask : BitVec xlen) :
    readSetBitsConst writable word mask =
      (if FitsImm mask then word else asUint32 word, CsrOps.setBits writable word mask) := by
  rw [readSetBitsConst]
  split
  · rename_i fitsImm
    rw [CsrOps.readSetBitsImm, immediate_eq large fitsImm]
    rfl
  · rfl

theorem readClrBitsConst_eq (large : 5 ≤ xlen) (mask : BitVec xlen) :
    readClrBitsConst writable word mask =
      (if FitsImm mask then word else asUint32 word, CsrOps.clrBits writable word mask) := by
  rw [readClrBitsConst]
  split
  · rename_i fitsImm
    rw [CsrOps.readClrBitsImm, immediate_eq large fitsImm]
    rfl
  · rfl

theorem returned_iff (word mask : BitVec xlen) :
    (if FitsImm mask then word else asUint32 word) = word ↔
      FitsImm mask ∨ word.toNat < 2 ^ 32 := by
  split
  · rename_i fitsImm
    exact iff_of_true rfl (Or.inl fitsImm)
  · rename_i notImm
    rw [asUint32_eq_iff, or_iff_right notImm]

/-- On every register, accesses with a constant write what the accesses with a
register operand write.  `read_set_bits` and `read_clr_bits` return the value
before only when it fits into 32 bits, and with a constant also when the mask
fits into an immediate. -/
theorem const_agrees (large : 5 ≤ xlen) (value : BitVec xlen) :
    (writeConst writable word value = CsrOps.write writable word value ∧
      setConst writable word value = CsrOps.setBits writable word value ∧
      clrConst writable word value = CsrOps.clrBits writable word value ∧
      readWriteConst writable word value = CsrOps.readWrite writable word value ∧
      (readSetBitsConst writable word value).2 = (CsrOps.readSetBits writable word value).2 ∧
      (readClrBitsConst writable word value).2 = (CsrOps.readClrBits writable word value).2) ∧
    ((CsrOps.readSetBits writable word value).1 = word ↔ word.toNat < 2 ^ 32) ∧
    ((CsrOps.readClrBits writable word value).1 = word ↔ word.toNat < 2 ^ 32) ∧
    ((readSetBitsConst writable word value).1 = word ↔ FitsImm value ∨ word.toNat < 2 ^ 32) ∧
    ((readClrBitsConst writable word value).1 = word ↔ FitsImm value ∨ word.toNat < 2 ^ 32) := by
  rw [readSetBitsConst_eq _ _ large, readClrBitsConst_eq _ _ large]
  constructor
  · constructor
    · exact constant_operand large (CsrOps.write writable word) value
    · constructor
      · exact setConst_eq writable word large value
      · constructor
        · exact clrConst_eq writable word large value
        · constructor
          · exact constant_operand large (CsrOps.readWrite writable word) value
          · exact ⟨rfl, rfl⟩
  · exact ⟨asUint32_eq_iff, asUint32_eq_iff, returned_iff word value, returned_iff word value⟩

/-- All bits of a register of 64 bits are set. -/
theorem const_agrees_ones :
    setConst (BitVec.allOnes 64) 0 8 = CsrOps.setBits (BitVec.allOnes 64) 0 8 ∧
      (readSetBitsConst (BitVec.allOnes 64) (BitVec.allOnes 64) 8).1 = BitVec.allOnes 64 ∧
      (readSetBitsConst (BitVec.allOnes 64) (BitVec.allOnes 64) 0x80).1 ≠ BitVec.allOnes 64 := by
  have short := const_agrees (BitVec.allOnes 64) 0 (by decide) 8
  have long := const_agrees (BitVec.allOnes 64) (BitVec.allOnes 64) (by decide) 8
  have wide := const_agrees (BitVec.allOnes 64) (BitVec.allOnes 64) (by decide) 0x80
  constructor
  · exact short.1.2.1
  · constructor
    · exact long.2.2.2.1.mpr (Or.inl (by decide))
    · exact wide.2.2.2.1.not.mpr (by decide)

end CsrReg

/-! ## Accesses to fields -/

/-- The instructions replace the bits that the hart implements. -/
theorem getLsbD_csrrw (writable word rs1 : BitVec xlen) (bit : Nat) :
    (csrrw writable word rs1).2.getLsbD bit =
      if writable.getLsbD bit = true then rs1.getLsbD bit else word.getLsbD bit := by
  rw [csrrw, BitVec.getLsbD_or, BitVec.getLsbD_and, BitVec.getLsbD_and, BitVec.getLsbD_not]
  by_cases bound : bit < xlen
  · cases writable.getLsbD bit <;> simp [bound]
  · simp [BitVec.getLsbD_of_ge _ bit (Nat.le_of_not_lt bound)]

namespace CsrField

variable {field : CsrField xlen} {writable : BitVec xlen}

theorem bitMask_eq_mask (field : CsrField xlen) : field.bitMask = field.bits.mask :=
  field.bitMask_eq

theorem allSetMask_eq_ones (field : CsrField xlen) : field.allSetMask = field.bits.ones :=
  field.allSetMask_eq

theorem read_eq (field : CsrField xlen) (word : BitVec xlen) :
    field.read word = field.bits.get word := by
  rw [FieldParams.read, bitMask_eq_mask]
  rfl

theorem newValue_eq (field : CsrField xlen) (orgValue value : BitVec xlen) :
    field.newValue orgValue value = field.bits.set orgValue value := by
  rw [FieldParams.newValue, bitMask_eq_mask]
  rfl

/-- Setting a field writes all its bits at once. -/
theorem set_eq_write (large : 5 ≤ xlen) (field : CsrField xlen) (writable word : BitVec xlen) :
    field.set writable word = field.write writable word field.allSetMask := by
  rw [FieldParams.set, CsrReg.setConst_eq writable word large, CsrOps.setBits, csrrs,
    bitMask_eq_mask, Field.or_mask, ← newValue_eq, ← allSetMask_eq_ones]
  rfl

theorem clr_eq_write (large : 5 ≤ xlen) (field : CsrField xlen) (writable word : BitVec xlen) :
    field.clr writable word = field.write writable word 0 := by
  rw [FieldParams.clr, CsrReg.clrConst_eq writable word large, CsrOps.clrBits, csrrc,
    bitMask_eq_mask, Field.and_not_mask, ← newValue_eq]
  rfl

/-- A write replaces the bits of the field that the hart implements. -/
theorem getLsbD_write (field : CsrField xlen) (writable word value : BitVec xlen) (bit : Nat) :
    (field.write writable word value).getLsbD bit =
      if writable.getLsbD bit = true ∧ field.bits.Covers bit then
        value.getLsbD (bit - field.bits.offset)
      else word.getLsbD bit := by
  rw [FieldParams.write, CsrOps.read, newValue_eq, CsrOps.write, getLsbD_csrrw,
    Field.getLsbD_set]
  by_cases stored : writable.getLsbD bit = true
  · rw [if_pos stored]
    simp only [stored, true_and]
  · rw [if_neg stored, if_neg fun both => stored both.1]

/-! ## Fields of implemented bits -/

/-- The hart implements all bits of the field. -/
def Implemented (field : CsrField xlen) (writable : BitVec xlen) : Prop :=
  ∀ i, field.bits.Covers i → writable.getLsbD i = true

theorem write_eq (implemented : field.Implemented writable) (word value : BitVec xlen) :
    field.write writable word value = field.bits.set word value := by
  apply BitVec.eq_of_getLsbD_eq
  intro bit _
  rw [getLsbD_write, Field.getLsbD_set]
  by_cases covers : field.bits.Covers bit
  · rw [if_pos covers, if_pos ⟨implemented bit covers, covers⟩]
  · rw [if_neg covers, if_neg fun both => covers both.2]

theorem set_eq (large : 5 ≤ xlen) (implemented : field.Implemented writable)
    (word : BitVec xlen) : field.set writable word = field.bits.set word field.allSetMask :=
  (set_eq_write large field writable word).trans (write_eq implemented word _)

theorem clr_eq (large : 5 ≤ xlen) (implemented : field.Implemented writable)
    (word : BitVec xlen) : field.clr writable word = field.bits.set word 0 :=
  (clr_eq_write large field writable word).trans (write_eq implemented word 0)

theorem readWrite_eq (implemented : field.Implemented writable) (word value : BitVec xlen) :
    field.readWrite writable word value = (field.bits.get word, field.bits.set word value) := by
  rw [← write_eq implemented, ← read_eq]
  rfl

end CsrField

end BaremetalCoro
