import BaremetalCoro.Csr.Access
import BaremetalCoro.Transition.Core
import Mathlib.Logic.Function.Basic

/-!
# The fields of a register

The header declares for each register the fields it has.  No two of them share
a bit, so a program may take them for independent variables: whatever accesses
to the fields of a register it performs, in whatever order, each access returns
what the variable holds and changes that variable alone.  The bits that belong
to no field are never changed.
-/

namespace BaremetalCoro

open Words

variable {xlen : Nat} {ι : Type}

/-- Fields of one register. -/
structure CsrFields (xlen : Nat) (ι : Type) where
  field : ι → CsrField xlen
  apart : ∀ ⦃first second : ι⦄, first ≠ second →
    (field first).bits.Apart (field second).bits

/-! ## Declared fields -/

/-- The fields of `mstatus`. -/
inductive MstatusField where
  | mie
  | sie
  | mpie
  | spie
  | mprv
  | mpp
  | spp
  deriving DecidableEq

/-- `mstatus_data`. -/
def mstatusData (large : 32 ≤ xlen) : MstatusField → CsrField xlen
  | .mie => .ofNat 3 1 0x8 0x1 (by omega) rfl rfl
  | .sie => .ofNat 2 1 0x4 0x1 (by omega) rfl rfl
  | .mpie => .ofNat 7 1 0x80 0x1 (by omega) rfl rfl
  | .spie => .ofNat 5 1 0x20 0x1 (by omega) rfl rfl
  | .mprv => .ofNat 17 1 0x20000 0x1 (by omega) rfl rfl
  | .mpp => .ofNat 11 2 0x1800 0x3 (by omega) rfl rfl
  | .spp => .ofNat 8 1 0x100 0x1 (by omega) rfl rfl

def mstatus (large : 32 ≤ xlen) : CsrFields xlen MstatusField where
  field := mstatusData large
  apart := by
    intro first second different
    cases first <;> cases second <;>
      first
      | exact absurd rfl different
      | simp [CsrField.bits, CsrField.ofNat, mstatusData, Field.Apart]

/-- The fields of `mie`, and of `mip`, with a constant mask. -/
inductive MieField where
  | msi
  | mti
  | mei
  | ssi
  | sti
  | sei
  | usi
  | uti
  | uei
  deriving DecidableEq

/-- `mie_data`, and `mip_data`. -/
def mieData (large : 32 ≤ xlen) : MieField → CsrField xlen
  | .msi => .ofNat 3 1 0x8 0x1 (by omega) rfl rfl
  | .mti => .ofNat 7 1 0x80 0x1 (by omega) rfl rfl
  | .mei => .ofNat 11 1 0x800 0x1 (by omega) rfl rfl
  | .ssi => .ofNat 1 1 0x2 0x1 (by omega) rfl rfl
  | .sti => .ofNat 5 1 0x20 0x1 (by omega) rfl rfl
  | .sei => .ofNat 9 1 0x200 0x1 (by omega) rfl rfl
  | .usi => .ofNat 0 1 0x1 0x1 (by omega) rfl rfl
  | .uti => .ofNat 4 1 0x10 0x1 (by omega) rfl rfl
  | .uei => .ofNat 8 1 0x100 0x1 (by omega) rfl rfl

def mie (large : 32 ≤ xlen) : CsrFields xlen MieField where
  field := mieData large
  apart := by
    intro first second different
    cases first <;> cases second <;>
      first
      | exact absurd rfl different
      | simp [CsrField.bits, CsrField.ofNat, mieData, Field.Apart]

/-- `mtvec_data::mode`, the field of `mtvec` with a constant mask. -/
def mtvecMode (large : 32 ≤ xlen) : CsrFields xlen Unit where
  field := fun _ => .ofNat 0 2 0x3 0x3 (by omega) rfl rfl
  apart := fun _ _ different => absurd rfl different

/-! ## Accesses -/

/-- An access to a field of a register. -/
inductive FieldAccess (xlen : Nat) (ι : Type) where
  | read (i : ι)
  | set (i : ι)
  | clr (i : ι)
  | write (i : ι) (value : BitVec xlen)
  | readWrite (i : ι) (value : BitVec xlen)

/-- What an access returns, and the register after it. -/
def FieldParams.perform (params : ι → FieldParams xlen) (writable word : BitVec xlen) :
    FieldAccess xlen ι → Option (BitVec xlen) × BitVec xlen
  | .read i => (some ((params i).read word), word)
  | .set i => (none, (params i).set writable word)
  | .clr i => (none, (params i).clr writable word)
  | .write i value => (none, (params i).write writable word value)
  | .readWrite i value =>
      (some ((params i).readWrite writable word value).1,
        ((params i).readWrite writable word value).2)

namespace CsrFields

variable (fields : CsrFields xlen ι)

/-- The parameter data of the fields. -/
def params (i : ι) : FieldParams xlen :=
  (fields.field i).toFieldParams

/-- An access to one of the fields. -/
def perform : BitVec xlen → BitVec xlen → FieldAccess xlen ι →
    Option (BitVec xlen) × BitVec xlen :=
  FieldParams.perform fields.params

/-- The same access to variables of its own for each field. -/
def performVariables [DecidableEq ι] (values : ι → BitVec xlen) :
    FieldAccess xlen ι → Option (BitVec xlen) × (ι → BitVec xlen)
  | .read i => (some (values i), values)
  | .set i => (none, Function.update values i (fields.field i).allSetMask)
  | .clr i => (none, Function.update values i 0)
  | .write i value => (none, Function.update values i (value &&& (fields.field i).allSetMask))
  | .readWrite i value =>
      (some (values i), Function.update values i (value &&& (fields.field i).allSetMask))

/-- The values of all fields. -/
def values (word : BitVec xlen) : ι → BitVec xlen :=
  fun i => (fields.field i).read word

/-- The hart implements all fields. -/
def Implemented (writable : BitVec xlen) : Prop :=
  ∀ i, (fields.field i).Implemented writable

/-- The words agree on all bits that belong to no field. -/
def SameOutside (word word' : BitVec xlen) : Prop :=
  ∀ bit, (∀ i, ¬ (fields.field i).bits.Covers bit) → word'.getLsbD bit = word.getLsbD bit

/-- A hart that implements all bits. -/
theorem implemented_allOnes : fields.Implemented (BitVec.allOnes xlen) := by
  intro i bit covers
  rw [BitVec.getLsbD_allOnes, decide_eq_true_iff]
  exact Nat.lt_of_lt_of_le covers.2 (fields.field i).bits.fits

variable {fields} {writable : BitVec xlen}

/-- Replacing a field of the register replaces its variable. -/
theorem values_set [DecidableEq ι] (i : ι) (word value : BitVec xlen) :
    fields.values ((fields.field i).bits.set word value) =
      Function.update (fields.values word) i (value &&& (fields.field i).allSetMask) := by
  funext other
  rw [values, CsrField.read_eq]
  by_cases same : other = i
  · subst same
    rw [Function.update_self, Field.get_set, CsrField.allSetMask_eq_ones]
  · rw [Function.update_of_ne same, Field.get_set_of_apart (fields.apart same), values,
      CsrField.read_eq]

theorem sameOutside_set (i : ι) (word value : BitVec xlen) :
    fields.SameOutside word ((fields.field i).bits.set word value) := by
  intro bit outside
  rw [Field.getLsbD_set, if_neg (outside i)]

/-- An access to a register does what it does to the variables. -/
theorem perform_simulates [DecidableEq ι] (large : 5 ≤ xlen)
    (implemented : fields.Implemented writable) (word : BitVec xlen)
    (access : FieldAccess xlen ι) :
    (fields.perform writable word access).1 =
        (fields.performVariables (fields.values word) access).1 ∧
      fields.values (fields.perform writable word access).2 =
        (fields.performVariables (fields.values word) access).2 ∧
      fields.SameOutside word (fields.perform writable word access).2 := by
  cases access with
  | read i => exact ⟨rfl, rfl, fun _ _ => rfl⟩
  | set i =>
      rw [perform, FieldParams.perform, params, CsrField.set_eq large (implemented i)]
      refine ⟨rfl, ?_, sameOutside_set i word _⟩
      rw [values_set, BitVec.and_self]
      rfl
  | clr i =>
      rw [perform, FieldParams.perform, params, CsrField.clr_eq large (implemented i)]
      refine ⟨rfl, ?_, sameOutside_set i word _⟩
      rw [values_set]
      simp only [performVariables, BitVec.ofNat_eq_ofNat, BitVec.zero_and]
  | write i value =>
      rw [perform, FieldParams.perform, params, CsrField.write_eq (implemented i)]
      exact ⟨rfl, values_set i word value, sameOutside_set i word value⟩
  | readWrite i value =>
      rw [perform, FieldParams.perform, params, CsrField.readWrite_eq (implemented i),
        ← CsrField.read_eq]
      exact ⟨rfl, values_set i word value, sameOutside_set i word value⟩

/-- Over any sequence of accesses the fields of a register behave as
independent variables, and the bits outside of them stay as they are. -/
theorem fields_independent [DecidableEq ι] (large : 5 ≤ xlen)
    (implemented : fields.Implemented writable) (word : BitVec xlen)
    (accesses : List (FieldAccess xlen ι)) :
    (Transition.outputs (fields.perform writable) word accesses).1 =
        (Transition.outputs fields.performVariables (fields.values word) accesses).1 ∧
      fields.values (Transition.outputs (fields.perform writable) word accesses).2 =
        (Transition.outputs fields.performVariables (fields.values word) accesses).2 ∧
      fields.SameOutside word (Transition.outputs (fields.perform writable) word accesses).2 := by
  have simulates : ∀ ⦃word' : BitVec xlen⦄ ⦃held : ι → BitVec xlen⦄,
      (fields.values word' = held ∧ fields.SameOutside word word') → ∀ access,
        (fields.perform writable word' access).1 = (fields.performVariables held access).1 ∧
          (fields.values (fields.perform writable word' access).2 =
              (fields.performVariables held access).2 ∧
            fields.SameOutside word (fields.perform writable word' access).2) := by
    rintro word' held ⟨rfl, outside⟩ access
    rcases perform_simulates large implemented word' access with ⟨returned, after, kept⟩
    constructor
    · exact returned
    · constructor
      · exact after
      · intro bit none
        rw [kept bit none, outside bit none]
  exact Transition.outputs_simulation simulates ⟨rfl, fun _ _ => rfl⟩ accesses

/-- The loop of the examples on 32 bits, with `mpp` written in between. -/
def mstatusAccesses : List (FieldAccess 32 MstatusField) :=
  [.clr .mie, .write .mpp 7, .set .mie, .readWrite .mpp 0, .read .mie]

theorem fields_independent_mstatus :
    (Transition.outputs ((mstatus (Nat.le_refl 32)).perform (BitVec.allOnes 32)) 0x1808
        mstatusAccesses).1 = [none, none, none, some 3, some 1] ∧
      (mstatus (Nat.le_refl 32)).SameOutside 0x1808
        (Transition.outputs ((mstatus (Nat.le_refl 32)).perform (BitVec.allOnes 32)) 0x1808
          mstatusAccesses).2 := by
  have independent := fields_independent (by decide)
    ((mstatus (Nat.le_refl 32)).implemented_allOnes) 0x1808 mstatusAccesses
  constructor
  · exact independent.1
  · exact independent.2.2

end CsrFields

end BaremetalCoro
