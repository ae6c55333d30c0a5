import BaremetalCoro.Csr.Fields

/-!
# Field accesses under interrupts

`set` and `clr` of a field are single instructions.  `write` and `read_write`
read the register in one instruction and write it in another, and a handler
that runs between the two may access the same register.  The write then puts
back what was read, so of the handler's work only what it did to that very
field can be put in order with the write: it is overwritten, as if the handler
had run first.  Anything else it did to the register is lost.
-/

namespace BaremetalCoro

open Words

variable {xlen : Nat} {ι : Type}

/-- An access, with what handlers do right before it and between its
instructions. -/
structure PreemptedAccess (xlen : Nat) (ι : Type) where
  before : List (FieldAccess xlen ι)
  access : FieldAccess xlen ι
  inside : List (FieldAccess xlen ι)

/-- The field of an access that takes two instructions. -/
def FieldAccess.splits : FieldAccess xlen ι → Option (ι × BitVec xlen)
  | .read _ | .set _ | .clr _ => none
  | .write i value | .readWrite i value => some (i, value)

/-- The handlers that run with the access, and the access, in an order without
preemption. -/
def PreemptedAccess.serial (preempted : PreemptedAccess xlen ι) : List (FieldAccess xlen ι) :=
  match preempted.access.splits with
  | none => preempted.before ++ [preempted.access]
  | some _ => preempted.before ++ preempted.inside ++ [preempted.access]

namespace CsrFields

variable (fields : CsrFields xlen ι) (writable : BitVec xlen)

/-- The register after some accesses. -/
def after (word : BitVec xlen) (accesses : List (FieldAccess xlen ι)) : BitVec xlen :=
  (Transition.outputs (fields.perform writable) word accesses).2

/-- The register after an access that handlers preempt. -/
def afterPreempted (word : BitVec xlen) (preempted : PreemptedAccess xlen ι) : BitVec xlen :=
  let word := fields.after writable word preempted.before
  match preempted.access.splits with
  | none => (fields.perform writable word preempted.access).2
  | some (i, value) =>
      let orgValue := CsrOps.read word
      let word := fields.after writable word preempted.inside
      CsrOps.write writable word ((fields.field i).newValue orgValue value)

/-- The words differ at most in the given field. -/
def SameBut (i : ι) (word word' : BitVec xlen) : Prop :=
  ∀ bit, ¬ (fields.field i).bits.Covers bit → word'.getLsbD bit = word.getLsbD bit

/-- Handlers that run inside of an access change at most its own field. -/
def Harmless (word : BitVec xlen) (preempted : PreemptedAccess xlen ι) : Prop :=
  let word := fields.after writable word preempted.before
  match preempted.access.splits with
  | none => True
  | some (i, _) => fields.SameBut i word (fields.after writable word preempted.inside)

variable {fields} {writable}

theorem after_append (word : BitVec xlen) (first second : List (FieldAccess xlen ι)) :
    fields.after writable word (first ++ second) =
      fields.after writable (fields.after writable word first) second := by
  induction first generalizing word with
  | nil => rfl
  | cons access rest ih => exact ih (fields.perform writable word access).2

/-- An access leaves the register as it is, or writes a value into a field that
depends on the access alone. -/
theorem perform_effect (large : 5 ≤ xlen) (writable : BitVec xlen)
    (access : FieldAccess xlen ι) :
    (∀ word, (fields.perform writable word access).2 = word) ∨
      ∃ i value, ∀ word,
        (fields.perform writable word access).2 = (fields.field i).write writable word value := by
  cases access with
  | read i => exact Or.inl fun _ => rfl
  | set i => exact Or.inr ⟨i, _, fun word => CsrField.set_eq_write large _ writable word⟩
  | clr i => exact Or.inr ⟨i, _, fun word => CsrField.clr_eq_write large _ writable word⟩
  | write i value => exact Or.inr ⟨i, value, fun _ => rfl⟩
  | readWrite i value => exact Or.inr ⟨i, value, fun _ => rfl⟩

/-- Bits that the hart does not implement are kept. -/
theorem after_unimplemented (large : 5 ≤ xlen) (accesses : List (FieldAccess xlen ι))
    (word : BitVec xlen) {bit : Nat} (unimplemented : ¬ writable.getLsbD bit = true) :
    (fields.after writable word accesses).getLsbD bit = word.getLsbD bit := by
  induction accesses generalizing word with
  | nil => rfl
  | cons access rest ih =>
      change (fields.after writable (fields.perform writable word access).2 rest).getLsbD bit = _
      rw [ih]
      rcases perform_effect large writable access with same | ⟨i, value, replaces⟩
      · rw [same]
      · rw [replaces, CsrField.getLsbD_write, if_neg fun both => unimplemented both.1]

/-- A preempted write puts back what was read, with the field replaced. -/
theorem write_preempted (large : 5 ≤ xlen) (word : BitVec xlen)
    (inside : List (FieldAccess xlen ι)) (i : ι) (value : BitVec xlen) :
    CsrOps.write writable (fields.after writable word inside)
        ((fields.field i).newValue (CsrOps.read word) value) =
      (fields.field i).write writable word value := by
  apply BitVec.eq_of_getLsbD_eq
  intro bit _
  rw [FieldParams.write, CsrOps.write, CsrOps.write, getLsbD_csrrw, getLsbD_csrrw]
  by_cases stored : writable.getLsbD bit = true
  · rw [if_pos stored, if_pos stored]
  · rw [if_neg stored, if_neg stored, after_unimplemented large inside word stored]

/-- After the write, the register does not tell what the handler did to the
field. -/
theorem write_eq_write_iff {word word' : BitVec xlen}
    (kept : ∀ bit, ¬ writable.getLsbD bit = true → word'.getLsbD bit = word.getLsbD bit)
    (i : ι) (value : BitVec xlen) :
    (fields.field i).write writable word' value = (fields.field i).write writable word value ↔
      fields.SameBut i word word' := by
  constructor
  · intro same bit outside
    have bits := congrArg (fun result => result.getLsbD bit) same
    simp only [CsrField.getLsbD_write, if_neg fun both => outside (And.right both)] at bits
    exact bits
  · intro same
    apply BitVec.eq_of_getLsbD_eq
    intro bit _
    rw [CsrField.getLsbD_write, CsrField.getLsbD_write]
    by_cases stored : writable.getLsbD bit = true ∧ (fields.field i).bits.Covers bit
    · rw [if_pos stored, if_pos stored]
    · rw [if_neg stored, if_neg stored]
      by_cases implemented : writable.getLsbD bit = true
      · exact same bit fun covers => stored ⟨implemented, covers⟩
      · exact kept bit implemented

/-- A harmless access is done as in the serial order. -/
theorem Harmless.serial (large : 5 ≤ xlen) {word : BitVec xlen}
    {preempted : PreemptedAccess xlen ι}
    (harmless : fields.Harmless writable word preempted) :
    fields.afterPreempted writable word preempted =
      fields.after writable word preempted.serial := by
  rw [Harmless] at harmless
  rw [afterPreempted, PreemptedAccess.serial]
  cases hsplits : preempted.access.splits with
  | none => rw [after_append]; rfl
  | some split =>
      rcases split with ⟨i, value⟩
      rw [hsplits] at harmless
      have written : ∀ before, (fields.perform writable before preempted.access).2 =
          (fields.field i).write writable before value := by
        intro before
        cases haccess : preempted.access with
        | write j value' =>
            rw [haccess] at hsplits
            cases hsplits
            rfl
        | readWrite j value' =>
            rw [haccess] at hsplits
            cases hsplits
            rfl
        | _ =>
            rw [haccess] at hsplits
            contradiction
      change CsrOps.write writable _ _ = _
      rw [write_preempted large, after_append, after_append]
      change _ = (fields.perform writable _ preempted.access).2
      rw [written]
      refine ((write_eq_write_iff ?_ i value).mpr harmless).symm
      intro bit unimplemented
      exact after_unimplemented large preempted.inside _ unimplemented

end CsrFields

end BaremetalCoro
