import Mathlib.Algebra.Group.Fin.Basic
import Mathlib.Algebra.GroupWithZero.Nat

/-!
# Rings that keep the recent part of a log

A ring has a fixed number of slots and an index that moves on by one slot for
each new record, over the oldest one.  Read backwards from the index it is the
recent part of a log that grows without bound, latest record first.  Slots the
log does not reach hold a blank.
-/

namespace BaremetalCoro.Circular

universe u

variable {α : Type u} {N : Nat} [NeZero N]

/-- The slot of the record with the given age. -/
def behind (index : Fin N) (age : Nat) : Fin N :=
  index - Fin.ofNat N age

@[simp]
theorem behind_zero (index : Fin N) : behind index 0 = index :=
  sub_zero index

/-- A record ages by one when the index moves on. -/
theorem behind_succ (index : Fin N) (age : Nat) :
    behind (index + 1) (age + 1) = behind index age := by
  have ages : Fin.ofNat N (age + 1) = Fin.ofNat N age + 1 := by
    apply Fin.ext
    simp [Fin.val_add, Nat.add_mod]
  rw [behind, behind, ages, add_sub_add_right_eq_sub]

/-- Records of different ages have slots of their own. -/
theorem behind_ne {index : Fin N} {age : Nat} (older : 0 < age) (kept : age < N) :
    behind index age ≠ index := by
  intro same
  have zero : Fin.ofNat N age = 0 := sub_eq_self.mp same
  have value : age % N = 0 := congrArg Fin.val zero
  rw [Nat.mod_eq_of_lt kept] at value
  exact absurd value older.ne'

/-- The records are the recent part of the log. -/
def Recent (blank : α) (records : Fin N → α) (index : Fin N) (log : List α) : Prop :=
  ∀ age < N, records (behind index age) = log.getD age blank

theorem recent_blank (blank : α) (index : Fin N) :
    Recent blank (fun _ => blank) index [blank] := by
  intro age _
  cases age with
  | zero => rfl
  | succ age => rfl

variable {blank : α} {records : Fin N → α} {index : Fin N} {log : List α}

theorem Recent.latest {latest : α} (recent : Recent blank records index (latest :: log)) :
    records index = latest := by
  have first := recent 0 (Nat.pos_of_neZero N)
  rwa [behind_zero] at first

/-- The latest record is changed in place. -/
theorem Recent.modify {latest : α} (recent : Recent blank records index (latest :: log))
    (changed : α) :
    Recent blank (Function.update records index changed) index (changed :: log) := by
  intro age kept
  cases age with
  | zero =>
      rw [behind_zero, Function.update_self]
      rfl
  | succ age =>
      rw [Function.update_of_ne (behind_ne (Nat.succ_pos age) kept)]
      exact recent (age + 1) kept

/-- A new record takes the slot of the oldest one. -/
theorem Recent.push (recent : Recent blank records index log) (added : α) :
    Recent blank (Function.update records (index + 1) added) (index + 1) (added :: log) := by
  intro age kept
  cases age with
  | zero =>
      rw [behind_zero, Function.update_self]
      rfl
  | succ age =>
      rw [Function.update_of_ne (behind_ne (Nat.succ_pos age) kept), behind_succ]
      exact recent age (Nat.lt_of_succ_lt kept)

end BaremetalCoro.Circular
