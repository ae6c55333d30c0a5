import Mathlib.Algebra.GroupWithZero.Nat

/-!
# Loops over words of memory

Memory is a function from addresses to bytes.  Filling and copying a range are
loops that move a pointer on by one word at a time until it equals the end of
the range.  When the end is a whole number of words away, they do to the bytes
of the range at once what they do to its words one by one.
-/

namespace BaremetalCoro.Memory

universe u

variable {β : Type u}

/-- Replace a word of `width` bytes. -/
def store (width : Nat) (mem : Nat → β) (addr : Nat) (word : Nat → β) : Nat → β :=
  fun a => if addr ≤ a ∧ a < addr + width then word (a - addr) else mem a

/-- The bytes of a word. -/
def load (mem : Nat → β) (addr : Nat) : Nat → β :=
  fun offset => mem (addr + offset)

/-- `for (; first != last; ++first) *first = word;` -/
def fill (width : Nat) (word : Nat → β) : Nat → (Nat → β) → Nat → Nat → Option (Nat → β)
  | 0, _, _, _ => none
  | fuel + 1, mem, first, last =>
      if first = last then some mem
      else fill width word fuel (store width mem first word) (first + width) last

/-- `for (; first != last; ++first, ++result) *result = *first;` -/
def copy (width : Nat) : Nat → (Nat → β) → Nat → Nat → Nat → Option (Nat → β)
  | 0, _, _, _, _ => none
  | fuel + 1, mem, first, last, result =>
      if first = last then some mem
      else copy width fuel (store width mem result (load mem first)) (first + width) last
        (result + width)

/-- Memory with a range of bytes replaced. -/
def replaced (mem : Nat → β) (start size : Nat) (bytes : Nat → β) : Nat → β :=
  fun a => if start ≤ a ∧ a < start + size then bytes (a - start) else mem a

theorem replaced_inside (mem : Nat → β) (start size : Nat) (bytes : Nat → β) {offset : Nat}
    (inside : offset < size) : replaced mem start size bytes (start + offset) = bytes offset := by
  have bounds : start ≤ start + offset ∧ start + offset < start + size := by omega
  rw [replaced, if_pos bounds, Nat.add_sub_cancel_left]

theorem replaced_outside (mem : Nat → β) {start size a : Nat} (bytes : Nat → β)
    (outside : a < start ∨ start + size ≤ a) : replaced mem start size bytes a = mem a := by
  have bounds : ¬ (start ≤ a ∧ a < start + size) := by omega
  rw [replaced, if_neg bounds]

/-! ## Filling -/

/-- A range of whole words is filled. -/
theorem fill_words {width : Nat} (positive : 0 < width) (word : Nat → β) {fuel count : Nat}
    (enough : count < fuel) (mem : Nat → β) (first : Nat) :
    fill width word fuel mem first (first + count * width) =
      some (replaced mem first (count * width) fun offset => word (offset % width)) := by
  induction count generalizing fuel mem first with
  | zero =>
      cases fuel with
      | zero => contradiction
      | succ fuel =>
          rw [Nat.zero_mul, fill, if_pos (Nat.add_zero first).symm]
          congr 1
          funext a
          rw [replaced_outside]
          omega
  | succ count ih =>
      cases fuel with
      | zero => contradiction
      | succ fuel =>
          have size : (count + 1) * width = width + count * width := by
            rw [Nat.succ_mul, Nat.add_comm]
          have notLast : first ≠ first + (count + 1) * width := by omega
          have last : first + (count + 1) * width = first + width + count * width := by omega
          rw [fill, if_neg notLast, last, ih (Nat.lt_of_succ_lt_succ enough), size]
          congr 1
          funext a
          simp only [replaced, store]
          split
          · rename_i later
            have bounds : first ≤ a ∧ a < first + (width + count * width) := by omega
            have offset : a - first = a - (first + width) + width := by omega
            rw [if_pos bounds, offset, Nat.add_mod_right]
          · rename_i notLater
            by_cases now : first ≤ a ∧ a < first + width
            · have bounds : first ≤ a ∧ a < first + (width + count * width) := by omega
              have small : a - first < width := by omega
              rw [if_pos now, if_pos bounds, Nat.mod_eq_of_lt small]
            · have bounds : ¬ (first ≤ a ∧ a < first + (width + count * width)) := by omega
              rw [if_neg now, if_neg bounds]

/-! ## Copying -/

/-- A range of whole words is copied to a range apart from it. -/
theorem copy_words (width : Nat) {fuel count : Nat} (positive : 0 < width) (enough : count < fuel)
    (mem : Nat → β) {first result : Nat}
    (apart : first + count * width ≤ result ∨ result + count * width ≤ first) :
    copy width fuel mem first (first + count * width) result =
      some (replaced mem result (count * width) (load mem first)) := by
  induction count generalizing fuel mem first result with
  | zero =>
      cases fuel with
      | zero => contradiction
      | succ fuel =>
          rw [Nat.zero_mul, copy, if_pos (Nat.add_zero first).symm]
          congr 1
          funext a
          rw [replaced_outside]
          omega
  | succ count ih =>
      cases fuel with
      | zero => contradiction
      | succ fuel =>
          have size : (count + 1) * width = width + count * width := by
            rw [Nat.succ_mul, Nat.add_comm]
          rw [size] at apart
          have notLast : first ≠ first + (count + 1) * width := by omega
          have last : first + (count + 1) * width = first + width + count * width := by omega
          have apart' : first + width + count * width ≤ result + width ∨
              result + width + count * width ≤ first + width := by omega
          rw [copy, if_neg notLast, last, ih (Nat.lt_of_succ_lt_succ enough) _ apart', size]
          congr 1
          funext a
          simp only [replaced, store, load]
          split
          · rename_i later
            have bounds : result ≤ a ∧ a < result + (width + count * width) := by omega
            have source : first + width + (a - (result + width)) = first + (a - result) := by omega
            have unread : ¬ (result ≤ first + (a - result) ∧
                first + (a - result) < result + width) := by omega
            rw [if_pos bounds, source, if_neg unread]
          · rename_i notLater
            by_cases now : result ≤ a ∧ a < result + width
            · have bounds : result ≤ a ∧ a < result + (width + count * width) := by omega
              rw [if_pos now, if_pos bounds]
            · have bounds : ¬ (result ≤ a ∧ a < result + (width + count * width)) := by omega
              rw [if_neg now, if_neg bounds]

end BaremetalCoro.Memory
