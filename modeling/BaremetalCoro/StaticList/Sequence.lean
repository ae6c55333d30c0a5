import BaremetalCoro.Transition.Core

/-!
# Bounded sequences

What a list with fixed storage is for: a sequence of at most `N` elements,
changed at positions instead of through pointers.  An insertion into a full
sequence is ignored.
-/

namespace BaremetalCoro

universe u

/-- A sequence of at most `N` elements. -/
structure BoundedSeq (T : Type u) (N : Nat) where
  elements : List T
  bounded : elements.length ≤ N

namespace BoundedSeq

variable {T : Type u} {N : Nat}

/-- The operations on a sequence, by position. -/
inductive Op (T : Type u) where
  | insert (position : Nat) (element : T)
  | remove (position : Nat)
  | removeFirst
  | removeLast

/-- The sequence without elements. -/
def nil : BoundedSeq T N := ⟨[], Nat.zero_le N⟩

/-- The elements after an operation.  Inserting at position `k` puts the new
element in front of the `k`-th one, or at the back when there is none. -/
def Op.effect (N : Nat) : Op T → List T → List T
  | .insert position element, elements =>
      if elements.length < N then
        elements.take position ++ element :: elements.drop position
      else
        elements
  | .remove position, elements => elements.take position ++ elements.drop (position + 1)
  | .removeFirst, elements => elements.tail
  | .removeLast, elements => elements.dropLast

theorem Op.effect_bounded (op : Op T) {elements : List T} (bounded : elements.length ≤ N) :
    (op.effect N elements).length ≤ N := by
  cases op with
  | insert position element =>
      simp only [effect]
      split
      · simp only [List.length_append, List.length_take, List.length_cons, List.length_drop]
        omega
      · exact bounded
  | remove position =>
      simp only [effect, List.length_append, List.length_take, List.length_drop]
      omega
  | removeFirst =>
      simp only [effect, List.length_tail]
      omega
  | removeLast =>
      simp only [effect, List.length_dropLast]
      omega

/-- Execute one operation; a bounded sequence accepts every operation. -/
def step : Transition.Step (BoundedSeq T N) (Op T) := fun sequence op =>
  some ⟨op.effect N sequence.elements, op.effect_bounded sequence.bounded⟩

end BoundedSeq

end BaremetalCoro
