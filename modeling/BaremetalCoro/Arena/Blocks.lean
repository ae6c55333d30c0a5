import Mathlib.Algebra.BigOperators.Group.List.Basic
import Mathlib.Algebra.GroupWithZero.Nat
import Mathlib.Order.CompletePartialOrder
import Mathlib.Order.Interval.Set.Disjoint

/-!
# Blocks laid out one after another

An arena that never takes a block back hands out blocks in address order, each
starting where the one before it ends.  Such a layout is determined by its two
ends and the sizes; that its blocks are disjoint and lie between the ends are
facts about the layout alone.
-/

namespace BaremetalCoro.Arena

/-- A block of an arena. -/
structure Block where
  start : Nat
  size : Nat
  deriving DecidableEq

/-- The addresses of a block. -/
def Block.bytes (block : Block) : Set Nat := Set.Ico block.start (block.start + block.size)

/-- The blocks fill the arena from `low` to `high` without a gap. -/
def Tiled : Nat → List Block → Nat → Prop
  | low, [], high => low = high
  | low, block :: rest, high => block.start = low ∧ Tiled (low + block.size) rest high

/-- The sizes of the blocks add up to the distance of the ends. -/
theorem Tiled.high_eq {low high : Nat} {blocks : List Block} (tiled : Tiled low blocks high) :
    high = low + (blocks.map Block.size).sum := by
  induction blocks generalizing low with
  | nil =>
      rw [List.map_nil, List.sum_nil]
      exact tiled.symm
  | cons block rest ih =>
      rw [ih tiled.2, List.map_cons, List.sum_cons, Nat.add_assoc]

/-- Every block lies between the ends. -/
theorem Tiled.bounds {low high : Nat} {blocks : List Block} (tiled : Tiled low blocks high)
    {block : Block} (member : block ∈ blocks) :
    low ≤ block.start ∧ block.start + block.size ≤ high := by
  induction blocks generalizing low with
  | nil => contradiction
  | cons first rest ih =>
      obtain ⟨rfl, tiledRest⟩ := tiled
      rcases List.mem_cons.mp member with rfl | later
      · rw [tiledRest.high_eq]
        exact ⟨Nat.le_refl _, Nat.le_add_right _ _⟩
      · obtain ⟨above, below⟩ := ih tiledRest later
        exact ⟨Nat.le_trans (Nat.le_add_right _ _) above, below⟩

/-- No two blocks share an address. -/
theorem Tiled.pairwise_disjoint {low high : Nat} {blocks : List Block}
    (tiled : Tiled low blocks high) :
    blocks.Pairwise fun block other => Disjoint block.bytes other.bytes := by
  induction blocks generalizing low with
  | nil => exact List.Pairwise.nil
  | cons first rest ih =>
      obtain ⟨rfl, tiledRest⟩ := tiled
      apply List.Pairwise.cons _ (ih tiledRest)
      intro other later
      have above := (tiledRest.bounds later).1
      rw [Block.bytes, Block.bytes, Set.Ico_disjoint_Ico]
      exact Nat.le_trans (Nat.min_le_left _ _) (Nat.le_trans above (Nat.le_max_right _ _))

end BaremetalCoro.Arena
