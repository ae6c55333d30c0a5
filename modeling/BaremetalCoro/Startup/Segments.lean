import BaremetalCoro.Memory.Loops

/-!
# The memory at the start of the program

Before `main` runs, `_start` clears `.bss` and copies `.data` and `.itim` from
where they were loaded, word by word.  The linker script gives it the ends of
the sections as byte addresses, which the code takes for pointers to words.
Where a section does not begin and end at words its range is undefined, and what
becomes of it depends on how the loops are compiled; nothing is said of that
here.

Addresses are numbers of bytes; the sections end below the end of the address
space.
-/

namespace BaremetalCoro

open Memory

/-- The symbols of the linker script. -/
structure Segments where
  bssTargetStart : Nat
  bssTargetEnd : Nat
  dataSourceStart : Nat
  dataTargetStart : Nat
  dataTargetEnd : Nat
  itimSourceStart : Nat
  itimTargetStart : Nat
  itimTargetEnd : Nat

namespace Segments

/-- A pointer to a word of `width` bytes. -/
def wordAt (width addr : Nat) : Option Nat :=
  if width ∣ addr then some addr else none

/-- The number of words in a range, as far as it is a range of words. -/
def rangeWords (width first last : Nat) : Option Nat := do
  let first ← wordAt width first
  let last ← wordAt width last
  if first ≤ last then some ((last - first) / width) else none

/-- `std::fill` of a section with zeros. -/
def clearSection (width fuel : Nat) (mem : Nat → BitVec 8) (targetStart targetEnd : Nat) :
    Option (Nat → BitVec 8) := do
  let words ← rangeWords width targetStart targetEnd
  fill width (fun _ => 0) fuel mem targetStart (targetStart + words * width)

/-- `std::copy` of a section from where it was loaded. -/
def copySection (width fuel : Nat) (mem : Nat → BitVec 8)
    (sourceStart targetStart targetEnd : Nat) : Option (Nat → BitVec 8) := do
  let words ← rangeWords width targetStart targetEnd
  let source ← wordAt width sourceStart
  copy width fuel mem source (source + words * width) targetStart

/-- The part of `_start` before the constructors. -/
def initMemory (width : Nat) (segments : Segments) (fuel : Nat) (mem : Nat → BitVec 8) :
    Option (Nat → BitVec 8) := do
  -- Clear the .bss section (global variables with no initial values)
  let mem ← clearSection width fuel mem segments.bssTargetStart segments.bssTargetEnd
  -- Initialize the .data section (global variables with initial values)
  let mem ← copySection width fuel mem segments.dataSourceStart segments.dataTargetStart
    segments.dataTargetEnd
  -- Initialize the .itim section (code moved from flash to SRAM to improve performance)
  copySection width fuel mem segments.itimSourceStart segments.itimTargetStart
    segments.itimTargetEnd

def bssSize (segments : Segments) : Nat :=
  segments.bssTargetEnd - segments.bssTargetStart

def dataSize (segments : Segments) : Nat :=
  segments.dataTargetEnd - segments.dataTargetStart

def itimSize (segments : Segments) : Nat :=
  segments.itimTargetEnd - segments.itimTargetStart

/-- Two ranges of bytes, given by start and size, have no byte in common. -/
def RangesApart (start size start' size' : Nat) : Prop :=
  start + size ≤ start' ∨ start' + size' ≤ start

/-- The linker has put the sections into memory one apart from the other, and
apart from where they are loaded. -/
structure Placed (segments : Segments) : Prop where
  bssOrdered : segments.bssTargetStart ≤ segments.bssTargetEnd
  dataOrdered : segments.dataTargetStart ≤ segments.dataTargetEnd
  itimOrdered : segments.itimTargetStart ≤ segments.itimTargetEnd
  bssData : RangesApart segments.bssTargetStart segments.bssSize
    segments.dataTargetStart segments.dataSize
  bssItim : RangesApart segments.bssTargetStart segments.bssSize
    segments.itimTargetStart segments.itimSize
  dataItim : RangesApart segments.dataTargetStart segments.dataSize
    segments.itimTargetStart segments.itimSize
  bssDataSource : RangesApart segments.bssTargetStart segments.bssSize
    segments.dataSourceStart segments.dataSize
  bssItimSource : RangesApart segments.bssTargetStart segments.bssSize
    segments.itimSourceStart segments.itimSize
  dataSource : RangesApart segments.dataSourceStart segments.dataSize
    segments.dataTargetStart segments.dataSize
  dataItimSource : RangesApart segments.dataTargetStart segments.dataSize
    segments.itimSourceStart segments.itimSize
  itimSource : RangesApart segments.itimSourceStart segments.itimSize
    segments.itimTargetStart segments.itimSize

/-- All sections begin and end at words, where they are loaded and where they
belong. -/
structure Aligned (width : Nat) (segments : Segments) : Prop where
  bssTargetStart : width ∣ segments.bssTargetStart
  bssTargetEnd : width ∣ segments.bssTargetEnd
  dataSourceStart : width ∣ segments.dataSourceStart
  dataTargetStart : width ∣ segments.dataTargetStart
  dataTargetEnd : width ∣ segments.dataTargetEnd
  itimSourceStart : width ∣ segments.itimSourceStart
  itimTargetStart : width ∣ segments.itimTargetStart
  itimTargetEnd : width ∣ segments.itimTargetEnd

variable {width : Nat}

theorem rangeWords_eq {first last : Nat} (firstAligned : width ∣ first)
    (lastAligned : width ∣ last) (ordered : first ≤ last) :
    rangeWords width first last = some ((last - first) / width) := by
  simp only [rangeWords, wordAt, if_pos firstAligned, if_pos lastAligned, bind, Option.bind_some,
    if_pos ordered]

theorem clearSection_eq (positive : 0 < width) {fuel : Nat} (mem : Nat → BitVec 8)
    {targetStart targetEnd : Nat} (startAligned : width ∣ targetStart)
    (endAligned : width ∣ targetEnd) (ordered : targetStart ≤ targetEnd)
    (enough : (targetEnd - targetStart) / width < fuel) :
    clearSection width fuel mem targetStart targetEnd =
      some (replaced mem targetStart (targetEnd - targetStart) fun _ => 0) := by
  have size : (targetEnd - targetStart) / width * width = targetEnd - targetStart :=
    Nat.div_mul_cancel (Nat.dvd_sub endAligned startAligned)
  rw [clearSection, rangeWords_eq startAligned endAligned ordered, Option.bind_eq_bind,
    Option.bind_some, fill_words positive _ enough, size]

theorem copySection_eq (positive : 0 < width) {fuel : Nat} (mem : Nat → BitVec 8)
    {sourceStart targetStart targetEnd : Nat} (sourceAligned : width ∣ sourceStart)
    (startAligned : width ∣ targetStart) (endAligned : width ∣ targetEnd)
    (ordered : targetStart ≤ targetEnd) (enough : (targetEnd - targetStart) / width < fuel)
    (apart : RangesApart sourceStart (targetEnd - targetStart) targetStart
      (targetEnd - targetStart)) :
    copySection width fuel mem sourceStart targetStart targetEnd =
      some (replaced mem targetStart (targetEnd - targetStart) (load mem sourceStart)) := by
  have size : (targetEnd - targetStart) / width * width = targetEnd - targetStart :=
    Nat.div_mul_cancel (Nat.dvd_sub endAligned startAligned)
  have apart' : sourceStart + (targetEnd - targetStart) / width * width ≤ targetStart ∨
      targetStart + (targetEnd - targetStart) / width * width ≤ sourceStart := by
    rw [size]
    exact apart
  rw [copySection, rangeWords_eq startAligned endAligned ordered, wordAt, if_pos sourceAligned,
    Option.bind_eq_bind, Option.bind_some, Option.bind_some,
    copy_words width positive enough mem apart', size]

/-- The memory once `_start` has initialised it. -/
def initialised (segments : Segments) (mem : Nat → BitVec 8) : Nat → BitVec 8 :=
  let mem := replaced mem segments.bssTargetStart segments.bssSize fun _ => 0
  let mem := replaced mem segments.dataTargetStart segments.dataSize
    (load mem segments.dataSourceStart)
  replaced mem segments.itimTargetStart segments.itimSize (load mem segments.itimSourceStart)

/-- The fuel that is enough for all three loops. -/
def words (width : Nat) (segments : Segments) : Nat :=
  segments.bssSize / width + segments.dataSize / width + segments.itimSize / width

theorem initMemory_eq (positive : 0 < width) {segments : Segments} (placed : segments.Placed)
    (aligned : segments.Aligned width) {fuel : Nat} (enough : segments.words width < fuel)
    (mem : Nat → BitVec 8) :
    initMemory width segments fuel mem = some (segments.initialised mem) := by
  have enoughBss : segments.bssSize / width < fuel :=
    Nat.lt_of_le_of_lt (Nat.le_trans (Nat.le_add_right _ _) (Nat.le_add_right _ _)) enough
  have enoughData : segments.dataSize / width < fuel :=
    Nat.lt_of_le_of_lt (Nat.le_trans (Nat.le_add_left _ _) (Nat.le_add_right _ _)) enough
  have enoughItim : segments.itimSize / width < fuel :=
    Nat.lt_of_le_of_lt (Nat.le_add_left _ _) enough
  rw [initMemory,
    clearSection_eq positive mem aligned.bssTargetStart aligned.bssTargetEnd placed.bssOrdered
      enoughBss, Option.bind_eq_bind, Option.bind_some,
    copySection_eq positive _ aligned.dataSourceStart aligned.dataTargetStart
      aligned.dataTargetEnd placed.dataOrdered enoughData placed.dataSource, Option.bind_some]
  exact copySection_eq positive _ aligned.itimSourceStart aligned.itimTargetStart
    aligned.itimTargetEnd placed.itimOrdered enoughItim placed.itimSource

/-! ## What the program finds -/

variable {segments : Segments}

theorem initialised_bss (placed : segments.Placed) (mem : Nat → BitVec 8) {offset : Nat}
    (inside : offset < segments.bssSize) :
    segments.initialised mem (segments.bssTargetStart + offset) = 0 := by
  have bssData := placed.bssData
  have bssItim := placed.bssItim
  unfold RangesApart at bssData bssItim
  rw [initialised, replaced_outside _ _ (by omega), replaced_outside _ _ (by omega),
    replaced_inside _ _ _ _ inside]

theorem initialised_data (placed : segments.Placed) (mem : Nat → BitVec 8) {offset : Nat}
    (inside : offset < segments.dataSize) :
    segments.initialised mem (segments.dataTargetStart + offset) =
      mem (segments.dataSourceStart + offset) := by
  have dataItim := placed.dataItim
  have bssDataSource := placed.bssDataSource
  unfold RangesApart at dataItim bssDataSource
  rw [initialised, replaced_outside _ _ (by omega), replaced_inside _ _ _ _ inside, load,
    replaced_outside _ _ (by omega)]

theorem initialised_itim (placed : segments.Placed) (mem : Nat → BitVec 8) {offset : Nat}
    (inside : offset < segments.itimSize) :
    segments.initialised mem (segments.itimTargetStart + offset) =
      mem (segments.itimSourceStart + offset) := by
  have bssItimSource := placed.bssItimSource
  have dataItimSource := placed.dataItimSource
  unfold RangesApart at bssItimSource dataItimSource
  rw [initialised, replaced_inside _ _ _ _ inside, load, replaced_outside _ _ (by omega),
    replaced_outside _ _ (by omega)]

/-- The byte belongs to none of the sections that `_start` initialises. -/
def Outside (segments : Segments) (a : Nat) : Prop :=
  (a < segments.bssTargetStart ∨ segments.bssTargetStart + segments.bssSize ≤ a) ∧
    (a < segments.dataTargetStart ∨ segments.dataTargetStart + segments.dataSize ≤ a) ∧
    (a < segments.itimTargetStart ∨ segments.itimTargetStart + segments.itimSize ≤ a)

theorem initialised_outside (mem : Nat → BitVec 8) {a : Nat} (outside : segments.Outside a) :
    segments.initialised mem a = mem a := by
  rcases outside with ⟨bss, data, itim⟩
  rw [initialised, replaced_outside _ _ itim, replaced_outside _ _ data,
    replaced_outside _ _ bss]

/-- When all sections begin and end at words, `_start` reaches the constructors.
Then `.bss` is zero, `.data` and `.itim` are as they were loaded, and nothing
outside of the three sections has changed. -/
theorem start_initialises (positive : 0 < width) (placed : segments.Placed)
    (aligned : segments.Aligned width) (mem : Nat → BitVec 8) :
    ∃ after,
      (∀ fuel, segments.words width < fuel → initMemory width segments fuel mem = some after) ∧
      (∀ offset < segments.bssSize, after (segments.bssTargetStart + offset) = 0) ∧
      (∀ offset < segments.dataSize, after (segments.dataTargetStart + offset) =
        mem (segments.dataSourceStart + offset)) ∧
      (∀ offset < segments.itimSize, after (segments.itimTargetStart + offset) =
        mem (segments.itimSourceStart + offset)) ∧
      ∀ a, segments.Outside a → after a = mem a := by
  refine ⟨segments.initialised mem, ?_, ?_, ?_, ?_, ?_⟩
  · intro fuel enough
    exact initMemory_eq positive placed aligned enough mem
  · intro offset inside
    exact initialised_bss placed mem inside
  · intro offset inside
    exact initialised_data placed mem inside
  · intro offset inside
    exact initialised_itim placed mem inside
  · intro a outside
    exact initialised_outside mem outside

/-- Words of four bytes; `.data` and `.itim` are loaded below where they
belong. -/
def smallSegments : Segments :=
  ⟨24, 32, 0, 16, 24, 8, 32, 36⟩

theorem smallSegments_placed : smallSegments.Placed := by
  constructor <;> simp only [smallSegments, RangesApart, bssSize, dataSize, itimSize] <;> omega

theorem start_initialises_smallSegments :
    ∃ after, initMemory 4 smallSegments 6 (fun a => BitVec.ofNat 8 a) = some after ∧
      after 31 = 0 ∧ after 23 = 7 ∧ after 32 = 8 ∧ after 36 = 36 := by
  have aligned : smallSegments.Aligned 4 := by
    constructor <;> decide
  rcases start_initialises (by decide) smallSegments_placed aligned
    (fun a => BitVec.ofNat 8 a) with ⟨after, returns, bss, data, itim, others⟩
  have outside : smallSegments.Outside 36 := by
    simp [Outside, smallSegments, bssSize, dataSize, itimSize]
  exact ⟨after, returns 6 (by decide), bss 7 (by decide), data 7 (by decide),
    itim 0 (by decide), others 36 outside⟩

end Segments

end BaremetalCoro
