import Mathlib.Data.List.Sort
import Mathlib.Data.List.TakeWhile

/-!
# Ordered insertion and ties

Entries of an arbitrary type are ordered by a key, and a new entry goes in
front of the first one it precedes.  Any test between the strict and the
reflexive order of the keys keeps the list sorted.  Which of the two it is
only decides ties: the strict test keeps entries with equal keys in the order
of their arrival stamps, and then the list is the stable sort of the arrivals;
the reflexive test puts a new entry in front of its equals.
-/

namespace BaremetalCoro.Order

universe u v

variable {ε : Type u} {κ : Type v} [LinearOrder κ]

/-- Entries are sorted by their keys. -/
def SortedBy (key : ε → κ) (entries : List ε) : Prop :=
  entries.Pairwise fun first second => key first ≤ key second

/-- The first entry has the smaller key, or the same key and the smaller
stamp. -/
def Before (key : ε → κ) (stamp : ε → Nat) (first second : ε) : Prop :=
  key first < key second ∨ key first = key second ∧ stamp first < stamp second

theorem Before.le {key : ε → κ} {stamp : ε → Nat} {first second : ε}
    (before : Before key stamp first second) : key first ≤ key second := by
  rcases before with less | ⟨equal, _⟩
  · exact less.le
  · exact equal.le

theorem Before.trans {key : ε → κ} {stamp : ε → Nat} {first second third : ε}
    (before : Before key stamp first second) (after : Before key stamp second third) :
    Before key stamp first third := by
  rcases before with less | ⟨equal, earlier⟩
  · exact Or.inl (less.trans_le after.le)
  · rcases after with less | ⟨equal', later⟩
    · exact Or.inl (equal ▸ less)
    · exact Or.inr ⟨equal.trans equal', earlier.trans later⟩

theorem Before.asymm {key : ε → κ} {stamp : ε → Nat} {first second : ε}
    (before : Before key stamp first second) : ¬ Before key stamp second first := by
  intro after
  rcases before.trans after with less | ⟨_, earlier⟩
  · exact lt_irrefl _ less
  · exact lt_irrefl _ earlier

/-! ## Stamped logs -/

theorem pairwise_concat {related : ε → ε → Prop} {log : List ε} {added : ε}
    (pairwise : log.Pairwise related) (last : ∀ entry ∈ log, related entry added) :
    (log ++ [added]).Pairwise related := by
  have single : ∀ entry ∈ log, ∀ other ∈ [added], related entry other := by
    intro entry member other isAdded
    rw [List.mem_singleton.mp isAdded]
    exact last entry member
  exact List.pairwise_append.mpr ⟨pairwise, List.pairwise_singleton _ _, single⟩

/-- A log whose entries carry increasing stamps below the next one. -/
structure Stamped (stamp : ε → Nat) (log : List ε) (next : Nat) : Prop where
  increasing : log.Pairwise fun first second => stamp first < stamp second
  below : ∀ entry ∈ log, stamp entry < next

theorem Stamped.nil (stamp : ε → Nat) (next : Nat) : Stamped stamp [] next := by
  constructor
  · exact List.Pairwise.nil
  · intro entry member
    contradiction

/-- A stamp may be skipped. -/
theorem Stamped.skip {stamp : ε → Nat} {log : List ε} {next : Nat}
    (stamped : Stamped stamp log next) : Stamped stamp log (next + 1) := by
  constructor
  · exact stamped.increasing
  · intro entry member
    exact (stamped.below entry member).trans (Nat.lt_succ_self next)

/-- An entry with the next stamp may be added. -/
theorem Stamped.append {stamp : ε → Nat} {log : List ε} {next : Nat}
    (stamped : Stamped stamp log next) {added : ε} (isNext : stamp added = next) :
    Stamped stamp (log ++ [added]) (next + 1) := by
  constructor
  · apply pairwise_concat stamped.increasing
    intro entry member
    rw [isNext]
    exact stamped.below entry member
  · intro entry member
    rcases List.mem_append.mp member with old | isAdded
    · exact stamped.skip.below entry old
    · rw [List.mem_singleton.mp isAdded, isNext]
      exact Nat.lt_succ_self next

theorem Stamped.nodup {stamp : ε → Nat} {log : List ε} {next : Nat}
    (stamped : Stamped stamp log next) : (log.map stamp).Nodup := by
  apply List.nodup_iff_pairwise_ne.mpr
  rw [List.pairwise_map]
  exact stamped.increasing.imp fun less => less.ne

section Insert

variable {precedes : ε → ε → Prop} [DecidableRel precedes]

/-- An insertion keeps every transitive relation that holds between the new
entry and the entries it precedes, and between the entries it does not precede
and the new one. -/
theorem pairwise_orderedInsert {related : ε → ε → Prop} {entries : List ε} {added : ε}
    (trans : ∀ {first second third}, related first second → related second third →
      related first third)
    (ahead : ∀ entry ∈ entries, precedes added entry → related added entry)
    (behind : ∀ entry ∈ entries, ¬ precedes added entry → related entry added)
    (pairwise : entries.Pairwise related) :
    (entries.orderedInsert precedes added).Pairwise related := by
  induction entries with
  | nil => simp
  | cons head rest ih =>
      obtain ⟨headRelated, restPairwise⟩ := List.pairwise_cons.mp pairwise
      rw [List.orderedInsert_cons]
      by_cases fits : precedes added head
      · rw [if_pos fits]
        have addedHead := ahead head List.mem_cons_self fits
        refine List.pairwise_cons.mpr ⟨?_, pairwise⟩
        intro entry member
        rcases List.mem_cons.mp member with rfl | inRest
        · exact addedHead
        · exact trans addedHead (headRelated entry inRest)
      · rw [if_neg fits]
        refine List.pairwise_cons.mpr ⟨?_, ?_⟩
        · intro entry member
          rcases (List.mem_orderedInsert precedes).mp member with rfl | inRest
          · exact behind head List.mem_cons_self fits
          · exact headRelated entry inRest
        · apply ih _ _ restPairwise
          · intro entry inRest
            exact ahead entry (List.mem_cons_of_mem head inRest)
          · intro entry inRest
            exact behind entry (List.mem_cons_of_mem head inRest)

/-- An insertion passes over all entries it does not precede. -/
theorem orderedInsert_append {front back : List ε} {added : ε}
    (behind : ∀ entry ∈ front, ¬ precedes added entry) :
    (front ++ back).orderedInsert precedes added =
      front ++ back.orderedInsert precedes added := by
  induction front with
  | nil => rfl
  | cons head rest ih =>
      rw [List.cons_append, List.orderedInsert_cons, if_neg (behind head List.mem_cons_self),
        ih fun entry member => behind entry (List.mem_cons_of_mem head member)]
      rfl

variable (precedes) in
/-- An insertion splits the entries behind some that it does not precede. -/
theorem exists_orderedInsert_eq_append (entries : List ε) (added : ε) :
    ∃ front back, entries = front ++ back ∧
      entries.orderedInsert precedes added = front ++ added :: back ∧
      ∀ entry ∈ front, ¬ precedes added entry := by
  refine ⟨_, _, List.takeWhile_append_dropWhile.symm,
    List.orderedInsert_eq_take_drop precedes added entries, ?_⟩
  intro entry member
  have passed := List.mem_takeWhile_imp member
  exact of_decide_eq_true passed

/-- A test between the strict and the reflexive order keeps the list sorted. -/
theorem SortedBy.orderedInsert {key : ε → κ} {entries : List ε}
    (of_lt : ∀ {first second}, key first < key second → precedes first second)
    (le : ∀ {first second}, precedes first second → key first ≤ key second)
    (sorted : SortedBy key entries) (added : ε) :
    SortedBy key (entries.orderedInsert precedes added) := by
  apply pairwise_orderedInsert _ _ _ sorted
  · intro first second third
    exact le_trans
  · intro entry _ fits
    exact le fits
  · intro entry _ fits
    exact not_lt.mp fun less => fits (of_lt less)

/-- The strict test also keeps the arrival order of entries with equal keys. -/
theorem pairwise_before_orderedInsert {key : ε → κ} {stamp : ε → Nat} {entries : List ε}
    {added : ε} (strict : ∀ {first second}, precedes first second ↔ key first < key second)
    (latest : ∀ entry ∈ entries, stamp entry < stamp added)
    (ordered : entries.Pairwise (Before key stamp)) :
    (entries.orderedInsert precedes added).Pairwise (Before key stamp) := by
  apply pairwise_orderedInsert Before.trans _ _ ordered
  · intro entry _ fits
    exact Or.inl (strict.mp fits)
  · intro entry member fits
    rcases lt_or_eq_of_le (not_lt.mp fun less => fits (strict.mpr less)) with less | equal
    · exact Or.inl less
    · exact Or.inr ⟨equal, latest entry member⟩

end Insert

/-- Sorting arrivals stably orders them by key, and ties by stamp. -/
theorem pairwise_before_insertionSort {key : ε → κ} {stamp : ε → Nat} {arrived : List ε}
    (stamps : arrived.Pairwise fun first second => stamp first < stamp second) :
    (arrived.insertionSort fun first second => key first ≤ key second).Pairwise
      (Before key stamp) := by
  induction arrived with
  | nil => exact List.Pairwise.nil
  | cons added rest ih =>
      obtain ⟨earliest, restStamps⟩ := List.pairwise_cons.mp stamps
      rw [List.insertionSort_cons]
      apply pairwise_orderedInsert Before.trans _ _ (ih restStamps)
      · intro entry member fits
        rw [List.mem_insertionSort] at member
        rcases lt_or_eq_of_le fits with less | equal
        · exact Or.inl less
        · exact Or.inr ⟨equal, earliest entry member⟩
      · intro entry _ fits
        exact Or.inl (not_le.mp fits)

/-- A list ordered by key and stamp is the stable sort of its entries taken in
the order of their stamps. -/
theorem eq_insertionSort_of_pairwise_before {key : ε → κ} {stamp : ε → Nat}
    {entries arrived : List ε} (perm : entries.Perm arrived)
    (ordered : entries.Pairwise (Before key stamp))
    (stamps : arrived.Pairwise fun first second => stamp first < stamp second) :
    entries = arrived.insertionSort fun first second => key first ≤ key second := by
  have sortedPerm := perm.trans (List.perm_insertionSort
    (fun first second => key first ≤ key second) arrived).symm
  apply sortedPerm.eq_of_pairwise _ ordered (pairwise_before_insertionSort stamps)
  intro first second _ _ before after
  exact absurd after before.asymm

end BaremetalCoro.Order
