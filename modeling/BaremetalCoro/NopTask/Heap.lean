import BaremetalCoro.NopTask.Promise

/-!
# The static heap of coroutine frames

`operator new` grants a frame when it ends strictly below `TASK_HEAP_SIZE`.  As
long as the addition in this test does not wrap, the granted frames are laid
out one after another from the start of the array, `task_heap_index_` is the
end of the layout, and a refused request changes nothing.

The test leaves the last byte of the array out: a frame that would fill the
array exactly is refused, and its task never starts and never reports done.
-/

namespace BaremetalCoro.TaskHeap

open Arena Transition

variable {w : Nat} {TASK_HEAP_SIZE size : SizeT w} {heap heap' : TaskHeap w}
  {calls : List (Call w)}

/-! ## One request -/

@[simp]
theorem init_index : (init : TaskHeap w).task_heap_index_.toNat = 0 := by
  simp [init]

/-- The addition in the test of `operator new` does not wrap. -/
def NoWrap (heap : TaskHeap w) : Call w → Prop
  | .operatorNew size => heap.task_heap_index_.toNat + size.toNat < 2 ^ w
  | .operatorDelete _ => True

instance (heap : TaskHeap w) : (call : Call w) → Decidable (heap.NoWrap call)
  | .operatorNew size =>
      inferInstanceAs (Decidable (heap.task_heap_index_.toNat + size.toNat < 2 ^ w))
  | .operatorDelete _ => isTrue trivial

/-- The call is not a request, or it does not return `nullptr`. -/
def Granted (TASK_HEAP_SIZE : SizeT w) (heap : TaskHeap w) : Call w → Prop
  | .operatorNew size => (operatorNew TASK_HEAP_SIZE heap size).1 ≠ none
  | .operatorDelete _ => True

instance (TASK_HEAP_SIZE : SizeT w) (heap : TaskHeap w) :
    (call : Call w) → Decidable (heap.Granted TASK_HEAP_SIZE call)
  | .operatorNew size =>
      inferInstanceAs (Decidable ((operatorNew TASK_HEAP_SIZE heap size).1 ≠ none))
  | .operatorDelete _ => isTrue trivial

/-- A frame that ends below the last byte is placed at the index. -/
theorem operatorNew_of_lt
    (room : heap.task_heap_index_.toNat + size.toNat < TASK_HEAP_SIZE.toNat) :
    operatorNew TASK_HEAP_SIZE heap size =
      (some heap.task_heap_index_, ⟨heap.task_heap_index_ + size⟩) := by
  have noWrap : heap.task_heap_index_.toNat + size.toNat < 2 ^ w :=
    Nat.lt_trans room TASK_HEAP_SIZE.isLt
  have test : heap.task_heap_index_ + size < TASK_HEAP_SIZE := by
    rw [BitVec.lt_def, BitVec.toNat_add_of_lt noWrap]
    exact room
  rw [operatorNew, if_pos test]

/-- Any other frame is refused, and the heap stays as it is. -/
theorem operatorNew_of_le (noWrap : heap.task_heap_index_.toNat + size.toNat < 2 ^ w)
    (full : TASK_HEAP_SIZE.toNat ≤ heap.task_heap_index_.toNat + size.toNat) :
    operatorNew TASK_HEAP_SIZE heap size = (none, heap) := by
  have test : ¬ heap.task_heap_index_ + size < TASK_HEAP_SIZE := by
    rw [BitVec.lt_def, BitVec.toNat_add_of_lt noWrap]
    exact Nat.not_lt.mpr full
  rw [operatorNew, if_neg test]

/-- A refused request leaves the heap unchanged, whatever the sizes are. -/
theorem operatorNew_refused (refused : (operatorNew TASK_HEAP_SIZE heap size).1 = none) :
    (operatorNew TASK_HEAP_SIZE heap size).2 = heap := by
  rw [operatorNew] at refused ⊢
  split
  · rename_i test
    rw [if_pos test] at refused
    contradiction
  · rfl

theorem granted_iff (noWrap : heap.task_heap_index_.toNat + size.toNat < 2 ^ w) :
    heap.Granted TASK_HEAP_SIZE (.operatorNew size) ↔
      heap.task_heap_index_.toNat + size.toNat < TASK_HEAP_SIZE.toNat := by
  constructor
  · intro granted
    by_contra full
    apply granted
    rw [operatorNew_of_le noWrap (Nat.not_lt.mp full)]
  · intro room
    rw [Granted, operatorNew_of_lt room]
    exact Option.some_ne_none _

/-- What a call can do: nothing, or place one frame at the index and move the
index to its end. -/
theorem step_cases {call : Call w} (noWrap : heap.NoWrap call)
    (stepped : step TASK_HEAP_SIZE heap call = some heap') :
    (grant TASK_HEAP_SIZE heap call = none ∧ heap' = heap) ∨
      ∃ block, grant TASK_HEAP_SIZE heap call = some block ∧
        block.start = heap.task_heap_index_.toNat ∧
        heap'.task_heap_index_.toNat = heap.task_heap_index_.toNat + block.size ∧
        heap'.task_heap_index_.toNat < TASK_HEAP_SIZE.toNat := by
  cases call with
  | operatorDelete ptr =>
      cases stepped
      exact Or.inl ⟨rfl, rfl⟩
  | operatorNew size =>
      rcases Nat.lt_or_ge (heap.task_heap_index_.toNat + size.toNat) TASK_HEAP_SIZE.toNat with
        room | full
      · rw [step, operatorNew_of_lt room] at stepped
        cases stepped
        have moved : (heap.task_heap_index_ + size).toNat =
            heap.task_heap_index_.toNat + size.toNat := BitVec.toNat_add_of_lt noWrap
        refine Or.inr ⟨⟨heap.task_heap_index_.toNat, size.toNat⟩, ?_, rfl, moved, ?_⟩
        · rw [grant, operatorNew_of_lt room]
          rfl
        · rw [moved]
          exact room
      · rw [step, operatorNew_of_le noWrap full] at stepped
        cases stepped
        rw [grant, operatorNew_of_le noWrap full]
        exact Or.inl ⟨rfl, rfl⟩

/-! ## The layout over a run -/

theorem blocks_cons {call : Call w} (stepped : step TASK_HEAP_SIZE heap call = some heap') :
    blocks TASK_HEAP_SIZE heap (call :: calls) =
      (grant TASK_HEAP_SIZE heap call).toList ++ blocks TASK_HEAP_SIZE heap' calls := by
  rw [blocks, labels, stepped, Option.elim_some]
  cases granted : grant TASK_HEAP_SIZE heap call <;> rfl

/-- The granted frames fill the array from the old index to the new one. -/
theorem blocks_tiled (noWrap : Along (step TASK_HEAP_SIZE) NoWrap heap calls)
    (ran : run (step TASK_HEAP_SIZE) heap calls = some heap') :
    Tiled heap.task_heap_index_.toNat (blocks TASK_HEAP_SIZE heap calls)
      heap'.task_heap_index_.toNat := by
  induction calls generalizing heap with
  | nil =>
      cases ran
      rfl
  | cons call rest ih =>
      obtain ⟨here, later⟩ := (along_cons_iff _ _ heap call rest).mp noWrap
      obtain ⟨middle, stepped, remaining⟩ := (run_cons_eq_some_iff _ heap heap' call rest).mp ran
      have tiled := ih (later middle stepped) remaining
      rw [blocks_cons stepped]
      rcases step_cases here stepped with ⟨refused, rfl⟩ | ⟨block, granted, start, moved, _⟩
      · rw [refused]
        exact tiled
      · rw [granted]
        rw [moved] at tiled
        exact ⟨start, tiled⟩

/-- Every granted frame ends below the last byte of the array. -/
theorem blocks_below (noWrap : Along (step TASK_HEAP_SIZE) NoWrap heap calls)
    (ran : run (step TASK_HEAP_SIZE) heap calls = some heap') {block : Block}
    (member : block ∈ blocks TASK_HEAP_SIZE heap calls) :
    block.start + block.size < TASK_HEAP_SIZE.toNat := by
  induction calls generalizing heap with
  | nil => contradiction
  | cons call rest ih =>
      obtain ⟨here, later⟩ := (along_cons_iff _ _ heap call rest).mp noWrap
      obtain ⟨middle, stepped, remaining⟩ := (run_cons_eq_some_iff _ heap heap' call rest).mp ran
      rw [blocks_cons stepped] at member
      rcases List.mem_append.mp member with first | others
      · rcases step_cases here stepped with ⟨refused, _⟩ | ⟨granted, grantEq, start, moved, below⟩
        · rw [refused] at first
          contradiction
        · rw [grantEq] at first
          rw [List.mem_singleton.mp first, start, ← moved]
          exact below
      · exact ih (later middle stepped) remaining others

/-- Over every run of requests and releases in which the test of `operator new`
does not wrap, the returned blocks are disjoint ranges of bytes inside the
array, and the index is the sum of their sizes.  A refused request leaves the
heap as it was, so any request that fitted before it is still granted. -/
theorem frames_disjoint (noWrap : Along (step TASK_HEAP_SIZE) NoWrap init calls)
    (ran : run (step TASK_HEAP_SIZE) init calls = some heap) :
    (blocks TASK_HEAP_SIZE init calls).Pairwise
        (fun block other => Disjoint block.bytes other.bytes) ∧
      (∀ block ∈ blocks TASK_HEAP_SIZE init calls,
        block.start < TASK_HEAP_SIZE.toNat ∧ block.bytes ⊆ Set.Ico 0 TASK_HEAP_SIZE.toNat) ∧
      heap.task_heap_index_.toNat =
        ((blocks TASK_HEAP_SIZE init calls).map Block.size).sum ∧
      ∀ size, (operatorNew TASK_HEAP_SIZE heap size).1 = none →
        (operatorNew TASK_HEAP_SIZE heap size).2 = heap ∧
          ∀ smaller : SizeT w,
            heap.task_heap_index_.toNat + smaller.toNat < TASK_HEAP_SIZE.toNat →
            (operatorNew TASK_HEAP_SIZE (operatorNew TASK_HEAP_SIZE heap size).2 smaller).1 =
              some heap.task_heap_index_ := by
  have tiled := blocks_tiled noWrap ran
  refine ⟨tiled.pairwise_disjoint, ?_, ?_, ?_⟩
  · intro block member
    have below := blocks_below noWrap ran member
    constructor
    · exact Nat.lt_of_le_of_lt (Nat.le_add_right _ _) below
    · exact Set.Ico_subset_Ico (Nat.zero_le _) (Nat.le_of_lt below)
  · rw [tiled.high_eq, init_index, Nat.zero_add]
  · intro size refused
    have unchanged := operatorNew_refused refused
    refine ⟨unchanged, ?_⟩
    intro smaller room
    rw [unchanged, operatorNew_of_lt room]

/-- Requests to a heap of 16 bytes: the second one is too large, and a frame is
given back before the third. -/
def refusalCalls : List (Call 32) :=
  [.operatorNew 8#32, .operatorNew 12#32, .operatorDelete (some 0#32), .operatorNew 4#32]

theorem frames_disjoint_refusal :
    ∃ heap : TaskHeap 32, run (step 16#32) init refusalCalls = some heap ∧
      blocks 16#32 init refusalCalls = [⟨0, 8⟩, ⟨8, 4⟩] ∧
      heap.task_heap_index_.toNat = ((blocks 16#32 init refusalCalls).map Block.size).sum := by
  have noWrap : Along (step 16#32) NoWrap init refusalCalls := by decide
  obtain ⟨_, _, index, _⟩ := frames_disjoint noWrap rfl
  exact ⟨_, rfl, by decide, index⟩

/-! ## Filling the array -/

/-- A release changes nothing for the requests behind it. -/
theorem along_granted_delete (ptr : Option (SizeT w)) :
    Along (step TASK_HEAP_SIZE) (Granted TASK_HEAP_SIZE) heap (.operatorDelete ptr :: calls) ↔
      Along (step TASK_HEAP_SIZE) (Granted TASK_HEAP_SIZE) heap calls := by
  rw [along_cons_iff]
  constructor
  · intro along
    exact along.2 heap rfl
  · intro along
    refine ⟨trivial, ?_⟩
    rintro next ⟨⟩
    exact along

/-- A granted request moves the index for the requests behind it. -/
theorem along_granted_new (noWrap : heap.task_heap_index_.toNat + size.toNat < 2 ^ w) :
    Along (step TASK_HEAP_SIZE) (Granted TASK_HEAP_SIZE) heap (.operatorNew size :: calls) ↔
      heap.task_heap_index_.toNat + size.toNat < TASK_HEAP_SIZE.toNat ∧
        Along (step TASK_HEAP_SIZE) (Granted TASK_HEAP_SIZE) ⟨heap.task_heap_index_ + size⟩
          calls := by
  rw [along_cons_iff, granted_iff noWrap]
  apply and_congr_right
  intro room
  have stepped : step TASK_HEAP_SIZE heap (.operatorNew size) =
      some ⟨heap.task_heap_index_ + size⟩ := by
    rw [step, operatorNew_of_lt room]
  rw [stepped]
  constructor
  · intro along
    exact along _ rfl
  · rintro along next ⟨⟩
    exact along

/-- As long as the sizes cannot wrap, all requests of a run are granted exactly
when the last of them ends below the last byte. -/
theorem along_granted_iff
    (noWrap : heap.task_heap_index_.toNat + (requests calls).sum < 2 ^ w) :
    Along (step TASK_HEAP_SIZE) (Granted TASK_HEAP_SIZE) heap calls ↔
      (requests calls ≠ [] →
        heap.task_heap_index_.toNat + (requests calls).sum < TASK_HEAP_SIZE.toNat) := by
  induction calls generalizing heap with
  | nil =>
      constructor
      · intro _ some
        exact absurd rfl some
      · intro _
        exact along_nil _ _ heap
  | cons call rest ih =>
      cases call with
      | operatorDelete ptr =>
          have same : requests (Call.operatorDelete ptr :: rest) = requests rest := rfl
          rw [same] at noWrap ⊢
          rw [along_granted_delete, ih noWrap]
      | operatorNew size =>
          have more : requests (Call.operatorNew size :: rest) = size.toNat :: requests rest := rfl
          rw [more, List.sum_cons, ← Nat.add_assoc] at noWrap ⊢
          have here : heap.task_heap_index_.toNat + size.toNat < 2 ^ w :=
            Nat.lt_of_le_of_lt (Nat.le_add_right _ _) noWrap
          have moved : (heap.task_heap_index_ + size).toNat =
              heap.task_heap_index_.toNat + size.toNat := BitVec.toNat_add_of_lt here
          rw [← moved] at noWrap
          rw [along_granted_new here, ih noWrap, moved]
          constructor
          -- Sizes are not negative, so only the last request has to be looked at.
          · rintro ⟨room, others⟩ _
            by_cases last : requests rest = []
            · rw [last, List.sum_nil, Nat.add_zero]
              exact room
            · exact others last
          · intro fits
            have total := fits (List.cons_ne_nil _ _)
            exact ⟨Nat.lt_of_le_of_lt (Nat.le_add_right _ _) total, fun _ => total⟩

/-- Requests whose sizes add up to at most `TASK_HEAP_SIZE` are all granted
exactly when they do not fill the array, or when there is no request. -/
theorem fitting_frames_granted_iff (TASK_HEAP_SIZE : SizeT w) (calls : List (Call w)) :
    ((requests calls).sum ≤ TASK_HEAP_SIZE.toNat →
        Along (step TASK_HEAP_SIZE) (Granted TASK_HEAP_SIZE) init calls) ↔
      ((requests calls).sum ≠ TASK_HEAP_SIZE.toNat ∨ requests calls = []) := by
  have start : (init : TaskHeap w).task_heap_index_.toNat + (requests calls).sum =
      (requests calls).sum := by
    rw [init_index, Nat.zero_add]
  have granted (fits : (requests calls).sum ≤ TASK_HEAP_SIZE.toNat) :
      Along (step TASK_HEAP_SIZE) (Granted TASK_HEAP_SIZE) init calls ↔
        (requests calls ≠ [] → (requests calls).sum < TASK_HEAP_SIZE.toNat) := by
    have noWrap : (init : TaskHeap w).task_heap_index_.toNat + (requests calls).sum < 2 ^ w := by
      rw [start]
      exact Nat.lt_of_le_of_lt fits TASK_HEAP_SIZE.isLt
    rw [along_granted_iff noWrap, start]
  constructor
  · intro fitting
    by_contra! exact
    have below := (granted (Nat.le_of_eq exact.1)).mp (fitting (Nat.le_of_eq exact.1)) exact.2
    exact Nat.ne_of_lt below exact.1
  · intro apart fits
    rw [granted fits]
    intro some
    rcases apart with different | nothing
    · exact Nat.lt_of_le_of_ne fits different
    · exact absurd nothing some

/-! ## Coroutine calls -/

/-- A coroutine call uses the heap as its request for a frame does. -/
theorem callTask_heap (hostEmulation : Bool) (store : TaskStore w) :
    (store.callTask hostEmulation TASK_HEAP_SIZE size).2.heap =
      (operatorNew TASK_HEAP_SIZE store.heap size).2 := by
  rw [TaskStore.callTask]
  cases hnew : operatorNew TASK_HEAP_SIZE store.heap size with
  | mk retval heap => cases retval <;> rfl

/-- Without a frame no coroutine starts, and the task that the call returns
does not report done at any later time. -/
theorem callTask_refused (hostEmulation : Bool) {store : TaskStore w}
    (refused : (operatorNew TASK_HEAP_SIZE store.heap size).1 = none) :
    (store.callTask hostEmulation TASK_HEAP_SIZE size).2 = store ∧
      ∀ flags, (store.callTask hostEmulation TASK_HEAP_SIZE size).1.done flags = false := by
  have unchanged := operatorNew_refused refused
  rw [TaskStore.callTask]
  cases hnew : operatorNew TASK_HEAP_SIZE store.heap size with
  | mk retval heap =>
      rw [hnew] at refused unchanged
      simp only at refused unchanged
      subst refused unchanged
      exact ⟨rfl, fun _ => rfl⟩

/-- Two frames of 256 bytes. -/
def exactFit : List (Call 32) := [.operatorNew 256#32, .operatorNew 256#32]

/-- The two frames fit the 512 bytes of the target, but the second one is
refused, and its task neither starts nor reports done. -/
theorem exact_fit_refused :
    (requests exactFit).sum ≤ (512#32).toNat ∧
      ¬ Along (step 512#32) (Granted 512#32) init exactFit ∧
      ∀ hostEmulation flags promises later,
        let first := (TaskStore.callTask hostEmulation 512#32 ⟨init, flags, promises⟩ 256#32).2
        let second := first.callTask hostEmulation 512#32 256#32
        second.2 = first ∧ second.1.done later = false := by
  refine ⟨by decide, by decide, ?_⟩
  intro hostEmulation flags promises later first second
  have full : (operatorNew 512#32 first.heap 256#32).1 = none := by
    rw [callTask_heap]
    change (operatorNew 512#32 (operatorNew 512#32 init 256#32).2 256#32).1 = none
    decide
  obtain ⟨unchanged, neverDone⟩ := callTask_refused hostEmulation full
  exact ⟨unchanged, neverDone later⟩

end BaremetalCoro.TaskHeap
