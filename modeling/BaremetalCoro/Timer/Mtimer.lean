import BaremetalCoro.Transition.Core
import BaremetalCoro.Words.Halves
import Mathlib.Data.Nat.Find

/-!
# The machine timer registers

`driver::timer` reads the counter `mtime` and writes the compare point
`mtimecmp`.  Both are registers of 64 bits on the bus, and a hart of 32 bits
reads and writes them by halves while the counter runs on.

The counter is a trajectory: its value at each access of the hart to the bus.
It may advance by any amount between two accesses; that it does not wrap is
`NonDecreasing`.  The loop of `get_raw_time` has no bound of its own and takes
one as fuel; it is shown to need only finitely much.
-/

namespace BaremetalCoro.Timer

open Words

/-- The width of the registers of the hart, `__riscv_xlen`. -/
inductive Xlen where
  | rv32
  | rv64
  deriving DecidableEq

/-- The counter never goes back from one access to the next. -/
def NonDecreasing (mtime : Nat → UInt64) : Prop :=
  ∀ access, mtime access ≤ mtime (access + 1)

/-! ## Reading the counter -/

/-- The loop of `get_raw_time` on a hart of 32 bits, from the access `time` on:
the value it returns and the number of the next access. -/
def getRawTimeLoop (mtime : Nat → UInt64) : Nat → Nat → Option (UInt64 × Nat)
  | 0, _ => none
  | fuel + 1, time =>
      let mtimehVal := highWord (mtime time)
      let mtimelVal := lowWord (mtime (time + 1))
      if mtimehVal ≠ highWord (mtime (time + 2)) then getRawTimeLoop mtime fuel (time + 3)
      else some (joinWords mtimehVal mtimelVal, time + 3)

/-- Read the raw time of the system timer in system timer clocks. -/
def getRawTime (xlen : Xlen) (mtime : Nat → UInt64) (fuel time : Nat) : Option (UInt64 × Nat) :=
  match xlen with
  | .rv64 => some (mtime time, time + 1)
  | .rv32 => getRawTimeLoop mtime fuel time

/-- The iteration from `time` on sees the same high word before and after. -/
def Consistent (mtime : Nat → UInt64) (time : Nat) : Prop :=
  highWord (mtime time) = highWord (mtime (time + 2))

instance (mtime : Nat → UInt64) (time : Nat) : Decidable (Consistent mtime time) :=
  inferInstanceAs (Decidable (_ = _))

/-- The loop returns from its first consistent iteration. -/
theorem getRawTimeLoop_of_consistent {mtime : Nat → UInt64} {time iterations : Nat}
    (retries : ∀ i < iterations, ¬ Consistent mtime (time + 3 * i))
    (exits : Consistent mtime (time + 3 * iterations)) (fuel : Nat) :
    (fuel ≤ iterations → getRawTimeLoop mtime fuel time = none) ∧
      (iterations < fuel → getRawTimeLoop mtime fuel time =
        some (joinWords (highWord (mtime (time + 3 * iterations)))
          (lowWord (mtime (time + 3 * iterations + 1))), time + 3 * iterations + 3)) := by
  induction iterations generalizing time fuel with
  | zero =>
      cases fuel with
      | zero => simp [getRawTimeLoop]
      | succ fuel =>
          have same : highWord (mtime time) = highWord (mtime (time + 2)) := exits
          simp [getRawTimeLoop, same]
  | succ iterations ih =>
      cases fuel with
      | zero => simp [getRawTimeLoop]
      | succ fuel =>
          have differs : highWord (mtime time) ≠ highWord (mtime (time + 2)) :=
            retries 0 (Nat.succ_pos iterations)
          have shift : ∀ i, time + 3 + 3 * i = time + 3 * (i + 1) := by
            intro i
            omega
          have later : ∀ i < iterations, ¬ Consistent mtime (time + 3 + 3 * i) := by
            intro i bound
            rw [shift]
            exact retries (i + 1) (Nat.succ_lt_succ bound)
          have exitsLater : Consistent mtime (time + 3 + 3 * iterations) := by
            rw [shift]
            exact exits
          have rest := ih later exitsLater fuel
          rw [shift] at rest
          have loopEq : getRawTimeLoop mtime (fuel + 1) time =
              getRawTimeLoop mtime fuel (time + 3) := by
            rw [getRawTimeLoop, if_pos differs]
          rw [loopEq, Nat.succ_le_succ_iff, Nat.succ_lt_succ_iff]
          exact rest

/-- Between two equal high words lies the same high word, so the halves of a
consistent iteration belong to one value of the counter. -/
theorem Consistent.joinWords_eq {mtime : Nat → UInt64} {time : Nat}
    (consistent : Consistent mtime time) (nonDecreasing : NonDecreasing mtime) :
    joinWords (highWord (mtime time)) (lowWord (mtime (time + 1))) = mtime (time + 1) := by
  have before := highWord_mono (nonDecreasing time)
  have after := highWord_mono (nonDecreasing (time + 1))
  have same : highWord (mtime (time + 1)) = highWord (mtime time) := by
    apply UInt32.le_antisymm
    · exact consistent ▸ after
    · exact before
  rw [← same]
  exact joinWords_halves (mtime (time + 1))

/-- An inconsistent iteration uses up a high word. -/
theorem highWord_lt_of_not_consistent {mtime : Nat → UInt64} (nonDecreasing : NonDecreasing mtime)
    {time : Nat} (inconsistent : ¬ Consistent mtime time) :
    (highWord (mtime time)).toNat + 1 ≤ (highWord (mtime (time + 2))).toNat := by
  have first := UInt32.le_iff_toNat_le.mp (highWord_mono (nonDecreasing time))
  have second := UInt32.le_iff_toNat_le.mp (highWord_mono (nonDecreasing (time + 1)))
  have differs : (highWord (mtime time)).toNat ≠ (highWord (mtime (time + 2))).toNat := by
    intro equal
    exact inconsistent (UInt32.toNat_inj.mp equal)
  exact Nat.lt_of_le_of_ne (Nat.le_trans first second) differs

/-- Some iteration is consistent, since there are finitely many high words. -/
theorem exists_consistent {mtime : Nat → UInt64} (nonDecreasing : NonDecreasing mtime)
    (time : Nat) : ∃ iterations, Consistent mtime (time + 3 * iterations) := by
  by_contra never
  have inconsistent : ∀ i, ¬ Consistent mtime (time + 3 * i) := by
    intro i consistent
    exact never ⟨i, consistent⟩
  have climbs : ∀ i, i ≤ (highWord (mtime (time + 3 * i))).toNat := by
    intro i
    induction i with
    | zero => exact Nat.zero_le _
    | succ i ih =>
        have used := highWord_lt_of_not_consistent nonDecreasing (inconsistent i)
        have next := UInt32.le_iff_toNat_le.mp
          (highWord_mono (nonDecreasing (time + 3 * i + 2)))
        exact Nat.le_trans (Nat.succ_le_succ ih) (Nat.le_trans used next)
  have bound := (highWord (mtime (time + 3 * 2 ^ 32))).toNat_lt
  exact absurd (climbs (2 ^ 32)) (Nat.not_le_of_lt bound)

/-- On a hart of 32 bits `get_raw_time` returns after finitely many iterations,
and what it returns is the counter at its last read of the low word, which is
the second access of its last iteration.  If the counter advances by at most
`2 ^ 32` during two iterations, it makes no third one. -/
theorem getRawTime_rv32 {mtime : Nat → UInt64} (nonDecreasing : NonDecreasing mtime)
    (time : Nat) :
    (∃ iterations, ∀ fuel,
      (fuel ≤ iterations → getRawTime .rv32 mtime fuel time = none) ∧
      (iterations < fuel → getRawTime .rv32 mtime fuel time =
        some (mtime (time + 3 * iterations + 1), time + 3 * iterations + 3))) ∧
    ((mtime (time + 5)).toNat ≤ (mtime time).toNat + 2 ^ 32 →
      ∃ result, getRawTime .rv32 mtime 2 time = some result) := by
  have exits := exists_consistent nonDecreasing time
  have first := Nat.find_spec exits
  have retries : ∀ i < Nat.find exits, ¬ Consistent mtime (time + 3 * i) := by
    intro i earlier
    exact Nat.find_min exits earlier
  have returned : ∀ fuel, _ := fun fuel => getRawTimeLoop_of_consistent retries first fuel
  constructor
  · refine ⟨Nat.find exits, ?_⟩
    intro fuel
    rw [first.joinWords_eq nonDecreasing] at returned
    exact returned fuel
  · intro slow
    have early : Nat.find exits < 2 := by
      by_contra late
      have firstUsed := highWord_lt_of_not_consistent nonDecreasing (retries 0 (by omega))
      have secondUsed := highWord_lt_of_not_consistent nonDecreasing (retries 1 (by omega))
      have between := UInt64.le_iff_toNat_le.mp (nonDecreasing (time + 2))
      rw [toNat_highWord, toNat_highWord] at firstUsed secondUsed
      -- Two high words used up take more than `2 ^ 32` clocks.
      change (mtime time).toNat / 2 ^ 32 + 1 ≤ (mtime (time + 2)).toNat / 2 ^ 32 at firstUsed
      change (mtime (time + 3)).toNat / 2 ^ 32 + 1 ≤ (mtime (time + 5)).toNat / 2 ^ 32
        at secondUsed
      change (mtime (time + 2)).toNat ≤ (mtime (time + 3)).toNat at between
      omega
    exact ⟨_, (returned 2).2 early⟩

/-- A counter whose high word ticks over after the first access. -/
def carryingMtime : Nat → UInt64
  | 0 => 0xFFFFFFFF
  | _ + 1 => 0x100000005

theorem getRawTime_rv32_carryingMtime :
    (∃ iterations, getRawTime .rv32 carryingMtime (iterations + 1) 0 =
      some (carryingMtime (0 + 3 * iterations + 1), 0 + 3 * iterations + 3)) ∧
    ∃ result, getRawTime .rv32 carryingMtime 2 0 = some result := by
  have nonDecreasing : NonDecreasing carryingMtime := by
    intro access
    cases access with
    | zero => decide
    | succ access => exact UInt64.le_refl 0x100000005
  rcases getRawTime_rv32 nonDecreasing 0 with ⟨⟨iterations, returned⟩, early⟩
  exact ⟨⟨iterations, (returned (iterations + 1)).2 (Nat.lt_succ_self iterations)⟩,
    early (by decide)⟩

/-! ## Writing the compare point -/

/-- One write to the compare point. -/
inductive CmpWrite where
  | whole (value : UInt64)
  | low (word : UInt32)
  | high (word : UInt32)

/-- The compare point after a write. -/
def CmpWrite.apply (mtimecmp : UInt64) : CmpWrite → UInt64
  | .whole value => value
  | .low word => joinWords (highWord mtimecmp) word
  | .high word => joinWords word (lowWord mtimecmp)

/-- The writes of `set_raw_time_cmp`.  On a hart of 32 bits the high word is
first set to an unachievable value. -/
def cmpWrites (xlen : Xlen) (newMtimecmp : UInt64) : List CmpWrite :=
  match xlen with
  | .rv64 => [.whole newMtimecmp]
  | .rv32 => [.high 0xFFFFFFFF, .low (newMtimecmp &&& 0x0FFFFFFFF).toUInt32,
      .high (newMtimecmp >>> 32).toUInt32]

/-- Set the raw time compare point in system timer clocks: the compare point
that is left when it was `mtimecmp` before. -/
def setRawTimeCmp (xlen : Xlen) (mtime : Nat → UInt64) (fuel time : Nat)
    (mtimecmp clockOffset : UInt64) : Option UInt64 :=
  (getRawTime xlen mtime fuel time).map fun rawTime =>
    let newMtimecmp := rawTime.1 + clockOffset
    (cmpWrites xlen newMtimecmp).foldl CmpWrite.apply mtimecmp

/-- Either way all 64 bits are written. -/
theorem foldl_cmpWrites (xlen : Xlen) (newMtimecmp mtimecmp : UInt64) :
    (cmpWrites xlen newMtimecmp).foldl CmpWrite.apply mtimecmp = newMtimecmp := by
  cases xlen with
  | rv64 => rfl
  | rv32 =>
      change joinWords (highWord newMtimecmp)
        (lowWord (joinWords (highWord (joinWords 0xFFFFFFFF (lowWord mtimecmp)))
          (lowWord newMtimecmp))) = newMtimecmp
      rw [lowWord_joinWords]
      exact joinWords_halves newMtimecmp

/-! ## The counter runs on between the writes -/

/-- What can happen next. -/
inductive CmpAct where
  | tick (clocks : Nat)
  | write

/-- The two registers, and the writes the hart still has to make. -/
structure CmpSystem where
  mtime : UInt64
  mtimecmp : UInt64
  writes : List CmpWrite

namespace CmpSystem

/-- One action.  The counter does not wrap. -/
def step : Transition.Step CmpSystem CmpAct := fun system act =>
  match act with
  | .tick clocks =>
      if system.mtime.toNat + clocks < 2 ^ 64 then
        some { system with mtime := UInt64.ofNat (system.mtime.toNat + clocks) }
      else none
  | .write =>
      match system.writes with
      | [] => none
      | write :: writes =>
          some { system with mtimecmp := write.apply system.mtimecmp, writes := writes }

/-- The timer requests an interrupt. -/
def Pending (system : CmpSystem) : Prop :=
  system.mtimecmp ≤ system.mtime

instance (system : CmpSystem) : Decidable system.Pending :=
  inferInstanceAs (Decidable (_ ≤ _))

/-- The compare point after each of the three writes. -/
def Staged (old new : UInt64) (system : CmpSystem) : Prop :=
  (system.mtimecmp = old ∧ system.writes = cmpWrites .rv32 new) ∨
  (system.mtimecmp = joinWords 0xFFFFFFFF (lowWord old) ∧
    system.writes = [.low (lowWord new), .high (highWord new)]) ∨
  (system.mtimecmp = joinWords 0xFFFFFFFF (lowWord new) ∧
    system.writes = [.high (highWord new)]) ∨
  (system.mtimecmp = new ∧ system.writes = [])

theorem Staged.step {old new : UInt64} {system next : CmpSystem} {act : CmpAct}
    (staged : system.Staged old new) (stepped : system.step act = some next) :
    next.Staged old new := by
  cases act with
  | tick clocks =>
      simp only [CmpSystem.step, Option.ite_none_right_eq_some, Option.some.injEq] at stepped
      rw [← stepped.2]
      exact staged
  | write =>
      rcases staged with ⟨cmpEq, writesEq⟩ | ⟨cmpEq, writesEq⟩ | ⟨cmpEq, writesEq⟩ |
        ⟨cmpEq, writesEq⟩
      · simp only [CmpSystem.step, writesEq, cmpWrites, Option.some.injEq] at stepped
        rw [← stepped, cmpEq]
        exact Or.inr (Or.inl ⟨rfl, rfl⟩)
      · simp only [CmpSystem.step, writesEq, Option.some.injEq] at stepped
        rw [← stepped, cmpEq]
        refine Or.inr (Or.inr (Or.inl ⟨?_, rfl⟩))
        rw [CmpWrite.apply, highWord_joinWords]
      · simp only [CmpSystem.step, writesEq, Option.some.injEq] at stepped
        rw [← stepped, cmpEq]
        refine Or.inr (Or.inr (Or.inr ⟨?_, rfl⟩))
        rw [CmpWrite.apply, lowWord_joinWords, joinWords_halves]
      · simp only [CmpSystem.step, writesEq, reduceCtorEq] at stepped

/-- However the counter runs on between the three writes, the timer requests
no interrupt that neither the old nor the new compare point requests: after the
first write only if the old one would, and after the second only if the new one
would.  What is left is what a hart of 64 bits writes. -/
theorem pending_during_writes {mtime old new : UInt64} {acts : List CmpAct} {system : CmpSystem}
    (ran : Transition.run step ⟨mtime, old, cmpWrites .rv32 new⟩ acts = some system) :
    (system.writes.length = 2 → system.Pending → old ≤ system.mtime) ∧
    (system.writes.length = 1 → system.Pending → new ≤ system.mtime) ∧
    (system.writes.length = 0 →
      system.mtimecmp = (cmpWrites .rv64 new).foldl CmpWrite.apply old) := by
  have initially : Staged old new ⟨mtime, old, cmpWrites .rv32 new⟩ := Or.inl ⟨rfl, rfl⟩
  have staged := Transition.run_invariant
    (fun _ _ _ staged stepped => Staged.step staged stepped) initially ran
  rcases staged with ⟨cmpEq, writesEq⟩ | ⟨cmpEq, writesEq⟩ | ⟨cmpEq, writesEq⟩ |
    ⟨cmpEq, writesEq⟩
  · simp [writesEq, cmpWrites]
  · have covered := le_joinWords_max old
    simp only [writesEq, Pending, cmpEq, List.length_cons, List.length_nil]
    exact ⟨fun _ pending => UInt64.le_trans covered pending, by simp, by simp⟩
  · have covered := le_joinWords_max new
    simp only [writesEq, Pending, cmpEq, List.length_cons, List.length_nil]
    exact ⟨by simp, fun _ pending => UInt64.le_trans covered pending, by simp⟩
  · simp [writesEq, cmpEq, cmpWrites, CmpWrite.apply]

/-- The new compare point is above the old one in the low word and below it in
the high word, and the counter moves on after each write. -/
theorem pending_during_writes_crossed :
    ∃ system, Transition.run step ⟨0x500000000, 0x600000001, cmpWrites .rv32 0x4FFFFFFFF⟩
        [.write, .tick 7, .write, .tick 9] = some system ∧
      system.writes.length = 1 ∧ ¬ system.Pending ∧
      (system.Pending → 0x4FFFFFFFF ≤ system.mtime) := by
  have observed : (Transition.run step ⟨0x500000000, 0x600000001, cmpWrites .rv32 0x4FFFFFFFF⟩
      [.write, .tick 7, .write, .tick 9]).map
        (fun system => (system.writes.length, decide system.Pending)) = some (1, false) := by
    decide
  rcases Option.map_eq_some_iff.mp observed with ⟨system, ran, facts⟩
  have oneLeft : system.writes.length = 1 := congrArg Prod.fst facts
  have quiet : ¬ system.Pending := of_decide_eq_false (congrArg Prod.snd facts)
  exact ⟨system, ran, oneLeft, quiet, (pending_during_writes ran).2.1 oneLeft⟩

end CmpSystem

end BaremetalCoro.Timer
