import BaremetalCoro.Circular.Recent
import Mathlib.Data.BitVec
import Mathlib.Tactic.Abel

/-!
# The trace log

`trace_log_manager` keeps the latest records of a trace in a ring of 128
records.  `TRACE_TIMESTAMP` begins a new record, and the other macros write
into the fields of the latest one.  Numbers are those of the fields of the
record: `uint32_t` and `uint16_t`.

The unbounded log is `logged`; the ring keeps its recent part.
-/

namespace BaremetalCoro

open Circular

/-- A record of the trace. -/
structure TraceLogEntry where
  index : BitVec 32
  timestamp : BitVec 32
  deltaTimestamp : BitVec 32
  coroPending : Bool
  nextWakeDelay : BitVec 32
  schedulerUpdateI : BitVec 16
  schedulerUpdateR : BitVec 16
  deriving DecidableEq

/-- All bytes are zero. -/
def TraceLogEntry.zero : TraceLogEntry :=
  ⟨0, 0, 0, false, 0, 0, 0⟩

/-- The static members of `trace_log_manager`. -/
structure TraceLogManager where
  records : Fin 128 → TraceLogEntry
  index : Fin 128

/-- What the macros do. -/
inductive TraceAct where
  /-- `TRACE_TIMESTAMP(timestamp)` -/
  | timestamp (t : BitVec 32)
  /-- `TRACE_VALUE(coro_pending, value)` -/
  | coroPending (value : Bool)
  /-- `TRACE_VALUE(next_wake_delay, value)` -/
  | nextWakeDelay (value : BitVec 32)
  /-- `TRACE_VALUE(scheduler_update_i, value)` -/
  | schedulerUpdateI (value : BitVec 16)
  /-- `TRACE_VALUE(scheduler_update_r, value)` -/
  | schedulerUpdateR (value : BitVec 16)
  /-- `TRACE_VALUE_FLAG(scheduler_update_r, mask)` -/
  | schedulerUpdateRFlag (mask : BitVec 16)

/-- The timestamp of a new record. -/
def TraceAct.stamp : TraceAct → Option (BitVec 32)
  | .timestamp t => some t
  | _ => none

/-- What a macro writes into the latest record. -/
def TraceAct.write (entry : TraceLogEntry) : TraceAct → TraceLogEntry
  | .timestamp _ => entry
  | .coroPending value => { entry with coroPending := value }
  | .nextWakeDelay value => { entry with nextWakeDelay := value }
  | .schedulerUpdateI value => { entry with schedulerUpdateI := value }
  | .schedulerUpdateR value => { entry with schedulerUpdateR := value }
  | .schedulerUpdateRFlag mask =>
      { entry with schedulerUpdateR := entry.schedulerUpdateR ||| mask }

/-- A new record, behind the one with the given timestamp. -/
def TraceLogEntry.fresh (index : Nat) (t prevTimestamp : BitVec 32) : TraceLogEntry :=
  { TraceLogEntry.zero with
    index := BitVec.ofNat 32 index, timestamp := t, deltaTimestamp := t - prevTimestamp }

namespace TraceLogManager

/-- `COUNT_MASK`. -/
def countMask : Nat :=
  128 - 1

/-- The state before the first macro. -/
def init : TraceLogManager :=
  ⟨fun _ => .zero, ⟨countMask, by decide⟩⟩

/-- `(_index + 1) & COUNT_MASK`. -/
def nextIndex (index : Fin 128) : Fin 128 :=
  ⟨(index.val + 1) &&& countMask, Nat.and_lt_two_pow (n := 7) _ (by decide)⟩

/-- Begin a new record. -/
def nextEntry (manager : TraceLogManager) (t : BitVec 32) : TraceLogManager :=
  let prevTimestamp := (manager.records manager.index).timestamp
  let index := nextIndex manager.index
  ⟨Function.update manager.records index (.fresh index t prevTimestamp), index⟩

/-- The latest record. -/
def getEntry (manager : TraceLogManager) : TraceLogEntry :=
  manager.records manager.index

/-- Replace the latest record. -/
def setEntry (manager : TraceLogManager) (entry : TraceLogEntry) : TraceLogManager :=
  { manager with records := Function.update manager.records manager.index entry }

/-- Execute a macro. -/
def step (manager : TraceLogManager) (act : TraceAct) : TraceLogManager :=
  match act with
  | .timestamp t => manager.nextEntry t
  | write => manager.setEntry (write.write manager.getEntry)

/-- The record with the given age. -/
def recent (manager : TraceLogManager) (age : Nat) : TraceLogEntry :=
  manager.records (behind manager.index age)

end TraceLogManager

/-- The unbounded log, latest record first.  A macro writes into the latest
record, which before the first `TRACE_TIMESTAMP` is a blank one. -/
def logged (log : List TraceLogEntry) (act : TraceAct) : List TraceLogEntry :=
  match act, log with
  | .timestamp t, latest :: older =>
      .fresh (older.length % 128) t latest.timestamp :: latest :: older
  | write, latest :: older => write.write latest :: older
  | _, [] => []

namespace TraceLogManager

theorem nextIndex_eq (index : Fin 128) : nextIndex index = index + 1 := by
  apply Fin.ext
  have masked := Nat.and_two_pow_sub_one_eq_mod (index.val + 1) 7
  rw [Fin.val_add]
  exact masked

/-- The ring keeps the recent part of the log, and its index counts the
records. -/
structure Keeps (manager : TraceLogManager) (log : List TraceLogEntry) : Prop where
  recent : Recent .zero manager.records manager.index log
  counted : (manager.index.val + 2) % 128 = log.length % 128
  begun : log ≠ []

theorem init_keeps : init.Keeps [.zero] :=
  ⟨recent_blank TraceLogEntry.zero _, rfl, List.cons_ne_nil _ _⟩

/-- Every macro does to the ring what it does to the log. -/
theorem Keeps.step {manager : TraceLogManager} {log : List TraceLogEntry}
    (keeps : manager.Keeps log) (act : TraceAct) : (manager.step act).Keeps (logged log act) := by
  rcases List.exists_cons_of_ne_nil keeps.begun with ⟨latest, older, rfl⟩
  have latestEq : manager.getEntry = latest := keeps.recent.latest
  have counted := keeps.counted
  rw [List.length_cons] at counted
  have written : ∀ entry, (manager.setEntry entry).Keeps (entry :: older) := by
    intro entry
    exact ⟨keeps.recent.modify entry, keeps.counted, List.cons_ne_nil _ _⟩
  cases act with
  | timestamp t =>
      have indexEq : (nextIndex manager.index).val = older.length % 128 := by
        rw [nextIndex_eq, Fin.val_add]
        change (manager.index.val + 1) % 128 = _
        omega
      have entryEq : TraceLogEntry.fresh (nextIndex manager.index) t
          (manager.records manager.index).timestamp =
          .fresh (older.length % 128) t latest.timestamp := by
        rw [indexEq, ← latestEq]
        rfl
      constructor
      · change Recent .zero (Function.update manager.records (nextIndex manager.index)
          (.fresh (nextIndex manager.index) t (manager.records manager.index).timestamp))
          (nextIndex manager.index) _
        rw [entryEq, nextIndex_eq]
        exact keeps.recent.push _
      · change ((nextIndex manager.index).val + 2) % 128 = (older.length + 1 + 1) % 128
        rw [indexEq]
        omega
      · exact List.cons_ne_nil _ _
  | _ =>
      rw [← latestEq]
      exact written _

theorem Keeps.run {manager : TraceLogManager} {log : List TraceLogEntry}
    (keeps : manager.Keeps log) (acts : List TraceAct) :
    (acts.foldl TraceLogManager.step manager).Keeps (acts.foldl logged log) := by
  induction acts generalizing manager log with
  | nil => exact keeps
  | cons act acts ih => exact ih (keeps.step act)

@[simp]
theorem setEntry_setEntry (manager : TraceLogManager) (entry entry' : TraceLogEntry) :
    (manager.setEntry entry).setEntry entry' = manager.setEntry entry' := by
  simp [setEntry]

@[simp]
theorem getEntry_setEntry (manager : TraceLogManager) (entry : TraceLogEntry) :
    (manager.setEntry entry).getEntry = entry :=
  Function.update_self _ _ _

@[simp]
theorem setEntry_getEntry (manager : TraceLogManager) :
    manager.setEntry manager.getEntry = manager := by
  simp [setEntry, getEntry]

/-- Macros that begin no record change the latest one only. -/
theorem foldl_step_writes {acts : List TraceAct} (writes : ∀ act ∈ acts, act.stamp = none)
    (manager : TraceLogManager) :
    acts.foldl step manager = manager.setEntry (acts.foldl TraceAct.write manager.getEntry) := by
  induction acts generalizing manager with
  | nil => exact manager.setEntry_getEntry.symm
  | cons act acts ih =>
      have actWrites := writes act List.mem_cons_self
      have stepEq : manager.step act = manager.setEntry (act.write manager.getEntry) := by
        cases act with
        | timestamp t => contradiction
        | _ => rfl
      rw [List.foldl_cons, ih (fun other member => writes other (List.mem_cons_of_mem act member)),
        stepEq, setEntry_setEntry, getEntry_setEntry]
      rfl

end TraceLogManager

/-! ## Timestamps -/

/-- Each record tells the time since the one before it, and the first one is
blank. -/
def Stamped : List TraceLogEntry → Prop
  | [] => True
  | [first] => first.timestamp = 0 ∧ first.deltaTimestamp = 0
  | latest :: previous :: older =>
      latest.deltaTimestamp = latest.timestamp - previous.timestamp ∧ Stamped (previous :: older)

/-- The fields of a record that only `TRACE_TIMESTAMP` writes. -/
theorem TraceAct.write_times (act : TraceAct) (entry : TraceLogEntry) :
    (act.write entry).timestamp = entry.timestamp ∧
      (act.write entry).deltaTimestamp = entry.deltaTimestamp := by
  cases act <;> exact ⟨rfl, rfl⟩

theorem Stamped.write {latest : TraceLogEntry} {older : List TraceLogEntry} (act : TraceAct)
    (stamped : Stamped (latest :: older)) : Stamped (act.write latest :: older) := by
  rcases act.write_times latest with ⟨timestamp, delta⟩
  cases older with
  | nil =>
      rw [Stamped, timestamp, delta]
      exact stamped
  | cons previous older =>
      rw [Stamped, timestamp, delta]
      exact stamped

theorem Stamped.logged {log : List TraceLogEntry} (stamped : Stamped log) (act : TraceAct) :
    Stamped (logged log act) := by
  cases log with
  | nil =>
      cases act <;> trivial
  | cons latest older =>
      cases act with
      | timestamp t => exact ⟨rfl, stamped⟩
      | coroPending value => exact stamped.write (.coroPending value)
      | nextWakeDelay value => exact stamped.write (.nextWakeDelay value)
      | schedulerUpdateI value => exact stamped.write (.schedulerUpdateI value)
      | schedulerUpdateR value => exact stamped.write (.schedulerUpdateR value)
      | schedulerUpdateRFlag mask => exact stamped.write (.schedulerUpdateRFlag mask)

/-- The time between two neighbours of the log, or beyond its end. -/
theorem Stamped.delta {log : List TraceLogEntry} (stamped : Stamped log) (age : Nat) :
    (log.getD age .zero).deltaTimestamp =
      (log.getD age .zero).timestamp - (log.getD (age + 1) .zero).timestamp := by
  induction log generalizing age with
  | nil =>
      rw [List.getD_nil, List.getD_nil]
      rfl
  | cons latest older ih =>
      cases older with
      | nil =>
          cases age with
          | zero =>
              change latest.deltaTimestamp = latest.timestamp - 0
              rw [stamped.1, stamped.2]
              rfl
          | succ age => exact ih trivial age
      | cons previous older =>
          cases age with
          | zero => exact stamped.1
          | succ age => exact ih stamped.2 age

theorem foldl_logged {log : List TraceLogEntry} (begun : log ≠ []) (stamped : Stamped log)
    (acts : List TraceAct) :
    Stamped (acts.foldl logged log) ∧
      (acts.foldl logged log).map TraceLogEntry.timestamp =
        (acts.filterMap TraceAct.stamp).reverse ++ log.map TraceLogEntry.timestamp := by
  induction acts generalizing log with
  | nil => exact ⟨stamped, rfl⟩
  | cons act acts ih =>
      rcases List.exists_cons_of_ne_nil begun with ⟨latest, older, rfl⟩
      have begun' : logged (latest :: older) act ≠ [] := by
        cases act <;> exact List.cons_ne_nil _ _
      rcases ih begun' (stamped.logged act) with ⟨stamped', stamps⟩
      refine ⟨stamped', ?_⟩
      rw [List.foldl_cons, stamps]
      cases act with
      | timestamp t =>
          change _ = (t :: acts.filterMap TraceAct.stamp).reverse ++ _
          rw [List.reverse_cons, List.append_assoc]
          rfl
      | _ => rfl

namespace TraceLogManager

/-- After any sequence of macros, the ring read backwards is the recent part of
the log, whose timestamps are those that were given.  The times between its
records add up: what passed between any two records of the ring is the sum of
the deltas. -/
theorem recent_eq_logged (acts : List TraceAct) :
    (∀ age < 128, (acts.foldl step init).recent age =
      (acts.foldl logged [.zero]).getD age .zero) ∧
    (acts.foldl logged [.zero]).map TraceLogEntry.timestamp =
      (acts.filterMap TraceAct.stamp).reverse ++ [0] ∧
    ∀ first last, first ≤ last → last < 128 →
      ((List.range' first (last - first)).map fun age =>
          ((acts.foldl step init).recent age).deltaTimestamp).sum =
        ((acts.foldl step init).recent first).timestamp -
          ((acts.foldl step init).recent last).timestamp := by
  have keeps := init_keeps.run acts
  have blank : Stamped [TraceLogEntry.zero] := ⟨rfl, rfl⟩
  rcases foldl_logged (List.cons_ne_nil _ _) blank acts with ⟨stamped, stamps⟩
  have read : ∀ age < 128, (acts.foldl step init).recent age =
      (acts.foldl logged [.zero]).getD age .zero := keeps.recent
  refine ⟨read, stamps, ?_⟩
  intro first last le kept
  obtain ⟨count, rfl⟩ := Nat.exists_eq_add_of_le le
  rw [Nat.add_sub_cancel_left]
  induction count with
  | zero =>
      rw [Nat.add_zero, sub_self]
      rfl
  | succ count ih =>
      have kept' : first + count < 128 := Nat.lt_of_succ_lt kept
      have next := stamped.delta (first + count)
      rw [← read _ kept', ← read (first + count + 1) kept] at next
      rw [List.range'_concat, List.map_append, List.sum_append, ih (Nat.le_add_right _ _) kept']
      simp only [Nat.one_mul, List.map_cons, List.map_nil, List.sum_singleton]
      rw [next]
      abel

/-- Two turns of a busy loop. -/
def twoTurns : List TraceAct :=
  [.timestamp 5, .coroPending true, .nextWakeDelay 4, .timestamp 9, .coroPending false]

theorem recent_eq_logged_twoTurns :
    (twoTurns.foldl step init).recent 1 = ⟨0, 5, 5, true, 4, 0, 0⟩ ∧
      ((List.range' 0 2).map fun age =>
        ((twoTurns.foldl step init).recent age).deltaTimestamp).sum = 9 - 0 := by
  have logs := recent_eq_logged twoTurns
  constructor
  · exact logs.1 1 (by decide)
  · exact logs.2.2 0 2 (by decide) (by decide)

end TraceLogManager

end BaremetalCoro
