import BaremetalCoro.Queue.Feedback
import BaremetalCoro.Scheduler.Unordered

/-!
# Draining an unordered scheduler

`resume` of `scheduler_unordered` loops until its list is empty.  Each turn
hands control to a co-routine, and what that does to the rest of the program
and to the scheduler itself is a parameter: a `Body`.  The loop need not end,
so it takes fuel, and `Holds.resume_rule` is the rule of total correctness for
it: an invariant that each turn restores, and a rank that each turn lowers.

A family of co-routines that only insert further handles is a queue with
feedback, and the loop serves that queue.
-/

namespace BaremetalCoro

namespace SchedulerUnordered

variable {σ H : Type} {N : Nat}

/-- What `handle.resume()` does until it returns, to the rest of the program
and to the scheduler. -/
abbrev Body (σ H : Type) (N : Nat) :=
  σ → H → SchedulerUnordered H N → Option (σ × SchedulerUnordered H N)

/-- Wake up the pending co-routines. -/
def resume (body : Body σ H N) :
    Nat → σ → SchedulerUnordered H N → Option (σ × SchedulerUnordered H N)
  | 0, _, _ => none
  | fuel + 1, world, scheduler =>
      match scheduler.resumeTurn with
      | none => none
      | some .done => some (world, scheduler)
      | some (.resumed handle scheduler) =>
          (body world handle scheduler).bind fun next => resume body fuel next.1 next.2

/-- A call on an empty list does nothing. -/
theorem Holds.resume_nil {scheduler : SchedulerUnordered H N} (holds : scheduler.Holds [])
    (body : Body σ H N) {fuel : Nat} (enough : 0 < fuel) (world : σ) :
    resume body fuel world scheduler = some (world, scheduler) := by
  cases fuel with
  | zero => contradiction
  | succ fuel => rw [resume, holds.resumeTurn_nil]

/-- The loop returns with an empty list when each turn restores an invariant
and lowers a rank. -/
theorem Holds.resume_rule {body : Body σ H N} (keeps : σ → List H → Prop)
    (rank : σ → List H → Nat)
    (turn : ∀ {world : σ} {handle : H} {rest : List H} {scheduler : SchedulerUnordered H N},
      keeps world (handle :: rest) → scheduler.Holds rest →
      ∃ world' scheduler' waiting', body world handle scheduler = some (world', scheduler') ∧
        scheduler'.Holds waiting' ∧ keeps world' waiting' ∧
        rank world' waiting' < rank world (handle :: rest))
    {world : σ} {scheduler : SchedulerUnordered H N} {waiting : List H}
    (holds : scheduler.Holds waiting) (initially : keeps world waiting) :
    ∃ world' scheduler',
      (∀ fuel, rank world waiting < fuel →
        resume body fuel world scheduler = some (world', scheduler')) ∧
      scheduler'.Holds [] ∧ keeps world' [] := by
  induction hrank : rank world waiting using Nat.strong_induction_on
    generalizing world scheduler waiting with
  | _ bound ih =>
      cases waiting with
      | nil =>
          refine ⟨world, scheduler, ?_, holds, initially⟩
          intro fuel enough
          exact holds.resume_nil body (Nat.zero_lt_of_lt enough) world
      | cons handle rest =>
          rcases holds.resumeTurn_cons with ⟨popped, turnEq, poppedHolds⟩
          rcases turn initially poppedHolds with
            ⟨world', scheduler', waiting', bodyEq, holds', kept, lower⟩
          rw [hrank] at lower
          rcases ih _ lower holds' kept rfl with ⟨final, drained, returns, empty, finally_⟩
          refine ⟨final, drained, ?_, empty, finally_⟩
          intro fuel enough
          cases fuel with
          | zero => contradiction
          | succ fuel =>
              rw [resume, turnEq]
              simp only [bodyEq, Option.bind_some]
              exact returns fuel (lt_of_lt_of_le lower (Nat.le_of_lt_succ enough))

/-! ## Co-routines that insert further handles -/

/-- Handles inserted with room for all of them are appended in order. -/
theorem Holds.insert_all {scheduler : SchedulerUnordered H N} {waiting : List H}
    (holds : scheduler.Holds waiting) {handles : List H}
    (room : (waiting ++ handles).length ≤ N) :
    (handles.foldl SchedulerUnordered.insert scheduler).Holds (waiting ++ handles) := by
  induction handles generalizing scheduler waiting with
  | nil =>
      rw [List.append_nil]
      exact holds
  | cons handle rest ih =>
      have fits : waiting.length < N := by
        rw [List.length_append, List.length_cons] at room
        omega
      have inserted := holds.insert handle
      rw [appended, if_pos fits] at inserted
      rw [List.append_cons] at room ⊢
      exact ih inserted room

/-- What a call of `resume` did: the handles it resumed, and those that were
inserted meanwhile. -/
structure History (H : Type) where
  resumed : List H
  inserted : List H

/-- A co-routine that inserts the handles it is fed with, with a note of what
it did. -/
def feeding (feed : Queue.Feed σ H) : Body (σ × History H) H N :=
  fun world handle scheduler =>
    let fed := feed world.1 handle
    some ((fed.1, ⟨world.2.resumed ++ [handle], world.2.inserted ++ fed.2⟩),
      fed.2.foldl SchedulerUnordered.insert scheduler)

/-- The loop keeps pace with the unbounded queue that started from `world` and
`waiting`. -/
def KeepsPace (feed : Queue.Feed σ H) (world : σ) (waiting : List H) (state : σ × History H)
    (queue : List H) : Prop :=
  ∃ turns, (Queue.Process.start world waiting).after feed turns =
    ⟨state.1, queue, state.2.resumed, state.2.inserted⟩

theorem KeepsPace.order {feed : Queue.Feed σ H} {world : σ} {waiting queue : List H}
    {state : σ × History H} (keeps : KeepsPace feed world waiting state queue) :
    state.2.resumed ++ queue = waiting ++ state.2.inserted := by
  rcases keeps with ⟨turns, afterEq⟩
  have order := Queue.Process.after_order feed world waiting turns
  rw [afterEq] at order
  exact order

/-- A turn of the loop keeps pace as long as there is room. -/
theorem KeepsPace.turn {feed : Queue.Feed σ H} {world : σ} {waiting rest : List H}
    {state : σ × History H} {handle : H}
    (keeps : KeepsPace feed world waiting state (handle :: rest))
    (room : (Queue.Process.start world waiting).FitsIn N feed)
    {scheduler : SchedulerUnordered H N} (holds : scheduler.Holds rest) :
    ∃ state' scheduler' queue', feeding feed state handle scheduler = some (state', scheduler') ∧
      scheduler'.Holds queue' ∧ KeepsPace feed world waiting state' queue' ∧
      state'.2.resumed.length = state.2.resumed.length + 1 := by
  rcases state with ⟨environment, history⟩
  rcases keeps with ⟨turns, afterEq⟩
  have served : (Queue.Process.start world waiting).after feed (turns + 1) =
      ⟨(feed environment handle).1, rest ++ (feed environment handle).2,
        history.resumed ++ [handle], history.inserted ++ (feed environment handle).2⟩ := by
    rw [Queue.Process.after, afterEq, Queue.Process.serve_cons rfl]
  have fits := room (turns + 1)
  rw [served] at fits
  exact ⟨_, _, _, rfl, holds.insert_all fits, ⟨turns + 1, served⟩, List.length_append⟩

/-- When only finitely many handles are inserted, and never more than there is
room for, `resume` returns with an empty list; it has resumed the handles in
the order of their insertion, those inserted meanwhile included. -/
theorem resume_drains {feed : Queue.Feed σ H} {scheduler : SchedulerUnordered H N}
    {waiting : List H} (holds : scheduler.Holds waiting) (world : σ)
    (room : (Queue.Process.start world waiting).FitsIn N feed)
    (finite : (Queue.Process.start world waiting).FinitelyFed feed) :
    ∃ turns world' history scheduler',
      (∀ fuel, turns < fuel → resume (feeding feed) fuel (world, ⟨[], []⟩) scheduler =
        some ((world', history), scheduler')) ∧
      scheduler'.empty = true ∧ scheduler'.entries = [] ∧
      history.resumed = waiting ++ history.inserted := by
  rcases finite with ⟨total, bounded⟩
  have initially : KeepsPace feed world waiting (world, ⟨[], []⟩) waiting := ⟨0, rfl⟩
  -- Each turn uses up one of the insertions that are ever made.
  rcases holds.resume_rule (KeepsPace feed world waiting)
    (fun state _ => waiting.length + total - state.2.resumed.length)
    (by
      intro state handle rest scheduler keeps restHolds
      rcases keeps.turn room restHolds with
        ⟨state', scheduler', queue', bodyEq, holds', keeps', counted⟩
      have lengths := congrArg List.length keeps.order
      rcases keeps with ⟨turns, afterEq⟩
      have added := bounded turns
      rw [afterEq] at added
      simp only [List.length_append, List.length_cons] at lengths added
      exact ⟨state', scheduler', queue', bodyEq, holds', keeps', by omega⟩) initially with
    ⟨⟨world', history⟩, scheduler', returns, drained, keeps⟩
  have order := keeps.order
  rw [List.append_nil] at order
  exact ⟨_, world', history, scheduler', returns, drained.empty_iff.mpr rfl, drained.entries_eq,
    order⟩

/-- Co-routines that wait on the same scheduler again, as often as the
environment says. -/
def waitAgain : Queue.Feed Nat Nat
  | 0, _ => (0, [])
  | more + 1, handle => (more, [handle])

theorem waitAgain_bounded (turns : Nat) :
    ((Queue.Process.start 3 [7]).after waitAgain turns).queue.length ≤ 1 ∧
      ((Queue.Process.start 3 [7]).after waitAgain turns).added.length +
        ((Queue.Process.start 3 [7]).after waitAgain turns).world = 3 := by
  induction turns with
  | zero => decide
  | succ turns ih =>
      rw [Queue.Process.after]
      generalize (Queue.Process.start 3 [7]).after waitAgain turns = process at ih ⊢
      rcases process with ⟨world, queue, served, added⟩
      rcases ih with ⟨short, balance⟩
      cases queue with
      | nil => exact ⟨short, balance⟩
      | cons handle rest =>
          cases world with
          | zero =>
              simp only [Queue.Process.serve, waitAgain, List.append_nil]
              exact ⟨Nat.le_of_succ_le short, balance⟩
          | succ more =>
              simp only [Queue.Process.serve, waitAgain, List.length_append, List.length_cons,
                List.length_nil] at short balance ⊢
              omega

/-- A single co-routine runs four times in one call. -/
theorem resume_drains_waitAgain :
    ∃ turns world' history scheduler',
      (∀ fuel, turns < fuel → resume (feeding waitAgain) fuel (3, ⟨[], []⟩)
        ((init fun _ => ⟨none, none, none⟩ : SchedulerUnordered Nat 1).insert 7) =
          some ((world', history), scheduler')) ∧
      scheduler'.empty = true ∧ scheduler'.entries = [] ∧
      history.resumed = [7] ++ history.inserted := by
  have holds : ((init fun _ => ⟨none, none, none⟩ : SchedulerUnordered Nat 1).insert 7).Holds [7] :=
    (init_holds _).insert 7
  exact resume_drains holds 3 (fun turns => (waitAgain_bounded turns).1)
    ⟨3, fun turns => (Nat.le_add_right _ _).trans (waitAgain_bounded turns).2.le⟩

end SchedulerUnordered

end BaremetalCoro
