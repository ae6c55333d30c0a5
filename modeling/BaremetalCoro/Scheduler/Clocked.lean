import BaremetalCoro.Scheduler.Awaitable
import BaremetalCoro.Scheduler.Ordering

/-!
# A delay scheduler under a clock

Time passes between the calls of a run, and never backwards.  A co-routine that
waits is inserted with an expiry counted from the clock at its insertion, so
once an entry has expired every later insertion expires after it and goes
behind it.  A `resume` with a clock reading taken since then finds the first
entry due.  Hence each such call shortens the list ahead of the expired entry,
and nothing lengthens it.

All counts have 64 bits.  The argument needs that the expiries of the later
insertions do not overflow: a delay that is long enough wraps around to a time
in the past, and its entry goes ahead of all others.
-/

namespace BaremetalCoro

open Chrono SchedulerOrdered

/-- What can happen next in a delay scheduler under a clock. -/
inductive ClockedAct (H : Type) where
  /-- The clock moves on. -/
  | advance (ticks : Nat)
  /-- The code that has control waits for a delay in microseconds, which is not
  negative. -/
  | await (handle : H) (delay : Nat)
  /-- A `resume` with the time read just before. -/
  | resumeNow
  /-- A `resume` with any other condition. -/
  | resume (readyCondition : ScheduleByDelay)
  | suspend

/-- A call of `resume` with a condition read off the clock at `moment` or
later. -/
def ClockedAct.readsSince {H : Type} (moment : Int) : ClockedAct H → Bool
  | .resumeNow => true
  | .resume readyCondition => decide (moment ≤ readyCondition.expires_)
  | .advance _ | .await _ _ | .suspend => false

/-- A system with the reading of its clock. -/
structure ClockedSystem (H : Type) (N : Nat) where
  system : System ScheduleByDelay H N
  now : Int

namespace ClockedSystem

variable {H : Type} {N : Nat}

/-- One action; all calls take the time the clock reads.  Readings of the clock
and delays are counts of 64 bits. -/
def step (clock : Clock) : Transition.Step (ClockedSystem H N) (ClockedAct H) :=
  fun clocked act =>
    match act with
    | .advance ticks =>
        if Fits64 (clocked.now + ticks) then some { clocked with now := clocked.now + ticks }
        else none
    | .await handle delay =>
        if Fits64 delay then
          let wakeCondition := ScheduleByDelay.afterDelay64 clock clocked.now delay
          (clocked.system.step (.insert handle wakeCondition)).map
            fun system => { clocked with system := system }
        else none
    | .resumeNow =>
        (clocked.system.step (.resume (ScheduleByDelay.immediate clocked.now))).map
          fun system => { clocked with system := system }
    | .resume readyCondition =>
        (clocked.system.step (.resume readyCondition)).map
          fun system => { clocked with system := system }
    | .suspend =>
        (clocked.system.step .suspend).map fun system => { clocked with system := system }

/-- The expiry of an insertion does not overflow. -/
def InRange (clock : Clock) (clocked : ClockedSystem H N) : ClockedAct H → Prop
  | .await _ delay => ScheduleByDelay.DelayFits clock clocked.now delay
  | .advance _ | .resumeNow | .resume _ | .suspend => True

instance (clock : Clock) (clocked : ClockedSystem H N) :
    (act : ClockedAct H) → Decidable (clocked.InRange clock act)
  | .await _ delay =>
      inferInstanceAs (Decidable (ScheduleByDelay.DelayFits clock clocked.now delay))
  | .advance _ | .resumeNow | .resume _ | .suspend => isTrue trivial

/-- A state that some run reaches from a new scheduler. -/
def Reachable [NeZero N] (clock : Clock) (clocked : ClockedSystem H N) : Prop :=
  ∃ buffer now, Transition.Reachable (step clock) ⟨System.init buffer, now⟩ clocked

theorem map_system_eq_some {clocked next : ClockedSystem H N} {act : Act ScheduleByDelay H}
    (mapped : (clocked.system.step act).map (fun system => { clocked with system := system }) =
      some next) :
    clocked.system.step act = some next.system ∧ next.now = clocked.now := by
  rcases Option.map_eq_some_iff.mp mapped with ⟨system, stepEq, rfl⟩
  exact ⟨stepEq, rfl⟩

/-- An action either moves the clock or is a call: an insertion that in the
range does not expire before the time read, or any other call, which for a
counted action is a `resume` with a reading taken since `moment`. -/
theorem step_cases {clock : Clock} {clocked next : ClockedSystem H N} {act : ClockedAct H}
    (stepped : step clock clocked act = some next) :
    (next.system = clocked.system ∧ clocked.now ≤ next.now ∧
      ∀ moment, act.readsSince moment = false) ∨
    ∃ call, clocked.system.step call = some next.system ∧ next.now = clocked.now ∧
      (clocked.InRange clock act → ∀ handle wakeCondition, call = .insert handle wakeCondition →
        clocked.now ≤ wakeCondition.expires_) ∧
      ∀ moment, moment ≤ clocked.now → act.readsSince moment = true →
        ∃ readyCondition, call = .resume readyCondition ∧ moment ≤ readyCondition.expires_ := by
  cases act with
  | advance ticks =>
      left
      simp only [step] at stepped
      split at stepped
      · cases stepped
        exact ⟨rfl, le_add_of_nonneg_right (Int.natCast_nonneg ticks), fun _ => rfl⟩
      · contradiction
  | await handle delay =>
      right
      simp only [step] at stepped
      split at stepped
      · rcases map_system_eq_some stepped with ⟨stepEq, nowEq⟩
        refine ⟨_, stepEq, nowEq, ?_, fun _ _ reads => by cases reads⟩
        rintro inRange _ _ ⟨rfl, rfl⟩
        exact ScheduleByDelay.le_afterDelay64 inRange (Int.natCast_nonneg delay)
      · contradiction
  | resumeNow =>
      right
      rcases map_system_eq_some stepped with ⟨stepEq, nowEq⟩
      exact ⟨_, stepEq, nowEq, (fun _ _ _ impossible => by cases impossible),
        fun _ past _ => ⟨_, rfl, past⟩⟩
  | resume readyCondition =>
      right
      rcases map_system_eq_some stepped with ⟨stepEq, nowEq⟩
      exact ⟨_, stepEq, nowEq, (fun _ _ _ impossible => by cases impossible),
        fun _ _ reads => ⟨_, rfl, of_decide_eq_true reads⟩⟩
  | suspend =>
      right
      rcases map_system_eq_some stepped with ⟨stepEq, nowEq⟩
      exact ⟨_, stepEq, nowEq, (fun _ _ _ impossible => by cases impossible),
        fun _ _ reads => by cases reads⟩

/-- Under a clock only states of the plain system are reached. -/
theorem Reachable.system [NeZero N] {clock : Clock} {clocked : ClockedSystem H N}
    (reachable : clocked.Reachable clock) : clocked.system.Reachable := by
  rcases reachable with ⟨buffer, now, acts, ran⟩
  have preserved : ∀ ⦃before : ClockedSystem H N⦄ ⦃act after⦄, before.system.Reachable →
      step clock before act = some after → after.system.Reachable := by
    intro before act after reached stepped
    rcases step_cases stepped with ⟨same, _, _⟩ | ⟨call, stepEq, _, _, _⟩
    · rw [same]
      exact reached
    · exact reached.step stepEq
  have initially : (System.init buffer : System ScheduleByDelay H N).Reachable :=
    ⟨buffer, Transition.Reachable.refl System.step _⟩
  exact Transition.run_invariant preserved initially ran

end ClockedSystem

/-! ## The place of an entry in the list -/

namespace System

variable {H : Type} {N : Nat}

/-- Where an entry stands after a call.  Insertions that expire after it go
behind it, a `resume` takes the first entry, and it does so for certain when
the entry is due itself. -/
theorem Effect.place {system next : System ScheduleByDelay H N} {act : Act ScheduleByDelay H}
    (effect : Effect system next act) (sorted : Sorted system.waiting)
    {left behind : List (ScheduleEntry ScheduleByDelay (Insertion H))}
    {entry : ScheduleEntry ScheduleByDelay (Insertion H)}
    (waits : system.waiting = left ++ entry :: behind)
    (later : ∀ handle wakeCondition, act = .insert handle wakeCondition →
      expiresOf entry < wakeCondition.expires_) :
    entry ∈ next.resumed ∨ ∃ left' behind', next.waiting = left' ++ entry :: behind' ∧
      left' <:+ left ∧
      ∀ readyCondition, act = .resume readyCondition → expiresOf entry < readyCondition.expires_ →
        left'.length + 1 ≤ left.length := by
  cases effect with
  | @insert handle wakeCondition waiting =>
      right
      have after := later handle wakeCondition rfl
      rw [inserted] at waiting
      by_cases room : system.waiting.length < N
      · have passed : ∀ other ∈ left ++ [entry],
            ¬ Precedes (system.newEntry handle wakeCondition) other := by
          intro other member fits
          have before : expiresOf other ≤ expiresOf entry := by
            rcases List.mem_append.mp member with inLeft | isEntry
            · rw [waits] at sorted
              exact (List.pairwise_append.mp sorted).2.2 other inLeft entry List.mem_cons_self
            · rw [List.mem_singleton.mp isEntry]
          have fits' := (ScheduleByDelay.readyToWake_iff _ _).mp fits
          exact absurd (fits'.trans_le before) (not_lt.mpr after.le)
        have waits' : system.waiting = (left ++ [entry]) ++ behind := by
          rw [waits, List.append_assoc]
          rfl
        rw [if_pos room, waits', Order.orderedInsert_append passed, List.append_assoc] at waiting
        exact ⟨left, _, waiting, List.suffix_refl left, fun _ impossible => by cases impossible⟩
      · rw [if_neg room, waits] at waiting
        exact ⟨left, behind, waiting, List.suffix_refl left,
          fun _ impossible => by cases impossible⟩
  | @resumed readyCondition skipped rest first before notReady ready waiting resumed =>
      rw [before] at sorted waits
      have nothing := sorted.skipped_eq_nil notReady ready
      subst nothing
      cases left with
      | nil =>
          left
          rw [resumed, (List.cons.inj waits).1]
          exact List.mem_append_right _ List.mem_cons_self
      | cons head left =>
          right
          have waits' : next.waiting = left ++ entry :: behind := by
            rw [waiting]
            exact (List.cons.inj waits).2
          exact ⟨left, behind, waits', List.suffix_cons head left, fun _ _ _ => le_rfl⟩
  | @idle readyCondition notReady same =>
      right
      have member : entry ∈ system.waiting := by
        rw [waits]
        exact List.mem_append_right left List.mem_cons_self
      have notDue : ∀ other, (Act.resume readyCondition : Act ScheduleByDelay H) = .resume other →
          expiresOf entry < other.expires_ → left.length + 1 ≤ left.length := by
        rintro _ ⟨rfl⟩ due
        have ready : entry.readyToWake readyCondition = true :=
          (ScheduleByDelay.readyToWake_iff _ _).mpr due
        rw [notReady entry member] at ready
        contradiction
      rw [same]
      exact ⟨left, behind, waits, List.suffix_refl left, notDue⟩
  | suspend _ popped =>
      right
      rw [popped]
      exact ⟨left, behind, waits, List.suffix_refl left, fun _ impossible => by cases impossible⟩

end System

namespace ClockedSystem

variable {H : Type} {N : Nat} [NeZero N]

/-- Since `moment`, `entry` waits behind `rank` of the entries of `ahead`. -/
structure Queued (moment : Int) (entry : ScheduleEntry ScheduleByDelay (Insertion H))
    (ahead : List (ScheduleEntry ScheduleByDelay (Insertion H))) (rank : Nat)
    (clocked : ClockedSystem H N) : Prop where
  reachable : clocked.system.Reachable
  past : moment ≤ clocked.now
  place : ∃ left behind, clocked.system.waiting = left ++ entry :: behind ∧ left <:+ ahead ∧
    left.length = rank

/-- An entry has been resumed in a reachable state. -/
def Settled (entry : ScheduleEntry ScheduleByDelay (Insertion H))
    (clocked : ClockedSystem H N) : Prop :=
  clocked.system.Reachable ∧ entry ∈ clocked.system.resumed

theorem Settled.step {clock : Clock} {clocked next : ClockedSystem H N} {act : ClockedAct H}
    {entry : ScheduleEntry ScheduleByDelay (Insertion H)} (settled : clocked.Settled entry)
    (stepped : ClockedSystem.step clock clocked act = some next) : next.Settled entry := by
  rcases settled with ⟨reachable, ran⟩
  rcases step_cases stepped with ⟨same, _, _⟩ | ⟨call, stepEq, _, _, _⟩
  · exact ⟨same ▸ reachable, same ▸ ran⟩
  · exact ⟨reachable.step stepEq, (reachable.valid.effect stepEq).2.mem_resumed ran⟩

/-- A counted call brings an expired entry forward, and no action in the range
sets it back. -/
theorem Queued.step {clock : Clock} {clocked next : ClockedSystem H N} {act : ClockedAct H}
    {moment : Int} {entry : ScheduleEntry ScheduleByDelay (Insertion H)}
    {ahead : List (ScheduleEntry ScheduleByDelay (Insertion H))} {rank : Nat}
    (queued : clocked.Queued moment entry ahead rank) (expired : System.expiresOf entry < moment)
    (inRange : clocked.InRange clock act)
    (stepped : ClockedSystem.step clock clocked act = some next) :
    next.Settled entry ∨ ∃ rank', next.Queued moment entry ahead rank' ∧
      rank' + (act.readsSince moment).toNat ≤ rank := by
  rcases queued with ⟨reachable, past, left, behind, waits, suffix, length⟩
  rcases step_cases stepped with ⟨same, moved, uncounted⟩ | ⟨call, stepEq, nowEq, inserts, counts⟩
  · right
    have queued' : next.Queued moment entry ahead rank :=
      ⟨same ▸ reachable, past.trans moved, left, behind, same ▸ waits, suffix, length⟩
    rw [uncounted moment]
    exact ⟨rank, queued', le_rfl⟩
  · have effect := (reachable.valid.effect stepEq).2
    have later : ∀ handle wakeCondition, call = .insert handle wakeCondition →
        System.expiresOf entry < wakeCondition.expires_ := by
      intro handle wakeCondition isInsert
      exact expired.trans_le (past.trans (inserts inRange handle wakeCondition isInsert))
    have reachable' := reachable.step stepEq
    rcases effect.place reachable.sorted waits later with
      done | ⟨left', behind', waits', suffix', shorter⟩
    · exact Or.inl ⟨reachable', done⟩
    · right
      have queued' : next.Queued moment entry ahead left'.length :=
        ⟨reachable', nowEq ▸ past, left', behind', waits', suffix'.trans suffix, rfl⟩
      rw [← length]
      cases hcounted : act.readsSince moment with
      | false => exact ⟨left'.length, queued', suffix'.length_le⟩
      | true =>
          rcases counts moment past hcounted with ⟨readyCondition, isResume, reads⟩
          exact ⟨left'.length, queued',
            shorter readyCondition isResume (expired.trans_le reads)⟩

/-- Once the clock has passed the expiry of a waiting entry, only entries that
are ahead of it now are ever ahead of it, and it has been resumed by the time
`resume` was called once more than there are such entries with readings taken
from now on, as long as no expiry overflows. -/
theorem expired_entry_resumed {clock : Clock} {start finish : ClockedSystem H N}
    (reachable : start.Reachable clock)
    {ahead behind : List (ScheduleEntry ScheduleByDelay (Insertion H))}
    {entry : ScheduleEntry ScheduleByDelay (Insertion H)}
    (waits : start.system.waiting = ahead ++ entry :: behind)
    (expired : entry.wakeCondition_.expires_ < start.now) {acts : List (ClockedAct H)}
    (inRange : Transition.Along (step clock) (InRange clock) start acts)
    (ran : Transition.run (step clock) start acts = some finish) :
    (entry ∈ finish.system.waiting → ∃ left behind',
      finish.system.waiting = left ++ entry :: behind' ∧ left <:+ ahead) ∧
    (ahead.length + 1 ≤ acts.countP (ClockedAct.readsSince start.now) →
      entry ∈ finish.system.resumed) := by
  have initially : start.Queued start.now entry ahead ahead.length :=
    ⟨reachable.system, le_rfl, ahead, behind, waits, List.suffix_refl ahead, rfl⟩
  have descended := inRange.descends (Settled entry)
    (Queued start.now entry ahead) (ClockedAct.readsSince start.now)
    (fun _ _ _ settled stepped => Settled.step settled stepped)
    (fun _ _ _ _ queued fits stepped => Queued.step queued expired fits stepped) initially ran
  rcases descended with
    ⟨finishReachable, done⟩ | ⟨rank, ⟨_, _, left, behind', waits', suffix, _⟩, bound⟩
  · constructor
    · intro stillWaits
      exact absurd done (finishReachable.accounted.not_resumed_of_waiting stillWaits)
    · intro _
      exact done
  · constructor
    · intro _
      exact ⟨left, behind', waits', suffix⟩
    · intro enough
      have counted := (Nat.le_add_left _ rank).trans bound
      exact absurd (enough.trans counted) (Nat.not_succ_le_self ahead.length)

/-- Two co-routines wait until both have expired. -/
def expiredActs : List (ClockedAct Nat) := [.await 1 5, .await 2 3, .advance 6000]

/-- The co-routine ahead runs and waits again for a short time. -/
def requeueActs : List (ClockedAct Nat) :=
  [.resumeNow, .await 2 1, .suspend, .advance 2000, .resumeNow]

theorem expired_entry_resumed_requeueActs :
    ∃ start finish : ClockedSystem Nat 2,
      Transition.run (step steadyClock) ⟨System.init System.blankBuffer, 0⟩ expiredActs =
        some start ∧
      Transition.run (step steadyClock) start requeueActs = some finish ∧
      start.system.waiting = [⟨⟨2, 1⟩, ⟨3000⟩⟩, ⟨⟨1, 0⟩, ⟨5000⟩⟩] ∧
      ⟨⟨1, 0⟩, ⟨5000⟩⟩ ∈ finish.system.resumed := by
  have observed : (Transition.run (step steadyClock)
      (⟨System.init System.blankBuffer, 0⟩ : ClockedSystem Nat 2) expiredActs).map
        (fun start => (start.system.waiting, start.now,
          (Transition.run (step steadyClock) start requeueActs).isSome,
          decide (Transition.Along (step steadyClock) (InRange steadyClock) start requeueActs))) =
      some ([⟨⟨2, 1⟩, ⟨3000⟩⟩, ⟨⟨1, 0⟩, ⟨5000⟩⟩], 6000, true, true) := by decide
  rcases Option.map_eq_some_iff.mp observed with ⟨start, startRan, startEq⟩
  simp only [Prod.mk.injEq] at startEq
  rcases startEq with ⟨waits, nowEq, succeeds, inRange⟩
  rcases Option.isSome_iff_exists.mp succeeds with ⟨finish, ran⟩
  have ahead : start.system.waiting = [⟨⟨2, 1⟩, ⟨3000⟩⟩] ++ ⟨⟨1, 0⟩, ⟨5000⟩⟩ :: [] := waits
  have resumed := expired_entry_resumed ⟨System.blankBuffer, 0, expiredActs, startRan⟩ ahead
    (nowEq ▸ (by decide)) (of_decide_eq_true inRange) ran
  rw [nowEq] at resumed
  exact ⟨start, finish, startRan, ran, waits, resumed.2 (by decide)⟩

/-- A co-routine waits until it has expired. -/
def alonePastActs : List (ClockedAct Nat) := [.await 1 0, .advance 1]

/-- Another one waits again and again for more than three hundred years. -/
def wrappingActs : List (ClockedAct Nat) :=
  [.await 2 (10 ^ 16), .resumeNow, .await 2 (10 ^ 16), .suspend, .resumeNow]

/-- An expiry that overflows puts a later entry ahead of an expired one, and
both of the next two calls of `resume` pass it over. -/
theorem expired_entry_overtaken :
    ∃ start later finish : ClockedSystem Nat 2,
      Transition.run (step steadyClock) ⟨System.init System.blankBuffer, 0⟩ alonePastActs =
        some start ∧
      start.system.waiting = [⟨⟨1, 0⟩, ⟨0⟩⟩] ∧ start.now = 1 ∧
      step steadyClock start (.await 2 (10 ^ 16)) = some later ∧
      later.system.waiting = [⟨⟨2, 1⟩, ⟨-8446744073709551615⟩⟩, ⟨⟨1, 0⟩, ⟨0⟩⟩] ∧
      Transition.run (step steadyClock) start wrappingActs = some finish ∧
      wrappingActs.countP (ClockedAct.readsSince start.now) = 2 ∧
      ⟨⟨1, 0⟩, ⟨0⟩⟩ ∉ finish.system.resumed := by
  have observed : (Transition.run (step steadyClock)
      (⟨System.init System.blankBuffer, 0⟩ : ClockedSystem Nat 2) alonePastActs).map
        (fun start => (start.system.waiting, start.now)) = some ([⟨⟨1, 0⟩, ⟨0⟩⟩], 1) := by decide
  have overtakes : (Transition.run (step steadyClock)
      (⟨System.init System.blankBuffer, 0⟩ : ClockedSystem Nat 2) alonePastActs).bind
        (fun start => (step steadyClock start (.await 2 (10 ^ 16))).map
          fun later => later.system.waiting) =
      some [⟨⟨2, 1⟩, ⟨-8446744073709551615⟩⟩, ⟨⟨1, 0⟩, ⟨0⟩⟩] := by decide
  have starves : (Transition.run (step steadyClock)
      (⟨System.init System.blankBuffer, 0⟩ : ClockedSystem Nat 2) alonePastActs).bind
        (fun start => (Transition.run (step steadyClock) start wrappingActs).map
          fun finish => decide (⟨⟨1, 0⟩, ⟨0⟩⟩ ∈ finish.system.resumed)) = some false := by decide
  rcases Option.map_eq_some_iff.mp observed with ⟨start, startRan, startEq⟩
  rw [startRan, Option.bind_some] at overtakes starves
  rcases Option.map_eq_some_iff.mp overtakes with ⟨later, laterEq, laterWaits⟩
  rcases Option.map_eq_some_iff.mp starves with ⟨finish, ran, notResumed⟩
  have waits : start.system.waiting = [⟨⟨1, 0⟩, ⟨0⟩⟩] := congrArg Prod.fst startEq
  have nowEq : start.now = 1 := congrArg Prod.snd startEq
  have counted : wrappingActs.countP (ClockedAct.readsSince start.now) = 2 := by
    rw [nowEq]
    decide
  exact ⟨start, later, finish, startRan, waits, nowEq, laterEq, laterWaits, ran, counted,
    of_decide_eq_false notResumed⟩

end ClockedSystem

end BaremetalCoro
