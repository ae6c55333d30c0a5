import Mathlib.Data.List.Basic
import Mathlib.Data.List.Induction

/-!
# Labelled partial transitions

A component that is driven from outside is a partial function from a state and
an action to the next state; failure stands for a fault or for an action the
component does not accept.  A run folds such a step over a list of actions and
preserves failure, so an undefined intermediate state is never totalized.

The rules below are the only induction principles about runs the rest of the
development uses: one preserved predicate, one accumulated relation, and one
simulation between two systems.
-/

namespace BaremetalCoro.Transition

universe u v w x

/-- A partial transition driven by actions. -/
abbrev Step (σ : Type u) (α : Type v) := σ → α → Option σ

/-- Execute a list of actions, failing at the first undefined step. -/
def run {σ : Type u} {α : Type v} (step : Step σ α) : σ → List α → Option σ
  | state, [] => some state
  | state, action :: rest => (step state action).bind fun next => run step next rest

@[simp]
theorem run_nil {σ : Type u} {α : Type v} (step : Step σ α) (state : σ) :
    run step state [] = some state :=
  rfl

theorem run_cons {σ : Type u} {α : Type v} (step : Step σ α) (state : σ)
    (action : α) (rest : List α) :
    run step state (action :: rest) =
      (step state action).bind fun next => run step next rest :=
  rfl

theorem run_cons_eq_some_iff {σ : Type u} {α : Type v} (step : Step σ α)
    (state target : σ) (action : α) (rest : List α) :
    run step state (action :: rest) = some target ↔
      ∃ middle, step state action = some middle ∧ run step middle rest = some target := by
  rw [run_cons]
  exact Option.bind_eq_some_iff

theorem run_cons_of_step {σ : Type u} {α : Type v} {step : Step σ α} {state middle target : σ}
    {action : α} {rest : List α} (first : step state action = some middle)
    (remaining : run step middle rest = some target) :
    run step state (action :: rest) = some target :=
  (run_cons_eq_some_iff step state target action rest).mpr ⟨middle, first, remaining⟩

/-- Running a concatenation is running the two parts in turn. -/
theorem run_append {σ : Type u} {α : Type v} (step : Step σ α) (state : σ)
    (first second : List α) :
    run step state (first ++ second) =
      (run step state first).bind fun middle => run step middle second := by
  induction first generalizing state with
  | nil => rfl
  | cons action rest ih =>
      rw [List.cons_append, run_cons, run_cons, Option.bind_assoc]
      congr 1
      funext next
      exact ih next

theorem run_append_eq_some_iff {σ : Type u} {α : Type v} (step : Step σ α)
    (state target : σ) (first second : List α) :
    run step state (first ++ second) = some target ↔
      ∃ middle, run step state first = some middle ∧
        run step middle second = some target := by
  rw [run_append]
  exact Option.bind_eq_some_iff

theorem run_append_of_run {σ : Type u} {α : Type v} {step : Step σ α} {state middle target : σ}
    {first second : List α} (ran : run step state first = some middle)
    (continued : run step middle second = some target) :
    run step state (first ++ second) = some target :=
  (run_append_eq_some_iff step state target first second).mpr ⟨middle, ran, continued⟩

theorem run_map {σ : Type u} {α : Type v} {β : Type w} (step : Step σ β) (action : α → β)
    (state : σ) (names : List α) :
    run step state (names.map action) =
      run (fun state name => step state (action name)) state names := by
  induction names generalizing state with
  | nil => rfl
  | cons name rest ih =>
      rw [List.map_cons, run_cons, run_cons]
      congr 1
      funext next
      exact ih next

/-- `target` is reached from `source` by some list of actions. -/
def Reachable {σ : Type u} {α : Type v} (step : Step σ α) (source target : σ) : Prop :=
  ∃ actions, run step source actions = some target

theorem Reachable.refl {σ : Type u} {α : Type v} (step : Step σ α) (state : σ) :
    Reachable step state state :=
  ⟨[], rfl⟩

theorem Reachable.tail {σ : Type u} {α : Type v} {step : Step σ α}
    {source middle target : σ} {action : α} (reachable : Reachable step source middle)
    (last : step middle action = some target) : Reachable step source target := by
  rcases reachable with ⟨actions, ran⟩
  exact ⟨actions ++ [action], run_append_of_run ran (run_cons_of_step last rfl)⟩

theorem Reachable.trans {σ : Type u} {α : Type v} {step : Step σ α}
    {source middle target : σ} (first : Reachable step source middle)
    (second : Reachable step middle target) : Reachable step source target := by
  rcases first with ⟨actions, ran⟩
  rcases second with ⟨further, continued⟩
  exact ⟨actions ++ further, run_append_of_run ran continued⟩

/-- A predicate kept by every step is kept by every run. -/
theorem run_invariant {σ : Type u} {α : Type v} {step : Step σ α} {holds : σ → Prop}
    (preserved : ∀ ⦃state action next⦄, holds state → step state action = some next → holds next)
    {source target : σ} {actions : List α} (initially : holds source)
    (ran : run step source actions = some target) : holds target := by
  induction actions generalizing source with
  | nil =>
      cases ran
      exact initially
  | cons action rest ih =>
      obtain ⟨middle, first, remaining⟩ :=
        (run_cons_eq_some_iff step source target action rest).mp ran
      exact ih (preserved initially first) remaining

/-- A predicate kept by one action is kept by its repetition. -/
theorem run_replicate_invariant {σ : Type u} {α : Type v} {step : Step σ α} {action : α}
    {holds : σ → Prop}
    (preserved : ∀ ⦃state next⦄, holds state → step state action = some next → holds next)
    {source target : σ} {count : Nat} (initially : holds source)
    (ran : run step source (List.replicate count action) = some target) : holds target := by
  induction count generalizing source with
  | zero =>
      cases ran
      exact initially
  | succ count ih =>
      rcases (run_cons_eq_some_iff step source target action _).mp ran with
        ⟨middle, first, remaining⟩
      exact ih (preserved initially first) remaining

/-- An action that goes on, and lowers a rank, until the end is reached. -/
theorem exists_run_replicate {σ : Type u} {α : Type v} {step : Step σ α} {action : α}
    {holds finished : σ → Prop} (rank : σ → Nat)
    (progress : ∀ ⦃state⦄, holds state → finished state ∨
      ∃ next, step state action = some next ∧ holds next ∧ rank next < rank state)
    {source : σ} (initially : holds source) :
    ∃ count target, run step source (List.replicate count action) = some target ∧
      holds target ∧ finished target := by
  induction hrank : rank source using Nat.strongRecOn generalizing source with
  | _ bound ih =>
      rcases progress initially with done | ⟨next, stepped, kept, lower⟩
      · exact ⟨0, source, rfl, initially, done⟩
      · rw [hrank] at lower
        rcases ih _ lower kept rfl with ⟨count, target, ran, reached⟩
        exact ⟨count + 1, target, run_cons_of_step stepped ran, reached⟩

/-- Every step of a run meets a guard on the action and the state it is taken
in. -/
def Along {σ : Type u} {α : Type v} (step : Step σ α) (guard : σ → α → Prop) (source : σ)
    (actions : List α) : Prop :=
  ∀ ⦃front action rest middle⦄, actions = front ++ action :: rest →
    run step source front = some middle → guard middle action

theorem Along.left {σ : Type u} {α : Type v} {step : Step σ α} {guard : σ → α → Prop}
    {source : σ} {front back : List α} (along : Along step guard source (front ++ back)) :
    Along step guard source front := by
  intro before action rest middle split ran
  have whole : front ++ back = before ++ action :: (rest ++ back) := by
    rw [split, List.append_assoc, List.cons_append]
  exact along whole ran

theorem Along.right {σ : Type u} {α : Type v} {step : Step σ α} {guard : σ → α → Prop}
    {source middle : σ} {front back : List α} (along : Along step guard source (front ++ back))
    (ran : run step source front = some middle) : Along step guard middle back := by
  intro before action rest later split continued
  have whole : front ++ back = (front ++ before) ++ action :: rest := by
    rw [split, List.append_assoc]
  exact along whole (run_append_of_run ran continued)

theorem along_nil {σ : Type u} {α : Type v} (step : Step σ α) (guard : σ → α → Prop)
    (source : σ) : Along step guard source [] := by
  intro front action rest middle split
  simp at split

theorem along_cons_iff {σ : Type u} {α : Type v} (step : Step σ α) (guard : σ → α → Prop)
    (source : σ) (action : α) (rest : List α) :
    Along step guard source (action :: rest) ↔
      guard source action ∧ ∀ next, step source action = some next →
        Along step guard next rest := by
  constructor
  · intro along
    constructor
    · exact along rfl (run_nil step source)
    · intro next stepped front later remaining middle split ran
      have whole : action :: rest = (action :: front) ++ later :: remaining :=
        congrArg (List.cons action) split
      exact along whole (run_cons_of_step stepped ran)
  · rintro ⟨first, others⟩ front later remaining middle split ran
    cases front with
    | nil =>
        cases split
        cases ran
        exact first
    | cons head front =>
        cases split
        rcases (run_cons_eq_some_iff step source middle action front).mp ran with
          ⟨next, stepped, continued⟩
        exact others next stepped rfl continued

theorem along_cons_of_step {σ : Type u} {α : Type v} {step : Step σ α} {guard : σ → α → Prop}
    {source next : σ} {action : α} {rest : List α} (first : guard source action)
    (stepped : step source action = some next) (others : Along step guard next rest) :
    Along step guard source (action :: rest) := by
  rw [along_cons_iff]
  constructor
  · exact first
  · intro other stepped'
    cases Option.some.inj (stepped.symm.trans stepped')
    exact others

/-- A guard that can be tested can be tested along a run. -/
instance decidableAlong {σ : Type u} {α : Type v} (step : Step σ α) (guard : σ → α → Prop)
    [∀ state action, Decidable (guard state action)] :
    (source : σ) → (actions : List α) → Decidable (Along step guard source actions)
  | source, [] => isTrue (along_nil step guard source)
  | source, action :: rest =>
      have : Decidable (∀ next, step source action = some next → Along step guard next rest) :=
        match step source action with
        | none => isTrue fun _ impossible => nomatch impossible
        | some next =>
            have := decidableAlong step guard next rest
            decidable_of_iff (Along step guard next rest)
              ⟨fun along _ same => Option.some.inj same ▸ along, fun all => all next rfl⟩
      decidable_of_iff _ (along_cons_iff step guard source action rest).symm

/-- A predicate kept by every step that meets the guard is kept by every run
along it. -/
theorem Along.invariant {σ : Type u} {α : Type v} {step : Step σ α} {guard : σ → α → Prop}
    {holds : σ → Prop}
    (preserved : ∀ ⦃state action next⦄, holds state → guard state action →
      step state action = some next → holds next)
    {source target : σ} {actions : List α} (along : Along step guard source actions)
    (initially : holds source) (ran : run step source actions = some target) : holds target := by
  induction actions using List.reverseRecOn generalizing target with
  | nil =>
      cases ran
      exact initially
  | append_singleton front action ih =>
      rcases (run_append_eq_some_iff step source target front [action]).mp ran with
        ⟨middle, frontRan, lastRan⟩
      rcases (run_cons_eq_some_iff step middle target action []).mp lastRan with
        ⟨final, stepped, finished⟩
      cases finished
      exact preserved (ih along.left frontRan) (along rfl frontRan) stepped

/-- A guard is met along a run when it follows at each step from an invariant
that the step keeps. -/
theorem along_of_invariant {σ : Type u} {α : Type v} {step : Step σ α} {guard : σ → α → Prop}
    {holds : σ → Prop} {source : σ} {actions : List α} (initially : holds source)
    (preserved : ∀ ⦃front action rest middle⦄, actions = front ++ action :: rest →
      run step source front = some middle → holds middle →
      guard middle action ∧ ∀ next, step middle action = some next → holds next) :
    Along step guard source actions := by
  have reached : ∀ front rest middle, actions = front ++ rest →
      run step source front = some middle → holds middle := by
    intro front
    induction front using List.reverseRecOn with
    | nil =>
        intro rest middle _ ran
        cases ran
        exact initially
    | append_singleton front action ih =>
        intro rest middle split ran
        rw [List.append_assoc] at split
        rcases (run_append_eq_some_iff step source middle front [action]).mp ran with
          ⟨before, frontRan, lastRan⟩
        rcases (run_cons_eq_some_iff step before middle action []).mp lastRan with
          ⟨final, stepped, finished⟩
        cases finished
        exact (preserved split frontRan (ih _ before split frontRan)).2 middle stepped
  intro front action rest middle split ran
  exact (preserved split ran (reached front _ middle split ran)).1

/-- A run that meets a guard descends: each counted action lowers the rank of
the state by one, no action raises it, and a settled state stays settled. -/
theorem Along.descends {σ : Type u} {α : Type v} {step : Step σ α} {guard : σ → α → Prop}
    (settled : σ → Prop) (ranked : Nat → σ → Prop) (counted : α → Bool)
    (stays : ∀ ⦃state action next⦄, settled state → step state action = some next → settled next)
    (descends : ∀ ⦃rank state action next⦄, ranked rank state → guard state action →
      step state action = some next →
      settled next ∨ ∃ rank', ranked rank' next ∧ rank' + (counted action).toNat ≤ rank)
    {rank : Nat} {source target : σ} {actions : List α} (along : Along step guard source actions)
    (initially : ranked rank source) (ran : run step source actions = some target) :
    settled target ∨ ∃ rank', ranked rank' target ∧ rank' + actions.countP counted ≤ rank := by
  induction actions generalizing rank source with
  | nil =>
      cases ran
      exact Or.inr ⟨rank, initially, Nat.le_refl rank⟩
  | cons action rest ih =>
      rcases (run_cons_eq_some_iff step source target action rest).mp ran with
        ⟨middle, first, remaining⟩
      rcases (along_cons_iff step guard source action rest).mp along with ⟨met, later⟩
      rcases descends initially met first with done | ⟨lower, lowerRanked, bound⟩
      · exact Or.inl (run_invariant stays done remaining)
      · rcases ih (later middle first) lowerRanked remaining with done | ⟨rank', ranked', bound'⟩
        · exact Or.inl done
        · refine Or.inr ⟨rank', ranked', ?_⟩
          rw [List.countP_cons]
          cases hcounted : counted action with
          | false =>
              rw [hcounted] at bound
              exact Nat.le_trans bound' bound
          | true =>
              rw [hcounted] at bound
              exact Nat.le_trans (Nat.succ_le_succ bound') bound

/-- The abstract actions met along a concrete run, when the meaning of an
action depends on the state it is taken in. -/
def labels {σ : Type u} {α : Type v} {β : Type w} (step : Step σ α) (label : σ → α → β) :
    σ → List α → List β
  | _, [] => []
  | state, action :: rest =>
      label state action :: ((step state action).elim [] fun next => labels step label next rest)

/-- A step simulation carries over to runs: the abstract system follows the
concrete one action by action and ends in a related state. -/
theorem run_simulation {σ : Type u} {α : Type v} {τ : Type w} {β : Type x}
    {step : Step σ α} {abstractStep : Step τ β} {label : σ → α → β} {related : σ → τ → Prop}
    (simulates : ∀ ⦃state action next abstractState⦄, related state abstractState →
      step state action = some next →
      ∃ abstractNext, abstractStep abstractState (label state action) = some abstractNext ∧
        related next abstractNext)
    {source target : σ} {abstractSource : τ} {actions : List α}
    (initially : related source abstractSource)
    (ran : run step source actions = some target) :
    ∃ abstractTarget,
      run abstractStep abstractSource (labels step label source actions) = some abstractTarget ∧
        related target abstractTarget := by
  induction actions generalizing source abstractSource with
  | nil =>
      cases ran
      exact ⟨abstractSource, rfl, initially⟩
  | cons action rest ih =>
      obtain ⟨middle, first, remaining⟩ :=
        (run_cons_eq_some_iff step source target action rest).mp ran
      obtain ⟨abstractMiddle, abstractFirst, relatedMiddle⟩ := simulates initially first
      obtain ⟨abstractTarget, abstractRemaining, relatedTarget⟩ := ih relatedMiddle remaining
      have followed : run abstractStep abstractSource
          (labels step label source (action :: rest)) = some abstractTarget := by
        rw [labels, first, Option.elim_some]
        exact run_cons_of_step abstractFirst abstractRemaining
      exact ⟨abstractTarget, followed, relatedTarget⟩

/-! ## Machines with outputs -/

/-- The outputs and the last state of a machine that is fed a list of actions. -/
def outputs {σ : Type u} {α : Type v} {β : Type w} (step : σ → α → β × σ) :
    σ → List α → List β × σ
  | state, [] => ([], state)
  | state, action :: rest =>
      ((step state action).1 :: (outputs step (step state action).2 rest).1,
        (outputs step (step state action).2 rest).2)

/-- Two machines that give the same output at related states and stay related
give the same outputs. -/
theorem outputs_simulation {σ : Type u} {τ : Type x} {α : Type v} {β : Type w}
    {step : σ → α → β × σ} {abstractStep : τ → α → β × τ} {related : σ → τ → Prop}
    (simulates : ∀ ⦃state abstractState⦄, related state abstractState → ∀ action,
      (step state action).1 = (abstractStep abstractState action).1 ∧
        related (step state action).2 (abstractStep abstractState action).2)
    {state : σ} {abstractState : τ} (initially : related state abstractState)
    (actions : List α) :
    (outputs step state actions).1 = (outputs abstractStep abstractState actions).1 ∧
      related (outputs step state actions).2 (outputs abstractStep abstractState actions).2 := by
  induction actions generalizing state abstractState with
  | nil => exact ⟨rfl, initially⟩
  | cons action rest ih =>
      rcases simulates initially action with ⟨same, next⟩
      rcases ih next with ⟨others, last⟩
      constructor
      · rw [outputs, outputs, same, others]
      · exact last

end BaremetalCoro.Transition
