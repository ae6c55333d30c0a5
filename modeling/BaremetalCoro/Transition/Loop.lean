import BaremetalCoro.Transition.Core

/-!
# Loops that test at the end of a turn

A main loop runs its body, asks whether it is done and starts over.  What the
body depends on beyond the state, such as the time its statements take, is a
stream of inputs that the environment chooses, one for each turn.

Two rules show that such a loop returns.  One bounds its turns by a rank that
every turn lowers.  The other one allows turns that get nowhere, as long as
inputs under which a turn gets somewhere come again and again.  A loop can also
be followed in a view of its state.
-/

namespace BaremetalCoro.Transition

universe u v w

variable {σ : Type u} {α : Type v}

/-- `do { step } while (!finished)`, from the given turn on. -/
def doUntil (step : Step σ α) (finished : σ → Bool) (inputs : Nat → α) :
    Nat → Nat → σ → Option σ
  | 0, _, _ => none
  | fuel + 1, turn, state =>
      (step state (inputs turn)).bind fun next =>
        if finished next then some next else doUntil step finished inputs fuel (turn + 1) next

variable {step : Step σ α} {finished : σ → Bool} {inputs : Nat → α}

theorem doUntil_finish {state next : σ} {turn : Nat}
    (stepped : step state (inputs turn) = some next) (done : finished next = true) (fuel : Nat) :
    doUntil step finished inputs (fuel + 1) turn state = some next := by
  rw [doUntil, stepped, Option.bind_some, if_pos done]

/-- A loop that returns from the next state returns from this one. -/
theorem doUntil_continue {state next target : σ} {turn fuel : Nat}
    (stepped : step state (inputs turn) = some next) (notDone : ¬ finished next = true)
    (later : doUntil step finished inputs fuel (turn + 1) next = some target) :
    doUntil step finished inputs (fuel + 1) turn state = some target := by
  rw [doUntil, stepped, Option.bind_some, if_neg notDone, later]

/-- A loop does not return while a predicate is kept that rules out its end. -/
theorem doUntil_eq_none {holds : σ → Prop}
    (body : ∀ ⦃state next⦄ turn, holds state → step state (inputs turn) = some next →
      holds next ∧ ¬ finished next = true)
    {source : σ} (initially : holds source) (fuel turn : Nat) :
    doUntil step finished inputs fuel turn source = none := by
  induction fuel generalizing source turn with
  | zero => rfl
  | succ fuel ih =>
      rw [doUntil]
      cases stepped : step source (inputs turn) with
      | none => rfl
      | some next =>
          rcases body turn initially stepped with ⟨kept, notDone⟩
          rw [Option.bind_some, if_neg notDone]
          exact ih kept (turn + 1)

/-- A loop does not return in fewer turns than a rank that is zero at its end
and lowered by at most one in each turn. -/
theorem doUntil_eq_none_of_rank {holds : σ → Prop} (rank : σ → Nat)
    (body : ∀ ⦃state next⦄ turn, holds state → step state (inputs turn) = some next →
      holds next ∧ rank state ≤ rank next + 1 ∧ (finished next = true → rank next = 0))
    {source : σ} (initially : holds source) {fuel : Nat} (few : fuel < rank source) (turn : Nat) :
    doUntil step finished inputs fuel turn source = none := by
  induction fuel generalizing source turn with
  | zero => rfl
  | succ fuel ih =>
      rw [doUntil]
      cases stepped : step source (inputs turn) with
      | none => rfl
      | some next =>
          rcases body turn initially stepped with ⟨kept, lowered, zero⟩
          have left : fuel < rank next :=
            Nat.lt_of_succ_lt_succ (Nat.lt_of_lt_of_le few lowered)
          have notDone : ¬ finished next = true := by
            intro done
            rw [zero done] at left
            exact absurd left (Nat.not_lt_zero fuel)
          rw [Option.bind_some, if_neg notDone]
          exact ih kept left (turn + 1)

/-- What a view of the state shows of a loop is a loop itself, if the view is
enough to follow the body and to tell when the loop is done. -/
theorem doUntil_map {τ : Type w} (view : σ → τ) {other : Step τ α} {otherFinished : τ → Bool}
    {holds : σ → Prop}
    (follows : ∀ ⦃state⦄ turn, holds state →
      (step state (inputs turn)).map view = other (view state) (inputs turn))
    (kept : ∀ ⦃state next⦄ turn, holds state → step state (inputs turn) = some next →
      holds next ∧ finished next = otherFinished (view next))
    {source : σ} (initially : holds source) (fuel turn : Nat) :
    (doUntil step finished inputs fuel turn source).map view =
      doUntil other otherFinished inputs fuel turn (view source) := by
  induction fuel generalizing source turn with
  | zero => rfl
  | succ fuel ih =>
      rw [doUntil, doUntil, ← follows turn initially]
      cases stepped : step source (inputs turn) with
      | none => rfl
      | some next =>
          rcases kept turn initially stepped with ⟨later, agree⟩
          rw [Option.map_some, Option.bind_some, Option.bind_some, agree]
          split
          · rfl
          · exact ih later (turn + 1)

/-- A loop each turn of which finishes or lowers a rank takes no more turns
than the rank allows. -/
theorem doUntil_of_rank {holds : σ → Prop} (rank : σ → Nat)
    (body : ∀ ⦃state⦄ turn, holds state → ∃ next, step state (inputs turn) = some next ∧
      holds next ∧ (finished next = true ∨ rank next < rank state))
    {source : σ} (initially : holds source) {fuel : Nat} (enough : rank source < fuel)
    (turn : Nat) :
    ∃ target, doUntil step finished inputs fuel turn source = some target ∧ holds target ∧
      finished target = true := by
  induction fuel generalizing source turn with
  | zero => exact absurd enough (Nat.not_lt_zero _)
  | succ fuel ih =>
      rcases body turn initially with ⟨next, stepped, kept, advanced⟩
      by_cases done : finished next = true
      · exact ⟨next, doUntil_finish stepped done fuel, kept, done⟩
      · have lower : rank next < fuel :=
          Nat.lt_of_lt_of_le (advanced.resolve_left done) (Nat.le_of_lt_succ enough)
        rcases ih kept lower (turn + 1) with ⟨target, later, reached⟩
        exact ⟨target, doUntil_continue stepped done later, reached⟩

/-- A loop returns when each of its turns finishes, lowers a rank, or leaves
the rank as it is under an input that does not help, and helpful inputs come
again and again. -/
theorem exists_doUntil_of_fair {β : Type w} {lower : β → β → Prop} (wellFounded : WellFounded lower)
    {holds : σ → Prop} (rank : σ → β) {helpful : α → Prop}
    (again : ∀ turn, ∃ later, turn ≤ later ∧ helpful (inputs later))
    (body : ∀ ⦃state⦄ turn, holds state → ∃ next, step state (inputs turn) = some next ∧
      holds next ∧ (finished next = true ∨ lower (rank next) (rank state) ∨
        (rank next = rank state ∧ ¬ helpful (inputs turn))))
    {source : σ} (initially : holds source) (turn : Nat) :
    ∃ fuel target, doUntil step finished inputs fuel turn source = some target ∧
      holds target ∧ finished target = true := by
  induction hrank : rank source using wellFounded.induction generalizing source turn with
  | _ bound ih =>
      rcases again turn with ⟨later, notBefore, helps⟩
      -- turns without effect can only last until the next helpful input
      induction hgap : later - turn generalizing source turn with
      | zero =>
          have now : later = turn := Nat.le_antisymm (Nat.sub_eq_zero_iff_le.mp hgap) notBefore
          rw [now] at helps
          rcases body turn initially with ⟨next, stepped, kept, advanced⟩
          by_cases done : finished next = true
          · exact ⟨1, next, doUntil_finish stepped done 0, kept, done⟩
          · rcases advanced.resolve_left done with below | ⟨_, useless⟩
            · rw [hrank] at below
              rcases ih _ below kept (turn + 1) rfl with ⟨fuel, target, returns, reached⟩
              exact ⟨fuel + 1, target, doUntil_continue stepped done returns, reached⟩
            · exact absurd helps useless
      | succ gap gapIh =>
          rcases body turn initially with ⟨next, stepped, kept, advanced⟩
          by_cases done : finished next = true
          · exact ⟨1, next, doUntil_finish stepped done 0, kept, done⟩
          · have returnsLater : ∃ fuel target,
                doUntil step finished inputs fuel (turn + 1) next = some target ∧
                  holds target ∧ finished target = true := by
              rcases advanced.resolve_left done with below | ⟨same, _⟩
              · rw [hrank] at below
                exact ih _ below kept (turn + 1) rfl
              · exact gapIh kept (turn + 1) (same.trans hrank) (by omega) (by omega)
            rcases returnsLater with ⟨fuel, target, returns, reached⟩
            exact ⟨fuel + 1, target, doUntil_continue stepped done returns, reached⟩

end BaremetalCoro.Transition
