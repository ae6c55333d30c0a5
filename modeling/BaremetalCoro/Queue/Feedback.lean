import Mathlib.Data.List.Basic

/-!
# Queues with feedback

A queue is served from its front, and serving an item may append further items
to its end.  What is appended depends on the item and on an environment that
serving changes in turn; nothing is assumed about either.  The queue here is
unbounded, and its history is kept: what has been served and what was added.
-/

namespace BaremetalCoro.Queue

universe u v

/-- What serving an item does: the environment it leaves, and the items it
appends. -/
abbrev Feed (σ : Type u) (α : Type v) := σ → α → σ × List α

/-- A queue in its environment, with its history. -/
structure Process (σ : Type u) (α : Type v) where
  world : σ
  queue : List α
  served : List α
  added : List α

namespace Process

variable {σ : Type u} {α : Type v}

/-- A queue before anything happens. -/
def start (world : σ) (queue : List α) : Process σ α :=
  ⟨world, queue, [], []⟩

/-- Serve the first item, if there is one. -/
def serve (feed : Feed σ α) (process : Process σ α) : Process σ α :=
  match process.queue with
  | [] => process
  | item :: rest =>
      let fed := feed process.world item
      { world := fed.1, queue := rest ++ fed.2, served := process.served ++ [item],
        added := process.added ++ fed.2 }

/-- The process after a number of turns. -/
def after (feed : Feed σ α) (process : Process σ α) : Nat → Process σ α
  | 0 => process
  | turns + 1 => (process.after feed turns).serve feed

/-- Only finitely many items are ever added. -/
def FinitelyFed (feed : Feed σ α) (process : Process σ α) : Prop :=
  ∃ total, ∀ turns, (process.after feed turns).added.length ≤ total

/-- There is always room for what is added. -/
def FitsIn (capacity : Nat) (feed : Feed σ α) (process : Process σ α) : Prop :=
  ∀ turns, (process.after feed turns).queue.length ≤ capacity

theorem serve_cons {feed : Feed σ α} {process : Process σ α} {item : α} {rest : List α}
    (waits : process.queue = item :: rest) :
    process.serve feed =
      ⟨(feed process.world item).1, rest ++ (feed process.world item).2,
        process.served ++ [item], process.added ++ (feed process.world item).2⟩ := by
  rw [serve, waits]

/-- Items are served in the order in which they came: what was served and what
waits is what waited first, and what was added. -/
theorem after_order (feed : Feed σ α) (world : σ) (queue : List α) (turns : Nat) :
    ((start world queue).after feed turns).served ++ ((start world queue).after feed turns).queue =
      queue ++ ((start world queue).after feed turns).added := by
  induction turns with
  | zero =>
      rw [after, start, List.nil_append, List.append_nil]
  | succ turns ih =>
      rw [after]
      cases hqueue : ((start world queue).after feed turns).queue with
      | nil =>
          rw [serve, hqueue]
          exact ih
      | cons item rest =>
          rw [hqueue] at ih
          rw [serve_cons hqueue]
          simp only
          rw [← List.append_assoc queue, ← ih]
          simp

end Process

end BaremetalCoro.Queue
