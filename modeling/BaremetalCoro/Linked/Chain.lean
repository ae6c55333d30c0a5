import Mathlib.Data.List.Basic
import Mathlib.Data.List.Induction
import Mathlib.Data.List.Nodup
import Mathlib.Logic.Function.Basic

/-!
# Doubly linked chains

Two partial maps `next` and `prev` on an arbitrary type of nodes describe every
chain threaded through it.  `Chained next prev before nodes after` says that
`nodes` is one such chain, entered from `before` and left towards `after`; the
two ends are parameters so that a chain splits at every position.  A write
through a possibly null pointer is `store`, and the relinking rules say what
one `store` at either end of a chain does to it.

`Visits` is the one-directional reading: the nodes met by following a single
map until it is undefined.  A chain with null ends is visited forwards along
`next` and backwards along `prev`.
-/

namespace BaremetalCoro.Linked

universe u

variable {α : Type u}

/-- Following `step` from `start` meets exactly `nodes`, in this order, and
then stops. -/
def Visits (step : α → Option α) : Option α → List α → Prop
  | start, [] => start = none
  | start, node :: rest => start = some node ∧ Visits step (step node) rest

/-- The nodes met by following `step` from `start`, at most `fuel` of them. -/
def walk (step : α → Option α) : Nat → Option α → List α
  | 0, _ => []
  | _ + 1, none => []
  | fuel + 1, some node => node :: walk step fuel (step node)

/-- A walk with enough fuel returns the visited nodes. -/
theorem Visits.walk_eq {step : α → Option α} {start : Option α} {nodes : List α}
    (visits : Visits step start nodes) {fuel : Nat} (enough : nodes.length ≤ fuel) :
    walk step fuel start = nodes := by
  induction nodes generalizing start fuel with
  | nil =>
      cases visits
      cases fuel <;> rfl
  | cons node rest ih =>
      obtain ⟨rfl, visitsRest⟩ := visits
      cases fuel with
      | zero => simp at enough
      | succ fuel =>
          have enoughRest : rest.length ≤ fuel := by simpa using enough
          rw [walk, ih visitsRest enoughRest]

/-- `nodes` is a chain of the two maps, entered from `before` and left towards
`after`. -/
def Chained (next prev : α → Option α) : Option α → List α → Option α → Prop
  | _, [], _ => True
  | before, node :: rest, after =>
      prev node = before ∧ next node = rest.head?.or after ∧
        Chained next prev (some node) rest after

/-- A chain splits at every position into two chains that name each other's
end. -/
theorem chained_append {next prev : α → Option α} {before after : Option α}
    {front back : List α} :
    Chained next prev before (front ++ back) after ↔
      Chained next prev before front (back.head?.or after) ∧
        Chained next prev (front.getLast?.or before) back after := by
  induction front generalizing before with
  | nil => simp [Chained]
  | cons node rest ih =>
      have headEq : (rest ++ back).head?.or after = rest.head?.or (back.head?.or after) := by
        cases rest <;> simp
      have lastEq : (node :: rest).getLast?.or before = rest.getLast?.or (some node) := by
        cases rest <;> simp [List.getLast?_cons]
      simp only [List.cons_append, Chained, headEq, ih, lastEq, and_assoc]

/-- A chain only depends on the links of its own nodes. -/
theorem Chained.congr {next prev next' prev' : α → Option α} {before after : Option α}
    {nodes : List α} (linked : Chained next prev before nodes after)
    (sameNext : ∀ node ∈ nodes, next' node = next node)
    (samePrev : ∀ node ∈ nodes, prev' node = prev node) :
    Chained next' prev' before nodes after := by
  induction nodes generalizing before with
  | nil => trivial
  | cons node rest ih =>
      obtain ⟨prevEq, nextEq, linkedRest⟩ := linked
      refine ⟨?_, ?_, ?_⟩
      · rw [samePrev node List.mem_cons_self, prevEq]
      · rw [sameNext node List.mem_cons_self, nextEq]
      · exact ih linkedRest
          (fun other member => sameNext other (List.mem_cons_of_mem node member))
          (fun other member => samePrev other (List.mem_cons_of_mem node member))

/-- A chain that leaves towards null is visited forwards along `next`. -/
theorem Chained.visits_next {next prev : α → Option α} {before : Option α} {nodes : List α}
    (linked : Chained next prev before nodes none) : Visits next nodes.head? nodes := by
  induction nodes generalizing before with
  | nil => rfl
  | cons node rest ih =>
      obtain ⟨-, nextEq, linkedRest⟩ := linked
      refine ⟨rfl, ?_⟩
      rw [nextEq, Option.or_none]
      exact ih linkedRest

/-- A chain entered from null is visited backwards along `prev`. -/
theorem Chained.visits_prev {next prev : α → Option α} {after : Option α} {nodes : List α}
    (linked : Chained next prev none nodes after) :
    Visits prev nodes.getLast? nodes.reverse := by
  induction nodes using List.reverseRecOn generalizing after with
  | nil => rfl
  | append_singleton front node ih =>
      obtain ⟨linkedFront, prevEq, -, -⟩ := chained_append.mp linked
      rw [List.reverse_append, List.getLast?_append]
      refine ⟨rfl, ?_⟩
      rw [prevEq, Option.or_none]
      exact ih linkedFront

/-! ## Writes through pointers -/

variable [DecidableEq α]

/-- A write through a possibly null pointer: a null pointer writes nothing. -/
def store (links : α → Option α) : Option α → Option α → α → Option α
  | none, _ => links
  | some node, value => Function.update links node value

@[simp]
theorem store_none (links : α → Option α) (value : Option α) :
    store links none value = links :=
  rfl

@[simp]
theorem store_some (links : α → Option α) (node : α) (value : Option α) :
    store links (some node) value = Function.update links node value :=
  rfl

theorem store_of_ne {links : α → Option α} {pointer value : Option α} {node : α}
    (other : pointer ≠ some node) : store links pointer value node = links node := by
  cases pointer with
  | none => rfl
  | some target =>
      have distinct : node ≠ target := fun equal => other (equal ▸ rfl)
      rw [store_some, Function.update_of_ne distinct]

/-- Redirecting the last node of a chain only changes where the chain leaves
to. -/
theorem Chained.store_next {next prev : α → Option α} {before after : Option α}
    {nodes : List α} (linked : Chained next prev before nodes after) (nodup : nodes.Nodup)
    (target : Option α) :
    Chained (store next nodes.getLast? target) prev before nodes target := by
  induction nodes using List.reverseRecOn with
  | nil => trivial
  | append_singleton front node =>
      obtain ⟨linkedFront, prevEq, -, -⟩ := chained_append.mp linked
      have fresh : node ∉ front := by
        intro member
        exact (List.nodup_append.mp nodup).2.2 node member node List.mem_cons_self rfl
      rw [List.getLast?_concat, store_some]
      refine chained_append.mpr ⟨?_, prevEq, ?_, trivial⟩
      · refine linkedFront.congr (fun other member => ?_) (fun _ _ => rfl)
        have distinct : other ≠ node := fun equal => fresh (equal ▸ member)
        exact Function.update_of_ne distinct target next
      · simp

/-- Redirecting the first node of a chain backwards only changes where the
chain is entered from. -/
theorem Chained.store_prev {next prev : α → Option α} {before after : Option α}
    {nodes : List α} (linked : Chained next prev before nodes after) (nodup : nodes.Nodup)
    (source : Option α) :
    Chained next (store prev nodes.head? source) source nodes after := by
  cases nodes with
  | nil => trivial
  | cons node rest =>
      obtain ⟨-, nextEq, linkedRest⟩ := linked
      have fresh : node ∉ rest := (List.nodup_cons.mp nodup).1
      rw [List.head?_cons, store_some]
      refine ⟨Function.update_self node source prev, nextEq, ?_⟩
      refine linkedRest.congr (fun _ _ => rfl) (fun other member => ?_)
      have distinct : other ≠ node := fun equal => fresh (equal ▸ member)
      exact Function.update_of_ne distinct source prev

/-- A write through the last node of one list is not seen by the nodes of a
disjoint list. -/
theorem store_getLast?_of_mem {links : α → Option α} {value : Option α} {written read : List α}
    (disjoint : written.Disjoint read) {node : α} (member : node ∈ read) :
    store links written.getLast? value node = links node := by
  apply store_of_ne
  intro equal
  exact disjoint (List.mem_of_getLast? equal) member

/-- A write through the first node of one list is not seen by the nodes of a
disjoint list. -/
theorem store_head?_of_mem {links : α → Option α} {value : Option α} {written read : List α}
    (disjoint : written.Disjoint read) {node : α} (member : node ∈ read) :
    store links written.head? value node = links node := by
  apply store_of_ne
  intro equal
  exact disjoint (List.mem_of_mem_head? equal) member

/-- A node is linked into a chain by its own two links and by one write at
each neighbour. -/
theorem Chained.insert {next prev next' prev' : α → Option α} {before after : Option α}
    {front back : List α} {node : α}
    (chained : Chained next prev before (front ++ back) after)
    (nodup : (front ++ back).Nodup)
    (nodeNext : next' node = back.head?.or after)
    (nodePrev : prev' node = front.getLast?.or before)
    (sameNext : ∀ other ∈ front ++ back,
      next' other = store next front.getLast? (some node) other)
    (samePrev : ∀ other ∈ front ++ back,
      prev' other = store prev back.head? (some node) other) :
    Chained next' prev' before (front ++ node :: back) after := by
  obtain ⟨frontNodup, backNodup, disjoint⟩ := List.nodup_append'.mp nodup
  obtain ⟨chainedFront, chainedBack⟩ := chained_append.mp chained
  have newFront : Chained next' prev' before front (some node) := by
    apply (chainedFront.store_next frontNodup (some node)).congr
    · intro other member
      exact sameNext other (List.mem_append_left back member)
    · intro other member
      rw [samePrev other (List.mem_append_left back member)]
      exact store_head?_of_mem (List.disjoint_symm disjoint) member
  have newBack : Chained next' prev' (some node) back after := by
    apply (chainedBack.store_prev backNodup (some node)).congr
    · intro other member
      rw [sameNext other (List.mem_append_right front member)]
      exact store_getLast?_of_mem disjoint member
    · intro other member
      exact samePrev other (List.mem_append_right front member)
  apply chained_append.mpr
  exact ⟨newFront, nodePrev, nodeNext, newBack⟩

/-- A node is unlinked from a chain by one write at each neighbour. -/
theorem Chained.remove {next prev next' prev' : α → Option α} {before after : Option α}
    {front back : List α} {node : α}
    (chained : Chained next prev before (front ++ node :: back) after)
    (nodup : (front ++ back).Nodup)
    (sameNext : ∀ other ∈ front ++ back,
      next' other = store next front.getLast? (back.head?.or after) other)
    (samePrev : ∀ other ∈ front ++ back,
      prev' other = store prev back.head? (front.getLast?.or before) other) :
    Chained next' prev' before (front ++ back) after := by
  obtain ⟨frontNodup, backNodup, disjoint⟩ := List.nodup_append'.mp nodup
  obtain ⟨chainedFront, -, -, chainedBack⟩ := chained_append.mp chained
  apply chained_append.mpr
  constructor
  · apply (chainedFront.store_next frontNodup (back.head?.or after)).congr
    · intro other member
      exact sameNext other (List.mem_append_left back member)
    · intro other member
      rw [samePrev other (List.mem_append_left back member)]
      exact store_head?_of_mem (List.disjoint_symm disjoint) member
  · apply (chainedBack.store_prev backNodup (front.getLast?.or before)).congr
    · intro other member
      rw [sameNext other (List.mem_append_right front member)]
      exact store_getLast?_of_mem disjoint member
    · intro other member
      exact samePrev other (List.mem_append_right front member)

/-! ## Order along a chain -/

/-- Linking a node in, or unlinking it, does not change which of two other
nodes comes first. -/
theorem idxOf_lt_insert_iff {front back : List α} {node first second : α}
    (firstNe : first ≠ node) (secondNe : second ≠ node) :
    (front ++ node :: back).idxOf first < (front ++ node :: back).idxOf second ↔
      (front ++ back).idxOf first < (front ++ back).idxOf second := by
  have firstBound : first ∈ front → front.idxOf first < front.length :=
    List.idxOf_lt_length_of_mem
  have secondBound : second ∈ front → front.idxOf second < front.length :=
    List.idxOf_lt_length_of_mem
  simp only [List.idxOf_append, List.idxOf_cons_ne _ firstNe.symm,
    List.idxOf_cons_ne _ secondNe.symm]
  by_cases firstFront : first ∈ front <;> by_cases secondFront : second ∈ front <;>
    simp only [firstFront, secondFront, if_true, if_false, true_imp_iff] at * <;> omega

end BaremetalCoro.Linked
