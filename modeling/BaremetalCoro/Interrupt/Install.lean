import Mathlib.Data.BitVec

/-!
# Installing the interrupt handler

The constructor of `irq::handler` stores the function that calls the given
object, writes the address of the object to `mscratch`, and writes `entry` to
`mtvec`.  An interrupt that arrives between these three writes may call the
function of one handler with the object of another.

The writes are taken to have effect in program order.  The accesses to the
registers are volatile, but the one to `_execute_handler` is a plain store; a
compiler that moves or deletes it is not covered here.

Programs install handlers and switch `mstatus.mie` in any order.  They are
compared with a machine that knows only the bit and the handler installed last.
-/

namespace BaremetalCoro

variable {T : Type} {xlen : Nat}

/-- A function object: its class, which has the call operator, and its address. -/
structure IsrHandler (T : Type) (xlen : Nat) where
  type : T
  address : BitVec xlen
  deriving DecidableEq

/-- What a program does with interrupts: `mstatus.mie.clr()`,
`mstatus.mie.set()`, and the constructor of a handler. -/
inductive HandlerOp (T : Type) (xlen : Nat) where
  | mieClr
  | mieSet
  | handler (isrHandler : IsrHandler T xlen)
  deriving DecidableEq

/-- The writes that it does one after another. -/
inductive HandlerWrite (T : Type) (xlen : Nat) where
  | mstatusMie (mie : Bool)
  | executeHandler (type : T)
  | mscratch (isrContext : BitVec xlen)
  | mtvec (address : BitVec xlen)
  deriving DecidableEq

/-- What an interrupt depends on.  No `_execute_handler` is the null pointer it
starts as. -/
structure HandlerRegs (T : Type) (xlen : Nat) where
  mstatusMie : Bool
  executeHandler : Option T
  mscratch : BitVec xlen
  mtvec : BitVec xlen
  deriving DecidableEq

namespace HandlerRegs

/-- After reset. -/
def init (mscratch mtvec : BitVec xlen) : HandlerRegs T xlen :=
  ⟨false, none, mscratch, mtvec⟩

/-- Execute one write, which has its effect before the next one. -/
def exec (regs : HandlerRegs T xlen) : HandlerWrite T xlen → HandlerRegs T xlen
  | .mstatusMie mie => { regs with mstatusMie := mie }
  | .executeHandler type => { regs with executeHandler := some type }
  | .mscratch isrContext => { regs with mscratch := isrContext }
  | .mtvec address => { regs with mtvec := address }

end HandlerRegs

/-- The writes of an operation. -/
def HandlerOp.writes (entry : BitVec xlen) : HandlerOp T xlen → List (HandlerWrite T xlen)
  | .mieClr => [.mstatusMie false]
  | .mieSet => [.mstatusMie true]
  | .handler isrHandler =>
      [.executeHandler isrHandler.type, .mscratch isrHandler.address, .mtvec entry]

/-- Where the hart goes at an interrupt: to the base, in vectored mode to the
vector of the cause.  Other modes are reserved. -/
def trapTarget (mtvec cause : BitVec xlen) : Option (BitVec xlen) :=
  let base := mtvec &&& ~~~3
  if mtvec &&& 3 = 0 then some base
  else if mtvec &&& 3 = 1 then some (base + cause <<< 2)
  else none

/-- The call operator that an interrupt ends up in, with the object it is called
on: `entry` goes on to `_execute_handler`, which reads `mscratch`. -/
def HandlerRegs.interrupt (entry : BitVec xlen) (regs : HandlerRegs T xlen)
    (cause : BitVec xlen) : Option (IsrHandler T xlen) :=
  if trapTarget regs.mtvec cause = some entry then
    regs.executeHandler.map fun type => ⟨type, regs.mscratch⟩
  else none

/-- The alignment of `mtvec.BASE`, which is forced on `entry`. -/
def entryAligned (entry : BitVec xlen) : Bool :=
  entry &&& 3 == 0

/-! ## The handler installed last -/

/-- The enable bit, and the handler of the last constructor. -/
structure InstalledHandler (T : Type) (xlen : Nat) where
  mie : Bool
  current : Option (IsrHandler T xlen)
  deriving DecidableEq

namespace InstalledHandler

def init : InstalledHandler T xlen :=
  ⟨false, none⟩

def after (state : InstalledHandler T xlen) : HandlerOp T xlen → InstalledHandler T xlen
  | .mieClr => { state with mie := false }
  | .mieSet => { state with mie := true }
  | .handler isrHandler => { state with current := some isrHandler }

/-- The handlers that may be called while an operation is executed. -/
def callable (state : InstalledHandler T xlen) : HandlerOp T xlen → List (IsrHandler T xlen)
  | .mieClr | .mieSet => state.current.toList
  | .handler isrHandler => state.current.toList ++ [isrHandler]

/-- Interrupts are enabled with a handler only, and while they are enabled a
handler replaces another one of its class or at its address. -/
def accepts [DecidableEq T] (aligned : Bool) (state : InstalledHandler T xlen) :
    HandlerOp T xlen → Bool
  | .mieClr => true
  | .mieSet => aligned && state.current.isSome
  | .handler isrHandler =>
      !state.mie || state.current.any fun current =>
        decide (current.type = isrHandler.type ∨ current.address = isrHandler.address)

/-- All operations of a program are accepted. -/
def acceptsAll [DecidableEq T] (aligned : Bool) :
    InstalledHandler T xlen → List (HandlerOp T xlen) → Bool
  | _, [] => true
  | state, op :: rest => state.accepts aligned op && acceptsAll aligned (state.after op) rest

/-- The registers between two operations. -/
def regs (entry mscratch mtvec : BitVec xlen) (state : InstalledHandler T xlen) :
    HandlerRegs T xlen :=
  match state.current with
  | none => ⟨state.mie, none, mscratch, mtvec⟩
  | some current => ⟨state.mie, some current.type, current.address, entry⟩

end InstalledHandler

/-- The registers when some operations are done, and a number of writes of the
next one. -/
def HandlerRegs.point (entry mscratch mtvec : BitVec xlen) (before : List (HandlerOp T xlen))
    (op : HandlerOp T xlen) (count : Nat) : HandlerRegs T xlen :=
  (before.flatMap (HandlerOp.writes entry) ++ (op.writes entry).take count).foldl
    HandlerRegs.exec (HandlerRegs.init mscratch mtvec)

/-- Any interrupt that can arrive calls one of the handlers on its own object. -/
def HandlerRegs.Handled (entry : BitVec xlen) (callable : List (IsrHandler T xlen))
    (regs : HandlerRegs T xlen) : Prop :=
  regs.mstatusMie = true →
    ∀ cause, ∃ isrHandler ∈ callable, regs.interrupt entry cause = some isrHandler

variable {entry mscratch mtvec : BitVec xlen}

/-! ## Interrupts at one point -/

/-- An interrupt gets to `entry` if it is aligned, and not otherwise. -/
theorem trapTarget_entry_iff (cause : BitVec xlen) :
    trapTarget entry cause = some entry ↔ entryAligned entry = true := by
  rw [entryAligned, beq_iff_eq, trapTarget]
  constructor
  · intro reached
    by_contra misaligned
    rw [if_neg misaligned] at reached
    split at reached
    · rename_i vectored
      rcases Nat.eq_zero_or_pos xlen with empty | positive
      · subst empty
        exact misaligned (BitVec.of_length_zero.trans BitVec.of_length_zero.symm)
      · -- The vectors have even addresses, and the mode makes `entry` odd.
        have mode : entry.getLsbD 0 = true ∧ (BitVec.ofNat xlen 3).getLsbD 0 = true := by
          simpa [positive] using congrArg (fun address => address.getLsbD 0) vectored
        have vector : entry.getLsbD 0 = true → (BitVec.ofNat xlen 3).getLsbD 0 = false := by
          intro odd
          have lowest := congrArg (fun address => address.getLsbD 0) (Option.some.inj reached)
          rw [BitVec.getLsbD_add positive] at lowest
          simpa [odd, positive] using lowest
        rw [vector mode.1] at mode
        exact Bool.false_ne_true mode.2
    · contradiction
  · intro aligned
    rw [if_pos aligned]
    congr 1
    apply BitVec.eq_of_getLsbD_eq
    intro bit bound
    have clear : entry.getLsbD bit = true → (BitVec.ofNat xlen 3).getLsbD bit = false := by
      simpa using congrArg (fun address => address.getLsbD bit) aligned
    simpa [bound] using clear

/-- With `entry` installed, an interrupt calls the stored function with the
object in `mscratch`. -/
theorem HandlerRegs.interrupt_installed (mie : Bool) (type : T) (isrContext cause : BitVec xlen) :
    HandlerRegs.interrupt entry ⟨mie, some type, isrContext, entry⟩ cause =
      if entryAligned entry = true then some ⟨type, isrContext⟩ else none := by
  simp only [interrupt, trapTarget_entry_iff, Option.map_some]

/-- Before the first constructor, no interrupt gets to a handler. -/
theorem HandlerRegs.interrupt_uninstalled (mie : Bool) (isrContext target cause : BitVec xlen) :
    HandlerRegs.interrupt entry (⟨mie, none, isrContext, target⟩ : HandlerRegs T xlen) cause =
      none := by
  simp only [interrupt, Option.map_none, ite_self]

namespace InstalledHandler

/-- A whole operation keeps the two machines together. -/
theorem foldl_writes (state : InstalledHandler T xlen) (op : HandlerOp T xlen) :
    (op.writes entry).foldl HandlerRegs.exec (state.regs entry mscratch mtvec) =
      (state.after op).regs entry mscratch mtvec := by
  rcases state with ⟨mie, _ | current⟩ <;> cases op <;> rfl

theorem foldl_flatMap_writes (state : InstalledHandler T xlen) (ops : List (HandlerOp T xlen)) :
    (ops.flatMap (HandlerOp.writes entry)).foldl HandlerRegs.exec
        (state.regs entry mscratch mtvec) =
      (ops.foldl after state).regs entry mscratch mtvec := by
  induction ops generalizing state with
  | nil => rfl
  | cons op rest ih => rw [List.flatMap_cons, List.foldl_append, foldl_writes, ih, List.foldl_cons]

/-- A constructor does not touch the enable bit. -/
theorem foldl_take_handler_mie (regs : HandlerRegs T xlen) (isrHandler : IsrHandler T xlen)
    (count : Nat) :
    ((((HandlerOp.handler isrHandler).writes entry).take count).foldl
      HandlerRegs.exec regs).mstatusMie = regs.mstatusMie := by
  rcases count with _ | _ | _ | count
  · rfl
  · rfl
  · rfl
  · rw [List.take_of_length_le (Nat.le_add_left 3 count)]
    rfl

/-- While interrupts are enabled, `entry` is aligned and there is a handler. -/
def Ready (aligned : Bool) (state : InstalledHandler T xlen) : Prop :=
  state.mie = true → aligned = true ∧ ∃ current, state.current = some current

theorem init_ready (aligned : Bool) : (init : InstalledHandler T xlen).Ready aligned :=
  fun enabled => absurd enabled Bool.false_ne_true

variable [DecidableEq T]

theorem Ready.after {aligned : Bool} {state : InstalledHandler T xlen} (ready : state.Ready aligned)
    {op : HandlerOp T xlen} (accepted : state.accepts aligned op = true) :
    (state.after op).Ready aligned := by
  intro enabled
  cases op with
  | mieClr => exact absurd enabled Bool.false_ne_true
  | mieSet =>
      rcases Bool.and_eq_true_iff.mp accepted with ⟨isAligned, installed⟩
      exact ⟨isAligned, Option.isSome_iff_exists.mp installed⟩
  | handler isrHandler => exact ⟨(ready enabled).1, isrHandler, rfl⟩

omit [DecidableEq T] in
/-- Between two operations, what is enabled is handled. -/
theorem Ready.handled {state : InstalledHandler T xlen}
    (ready : state.Ready (entryAligned entry)) {callable : List (IsrHandler T xlen)}
    (subset : state.current.toList ⊆ callable) :
    (state.regs entry mscratch mtvec).Handled entry callable := by
  rcases state with ⟨mie, current⟩
  cases current with
  | none =>
      intro enabled
      rcases ready enabled with ⟨_, _, impossible⟩
      contradiction
  | some current =>
      intro enabled cause
      refine ⟨current, subset List.mem_cons_self, ?_⟩
      rw [regs, HandlerRegs.interrupt_installed, if_pos (ready enabled).1]

omit [DecidableEq T] in
/-- After the first write of a constructor, the new function is called with the
old object. -/
theorem handled_executeHandler_iff {mie : Bool} {current isrHandler : IsrHandler T xlen}
    (aligned : entryAligned entry = true) :
    HandlerRegs.Handled entry [current, isrHandler]
        ⟨mie, some isrHandler.type, current.address, entry⟩ ↔
      (mie = true → current.type = isrHandler.type ∨ current.address = isrHandler.address) := by
  constructor
  · intro handled enabled
    rcases handled enabled 0 with ⟨called, member, call⟩
    rw [HandlerRegs.interrupt_installed, if_pos aligned] at call
    rcases List.mem_cons.mp member with isCurrent | isNew
    · left
      rw [← isCurrent, ← Option.some.inj call]
    · right
      rw [← List.mem_singleton.mp isNew, ← Option.some.inj call]
  · intro compatible enabled cause
    rw [HandlerRegs.interrupt_installed, if_pos aligned]
    rcases compatible enabled with sameType | sameAddress
    · refine ⟨current, List.mem_cons_self, ?_⟩
      rw [← sameType]
    · refine ⟨isrHandler, List.mem_cons_of_mem current List.mem_cons_self, ?_⟩
      rw [sameAddress]

omit [DecidableEq T] in
theorem current_subset_callable (state : InstalledHandler T xlen) (op : HandlerOp T xlen) :
    state.current.toList ⊆ state.callable op := by
  cases op with
  | handler isrHandler => exact List.subset_append_left _ _
  | _ => exact List.Subset.refl _

omit [DecidableEq T] in
theorem after_subset_callable (state : InstalledHandler T xlen) (op : HandlerOp T xlen) :
    (state.after op).current.toList ⊆ state.callable op := by
  cases op with
  | handler isrHandler => exact List.subset_append_right _ _
  | _ => exact List.Subset.refl _

/-- Right before the writes of an operation that is accepted, and right after
them, interrupts are handled. -/
theorem Ready.handled_outside {state : InstalledHandler T xlen}
    (ready : state.Ready (entryAligned entry)) {op : HandlerOp T xlen}
    (accepted : state.accepts (entryAligned entry) op = true) {count : Nat}
    (boundary : count = 0 ∨ (op.writes entry).length ≤ count) :
    HandlerRegs.Handled entry (state.callable op)
      (((op.writes entry).take count).foldl HandlerRegs.exec
        (state.regs entry mscratch mtvec)) := by
  rcases boundary with begins | ends
  · rw [begins]
    exact ready.handled (state.current_subset_callable op)
  · rw [List.take_of_length_le ends, foldl_writes]
    exact (ready.after accepted).handled (state.after_subset_callable op)

/-- An interrupt that arrives once interrupts are enabled needs a handler, and an
aligned `entry`. -/
theorem accepts_mieSet_of_handled {state : InstalledHandler T xlen}
    {callable : List (IsrHandler T xlen)}
    (handled : HandlerRegs.Handled entry callable
      ((state.after .mieSet).regs entry mscratch mtvec)) :
    state.accepts (entryAligned entry) .mieSet = true := by
  rcases state with ⟨mie, current⟩
  cases current with
  | none =>
      rcases handled rfl 0 with ⟨called, _, call⟩
      rw [InstalledHandler.after, regs, HandlerRegs.interrupt_uninstalled] at call
      contradiction
  | some current =>
      rcases handled rfl 0 with ⟨called, _, call⟩
      rw [InstalledHandler.after, regs, HandlerRegs.interrupt_installed] at call
      split at call
      · rename_i aligned
        exact Bool.and_eq_true_iff.mpr ⟨aligned, rfl⟩
      · contradiction

/-- Interrupts are handled at all points of one operation exactly if it is
accepted. -/
theorem Ready.handled_iff {state : InstalledHandler T xlen}
    (ready : state.Ready (entryAligned entry)) (op : HandlerOp T xlen) :
    (∀ count, HandlerRegs.Handled entry (state.callable op)
        (((op.writes entry).take count).foldl HandlerRegs.exec
          (state.regs entry mscratch mtvec))) ↔
      state.accepts (entryAligned entry) op = true := by
  cases op with
  | mieClr =>
      constructor
      · intro _
        rfl
      · intro accepted count
        exact ready.handled_outside accepted (Nat.eq_zero_or_pos count)
  | mieSet =>
      constructor
      · intro handled
        have enabled := handled 1
        rw [List.take_of_length_le (Nat.le_refl 1), foldl_writes] at enabled
        exact accepts_mieSet_of_handled enabled
      · intro accepted count
        exact ready.handled_outside accepted (Nat.eq_zero_or_pos count)
  | handler isrHandler =>
      rcases state with ⟨mie, current⟩
      cases mie with
      | false =>
          constructor
          · intro _
            rfl
          · intro _ count enabled
            rw [foldl_take_handler_mie] at enabled
            cases current <;> contradiction
      | true =>
          rcases ready rfl with ⟨aligned, current, rfl⟩
          have accepted_iff : InstalledHandler.accepts (entryAligned entry)
                ⟨true, some current⟩ (.handler isrHandler) = true ↔
              current.type = isrHandler.type ∨ current.address = isrHandler.address :=
            decide_eq_true_iff
          constructor
          · intro handled
            exact accepted_iff.mpr
              ((handled_executeHandler_iff aligned).mp (handled 1) rfl)
          · intro accepted count
            rcases count with _ | _ | _ | count
            · exact ready.handled_outside accepted (Or.inl rfl)
            · exact (handled_executeHandler_iff aligned).mpr fun _ => accepted_iff.mp accepted
            · -- `mtvec` held `entry` before, so its write changes nothing.
              change HandlerRegs.Handled entry _ (((⟨true, some current⟩ :
                InstalledHandler T xlen).after (.handler isrHandler)).regs entry mscratch mtvec)
              exact (ready.after accepted).handled (after_subset_callable _ _)
            · exact ready.handled_outside accepted (Or.inr (Nat.le_add_left 3 count))

/-! ## Whole programs -/

/-- At every point of a program, an interrupt that is enabled calls the handler
of the last constructor, or the one that is being installed, on its own object. -/
def HandledThroughout (entry mscratch mtvec : BitVec xlen) (ops : List (HandlerOp T xlen)) :
    Prop :=
  ∀ before op rest count, ops = before ++ op :: rest →
    (HandlerRegs.point entry mscratch mtvec before op count).Handled entry
      ((before.foldl after init).callable op)

omit [DecidableEq T] in
theorem point_eq (before : List (HandlerOp T xlen)) (op : HandlerOp T xlen) (count : Nat) :
    HandlerRegs.point entry mscratch mtvec before op count =
      ((op.writes entry).take count).foldl HandlerRegs.exec
        ((before.foldl after init).regs entry mscratch mtvec) := by
  rw [HandlerRegs.point, List.foldl_append]
  congr 1
  exact foldl_flatMap_writes init before

/-- The points of a program that goes on from a state. -/
theorem Ready.handled_all_iff {state : InstalledHandler T xlen}
    (ready : state.Ready (entryAligned entry)) (ops : List (HandlerOp T xlen)) :
    (∀ before op rest, ops = before ++ op :: rest → ∀ count,
      HandlerRegs.Handled entry ((before.foldl InstalledHandler.after state).callable op)
        (((op.writes entry).take count).foldl HandlerRegs.exec
          ((before.foldl InstalledHandler.after state).regs entry mscratch mtvec))) ↔
      state.acceptsAll (entryAligned entry) ops = true := by
  induction ops generalizing state with
  | nil =>
      constructor
      · intro _
        rfl
      · intro _ before op rest split
        have nonempty : before ++ op :: rest ≠ [] :=
          List.append_ne_nil_of_right_ne_nil before (List.cons_ne_nil op rest)
        exact absurd split.symm nonempty
  | cons first remaining ih =>
      rw [acceptsAll, Bool.and_eq_true_iff]
      constructor
      · intro handled
        have accepted := (ready.handled_iff first).mp (handled [] first remaining rfl)
        refine ⟨accepted, (ih (ready.after accepted)).mp ?_⟩
        intro before op rest split
        exact handled (first :: before) op rest (by rw [split, List.cons_append])
      · rintro ⟨accepted, acceptedRest⟩ before op rest split
        cases before with
        | nil =>
            cases split
            exact (ready.handled_iff first).mpr accepted
        | cons head before =>
            rcases List.cons_eq_cons.mp split with ⟨rfl, splitRest⟩
            exact (ih (ready.after accepted)).mpr acceptedRest before op rest splitRest

/-- Whatever the registers hold at reset, when writes take effect in program
order, every interrupt of a program, between the writes of a constructor too,
calls a handler on its own object, exactly if each `mstatus.mie.set()` comes
after a constructor and finds `entry` aligned, and a constructor that runs with
interrupts enabled replaces a handler of the same class or at the same
address. -/
theorem handledThroughout_iff (entry mscratch mtvec : BitVec xlen)
    (ops : List (HandlerOp T xlen)) :
    HandledThroughout entry mscratch mtvec ops ↔
      (init : InstalledHandler T xlen).acceptsAll (entryAligned entry) ops = true := by
  rw [← (init_ready (entryAligned entry)).handled_all_iff ops]
  constructor
  · intro handled before op rest split count
    rw [← point_eq]
    exact handled before op rest count split
  · intro handled before op rest count split
    rw [point_eq]
    exact handled before op rest split count

/-- The operations of `example_irq` and `example_timer`: interrupts are disabled
while the handler is installed, and in each turn of the busy loop. -/
def exampleMain (isrHandler : IsrHandler T xlen) (turns : Nat) : List (HandlerOp T xlen) :=
  [.mieClr, .handler isrHandler, .mieSet] ++
    (List.replicate turns [.mieClr, .mieSet]).flatten

/-- The examples are accepted, however often the busy loop turns. -/
theorem exampleMain_accepted (isrHandler : IsrHandler T xlen) (turns : Nat) :
    init.acceptsAll true (exampleMain isrHandler turns) = true := by
  have busyLoop : (⟨true, some isrHandler⟩ : InstalledHandler T xlen).acceptsAll true
      (List.replicate turns [.mieClr, .mieSet]).flatten = true := by
    induction turns with
    | zero => rfl
    | succ turns ih => exact ih
  exact busyLoop

-- With interrupts enabled, a handler is replaced by one of its class.
example : (init : InstalledHandler Bool 32).acceptsAll true
    [.handler ⟨true, 0x100⟩, .mieSet, .handler ⟨true, 0x200⟩] = true := by
  decide

example : (init : InstalledHandler Bool 32).acceptsAll true
    [.handler ⟨true, 0x100⟩, .mieSet, .handler ⟨false, 0x200⟩] = false := by
  decide

end InstalledHandler

end BaremetalCoro
