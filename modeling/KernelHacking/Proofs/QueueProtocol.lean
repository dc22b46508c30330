/-
Module: KernelHacking.Proofs.QueueProtocol
Layer: Proofs
Purpose: The queue of sleeping cashiers. The circular buffer represents a list of cashier ids
  (`QueueInv`), every cashier that has announced itself is in that list, or called by the customer at
  the queue, or has its call waiting in `cashierAvailable` (`QueueInv.balance`), and the queue is a
  sleeping-consumer handoff between the cashier in `queueMutex` and the customer in `CM`
  (`queueHandoff_step_cashier`, `queueHandoff_step_customer`). Both together hold along every run, the
  list being the one that the executed announcements and dequeues leave (`run_queued`), so a customer
  calls `dequeue` only on a queue that is not empty and gets the cashier that came first.
Imports: KernelHacking.Foundations.Handoff, KernelHacking.Foundations.RingBuffer,
  KernelHacking.Proofs.BurgerLocks, Mathlib.Data.Fintype.Card, Mathlib.Data.Finset.Image
Trusted boundary: none (fully proved)
Main exports: tellerPhase, callerPhase, called, announced, queueHandoff, QueueInv,
  queueHandoff_step_cashier, queueHandoff_step_customer, QueueInv.step_cashier,
  QueueInv.step_customer, queued, run_queued, run_queue, queue_is_fifo
Open obligations: none
-/
import Mathlib.Data.Finset.Image
import Mathlib.Data.Fintype.Card
import KernelHacking.Foundations.Handoff
import KernelHacking.Foundations.RingBuffer
import KernelHacking.Proofs.BurgerLocks

namespace KernelHacking.BurgerBuddies

open Threads RingBuffer

/-- How far a cashier has got since it put itself in the queue. -/
def tellerPhase : CashierPc → Handoff.Producer
  | .testWaiting => .added
  | .lowerWaiting => .lowering
  | .postBusy => .posting
  | _ => .idle

/-- How far a customer has got towards taking a cashier from the queue. -/
def callerPhase : CustomerPc → Handoff.Consumer
  | .raiseWaiting => .sawEmpty
  | .unlockWaiting | .waitBusy => .sleeping
  | .relockQueue | .printComes | .dequeue => .awake
  | _ => .idle

/-- The cashier a customer has taken from the queue and not called yet. -/
def calledBy : CustomerPc → Option Int
  | .unlockQueue serverID | .postAvailable serverID => some serverID
  | _ => none

/-- A cashier has announced itself and waits to be called. -/
def announced : CashierPc → Bool
  | .testWaiting | .lowerWaiting | .postBusy | .unlockQueue | .waitCustomer => true
  | _ => false

variable {shop : Shop}

/-- The producers of free cashiers are the cashiers. -/
def tellerPhaseOf : (thread : Thread shop) → Pc thread → Handoff.Producer
  | .cashier _, pc => tellerPhase pc
  | .cook _, _ | .customer _, _ => .idle

/-- The consumers of free cashiers are the customers. -/
def callerPhaseOf : (thread : Thread shop) → Pc thread → Handoff.Consumer
  | .customer _, pc => callerPhase pc
  | .cook _, _ | .cashier _, _ => .idle

def calledByOf : (thread : Thread shop) → Pc thread → Option Int
  | .customer _, pc => calledBy pc
  | .cook _, _ | .cashier _, _ => none

/-- The phase of the cashier at the queue. -/
def teller (state : shop.State) : Handoff.Producer := phaseOf tellerPhaseOf .idle .queueMutex state

/-- The phase of the customer at the queue. -/
def caller (state : shop.State) : Handoff.Consumer := phaseOf callerPhaseOf .idle .CM state

/-- The cashier that has been taken from the queue and not been called yet. -/
def called (state : shop.State) : Option Int := phaseOf calledByOf none .CM state

/-- The queue as a handoff. -/
def queueHandoff (state : shop.State) : Handoff.State where
  level := queueSize shop.cashiers state.shared.queue
  waiters := state.shared.waitForCashier
  tokens := state.value .cashiersAllBusy
  producer := teller state
  consumer := caller state

theorem teller_idleOutside : IdleOutside (@tellerPhaseOf shop) .idle holds .queueMutex := by
  intro thread pc free
  cases thread with
  | cook index => rfl
  | cashier index => cases pc <;> first | rfl | cases free
  | customer index => rfl

theorem caller_idleOutside : IdleOutside (@callerPhaseOf shop) .idle holds .CM := by
  intro thread pc free
  cases thread with
  | cook index => rfl
  | cashier index => rfl
  | customer index => cases pc <;> first | rfl | cases free

theorem called_idleOutside : IdleOutside (@calledByOf shop) none holds .CM := by
  intro thread pc free
  cases thread with
  | cook index => rfl
  | cashier index => rfl
  | customer index => cases pc <;> first | rfl | cases free

/-- The circular buffer holds the ids of `content`, oldest first. -/
def Queue.Holds (cashiers : Nat) (queue : Queue) (content : List Int) : Prop :=
  Represents (cashiers + 1) queue.head queue.tail queue.sleepingQueue content

section Buffer

variable {cashiers : Nat} {queue : Queue} {content : List Int}

/-- The number that `queueSize()` computes is the number of queued cashiers. -/
theorem Queue.Holds.queueSize_eq (stored : queue.Holds cashiers content) :
    queueSize cashiers queue = content.length := by
  rw [queueSize, ← Represents.length_eq stored]
  congr 1
  omega

/-- `enqueue(id)` appends, as long as not all cashiers are queued. -/
theorem Queue.Holds.enqueue (stored : queue.Holds cashiers content)
    (room : content.length < cashiers) (id : Int) :
    (enqueue cashiers id queue).Holds cashiers (content ++ [id]) :=
  Represents.push stored (by omega) id

/-- `dequeue()` yields the oldest id and removes it. -/
theorem Queue.Holds.dequeue {id : Int} {rest : List Int}
    (stored : queue.Holds cashiers (id :: rest)) :
    (dequeue cashiers queue).1 = id ∧ (dequeue cashiers queue).2.Holds cashiers rest := by
  have nonempty := (Represents.head_ne_iff stored).mpr (List.cons_ne_nil id rest)
  rw [BurgerBuddies.dequeue, if_pos nonempty]
  exact Represents.pop stored

end Buffer

/-- Whether a cashier has been taken from the queue and not been called yet, as a number. -/
def pendingCall (state : shop.State) (index : Fin shop.cashiers) : Nat :=
  if called state = some (index + 1 : Int) then 1 else 0

/-- Whether a cashier has announced itself, as a number. -/
def announcement (state : shop.State) (index : Fin shop.cashiers) : Nat :=
  if announced (state.pc (.cashier index)) then 1 else 0

theorem announcement_le_one (state : shop.State) (index : Fin shop.cashiers) :
    announcement state index ≤ 1 := by
  rw [announcement]
  split <;> decide

/-- The buffer holds the ids of `content`, and every cashier is accounted for: a cashier that has
    announced itself is queued, or about to be called, or called. -/
structure QueueInv (state : shop.State) (content : List Int) : Prop where
  stored : state.shared.queue.Holds shop.cashiers content
  ids : ∀ id ∈ content, ∃ index : Fin shop.cashiers, id = index + 1
  callee : ∀ id, called state = some id → ∃ index : Fin shop.cashiers, id = index + 1
  balance : ∀ index : Fin shop.cashiers,
    content.count (index + 1 : Int) + pendingCall state index +
      state.value (.cashierAvailable index) = announcement state index

/-- No cashier is queued twice. -/
theorem QueueInv.nodup {state : shop.State} {content : List Int} (inv : QueueInv state content) :
    content.Nodup := by
  rw [List.nodup_iff_count_le_one]
  intro id
  by_cases member : id ∈ content
  · obtain ⟨index, rfl⟩ := inv.ids id member
    have balance := inv.balance index
    have atMostOne := announcement_le_one state index
    omega
  · rw [List.count_eq_zero_of_not_mem member]
    exact Nat.zero_le 1

/-- A cashier that has not announced itself is not queued. -/
theorem QueueInv.not_queued {state : shop.State} {content : List Int} (inv : QueueInv state content)
    {index : Fin shop.cashiers} (absent : announced (state.pc (.cashier index)) = false) :
    (index + 1 : Int) ∉ content := by
  have balance := inv.balance index
  rw [announcement, absent] at balance
  simp only [Bool.false_eq_true, if_false] at balance
  exact List.count_eq_zero.mp (by omega)

/-- A cashier that is about to announce itself finds a free cell. -/
theorem QueueInv.room {state : shop.State} {content : List Int} (inv : QueueInv state content)
    {index : Fin shop.cashiers} (absent : announced (state.pc (.cashier index)) = false) :
    content.length < shop.cashiers := by
  have notQueued := inv.not_queued absent
  -- the queued ids are distinct ids of the other cashiers
  have subset : content.toFinset ⊆
      (Finset.univ.erase index).image (fun other : Fin shop.cashiers => (other + 1 : Int)) := by
    intro id member
    rw [List.mem_toFinset] at member
    obtain ⟨other, rfl⟩ := inv.ids id member
    refine Finset.mem_image.mpr ⟨other, Finset.mem_erase.mpr ⟨?_, Finset.mem_univ other⟩, rfl⟩
    rintro rfl
    exact notQueued member
  have size := (Finset.card_le_card subset).trans Finset.card_image_le
  rw [List.toFinset_card_of_nodup inv.nodup, Finset.card_erase_of_mem (Finset.mem_univ index),
    Finset.card_univ, Fintype.card_fin] at size
  have := index.isLt
  omega

section Exclusion

variable {state : shop.State}

/-- While a customer owns `queueMutex` no cashier is between its announcement and its end. -/
theorem teller_idle_of_customer (locked : LockedBy holds state) {index : Fin shop.customers}
    (held : customerHolds (state.pc (.customer index)) .queueMutex = true) :
    teller state = .idle :=
  phaseOf_of_holds locked (show holds (.customer index) _ .queueMutex = true from held)

/-- While a cashier owns `queueMutex` no customer has found the queue empty without raising its
    count. -/
theorem caller_ne_sawEmpty_of_cashier (locked : LockedBy holds state) {index : Fin shop.cashiers}
    (held : cashierHolds (state.pc (.cashier index)) .queueMutex = true) :
    caller state ≠ .sawEmpty := by
  intro sawEmpty
  obtain ⟨thread, _, phase⟩ := exists_of_phaseOf_ne locked
    (show phaseOf callerPhaseOf .idle .CM state ≠ .idle by
      intro idle
      cases sawEmpty.symm.trans idle)
  have phase := sawEmpty.symm.trans phase
  cases thread with
  | cook other => cases phase
  | cashier other => cases phase
  | customer other =>
      have heldToo : holds (.customer other) (state.pc (.customer other)) .queueMutex = true := by
        change Handoff.Consumer.sawEmpty = callerPhase (state.pc (.customer other)) at phase
        change customerHolds (state.pc (.customer other)) .queueMutex = true
        cases at_ : state.pc (.customer other) <;> rw [at_] at phase <;> first | rfl | cases phase
      cases locked.exclusive heldToo
        (show holds (.cashier index) _ .queueMutex = true from held)

end Exclusion

section Steps

variable {before after : shop.State} {content : List Int}

/-- A step that leaves the queue, the calls and the announcements alone keeps the accounts. -/
theorem QueueInv.frame (inv : QueueInv before content)
    (queue : after.shared.queue = before.shared.queue) (sameCalled : called after = called before)
    (tokens : ∀ index, after.value (.cashierAvailable index) = before.value (.cashierAvailable index))
    (announcements : ∀ index : Fin shop.cashiers,
      announced (after.pc (.cashier index)) = announced (before.pc (.cashier index))) :
    QueueInv after content where
  stored := by rw [queue]; exact inv.stored
  ids := inv.ids
  callee := by rw [sameCalled]; exact inv.callee
  balance := by
    intro index
    rw [pendingCall, announcement, sameCalled, tokens, announcements]
    exact inv.balance index

/-- A cook does not touch the queue. -/
theorem QueueInv.step_cook (locked : LockedBy holds before) (inv : QueueInv before content)
    {index : Fin shop.cooks} (moved : next shop.program before (.cook index) = some after) :
    QueueInv after content := by
  have sameCalled : called after = called before :=
    phaseOf_step_idle called_idleOutside (program_respects shop) locked moved rfl rfl
  have steady := next_steady Thread.cashier (fun _ => announced) moved (fun _ moves => by cases moves)
  obtain ⟨ready, target, shared, value⟩ := next_fields moved
  cases at_ : before.pc (.cook index) <;>
    simp only [Shop.program, at_, cook, test, assign, print, Command.effect, Command.signal,
      id] at shared value <;>
    exact inv.frame (by rw [shared]) sameCalled (by simp [value]) steady

/-- A cashier joins the queue at its end and leaves the accounts when it answers its call. -/
theorem QueueInv.step_cashier (locked : LockedBy holds before) (inv : QueueInv before content)
    {index : Fin shop.cashiers} (moved : next shop.program before (.cashier index) = some after) :
    QueueInv after (if before.pc (.cashier index) = .enqueue then content ++ [(index + 1 : Int)]
      else content) := by
  have sameCalled : called after = called before :=
    phaseOf_step_idle called_idleOutside (program_respects shop) locked moved rfl rfl
  have others : ∀ other, other ≠ index →
      announced (after.pc (.cashier other)) = announced (before.pc (.cashier other)) := by
    intro other different
    rw [next_pc_of_ne moved (by simp [different])]
  have steady : announced (after.pc (.cashier index)) = announced (before.pc (.cashier index)) →
      ∀ other, announced (after.pc (.cashier other)) = announced (before.pc (.cashier other)) :=
    fun same => next_steady Thread.cashier (fun _ => announced) moved (by rintro other ⟨⟩; exact same)
  obtain ⟨ready, target, shared, value⟩ := next_fields moved
  cases at_ : before.pc (.cashier index) <;>
    simp only [Shop.program, at_, cashier, test, assign, print, Command.ready, Command.target,
      Command.effect, Command.signal, Option.some.injEq, id] at ready target shared value <;>
    simp only [reduceCtorEq, if_false, if_true]
  case enqueue =>
    have room := inv.room (show announced (before.pc (.cashier index)) = false by rw [at_]; rfl)
    refine ⟨?_, ?_, by rw [sameCalled]; exact inv.callee, ?_⟩
    · rw [shared]
      exact inv.stored.enqueue room _
    · intro id member
      rcases List.mem_append.mp member with old | new
      · exact inv.ids id old
      · exact ⟨index, List.mem_singleton.mp new⟩
    · intro other
      have balance := inv.balance other
      rw [pendingCall, announcement] at balance ⊢
      rw [sameCalled, value]
      by_cases same : other = index
      · subst same
        rw [at_] at balance
        rw [← target, List.count_append, List.count_singleton_self]
        simp only [announced, Bool.false_eq_true, if_false, if_true] at balance ⊢
        omega
      · have different : (index + 1 : Int) ≠ other + 1 := by omega
        rw [others other same]
        simpa [List.count_append, different] using balance
  case waitCustomer =>
    refine ⟨by rw [shared]; exact inv.stored, inv.ids, by rw [sameCalled]; exact inv.callee, ?_⟩
    intro other
    have balance := inv.balance other
    rw [pendingCall, announcement] at balance ⊢
    rw [sameCalled, value]
    by_cases same : other = index
    · subst same
      rw [at_] at balance
      rw [← target, Function.update_self]
      simp only [announced, Bool.false_eq_true, if_false, if_true] at balance ⊢
      omega
    · have different : (other : Int) ≠ index := by omega
      rw [others other same]
      simpa [different] using balance
  case testWaiting | testEmpty | testWasFull | testServed =>
    refine inv.frame (by rw [shared]) sameCalled (by simp [value]) (steady ?_)
    rw [at_, ← target]
    split <;> rfl
  all_goals
    exact inv.frame (by rw [shared]) sameCalled (by simp [value]) (steady (by rw [at_, ← target]; rfl))

/-- A customer takes the oldest id from the queue and turns it into a call. -/
theorem QueueInv.step_customer (locked : LockedBy holds before) (inv : QueueInv before content)
    {index : Fin shop.customers}
    (nonempty : before.pc (.customer index) = .dequeue → content ≠ [])
    (moved : next shop.program before (.customer index) = some after) :
    QueueInv after (if before.pc (.customer index) = .dequeue then content.tail else content) := by
  have announcements : ∀ cashier : Fin shop.cashiers,
      announced (after.pc (.cashier cashier)) = announced (before.pc (.cashier cashier)) :=
    next_steady Thread.cashier (fun _ => announced) moved (fun _ moves => by cases moves)
  have steady : calledBy (before.pc (.customer index)) = none →
      calledBy (after.pc (.customer index)) = none → called after = called before :=
    phaseOf_step_idle called_idleOutside (program_respects shop) locked moved
  have shift : calledBy (before.pc (.customer index)) ≠ none ∨
      calledBy (after.pc (.customer index)) ≠ none →
      called before = calledBy (before.pc (.customer index)) ∧
        called after = calledBy (after.pc (.customer index)) :=
    phaseOf_step_busy called_idleOutside (program_respects shop) locked moved
  obtain ⟨ready, target, shared, value⟩ := next_fields moved
  cases at_ : before.pc (.customer index) <;>
    simp only [Shop.program, at_, customer, test, assign, print, Command.ready, Command.target,
      Command.effect, Command.signal, Option.some.injEq, id] at ready target shared value <;>
    rw [at_, ← target] at steady shift <;>
    simp only [reduceCtorEq, if_false, if_true]
  case dequeue =>
    obtain ⟨calledBefore, calledAfter⟩ := shift (.inr (by simp [calledBy]))
    obtain ⟨id, rest, rfl⟩ := List.exists_cons_of_ne_nil (nonempty at_)
    obtain ⟨first, storedRest⟩ := inv.stored.dequeue
    rw [first] at calledAfter
    refine ⟨by rw [shared]; exact storedRest, ?_, ?_, ?_⟩
    · intro other member
      exact inv.ids other (List.mem_cons_of_mem id member)
    · intro other isCalled
      rw [calledAfter] at isCalled
      cases isCalled
      exact inv.ids id (List.mem_cons_self)
    · -- the id moves from the list to the pending call
      intro cashier
      have balance := inv.balance cashier
      rw [pendingCall, announcement, calledBefore] at balance
      rw [pendingCall, announcement, calledAfter, announcements, value, ← balance]
      simp only [List.tail_cons, List.count_cons, calledBy, Option.some.injEq, beq_iff_eq,
        reduceCtorEq, if_false]
      omega
  case unlockQueue serverID =>
    obtain ⟨calledBefore, calledAfter⟩ := shift (.inl (by simp [calledBy]))
    exact inv.frame (by rw [shared]) (calledAfter.trans calledBefore.symm) (by simp [value])
      announcements
  case postAvailable serverID =>
    obtain ⟨calledBefore, calledAfter⟩ := shift (.inl (by simp [calledBy]))
    refine ⟨by rw [shared]; exact inv.stored, inv.ids, ?_, ?_⟩
    · intro id isCalled
      rw [calledAfter] at isCalled
      cases isCalled
    · -- the pending call becomes a token
      intro cashier
      have balance := inv.balance cashier
      rw [pendingCall, announcement, calledBefore] at balance
      rw [pendingCall, announcement, calledAfter, announcements, value, ← balance]
      by_cases callee : serverID = cashier + 1
      · subst callee
        simp only [calledBy, reduceCtorEq, if_false, if_true, Int.add_sub_cancel,
          Function.update_self]
        omega
      · have different : (cashier : Int) ≠ serverID - 1 := by omega
        simp [calledBy, callee, different]
  case testQueue =>
    exact inv.frame (by rw [shared]) (steady rfl (by split <;> rfl)) (by simp [value]) announcements
  all_goals
    exact inv.frame (by rw [shared]) (steady rfl rfl) (by simp [value]) announcements

end Steps

section Simulation

variable {before after : shop.State} {content : List Int}

/-- A step that touches neither the queue, nor its counters, nor the phases leaves the handoff
    alone. -/
theorem queueHandoff_frame (queue : after.shared.queue = before.shared.queue)
    (waiting : after.shared.waitForCashier = before.shared.waitForCashier)
    (tokens : after.value .cashiersAllBusy = before.value .cashiersAllBusy)
    (sameTeller : teller after = teller before) (sameCaller : caller after = caller before) :
    queueHandoff after = queueHandoff before := by
  simp only [queueHandoff, queue, waiting, tokens, sameTeller, sameCaller]

/-- A cook does not touch the queue. -/
theorem queueHandoff_step_cook (locked : LockedBy holds before) {index : Fin shop.cooks}
    (moved : next shop.program before (.cook index) = some after) :
    queueHandoff after = queueHandoff before := by
  have sameTeller : teller after = teller before :=
    phaseOf_step_idle teller_idleOutside (program_respects shop) locked moved rfl rfl
  have sameCaller : caller after = caller before :=
    phaseOf_step_idle caller_idleOutside (program_respects shop) locked moved rfl rfl
  obtain ⟨ready, target, shared, value⟩ := next_fields moved
  cases at_ : before.pc (.cook index) <;>
    simp only [Shop.program, at_, cook, test, assign, print, Command.effect, Command.signal,
      id] at shared value <;>
    exact queueHandoff_frame (by rw [shared]) (by rw [shared]) (by simp [value]) sameTeller
      sameCaller

/-- A cashier's step is a producer's step: the announcement, the test, the count and the post. -/
theorem queueHandoff_step_cashier (locked : LockedBy holds before) (inv : QueueInv before content)
    {index : Fin shop.cashiers} (moved : next shop.program before (.cashier index) = some after) :
    queueHandoff after = queueHandoff before ∨
      Handoff.Step (queueHandoff before) (queueHandoff after) := by
  have sameCaller : caller after = caller before :=
    phaseOf_step_idle caller_idleOutside (program_respects shop) locked moved rfl rfl
  have steady : tellerPhase (before.pc (.cashier index)) = .idle →
      tellerPhase (after.pc (.cashier index)) = .idle → teller after = teller before :=
    phaseOf_step_idle teller_idleOutside (program_respects shop) locked moved
  have shift : tellerPhase (before.pc (.cashier index)) ≠ .idle ∨
      tellerPhase (after.pc (.cashier index)) ≠ .idle →
      teller before = tellerPhase (before.pc (.cashier index)) ∧
        teller after = tellerPhase (after.pc (.cashier index)) :=
    phaseOf_step_busy teller_idleOutside (program_respects shop) locked moved
  obtain ⟨ready, target, shared, value⟩ := next_fields moved
  cases at_ : before.pc (.cashier index) <;>
    simp only [Shop.program, at_, cashier, test, assign, print, Command.ready, Command.target,
      Command.effect, Command.signal, Option.some.injEq, id] at ready target shared value <;>
    rw [at_, ← target] at steady shift
  case enqueue =>
    obtain ⟨tellerBefore, tellerAfter⟩ := shift (.inr (by decide))
    have held : cashierHolds (before.pc (.cashier index)) .queueMutex = true := by rw [at_]; rfl
    have room := inv.room (show announced (before.pc (.cashier index)) = false by rw [at_]; rfl)
    have longer : queueSize shop.cashiers after.shared.queue =
        queueSize shop.cashiers before.shared.queue + 1 := by
      rw [shared, (inv.stored.enqueue room _).queueSize_eq, inv.stored.queueSize_eq]
      simp
    have shape : queueHandoff after = { queueHandoff before with
        level := queueSize shop.cashiers before.shared.queue + 1, producer := .added } := by
      simp only [queueHandoff, longer, tellerAfter, sameCaller, tellerPhase]
      simp [shared, value]
    rw [shape]
    exact .inr (.add tellerBefore (caller_ne_sawEmpty_of_cashier locked held))
  case testWaiting =>
    obtain ⟨tellerBefore, tellerAfter⟩ := shift (.inl (by decide))
    by_cases waiting : queueSize shop.cashiers before.shared.queue = 1 ∧
        before.shared.waitForCashier ≠ 0
    · rw [if_pos waiting] at tellerAfter
      have shape : queueHandoff after = { queueHandoff before with producer := .lowering } := by
        simp [queueHandoff, shared, value, tellerAfter, sameCaller, tellerPhase]
      rw [shape]
      exact .inr (.signal tellerBefore waiting.1 waiting.2)
    · rw [if_neg waiting] at tellerAfter
      have shape : queueHandoff after = { queueHandoff before with producer := .idle } := by
        simp [queueHandoff, shared, value, tellerAfter, sameCaller, tellerPhase]
      rw [shape]
      exact .inr (.skip tellerBefore waiting)
  case lowerWaiting =>
    obtain ⟨tellerBefore, tellerAfter⟩ := shift (.inl (by decide))
    have shape : queueHandoff after = { queueHandoff before with
        waiters := before.shared.waitForCashier - 1, producer := .posting } := by
      simp [queueHandoff, shared, value, tellerAfter, sameCaller, tellerPhase]
    rw [shape]
    exact .inr (.lower tellerBefore)
  case postBusy =>
    obtain ⟨tellerBefore, tellerAfter⟩ := shift (.inl (by decide))
    have shape : queueHandoff after = { queueHandoff before with
        tokens := before.value .cashiersAllBusy + 1, producer := .idle } := by
      simp [queueHandoff, shared, value, tellerAfter, sameCaller, tellerPhase]
    rw [shape]
    exact .inr (.post tellerBefore)
  all_goals
    exact .inl (queueHandoff_frame (by rw [shared]) (by rw [shared]) (by simp [value])
      (steady rfl (by first | rfl | (split <;> rfl))) sameCaller)

/-- A customer's step is a consumer's step: the test, the count, the wait and the dequeue. -/
theorem queueHandoff_step_customer (locked : LockedBy holds before) (inv : QueueInv before content)
    {index : Fin shop.customers}
    (nonempty : before.pc (.customer index) = .dequeue → content ≠ [])
    (moved : next shop.program before (.customer index) = some after) :
    queueHandoff after = queueHandoff before ∨
      Handoff.Step (queueHandoff before) (queueHandoff after) := by
  have sameTeller : teller after = teller before :=
    phaseOf_step_idle teller_idleOutside (program_respects shop) locked moved rfl rfl
  have steady : callerPhase (before.pc (.customer index)) = .idle →
      callerPhase (after.pc (.customer index)) = .idle → caller after = caller before :=
    phaseOf_step_idle caller_idleOutside (program_respects shop) locked moved
  have shift : callerPhase (before.pc (.customer index)) ≠ .idle ∨
      callerPhase (after.pc (.customer index)) ≠ .idle →
      caller before = callerPhase (before.pc (.customer index)) ∧
        caller after = callerPhase (after.pc (.customer index)) :=
    phaseOf_step_busy caller_idleOutside (program_respects shop) locked moved
  obtain ⟨ready, target, shared, value⟩ := next_fields moved
  cases at_ : before.pc (.customer index) <;>
    simp only [Shop.program, at_, customer, test, assign, print, Command.ready, Command.target,
      Command.effect, Command.signal, Option.some.injEq, id] at ready target shared value <;>
    rw [at_, ← target] at steady shift
  case testQueue =>
    have held : customerHolds (before.pc (.customer index)) .queueMutex = true := by rw [at_]; rfl
    by_cases empty : queueSize shop.cashiers before.shared.queue = 0
    · rw [if_pos empty] at shift
      obtain ⟨callerBefore, callerAfter⟩ := shift (.inr (by decide))
      have shape : queueHandoff after = { queueHandoff before with consumer := .sawEmpty } := by
        simp [queueHandoff, shared, value, callerAfter, sameTeller, callerPhase]
      rw [shape]
      exact .inr (.findEmpty callerBefore (teller_idle_of_customer locked held) empty)
    · rw [if_neg empty] at shift
      obtain ⟨callerBefore, callerAfter⟩ := shift (.inr (by decide))
      have shape : queueHandoff after = { queueHandoff before with consumer := .awake } := by
        simp [queueHandoff, shared, value, callerAfter, sameTeller, callerPhase]
      rw [shape]
      exact .inr (.findUnit callerBefore empty)
  case raiseWaiting =>
    obtain ⟨callerBefore, callerAfter⟩ := shift (.inl (by decide))
    have shape : queueHandoff after = { queueHandoff before with
        waiters := before.shared.waitForCashier + 1, consumer := .sleeping } := by
      simp [queueHandoff, shared, value, callerAfter, sameTeller, callerPhase]
    rw [shape]
    exact .inr (.raise callerBefore)
  case waitBusy =>
    obtain ⟨callerBefore, callerAfter⟩ := shift (.inl (by decide))
    have shape : queueHandoff after = { queueHandoff before with
        tokens := before.value .cashiersAllBusy - 1, consumer := .awake } := by
      simp [queueHandoff, shared, value, callerAfter, sameTeller, callerPhase]
    rw [shape]
    exact .inr (.wake callerBefore ready)
  case dequeue =>
    obtain ⟨callerBefore, callerAfter⟩ := shift (.inl (by decide))
    have held : customerHolds (before.pc (.customer index)) .queueMutex = true := by rw [at_]; rfl
    obtain ⟨id, rest, rfl⟩ := List.exists_cons_of_ne_nil (nonempty at_)
    have shorter : queueSize shop.cashiers after.shared.queue =
        queueSize shop.cashiers before.shared.queue - 1 := by
      rw [shared, inv.stored.dequeue.2.queueSize_eq, inv.stored.queueSize_eq]
      simp
    have shape : queueHandoff after = { queueHandoff before with
        level := queueSize shop.cashiers before.shared.queue - 1, consumer := .idle } := by
      simp only [queueHandoff, shorter, callerAfter, sameTeller, callerPhase]
      simp [shared, value]
    rw [shape]
    exact .inr (.take callerBefore (teller_idle_of_customer locked held))
  case unlockWaiting | relockQueue | printComes =>
    obtain ⟨callerBefore, callerAfter⟩ := shift (.inl (by decide))
    exact .inl (queueHandoff_frame (by rw [shared]) (by rw [shared]) (by simp [value]) sameTeller
      (callerAfter.trans callerBefore.symm))
  all_goals
    exact .inl (queueHandoff_frame (by rw [shared]) (by rw [shared]) (by simp [value]) sameTeller
      (steady rfl rfl))

/-- A customer that is about to dequeue finds a cashier. -/
theorem QueueInv.nonempty (locked : LockedBy holds before) (inv : QueueInv before content)
    (handoff : Handoff.Inv (queueHandoff before)) {index : Fin shop.customers}
    (at_ : before.pc (.customer index) = .dequeue) : content ≠ [] := by
  have awake : caller before = .awake := by
    have held : holds (.customer index) (before.pc (.customer index)) .CM = true := by rw [at_]; rfl
    rw [caller, phaseOf_of_holds locked held, at_]
    rfl
  have unit : 1 ≤ queueSize shop.cashiers before.shared.queue := handoff.unit awake
  rw [inv.stored.queueSize_eq] at unit
  rintro rfl
  simp at unit

end Simulation

/-! ### The queue over whole runs -/

/-- What a statement does to the list of queued cashiers: the announcement of a cashier appends it, and
    the `dequeue` of a customer removes the oldest one. -/
def queuedAfter (content : List Int) : Label (@Pc shop) → List Int
  | ⟨.cook _, _⟩ => content
  | ⟨.cashier index, pc⟩ => if pc = .enqueue then content ++ [(index + 1 : Int)] else content
  | ⟨.customer _, pc⟩ => if pc = .dequeue then content.tail else content

/-- The cashiers that are queued after a run, oldest first. -/
def queued (trace : List (Label (@Pc shop))) : List Int := trace.foldl queuedAfter []

theorem queued_concat (trace : List (Label (@Pc shop))) (label : Label (@Pc shop)) :
    queued (trace ++ [label]) = queuedAfter (queued trace) label := by
  rw [queued, List.foldl_append]
  rfl

/-- Along every run the buffer is the list of queued cashiers, every cashier is accounted for, and the
    queue is a handoff between the cashiers and the customers. -/
theorem run_queued {trace : List (Label (@Pc shop))} {state : shop.State}
    (run : shop.Run trace state) :
    QueueInv state (queued trace) ∧ Handoff.Inv (queueHandoff state) := by
  induction run with
  | start =>
      have stored : shop.initial.shared.queue.Holds shop.cashiers [] :=
        Represents.empty _ (by omega)
      refine ⟨⟨stored, by simp [queued], ?_, ?_⟩, ?_⟩
      · intro id isCalled
        cases isCalled
      · intro index
        rfl
      · have fresh : queueHandoff shop.initial = ⟨0, 0, 0, .idle, .idle⟩ := by
          have empty : queueSize shop.cashiers shop.initial.shared.queue = 0 := stored.queueSize_eq
          simp only [queueHandoff, empty]
          rfl
        rw [fresh]
        exact Handoff.Inv.initial
  | @step trace before after thread run moved inductionHypothesis =>
      obtain ⟨inv, handoff⟩ := inductionHypothesis
      have locked := run_locked run
      rw [queued_concat]
      cases thread with
      | cook index =>
          exact ⟨inv.step_cook locked moved,
            handoff.simulated (.inl (queueHandoff_step_cook locked moved))⟩
      | cashier index =>
          exact ⟨inv.step_cashier locked moved,
            handoff.simulated (queueHandoff_step_cashier locked inv moved)⟩
      | customer index =>
          have nonempty : before.pc (.customer index) = .dequeue → queued trace ≠ [] :=
            inv.nonempty locked handoff
          exact ⟨inv.step_customer locked nonempty moved,
            handoff.simulated (queueHandoff_step_customer locked inv nonempty moved)⟩

/-- In every reachable state the queue is accounted for and is a handoff between the cashiers and
    the customers. -/
theorem run_queue {trace : List (Label (@Pc shop))} {state : shop.State}
    (run : shop.Run trace state) :
    (∃ content, QueueInv state content) ∧ Handoff.Inv (queueHandoff state) :=
  ⟨⟨_, (run_queued run).1⟩, (run_queued run).2⟩

/-- A customer that is about to post a `cashierAvailable` posts that of the cashier it was assigned. -/
theorem QueueInv.server {state : shop.State} {content : List Int} (inv : QueueInv state content)
    (locked : LockedBy holds state) {index : Fin shop.customers} {serverID : Int}
    (at_ : state.pc (.customer index) = .postAvailable serverID) :
    ∃ cashier : Fin shop.cashiers, serverID = cashier + 1 := by
  have held : holds (.customer index) (state.pc (.customer index)) .CM = true := by rw [at_]; rfl
  refine inv.callee serverID ?_
  rw [called, phaseOf_of_holds locked held, at_]
  rfl

/-- Along every run the circular buffer is the list of queued cashiers, oldest first: an id of a
    cashier stands in it at most once and `queueSize()` is its length. An `enqueue` keeps the queued
    ids and appends one, a `dequeue` finds an id and removes the oldest, and the semaphore that a
    customer posts is one of the array. -/
theorem queue_is_fifo (shop : Shop) (trace : List (Label (@Pc shop))) (state : shop.State)
    (run : shop.Run trace state) :
    state.shared.queue.Holds shop.cashiers (queued trace) ∧
      (queued trace).Nodup ∧
      (∀ id ∈ queued trace, 1 ≤ id ∧ id ≤ shop.cashiers) ∧
      queueSize shop.cashiers state.shared.queue = (queued trace).length ∧
      (∀ index, state.pc (.cashier index) = .enqueue →
        (index + 1 : Int) ∉ queued trace ∧
          (enqueue shop.cashiers (index + 1) state.shared.queue).Holds shop.cashiers
            (queued trace ++ [(index + 1 : Int)])) ∧
      (∀ index, state.pc (.customer index) = .dequeue →
        ∃ serverID rest, queued trace = serverID :: rest ∧ 1 ≤ serverID ∧ serverID ≤ shop.cashiers ∧
          (dequeue shop.cashiers state.shared.queue).1 = serverID ∧
          (dequeue shop.cashiers state.shared.queue).2.Holds shop.cashiers rest) ∧
      ∀ index serverID, state.pc (.customer index) = .postAvailable serverID →
        0 ≤ serverID - 1 ∧ serverID - 1 < shop.cashiers := by
  have locked := run_locked run
  obtain ⟨inv, handoff⟩ := run_queued run
  have inRange : ∀ {id : Int}, (∃ index : Fin shop.cashiers, id = index + 1) →
      1 ≤ id ∧ id ≤ shop.cashiers := by
    rintro id ⟨index, rfl⟩
    have := index.isLt
    omega
  refine ⟨inv.stored, inv.nodup, fun id member => inRange (inv.ids id member),
    inv.stored.queueSize_eq, ?_, ?_, ?_⟩
  · intro index at_
    have absent : announced (state.pc (.cashier index)) = false := by rw [at_]; rfl
    exact ⟨inv.not_queued absent, inv.stored.enqueue (inv.room absent) _⟩
  · intro index at_
    obtain ⟨serverID, rest, isQueued⟩ := List.exists_cons_of_ne_nil (inv.nonempty locked handoff at_)
    have member : serverID ∈ queued trace := by
      rw [isQueued]
      exact List.mem_cons_self
    obtain ⟨low, high⟩ := inRange (inv.ids serverID member)
    have stored := inv.stored
    rw [isQueued] at stored
    exact ⟨serverID, rest, isQueued, low, high, stored.dequeue⟩
  · intro index serverID at_
    obtain ⟨low, high⟩ := inRange (inv.server locked at_)
    omega

/-- Two cashiers queue up before a customer comes. -/
def twoCashierShop : Shop := ⟨1, 2, 1, 1, fun _ => 0⟩

/-- The second cashier is the first to announce itself. -/
def twoCashierSchedule : List (Thread twoCashierShop) :=
  List.replicate 4 (.cashier ⟨1, by decide⟩) ++ List.replicate 4 (.cashier ⟨0, by decide⟩) ++
    List.replicate 4 (.customer ⟨0, by decide⟩)

set_option maxRecDepth 10000 in
/-- The customer is about to get the cashier that came first. -/
theorem queue_is_fifo_two :
    ∃ trace state, twoCashierShop.Run trace state ∧
      state.pc (.customer ⟨0, by decide⟩) = .dequeue ∧
      (dequeue 2 state.shared.queue).1 = 2 ∧
      ∃ serverID rest, queued trace = serverID :: rest ∧
        (dequeue 2 state.shared.queue).1 = serverID := by
  have scheduled : (runSchedule twoCashierShop.program twoCashierSchedule twoCashierShop.initial).map
      (fun state => (state.pc (.customer ⟨0, by decide⟩), (dequeue 2 state.shared.queue).1)) =
        some (.dequeue, 2) := by decide
  obtain ⟨state, reached, shows⟩ := Option.map_eq_some_iff.mp scheduled
  rw [Prod.mk.injEq] at shows
  obtain ⟨trace, run⟩ := Run.start.schedule reached
  obtain ⟨_, _, _, _, _, dequeues, _⟩ := queue_is_fifo twoCashierShop trace state run
  obtain ⟨serverID, rest, isQueued, _, _, served, _⟩ := dequeues ⟨0, by decide⟩ shows.1
  exact ⟨trace, state, run, shows.1, shows.2, serverID, rest, isQueued, served⟩

end KernelHacking.BurgerBuddies
