/-
Module: KernelHacking.Proofs.ShopFloor
Layer: Proofs
Purpose: The threads of the Burger Buddies refine the shop floor. A floor reflects a state of the threads
  if the rack, the queue, the stage of each cashier and the counts agree (`Reflects`); every statement
  that can be seen is then a step of the floor whose precondition the synchronisation guarantees, and
  every other statement leaves the floor alone. The floor itself stays orderly: a customer that has come
  is with exactly one cashier until it is served (`Orderly`).
Imports: KernelHacking.Foundations.Refinement, KernelHacking.Model.ShopFloor,
  KernelHacking.Proofs.RackProtocol, KernelHacking.Proofs.ServiceLedger
Trusted boundary: none (fully proved)
Main exports: Orderly, Orderly.step, Reflects, Reflects.step_cook, Reflects.step_cashier,
  Reflects.step_customer, threads_refine_floor
Open obligations: none
-/
import KernelHacking.Foundations.Refinement
import KernelHacking.Model.ShopFloor
import KernelHacking.Proofs.RackProtocol
import KernelHacking.Proofs.ServiceLedger

namespace KernelHacking.BurgerBuddies

open Threads Refinement

variable {shop : Shop}

/-! ### Order on the floor -/

@[simp] theorem Floor.assign_duty_self (floor : Floor shop) (cashier : Fin shop.cashiers)
    (duty : Duty shop) : (floor.assign cashier duty).duty cashier = duty := by
  simp [Floor.assign]

theorem Floor.assign_duty_of_ne (floor : Floor shop) {cashier other : Fin shop.cashiers}
    (different : other ≠ cashier) (duty : Duty shop) :
    (floor.assign cashier duty).duty other = floor.duty other := by
  simp [Floor.assign, different]

/-- A queued cashier waits and is queued once, and a customer is with a cashier exactly from the moment
    it comes until it is served. -/
structure Orderly (floor : Floor shop) : Prop where
  waiting : ∀ cashier, floor.duty cashier = .waiting ↔ cashier ∈ floor.queue
  distinct : floor.queue.Nodup
  unserved : ∀ cashier customer, (floor.duty cashier).customer = some customer →
    customer ∈ floor.come ∧ customer ∉ floor.served
  single : ∀ first second customer, (floor.duty first).customer = some customer →
    (floor.duty second).customer = some customer → first = second
  attended : ∀ customer ∈ floor.come, customer ∉ floor.served →
    ∃ cashier, (floor.duty cashier).customer = some customer
  arrived : floor.served ⊆ floor.come

theorem Orderly.opening (shop : Shop) : Orderly (Floor.opening shop) := by
  constructor <;> simp [Floor.opening, Duty.customer]

section Floor

variable {before after : Floor shop} {event : FloorEvent shop}

/-- A cashier that goes on with the customer it is busy with leaves the order as it was. -/
theorem Orderly.proceed (orderly : Orderly before) {cashier : Fin shop.cashiers} {duty : Duty shop}
    {customer : Fin shop.customers} (busy : (before.duty cashier).customer = some customer)
    (same : duty.customer = some customer) : Orderly (before.assign cashier duty) := by
  have customers : ∀ other,
      ((before.assign cashier duty).duty other).customer = (before.duty other).customer := by
    intro other
    by_cases isCashier : other = cashier
    · subst isCashier
      rw [Floor.assign_duty_self, busy, same]
    · rw [Floor.assign_duty_of_ne _ isCashier]
  constructor
  · intro other
    show _ ↔ other ∈ before.queue
    rw [← orderly.waiting other]
    by_cases isCashier : other = cashier
    · subst isCashier
      constructor <;> intro waits
      · rw [Floor.assign_duty_self] at waits
        rw [waits] at same
        cases same
      · rw [waits] at busy
        cases busy
    · rw [Floor.assign_duty_of_ne _ isCashier]
  · exact orderly.distinct
  · intro other
    rw [customers]
    exact orderly.unserved other
  · intro first second
    rw [customers, customers]
    exact orderly.single first second
  · intro other came notServed
    rcases orderly.attended other came notServed with ⟨attendant, attends⟩
    exact ⟨attendant, (customers attendant).trans attends⟩
  · exact orderly.arrived

/-- Neither the rack nor the closing has to do with who attends whom. -/
theorem Orderly.frame (orderly : Orderly before) (rack : Nat) (closed : Bool) :
    Orderly { before with rack := rack, closed := closed } :=
  ⟨orderly.waiting, orderly.distinct, orderly.unserved, orderly.single, orderly.attended,
    orderly.arrived⟩

/-- A cashier without a customer joins the queue at its end. -/
theorem Orderly.settle (orderly : Orderly before) {cashier : Fin shop.cashiers}
    (away : before.duty cashier = .away) :
    Orderly { before.assign cashier .waiting with queue := before.queue ++ [cashier] } := by
  have notQueued : cashier ∉ before.queue := by
    rw [← orderly.waiting cashier, away]
    simp
  have customers : ∀ other, (Function.update before.duty cashier .waiting other).customer =
      (before.duty other).customer := by
    intro other
    by_cases isCashier : other = cashier
    · subst isCashier
      simp [away, Duty.customer]
    · simp [isCashier]
  constructor <;> simp only [Floor.assign]
  · intro other
    by_cases isCashier : other = cashier
    · subst isCashier
      simp
    · simp [isCashier, orderly.waiting other]
  · exact List.nodup_append.mpr ⟨orderly.distinct, List.nodup_singleton cashier, by
      rintro first queued second isCashier rfl
      rw [List.mem_singleton] at isCashier
      exact notQueued (isCashier ▸ queued)⟩
  · simpa only [customers] using orderly.unserved
  · simpa only [customers] using orderly.single
  · simpa only [customers] using orderly.attended
  · exact orderly.arrived

/-- A customer that comes gets the first cashier of the queue. -/
theorem Orderly.come (orderly : Orderly before) {customer : Fin shop.customers}
    {cashier : Fin shop.cashiers} {rest : List (Fin shop.cashiers)} (new : customer ∉ before.come)
    (first : before.queue = cashier :: rest) :
    Orderly { before.assign cashier (.called customer) with
      queue := rest, come := insert customer before.come } := by
  have distinct := orderly.distinct
  rw [first, List.nodup_cons] at distinct
  have waits : before.duty cashier = .waiting := by
    rw [orderly.waiting, first]
    exact List.mem_cons_self
  constructor <;> simp only [Floor.assign]
  · intro other
    by_cases isCashier : other = cashier
    · subst isCashier
      simp [distinct.1]
    · simp [isCashier, orderly.waiting other, first]
  · exact distinct.2
  · intro other someone
    by_cases isCashier : other = cashier
    · subst isCashier
      rw [Function.update_self]
      rintro ⟨⟩
      exact ⟨Finset.mem_insert_self _ _, fun served => new (orderly.arrived served)⟩
    · rw [Function.update_of_ne isCashier]
      intro attends
      rcases orderly.unserved other someone attends with ⟨came, notServed⟩
      exact ⟨Finset.mem_insert_of_mem came, notServed⟩
  · -- nobody was with the new customer, so only the first cashier is with it now
    have nobody : ∀ other, (before.duty other).customer ≠ some customer := fun other attends =>
      new (orderly.unserved other customer attends).1
    intro one two someone
    by_cases isOne : one = cashier <;> by_cases isTwo : two = cashier
    · rw [isOne, isTwo]
      exact fun _ _ => rfl
    · subst isOne
      rw [Function.update_self, Function.update_of_ne isTwo]
      rintro ⟨⟩ attends
      exact absurd attends (nobody two)
    · subst isTwo
      rw [Function.update_self, Function.update_of_ne isOne]
      rintro attends ⟨⟩
      exact absurd attends (nobody one)
    · rw [Function.update_of_ne isOne, Function.update_of_ne isTwo]
      exact orderly.single one two someone
  · intro someone came notServed
    rcases Finset.mem_insert.mp came with rfl | came
    · exact ⟨cashier, by rw [Function.update_self]; rfl⟩
    · rcases orderly.attended someone came notServed with ⟨other, attends⟩
      have isOther : other ≠ cashier := by
        rintro rfl
        rw [waits] at attends
        cases attends
      exact ⟨other, by rw [Function.update_of_ne isOther]; exact attends⟩
  · exact fun someone served => Finset.mem_insert_of_mem (orderly.arrived served)

/-- A customer that is served is with nobody any more. -/
theorem Orderly.serve (orderly : Orderly before) {cashier : Fin shop.cashiers}
    {customer : Fin shop.customers} (carrying : before.duty cashier = .carrying customer) :
    Orderly { before.assign cashier .away with served := insert customer before.served } := by
  have attends : (before.duty cashier).customer = some customer := by rw [carrying]; rfl
  constructor <;> simp only [Floor.assign]
  · intro other
    by_cases isCashier : other = cashier
    · subst isCashier
      rw [← orderly.waiting other, carrying, Function.update_self]
      simp
    · rw [Function.update_of_ne isCashier]
      exact orderly.waiting other
  · exact orderly.distinct
  · intro other someone
    by_cases isCashier : other = cashier
    · subst isCashier
      rw [Function.update_self]
      rintro ⟨⟩
    · rw [Function.update_of_ne isCashier]
      intro attendsToo
      rcases orderly.unserved other someone attendsToo with ⟨came, notServed⟩
      refine ⟨came, fun served => ?_⟩
      rcases Finset.mem_insert.mp served with rfl | served
      · exact isCashier (orderly.single other cashier someone attendsToo attends)
      · exact notServed served
  · intro one two someone
    by_cases isOne : one = cashier
    · subst isOne
      rw [Function.update_self]
      rintro ⟨⟩
    · by_cases isTwo : two = cashier
      · subst isTwo
        rw [Function.update_self]
        rintro _ ⟨⟩
      · rw [Function.update_of_ne isOne, Function.update_of_ne isTwo]
        exact orderly.single one two someone
  · intro someone came notServed
    rw [Finset.mem_insert, not_or] at notServed
    rcases orderly.attended someone came notServed.2 with ⟨other, attendsToo⟩
    have isOther : other ≠ cashier := by
      rintro rfl
      rw [attends] at attendsToo
      cases attendsToo
      exact notServed.1 rfl
    exact ⟨other, by rw [Function.update_of_ne isOther]; exact attendsToo⟩
  · exact Finset.insert_subset (orderly.unserved cashier customer attends).1 orderly.arrived

/-- Every event keeps the order on the floor. -/
theorem Orderly.step (orderly : Orderly before) (step : Floor.Step before event after) :
    Orderly after := by
  cases step with
  | make => exact orderly.frame _ _
  | settle away => exact orderly.settle away
  | come new first => exact orderly.come new first
  | accept called => exact orderly.proceed (by rw [called]; rfl) rfl
  | take ordering _ => exact (orderly.proceed (by rw [ordering]; rfl) rfl).frame _ _
  | serve carrying => exact orderly.serve carrying
  | close _ _ => exact orderly.frame _ _

end Floor

/-! ### Reflection -/

/-- How far a cashier has got with a customer. -/
inductive Stage where
  | away
  | announced
  | ordering
  | carrying
deriving DecidableEq, Repr

def Duty.stage : Duty shop → Stage
  | .away => .away
  | .waiting | .called _ => .announced
  | .ordering _ => .ordering
  | .carrying _ => .carrying

def CashierPc.stage : CashierPc → Stage
  | .lockQueue | .enqueue | .testServed | .postFinish | .unlockCnt => .away
  | .testWaiting | .lowerWaiting | .postBusy | .unlockQueue | .waitCustomer => .announced
  | .printAccepts | .lockCA | .lockRack | .testEmpty | .raiseWaiting | .unlockEmpty | .waitEmpty
  | .relockRack | .takeBurger => .ordering
  | .testWasFull | .postFull | .unlockRack | .printTakes | .unlockCA | .lockCnt | .countServed =>
      .carrying

/-- The id that a cashier puts into the queue. -/
def cashierId (index : Fin shop.cashiers) : Int := index + 1

/-- The floor shows a state of the threads. -/
structure Reflects (state : shop.State) (floor : Floor shop) : Prop where
  rack : state.shared.rack = floor.rack
  queue : QueueInv state (floor.queue.map cashierId)
  duty : ∀ index, (state.pc (.cashier index)).stage = (floor.duty index).stage
  come : ∀ index, (state.pc (.customer index)).server.isSome = true ↔ index ∈ floor.come
  served : state.shared.customersServed = floor.served.card
  closed : state.value .finish = floor.closed.toNat

theorem Reflects.initial (shop : Shop) : Reflects shop.initial (Floor.opening shop) where
  rack := rfl
  queue := (run_queued .start).1
  duty _ := rfl
  come index := by simp [Shop.initial, Floor.opening, CustomerPc.server]
  served := rfl
  closed := rfl

section Steps

variable {before after : shop.State} {floor : Floor shop}

/-- A cook can be seen when it puts a burger on the rack. -/
theorem Reflects.step_cook (reflects : Reflects before floor) (locked : LockedBy holds before)
    {index : Fin shop.cooks} (moved : next shop.program before (.cook index) = some after) :
    Matched Floor.Step Reflects after floor (visible ⟨.cook index, before.pc (.cook index)⟩) := by
  have queue := reflects.queue.step_cook locked moved
  have duty := next_steady Thread.cashier (fun _ => CashierPc.stage) moved (fun _ moves => by cases moves)
  have come := next_steady Thread.customer (fun _ => CustomerPc.server) moved
    (fun _ moves => by cases moves)
  rcases next_fields moved with ⟨_, _, shared, value⟩
  cases at_ : before.pc (.cook index) <;>
    simp only [Shop.program, at_, cook, test, assign, print, Command.effect, Command.signal,
      id] at shared value
  case makeBurger =>
    refine ⟨_, .make, ?_⟩
    constructor
    · rw [shared, Int.natCast_add, ← reflects.rack]
      rfl
    · exact queue
    · exact fun other => (duty other).trans (reflects.duty other)
    · exact fun other => by rw [come other]; exact reflects.come other
    · rw [shared]
      exact reflects.served
    · rw [value]
      exact reflects.closed
  all_goals
    exact ⟨by rw [shared]; exact reflects.rack, queue,
      fun other => (duty other).trans (reflects.duty other),
      fun other => by rw [come other]; exact reflects.come other,
      by rw [shared]; exact reflects.served, by simp [value, reflects.closed]⟩

/-- The stages agree when the cashier that moved gets the duty it is at. -/
theorem Reflects.duty_assign (reflects : Reflects before floor) {index : Fin shop.cashiers}
    (moved : next shop.program before (.cashier index) = some after) {duty : Duty shop}
    (stage : (after.pc (.cashier index)).stage = duty.stage) (other : Fin shop.cashiers) :
    (after.pc (.cashier other)).stage = ((floor.assign index duty).duty other).stage := by
  by_cases isIndex : other = index
  · subst isIndex
    rw [Floor.assign_duty_self]
    exact stage
  · rw [next_pc_of_ne moved (by simp [isIndex]), Floor.assign_duty_of_ne _ isIndex]
    exact reflects.duty other

/-- The customers are where they were when a cashier has moved. -/
theorem Reflects.come_cashier (reflects : Reflects before floor) {index : Fin shop.cashiers}
    (moved : next shop.program before (.cashier index) = some after) (customer : Fin shop.customers) :
    (after.pc (.customer customer)).server.isSome = true ↔ customer ∈ floor.come := by
  rw [next_pc_of_ne moved (by simp)]
  exact reflects.come customer

/-- A cashier at a statement is at the stage of that statement on the floor. -/
theorem Reflects.stage_eq (reflects : Reflects before floor) {index : Fin shop.cashiers}
    {pc : CashierPc} (at_ : before.pc (.cashier index) = pc) : (floor.duty index).stage = pc.stage := by
  rw [← reflects.duty index, at_]

/-- A cashier whose semaphore was posted has been called. -/
theorem Reflects.called (reflects : Reflects before floor) (orderly : Orderly floor)
    {index : Fin shop.cashiers} (at_ : before.pc (.cashier index) = .waitCustomer)
    (posted : before.value (.cashierAvailable index) ≠ 0) :
    ∃ customer, floor.duty index = .called customer := by
  have stage : (floor.duty index).stage = .announced := reflects.stage_eq at_
  cases duty : floor.duty index with
  | called customer => exact ⟨customer, rfl⟩
  | waiting =>
      -- a queued cashier is announced once already, so its semaphore is zero
      have queued : cashierId index ∈ floor.queue.map cashierId :=
        List.mem_map_of_mem ((orderly.waiting index).mp duty)
      have count : 0 < (floor.queue.map cashierId).count (index + 1 : Int) :=
        List.count_pos_iff.mpr queued
      have balance := reflects.queue.balance index
      have atMostOne := announcement_le_one before index
      omega
  | _ =>
      rw [duty] at stage
      cases stage

/-- A cashier can be seen when it queues up, accepts, takes, serves and closes. -/
theorem Reflects.step_cashier (reflects : Reflects before floor) (orderly : Orderly floor)
    (locked : LockedBy holds before) (rackHandoff : Handoff.Inv (rackHandoff before))
    (closing : ClosingInv before) {index : Fin shop.cashiers}
    (moved : next shop.program before (.cashier index) = some after) :
    Matched Floor.Step Reflects after floor (visible ⟨.cashier index, before.pc (.cashier index)⟩) := by
  have queue := reflects.queue.step_cashier locked moved
  have come := reflects.come_cashier moved
  have steady : (after.pc (.cashier index)).stage = (before.pc (.cashier index)).stage →
      ∀ other, (after.pc (.cashier other)).stage = (floor.duty other).stage := fun same other =>
    (next_steady Thread.cashier (fun _ => CashierPc.stage) moved (by rintro other ⟨⟩; exact same)
      other).trans (reflects.duty other)
  rcases next_fields moved with ⟨ready, target, shared, value⟩
  cases at_ : before.pc (.cashier index) <;>
    simp only [Shop.program, at_, cashier, test, assign, print, Command.ready, Command.target,
      Command.effect, Command.signal, Option.some.injEq, id] at ready target shared value <;>
    simp only [at_, reduceCtorEq, if_false, if_true] at queue <;>
    rw [← target, at_] at steady
  case enqueue =>
    have away : floor.duty index = .away := by
      have stage := reflects.stage_eq at_
      cases duty : floor.duty index <;> rw [duty] at stage <;> first | rfl | cases stage
    refine ⟨_, .settle away, ?_⟩
    constructor
    · rw [shared]
      exact reflects.rack
    · rw [List.map_append]
      exact queue
    · exact reflects.duty_assign moved (by rw [← target]; rfl)
    · exact come
    · rw [shared]
      exact reflects.served
    · rw [value]
      exact reflects.closed
  case waitCustomer =>
    rcases reflects.called orderly at_ ready with ⟨customer, called⟩
    refine ⟨_, .accept called, ?_⟩
    constructor
    · rw [shared]
      exact reflects.rack
    · exact queue
    · exact reflects.duty_assign moved (by rw [← target]; rfl)
    · exact come
    · rw [shared]
      exact reflects.served
    · rw [value]
      exact reflects.closed
  case takeBurger =>
    have ordering : ∃ customer, floor.duty index = .ordering customer := by
      have stage := reflects.stage_eq at_
      cases duty : floor.duty index with
      | ordering customer => exact ⟨customer, rfl⟩
      | _ =>
          rw [duty] at stage
          cases stage
    rcases ordering with ⟨customer, ordering⟩
    have unit : 1 ≤ before.shared.rack := rackHandoff.unit (taker_awake locked at_)
    have some : floor.rack = floor.rack - 1 + 1 := by
      have rack := reflects.rack
      omega
    refine ⟨_, .take ordering some, ?_⟩
    constructor
    · rw [shared, reflects.rack]
      show (floor.rack : Int) - 1 = ((floor.rack - 1 : Nat) : Int)
      omega
    · exact queue
    · exact reflects.duty_assign moved (by rw [← target]; rfl)
    · exact come
    · rw [shared]
      exact reflects.served
    · rw [value]
      exact reflects.closed
  case countServed =>
    have carrying : ∃ customer, floor.duty index = .carrying customer := by
      have stage := reflects.stage_eq at_
      cases duty : floor.duty index with
      | carrying customer => exact ⟨customer, rfl⟩
      | _ =>
          rw [duty] at stage
          cases stage
    rcases carrying with ⟨customer, carrying⟩
    have notServed := (orderly.unserved index customer (by rw [carrying]; rfl)).2
    refine ⟨_, .serve carrying, ?_⟩
    constructor
    · rw [shared]
      exact reflects.rack
    · exact queue
    · exact reflects.duty_assign moved (by rw [← target]; rfl)
    · exact come
    · rw [shared, Finset.card_insert_of_notMem notServed, reflects.served]
      rfl
    · rw [value]
      exact reflects.closed
  case postFinish =>
    have posting : closer before = .posting := by
      have held : holds (.cashier index) (before.pc (.cashier index)) .cntMutex = true := by
        rw [at_]
        rfl
      rw [closer, phaseOf_of_holds locked held, at_]
      rfl
    have all : AllCounted before := by
      by_contra notAll
      exact (closing.open_ notAll).2 posting
    have none : before.value .finish = 0 := closing.none_of_busy (by rw [posting]; decide)
    have still : floor.closed = false := by
      have closed := reflects.closed
      rw [none] at closed
      cases isClosed : floor.closed with
      | false => rfl
      | true =>
          rw [isClosed] at closed
          cases closed
    have done : ∀ customer, customer ∈ floor.served := by
      have count : floor.served.card = Fintype.card (Fin shop.customers) := by
        rw [Fintype.card_fin]
        exact Int.ofNat.inj (reflects.served.symm.trans all.1)
      intro customer
      rw [(Finset.card_eq_iff_eq_univ floor.served).mp count]
      exact Finset.mem_univ customer
    refine ⟨_, .close done still, ?_⟩
    constructor
    · rw [shared]
      exact reflects.rack
    · exact queue
    · exact steady rfl
    · exact come
    · rw [shared]
      exact reflects.served
    · rw [value, Function.update_self, none]
      rfl
  all_goals
    exact ⟨by rw [shared]; exact reflects.rack, queue,
      steady (by first | rfl | (split <;> rfl)), come, by rw [shared]; exact reflects.served,
      by simp [value, reflects.closed]⟩

/-- A customer can be seen when it gets its cashier. -/
theorem Reflects.step_customer (reflects : Reflects before floor) (orderly : Orderly floor)
    (locked : LockedBy holds before) (queueHandoff : Handoff.Inv (queueHandoff before))
    {index : Fin shop.customers} (moved : next shop.program before (.customer index) = some after) :
    Matched Floor.Step Reflects after floor
      (visible ⟨.customer index, before.pc (.customer index)⟩) := by
  have nonempty : before.pc (.customer index) = .dequeue → floor.queue.map cashierId ≠ [] :=
    reflects.queue.nonempty locked queueHandoff
  have queue := reflects.queue.step_customer locked nonempty moved
  have duty : ∀ other, (after.pc (.cashier other)).stage = (before.pc (.cashier other)).stage :=
    next_steady Thread.cashier (fun _ => CashierPc.stage) moved (fun _ moves => by cases moves)
  have others : ∀ other, other ≠ index →
      (after.pc (.customer other)).server = (before.pc (.customer other)).server := by
    intro other different
    rw [next_pc_of_ne moved (by simp [different])]
  have steady : (after.pc (.customer index)).server = (before.pc (.customer index)).server →
      ∀ other, (after.pc (.customer other)).server.isSome = true ↔ other ∈ floor.come := by
    intro same other
    have same := next_steady Thread.customer (fun _ => CustomerPc.server) moved
      (by rintro other ⟨⟩; exact same) other
    rw [same]
    exact reflects.come other
  rcases next_fields moved with ⟨ready, target, shared, value⟩
  cases at_ : before.pc (.customer index) <;>
    simp only [Shop.program, at_, customer, test, assign, print, Command.ready, Command.target,
      Command.effect, Command.signal, Option.some.injEq, id] at ready target shared value <;>
    simp only [at_, reduceCtorEq, if_false, if_true] at queue <;>
    rw [← target, at_] at steady
  case dequeue =>
    have new : index ∉ floor.come := by
      rw [← reflects.come index, at_]
      simp [CustomerPc.server]
    have someone : floor.queue ≠ [] := fun empty => nonempty at_ (by rw [empty]; rfl)
    rcases List.exists_cons_of_ne_nil someone with ⟨cashier, rest, first⟩
    have waits : floor.duty cashier = .waiting := by
      rw [orderly.waiting, first]
      exact List.mem_cons_self
    refine ⟨_, .come new first, ?_⟩
    constructor
    · rw [shared]
      exact reflects.rack
    · rw [first] at queue
      exact queue
    · -- a cashier that was called is still announced
      intro other
      rw [duty other, reflects.duty other]
      by_cases isCashier : other = cashier
      · subst isCashier
        show _ = ((floor.assign other (.called index)).duty other).stage
        rw [Floor.assign_duty_self, waits]
        rfl
      · show _ = ((floor.assign cashier (.called index)).duty other).stage
        rw [Floor.assign_duty_of_ne _ isCashier]
    · intro other
      rw [Finset.mem_insert]
      by_cases isIndex : other = index
      · subst isIndex
        rw [← target]
        simp [CustomerPc.server]
      · rw [others other isIndex, reflects.come other]
        simp [isIndex]
    · rw [shared]
      exact reflects.served
    · rw [value]
      exact reflects.closed
  all_goals
    exact ⟨by rw [shared]; exact reflects.rack, queue,
      fun other => (duty other).trans (reflects.duty other), steady (by first | rfl | (split <;> rfl)),
      by rw [shared]; exact reflects.served, by simp [value, reflects.closed]⟩

end Steps

/-! ### Whole runs -/

/-- One step of one thread from a state that a run leads to. -/
def Shop.Step (shop : Shop) (before : shop.State) (label : Label (@Pc shop)) (after : shop.State) :
    Prop :=
  (∃ trace, shop.Run trace before) ∧
    ∃ thread, label = ⟨thread, before.pc thread⟩ ∧ next shop.program before thread = some after

theorem run_exec {trace : List (Label (@Pc shop))} {state : shop.State} (run : shop.Run trace state) :
    Exec shop.Step shop.initial trace state := by
  induction run with
  | start => exact .start
  | step run moved inductionHypothesis => exact inductionHypothesis.step ⟨⟨_, run⟩, _, rfl, moved⟩

/-- What can be seen of a step of the threads is a step of an orderly floor. -/
theorem step_simulates : Simulates shop.Step Floor.Step visible
    (fun state floor => Reflects state floor ∧ Orderly floor) := by
  rintro before after label floor ⟨reflects, orderly⟩ ⟨⟨trace, run⟩, thread, rfl, moved⟩
  have locked := run_locked run
  have matched : Matched Floor.Step Reflects after floor (visible ⟨thread, before.pc thread⟩) := by
    cases thread with
    | cook index => exact reflects.step_cook locked moved
    | cashier index =>
        exact reflects.step_cashier orderly locked (run_rackHandoff run) (run_closing run) moved
    | customer index => exact reflects.step_customer orderly locked (run_queued run).2 moved
  cases seen : visible ⟨thread, before.pc thread⟩ with
  | none =>
      rw [seen] at matched
      exact ⟨matched, orderly⟩
  | some event =>
      rw [seen] at matched
      rcases matched with ⟨next, step, reflectsNext⟩
      exact ⟨next, step, reflectsNext, orderly.step step⟩

/-- Every interleaving of the threads shows an execution of the shop floor: the statements that make and
    take burgers, announce and call cashiers, count customers and close the shop are its events, in their
    order, and the floor at the end is orderly and agrees with the variables of the threads. -/
theorem threads_refine_floor (shop : Shop) (trace : List (Label (@Pc shop))) (state : shop.State)
    (run : shop.Run trace state) :
    ∃ floor, Exec Floor.Step (Floor.opening shop) (trace.filterMap visible) floor ∧
      Reflects state floor ∧ Orderly floor :=
  step_simulates.exec ⟨Reflects.initial shop, Orderly.opening shop⟩ (run_exec run)

set_option maxRecDepth 10000 in
/-- The smallest shop closes after its one customer. -/
theorem threads_refine_floor_closing :
    ∃ trace state, smallestShop.Run trace state ∧ state.value .finish = 1 ∧
      ∃ floor, Exec Floor.Step (Floor.opening smallestShop) (trace.filterMap visible) floor ∧
        Reflects state floor ∧ Orderly floor := by
  have scheduled : (runSchedule smallestShop.program closingSchedule smallestShop.initial).map
      (fun state => state.value .finish) = some 1 := by decide
  rcases Option.map_eq_some_iff.mp scheduled with ⟨state, reached, closes⟩
  rcases Run.start.schedule reached with ⟨trace, run⟩
  exact ⟨trace, state, run, closes, threads_refine_floor smallestShop trace state run⟩

end KernelHacking.BurgerBuddies
