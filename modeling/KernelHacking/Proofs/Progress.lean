/-
Module: KernelHacking.Proofs.Progress
Layer: Proofs
Purpose: The shop never gets stuck. Every step of a cashier or a customer uses up some of the work that
  is left (`workLeft`), and steps of cooks leave it alone. While the shop is not done, either a cashier
  or a customer can move, or a cashier waits at the rack and the cooks alone let it go on
  (`Wakeup`); so from every reachable state some continuation serves all customers and posts
  `finish`.
Imports: KernelHacking.Proofs.ServiceLedger, KernelHacking.Proofs.Wakeup
Trusted boundary: none (fully proved)
Main exports: workLeft, cashier_step_uses_work, customer_step_uses_work, FrontStuck, Done,
  can_finish, can_finish_from_overflow
Open obligations: none
-/
import KernelHacking.Proofs.ServiceLedger
import KernelHacking.Proofs.Wakeup

namespace KernelHacking.BurgerBuddies

open Threads

variable {shop : Shop}

/-- How many statements a cashier may execute before it waits for its next call. -/
def cashierWork : CashierPc → Nat
  | .printAccepts => 25
  | .lockCA => 24
  | .lockRack => 23
  | .testEmpty => 22
  | .raiseWaiting => 21
  | .unlockEmpty => 20
  | .waitEmpty => 19
  | .relockRack => 18
  | .takeBurger => 17
  | .testWasFull => 16
  | .postFull => 15
  | .unlockRack => 14
  | .printTakes => 13
  | .unlockCA => 12
  | .lockCnt => 11
  | .countServed => 10
  | .testServed => 9
  | .postFinish => 8
  | .unlockCnt => 7
  | .lockQueue => 6
  | .enqueue => 5
  | .testWaiting => 4
  | .lowerWaiting => 3
  | .postBusy => 2
  | .unlockQueue => 1
  | .waitCustomer => 0

/-- How many statements a customer may execute, with the work its call makes for a cashier. -/
def customerWork : CustomerPc → Nat
  | .lockCM => 39
  | .lockQueue => 38
  | .testQueue => 37
  | .raiseWaiting => 36
  | .unlockWaiting => 35
  | .waitBusy => 34
  | .relockQueue => 33
  | .printComes => 32
  | .dequeue => 31
  | .unlockQueue _ => 30
  | .postAvailable _ => 29
  | .unlockCM _ => 2
  | .pthreadExit _ => 1
  | .exited _ => 0

/-- The calls that no cashier has answered yet. -/
def openCalls (state : shop.State) : Nat :=
  ∑ index : Fin shop.cashiers, state.value (.cashierAvailable index)

/-- The work that is left to the cashiers and the customers. -/
def workLeft (state : shop.State) : Nat :=
  customerCensus customerWork state + cashierCensus cashierWork state + 26 * openCalls state

section Work

variable {before after : shop.State}

/-- A call given to or answered by one cashier changes the open calls by as much. -/
theorem openCalls_update {index : Fin shop.cashiers} {tokens : Nat}
    (value : after.value = Function.update before.value (.cashierAvailable index) tokens) :
    openCalls after + before.value (.cashierAvailable index) = openCalls before + tokens := by
  have change : openCalls after + before.value (.cashierAvailable index) =
      openCalls before + after.value (.cashierAvailable index) := by
    apply sum_change _ _ index
    intro other different
    have notSame : (other : Int) ≠ index := by omega
    rw [value, Function.update_of_ne (by simpa using notSame)]
  rw [value, Function.update_self] at change
  exact change

/-- Answering a call uses up one token, and every other step one statement. -/
theorem cashier_step_uses_work {index : Fin shop.cashiers}
    (moved : next shop.program before (.cashier index) = some after) :
    workLeft after < workLeft before := by
  have customers : customerCensus customerWork after = customerCensus customerWork before :=
    census_step_of_ne (by simp) moved
  have cashiers : cashierCensus cashierWork after + cashierWork (before.pc (.cashier index)) =
      cashierCensus cashierWork before + cashierWork (after.pc (.cashier index)) :=
    census_step cashier_injective moved
  obtain ⟨ready, target, _, value⟩ := next_fields moved
  by_cases at_ : before.pc (.cashier index) = .waitCustomer
  · rw [at_] at cashiers ready target value
    simp only [Shop.program, cashier, Command.ready, Command.target, Command.signal,
      Option.some.injEq] at ready target value
    rw [← target] at cashiers
    have calls := openCalls_update value
    simp only [workLeft, cashierWork] at cashiers ⊢
    omega
  · have calls : openCalls after = openCalls before := by
      apply Finset.sum_congr rfl
      intro other _
      rw [value]
      cases pc : before.pc (.cashier index)
      case waitCustomer => exact absurd pc at_
      all_goals simp [Shop.program, cashier, test, assign, print, Command.signal]
    have less : cashierWork (after.pc (.cashier index)) < cashierWork (before.pc (.cashier index)) := by
      cases pc : before.pc (.cashier index) <;> rw [pc] at target <;>
        simp only [Shop.program, cashier, test, assign, print, Command.target,
          Option.some.injEq] at target <;>
        rw [← target]
      case waitCustomer => exact absurd pc at_
      all_goals first | decide | (split <;> decide)
    simp only [workLeft]
    omega

/-- A call hands part of the customer's work on to a cashier, and every other step uses up one
    statement. -/
theorem customer_step_uses_work {index : Fin shop.customers}
    (moved : next shop.program before (.customer index) = some after) :
    workLeft after < workLeft before := by
  have cashiers : cashierCensus cashierWork after = cashierCensus cashierWork before :=
    census_step_of_ne (by simp) moved
  have customers : customerCensus customerWork after + customerWork (before.pc (.customer index)) =
      customerCensus customerWork before + customerWork (after.pc (.customer index)) :=
    census_step customer_injective moved
  obtain ⟨_, target, _, value⟩ := next_fields moved
  by_cases calling : ∃ serverID, before.pc (.customer index) = .postAvailable serverID
  · obtain ⟨serverID, at_⟩ := calling
    rw [at_] at customers target value
    simp only [Shop.program, customer, Command.target, Command.signal, Option.some.injEq]
      at target value
    rw [← target] at customers
    have calls : openCalls after ≤ openCalls before + 1 := by
      by_cases callee : ∃ cashier : Fin shop.cashiers, (cashier : Int) = serverID - 1
      · obtain ⟨cashier, callee⟩ := callee
        rw [← callee] at value
        have change := openCalls_update value
        omega
      · have same : openCalls after = openCalls before := by
          apply Finset.sum_congr rfl
          intro other _
          have notSame : (other : Int) ≠ serverID - 1 := fun isOther => callee ⟨other, isOther⟩
          rw [value, Function.update_of_ne (by simpa using notSame)]
        omega
    simp only [workLeft, customerWork] at customers ⊢
    omega
  · have calls : openCalls after = openCalls before := by
      apply Finset.sum_congr rfl
      intro other _
      rw [value]
      cases pc : before.pc (.customer index)
      case postAvailable serverID => exact absurd ⟨serverID, pc⟩ calling
      all_goals simp [Shop.program, customer, test, assign, print, Command.signal]
    have less : customerWork (after.pc (.customer index)) <
        customerWork (before.pc (.customer index)) := by
      cases pc : before.pc (.customer index) <;> rw [pc] at target <;>
        simp only [Shop.program, customer, test, assign, print, Command.target,
          Option.some.injEq, reduceCtorEq] at target <;>
        rw [← target]
      case postAvailable serverID => exact absurd ⟨serverID, pc⟩ calling
      case testQueue => split <;> decide
      all_goals simp [customerWork]
    simp only [workLeft]
    omega

/-- The work left is read off the cashiers, the customers and the calls. -/
theorem SameFront.workLeft_eq {first second : shop.State} (same : SameFront first second) :
    workLeft second = workLeft first := by
  have customers : customerCensus customerWork second = customerCensus customerWork first :=
    census_congr same.customers
  have cashiers : cashierCensus cashierWork second = cashierCensus cashierWork first :=
    census_congr same.cashiers
  have calls : openCalls second = openCalls first :=
    Finset.sum_congr rfl fun index _ => same.tokens index
  rw [workLeft, workLeft, customers, cashiers, calls]

end Work

/-! ### States in which no cashier and no customer can move -/

/-- Neither a cashier nor a customer can move. -/
structure FrontStuck (state : shop.State) : Prop where
  cashiers : ∀ index, next shop.program state (.cashier index) = none
  customers : ∀ index, next shop.program state (.customer index) = none

section Stuck

variable {state : shop.State}

theorem FrontStuck.cashier_not_ready (stuck : FrontStuck state) (index : Fin shop.cashiers) :
    ¬ (cashier shop index (state.pc (.cashier index))).ready state.owner state.value := by
  intro ready
  obtain ⟨after, moved⟩ := exists_next_of_ready
    (show (shop.program (.cashier index) (state.pc (.cashier index))).ready state.owner state.value
      from ready)
  rw [stuck.cashiers index] at moved
  cases moved

theorem FrontStuck.customer_not_ready (stuck : FrontStuck state) (index : Fin shop.customers) :
    ¬ (customer shop (state.pc (.customer index))).ready state.owner state.value := by
  intro ready
  obtain ⟨after, moved⟩ := exists_next_of_ready
    (show (shop.program (.customer index) (state.pc (.customer index))).ready state.owner
      state.value from ready)
  rw [stuck.customers index] at moved
  cases moved

/-- Whoever owns `queueMutex` can move. -/
theorem FrontStuck.queueMutex_free (stuck : FrontStuck state) (locked : LockedBy holds state) :
    state.owner .queueMutex = none := by
  apply locked.free
  intro thread held
  cases thread with
  | cook index => rcases cookHolds_mutex held with other | other <;> cases other
  | cashier index =>
      change cashierHolds (state.pc (.cashier index)) .queueMutex = true at held
      have notReady := stuck.cashier_not_ready index
      cases at_ : state.pc (.cashier index) <;> rw [at_] at held notReady <;>
        first | exact absurd trivial notReady | cases held
  | customer index =>
      change customerHolds (state.pc (.customer index)) .queueMutex = true at held
      have notReady := stuck.customer_not_ready index
      cases at_ : state.pc (.customer index) <;> rw [at_] at held notReady <;>
        first | exact absurd trivial notReady | cases held

/-- Whoever owns `cntMutex` can move. -/
theorem FrontStuck.cntMutex_free (stuck : FrontStuck state) (locked : LockedBy holds state) :
    state.owner .cntMutex = none := by
  apply cashierMutex_free locked (.inr rfl)
  intro index held
  have notReady := stuck.cashier_not_ready index
  cases at_ : state.pc (.cashier index) <;> rw [at_] at held notReady <;>
    first | exact absurd trivial notReady | cases held

/-- Where a cashier can be stuck: at the rack, before it, or waiting for a call. -/
theorem FrontStuck.cashier_at (stuck : FrontStuck state) (locked : LockedBy holds state)
    (index : Fin shop.cashiers) :
    (state.pc (.cashier index) = .lockRack ∨ state.pc (.cashier index) = .relockRack) ∨
      state.pc (.cashier index) = .waitEmpty ∨
      (state.pc (.cashier index) = .lockCA ∧ state.owner .CA ≠ none) ∨
      (state.pc (.cashier index) = .waitCustomer ∧ state.value (.cashierAvailable index) = 0) := by
  have notReady := stuck.cashier_not_ready index
  have queueFree := stuck.queueMutex_free locked
  have cntFree := stuck.cntMutex_free locked
  cases at_ : state.pc (.cashier index) <;> rw [at_] at notReady
  case lockQueue => exact absurd queueFree notReady
  case lockCnt => exact absurd cntFree notReady
  case lockRack => exact .inl (.inl rfl)
  case relockRack => exact .inl (.inr rfl)
  case waitEmpty => exact .inr (.inl rfl)
  case lockCA => exact .inr (.inr (.inl ⟨rfl, notReady⟩))
  case waitCustomer => exact .inr (.inr (.inr ⟨rfl, Decidable.not_not.mp notReady⟩))
  all_goals exact absurd trivial notReady

/-- Where a customer can be stuck: before `CM`, waiting for a free cashier, or at its end. -/
theorem FrontStuck.customer_at (stuck : FrontStuck state) (locked : LockedBy holds state)
    (index : Fin shop.customers) :
    (state.pc (.customer index) = .lockCM ∧ state.owner .CM ≠ none) ∨
      (state.pc (.customer index) = .waitBusy ∧ state.value .cashiersAllBusy = 0) ∨
      ∃ serverID, state.pc (.customer index) = .exited serverID := by
  have notReady := stuck.customer_not_ready index
  have queueFree := stuck.queueMutex_free locked
  cases at_ : state.pc (.customer index) <;> rw [at_] at notReady
  case lockCM => exact .inl ⟨rfl, notReady⟩
  case waitBusy => exact .inr (.inl ⟨rfl, Decidable.not_not.mp notReady⟩)
  case exited serverID => exact .inr (.inr ⟨serverID, rfl⟩)
  case lockQueue => exact absurd queueFree notReady
  case relockQueue => exact absurd queueFree notReady
  all_goals exact absurd trivial notReady

/-- If no cashier is at the rack, all cashiers wait for a call. -/
theorem FrontStuck.cashiers_wait (stuck : FrontStuck state) (locked : LockedBy holds state)
    (nobody : ∀ index, state.pc (.cashier index) ≠ .lockRack ∧
      state.pc (.cashier index) ≠ .relockRack ∧ state.pc (.cashier index) ≠ .waitEmpty)
    (index : Fin shop.cashiers) :
    state.pc (.cashier index) = .waitCustomer ∧ state.value (.cashierAvailable index) = 0 := by
  have caFree : state.owner .CA = none := by
    apply cashierMutex_free locked (.inl rfl)
    intro other held
    obtain ⟨notLock, notRelock, notWait⟩ := nobody other
    rcases stuck.cashier_at locked other with (at_ | at_) | at_ | ⟨at_, _⟩ | ⟨at_, _⟩
    · exact notLock at_
    · exact notRelock at_
    · exact notWait at_
    · rw [at_] at held
      cases held
    · rw [at_] at held
      cases held
  obtain ⟨notLock, notRelock, notWait⟩ := nobody index
  rcases stuck.cashier_at locked index with (at_ | at_) | at_ | ⟨_, owned⟩ | waits
  · exact absurd at_ notLock
  · exact absurd at_ notRelock
  · exact absurd at_ notWait
  · exact absurd caFree owned
  · exact waits

end Stuck

/-- A customer's `serverID` is the id of a cashier: it came out of the queue. -/
theorem run_server {trace : List (Label (@Pc shop))} {state : shop.State}
    (run : shop.Run trace state) (customer : Fin shop.customers) (id : Int)
    (assigned : (state.pc (.customer customer)).server = some id) :
    ∃ index : Fin shop.cashiers, id = index + 1 := by
  induction run with
  | start => cases assigned
  | @step trace before after thread run moved inductionHypothesis =>
      by_cases moves : thread = .customer customer
      · subst moves
        obtain ⟨_, target, _, _⟩ := next_fields moved
        cases at_ : before.pc (.customer customer) <;> rw [at_] at inductionHypothesis <;>
          simp only [Shop.program, at_, BurgerBuddies.customer, test, assign, print, Command.target,
            Option.some.injEq, reduceCtorEq] at target <;>
          rw [← target] at assigned
        case dequeue =>
          -- right after the dequeue the id is the pending call of the queue's accounts
          obtain ⟨⟨content, queue⟩, _⟩ := run_queue (run.step moved)
          have held : holds (.customer customer) (after.pc (.customer customer)) .CM = true := by
            rw [← target]
            rfl
          apply queue.callee id
          rw [called, phaseOf_of_holds (run_locked (run.step moved)) held, ← target]
          exact assigned
        case testQueue => split at assigned <;> cases assigned
        all_goals exact inductionHypothesis assigned
      · rw [next_pc_of_ne moved (Ne.symm moves)] at assigned
        exact inductionHypothesis assigned

/-- The end of the simulation: all customers are served and the manager has been told. -/
def Done (state : shop.State) : Prop :=
  state.shared.customersServed = shop.customers ∧ 0 < state.value .finish

section Finish

variable {trace : List (Label (@Pc shop))} {state : shop.State}

/-- While all cashiers wait for a call, no customer waits for a cashier. -/
theorem no_customer_waits (run : shop.Run trace state) (someCashier : 1 ≤ shop.cashiers)
    (waiting : ∀ index : Fin shop.cashiers, state.pc (.cashier index) = .waitCustomer ∧
      state.value (.cashierAvailable index) = 0)
    (queueFree : state.owner .queueMutex = none) (noToken : state.value .cashiersAllBusy = 0)
    (customer : Fin shop.customers) : state.pc (.customer customer) ≠ .waitBusy := by
  intro asleep
  have locked := run_locked run
  obtain ⟨⟨content, queue⟩, handoff⟩ := run_queue run
  have held : holds (.customer customer) (state.pc (.customer customer)) .CM = true := by
    rw [asleep]
    rfl
  have sleeping : caller state = .sleeping := by
    rw [caller, phaseOf_of_holds locked held, asleep]
    rfl
  have idle : teller state = .idle := by
    rw [teller, phaseOf, queueFree]
  -- nobody has answered the customer, so the queue is empty
  have unanswered : state.shared.waitForCashier ≠ 0 := by
    have balance := handoff.balance
    simp only [Handoff.State.posts, Handoff.State.sleepers, queueHandoff, idle, sleeping, noToken,
      reduceCtorEq, if_true, if_false] at balance
    omega
  have empty : queueSize shop.cashiers state.shared.queue = 0 := by
    rcases handoff.unanswered unanswered with ⟨empty, _⟩ | ⟨_, added | lowering⟩
    · exact empty
    · cases idle.symm.trans added
    · cases idle.symm.trans lowering
  rw [queue.stored.queueSize_eq] at empty
  have nothing : content = [] := List.length_eq_zero_iff.mp (by omega)
  -- but the first cashier has announced itself and has not been called
  have balance := queue.balance ⟨0, someCashier⟩
  have notCalled : pendingCall state ⟨0, someCashier⟩ = 0 := by
    rw [pendingCall, called, phaseOf_of_holds locked held, asleep]
    rfl
  have isAnnounced : announcement state ⟨0, someCashier⟩ = 1 := by
    rw [announcement, (waiting ⟨0, someCashier⟩).1]
    rfl
  rw [nothing, notCalled, isAnnounced, (waiting ⟨0, someCashier⟩).2] at balance
  simp at balance

/-- If neither a cashier nor a customer can move and all cashiers wait for a call, all customers have
    gone. -/
theorem FrontStuck.customers_gone (run : shop.Run trace state) (stuck : FrontStuck state)
    (someCashier : 1 ≤ shop.cashiers)
    (waiting : ∀ index : Fin shop.cashiers, state.pc (.cashier index) = .waitCustomer ∧
      state.value (.cashierAvailable index) = 0) (customer : Fin shop.customers) :
    ∃ serverID, state.pc (.customer customer) = .exited serverID := by
  have locked := run_locked run
  have notAsleep : ∀ someone, state.value .cashiersAllBusy = 0 →
      state.pc (.customer someone) ≠ .waitBusy := fun someone noToken =>
    no_customer_waits run someCashier waiting (stuck.queueMutex_free locked) noToken someone
  have cmFree : state.owner .CM = none := by
    apply CM_free locked
    intro someone held
    rcases stuck.customer_at locked someone with ⟨at_, _⟩ | ⟨at_, noToken⟩ | ⟨_, at_⟩
    · rw [at_] at held
      cases held
    · exact notAsleep someone noToken at_
    · rw [at_] at held
      cases held
  rcases stuck.customer_at locked customer with ⟨_, owned⟩ | ⟨at_, noToken⟩ | gone
  · exact absurd cmFree owned
  · exact absurd at_ (notAsleep customer noToken)
  · exact gone

/-- A customer that has gone has its burger, once no cashier has a call or an order open. -/
theorem burgers_pos_of_gone (run : shop.Run trace state)
    (waiting : ∀ index : Fin shop.cashiers, state.pc (.cashier index) = .waitCustomer ∧
      state.value (.cashierAvailable index) = 0)
    {customer : Fin shop.customers} {serverID : Int}
    (gone : state.pc (.customer customer) = .exited serverID) :
    1 ≤ ∑ index, (ledger trace).burgers customer index := by
  have book := run_ledger run
  obtain ⟨index, callee⟩ := run_server run customer serverID (by rw [gone]; rfl)
  obtain ⟨at_, noToken⟩ := waiting index
  have noCall := book.calling_eq_none noToken (by rw [at_]; rfl)
  have noOrder : (ledger trace).order index = none := book.order_eq_none (by rw [at_]; rfl)
  have account := book.account customer index
  rw [noCall, noOrder, gone] at account
  simp only [mentions_none, hasCalledTo, callee, if_true] at account
  have single := Finset.single_le_sum (f := (ledger trace).burgers customer)
    (fun _ _ => Nat.zero_le _) (Finset.mem_univ index)
  omega

/-- If neither a cashier nor a customer can move and no cashier is at the rack, all customers have
    been served. -/
theorem FrontStuck.done (run : shop.Run trace state) (stuck : FrontStuck state)
    (someCashier : 1 ≤ shop.cashiers) (someCustomer : 1 ≤ shop.customers)
    (nobody : ∀ index, state.pc (.cashier index) ≠ .lockRack ∧
      state.pc (.cashier index) ≠ .relockRack ∧ state.pc (.cashier index) ≠ .waitEmpty) :
    Done state := by
  have locked := run_locked run
  have waiting := stuck.cashiers_wait locked nobody
  have fed : ∀ customer, 1 ≤ ∑ index, (ledger trace).burgers customer index := by
    intro customer
    obtain ⟨serverID, gone⟩ := stuck.customers_gone run someCashier waiting customer
    exact burgers_pos_of_gone run waiting gone
  have all : shop.customers ≤ takes trace := by
    rw [← run_total run]
    calc shop.customers = ∑ _ : Fin shop.customers, 1 := by simp
      _ ≤ (ledger trace).total := Finset.sum_le_sum fun customer _ => fed customer
  have counted : cashierCensus counting state = 0 := by
    apply census_eq_zero
    intro index
    rw [(waiting index).1]
    rfl
  have served : state.shared.customersServed = shop.customers := by
    have law := run_counts run
    have bound := takes_le_customers run
    rw [run_customersServed run]
    omega
  refine ⟨served, ?_⟩
  have idle : closer state = .idle := by
    rw [closer, phaseOf, stuck.cntMutex_free locked]
  rcases (run_closing run).once ⟨served, someCustomer⟩ with ⟨_, busy⟩ | ⟨one, _⟩
  · exact absurd idle busy
  · omega

end Finish

/-- While the shop is not done, some continuation uses up work. -/
theorem work_advances (someCook : 1 ≤ shop.cooks) (someCashier : 1 ≤ shop.cashiers)
    (someCustomer : 1 ≤ shop.customers) (room : 1 ≤ shop.racksize) (state : shop.State)
    (reachable : shop.Reachable state) (notDone : ¬ Done state) :
    ∃ later, Reaches shop.program state later ∧ shop.Reachable later ∧
      workLeft later < workLeft state := by
  by_cases cashierMoves : ∃ index after, next shop.program state (.cashier index) = some after
  · obtain ⟨index, after, moved⟩ := cashierMoves
    exact ⟨after, .single ⟨_, moved⟩, reachable.step moved, cashier_step_uses_work moved⟩
  by_cases customerMoves : ∃ index after, next shop.program state (.customer index) = some after
  · obtain ⟨index, after, moved⟩ := customerMoves
    exact ⟨after, .single ⟨_, moved⟩, reachable.step moved, customer_step_uses_work moved⟩
  have stuck : FrontStuck state := by
    constructor
    · intro index
      cases moved : next shop.program state (.cashier index) with
      | none => rfl
      | some after => exact absurd ⟨index, after, moved⟩ cashierMoves
    · intro index
      cases moved : next shop.program state (.customer index) with
      | none => rfl
      | some after => exact absurd ⟨index, after, moved⟩ customerMoves
  -- the cooks clear the way for the cashier at the rack, which then moves
  have afterCooks : ∀ {later : shop.State} (index : Fin shop.cashiers),
      Reaches shop.program state later → shop.Reachable later → SameFront state later →
      (shop.program (.cashier index) (later.pc (.cashier index))).ready later.owner later.value →
      ∃ final, Reaches shop.program state final ∧ shop.Reachable final ∧
        workLeft final < workLeft state := by
    intro later index path laterReachable same ready
    obtain ⟨final, moved⟩ := exists_next_of_ready ready
    refine ⟨final, path.tail ⟨_, moved⟩, laterReachable.step moved, ?_⟩
    rw [← same.workLeft_eq]
    exact cashier_step_uses_work moved
  by_cases atRack : ∃ index,
      state.pc (.cashier index) = .lockRack ∨ state.pc (.cashier index) = .relockRack
  · obtain ⟨index, waits⟩ := atRack
    obtain ⟨later, path, laterReachable, same, free⟩ := rack_released reachable waits
    refine afterCooks index path laterReachable same ?_
    rw [same.cashiers index]
    rcases waits with at_ | at_
    · rw [at_]
      exact free
    · rw [at_]
      exact free
  by_cases asleep : ∃ index, state.pc (.cashier index) = .waitEmpty
  · obtain ⟨index, asleep⟩ := asleep
    obtain ⟨later, path, laterReachable, same, token⟩ :=
      burger_arrives reachable someCook room asleep
    refine afterCooks index path laterReachable same ?_
    rw [same.cashiers index, asleep]
    exact token
  · obtain ⟨trace, run⟩ := reachable
    refine absurd (stuck.done run someCashier someCustomer ?_) notDone
    intro index
    exact ⟨fun at_ => atRack ⟨index, .inl at_⟩, fun at_ => atRack ⟨index, .inr at_⟩,
      fun at_ => asleep ⟨index, at_⟩⟩

/-- From every reachable state some continuation serves all customers and posts `finish`; in
    particular some thread can move as long as that has not happened. -/
theorem can_finish (shop : Shop) (someCook : 1 ≤ shop.cooks) (someCashier : 1 ≤ shop.cashiers)
    (someCustomer : 1 ≤ shop.customers) (room : 1 ≤ shop.racksize)
    (trace : List (Label (@Pc shop))) (state : shop.State) (run : shop.Run trace state) :
    (∃ rest final, shop.Run (trace ++ rest) final ∧
      final.shared.customersServed = shop.customers ∧ 0 < final.value .finish) ∧
    (¬ Done state → ∃ thread after, next shop.program state thread = some after) := by
  obtain ⟨final, path, done⟩ := reaches_goal shop.Reachable Done workLeft
    (work_advances someCook someCashier someCustomer room) state ⟨trace, run⟩
  constructor
  · obtain ⟨rest, longer⟩ := run.extend path
    exact ⟨rest, final, longer, done.1, done.2⟩
  · intro notDone
    rcases Relation.ReflTransGen.cases_head path with same | ⟨middle, ⟨thread, moved⟩, _⟩
    · subst same
      exact absurd done notDone
    · exact ⟨thread, middle, moved⟩

set_option maxRecDepth 10000 in
/-- Even the state in which the rack has overflowed can be continued to the end. -/
theorem can_finish_from_overflow :
    ∃ trace state, smallestShop.Run trace state ∧ state.shared.rack = 2 ∧
      ∃ rest final, smallestShop.Run (trace ++ rest) final ∧
        final.shared.customersServed = smallestShop.customers ∧ 0 < final.value .finish := by
  have scheduled : (runSchedule smallestShop.program overflowSchedule smallestShop.initial).map
      (fun state => state.shared.rack) = some 2 := by decide
  obtain ⟨state, reached, rack⟩ := Option.map_eq_some_iff.mp scheduled
  obtain ⟨trace, run⟩ := Run.start.schedule reached
  exact ⟨trace, state, run, rack, (can_finish smallestShop (by decide) (by decide) (by decide)
    (by decide) trace state run).1⟩

end KernelHacking.BurgerBuddies
