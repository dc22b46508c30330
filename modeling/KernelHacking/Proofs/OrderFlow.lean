/-
Module: KernelHacking.Proofs.OrderFlow
Layer: Proofs
Purpose: How an order flows through the shop. A customer comes and calls a cashier, the cashier answers
  the call, accepts the order, takes a burger off the rack, carries it to the customer and counts it.
  Each stage is a stretch of code that threads enter and leave (`Run.flow`) or a semaphore
  (`Run.semaphore`), so in every run the counts of the stages only fall from one to the next.
Imports: KernelHacking.Foundations.Census, KernelHacking.Proofs.QueueProtocol
Trusted boundary: none (fully proved)
Main exports: comes, calls, answers, accepts, takes, carries, counts, CashierPc.followers, run_answers,
  run_accepts, run_carries, run_counts, run_customersServed, answers_le_calls, calls_le_comes,
  comes_le_customers, takes_le_customers
Open obligations: none
-/
import KernelHacking.Foundations.Census
import KernelHacking.Proofs.QueueProtocol

namespace KernelHacking.BurgerBuddies

open Threads

variable {shop : Shop}

/-! ### The stages, as statements that were executed -/

/-- The label of a cashier at one of the given statements. -/
def cashierLabel (statement : CashierPc → Bool) : Label (@Pc shop) → Bool
  | ⟨.cashier _, pc⟩ => statement pc
  | ⟨.cook _, _⟩ | ⟨.customer _, _⟩ => false

/-- The label of a customer at one of the given statements. -/
def customerLabel (statement : CustomerPc → Bool) : Label (@Pc shop) → Bool
  | ⟨.customer _, pc⟩ => statement pc
  | ⟨.cook _, _⟩ | ⟨.cashier _, _⟩ => false

/-- A customer calls the cashier it was assigned. -/
def isCall : CustomerPc → Bool
  | .postAvailable _ => true
  | _ => false

/-- How many customers have come. -/
def comes (trace : List (Label (@Pc shop))) : Nat :=
  trace.countP (customerLabel fun pc => decide (pc = .printComes))

/-- How many customers have called the cashier they were assigned. -/
def calls (trace : List (Label (@Pc shop))) : Nat := trace.countP (customerLabel isCall)

/-- How many calls the cashiers have answered. -/
def answers (trace : List (Label (@Pc shop))) : Nat :=
  trace.countP (cashierLabel fun pc => decide (pc = .waitCustomer))

/-- How many orders the cashiers have accepted. -/
def accepts (trace : List (Label (@Pc shop))) : Nat :=
  trace.countP (cashierLabel fun pc => decide (pc = .printAccepts))

/-- How many burgers the cashiers have taken off the rack. -/
def takes (trace : List (Label (@Pc shop))) : Nat :=
  trace.countP (cashierLabel fun pc => decide (pc = .takeBurger))

/-- How many burgers the cashiers have taken to customers. -/
def carries (trace : List (Label (@Pc shop))) : Nat :=
  trace.countP (cashierLabel fun pc => decide (pc = .printTakes))

/-- How many served customers the cashiers have counted. -/
def counts (trace : List (Label (@Pc shop))) : Nat :=
  trace.countP (cashierLabel fun pc => decide (pc = .countServed))

/-! ### The stretches of code between them -/

/-- The customer has come. -/
def hasCome : CustomerPc → Nat
  | .dequeue | .unlockQueue _ | .postAvailable _ | .unlockCM _ | .pthreadExit _ | .exited _ => 1
  | _ => 0

/-- The customer has called its cashier. -/
def hasCalled : CustomerPc → Nat
  | .unlockCM _ | .pthreadExit _ | .exited _ => 1
  | _ => 0

/-- The cashier has been called and is about to accept the order. -/
def answering : CashierPc → Nat
  | .printAccepts => 1
  | _ => 0

/-- The cashier has accepted an order and has no burger yet. -/
def fetching : CashierPc → Nat
  | .lockCA | .lockRack | .testEmpty | .raiseWaiting | .unlockEmpty | .waitEmpty | .relockRack
  | .takeBurger => 1
  | _ => 0

/-- The cashier has a burger and has not taken it to the customer yet. -/
def carrying : CashierPc → Nat
  | .testWasFull | .postFull | .unlockRack | .printTakes => 1
  | _ => 0

/-- The cashier has a burger and has not counted the customer yet. -/
def counting : CashierPc → Nat
  | .testWasFull | .postFull | .unlockRack | .printTakes | .unlockCA | .lockCnt | .countServed => 1
  | _ => 0

/-- The total weight of the cashiers. -/
def cashierCensus (weight : CashierPc → Nat) (state : shop.State) : Nat :=
  census Thread.cashier (fun _ => weight) state

/-- The total weight of the customers. -/
def customerCensus (weight : CustomerPc → Nat) (state : shop.State) : Nat :=
  census Thread.customer (fun _ => weight) state

theorem cashier_injective : Function.Injective (Thread.cashier : Fin shop.cashiers → Thread shop) := by
  intro first second same
  cases same
  rfl

theorem customer_injective :
    Function.Injective (Thread.customer : Fin shop.customers → Thread shop) := by
  intro first second same
  cases same
  rfl

/-- The control flow of `cashier`: the statements that can follow each statement. -/
def CashierPc.followers : CashierPc → List CashierPc
  | .lockQueue => [.enqueue]
  | .enqueue => [.testWaiting]
  | .testWaiting => [.lowerWaiting, .unlockQueue]
  | .lowerWaiting => [.postBusy]
  | .postBusy => [.unlockQueue]
  | .unlockQueue => [.waitCustomer]
  | .waitCustomer => [.printAccepts]
  | .printAccepts => [.lockCA]
  | .lockCA => [.lockRack]
  | .lockRack => [.testEmpty]
  | .testEmpty => [.raiseWaiting, .takeBurger]
  | .raiseWaiting => [.unlockEmpty]
  | .unlockEmpty => [.waitEmpty]
  | .waitEmpty => [.relockRack]
  | .relockRack => [.takeBurger]
  | .takeBurger => [.testWasFull]
  | .testWasFull => [.postFull, .unlockRack]
  | .postFull => [.unlockRack]
  | .unlockRack => [.printTakes]
  | .printTakes => [.unlockCA]
  | .unlockCA => [.lockCnt]
  | .lockCnt => [.countServed]
  | .countServed => [.testServed]
  | .testServed => [.postFinish, .unlockCnt]
  | .postFinish => [.unlockCnt]
  | .unlockCnt => [.lockQueue]

/-- A cashier goes on with one of the followers, whatever the shared state is. -/
theorem cashier_target_mem {index : Nat} {pc target : CashierPc} {shared : Shared}
    (targets : (cashier shop index pc).target shared = some target) : target ∈ pc.followers := by
  cases pc <;>
    simp only [cashier, test, assign, print, Command.target, Option.some.injEq] at targets <;>
    subst targets
  -- only the four tests have two followers
  case testWaiting | testEmpty | testWasFull | testServed => split <;> decide
  all_goals exact List.mem_singleton_self _

section Laws

variable {trace : List (Label (@Pc shop))} {state : shop.State}

/-- The flow rule for the cashiers: those inside a region have entered it and have not left. -/
theorem cashier_flow (weight : CashierPc → Nat) (entered left : CashierPc → Bool)
    (initially : weight .lockQueue = 0)
    (inside : ∀ pc, ∀ target ∈ pc.followers,
      weight target + (left pc).toNat = weight pc + (entered pc).toNat)
    (run : shop.Run trace state) :
    cashierCensus weight state + trace.countP (cashierLabel left) =
      trace.countP (cashierLabel entered) := by
  refine Run.flow cashier_injective ?_ ?_ ?_ run
  · rintro ⟨thread, pc⟩ notCashier
    cases thread with
    | cook index => exact ⟨rfl, rfl⟩
    | cashier index => exact absurd rfl (notCashier index)
    | customer index => exact ⟨rfl, rfl⟩
  · intro index pc shared target targets
    exact inside pc target (cashier_target_mem targets)
  · exact census_eq_zero fun _ => initially

/-- The flow rule for the customers, who run once and never leave. -/
theorem customer_flow (weight : CustomerPc → Nat) (entered : CustomerPc → Bool)
    (initially : weight .lockCM = 0)
    (inside : ∀ pc shared target, (customer shop pc).target shared = some target →
      weight target = weight pc + (entered pc).toNat)
    (run : shop.Run trace state) :
    customerCensus weight state = trace.countP (customerLabel entered) := by
  have law : customerCensus weight state + trace.countP (fun _ => false) =
      trace.countP (customerLabel entered) := by
    refine Run.flow customer_injective ?_ (fun _ => inside) ?_ run
    · rintro ⟨thread, pc⟩ notCustomer
      cases thread with
      | cook index => exact ⟨rfl, rfl⟩
      | cashier index => exact ⟨rfl, rfl⟩
      | customer index => exact absurd rfl (notCustomer index)
    · exact census_eq_zero fun _ => initially
  simpa using law

/-- The customers past their arrival are those that have come. -/
theorem run_comes (run : shop.Run trace state) : customerCensus hasCome state = comes trace := by
  refine customer_flow hasCome _ rfl ?_ run
  intro pc shared target targets
  cases pc <;> simp only [customer, test, assign, print, Command.target, Option.some.injEq,
    reduceCtorEq] at targets <;> subst targets <;> first | rfl | (split <;> rfl)

/-- The customers past their call are those that have called. -/
theorem run_calls (run : shop.Run trace state) : customerCensus hasCalled state = calls trace := by
  refine customer_flow hasCalled isCall rfl ?_ run
  intro pc shared target targets
  cases pc <;> simp only [customer, test, assign, print, Command.target, Option.some.injEq,
    reduceCtorEq] at targets <;> subst targets <;> first | rfl | (split <;> rfl)

/-- A cashier that has been called and has not accepted the order yet is about to. -/
theorem run_answers (run : shop.Run trace state) :
    cashierCensus answering state + accepts trace = answers trace := by
  refine cashier_flow answering _ _ rfl ?_ run
  intro pc
  cases pc <;> decide

/-- The cashiers on their way to the rack hold the orders for which no burger was taken yet. -/
theorem run_accepts (run : shop.Run trace state) :
    cashierCensus fetching state + takes trace = accepts trace := by
  refine cashier_flow fetching _ _ rfl ?_ run
  intro pc
  cases pc <;> decide

/-- The cashiers on their way back hold the burgers that were not taken to a customer yet. -/
theorem run_carries (run : shop.Run trace state) :
    cashierCensus carrying state + carries trace = takes trace := by
  refine cashier_flow carrying _ _ rfl ?_ run
  intro pc
  cases pc <;> decide

/-- The cashiers on their way to the counter have served the customers not counted yet. -/
theorem run_counts (run : shop.Run trace state) :
    cashierCensus counting state + counts trace = takes trace := by
  refine cashier_flow counting _ _ rfl ?_ run
  intro pc
  cases pc <;> decide

/-- `customersServed` is the number of customers that were counted. -/
theorem run_customersServed (run : shop.Run trace state) :
    state.shared.customersServed = counts trace := by
  induction run with
  | start => rfl
  | @step trace before after thread _ moved inductionHypothesis =>
      rw [counts, countP_concat, ← counts]
      obtain ⟨_, _, shared, _⟩ := next_fields moved
      cases thread with
      | cook index =>
          have same : after.shared.customersServed = before.shared.customersServed := by
            rw [shared]
            cases at_ : before.pc (.cook index) <;> rfl
          rw [same, inductionHypothesis]
          rfl
      | cashier index =>
          cases at_ : before.pc (.cashier index) <;>
            simp only [Shop.program, at_, cashier, test, assign, print, Command.effect, id] at shared <;>
            rw [shared, inductionHypothesis] <;> rfl
      | customer index =>
          have same : after.shared.customersServed = before.shared.customersServed := by
            rw [shared]
            cases at_ : before.pc (.customer index) <;> rfl
          rw [same, inductionHypothesis]
          rfl

/-- Only the answers of a cashier wait on its semaphore. -/
theorem waitsOn_cashierAvailable {index : Fin shop.cashiers} {label : Label (@Pc shop)} :
    waitsOn shop.program (.cashierAvailable index) label = true ↔
      label = ⟨.cashier index, .waitCustomer⟩ := by
  obtain ⟨thread, pc⟩ := label
  cases thread with
  | cook other => cases pc <;> simp [waitsOn, Shop.program, cook, test, assign, print]
  | cashier other =>
      cases pc <;> simp [waitsOn, Shop.program, cashier, test, assign, print]
      omega
  | customer other => cases pc <;> simp [waitsOn, Shop.program, customer, test, assign, print]

/-- Only customers call, and each calls the cashier it was assigned. -/
theorem postsTo_cashierAvailable {index : Fin shop.cashiers} {label : Label (@Pc shop)} :
    postsTo shop.program (.cashierAvailable index) label = true ↔
      ∃ customer, label = ⟨.customer customer, .postAvailable (index + 1)⟩ := by
  obtain ⟨thread, pc⟩ := label
  cases thread with
  | cook other => cases pc <;> simp [postsTo, Shop.program, cook, test, assign, print]
  | cashier other => cases pc <;> simp [postsTo, Shop.program, cashier, test, assign, print]
  | customer other =>
      cases pc <;> simp [postsTo, Shop.program, customer, test, assign, print]
      omega

/-- A call is answered at most once. -/
theorem answers_le_calls (run : shop.Run trace state) : answers trace ≤ calls trace := by
  calc answers trace
      ≤ ∑ index : Fin shop.cashiers,
          trace.countP (waitsOn shop.program (.cashierAvailable index)) := by
        apply countP_le_sum
        rintro ⟨thread, pc⟩ isAnswer
        cases thread with
        | cook index => cases isAnswer
        | cashier index =>
            have at_ : pc = .waitCustomer := of_decide_eq_true isAnswer
            exact ⟨index, waitsOn_cashierAvailable.mpr (by rw [at_])⟩
        | customer index => cases isAnswer
    _ ≤ ∑ index : Fin shop.cashiers,
          trace.countP (postsTo shop.program (.cashierAvailable index)) := by
        apply Finset.sum_le_sum
        intro index _
        have balance := run.semaphore (.cashierAvailable index)
        have empty : shop.initial.value (.cashierAvailable index) = 0 := rfl
        omega
    _ ≤ calls trace := by
        apply sum_le_countP
        · intro index label isPost
          obtain ⟨customer, rfl⟩ := postsTo_cashierAvailable.mp isPost
          rfl
        · intro first second label one two
          obtain ⟨_, rfl⟩ := postsTo_cashierAvailable.mp one
          obtain ⟨_, same⟩ := postsTo_cashierAvailable.mp two
          simp at same
          omega

/-- A customer has come before it calls. -/
theorem calls_le_comes (run : shop.Run trace state) : calls trace ≤ comes trace := by
  rw [← run_calls run, ← run_comes run]
  apply census_mono
  intro index pc
  cases pc <;> simp [hasCalled, hasCome]

/-- Each customer comes once. -/
theorem comes_le_customers (run : shop.Run trace state) : comes trace ≤ shop.customers := by
  rw [← run_comes run]
  have bound : customerCensus hasCome state ≤ Fintype.card (Fin shop.customers) := by
    apply census_le_card
    intro index pc
    cases pc <;> simp [hasCome]
  rwa [Fintype.card_fin] at bound

/-- No stage of the orders runs ahead of the one before it. -/
theorem takes_le_customers (run : shop.Run trace state) : takes trace ≤ shop.customers := by
  have accepted := run_accepts run
  have answered := run_answers run
  have called := answers_le_calls run
  have come := calls_le_comes run
  have bound := comes_le_customers run
  omega

end Laws

end KernelHacking.BurgerBuddies
