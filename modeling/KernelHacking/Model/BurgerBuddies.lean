/-
Module: KernelHacking.Model.BurgerBuddies
Layer: Model
Purpose: The Burger Buddies simulation, statement by statement. Cooks, cashiers and customers are
  threads over six mutexes, the rack and queue semaphores and one `cashierAvailable` semaphore per
  cashier; every C statement that touches a shared object is one command. The program counters carry
  the only local variable that survives a statement, the `serverID` of a customer.
Imports: KernelHacking.Foundations.Threads
Trusted boundary: human-reviewed model of Project 1/BBC/jni/BurgerBuddies.c
Main exports: Shop, Queue, queueSize, enqueue, dequeue, Shared, Thread, cook, cashier, customer,
  Shop.program, Shop.initial, Shop.Run
Open obligations: none
-/
import KernelHacking.Foundations.Threads

namespace KernelHacking.BurgerBuddies

open Threads

/-- The arguments of one run: the numbers of threads, the size of the rack, and whatever `malloc`
    left in the cells of `sleepingQueue`. -/
structure Shop where
  cooks : Nat
  cashiers : Nat
  customers : Nat
  racksize : Int
  uninitialised : Int → Int

/-- The circular buffer of cashiers that sleep until a customer comes. -/
structure Queue where
  head : Int
  tail : Int
  sleepingQueue : Int → Int

/-- `queueSize()`. The remainder is the one of C, which rounds towards zero. -/
def queueSize (cashiers : Nat) (queue : Queue) : Int :=
  (queue.tail + 1 - queue.head + cashiers + 1).tmod (cashiers + 1)

/-- `enqueue(id)`. Its callers hold `queueMutex`. -/
def enqueue (cashiers : Nat) (id : Int) (queue : Queue) : Queue :=
  let tail := (queue.tail + 1).tmod (cashiers + 1)
  { queue with tail := tail, sleepingQueue := Function.update queue.sleepingQueue tail id }

/-- `dequeue()`, with the queue it leaves. An empty queue yields 0. Its callers hold `queueMutex`. -/
def dequeue (cashiers : Nat) (queue : Queue) : Int × Queue :=
  if queue.head ≠ (queue.tail + 1).tmod (cashiers + 1) then
    (queue.sleepingQueue queue.head, { queue with head := (queue.head + 1).tmod (cashiers + 1) })
  else (0, queue)

/-- The shared variables. `int` is unbounded here: a counter that passes `INT_MAX` has no defined
    value in C, so what is proved of the rack is about runs with fewer than 2^31 makes of a burger. -/
structure Shared where
  rack : Int
  customersServed : Int
  waitForCashier : Int
  waitForBurger : Int
  queue : Queue

inductive Mutex where
  | cntMutex
  | checkRack
  | queueMutex
  | CK
  | CA
  | CM
deriving DecidableEq, Repr

/-- The semaphores. `cashierAvailable` is indexed by any integer, so that an index outside the array
    is a state of the model and not a missing one. -/
inductive Semaphore where
  | finish
  | rackFull
  | rackEmpty
  | cashiersAllBusy
  | cashierAvailable (index : Int)
deriving DecidableEq, Repr

/-- The statements of `cook`, in the order of the source. -/
inductive CookPc where
  | lockCK
  | lockRack
  | testFull
  | unlockFull
  | waitFull
  | relockRack
  | makeBurger
  | printMakes
  | testWaiting
  | lowerWaiting
  | postEmpty
  | unlockRack
  | unlockCK
deriving DecidableEq, Repr

/-- The statements of `cashier`, in the order of the source. -/
inductive CashierPc where
  | lockQueue
  | enqueue
  | testWaiting
  | lowerWaiting
  | postBusy
  | unlockQueue
  | waitCustomer
  | printAccepts
  | lockCA
  | lockRack
  | testEmpty
  | raiseWaiting
  | unlockEmpty
  | waitEmpty
  | relockRack
  | takeBurger
  | testWasFull
  | postFull
  | unlockRack
  | printTakes
  | unlockCA
  | lockCnt
  | countServed
  | testServed
  | postFinish
  | unlockCnt
deriving DecidableEq, Repr

/-- The statements of `customer`, in the order of the source. From `dequeue` on the customer knows
    its `serverID`. -/
inductive CustomerPc where
  | lockCM
  | lockQueue
  | testQueue
  | raiseWaiting
  | unlockWaiting
  | waitBusy
  | relockQueue
  | printComes
  | dequeue
  | unlockQueue (serverID : Int)
  | postAvailable (serverID : Int)
  | unlockCM (serverID : Int)
  | pthreadExit (serverID : Int)
  /-- The thread is gone. -/
  | exited (serverID : Int)
deriving DecidableEq, Repr

/-- The threads that `main` creates, numbered from 0; the `id` a thread prints is one more. -/
inductive Thread (shop : Shop) where
  | cook (index : Fin shop.cooks)
  | cashier (index : Fin shop.cashiers)
  | customer (index : Fin shop.customers)
deriving DecidableEq

/-- The program counters of a thread are the statements of its function. -/
abbrev Pc {shop : Shop} : Thread shop → Type
  | .cook _ => CookPc
  | .cashier _ => CashierPc
  | .customer _ => CustomerPc

instance {shop : Shop} (thread : Thread shop) : DecidableEq (Pc thread) :=
  match thread with
  | .cook _ => inferInstanceAs (DecidableEq CookPc)
  | .cashier _ => inferInstanceAs (DecidableEq CashierPc)
  | .customer _ => inferInstanceAs (DecidableEq CustomerPc)

/-- A statement that only branches on the shared variables. -/
def test {Pc : Type} (branch : Shared → Pc) : Command Mutex Semaphore Shared Pc := .run id branch

/-- A statement that prints; what matters of it is where it stands in the run. -/
def print {Pc : Type} (target : Pc) : Command Mutex Semaphore Shared Pc := .run id fun _ => target

/-- An assignment to shared variables. -/
def assign {Pc : Type} (effect : Shared → Shared) (target : Pc) :
    Command Mutex Semaphore Shared Pc := .run effect fun _ => target

/-- The loop of `cook`. The `sleep(1)` at its end touches nothing shared. -/
def cook (shop : Shop) : CookPc → Command Mutex Semaphore Shared CookPc
  | .lockCK => .lock .CK .lockRack
  | .lockRack => .lock .checkRack .testFull
  | .testFull => test fun shared =>
      if shared.rack = shop.racksize then .unlockFull else .makeBurger
  | .unlockFull => .unlock .checkRack .waitFull
  | .waitFull => .wait .rackFull .relockRack
  | .relockRack => .lock .checkRack .makeBurger
  | .makeBurger => assign (fun shared => { shared with rack := shared.rack + 1 }) .printMakes
  | .printMakes => print .testWaiting
  | .testWaiting => test fun shared =>
      if shared.rack = 1 ∧ shared.waitForBurger ≠ 0 then .lowerWaiting else .unlockRack
  | .lowerWaiting => assign
      (fun shared => { shared with waitForBurger := shared.waitForBurger - 1 }) .postEmpty
  | .postEmpty => .post .rackEmpty .unlockRack
  | .unlockRack => .unlock .checkRack .unlockCK
  | .unlockCK => .unlock .CK .lockCK

/-- The loop of `cashier` for the cashier whose `id` is `index + 1`. -/
def cashier (shop : Shop) (index : Nat) : CashierPc → Command Mutex Semaphore Shared CashierPc
  | .lockQueue => .lock .queueMutex .enqueue
  | .enqueue => assign
      (fun shared =>
        { shared with queue := BurgerBuddies.enqueue shop.cashiers (index + 1) shared.queue })
      .testWaiting
  | .testWaiting => test fun shared =>
      if queueSize shop.cashiers shared.queue = 1 ∧ shared.waitForCashier ≠ 0 then .lowerWaiting
      else .unlockQueue
  | .lowerWaiting => assign
      (fun shared => { shared with waitForCashier := shared.waitForCashier - 1 }) .postBusy
  | .postBusy => .post .cashiersAllBusy .unlockQueue
  | .unlockQueue => .unlock .queueMutex .waitCustomer
  | .waitCustomer => .wait (.cashierAvailable index) .printAccepts
  | .printAccepts => print .lockCA
  | .lockCA => .lock .CA .lockRack
  | .lockRack => .lock .checkRack .testEmpty
  | .testEmpty => test fun shared => if shared.rack = 0 then .raiseWaiting else .takeBurger
  | .raiseWaiting => assign
      (fun shared => { shared with waitForBurger := shared.waitForBurger + 1 }) .unlockEmpty
  | .unlockEmpty => .unlock .checkRack .waitEmpty
  | .waitEmpty => .wait .rackEmpty .relockRack
  | .relockRack => .lock .checkRack .takeBurger
  | .takeBurger => assign (fun shared => { shared with rack := shared.rack - 1 }) .testWasFull
  | .testWasFull => test fun shared =>
      if shared.rack + 1 = shop.racksize then .postFull else .unlockRack
  | .postFull => .post .rackFull .unlockRack
  | .unlockRack => .unlock .checkRack .printTakes
  | .printTakes => print .unlockCA
  | .unlockCA => .unlock .CA .lockCnt
  | .lockCnt => .lock .cntMutex .countServed
  | .countServed => assign
      (fun shared => { shared with customersServed := shared.customersServed + 1 }) .testServed
  | .testServed => test fun shared =>
      if shared.customersServed = shop.customers then .postFinish else .unlockCnt
  | .postFinish => .post .finish .unlockCnt
  | .unlockCnt => .unlock .cntMutex .lockQueue

/-- The body of `customer`, which runs once. -/
def customer (shop : Shop) : CustomerPc → Command Mutex Semaphore Shared CustomerPc
  | .lockCM => .lock .CM .lockQueue
  | .lockQueue => .lock .queueMutex .testQueue
  | .testQueue => test fun shared =>
      if queueSize shop.cashiers shared.queue = 0 then .raiseWaiting else .printComes
  | .raiseWaiting => assign
      (fun shared => { shared with waitForCashier := shared.waitForCashier + 1 }) .unlockWaiting
  | .unlockWaiting => .unlock .queueMutex .waitBusy
  | .waitBusy => .wait .cashiersAllBusy .relockQueue
  | .relockQueue => .lock .queueMutex .printComes
  | .printComes => print .dequeue
  | .dequeue => .run
      (fun shared =>
        { shared with queue := (BurgerBuddies.dequeue shop.cashiers shared.queue).2 })
      fun shared => .unlockQueue (BurgerBuddies.dequeue shop.cashiers shared.queue).1
  | .unlockQueue serverID => .unlock .queueMutex (.postAvailable serverID)
  | .postAvailable serverID => .post (.cashierAvailable (serverID - 1)) (.unlockCM serverID)
  | .unlockCM serverID => .unlock .CM (.pthreadExit serverID)
  | .pthreadExit serverID => .run id fun _ => .exited serverID
  | .exited _ => .exit

namespace Shop

variable (shop : Shop)

/-- All threads of the shop. -/
def program : Program (Thread shop) Mutex Semaphore Shared Pc
  | .cook _, pc => cook shop pc
  | .cashier index, pc => cashier shop index pc
  | .customer _, pc => customer shop pc

/-- A global state of the shop. -/
abbrev State := Threads.State (Thread shop) Mutex Semaphore Shared Pc

/-- The state in which `main` creates the threads. A thread that has not been created yet is one
    that has not moved yet. -/
def initial : shop.State where
  pc
    | .cook _ => .lockCK
    | .cashier _ => .lockQueue
    | .customer _ => .lockCM
  owner := fun _ => none
  value := fun _ => 0
  shared :=
    { rack := 0
      customersServed := 0
      waitForCashier := 0
      waitForBurger := 0
      queue := { head := 0, tail := -1, sleepingQueue := shop.uninitialised } }

/-- The interleavings of the shop's threads, with the statements they executed. -/
abbrev Run (trace : List (Label (@Pc shop))) (state : shop.State) : Prop :=
  Threads.Run shop.program shop.initial trace state

end Shop

/-- One cook, one cashier, one customer and a rack for one burger. -/
def smallestShop : Shop := ⟨1, 1, 1, 1, fun _ => 0⟩

end KernelHacking.BurgerBuddies
