/-
Module: KernelHacking.Model.ShopFloor
Layer: Model
Purpose: What the Burger Buddies simulation is for, without threads, mutexes or semaphores: burgers are
  made and put on a rack, cashiers queue up, a customer that comes gets the cashier that has waited
  longest, the cashier accepts the order, takes a burger and serves it, and the shop closes when all
  customers are served. `visible` says which statement of `BurgerBuddies.c` is which event.
Imports: KernelHacking.Model.BurgerBuddies, Mathlib.Data.Finset.Basic
Trusted boundary: human-reviewed statement of what the simulation is for
Main exports: Duty, Floor, FloorEvent, Floor.Step, Floor.opening, visible
Open obligations: none
-/
import Mathlib.Data.Finset.Basic
import KernelHacking.Model.BurgerBuddies

namespace KernelHacking.BurgerBuddies

open Threads

variable {shop : Shop}

/-- What a cashier is doing, and for whom. -/
inductive Duty (shop : Shop) where
  | away
  /-- In the queue, until a customer comes. -/
  | waiting
  | called (customer : Fin shop.customers)
  | ordering (customer : Fin shop.customers)
  | carrying (customer : Fin shop.customers)
deriving DecidableEq

/-- The customer that a cashier is busy with. -/
def Duty.customer : Duty shop → Option (Fin shop.customers)
  | .away | .waiting => none
  | .called customer | .ordering customer | .carrying customer => some customer

/-- The shop as its customers see it. -/
structure Floor (shop : Shop) where
  rack : Nat
  /-- The cashiers that wait for a customer, the longest waiting first. -/
  queue : List (Fin shop.cashiers)
  duty : Fin shop.cashiers → Duty shop
  come : Finset (Fin shop.customers)
  served : Finset (Fin shop.customers)
  closed : Bool

/-- What happens on the floor. -/
inductive FloorEvent (shop : Shop) where
  | make
  | settle (cashier : Fin shop.cashiers)
  | come (customer : Fin shop.customers)
  | accept (cashier : Fin shop.cashiers)
  | take (cashier : Fin shop.cashiers)
  | serve (cashier : Fin shop.cashiers)
  | close
deriving DecidableEq

/-- Give a cashier another duty. -/
def Floor.assign (floor : Floor shop) (cashier : Fin shop.cashiers) (duty : Duty shop) : Floor shop :=
  { floor with duty := Function.update floor.duty cashier duty }

/-- The order of events on the floor: each event with what it needs and what it changes. -/
inductive Floor.Step : Floor shop → FloorEvent shop → Floor shop → Prop where
  | make {floor : Floor shop} : Step floor .make { floor with rack := floor.rack + 1 }
  | settle {floor : Floor shop} {cashier : Fin shop.cashiers} (away : floor.duty cashier = .away) :
      Step floor (.settle cashier)
        { floor.assign cashier .waiting with queue := floor.queue ++ [cashier] }
  /-- The customer gets the cashier that has waited longest. -/
  | come {floor : Floor shop} {customer : Fin shop.customers} {cashier : Fin shop.cashiers}
      {rest : List (Fin shop.cashiers)} (new : customer ∉ floor.come)
      (first : floor.queue = cashier :: rest) :
      Step floor (.come customer)
        { floor.assign cashier (.called customer) with
          queue := rest, come := insert customer floor.come }
  | accept {floor : Floor shop} {cashier : Fin shop.cashiers} {customer : Fin shop.customers}
      (called : floor.duty cashier = .called customer) :
      Step floor (.accept cashier) (floor.assign cashier (.ordering customer))
  /-- A burger that is taken is on the rack. -/
  | take {floor : Floor shop} {cashier : Fin shop.cashiers} {customer : Fin shop.customers}
      {rest : Nat} (ordering : floor.duty cashier = .ordering customer)
      (some : floor.rack = rest + 1) :
      Step floor (.take cashier) { floor.assign cashier (.carrying customer) with rack := rest }
  | serve {floor : Floor shop} {cashier : Fin shop.cashiers} {customer : Fin shop.customers}
      (carrying : floor.duty cashier = .carrying customer) :
      Step floor (.serve cashier)
        { floor.assign cashier .away with served := insert customer floor.served }
  /-- The shop closes once, and nobody is left unserved. -/
  | close {floor : Floor shop} (done : ∀ customer, customer ∈ floor.served)
      (still : floor.closed = false) :
      Step floor .close { floor with closed := true }

/-- The floor before anybody has moved. -/
def Floor.opening (shop : Shop) : Floor shop := ⟨0, [], fun _ => .away, ∅, ∅, false⟩

/-- The statements that can be seen on the floor; all others only synchronise the threads. -/
def visible : Label (@Pc shop) → Option (FloorEvent shop)
  | ⟨.cook _, .makeBurger⟩ => some .make
  | ⟨.cashier index, .enqueue⟩ => some (.settle index)
  | ⟨.customer index, .dequeue⟩ => some (.come index)
  | ⟨.cashier index, .waitCustomer⟩ => some (.accept index)
  | ⟨.cashier index, .takeBurger⟩ => some (.take index)
  | ⟨.cashier index, .countServed⟩ => some (.serve index)
  | ⟨.cashier _, .postFinish⟩ => some .close
  | _ => none

end KernelHacking.BurgerBuddies
