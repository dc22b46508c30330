/-
Module: KernelHacking.Proofs.BurgerLocks
Layer: Proofs
Purpose: Who holds which mutex of the Burger Buddies shop. The table `holds` reads it off the program
  counter, the three programs respect the table, and so in every reachable state the owner of a mutex
  is the one thread that stands in its critical section.
Imports: KernelHacking.Model.BurgerBuddies
Trusted boundary: none (fully proved)
Main exports: holds, cookHolds_mutex, cashierHolds_mutex, customerHolds_mutex, program_respects,
  run_locked, CK_free, CM_free, cashierMutex_free
Open obligations: none
-/
import KernelHacking.Model.BurgerBuddies

namespace KernelHacking.BurgerBuddies

open Threads

/-- The mutexes a cook owns before each of its statements. -/
def cookHolds : CookPc → Mutex → Bool
  | .lockCK, _ => false
  | .lockRack, .CK | .waitFull, .CK | .relockRack, .CK | .unlockCK, .CK => true
  | .lockRack, _ | .waitFull, _ | .relockRack, _ | .unlockCK, _ => false
  | _, .CK | _, .checkRack => true
  | _, _ => false

/-- The mutexes a cashier owns before each of its statements. -/
def cashierHolds : CashierPc → Mutex → Bool
  | .enqueue, .queueMutex | .testWaiting, .queueMutex | .lowerWaiting, .queueMutex
  | .postBusy, .queueMutex | .unlockQueue, .queueMutex => true
  | .lockRack, .CA | .testEmpty, .CA | .raiseWaiting, .CA | .unlockEmpty, .CA | .waitEmpty, .CA
  | .relockRack, .CA | .takeBurger, .CA | .testWasFull, .CA | .postFull, .CA | .unlockRack, .CA
  | .printTakes, .CA | .unlockCA, .CA => true
  | .testEmpty, .checkRack | .raiseWaiting, .checkRack | .unlockEmpty, .checkRack
  | .takeBurger, .checkRack | .testWasFull, .checkRack | .postFull, .checkRack
  | .unlockRack, .checkRack => true
  | .countServed, .cntMutex | .testServed, .cntMutex | .postFinish, .cntMutex
  | .unlockCnt, .cntMutex => true
  | _, _ => false

/-- The mutexes a customer owns before each of its statements. -/
def customerHolds : CustomerPc → Mutex → Bool
  | .lockCM, _ | .pthreadExit _, _ | .exited _, _ => false
  | _, .CM => true
  | .testQueue, .queueMutex | .raiseWaiting, .queueMutex | .unlockWaiting, .queueMutex
  | .printComes, .queueMutex | .dequeue, .queueMutex | .unlockQueue _, .queueMutex => true
  | _, _ => false

/-- A cook owns no other mutexes than these. -/
theorem cookHolds_mutex {pc : CookPc} {mutex : Mutex} (held : cookHolds pc mutex = true) :
    mutex = .CK ∨ mutex = .checkRack := by
  cases pc <;> cases mutex <;> first | exact .inl rfl | exact .inr rfl | cases held

/-- A cashier owns neither the cooks' nor the customers' mutex. -/
theorem cashierHolds_mutex {pc : CashierPc} {mutex : Mutex} (held : cashierHolds pc mutex = true) :
    mutex ≠ .CK ∧ mutex ≠ .CM := by
  constructor
  · rintro rfl
    cases pc <;> cases held
  · rintro rfl
    cases pc <;> cases held

/-- A customer owns no other mutexes than these. -/
theorem customerHolds_mutex {pc : CustomerPc} {mutex : Mutex}
    (held : customerHolds pc mutex = true) : mutex = .CM ∨ mutex = .queueMutex := by
  cases pc <;> cases mutex <;> first | exact .inl rfl | exact .inr rfl | cases held

/-- A cashier at the rack is in `CA`. -/
theorem cashierHolds_CA {pc : CashierPc} (held : cashierHolds pc .checkRack = true) :
    cashierHolds pc .CA = true := by
  cases pc <;> first | rfl | cases held

/-- A cook at the rack is in `CK`. -/
theorem cookHolds_CK {pc : CookPc} (held : cookHolds pc .checkRack = true) :
    cookHolds pc .CK = true := by
  cases pc <;> first | rfl | cases held

/-- The mutexes a thread owns before each of its statements. -/
def holds {shop : Shop} : (thread : Thread shop) → Pc thread → Mutex → Bool
  | .cook _, pc => cookHolds pc
  | .cashier _, pc => cashierHolds pc
  | .customer _, pc => customerHolds pc

/-- The three programs lock and unlock as the table says. -/
theorem program_respects (shop : Shop) : Respects shop.program holds := by
  intro thread pc
  -- one goal per statement: a branch is split first, then the tables are compared mutex by mutex
  rcases thread with index | index | index <;> cases pc <;>
    simp only [Shop.program, cook, cashier, customer, test, assign, print, holds] <;>
    first
      | (intro mutex; cases mutex <;> rfl)
      | (refine ⟨rfl, ?_⟩; intro mutex; cases mutex <;> rfl)
      | (intro shared mutex; split <;> cases mutex <;> rfl)
      | (intro shared mutex; cases mutex <;> rfl)

theorem initial_locked (shop : Shop) : LockedBy holds shop.initial := by
  intro mutex thread
  -- no mutex is owned, and no program starts inside a critical section
  have unowned : holds thread (shop.initial.pc thread) mutex = false := by
    cases thread <;> cases mutex <;> rfl
  rw [unowned]
  constructor
  · intro owned
    cases owned
  · intro held
    cases held

/-- In every reachable state the owners of the mutexes are the threads in their critical sections. -/
theorem run_locked {shop : Shop} {trace : List (Label (@Pc shop))} {state : shop.State}
    (run : shop.Run trace state) : LockedBy holds state :=
  run.invariant (initial_locked shop) fun locked moved => (program_respects shop).step locked moved

section Free

variable {shop : Shop} {state : shop.State}

/-- `CK` is free unless a cook is in it. -/
theorem CK_free (locked : LockedBy holds state)
    (nobody : ∀ index, cookHolds (state.pc (.cook index)) .CK ≠ true) : state.owner .CK = none := by
  apply locked.free
  intro thread held
  cases thread with
  | cook index => exact nobody index held
  | cashier index => exact (cashierHolds_mutex held).1 rfl
  | customer index => rcases customerHolds_mutex held with other | other <;> cases other

/-- `CM` is free unless a customer is in it. -/
theorem CM_free (locked : LockedBy holds state)
    (nobody : ∀ index, customerHolds (state.pc (.customer index)) .CM ≠ true) :
    state.owner .CM = none := by
  apply locked.free
  intro thread held
  cases thread with
  | cook index => rcases cookHolds_mutex held with other | other <;> cases other
  | cashier index => exact (cashierHolds_mutex held).2 rfl
  | customer index => exact nobody index held

/-- `CA` and `cntMutex` are free unless a cashier is in them. -/
theorem cashierMutex_free (locked : LockedBy holds state) {mutex : Mutex}
    (own : mutex = .CA ∨ mutex = .cntMutex)
    (nobody : ∀ index, cashierHolds (state.pc (.cashier index)) mutex ≠ true) :
    state.owner mutex = none := by
  apply locked.free
  intro thread held
  cases thread with
  | cook index =>
      rcases own with rfl | rfl <;> rcases cookHolds_mutex held with other | other <;> cases other
  | cashier index => exact nobody index held
  | customer index =>
      rcases own with rfl | rfl <;> rcases customerHolds_mutex held with other | other <;> cases other

end Free

end KernelHacking.BurgerBuddies
