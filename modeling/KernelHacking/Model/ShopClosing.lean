/-
Module: KernelHacking.Model.ShopClosing
Layer: Model
Purpose: The end of the Burger Buddies simulation. Beside the threads of the shop run the manager, which
  waits for `finish` and sends `SIGUSR1` to the cooks and the cashiers, and `main`, which joins the
  manager, frees the arrays and destroys the mutexes and semaphores. A signal is delivered at any later
  time and ends its thread wherever it stands. A statement on an object that has been destroyed has no
  defined effect in C; here it is still a step, so that a run can come to it.
Imports: KernelHacking.Foundations.Actions, KernelHacking.Model.BurgerBuddies
Trusted boundary: human-reviewed model of thread_exit_handler, manager and the part of main behind
  pthread_create in Project 1/BBC/jni/BurgerBuddies.c
Main exports: SyncObject, touched, ManagerPc, MainPc, Shutdown, ShutdownAction, Shutdown.step,
  Shutdown.initial, Shutdown.Running
Open obligations: none
-/
import KernelHacking.Foundations.Actions
import KernelHacking.Model.BurgerBuddies

namespace KernelHacking.BurgerBuddies

open Threads

/-- What `main` destroys. -/
inductive SyncObject where
  | mutex (mutex : Mutex)
  | semaphore (semaphore : Semaphore)
deriving DecidableEq, Repr

/-- The object that a statement locks, unlocks, waits on or posts. -/
def touched {Pc : Type} : Command Mutex Semaphore Shared Pc → Option SyncObject
  | .lock mutex _ | .unlock mutex _ => some (.mutex mutex)
  | .wait semaphore _ | .post semaphore _ => some (.semaphore semaphore)
  | .run _ _ | .exit => none

/-- The statements of `manager`. The two loops are at the round of their index. -/
inductive ManagerPc where
  | waitFinish
  | killCooks (i : Nat)
  | killCashiers (i : Nat)
  | exit
  | exited
deriving DecidableEq, Repr

/-- The statements of `main` behind `pthread_create(&Manager, …)`. -/
inductive MainPc where
  | joinManager
  | freeNumbers
  | freeCooks
  | freeCashiers
  | freeCustomers
  | destroyAvailable (i : Nat)
  | freeAvailable
  /-- The statement of this index in `destroyOrder`. -/
  | destroy (index : Nat)
  | returned
deriving DecidableEq, Repr

/-- The objects of the last ten statements of `main`, in their order. -/
def destroyOrder : List SyncObject :=
  [.mutex .cntMutex, .mutex .checkRack, .semaphore .rackFull, .semaphore .rackEmpty,
    .semaphore .cashiersAllBusy, .mutex .queueMutex, .semaphore .finish, .mutex .CK, .mutex .CA,
    .mutex .CM]

/-- The shop, its manager and `main`. -/
structure Shutdown (shop : Shop) where
  threads : shop.State
  manager : ManagerPc
  main : MainPc
  /-- `SIGUSR1` has been sent to the thread and has not been delivered yet. -/
  pending : Thread shop → Bool
  /-- The handler has ended the thread. -/
  ended : Thread shop → Bool
  destroyed : SyncObject → Bool

/-- Who acts: a thread, the kernel when it delivers a signal, the manager, or `main`. -/
inductive ShutdownAction (shop : Shop) where
  | move (thread : Thread shop)
  | deliver (thread : Thread shop)
  | manager
  | main
deriving DecidableEq

namespace Shutdown

variable {shop : Shop}

/-- The state in which the manager has been created. -/
def initial (shop : Shop) : Shutdown shop where
  threads := shop.initial
  manager := .waitFinish
  main := .joinManager
  pending := fun _ => false
  ended := fun _ => false
  destroyed := fun _ => false

/-- The thread has called `pthread_exit` itself. Only customers do. -/
def hasExited : (thread : Thread shop) → Pc thread → Bool
  | .customer _, .exited _ => true
  | _, _ => false

/-- The thread is still running. -/
def Running (state : Shutdown shop) (thread : Thread shop) : Prop :=
  state.ended thread = false ∧ hasExited thread (state.threads.pc thread) = false

instance (state : Shutdown shop) (thread : Thread shop) : Decidable (state.Running thread) :=
  inferInstanceAs (Decidable (_ ∧ _))

/-- `pthread_kill(thread, SIGUSR1)`. -/
def kill (state : Shutdown shop) (thread : Thread shop) : Shutdown shop :=
  { state with pending := Function.update state.pending thread true }

/-- `pthread_mutex_destroy` or `sem_destroy`. -/
def destroy (state : Shutdown shop) (object : SyncObject) : Shutdown shop :=
  { state with destroyed := Function.update state.destroyed object true }

/-- One statement of the manager. -/
def managerStep (state : Shutdown shop) : Option (Shutdown shop) :=
  match state.manager with
  | .waitFinish =>
      if state.threads.value .finish = 0 then none
      else some { state with
        threads := { state.threads with
          value := Function.update state.threads.value .finish (state.threads.value .finish - 1) }
        manager := .killCooks 0 }
  | .killCooks i =>
      if inside : i < shop.cooks then
        some { state.kill (.cook ⟨i, inside⟩) with manager := .killCooks (i + 1) }
      else some { state with manager := .killCashiers 0 }
  | .killCashiers i =>
      if inside : i < shop.cashiers then
        some { state.kill (.cashier ⟨i, inside⟩) with manager := .killCashiers (i + 1) }
      else some { state with manager := .exit }
  | .exit => some { state with manager := .exited }
  | .exited => none

/-- One statement of `main`. -/
def mainStep (state : Shutdown shop) : Option (Shutdown shop) :=
  match state.main with
  | .joinManager =>
      if state.manager = .exited then some { state with main := .freeNumbers } else none
  | .freeNumbers => some { state with main := .freeCooks }
  | .freeCooks => some { state with main := .freeCashiers }
  | .freeCashiers => some { state with main := .freeCustomers }
  | .freeCustomers => some { state with main := .destroyAvailable 0 }
  | .destroyAvailable i =>
      if i < shop.cashiers then
        some { state.destroy (.semaphore (.cashierAvailable i)) with main := .destroyAvailable (i + 1) }
      else some { state with main := .freeAvailable }
  | .freeAvailable => some { state with main := .destroy 0 }
  | .destroy index =>
      match destroyOrder[index]? with
      | some object => some { state.destroy object with main := .destroy (index + 1) }
      | none => some { state with main := .returned }
  | .returned => none

/-- One step. When `main` has returned the process is gone. -/
def step (state : Shutdown shop) (action : ShutdownAction shop) : Option (Shutdown shop) :=
  if state.main = .returned then none
  else
    match action with
    | .move thread =>
        if state.ended thread then none
        else (next shop.program state.threads thread).map fun after => { state with threads := after }
    | .deliver thread =>
        if state.pending thread then
          some { state with
            pending := Function.update state.pending thread false
            ended := Function.update state.ended thread true }
        else none
    | .manager => state.managerStep
    | .main => state.mainStep

end Shutdown

end KernelHacking.BurgerBuddies
