/-
Module: KernelHacking.Proofs.ShopClosing
Layer: Proofs
Purpose: Whether the shop is empty when `main` destroys its mutexes and semaphores. The threads of a
  closing shop run as those of an open one (`ShutdownInv.reachable`), so `finish` tells the manager that
  every customer has called its cashier. The manager signals all cooks and cashiers but waits for
  nobody. If the signals have been delivered and these customers have exited when it exits, nobody is
  left (`shutdown_is_orderly`); otherwise a thread can come to a mutex that has been destroyed
  (`destroyed_mutex_unlocked`).
Imports: KernelHacking.Model.ShopClosing, KernelHacking.Proofs.ServiceLedger, KernelHacking.Proofs.Wakeup
Trusted boundary: none (fully proved)
Main exports: credited, next_credited, customers_have_called, LeavesLast, ShutdownInv, ShutdownInv.step,
  shutdown_is_orderly
Open obligations: none
-/
import KernelHacking.Model.ShopClosing
import KernelHacking.Proofs.ServiceLedger
import KernelHacking.Proofs.Wakeup

namespace KernelHacking.BurgerBuddies

open Threads

variable {shop : Shop}

/-! ### The threads of a closing shop -/

/-- The state of the threads with `finish` credited with what the manager has taken. -/
def credited (taken : Nat) (threads : shop.State) : shop.State :=
  { threads with
    value := Function.update threads.value .finish (threads.value .finish + taken) }

/-- No thread of the shop waits on `finish`. -/
theorem program_ne_wait_finish (thread : Thread shop) (pc target : Pc thread) :
    shop.program thread pc ≠ .wait .finish target := by
  cases thread <;> cases pc <;> simp [Shop.program, cook, cashier, customer, test, assign, print]

/-- The credit changes nothing for the threads. -/
theorem next_credited {taken : Nat} {before after : shop.State} {thread : Thread shop}
    (moved : next shop.program before thread = some after) :
    next shop.program (credited taken before) thread = some (credited taken after) := by
  rcases next_cases moved with ⟨mutex, target, command, free, rfl⟩ | ⟨mutex, target, command, rfl⟩ |
    ⟨semaphore, target, command, positive, rfl⟩ | ⟨semaphore, target, command, rfl⟩ |
    ⟨effect, target, command, rfl⟩
  · simp [next, credited, command, free, State.goto]
  · simp [next, credited, command, State.goto]
  · have other : semaphore ≠ .finish := by
      rintro rfl
      exact program_ne_wait_finish thread _ _ command
    simp [next, credited, command, positive, other, other.symm, State.goto, Function.update_comm other]
  · by_cases isFinish : semaphore = .finish
    · subst isFinish
      simp [next, credited, command, State.goto, Nat.add_right_comm]
    · simp [next, credited, command, isFinish, Ne.symm isFinish, State.goto,
        Function.update_comm isFinish]
  · simp [next, credited, command, State.goto]

/-- Once `finish` has been posted, every customer has called its cashier. -/
theorem customers_have_called {trace : List (Label (@Pc shop))} {state : shop.State}
    (run : shop.Run trace state) (posted : state.value .finish ≠ 0) (index : Fin shop.customers) :
    hasCalled (state.pc (.customer index)) = 1 := by
  have all : AllCounted state := by
    by_contra notAll
    exact posted ((run_closing run).open_ notAll).1
  have enough : Fintype.card (Fin shop.customers) ≤
      ∑ customer : Fin shop.customers, hasCalled (state.pc (.customer customer)) := by
    have called : customerCensus hasCalled state = calls trace := run_calls run
    have served := run_customersServed run
    have counted := run_counts run
    have accepted := run_accepts run
    have answered := run_answers run
    have answersCalls := answers_le_calls run
    have last := all.1
    rw [Fintype.card_fin]
    simp only [customerCensus, census] at called
    omega
  refine eq_one_of_sum_eq_card (fun customer => ?_) enough index
  cases state.pc (.customer customer) <;> simp [hasCalled]

/-! ### What the manager has done -/

/-- How often the manager has taken `finish`. -/
def ManagerPc.taken : ManagerPc → Nat
  | .waitFinish => 0
  | _ => 1

/-- The manager has sent the signal to the thread. -/
def ManagerPc.HasSignalled : ManagerPc → Thread shop → Prop
  | .waitFinish, _ | _, .customer _ => False
  | .killCooks i, .cook index => index.val < i
  | .killCooks _, .cashier _ => False
  | .killCashiers i, .cashier index => index.val < i
  | .killCashiers _, .cook _ | .exit, _ | .exited, _ => True

/-- The manager calls `pthread_exit` only when its signals have been delivered and the customers have
    exited. This is asked of the customers that have called their cashier; by then all have. -/
def LeavesLast (state : Shutdown shop) : ShutdownAction shop → Prop
  | .manager => state.manager = .exit →
      (∀ index, state.pending (.cook index) = false) ∧
        (∀ index, state.pending (.cashier index) = false) ∧
        ∀ index, hasCalled (state.threads.pc (.customer index)) = 1 →
          Shutdown.hasExited (.customer index) (state.threads.pc (.customer index)) = true
  | .move _ | .deliver _ | .main => True

instance (state : Shutdown shop) : ∀ action, Decidable (LeavesLast state action)
  | .manager => inferInstanceAs (Decidable (_ → _ ∧ _ ∧ _))
  | .move _ | .deliver _ | .main => isTrue trivial

/-- What holds at every point of a shutdown. -/
structure ShutdownInv (state : Shutdown shop) : Prop where
  reachable : shop.Reachable (credited state.manager.taken state.threads)
  signalled : ∀ thread, state.manager.HasSignalled thread →
    state.pending thread = true ∨ state.ended thread = true
  intact : state.main = .joinManager → ∀ object, state.destroyed object = false
  joined : state.main ≠ .joinManager → state.manager = .exited
  empty : state.manager = .exited → ∀ thread, ¬ state.Running thread

theorem ShutdownInv.initial (shop : Shop) : ShutdownInv (Shutdown.initial shop) where
  reachable := by
    have same : credited 0 shop.initial = shop.initial := by
      simp [credited]
    refine ⟨[], ?_⟩
    rw [Shutdown.initial, ManagerPc.taken, same]
    exact .start
  signalled := fun thread sent => by cases thread <;> cases sent
  intact := fun _ _ => rfl
  joined := fun left => absurd rfl left
  empty := fun exited => by cases exited

section Steps

variable {before after : Shutdown shop}

/-- A thread that moves has not exited. -/
theorem hasExited_of_moved {threads moved : shop.State} {thread : Thread shop}
    (step : next shop.program threads thread = some moved) :
    Shutdown.hasExited thread (threads.pc thread) = false := by
  cases thread with
  | cook index => rfl
  | cashier index => rfl
  | customer index =>
      cases at_ : threads.pc (.customer index) with
      | exited serverID =>
          rw [next] at step
          simp only [Shop.program, at_, customer] at step
          cases step
      | _ => rfl

/-- A statement of a thread. -/
theorem ShutdownInv.move (inv : ShutdownInv before) {thread : Thread shop} {moved : shop.State}
    (alive : before.ended thread = false)
    (step : next shop.program before.threads thread = some moved) :
    ShutdownInv { before with threads := moved } where
  reachable := inv.reachable.step (next_credited step)
  signalled := inv.signalled
  intact := inv.intact
  joined := inv.joined
  empty := fun exited => absurd ⟨alive, hasExited_of_moved step⟩ (inv.empty exited thread)

/-- A signal is delivered. -/
theorem ShutdownInv.deliver (inv : ShutdownInv before) (thread : Thread shop) :
    ShutdownInv { before with
      pending := Function.update before.pending thread false
      ended := Function.update before.ended thread true } where
  reachable := inv.reachable
  signalled := by
    intro other sent
    by_cases same : other = thread
    · right
      rw [same]
      exact Function.update_self _ _ _
    · dsimp only
      rw [Function.update_of_ne same, Function.update_of_ne same]
      exact inv.signalled other sent
  intact := inv.intact
  joined := inv.joined
  empty := by
    rintro exited other ⟨alive, here⟩
    refine inv.empty exited other ⟨?_, here⟩
    by_cases same : other = thread
    · dsimp only at alive
      rw [same, Function.update_self] at alive
      cases alive
    · dsimp only at alive
      rwa [Function.update_of_ne same] at alive

/-- The manager takes `finish`. -/
theorem ShutdownInv.take (inv : ShutdownInv before) (waits : before.manager = .waitFinish)
    (positive : before.threads.value .finish ≠ 0) :
    ShutdownInv { before with
      threads := { before.threads with
        value := Function.update before.threads.value .finish (before.threads.value .finish - 1) }
      manager := .killCooks 0 } where
  reachable := by
    have reachable := inv.reachable
    rw [waits, ManagerPc.taken] at reachable
    have credit : before.threads.value .finish - 1 + 1 = before.threads.value .finish := by omega
    simpa [credited, ManagerPc.taken, credit] using reachable
  signalled := by
    intro thread sent
    cases thread with
    | cook index => exact absurd sent (Nat.not_lt_zero _)
    | cashier index => cases sent
    | customer index => cases sent
  intact := inv.intact
  joined := fun left => absurd (inv.joined left) (by rw [waits]; simp)
  empty := fun exited => by cases exited

/-- The manager goes on, with or without sending a signal. -/
theorem ShutdownInv.advance (inv : ShutdownInv before) {pc : ManagerPc} {pending : Thread shop → Bool}
    (started : before.manager.taken = 1) (going : pc.taken = 1) (stayed : before.manager ≠ .exited)
    (more : ∀ thread, before.pending thread = true → pending thread = true)
    (sent : ∀ thread, pc.HasSignalled thread →
      before.manager.HasSignalled thread ∨ pending thread = true)
    (last : pc = .exited → ∀ thread, ¬ before.Running thread) :
    ShutdownInv { before with manager := pc, pending := pending } where
  reachable := by
    have reachable := inv.reachable
    rw [started] at reachable
    dsimp only
    rwa [going]
  signalled := by
    intro thread isSent
    rcases sent thread isSent with earlier | now
    · exact (inv.signalled thread earlier).imp (more thread) id
    · exact Or.inl now
  intact := inv.intact
  joined := fun left => absurd (inv.joined left) stayed
  empty := last

/-- When the manager is about to exit, nobody is left if the signals have been delivered and the
    customers that have called their cashier have exited. -/
theorem ShutdownInv.nobody_left (inv : ShutdownInv before) (atExit : before.manager = .exit)
    (cooksGone : ∀ index, before.pending (.cook index) = false)
    (cashiersGone : ∀ index, before.pending (.cashier index) = false)
    (customersGone : ∀ index, hasCalled (before.threads.pc (.customer index)) = 1 →
      Shutdown.hasExited (.customer index) (before.threads.pc (.customer index)) = true)
    (thread : Thread shop) : ¬ before.Running thread := by
  rintro ⟨alive, here⟩
  have ended : ManagerPc.exit.HasSignalled thread → before.pending thread ≠ false := by
    intro sent delivered
    rw [← atExit] at sent
    rcases inv.signalled thread sent with waits | isEnded
    · rw [delivered] at waits
      cases waits
    · rw [alive] at isEnded
      cases isEnded
  cases thread with
  | cook index => exact ended trivial (cooksGone index)
  | cashier index => exact ended trivial (cashiersGone index)
  | customer index =>
      obtain ⟨trace, run⟩ := inv.reachable
      rw [atExit] at run
      have called := customers_have_called run (by simp [credited, ManagerPc.taken]) index
      rw [customersGone index called] at here
      cases here

/-- Sending one more signal keeps those that were sent. -/
theorem pending_kill {thread other : Thread shop} (sent : before.pending other = true) :
    (before.kill thread).pending other = true := by
  by_cases same : other = thread
  · rw [same]
    exact Function.update_self _ _ _
  · exact (Function.update_of_ne same _ _).trans sent

/-- The rounds of a loop up to the next index are those up to this one and this one. -/
theorem lt_or_eq_of_lt_succ {count i : Nat} (inside : i < count) {index : Fin count}
    (upTo : index.val < i + 1) : index.val < i ∨ index = ⟨i, inside⟩ :=
  (Nat.lt_succ_iff_lt_or_eq.mp upTo).imp id Fin.ext

/-- A round of the loop over the cooks, or its end. -/
theorem ShutdownInv.killCooks (inv : ShutdownInv before) {i : Nat}
    (atCooks : before.manager = .killCooks i)
    (step : before.managerStep = some after) : ShutdownInv after := by
  have started : before.manager.taken = 1 := by
    rw [atCooks]
    rfl
  have stayed : before.manager ≠ .exited := by
    rw [atCooks]
    simp
  rw [Shutdown.managerStep, atCooks] at step
  dsimp only at step
  split at step
  · rename_i inside
    cases step
    refine inv.advance started rfl stayed (fun _ => pending_kill) (fun thread sent => ?_)
      (fun exited => by cases exited)
    rw [atCooks]
    cases thread with
    | cook index =>
        refine (lt_or_eq_of_lt_succ inside sent).imp id ?_
        rintro rfl
        exact Function.update_self _ _ _
    | cashier index => cases sent
    | customer index => cases sent
  · rename_i outside
    cases step
    refine inv.advance started rfl stayed (fun _ sent => sent) (fun thread sent => ?_)
      (fun exited => by cases exited)
    rw [atCooks]
    cases thread with
    | cook index => exact Or.inl (Nat.lt_of_lt_of_le index.isLt (Nat.not_lt.mp outside))
    | cashier index => exact absurd sent (Nat.not_lt_zero _)
    | customer index => cases sent

/-- A round of the loop over the cashiers, or its end. -/
theorem ShutdownInv.killCashiers (inv : ShutdownInv before) {i : Nat}
    (atCashiers : before.manager = .killCashiers i) (step : before.managerStep = some after) :
    ShutdownInv after := by
  have started : before.manager.taken = 1 := by
    rw [atCashiers]
    rfl
  have stayed : before.manager ≠ .exited := by
    rw [atCashiers]
    simp
  rw [Shutdown.managerStep, atCashiers] at step
  dsimp only at step
  split at step
  · rename_i inside
    cases step
    refine inv.advance started rfl stayed (fun _ => pending_kill) (fun thread sent => ?_)
      (fun exited => by cases exited)
    rw [atCashiers]
    cases thread with
    | cook index => exact Or.inl trivial
    | cashier index =>
        refine (lt_or_eq_of_lt_succ inside sent).imp id ?_
        rintro rfl
        exact Function.update_self _ _ _
    | customer index => cases sent
  · rename_i outside
    cases step
    refine inv.advance started rfl stayed (fun _ sent => sent) (fun thread sent => ?_)
      (fun exited => by cases exited)
    rw [atCashiers]
    cases thread with
    | cook index => exact Or.inl trivial
    | cashier index => exact Or.inl (Nat.lt_of_lt_of_le index.isLt (Nat.not_lt.mp outside))
    | customer index => cases sent

/-- A statement of the manager. -/
theorem ShutdownInv.manager (inv : ShutdownInv before) (last : LeavesLast before .manager)
    (step : before.managerStep = some after) : ShutdownInv after := by
  cases here : before.manager with
  | waitFinish =>
      rw [Shutdown.managerStep, here] at step
      dsimp only at step
      split at step
      · cases step
      · rename_i positive
        cases step
        exact inv.take here positive
  | killCooks i => exact inv.killCooks here step
  | killCashiers i => exact inv.killCashiers here step
  | exit =>
      rw [Shutdown.managerStep, here] at step
      cases step
      obtain ⟨cooksGone, cashiersGone, customersGone⟩ := last here
      refine inv.advance (by rw [here]; rfl) rfl (by rw [here]; simp) (fun _ sent => sent)
        (fun thread sent => ?_) fun _ => inv.nobody_left here cooksGone cashiersGone customersGone
      rw [here]
      cases thread with
      | cook index => exact Or.inl trivial
      | cashier index => exact Or.inl trivial
      | customer index => cases sent
  | exited =>
      rw [Shutdown.managerStep, here] at step
      cases step

/-- A statement of `main` changes nothing but `main` and what it destroys, and it is not at the join
    afterwards. -/
theorem mainStep_frame (step : before.mainStep = some after) :
    after.threads = before.threads ∧ after.manager = before.manager ∧ after.pending = before.pending ∧
      after.ended = before.ended ∧ after.main ≠ .joinManager ∧
      (before.main = .joinManager → before.manager = .exited) := by
  rw [Shutdown.mainStep] at step
  repeat' split at step
  all_goals cases step
  all_goals simp_all [Shutdown.destroy]

/-- A statement of `main`. -/
theorem ShutdownInv.main (inv : ShutdownInv before) (step : before.mainStep = some after) :
    ShutdownInv after := by
  obtain ⟨threads, manager, pending, ended, left, join⟩ := mainStep_frame step
  have exited : before.manager = .exited := by
    by_cases atJoin : before.main = .joinManager
    · exact join atJoin
    · exact inv.joined atJoin
  constructor
  · rw [manager, threads]
    exact inv.reachable
  · rw [manager, pending, ended]
    exact inv.signalled
  · exact fun atJoin => absurd atJoin left
  · rw [manager]
    exact fun _ => exited
  · intro _ thread running
    rw [Shutdown.Running, ended, threads] at running
    exact inv.empty exited thread running

/-- Every allowed step keeps the invariant. -/
theorem ShutdownInv.step (inv : ShutdownInv before) {action : ShutdownAction shop}
    (last : LeavesLast before action) (moved : before.step action = some after) :
    ShutdownInv after := by
  unfold Shutdown.step at moved
  split at moved
  · cases moved
  · cases action with
    | move thread =>
        dsimp only at moved
        split at moved
        · cases moved
        · rename_i alive
          obtain ⟨threads, step, rfl⟩ := Option.map_eq_some_iff.mp moved
          exact inv.move (Bool.eq_false_iff.mpr alive) step
    | deliver thread =>
        dsimp only at moved
        split at moved
        · cases moved
          exact inv.deliver thread
        · cases moved
    | manager => exact inv.manager last moved
    | main => exact inv.main moved

end Steps

/-- In every run in which the manager exits last, nobody is running once `main` has joined it, so no
    thread is ever at a statement on an object that has been destroyed. -/
theorem shutdown_is_orderly {actions : List (ShutdownAction shop)} {state : Shutdown shop}
    (run : Actions.RunWhere Shutdown.step LeavesLast (Shutdown.initial shop) actions state) :
    (state.main ≠ .joinManager → ∀ thread, ¬ state.Running thread) ∧
      ∀ thread object, state.Running thread →
        touched (shop.program thread (state.threads.pc thread)) = some object →
          state.destroyed object = false := by
  have inv : ShutdownInv state := run.invariant (ShutdownInv.initial shop)
    fun _ _ _ inv last moved => inv.step last moved
  have empty : state.main ≠ .joinManager → ∀ thread, ¬ state.Running thread :=
    fun left => inv.empty (inv.joined left)
  refine ⟨empty, fun thread object running _ => ?_⟩
  by_cases atJoin : state.main = .joinManager
  · exact inv.intact atJoin object
  · exact absurd running (empty atJoin thread)

/-- The only customer of the smallest shop is served, and its cashier has just posted `finish`. -/
def servingActions : List (ShutdownAction smallestShop) := closingSchedule.map .move

/-- The manager takes `finish`, signals the cook and the cashier and comes to its exit. -/
def dismissActions : List (ShutdownAction smallestShop) := List.replicate 5 .manager

/-- A shutdown in which the customer exits and the signals are delivered before the manager exits. -/
def patientActions : List (ShutdownAction smallestShop) :=
  servingActions ++ dismissActions ++
    [.move (.customer ⟨0, Nat.zero_lt_one⟩), .deliver (.cook ⟨0, Nat.zero_lt_one⟩),
      .deliver (.cashier ⟨0, Nat.zero_lt_one⟩), .manager] ++
    List.replicate 19 .main

set_option maxRecDepth 20000 in
/-- In such a shutdown `main` returns from an empty shop. -/
theorem shutdown_is_orderly_patient :
    ∃ actions state,
      Actions.RunWhere Shutdown.step LeavesLast (Shutdown.initial smallestShop) actions state ∧
        state.main = .returned ∧ ∀ thread, ¬ state.Running thread := by
  have performed : (Actions.performWhere Shutdown.step LeavesLast patientActions
      (Shutdown.initial smallestShop)).map (fun state => state.main) = some .returned := by decide
  obtain ⟨state, reached, returned⟩ := Option.map_eq_some_iff.mp performed
  have run := Actions.RunWhere.start.perform reached
  refine ⟨_, state, run, returned, (shutdown_is_orderly run).1 ?_⟩
  rw [returned]
  simp

/-- A shutdown in which no signal is delivered before `main` destroys `cntMutex`. -/
def hastyActions : List (ShutdownAction smallestShop) :=
  servingActions ++ dismissActions ++ [.manager] ++ List.replicate 9 .main

set_option maxRecDepth 20000 in
/-- The cashier that posted `finish` is still running when `cntMutex` is destroyed, and unlocks it
    next. -/
theorem destroyed_mutex_unlocked :
    ¬ ∀ (shop : Shop) (actions : List (ShutdownAction shop)) (state : Shutdown shop),
      Actions.Run Shutdown.step (Shutdown.initial shop) actions state →
      (state.main ≠ .joinManager → ∀ thread, ¬ state.Running thread) ∧
        ∀ thread object, state.Running thread →
          touched (shop.program thread (state.threads.pc thread)) = some object →
            state.destroyed object = false := by
  intro orderly
  let cashier : Thread smallestShop := .cashier ⟨0, Nat.zero_lt_one⟩
  have performed : (Actions.perform Shutdown.step hastyActions (Shutdown.initial smallestShop)).map
      (fun state => (decide (state.Running cashier),
        touched (smallestShop.program cashier (state.threads.pc cashier)),
        state.destroyed (.mutex .cntMutex))) = some (true, some (.mutex .cntMutex), true) := by
    decide
  obtain ⟨state, reached, isLast⟩ := Option.map_eq_some_iff.mp performed
  obtain ⟨running, touches, isDestroyed⟩ : decide (state.Running cashier) = true ∧
      touched (smallestShop.program cashier (state.threads.pc cashier)) = some (.mutex .cntMutex) ∧
      state.destroyed (.mutex .cntMutex) = true := by
    simpa only [Prod.mk.injEq] using isLast
  have intact := (orderly smallestShop _ state (Actions.Run.perform .start reached)).2 cashier
    (.mutex .cntMutex) (of_decide_eq_true running) touches
  rw [isDestroyed] at intact
  cases intact

end KernelHacking.BurgerBuddies
