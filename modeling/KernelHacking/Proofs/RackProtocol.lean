/-
Module: KernelHacking.Proofs.RackProtocol
Layer: Proofs
Purpose: The rack of the Burger Buddies shop as a sleeping-consumer handoff. The cook that owns `CK`
  is the producer, the cashier that owns `CA` is the consumer, `rack` is the level, `waitForBurger`
  the waiter count and `rackEmpty` the semaphore. Every step of every thread is a step of the handoff
  or leaves it alone (`rackHandoff_step`), so its invariant holds in every reachable state.
Imports: KernelHacking.Foundations.Handoff, KernelHacking.Proofs.BurgerLocks
Trusted boundary: none (fully proved)
Main exports: cookPhase, cashierPhase, rackHandoff, rackHandoff_step, run_rackHandoff,
  rack_never_taken_empty
Open obligations: none
-/
import KernelHacking.Foundations.Handoff
import KernelHacking.Proofs.BurgerLocks

namespace KernelHacking.BurgerBuddies

open Threads

/-- How far a cook has got since it put a burger down. -/
def cookPhase : CookPc → Handoff.Producer
  | .printMakes | .testWaiting => .added
  | .lowerWaiting => .lowering
  | .postEmpty => .posting
  | _ => .idle

/-- How far a cashier has got towards taking a burger. -/
def cashierPhase : CashierPc → Handoff.Consumer
  | .raiseWaiting => .sawEmpty
  | .unlockEmpty | .waitEmpty => .sleeping
  | .relockRack | .takeBurger => .awake
  | _ => .idle

variable {shop : Shop}

/-- The producers of burgers are the cooks. -/
def makerPhase : (thread : Thread shop) → Pc thread → Handoff.Producer
  | .cook _, pc => cookPhase pc
  | .cashier _, _ | .customer _, _ => .idle

/-- The consumers of burgers are the cashiers. -/
def takerPhase : (thread : Thread shop) → Pc thread → Handoff.Consumer
  | .cashier _, pc => cashierPhase pc
  | .cook _, _ | .customer _, _ => .idle

/-- The phase of the cook at the rack. -/
def maker (state : shop.State) : Handoff.Producer := phaseOf makerPhase .idle .CK state

/-- The phase of the cashier at the rack. -/
def taker (state : shop.State) : Handoff.Consumer := phaseOf takerPhase .idle .CA state

/-- The rack as a handoff. -/
def rackHandoff (state : shop.State) : Handoff.State where
  level := state.shared.rack
  waiters := state.shared.waitForBurger
  tokens := state.value .rackEmpty
  producer := maker state
  consumer := taker state

theorem maker_idleOutside : IdleOutside (@makerPhase shop) .idle holds .CK := by
  intro thread pc free
  cases thread with
  | cook index => cases pc <;> first | rfl | cases free
  | cashier index => rfl
  | customer index => rfl

theorem taker_idleOutside : IdleOutside (@takerPhase shop) .idle holds .CA := by
  intro thread pc free
  cases thread with
  | cook index => rfl
  | cashier index => cases pc <;> first | rfl | cases free
  | customer index => rfl

section Exclusion

variable {state : shop.State}

/-- A cook inside `CK` is the maker. -/
theorem maker_of_cook (locked : LockedBy holds state) {index : Fin shop.cooks}
    (held : cookHolds (state.pc (.cook index)) .CK = true) :
    maker state = cookPhase (state.pc (.cook index)) :=
  phaseOf_of_holds locked (show holds (.cook index) _ .CK = true from held)

/-- A cashier inside `CA` is the taker. -/
theorem taker_of_cashier (locked : LockedBy holds state) {index : Fin shop.cashiers}
    (held : cashierHolds (state.pc (.cashier index)) .CA = true) :
    taker state = cashierPhase (state.pc (.cashier index)) :=
  phaseOf_of_holds locked (show holds (.cashier index) _ .CA = true from held)

/-- A maker that is not idle is a cook. -/
theorem exists_cook_of_maker (locked : LockedBy holds state) (busy : maker state ≠ .idle) :
    ∃ index, maker state = cookPhase (state.pc (.cook index)) := by
  obtain ⟨thread, _, phase⟩ := exists_of_phaseOf_ne locked busy
  cases thread with
  | cook index => exact ⟨index, phase⟩
  | cashier index => exact absurd phase busy
  | customer index => exact absurd phase busy

/-- A taker that is not idle is a cashier. -/
theorem exists_cashier_of_taker (locked : LockedBy holds state) (busy : taker state ≠ .idle) :
    ∃ index, taker state = cashierPhase (state.pc (.cashier index)) := by
  obtain ⟨thread, _, phase⟩ := exists_of_phaseOf_ne locked busy
  cases thread with
  | cashier index => exact ⟨index, phase⟩
  | cook index => exact absurd phase busy
  | customer index => exact absurd phase busy

/-- A cook and a cashier never both own `checkRack`. -/
theorem checkRack_exclusive (locked : LockedBy holds state) {cook : Fin shop.cooks}
    {cashier : Fin shop.cashiers} (cookHeld : cookHolds (state.pc (.cook cook)) .checkRack = true)
    (cashierHeld : cashierHolds (state.pc (.cashier cashier)) .checkRack = true) : False := by
  have one : holds (.cook cook) (state.pc (.cook cook)) .checkRack = true := cookHeld
  have two : holds (.cashier cashier) (state.pc (.cashier cashier)) .checkRack = true := cashierHeld
  cases locked.exclusive one two

/-- While a cashier owns `checkRack` no cook is between its burger and the end of its turn. -/
theorem maker_idle_of_cashier (locked : LockedBy holds state) {index : Fin shop.cashiers}
    (held : cashierHolds (state.pc (.cashier index)) .checkRack = true) : maker state = .idle := by
  by_contra busy
  obtain ⟨cook, phase⟩ := exists_cook_of_maker locked busy
  have cookHeld : cookHolds (state.pc (.cook cook)) .checkRack = true := by
    rw [phase] at busy
    cases at_ : state.pc (.cook cook) <;> rw [at_] at busy <;> first | rfl | exact absurd rfl busy
  exact checkRack_exclusive locked cookHeld held

/-- While a cook owns `checkRack` no cashier has found the rack empty without raising its count. -/
theorem taker_ne_sawEmpty_of_cook (locked : LockedBy holds state) {index : Fin shop.cooks}
    (held : cookHolds (state.pc (.cook index)) .checkRack = true) : taker state ≠ .sawEmpty := by
  intro sawEmpty
  obtain ⟨cashier, phase⟩ := exists_cashier_of_taker locked (by rw [sawEmpty]; decide)
  have cashierHeld : cashierHolds (state.pc (.cashier cashier)) .checkRack = true := by
    rw [sawEmpty] at phase
    cases at_ : state.pc (.cashier cashier) <;> rw [at_] at phase <;> first | rfl | cases phase
  exact checkRack_exclusive locked held cashierHeld

end Exclusion

section Simulation

variable {before after : shop.State}

/-- A step that touches neither the counters of the rack nor the phases leaves the handoff alone. -/
theorem rackHandoff_frame (rack : after.shared.rack = before.shared.rack)
    (waiting : after.shared.waitForBurger = before.shared.waitForBurger)
    (tokens : after.value .rackEmpty = before.value .rackEmpty)
    (sameMaker : maker after = maker before) (sameTaker : taker after = taker before) :
    rackHandoff after = rackHandoff before := by
  simp only [rackHandoff, rack, waiting, tokens, sameMaker, sameTaker]

/-- A cook's step is a producer's step: the burger, the test, the count and the post. -/
theorem rackHandoff_step_cook (locked : LockedBy holds before) {index : Fin shop.cooks}
    (moved : next shop.program before (.cook index) = some after) :
    rackHandoff after = rackHandoff before ∨
      Handoff.Step (rackHandoff before) (rackHandoff after) := by
  have sameTaker : taker after = taker before :=
    phaseOf_step_idle taker_idleOutside (program_respects shop) locked moved rfl rfl
  have steady : cookPhase (before.pc (.cook index)) = .idle →
      cookPhase (after.pc (.cook index)) = .idle → maker after = maker before :=
    phaseOf_step_idle maker_idleOutside (program_respects shop) locked moved
  have shift : cookPhase (before.pc (.cook index)) ≠ .idle ∨
      cookPhase (after.pc (.cook index)) ≠ .idle →
      maker before = cookPhase (before.pc (.cook index)) ∧
        maker after = cookPhase (after.pc (.cook index)) :=
    phaseOf_step_busy maker_idleOutside (program_respects shop) locked moved
  obtain ⟨ready, target, shared, value⟩ := next_fields moved
  cases at_ : before.pc (.cook index) <;>
    simp only [Shop.program, at_, cook, test, assign, print, Command.target, Command.effect,
      Command.signal, Option.some.injEq, id] at target shared value <;>
    rw [at_, ← target] at steady shift
  case makeBurger =>
    obtain ⟨makerBefore, makerAfter⟩ := shift (.inr (by decide))
    have held : cookHolds (before.pc (.cook index)) .checkRack = true := by rw [at_]; rfl
    have unlocked := taker_ne_sawEmpty_of_cook locked held
    have shape : rackHandoff after =
        { rackHandoff before with level := before.shared.rack + 1, producer := .added } := by
      simp [rackHandoff, shared, value, makerAfter, sameTaker, cookPhase]
    rw [shape]
    exact .inr (.add makerBefore unlocked)
  case printMakes =>
    obtain ⟨makerBefore, makerAfter⟩ := shift (.inr (by decide))
    exact .inl (rackHandoff_frame (by rw [shared]) (by rw [shared]) (by rw [value])
      (makerAfter.trans makerBefore.symm) sameTaker)
  case testWaiting =>
    obtain ⟨makerBefore, makerAfter⟩ := shift (.inl (by decide))
    by_cases waiting : before.shared.rack = 1 ∧ before.shared.waitForBurger ≠ 0
    · rw [if_pos waiting] at makerAfter
      have shape : rackHandoff after = { rackHandoff before with producer := .lowering } := by
        simp [rackHandoff, shared, value, makerAfter, sameTaker, cookPhase]
      rw [shape]
      exact .inr (.signal makerBefore waiting.1 waiting.2)
    · rw [if_neg waiting] at makerAfter
      have shape : rackHandoff after = { rackHandoff before with producer := .idle } := by
        simp [rackHandoff, shared, value, makerAfter, sameTaker, cookPhase]
      rw [shape]
      exact .inr (.skip makerBefore waiting)
  case lowerWaiting =>
    obtain ⟨makerBefore, makerAfter⟩ := shift (.inl (by decide))
    have shape : rackHandoff after = { rackHandoff before with
        waiters := before.shared.waitForBurger - 1, producer := .posting } := by
      simp [rackHandoff, shared, value, makerAfter, sameTaker, cookPhase]
    rw [shape]
    exact .inr (.lower makerBefore)
  case postEmpty =>
    obtain ⟨makerBefore, makerAfter⟩ := shift (.inl (by decide))
    have shape : rackHandoff after = { rackHandoff before with
        tokens := before.value .rackEmpty + 1, producer := .idle } := by
      simp [rackHandoff, shared, value, makerAfter, sameTaker, cookPhase]
    rw [shape]
    exact .inr (.post makerBefore)
  case testFull =>
    exact .inl (rackHandoff_frame (by rw [shared]) (by rw [shared]) (by rw [value])
      (steady rfl (by split <;> rfl)) sameTaker)
  case waitFull =>
    exact .inl (rackHandoff_frame (by rw [shared]) (by rw [shared]) (by simp [value])
      (steady rfl rfl) sameTaker)
  all_goals
    exact .inl (rackHandoff_frame (by rw [shared]) (by rw [shared]) (by rw [value])
      (steady rfl rfl) sameTaker)

/-- A cashier's step is a consumer's step: the test, the count, the wait and the burger. -/
theorem rackHandoff_step_cashier (locked : LockedBy holds before) {index : Fin shop.cashiers}
    (moved : next shop.program before (.cashier index) = some after) :
    rackHandoff after = rackHandoff before ∨
      Handoff.Step (rackHandoff before) (rackHandoff after) := by
  have sameMaker : maker after = maker before :=
    phaseOf_step_idle maker_idleOutside (program_respects shop) locked moved rfl rfl
  have steady : cashierPhase (before.pc (.cashier index)) = .idle →
      cashierPhase (after.pc (.cashier index)) = .idle → taker after = taker before :=
    phaseOf_step_idle taker_idleOutside (program_respects shop) locked moved
  have shift : cashierPhase (before.pc (.cashier index)) ≠ .idle ∨
      cashierPhase (after.pc (.cashier index)) ≠ .idle →
      taker before = cashierPhase (before.pc (.cashier index)) ∧
        taker after = cashierPhase (after.pc (.cashier index)) :=
    phaseOf_step_busy taker_idleOutside (program_respects shop) locked moved
  obtain ⟨ready, target, shared, value⟩ := next_fields moved
  cases at_ : before.pc (.cashier index) <;>
    simp only [Shop.program, at_, cashier, test, assign, print, Command.ready, Command.target,
      Command.effect, Command.signal, Option.some.injEq, id] at ready target shared value <;>
    rw [at_, ← target] at steady shift
  case testEmpty =>
    have held : cashierHolds (before.pc (.cashier index)) .checkRack = true := by rw [at_]; rfl
    by_cases empty : before.shared.rack = 0
    · rw [if_pos empty] at shift
      obtain ⟨takerBefore, takerAfter⟩ := shift (.inr (by decide))
      have shape : rackHandoff after = { rackHandoff before with consumer := .sawEmpty } := by
        simp [rackHandoff, shared, value, takerAfter, sameMaker, cashierPhase]
      rw [shape]
      exact .inr (.findEmpty takerBefore (maker_idle_of_cashier locked held) empty)
    · rw [if_neg empty] at shift
      obtain ⟨takerBefore, takerAfter⟩ := shift (.inr (by decide))
      have shape : rackHandoff after = { rackHandoff before with consumer := .awake } := by
        simp [rackHandoff, shared, value, takerAfter, sameMaker, cashierPhase]
      rw [shape]
      exact .inr (.findUnit takerBefore empty)
  case raiseWaiting =>
    obtain ⟨takerBefore, takerAfter⟩ := shift (.inl (by decide))
    have shape : rackHandoff after = { rackHandoff before with
        waiters := before.shared.waitForBurger + 1, consumer := .sleeping } := by
      simp [rackHandoff, shared, value, takerAfter, sameMaker, cashierPhase]
    rw [shape]
    exact .inr (.raise takerBefore)
  case unlockEmpty | relockRack =>
    obtain ⟨takerBefore, takerAfter⟩ := shift (.inl (by decide))
    exact .inl (rackHandoff_frame (by rw [shared]) (by rw [shared]) (by rw [value]) sameMaker
      (takerAfter.trans takerBefore.symm))
  case waitEmpty =>
    obtain ⟨takerBefore, takerAfter⟩ := shift (.inl (by decide))
    have shape : rackHandoff after = { rackHandoff before with
        tokens := before.value .rackEmpty - 1, consumer := .awake } := by
      simp [rackHandoff, shared, value, takerAfter, sameMaker, cashierPhase]
    rw [shape]
    exact .inr (.wake takerBefore ready)
  case takeBurger =>
    obtain ⟨takerBefore, takerAfter⟩ := shift (.inl (by decide))
    have held : cashierHolds (before.pc (.cashier index)) .checkRack = true := by rw [at_]; rfl
    have shape : rackHandoff after = { rackHandoff before with
        level := before.shared.rack - 1, consumer := .idle } := by
      simp [rackHandoff, shared, value, takerAfter, sameMaker, cashierPhase]
    rw [shape]
    exact .inr (.take takerBefore (maker_idle_of_cashier locked held))
  all_goals
    exact .inl (rackHandoff_frame (by rw [shared]) (by rw [shared]) (by simp [value]) sameMaker
      (steady rfl (by first | rfl | (split <;> rfl))))

/-- A customer does not touch the rack. -/
theorem rackHandoff_step_customer (locked : LockedBy holds before) {index : Fin shop.customers}
    (moved : next shop.program before (.customer index) = some after) :
    rackHandoff after = rackHandoff before := by
  have sameMaker : maker after = maker before :=
    phaseOf_step_idle maker_idleOutside (program_respects shop) locked moved rfl rfl
  have sameTaker : taker after = taker before :=
    phaseOf_step_idle taker_idleOutside (program_respects shop) locked moved rfl rfl
  obtain ⟨ready, target, shared, value⟩ := next_fields moved
  cases at_ : before.pc (.customer index) <;>
    simp only [Shop.program, at_, customer, test, assign, print, Command.effect, Command.signal,
      id] at shared value <;>
    exact rackHandoff_frame (by rw [shared]) (by rw [shared]) (by simp [value]) sameMaker sameTaker

/-- Every step of the shop is a step of the handoff at the rack or leaves the handoff alone. -/
theorem rackHandoff_step (locked : LockedBy holds before) {thread : Thread shop}
    (moved : next shop.program before thread = some after) :
    rackHandoff after = rackHandoff before ∨
      Handoff.Step (rackHandoff before) (rackHandoff after) := by
  cases thread with
  | cook index => exact rackHandoff_step_cook locked moved
  | cashier index => exact rackHandoff_step_cashier locked moved
  | customer index => exact .inl (rackHandoff_step_customer locked moved)

end Simulation

/-- The handoff invariant holds at the rack in every reachable state. -/
theorem run_rackHandoff {trace : List (Label (@Pc shop))} {state : shop.State}
    (run : shop.Run trace state) : Handoff.Inv (rackHandoff state) := by
  induction run with
  | start => exact Handoff.Inv.initial
  | step run moved inductionHypothesis =>
      exact inductionHypothesis.simulated (rackHandoff_step (run_locked run) moved)

/-! ### What the handoff says about the variables of the shop -/

/-- A cashier that is about to execute `--rack` is awake. -/
theorem taker_awake {state : shop.State} (locked : LockedBy holds state) {index : Fin shop.cashiers}
    (at_ : state.pc (.cashier index) = .takeBurger) : taker state = .awake := by
  have held : cashierHolds (state.pc (.cashier index)) .CA = true := by rw [at_]; rfl
  rw [taker_of_cashier locked held, at_]
  rfl

/-- The sleeping taker is a cashier that owns `CA` and has not returned from `sem_wait(&rackEmpty)`. -/
theorem exists_cashier_of_sleeping {state : shop.State} (locked : LockedBy holds state)
    (sleeping : taker state = .sleeping) :
    ∃ index, state.owner .CA = some (.cashier index) ∧
      (state.pc (.cashier index) = .unlockEmpty ∨ state.pc (.cashier index) = .waitEmpty) := by
  obtain ⟨index, phase⟩ := exists_cashier_of_taker locked (by rw [sleeping]; decide)
  have waits : state.pc (.cashier index) = .unlockEmpty ∨
      state.pc (.cashier index) = .waitEmpty := by
    rw [sleeping] at phase
    cases at_ : state.pc (.cashier index) <;> rw [at_] at phase <;>
      first | exact .inl rfl | exact .inr rfl | cases phase
  refine ⟨index, (locked .CA (.cashier index)).mpr ?_, waits⟩
  rcases waits with at_ | at_ <;> rw [at_] <;> rfl

/-- In every reachable state the rack holds no negative number of burgers, and a cashier that executes
    `--rack` finds one. There is at most one announced wait for a burger or token of `rackEmpty`, and
    there is one only while a cashier that owns `CA` is between its announcement and its return from
    `sem_wait(&rackEmpty)`. -/
theorem rack_never_taken_empty (shop : Shop) (trace : List (Label (@Pc shop))) (state : shop.State)
    (run : shop.Run trace state) :
    0 ≤ state.shared.rack ∧
      (∀ index, state.pc (.cashier index) = .takeBurger → 1 ≤ state.shared.rack) ∧
      state.shared.waitForBurger + state.value .rackEmpty ≤ 1 ∧
      (0 < state.shared.waitForBurger + state.value .rackEmpty →
        ∃ index, state.owner .CA = some (.cashier index) ∧
          (state.pc (.cashier index) = .unlockEmpty ∨
            state.pc (.cashier index) = .waitEmpty)) := by
  have locked := run_locked run
  have handoff := run_rackHandoff run
  -- the waits and the tokens are those of the one cashier that sleeps
  have balance : state.shared.waitForBurger + (rackHandoff state).posts + state.value .rackEmpty =
      (rackHandoff state).sleepers := handoff.balance
  have posts : 0 ≤ (rackHandoff state).posts := by
    rw [Handoff.State.posts]
    split <;> decide
  refine ⟨handoff.level_nonneg, fun index at_ => handoff.unit (taker_awake locked at_), ?_, ?_⟩
  · have sleepers : (rackHandoff state).sleepers ≤ 1 := by
      rw [Handoff.State.sleepers]
      split <;> decide
    omega
  · intro positive
    refine exists_cashier_of_sleeping locked ?_
    by_contra notAsleep
    have nobody : (rackHandoff state).sleepers = 0 := if_neg notAsleep
    omega

/-- The cashier finds the rack empty and announces its wait before the cook makes a burger. -/
def emptyRackSchedule : List (Thread smallestShop) :=
  List.replicate 4 (.cashier ⟨0, Nat.zero_lt_one⟩) ++
    List.replicate 7 (.customer ⟨0, Nat.zero_lt_one⟩) ++
    List.replicate 6 (.cashier ⟨0, Nat.zero_lt_one⟩)

set_option maxRecDepth 10000 in
/-- The announced wait of a cashier that found the rack empty. -/
theorem rack_never_taken_empty_waiting :
    ∃ trace state, smallestShop.Run trace state ∧
      state.shared.waitForBurger + state.value .rackEmpty = 1 ∧
      ∃ index, state.owner .CA = some (.cashier index) ∧
        (state.pc (.cashier index) = .unlockEmpty ∨ state.pc (.cashier index) = .waitEmpty) := by
  have scheduled : (runSchedule smallestShop.program emptyRackSchedule smallestShop.initial).map
      (fun state => (state.shared.waitForBurger + state.value .rackEmpty : Int)) = some 1 := by decide
  obtain ⟨state, reached, waits⟩ := Option.map_eq_some_iff.mp scheduled
  obtain ⟨trace, run⟩ := Run.start.schedule reached
  have safe := rack_never_taken_empty smallestShop trace state run
  exact ⟨trace, state, run, waits, safe.2.2.2 (by rw [waits]; decide)⟩

end KernelHacking.BurgerBuddies
