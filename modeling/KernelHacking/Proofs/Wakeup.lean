/-
Module: KernelHacking.Proofs.Wakeup
Layer: Proofs
Purpose: Nobody sleeps at the rack for ever. A cook asleep on `rackFull` has a token waiting, or is
  owed one, or the rack is full (`SleepInv`). So while a cashier sleeps on `rackEmpty` some cook can
  always move, and the cooks alone bring it a burger (`burger_arrives`); and a cook that owns
  `checkRack` releases it (`rack_released`). Neither moves a cashier or a customer (`SameFront`).
Imports: KernelHacking.Proofs.RackBound
Trusted boundary: none (fully proved)
Main exports: Shop.Reachable, SleepInv, run_sleep, SameFront, MovesCloser, burger_arrives,
  rack_released
Open obligations: none
-/
import KernelHacking.Proofs.RackBound

namespace KernelHacking.BurgerBuddies

open Threads

/-- Some interleaving leads to the state. -/
def Shop.Reachable (shop : Shop) (state : shop.State) : Prop := ∃ trace, shop.Run trace state

variable {shop : Shop}

theorem Shop.Reachable.step {before after : shop.State} {thread : Thread shop}
    (reachable : shop.Reachable before) (moved : next shop.program before thread = some after) :
    shop.Reachable after := by
  obtain ⟨_, run⟩ := reachable
  exact ⟨_, run.step moved⟩

/-- Why a cook that found the rack full does not sleep for ever. -/
structure SleepInv (state : shop.State) : Prop where
  full : ∀ index, state.pc (.cook index) = .unlockFull → state.shared.rack = shop.racksize
  asleep : ∀ index, state.pc (.cook index) = .waitFull →
    state.value .rackFull ≠ 0 ∨ state.shared.rack = shop.racksize ∨
      ∃ cashier, OwesPost state cashier

section Steps

variable {before after : shop.State}

/-- A step that moves no cook and leaves the rack, `rackFull` and the owed posts alone keeps the
    invariant. -/
theorem SleepInv.frame (inv : SleepInv before)
    (cooks : ∀ index, after.pc (.cook index) = before.pc (.cook index))
    (rack : after.shared.rack = before.shared.rack)
    (tokens : after.value .rackFull = before.value .rackFull)
    (owes : ∀ cashier, OwesPost before cashier → OwesPost after cashier) : SleepInv after where
  full := by
    intro index at_
    rw [cooks] at at_
    rw [rack]
    exact inv.full index at_
  asleep := by
    intro index at_
    rw [cooks] at at_
    rw [rack, tokens]
    rcases inv.asleep index at_ with token | full | ⟨cashier, owed⟩
    · exact .inl token
    · exact .inr (.inl full)
    · exact .inr (.inr ⟨cashier, owes cashier owed⟩)

/-- After a cook's step no other cook stands between the test of the rack and its end. -/
theorem only_cook (locked : LockedBy holds before) {index other : Fin shop.cooks}
    (moved : next shop.program before (.cook index) = some after)
    (inside : cookHolds (after.pc (.cook other)) .CK = true) : other = index := by
  by_contra different
  have stays := next_pc_of_ne moved (show Thread.cook other ≠ .cook index by simp [different])
  have insideBefore : cookHolds (before.pc (.cook other)) .CK = true := by rw [← stays]; exact inside
  have lockedAfter := (program_respects shop).step locked moved
  obtain ⟨_, target, _, _⟩ := next_fields moved
  -- the cook that moved was in `CK` before the step, unless it has just entered it
  cases at_ : before.pc (.cook index)
  case lockCK =>
    simp only [Shop.program, at_, cook, Command.target, Option.some.injEq] at target
    exact different (cook_unique lockedAfter inside (by rw [← target]; rfl))
  all_goals
    exact different (cook_unique locked insideBefore (by rw [at_]; rfl))

/-- A cook falls asleep only after it has found the rack full. -/
theorem SleepInv.step_cook (locked : LockedBy holds before) (inv : SleepInv before)
    {index : Fin shop.cooks} (moved : next shop.program before (.cook index) = some after) :
    SleepInv after := by
  obtain ⟨_, target, shared, _⟩ := next_fields moved
  constructor
  · intro other at_
    have same : other = index := only_cook locked moved (by rw [at_]; rfl)
    subst same
    rw [at_] at target
    cases from_ : before.pc (.cook other) <;>
      simp only [Shop.program, from_, cook, test, assign, print, Command.target, Command.effect,
        Option.some.injEq, reduceCtorEq, id] at target shared
    case testFull =>
      rw [shared]
      by_contra notFull
      rw [if_neg notFull] at target
      cases target
    case testWaiting => split at target <;> cases target
  · intro other at_
    have same : other = index := only_cook locked moved (by rw [at_]; rfl)
    subst same
    rw [at_] at target
    cases from_ : before.pc (.cook other) <;>
      simp only [Shop.program, from_, cook, test, assign, print, Command.target, Command.effect,
        Option.some.injEq, reduceCtorEq, id] at target shared
    case unlockFull =>
      rw [shared]
      exact .inr (.inl (inv.full other from_))
    case testFull => split at target <;> cases target
    case testWaiting => split at target <;> cases target

/-- A cashier that takes a burger off a full rack owes the sleeping cook a post until it has made
    it. -/
theorem SleepInv.step_cashier (locked : LockedBy holds before) (inv : SleepInv before)
    {index : Fin shop.cashiers} (moved : next shop.program before (.cashier index) = some after) :
    SleepInv after := by
  have cooks : ∀ cook : Fin shop.cooks, after.pc (.cook cook) = before.pc (.cook cook) :=
    fun cook => next_pc_of_ne moved (by simp)
  have others : after.shared.rack = before.shared.rack →
      (OwesPost before index → OwesPost after index) →
      ∀ other, OwesPost before other → OwesPost after other := by
    intro rack own other owes
    by_cases same : other = index
    · subst same
      exact own owes
    · have stays := next_pc_of_ne moved (show Thread.cashier other ≠ .cashier index by simp [same])
      rw [OwesPost, stays, rack]
      exact owes
  obtain ⟨_, target, shared, value⟩ := next_fields moved
  cases at_ : before.pc (.cashier index) <;>
    simp only [Shop.program, at_, cashier, test, assign, print, Command.target, Command.effect,
      Command.signal, Option.some.injEq, id] at target shared value
  case takeBurger =>
    constructor
    · intro cook atFull
      rw [cooks] at atFull
      exact (checkRack_exclusive locked (by rw [atFull]; rfl)
        (show cashierHolds (before.pc (.cashier index)) .checkRack = true by rw [at_]; rfl)).elim
    · intro cook atWait
      rw [cooks] at atWait
      rcases inv.asleep cook atWait with token | full | ⟨cashier, owed⟩
      · exact .inl (by rw [value]; exact token)
      · refine .inr (.inr ⟨index, .inr ⟨target.symm, ?_⟩⟩)
        rw [shared]
        simp only
        omega
      · have same : cashier = index := cashier_unique locked owed.inside.2 (by rw [at_]; rfl)
        subst same
        simp [OwesPost, at_] at owed
  case testWasFull =>
    refine inv.frame cooks (by rw [shared]) (by rw [value]) (others (by rw [shared]) ?_)
    rintro (posting | ⟨_, wasFull⟩)
    · rw [at_] at posting
      cases posting
    · rw [if_pos wasFull] at target
      exact .inl target.symm
  case postFull =>
    constructor
    · intro cook atFull
      rw [cooks] at atFull
      rw [shared]
      exact inv.full cook atFull
    · intro cook _
      exact .inl (by simp [value])
  all_goals
    refine inv.frame cooks (by rw [shared]) (by simp [value]) (others (by rw [shared]) ?_)
    intro owed
    simp [OwesPost, at_] at owed

end Steps

/-- In every reachable state a sleeping cook has a reason to sleep. -/
theorem run_sleep {trace : List (Label (@Pc shop))} {state : shop.State}
    (run : shop.Run trace state) : SleepInv state := by
  induction run with
  | start =>
      constructor
      · intro index at_
        cases at_
      · intro index at_
        cases at_
  | @step trace before after thread run moved inductionHypothesis =>
      have locked := run_locked run
      cases thread with
      | cook index => exact inductionHypothesis.step_cook locked moved
      | cashier index => exact inductionHypothesis.step_cashier locked moved
      | customer index =>
          have stays : ∀ other : Thread shop, other ≠ .customer index →
              after.pc other = before.pc other := fun other => next_pc_of_ne moved
          obtain ⟨_, _, shared, value⟩ := next_fields moved
          have rack : after.shared.rack = before.shared.rack := by
            rw [shared]
            cases at_ : before.pc (.customer index) <;> rfl
          refine inductionHypothesis.frame (fun cook => stays _ (by simp)) rack ?_ ?_
          · rw [value]
            cases at_ : before.pc (.customer index) <;>
              simp [Shop.program, customer, test, assign, print, Command.signal]
          · intro cashier owed
            rw [OwesPost, stays _ (by simp), rack]
            exact owed

/-! ### Continuations in which only cooks move -/

/-- The cashiers, the customers and the calls between them are where they were. -/
structure SameFront (first second : shop.State) : Prop where
  cashiers : ∀ index, second.pc (.cashier index) = first.pc (.cashier index)
  customers : ∀ index, second.pc (.customer index) = first.pc (.customer index)
  tokens : ∀ index, second.value (.cashierAvailable index) = first.value (.cashierAvailable index)

theorem SameFront.refl (state : shop.State) : SameFront state state :=
  ⟨fun _ => rfl, fun _ => rfl, fun _ => rfl⟩

/-- A cook moves neither cashiers nor customers. -/
theorem SameFront.step_cook {start before after : shop.State} (same : SameFront start before)
    {index : Fin shop.cooks} (moved : next shop.program before (.cook index) = some after) :
    SameFront start after where
  cashiers := fun cashier => (next_pc_of_ne moved (by simp)).trans (same.cashiers cashier)
  customers := fun customer => (next_pc_of_ne moved (by simp)).trans (same.customers customer)
  tokens := by
    intro cashier
    rw [← same.tokens cashier, (next_fields moved).2.2.2]
    cases at_ : before.pc (.cook index) <;>
      simp [Shop.program, cook, test, assign, print, Command.signal]

/-- A cook's step as a continuation. -/
theorem cook_reaches {before after : shop.State} {index : Fin shop.cooks}
    (moved : next shop.program before (.cook index) = some after) :
    Reaches shop.program before after :=
  .single ⟨.cook index, moved⟩

/-- How many statements a cook in `CK` is away from posting `rackEmpty`, at most. -/
def stepsToPost : CookPc → Nat
  | .unlockRack => 12
  | .unlockCK => 11
  | .lockCK => 10
  | .lockRack => 9
  | .testFull => 8
  | .unlockFull => 7
  | .waitFull => 6
  | .relockRack => 5
  | .makeBurger => 4
  | .printMakes => 3
  | .testWaiting => 2
  | .lowerWaiting => 1
  | .postEmpty => 0

def stepsToPostOf : (thread : Thread shop) → Pc thread → Nat
  | .cook _, pc => stepsToPost pc
  | .cashier _, _ | .customer _, _ => 10

/-- How far the cook in `CK`, or the next one to enter it, is from posting `rackEmpty`. -/
def distanceToPost (state : shop.State) : Nat := phaseOf stepsToPostOf 10 .CK state

theorem distance_idleOutside : IdleOutside (@stepsToPostOf shop) 10 holds .CK := by
  intro thread pc free
  cases thread with
  | cook index => cases pc <;> first | rfl | cases free
  | cashier index => rfl
  | customer index => rfl

/-- A cook can move, and its statement brings it closer to posting `rackEmpty`. -/
def MovesCloser (state : shop.State) (index : Fin shop.cooks) : Prop :=
  (shop.program (.cook index) (state.pc (.cook index))).ready state.owner state.value ∧
    ∀ target,
      (shop.program (.cook index) (state.pc (.cook index))).target state.shared = some target →
      stepsToPost target < stepsToPost (state.pc (.cook index))

/-- The step of a cook that moves closer to its post is seen as such from `CK`. -/
theorem MovesCloser.reaches {start state : shop.State} {index : Fin shop.cooks}
    (moves : MovesCloser state index) (reachable : shop.Reachable state)
    (same : SameFront start state) :
    ∃ later, Reaches shop.program state later ∧ (shop.Reachable later ∧ SameFront start later) ∧
      distanceToPost later < distanceToPost state := by
  obtain ⟨ready, closer⟩ := moves
  obtain ⟨after, moved⟩ := exists_next_of_ready ready
  refine ⟨after, cook_reaches moved, ⟨reachable.step moved, same.step_cook moved⟩, ?_⟩
  obtain ⟨_, run⟩ := reachable
  have less := closer _ (next_fields moved).2.1
  have busy : stepsToPost (state.pc (.cook index)) ≠ 10 ∨
      stepsToPost (after.pc (.cook index)) ≠ 10 := by omega
  obtain ⟨before, later⟩ := phaseOf_step_busy distance_idleOutside (program_respects shop)
    (run_locked run) moved busy
  change distanceToPost state = stepsToPost (state.pc (.cook index)) at before
  change distanceToPost after = stepsToPost (after.pc (.cook index)) at later
  omega

section Asleep

variable {state : shop.State} {cashier : Fin shop.cashiers}

/-- Only the cook in `CK` can own `checkRack`. -/
theorem cooks_outside_checkRack (locked : LockedBy holds state) {index : Fin shop.cooks}
    (inside : cookHolds (state.pc (.cook index)) .CK = true)
    (outside : cookHolds (state.pc (.cook index)) .checkRack = false) (other : Fin shop.cooks) :
    cookHolds (state.pc (.cook other)) .checkRack ≠ true := by
  intro held
  have same := cook_unique locked (cookHolds_CK held) inside
  subst same
  rw [outside] at held
  cases held

/-- Only the cashier in `CA` can own `checkRack`. -/
theorem cashiers_outside_checkRack (locked : LockedBy holds state)
    (inside : cashierHolds (state.pc (.cashier cashier)) .CA = true)
    (outside : cashierHolds (state.pc (.cashier cashier)) .checkRack = false)
    (other : Fin shop.cashiers) : cashierHolds (state.pc (.cashier other)) .checkRack ≠ true := by
  intro held
  have same := cashier_unique locked (cashierHolds_CA held) inside
  subst same
  rw [outside] at held
  cases held

/-- `checkRack` is free while the cook in `CK` and the cashier in `CA` are outside it. -/
theorem checkRack_free (locked : LockedBy holds state)
    (cooks : ∀ index, cookHolds (state.pc (.cook index)) .checkRack ≠ true)
    (cashiers : ∀ index, cashierHolds (state.pc (.cashier index)) .checkRack ≠ true) :
    state.owner .checkRack = none := by
  apply locked.free
  intro thread held
  cases thread with
  | cook index => exact cooks index held
  | cashier index => exact cashiers index held
  | customer index => rcases customerHolds_mutex held with other | other <;> cases other

/-- While a cashier sleeps on `rackEmpty` and the rack is empty, the cook in `CK` moves closer to its
    post. -/
theorem movesCloser_of_inside (locked : LockedBy holds state) (sleep : SleepInv state)
    (room : 1 ≤ shop.racksize) (asleep : state.pc (.cashier cashier) = .waitEmpty)
    (empty : state.shared.rack = 0) (idle : maker state = .idle) {index : Fin shop.cooks}
    (inside : cookHolds (state.pc (.cook index)) .CK = true) : MovesCloser state index := by
  rw [maker_of_cook locked inside] at idle
  have free : cookHolds (state.pc (.cook index)) .checkRack = false →
      state.owner .checkRack = none := by
    intro outside
    exact checkRack_free locked (cooks_outside_checkRack locked inside outside)
      (cashiers_outside_checkRack locked (by rw [asleep]; rfl) (by rw [asleep]; rfl))
  cases at_ : state.pc (.cook index) <;> rw [at_] at inside idle free <;>
    simp only [MovesCloser, Shop.program, at_, cook, test, assign, print, Command.ready,
      Command.target, Option.some.injEq, forall_eq']
  case lockCK => cases inside
  case printMakes | testWaiting | lowerWaiting | postEmpty => cases idle
  case lockRack | relockRack => exact ⟨free rfl, by decide⟩
  case testFull =>
    have notFull : state.shared.rack ≠ shop.racksize := by omega
    rw [if_neg notFull]
    exact ⟨trivial, by decide⟩
  case unlockFull =>
    have full := sleep.full index at_
    omega
  case waitFull =>
    refine ⟨?_, by decide⟩
    rcases sleep.asleep index at_ with token | full | ⟨other, owed⟩
    · exact token
    · omega
    · have same : other = cashier := cashier_unique locked owed.inside.2 (by rw [asleep]; rfl)
      subst same
      simp [OwesPost, asleep] at owed
  case makeBurger | unlockRack | unlockCK => exact ⟨trivial, by decide⟩

/-- While `CK` is free every cook can enter it. -/
theorem movesCloser_of_free (locked : LockedBy holds state) (free : state.owner .CK = none)
    (index : Fin shop.cooks) : MovesCloser state index := by
  have outside : cookHolds (state.pc (.cook index)) .CK = false := by
    by_contra held
    rw [Bool.not_eq_false] at held
    rw [(locked .CK (.cook index)).mpr held] at free
    cases free
  have at_ : state.pc (.cook index) = .lockCK := by
    cases at_ : state.pc (.cook index) <;> rw [at_] at outside <;> first | rfl | cases outside
  rw [MovesCloser, at_]
  refine ⟨free, ?_⟩
  intro target targets
  cases targets
  decide

/-- While a cashier sleeps on `rackEmpty` and the rack is empty, some cook moves closer to its post:
    the one in `CK`, or any other one if nobody is there. -/
theorem exists_movesCloser_of_empty (locked : LockedBy holds state) (sleep : SleepInv state)
    (someCook : 1 ≤ shop.cooks) (room : 1 ≤ shop.racksize)
    (asleep : state.pc (.cashier cashier) = .waitEmpty) (empty : state.shared.rack = 0)
    (idle : maker state = .idle) : ∃ index, MovesCloser state index := by
  by_cases somebody : ∃ index, cookHolds (state.pc (.cook index)) .CK = true
  · obtain ⟨index, inside⟩ := somebody
    exact ⟨index, movesCloser_of_inside locked sleep room asleep empty idle inside⟩
  · have free := CK_free locked fun index held => somebody ⟨index, held⟩
    exact ⟨⟨0, someCook⟩, movesCloser_of_free locked free _⟩

/-- A cook that has put down the first burger while somebody waits goes on to the post. -/
theorem exists_movesCloser_of_added (locked : LockedBy holds state) (added : maker state = .added)
    (one : state.shared.rack = 1) (waiting : state.shared.waitForBurger ≠ 0) :
    ∃ index, MovesCloser state index := by
  obtain ⟨index, phase⟩ := exists_cook_of_maker locked (by rw [added]; decide)
  rw [added] at phase
  refine ⟨index, ?_⟩
  cases at_ : state.pc (.cook index) <;> rw [at_] at phase <;>
    simp only [MovesCloser, at_, Shop.program, cook, test, print, Command.ready, Command.target,
      Option.some.injEq, forall_eq', one, waiting, ne_eq, not_false_eq_true, and_self, if_true]
  case printMakes | testWaiting => decide
  all_goals cases phase

/-- A cook that has found somebody waiting goes on to the post. -/
theorem exists_movesCloser_of_lowering (locked : LockedBy holds state)
    (lowering : maker state = .lowering) : ∃ index, MovesCloser state index := by
  obtain ⟨index, phase⟩ := exists_cook_of_maker locked (by rw [lowering]; decide)
  rw [lowering] at phase
  refine ⟨index, ?_⟩
  cases at_ : state.pc (.cook index) <;> rw [at_] at phase <;>
    simp only [MovesCloser, at_, Shop.program, cook, assign, Command.ready, Command.target,
      Option.some.injEq, forall_eq']
  case lowerWaiting => decide
  all_goals cases phase

/-- While a cashier sleeps on `rackEmpty` without a token, some cook is about to post `rackEmpty` or
    moves closer to it. -/
theorem exists_cook_towards_post (reachable : shop.Reachable state) (someCook : 1 ≤ shop.cooks)
    (room : 1 ≤ shop.racksize) (asleep : state.pc (.cashier cashier) = .waitEmpty)
    (noToken : state.value .rackEmpty = 0) :
    (∃ index, state.pc (.cook index) = .postEmpty) ∨ ∃ index, MovesCloser state index := by
  obtain ⟨trace, run⟩ := reachable
  have locked := run_locked run
  have handoff := run_rackHandoff run
  have sleeping : taker state = .sleeping := by
    rw [taker_of_cashier locked (by rw [asleep]; rfl), asleep]
    rfl
  by_cases posting : maker state = .posting
  · left
    obtain ⟨index, phase⟩ := exists_cook_of_maker locked (by rw [posting]; decide)
    rw [posting] at phase
    refine ⟨index, ?_⟩
    cases at_ : state.pc (.cook index) <;> rw [at_] at phase <;> first | rfl | cases phase
  · -- nobody has answered the sleeper yet, so its wait is still counted
    right
    have waiting : state.shared.waitForBurger ≠ 0 := by
      have balance := handoff.balance
      simp only [Handoff.State.posts, Handoff.State.sleepers, rackHandoff, posting, sleeping,
        noToken, if_true, if_false] at balance
      omega
    rcases handoff.unanswered waiting with ⟨empty, idle⟩ | ⟨one, added | lowering⟩
    · exact exists_movesCloser_of_empty locked (run_sleep run) someCook room asleep empty idle
    · exact exists_movesCloser_of_added locked added one waiting
    · exact exists_movesCloser_of_lowering locked lowering

end Asleep

/-- The cooks alone bring a burger to a cashier that sleeps on `rackEmpty`. -/
theorem burger_arrives {state : shop.State} {cashier : Fin shop.cashiers}
    (reachable : shop.Reachable state) (someCook : 1 ≤ shop.cooks) (room : 1 ≤ shop.racksize)
    (asleep : state.pc (.cashier cashier) = .waitEmpty) :
    ∃ later, Reaches shop.program state later ∧ shop.Reachable later ∧ SameFront state later ∧
      later.value .rackEmpty ≠ 0 := by
  let good := fun middle : shop.State => shop.Reachable middle ∧ SameFront state middle
  let goal := fun middle : shop.State => good middle ∧ middle.value .rackEmpty ≠ 0
  -- a token ends the search, and until then the cooks come closer to a post
  let measure := fun middle : shop.State =>
    if middle.value .rackEmpty = 0 then distanceToPost middle + 1 else 0
  have advance : ∀ middle, good middle → ¬ goal middle → ∃ later,
      Reaches shop.program middle later ∧ good later ∧ measure later < measure middle := by
    rintro middle ⟨middleReachable, same⟩ missed
    have noToken : middle.value .rackEmpty = 0 := by
      by_contra token
      exact missed ⟨⟨middleReachable, same⟩, token⟩
    have fromHere : measure middle = distanceToPost middle + 1 := if_pos noToken
    have stillAsleep := (same.cashiers cashier).trans asleep
    rcases exists_cook_towards_post middleReachable someCook room stillAsleep noToken with
      ⟨index, posts⟩ | ⟨index, moves⟩
    · have ready : (shop.program (.cook index) (middle.pc (.cook index))).ready middle.owner
          middle.value := by
        rw [posts]
        trivial
      obtain ⟨after, moved⟩ := exists_next_of_ready ready
      refine ⟨after, cook_reaches moved, ⟨middleReachable.step moved, same.step_cook moved⟩, ?_⟩
      have token : after.value .rackEmpty ≠ 0 := by
        rw [(next_fields moved).2.2.2, posts]
        simp [Shop.program, cook, Command.signal]
      have done : measure after = 0 := if_neg token
      omega
    · obtain ⟨after, path, isGood, less⟩ := moves.reaches middleReachable same
      refine ⟨after, path, isGood, ?_⟩
      have bound : measure after ≤ distanceToPost after + 1 := by
        simp only [measure]
        split <;> omega
      omega
  obtain ⟨later, path, ⟨laterReachable, same⟩, token⟩ :=
    reaches_goal good goal measure advance state ⟨reachable, .refl state⟩
  exact ⟨later, path, laterReachable, same, token⟩

/-! ### Releasing the rack -/

/-- How many statements a cook in `checkRack` is away from releasing it, at most. -/
def stepsToRelease : CookPc → Nat
  | .testFull => 8
  | .makeBurger => 7
  | .printMakes => 6
  | .testWaiting => 5
  | .lowerWaiting => 4
  | .postEmpty => 3
  | .unlockRack => 2
  | .unlockFull => 1
  | _ => 0

def stepsToReleaseOf : (thread : Thread shop) → Pc thread → Nat
  | .cook _, pc => stepsToRelease pc
  | .cashier _, _ | .customer _, _ => 0

/-- How far the owner of `checkRack` is from releasing it. -/
def distanceToRelease (state : shop.State) : Nat := phaseOf stepsToReleaseOf 0 .checkRack state

theorem release_idleOutside : IdleOutside (@stepsToReleaseOf shop) 0 holds .checkRack := by
  intro thread pc free
  cases thread with
  | cook index => cases pc <;> first | rfl | cases free
  | cashier index => rfl
  | customer index => rfl

/-- A cook in `checkRack` can always move, and comes closer to releasing it. -/
theorem cook_in_checkRack_moves {state : shop.State} {index : Fin shop.cooks}
    (held : cookHolds (state.pc (.cook index)) .checkRack = true) :
    (shop.program (.cook index) (state.pc (.cook index))).ready state.owner state.value ∧
      0 < stepsToRelease (state.pc (.cook index)) ∧
      ∀ target,
        (shop.program (.cook index) (state.pc (.cook index))).target state.shared = some target →
        stepsToRelease target < stepsToRelease (state.pc (.cook index)) := by
  cases at_ : state.pc (.cook index) <;> rw [at_] at held <;>
    simp only [Shop.program, cook, test, assign, print, Command.ready, Command.target,
      Option.some.injEq, forall_eq']
  case testFull | testWaiting =>
    refine ⟨trivial, by decide, ?_⟩
    split <;> decide
  case unlockFull | makeBurger | printMakes | lowerWaiting | postEmpty | unlockRack =>
    exact ⟨trivial, by decide, by decide⟩
  all_goals cases held

/-- The step of a cook in `checkRack` brings it closer to releasing it. -/
theorem cook_in_checkRack_reaches {start state : shop.State} {index : Fin shop.cooks}
    (held : cookHolds (state.pc (.cook index)) .checkRack = true)
    (reachable : shop.Reachable state) (same : SameFront start state) :
    ∃ later, Reaches shop.program state later ∧ (shop.Reachable later ∧ SameFront start later) ∧
      distanceToRelease later < distanceToRelease state := by
  obtain ⟨ready, positive, closer⟩ := cook_in_checkRack_moves held
  obtain ⟨after, moved⟩ := exists_next_of_ready ready
  refine ⟨after, cook_reaches moved, ⟨reachable.step moved, same.step_cook moved⟩, ?_⟩
  obtain ⟨_, run⟩ := reachable
  have less := closer _ (next_fields moved).2.1
  obtain ⟨before, later⟩ := phaseOf_step_busy release_idleOutside (program_respects shop)
    (run_locked run) moved (.inl (Nat.ne_of_gt positive))
  change distanceToRelease state = stepsToRelease (state.pc (.cook index)) at before
  change distanceToRelease after = stepsToRelease (after.pc (.cook index)) at later
  omega

/-- The cooks alone release the rack for a cashier in `CA` that waits for it. -/
theorem rack_released {state : shop.State} {cashier : Fin shop.cashiers}
    (reachable : shop.Reachable state)
    (waits : state.pc (.cashier cashier) = .lockRack ∨ state.pc (.cashier cashier) = .relockRack) :
    ∃ later, Reaches shop.program state later ∧ shop.Reachable later ∧ SameFront state later ∧
      later.owner .checkRack = none := by
  let good := fun middle : shop.State => shop.Reachable middle ∧ SameFront state middle
  let goal := fun middle : shop.State => good middle ∧ middle.owner .checkRack = none
  have advance : ∀ middle, good middle → ¬ goal middle → ∃ later,
      Reaches shop.program middle later ∧ good later ∧
        distanceToRelease later < distanceToRelease middle := by
    rintro middle ⟨middleReachable, same⟩ missed
    by_cases somebody : ∃ index, cookHolds (middle.pc (.cook index)) .checkRack = true
    · obtain ⟨index, held⟩ := somebody
      exact cook_in_checkRack_reaches held middleReachable same
    · -- the waiting cashier is the one in `CA`, so no cashier owns the rack either
      obtain ⟨trace, run⟩ := middleReachable
      have stillWaits := same.cashiers cashier
      have inside : cashierHolds (middle.pc (.cashier cashier)) .CA = true := by
        rw [stillWaits]
        rcases waits with at_ | at_ <;> rw [at_] <;> rfl
      have outside : cashierHolds (middle.pc (.cashier cashier)) .checkRack = false := by
        rw [stillWaits]
        rcases waits with at_ | at_ <;> rw [at_] <;> rfl
      have free := checkRack_free (run_locked run) (fun index held => somebody ⟨index, held⟩)
        (cashiers_outside_checkRack (run_locked run) inside outside)
      exact absurd ⟨⟨⟨trace, run⟩, same⟩, free⟩ missed
  obtain ⟨later, path, ⟨laterReachable, same⟩, free⟩ :=
    reaches_goal good goal distanceToRelease advance state ⟨reachable, .refl state⟩
  exact ⟨later, path, laterReachable, same, free⟩

end KernelHacking.BurgerBuddies
