/-
Module: KernelHacking.Proofs.RackBound
Layer: Proofs
Purpose: How many burgers lie on the rack. A cashier posts `rackFull` on every step from a full rack
  to one with a free place, whether or not a cook sleeps there, so a token can outlive the free place
  it announces and let a later cook put a burger on a full rack. The rack stays within `racksize`
  along every run in which each such take finds a cook asleep on `rackFull`.
Imports: KernelHacking.Proofs.RackProtocol
Trusted boundary: none (fully proved)
Main exports: CookSleeps, FullTakeFindsSleeper, RoomInv, rack_le_racksize, rack_overflows
Open obligations: none
-/
import KernelHacking.Proofs.RackProtocol

namespace KernelHacking.BurgerBuddies

open Threads

variable {shop : Shop}

/-- Some cook has found the rack full and sleeps on `rackFull`. -/
def CookSleeps (state : shop.State) : Prop := ∃ index, state.pc (.cook index) = .waitFull

/-- The condition on one step: a cashier takes a burger off a full rack only while a cook sleeps on
    `rackFull`. -/
def FullTakeFindsSleeper (state : shop.State) (thread : Thread shop) : Prop :=
  ∀ index, thread = .cashier index → state.pc (.cashier index) = .takeBurger →
    state.shared.rack = shop.racksize → CookSleeps state

instance (state : shop.State) : Decidable (CookSleeps state) :=
  inferInstanceAs (Decidable (∃ index, state.pc (.cook index) = .waitFull))

instance (state : shop.State) (thread : Thread shop) :
    Decidable (FullTakeFindsSleeper state thread) :=
  inferInstanceAs (Decidable (∀ index, thread = .cashier index →
    state.pc (.cashier index) = .takeBurger → state.shared.rack = shop.racksize →
      CookSleeps state))

/-- A cook that will put a burger down without looking at the rack again. -/
def Committed (state : shop.State) (index : Fin shop.cooks) : Prop :=
  state.pc (.cook index) = .relockRack ∨ state.pc (.cook index) = .makeBurger

/-- A cashier that took the burger off a full rack and has not posted `rackFull` yet. -/
def OwesPost (state : shop.State) (index : Fin shop.cashiers) : Prop :=
  state.pc (.cashier index) = .postFull ∨
    (state.pc (.cashier index) = .testWasFull ∧ state.shared.rack + 1 = shop.racksize)

/-- The rack has room for every committed cook, and there is at most one answer on `rackFull`, given
    or owed, and only while a cook sleeps there and a place is free. -/
structure RoomInv (state : shop.State) : Prop where
  bound : state.shared.rack ≤ shop.racksize
  committed : ∀ index, Committed state index → state.shared.rack < shop.racksize
  owed : ∀ index, OwesPost state index →
    state.value .rackFull = 0 ∧ state.shared.rack < shop.racksize ∧ CookSleeps state
  token : state.value .rackFull ≠ 0 →
    state.value .rackFull = 1 ∧ state.shared.rack < shop.racksize ∧ CookSleeps state

variable {before after : shop.State}

/-- A step that leaves the rack and `rackFull` alone, wakes no cook, commits none and owes nothing
    new keeps the invariant. -/
theorem RoomInv.frame (inv : RoomInv before) (rack : after.shared.rack = before.shared.rack)
    (tokens : after.value .rackFull = before.value .rackFull)
    (sleeps : CookSleeps before → CookSleeps after)
    (committed : ∀ index, Committed after index → Committed before index)
    (owes : ∀ index, OwesPost after index → OwesPost before index) : RoomInv after where
  bound := by rw [rack]; exact inv.bound
  committed := by
    intro index isCommitted
    rw [rack]
    exact inv.committed index (committed index isCommitted)
  owed := by
    intro index isOwed
    obtain ⟨none, room, asleep⟩ := inv.owed index (owes index isOwed)
    rw [rack, tokens]
    exact ⟨none, room, sleeps asleep⟩
  token := by
    intro some
    rw [tokens] at some ⊢
    obtain ⟨one, room, asleep⟩ := inv.token some
    rw [rack]
    exact ⟨one, room, sleeps asleep⟩

/-- Two cooks inside `CK` are one cook. -/
theorem cook_unique {state : shop.State} (locked : LockedBy holds state)
    {first second : Fin shop.cooks} (one : cookHolds (state.pc (.cook first)) .CK = true)
    (two : cookHolds (state.pc (.cook second)) .CK = true) : first = second := by
  have same := locked.exclusive (show holds (.cook first) _ .CK = true from one)
    (show holds (.cook second) _ .CK = true from two)
  cases same
  rfl

/-- Two cashiers inside `CA` are one cashier. -/
theorem cashier_unique {state : shop.State} (locked : LockedBy holds state)
    {first second : Fin shop.cashiers} (one : cashierHolds (state.pc (.cashier first)) .CA = true)
    (two : cashierHolds (state.pc (.cashier second)) .CA = true) : first = second := by
  have same := locked.exclusive (show holds (.cashier first) _ .CA = true from one)
    (show holds (.cashier second) _ .CA = true from two)
  cases same
  rfl

/-- A cook that moves inside `CK`, and is not itself asleep, moves while no cook sleeps. -/
theorem not_cookSleeps {state : shop.State} (locked : LockedBy holds state)
    {index : Fin shop.cooks} (held : cookHolds (state.pc (.cook index)) .CK = true)
    (awake : state.pc (.cook index) ≠ .waitFull) : ¬ CookSleeps state := by
  rintro ⟨sleeper, asleep⟩
  have same : sleeper = index := cook_unique locked (by rw [asleep]; rfl) held
  subst same
  exact awake asleep

/-- A committed cook is in `CK`. -/
theorem Committed.inside {state : shop.State} {index : Fin shop.cooks}
    (committed : Committed state index) : cookHolds (state.pc (.cook index)) .CK = true := by
  rcases committed with relocking | making
  · rw [relocking]
    rfl
  · rw [making]
    rfl

/-- A cashier that owes a post owns `checkRack` and `CA`. -/
theorem OwesPost.inside {state : shop.State} {index : Fin shop.cashiers}
    (owes : OwesPost state index) :
    cashierHolds (state.pc (.cashier index)) .checkRack = true ∧
      cashierHolds (state.pc (.cashier index)) .CA = true := by
  rcases owes with posting | ⟨testing, _⟩
  · rw [posting]
    exact ⟨rfl, rfl⟩
  · rw [testing]
    exact ⟨rfl, rfl⟩

section Frames

variable {thread : Thread shop}

/-- A step that does not wake the sleeping cook keeps it asleep. -/
theorem CookSleeps.step (moved : next shop.program before thread = some after)
    (awake : ∀ index, thread = .cook index → before.pc (.cook index) ≠ .waitFull)
    (sleeps : CookSleeps before) : CookSleeps after := by
  obtain ⟨sleeper, asleep⟩ := sleeps
  have different : Thread.cook sleeper ≠ thread := fun same => awake sleeper same.symm asleep
  exact ⟨sleeper, (next_pc_of_ne moved different).trans asleep⟩

/-- Only the cook that moves can become committed. -/
theorem Committed.of_step (moved : next shop.program before thread = some after)
    (notNew : ∀ index, thread = .cook index → Committed after index → Committed before index)
    (index : Fin shop.cooks) (committed : Committed after index) : Committed before index := by
  by_cases same : thread = .cook index
  · exact notNew index same committed
  · have stays := next_pc_of_ne moved (Ne.symm same)
    simpa only [Committed, stays] using committed

/-- Only the cashier that moves can come to owe a post, as long as the rack stays as it is. -/
theorem OwesPost.of_step (moved : next shop.program before thread = some after)
    (rack : after.shared.rack = before.shared.rack)
    (notNew : ∀ index, thread = .cashier index → OwesPost after index → OwesPost before index)
    (index : Fin shop.cashiers) (owes : OwesPost after index) : OwesPost before index := by
  by_cases same : thread = .cashier index
  · exact notNew index same owes
  · have stays := next_pc_of_ne moved (Ne.symm same)
    simpa only [OwesPost, stays, rack] using owes

/-- While the cashier that moves stands in `CA`, no other one owes a post after its step. -/
theorem OwesPost.only (locked : LockedBy holds before) {index other : Fin shop.cashiers}
    (moved : next shop.program before (.cashier index) = some after)
    (held : cashierHolds (before.pc (.cashier index)) .CA = true) (owes : OwesPost after other) :
    other = index := by
  by_contra different
  have heldToo := owes.inside.2
  rw [next_pc_of_ne moved (by simp [different])] at heldToo
  exact different (cashier_unique locked heldToo held)

end Frames

/-- Cooks keep the invariant: the one that commits itself has seen a free place or has used up the
    only answer on `rackFull`. -/
theorem RoomInv.step_cook (locked : LockedBy holds before) (inv : RoomInv before)
    {index : Fin shop.cooks} (moved : next shop.program before (.cook index) = some after) :
    RoomInv after := by
  have owesFrame := fun rack => OwesPost.of_step moved rack (fun _ same => by cases same)
  have sleepFrame : before.pc (.cook index) ≠ .waitFull → CookSleeps before → CookSleeps after :=
    fun awake => CookSleeps.step moved (by rintro other ⟨⟩; exact awake)
  have commitFrame : (Committed after index → Committed before index) →
      ∀ other, Committed after other → Committed before other :=
    fun notNew => Committed.of_step moved (by rintro other ⟨⟩; exact notNew)
  obtain ⟨ready, target, shared, value⟩ := next_fields moved
  cases at_ : before.pc (.cook index) <;>
    simp only [Shop.program, at_, cook, test, assign, print, Command.ready, Command.target,
      Command.effect, Command.signal, Option.some.injEq, id] at ready target shared value
  case testFull =>
    have asleep := sleepFrame (by simp [at_])
    have owes := owesFrame (by rw [shared])
    by_cases full : before.shared.rack = shop.racksize
    · rw [if_pos full] at target
      exact inv.frame (by rw [shared]) (by rw [value]) asleep
        (commitFrame (by simp [Committed, ← target])) owes
    · -- the cook commits itself after it has seen a free place
      have bound := inv.bound
      have room : after.shared.rack < shop.racksize := by rw [shared]; omega
      refine ⟨by omega, fun _ _ => room, ?_, ?_⟩
      · intro cashier owed
        obtain ⟨none, _, sleeps⟩ := inv.owed cashier (owes cashier owed)
        exact ⟨by rw [value]; exact none, room, asleep sleeps⟩
      · intro some
        rw [value] at some ⊢
        obtain ⟨one, _, sleeps⟩ := inv.token some
        exact ⟨one, room, asleep sleeps⟩
  case waitFull =>
    -- the sleeper takes the only answer, so no other one is given or owed
    obtain ⟨one, room, _⟩ := inv.token ready
    have none : after.value .rackFull = 0 := by simp [value, one]
    have room : after.shared.rack < shop.racksize := by rw [shared]; exact room
    refine ⟨by omega, fun _ _ => room, ?_, fun some => absurd none some⟩
    intro cashier owed
    have owedBefore := inv.owed cashier (owesFrame (by rw [shared]) cashier owed)
    omega
  case makeBurger =>
    -- the cook stands in `CK` and `checkRack`, so no cook sleeps and no cashier owes a post
    have held : cookHolds (before.pc (.cook index)) .CK = true := by rw [at_]; rfl
    have heldRack : cookHolds (before.pc (.cook index)) .checkRack = true := by rw [at_]; rfl
    have nobodySleeps := not_cookSleeps locked held (by simp [at_])
    have room := inv.committed index (.inr at_)
    have rack : after.shared.rack = before.shared.rack + 1 := by rw [shared]
    refine ⟨by omega, ?_, ?_, ?_⟩
    · intro other committed
      by_cases same : other = index
      · subst same
        simp [Committed, ← target] at committed
      · have heldToo := committed.inside
        rw [next_pc_of_ne moved (by simp [same])] at heldToo
        exact absurd (cook_unique locked heldToo held) same
    · intro cashier owed
      have heldToo := owed.inside.1
      rw [next_pc_of_ne moved (by simp)] at heldToo
      exact (checkRack_exclusive locked heldRack heldToo).elim
    · intro some
      rw [value] at some
      exact absurd (inv.token some).2.2 nobodySleeps
  case relockRack =>
    exact inv.frame (by rw [shared]) (by rw [value]) (sleepFrame (by simp [at_]))
      (commitFrame fun _ => .inl at_) (owesFrame (by rw [shared]))
  case testWaiting =>
    have notCommitted : Committed after index → Committed before index := by
      rw [Committed, ← target]
      split <;> simp
    exact inv.frame (by rw [shared]) (by rw [value]) (sleepFrame (by simp [at_]))
      (commitFrame notCommitted) (owesFrame (by rw [shared]))
  all_goals
    exact inv.frame (by rw [shared]) (by simp [value]) (sleepFrame (by simp [at_]))
      (commitFrame (by simp [Committed, ← target])) (owesFrame (by rw [shared]))

/-- Cashiers keep the invariant as long as a take from a full rack finds a sleeping cook. -/
theorem RoomInv.step_cashier (locked : LockedBy holds before) (inv : RoomInv before)
    {index : Fin shop.cashiers} (meets : FullTakeFindsSleeper before (.cashier index))
    (moved : next shop.program before (.cashier index) = some after) : RoomInv after := by
  have sleepFrame : CookSleeps before → CookSleeps after :=
    CookSleeps.step moved (fun _ same => by cases same)
  have commitFrame : ∀ other, Committed after other → Committed before other :=
    Committed.of_step moved (fun _ same => by cases same)
  have owesFrame : after.shared.rack = before.shared.rack →
      (OwesPost after index → OwesPost before index) →
      ∀ other, OwesPost after other → OwesPost before other :=
    fun rack notNew => OwesPost.of_step moved rack (by rintro other ⟨⟩; exact notNew)
  obtain ⟨ready, target, shared, value⟩ := next_fields moved
  cases at_ : before.pc (.cashier index) <;>
    simp only [Shop.program, at_, cashier, test, assign, print, Command.ready, Command.target,
      Command.effect, Command.signal, Option.some.injEq, id] at ready target shared value
  case takeBurger =>
    have bound := inv.bound
    have rack : after.shared.rack = before.shared.rack - 1 := by rw [shared]
    have sameTokens : after.value .rackFull = before.value .rackFull := by rw [value]
    refine ⟨by omega, ?_, ?_, ?_⟩
    · intro cook committed
      have := inv.committed cook (commitFrame cook committed)
      omega
    · intro other owed
      have same : other = index := owed.only locked moved (by rw [at_]; rfl)
      subst same
      -- the cashier owes a post exactly if the rack was full, and then the condition applies
      have wasFull : before.shared.rack = shop.racksize := by
        rcases owed with posting | ⟨_, wasFull⟩
        · rw [← target] at posting
          cases posting
        · omega
      have none : before.value .rackFull = 0 := by
        by_contra some
        have := (inv.token some).2.1
        omega
      exact ⟨by rw [sameTokens]; exact none, by omega, sleepFrame (meets other rfl at_ wasFull)⟩
    · intro some
      rw [sameTokens] at some ⊢
      obtain ⟨one, room, sleeps⟩ := inv.token some
      exact ⟨one, by omega, sleepFrame sleeps⟩
  case testWasFull =>
    have stillOwes : OwesPost after index → OwesPost before index := by
      intro owes
      refine .inr ⟨at_, ?_⟩
      by_contra notFull
      rw [if_neg notFull] at target
      simp [OwesPost, ← target] at owes
    exact inv.frame (by rw [shared]) (by rw [value]) sleepFrame commitFrame
      (owesFrame (by rw [shared]) stillOwes)
  case postFull =>
    obtain ⟨none, room, sleeps⟩ := inv.owed index (.inl at_)
    have one : after.value .rackFull = 1 := by simp [value, none]
    have room : after.shared.rack < shop.racksize := by rw [shared]; exact room
    refine ⟨by omega, fun _ _ => room, ?_, fun _ => ⟨one, room, sleepFrame sleeps⟩⟩
    intro other owed
    have same : other = index := owed.only locked moved (by rw [at_]; rfl)
    subst same
    simp [OwesPost, ← target] at owed
  case testWaiting | testEmpty | testServed =>
    have owesNothing : OwesPost after index → OwesPost before index := by
      rw [OwesPost, ← target]
      split <;> simp
    exact inv.frame (by rw [shared]) (by rw [value]) sleepFrame commitFrame
      (owesFrame (by rw [shared]) owesNothing)
  all_goals
    exact inv.frame (by rw [shared]) (by simp [value]) sleepFrame commitFrame
      (owesFrame (by rw [shared]) (by simp [OwesPost, ← target]))

/-- Customers do not touch the rack. -/
theorem RoomInv.step_customer (inv : RoomInv before) {index : Fin shop.customers}
    (moved : next shop.program before (.customer index) = some after) : RoomInv after := by
  have sleepFrame : CookSleeps before → CookSleeps after :=
    CookSleeps.step moved (fun _ same => by cases same)
  have commitFrame : ∀ other, Committed after other → Committed before other :=
    Committed.of_step moved (fun _ same => by cases same)
  have owesFrame := fun rack => OwesPost.of_step moved rack (fun _ same => by cases same)
  obtain ⟨ready, target, shared, value⟩ := next_fields moved
  cases at_ : before.pc (.customer index) <;>
    simp only [Shop.program, at_, customer, test, assign, print, Command.effect, Command.signal,
      id] at shared value <;>
    exact inv.frame (by rw [shared]) (by simp [value]) sleepFrame commitFrame
      (owesFrame (by rw [shared]))

/-- The empty rack has room. -/
theorem RoomInv.initial (room : 1 ≤ shop.racksize) : RoomInv shop.initial := by
  constructor
  · simp only [Shop.initial]
    omega
  · intro index committed
    simp [Committed, Shop.initial] at committed
  · intro index owes
    simp [OwesPost, Shop.initial] at owes
  · simp [Shop.initial]

/-- Along every run in which each take from a full rack finds a cook asleep on `rackFull`, the rack
    never holds more than `racksize` burgers. -/
theorem rack_le_racksize (shop : Shop) (room : 1 ≤ shop.racksize)
    (trace : List (Label (@Pc shop))) (state : shop.State)
    (run : RunWhere shop.program shop.initial FullTakeFindsSleeper trace state) :
    state.shared.rack ≤ shop.racksize := by
  suffices inv : RoomInv state from inv.bound
  induction run with
  | start => exact RoomInv.initial room
  | @step _ _ _ thread run meets moved inductionHypothesis =>
      have locked := run_locked run.run
      cases thread with
      | cook index => exact inductionHypothesis.step_cook locked moved
      | cashier index => exact inductionHypothesis.step_cashier locked meets moved
      | customer index => exact inductionHypothesis.step_customer moved

/-- The cook fills the rack and falls asleep on `rackFull` before the cashier takes the burger. -/
def handoverSchedule : List (Thread smallestShop) :=
  List.replicate 12 (.cook ⟨0, by decide⟩) ++ List.replicate 4 (.cashier ⟨0, by decide⟩) ++
    List.replicate 7 (.customer ⟨0, by decide⟩) ++ List.replicate 9 (.cashier ⟨0, by decide⟩) ++
    List.replicate 3 (.cook ⟨0, by decide⟩)

set_option maxRecDepth 10000 in
/-- The bound applies to a run that goes through a take from a full rack. -/
theorem rack_le_racksize_handover :
    ∃ trace state,
      RunWhere smallestShop.program smallestShop.initial FullTakeFindsSleeper trace state ∧
        state.shared.rack = 1 ∧ state.shared.rack ≤ smallestShop.racksize := by
  have scheduled : (runScheduleWhere smallestShop.program FullTakeFindsSleeper handoverSchedule
      smallestShop.initial).map (fun state => state.shared.rack) = some 1 := by decide
  obtain ⟨state, reached, rack⟩ := Option.map_eq_some_iff.mp scheduled
  obtain ⟨trace, run⟩ := RunWhere.start.schedule reached
  exact ⟨trace, state, run, rack, rack_le_racksize smallestShop (by decide) trace state run⟩

/-- The cashier takes the burger while no cook sleeps; the token it leaves on `rackFull` lets the
    cook put a second burger on the rack for one. -/
def overflowSchedule : List (Thread smallestShop) :=
  List.replicate 8 (.cook ⟨0, by decide⟩) ++ List.replicate 4 (.cashier ⟨0, by decide⟩) ++
    List.replicate 7 (.customer ⟨0, by decide⟩) ++ List.replicate 9 (.cashier ⟨0, by decide⟩) ++
    List.replicate 15 (.cook ⟨0, by decide⟩)

set_option maxRecDepth 10000 in
/-- The rack can overflow. -/
theorem rack_overflows :
    ¬ ∀ shop : Shop, 1 ≤ shop.racksize → ∀ trace state, shop.Run trace state →
      state.shared.rack ≤ shop.racksize := by
  intro bounded
  have scheduled : (runSchedule smallestShop.program overflowSchedule smallestShop.initial).map
      (fun state => state.shared.rack) = some 2 := by decide
  obtain ⟨state, reached, rack⟩ := Option.map_eq_some_iff.mp scheduled
  obtain ⟨trace, run⟩ := Run.start.schedule reached
  have bound := bounded smallestShop (by decide) trace state run
  rw [rack] at bound
  exact absurd bound (by decide)

end KernelHacking.BurgerBuddies
