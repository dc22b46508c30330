/-
Module: KernelHacking.Foundations.Handoff
Layer: Foundations
Purpose: The sleeping-consumer handoff. A producer adds units to a level and a consumer removes them.
  A consumer that finds the level empty raises a waiter count and sleeps on a counting semaphore; a
  producer that lifts the level from zero to one while somebody waits lowers the count and posts the
  semaphore. `Inv` says why no wakeup is lost and why a consumer that wakes up finds a unit:
  the waiter count, the post in progress and the tokens add up to one exactly while the consumer
  sleeps, and an unanswered waiter means that the level is empty.
Imports: none (Mathlib-free)
Trusted boundary: none (fully proved)
Main exports: Producer, Consumer, State, Step, Inv, Inv.step, Inv.simulated
Open obligations: none
-/

namespace KernelHacking.Handoff

/-- How far the producer has got since it last added a unit. -/
inductive Producer where
  | idle
  /-- A unit was added; the level and the waiter count have not been tested yet. -/
  | added
  /-- The test found a waiter; its count is about to be lowered. -/
  | lowering
  /-- The count was lowered; the semaphore is about to be posted. -/
  | posting
deriving DecidableEq, Repr

/-- How far the consumer has got towards taking a unit. -/
inductive Consumer where
  | idle
  /-- The level was found empty; the waiter count is about to be raised. -/
  | sawEmpty
  /-- The waiter count was raised; the consumer has not returned from the semaphore yet. -/
  | sleeping
  /-- A unit is there for the consumer. -/
  | awake
deriving DecidableEq, Repr

/-- The shared counters, with the phases of the two parties. -/
structure State where
  level : Int
  waiters : Int
  tokens : Nat
  producer : Producer
  consumer : Consumer
deriving DecidableEq, Repr

/-- One move of either party. The two guards on the other party's phase are what a common lock
    around the level provides. -/
inductive Step : State → State → Prop where
  | add {state : State} (idle : state.producer = .idle) (unlocked : state.consumer ≠ .sawEmpty) :
      Step state { state with level := state.level + 1, producer := .added }
  | signal {state : State} (added : state.producer = .added) (first : state.level = 1)
      (waiting : state.waiters ≠ 0) :
      Step state { state with producer := .lowering }
  | skip {state : State} (added : state.producer = .added)
      (none : ¬ (state.level = 1 ∧ state.waiters ≠ 0)) :
      Step state { state with producer := .idle }
  | lower {state : State} (lowering : state.producer = .lowering) :
      Step state { state with waiters := state.waiters - 1, producer := .posting }
  | post {state : State} (posting : state.producer = .posting) :
      Step state { state with tokens := state.tokens + 1, producer := .idle }
  | findEmpty {state : State} (idle : state.consumer = .idle) (unlocked : state.producer = .idle)
      (empty : state.level = 0) :
      Step state { state with consumer := .sawEmpty }
  | findUnit {state : State} (idle : state.consumer = .idle) (found : state.level ≠ 0) :
      Step state { state with consumer := .awake }
  | raise {state : State} (empty : state.consumer = .sawEmpty) :
      Step state { state with waiters := state.waiters + 1, consumer := .sleeping }
  | wake {state : State} (sleeping : state.consumer = .sleeping) (token : state.tokens ≠ 0) :
      Step state { state with tokens := state.tokens - 1, consumer := .awake }
  | take {state : State} (awake : state.consumer = .awake) (unlocked : state.producer = .idle) :
      Step state { state with level := state.level - 1, consumer := .idle }

/-- A post in progress counts as one token. -/
def State.posts (state : State) : Int := if state.producer = .posting then 1 else 0

/-- A sleeping consumer counts as one outstanding wait. -/
def State.sleepers (state : State) : Int := if state.consumer = .sleeping then 1 else 0

/-- The handoff invariant. -/
structure Inv (state : State) : Prop where
  level_nonneg : 0 ≤ state.level
  waiters_nonneg : 0 ≤ state.waiters
  balance : state.waiters + state.posts + state.tokens = state.sleepers
  empty : state.consumer = .sawEmpty → state.level = 0 ∧ state.producer = .idle
  unit : state.consumer = .awake → 1 ≤ state.level
  answered : 0 < state.posts + state.tokens → 1 ≤ state.level
  unanswered : state.waiters ≠ 0 →
    (state.level = 0 ∧ state.producer = .idle) ∨
      (state.level = 1 ∧ (state.producer = .added ∨ state.producer = .lowering))
  lowering : state.producer = .lowering → state.waiters ≠ 0
  added : state.producer = .added → 1 ≤ state.level

/-- The counters start at zero with both parties idle. -/
theorem Inv.initial : Inv ⟨0, 0, 0, .idle, .idle⟩ := by
  constructor <;> simp [State.posts, State.sleepers]

/-- Every move keeps the invariant. -/
theorem Inv.step {before after : State} (inv : Inv before) (step : Step before after) :
    Inv after := by
  obtain ⟨levelNonneg, waitersNonneg, balance, empty, unit, answered, unanswered, lowering, added⟩ :=
    inv
  cases step with
  | add idle unlocked =>
      constructor <;> grind [State.posts, State.sleepers]
  | signal isAdded first waiting =>
      constructor <;> grind [State.posts, State.sleepers]
  | skip isAdded none =>
      constructor <;> grind [State.posts, State.sleepers]
  | lower isLowering =>
      -- somebody waits, so the consumer sleeps and this is the only answer it gets
      have waiting := lowering isLowering
      constructor <;> grind [State.posts, State.sleepers]
  | post posting =>
      constructor <;> grind [State.posts, State.sleepers]
  | findEmpty idle unlocked isEmpty =>
      constructor <;> grind [State.posts, State.sleepers]
  | findUnit idle found =>
      constructor <;> grind [State.posts, State.sleepers]
  | raise isEmpty =>
      -- an awake or idle consumer has no answer outstanding, so the count was zero
      constructor <;> grind [State.posts, State.sleepers]
  | wake sleeping token =>
      constructor <;> grind [State.posts, State.sleepers]
  | take awake unlocked =>
      constructor <;> grind [State.posts, State.sleepers]

/-- A system whose steps are moves of the handoff or leave it alone keeps the invariant. -/
theorem Inv.simulated {before after : State} (inv : Inv before)
    (step : after = before ∨ Step before after) : Inv after := by
  rcases step with rfl | step
  · exact inv
  · exact inv.step step

end KernelHacking.Handoff
