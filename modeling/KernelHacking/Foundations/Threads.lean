/-
Module: KernelHacking.Foundations.Threads
Layer: Foundations
Purpose: Threads that synchronise through mutexes and counting semaphores. A program gives every
  thread one command per program counter; a state interleaves them one command at a time, so the
  runs of a program are all its interleavings. The module supplies the rules the developments above
  it use: the effect of one command (`next_cases`, `next_fields`) and its frame (`next_pc_of_ne`,
  `next_steady`), induction over runs (`Run.invariant`), the lock discipline (`LockedBy`,
  `Respects.step`), the phase of the thread inside a critical section (`phaseOf_step`), and a measure
  rule for "some continuation reaches the goal" (`reaches_goal`).
Imports: Mathlib.Logic.Function.Basic, Mathlib.Logic.Relation
Trusted boundary: none (fully proved)
Main exports: Command, Program, State, next, Run, RunWhere, runSchedule, Respects, LockedBy,
  phaseOf, reaches_goal
Open obligations: none
-/
import Mathlib.Logic.Function.Basic
import Mathlib.Logic.Relation

namespace KernelHacking.Threads

/-- One atomic statement of a thread. `run` is a statement over the shared variables: it reads and
    writes them at once and picks the next program counter from the values it read. -/
inductive Command (Mutex Semaphore Shared Pc : Type) where
  | lock (mutex : Mutex) (next : Pc)
  | unlock (mutex : Mutex) (next : Pc)
  | wait (semaphore : Semaphore) (next : Pc)
  | post (semaphore : Semaphore) (next : Pc)
  | run (effect : Shared → Shared) (next : Shared → Pc)
  | exit

/-- A program: the command of each thread at each of its program counters. The type of program
    counters may depend on the thread, so a thread cannot stand in another thread's code. -/
abbrev Program (Thread Mutex Semaphore Shared : Type) (Pc : Thread → Type) :=
  (thread : Thread) → Pc thread → Command Mutex Semaphore Shared (Pc thread)

/-- A global state of the threads. -/
structure State (Thread Mutex Semaphore Shared : Type) (Pc : Thread → Type) where
  pc : (thread : Thread) → Pc thread
  owner : Mutex → Option Thread
  value : Semaphore → Nat
  shared : Shared

variable {Thread Mutex Semaphore Shared : Type} {Pc : Thread → Type}
variable [DecidableEq Thread] [DecidableEq Mutex] [DecidableEq Semaphore]

/-- Move one thread to another program counter. -/
def State.goto (state : State Thread Mutex Semaphore Shared Pc) (thread : Thread)
    (target : Pc thread) : State Thread Mutex Semaphore Shared Pc :=
  { state with pc := Function.update state.pc thread target }

/-- One step of one thread, or `none` while the thread is blocked or has exited. A lock blocks while
    the mutex has an owner and a wait blocks while the semaphore is zero. -/
def next (program : Program Thread Mutex Semaphore Shared Pc)
    (state : State Thread Mutex Semaphore Shared Pc) (thread : Thread) :
    Option (State Thread Mutex Semaphore Shared Pc) :=
  match program thread (state.pc thread) with
  | .lock mutex target =>
      if state.owner mutex = none then
        some { state.goto thread target with
          owner := Function.update state.owner mutex (some thread) }
      else none
  | .unlock mutex target =>
      some { state.goto thread target with owner := Function.update state.owner mutex none }
  | .wait semaphore target =>
      if state.value semaphore = 0 then none
      else
        some { state.goto thread target with
          value := Function.update state.value semaphore (state.value semaphore - 1) }
  | .post semaphore target =>
      some { state.goto thread target with
        value := Function.update state.value semaphore (state.value semaphore + 1) }
  | .run effect target =>
      some { state.goto thread (target state.shared) with shared := effect state.shared }
  | .exit => none

/-- Where a command sends its thread. -/
def Command.target {Pc : Type} : Command Mutex Semaphore Shared Pc → Shared → Option Pc
  | .lock _ target, _ | .unlock _ target, _ | .wait _ target, _ | .post _ target, _ => some target
  | .run _ target, shared => some (target shared)
  | .exit, _ => none

/-- What a command does to the shared variables. -/
def Command.effect {Pc : Type} : Command Mutex Semaphore Shared Pc → Shared → Shared
  | .run effect _, shared => effect shared
  | _, shared => shared

/-- What a command does to the semaphores. -/
def Command.signal {Pc : Type} :
    Command Mutex Semaphore Shared Pc → (Semaphore → Nat) → Semaphore → Nat
  | .wait semaphore _, value => Function.update value semaphore (value semaphore - 1)
  | .post semaphore _, value => Function.update value semaphore (value semaphore + 1)
  | _, value => value

/-- What a command waits for. -/
def Command.ready {Pc : Type} : Command Mutex Semaphore Shared Pc →
    (Mutex → Option Thread) → (Semaphore → Nat) → Prop
  | .lock mutex _, owner, _ => owner mutex = none
  | .wait semaphore _, _, value => value semaphore ≠ 0
  | .exit, _, _ => False
  | _, _, _ => True

/-- A label names the thread that moved and the statement it executed. -/
abbrev Label {Thread : Type} (Pc : Thread → Type) := (thread : Thread) × Pc thread

/-- The finite runs of a program from a start state, with the labels of their steps in order. -/
inductive Run (program : Program Thread Mutex Semaphore Shared Pc)
    (start : State Thread Mutex Semaphore Shared Pc) :
    List (Label Pc) → State Thread Mutex Semaphore Shared Pc → Prop where
  | start : Run program start [] start
  | step {trace : List (Label Pc)} {before after : State Thread Mutex Semaphore Shared Pc}
      {thread : Thread} (run : Run program start trace before)
      (moved : next program before thread = some after) :
      Run program start (trace ++ [⟨thread, before.pc thread⟩]) after

/-- The runs all of whose steps meet a condition on the state before the step and the thread that
    moves. -/
inductive RunWhere (program : Program Thread Mutex Semaphore Shared Pc)
    (start : State Thread Mutex Semaphore Shared Pc)
    (allowed : State Thread Mutex Semaphore Shared Pc → Thread → Prop) :
    List (Label Pc) → State Thread Mutex Semaphore Shared Pc → Prop where
  | start : RunWhere program start allowed [] start
  | step {trace : List (Label Pc)} {before after : State Thread Mutex Semaphore Shared Pc}
      {thread : Thread} (run : RunWhere program start allowed trace before)
      (meets : allowed before thread) (moved : next program before thread = some after) :
      RunWhere program start allowed (trace ++ [⟨thread, before.pc thread⟩]) after

/-- Run a schedule: let the listed threads move in turn, or fail at the first one that is blocked. -/
def runSchedule (program : Program Thread Mutex Semaphore Shared Pc) :
    List Thread → State Thread Mutex Semaphore Shared Pc →
      Option (State Thread Mutex Semaphore Shared Pc)
  | [], state => some state
  | thread :: rest, state => (next program state thread).bind (runSchedule program rest)

/-- Run a schedule as long as every step meets a condition. -/
def runScheduleWhere (program : Program Thread Mutex Semaphore Shared Pc)
    (allowed : State Thread Mutex Semaphore Shared Pc → Thread → Prop)
    [∀ state thread, Decidable (allowed state thread)] :
    List Thread → State Thread Mutex Semaphore Shared Pc →
      Option (State Thread Mutex Semaphore Shared Pc)
  | [], state => some state
  | thread :: rest, state =>
      if allowed state thread then
        (next program state thread).bind (runScheduleWhere program allowed rest)
      else none

/-- Some continuation of the first state ends in the second. -/
def Reaches (program : Program Thread Mutex Semaphore Shared Pc) :
    State Thread Mutex Semaphore Shared Pc → State Thread Mutex Semaphore Shared Pc → Prop :=
  Relation.ReflTransGen fun before after => ∃ thread, next program before thread = some after

section Steps

variable {program : Program Thread Mutex Semaphore Shared Pc}
variable {before after : State Thread Mutex Semaphore Shared Pc} {thread : Thread}

omit [DecidableEq Mutex] [DecidableEq Semaphore] in
@[simp] theorem goto_pc_self (state : State Thread Mutex Semaphore Shared Pc) (thread : Thread)
    (target : Pc thread) : (state.goto thread target).pc thread = target := by
  simp [State.goto]

omit [DecidableEq Mutex] [DecidableEq Semaphore] in
@[simp] theorem goto_pc_of_ne (state : State Thread Mutex Semaphore Shared Pc)
    {thread other : Thread} (different : other ≠ thread) (target : Pc thread) :
    (state.goto thread target).pc other = state.pc other := by
  simp [State.goto, different]

omit [DecidableEq Mutex] [DecidableEq Semaphore] in
@[simp] theorem goto_owner (state : State Thread Mutex Semaphore Shared Pc) (thread : Thread)
    (target : Pc thread) : (state.goto thread target).owner = state.owner := rfl

omit [DecidableEq Mutex] [DecidableEq Semaphore] in
@[simp] theorem goto_value (state : State Thread Mutex Semaphore Shared Pc) (thread : Thread)
    (target : Pc thread) : (state.goto thread target).value = state.value := rfl

omit [DecidableEq Mutex] [DecidableEq Semaphore] in
@[simp] theorem goto_shared (state : State Thread Mutex Semaphore Shared Pc) (thread : Thread)
    (target : Pc thread) : (state.goto thread target).shared = state.shared := rfl

/-- Everything one step can do: the five commands that move, each with its guard and its effect. -/
theorem next_cases (moved : next program before thread = some after) :
    (∃ mutex target, program thread (before.pc thread) = .lock mutex target ∧
      before.owner mutex = none ∧
      after = { before.goto thread target with
        owner := Function.update before.owner mutex (some thread) }) ∨
    (∃ mutex target, program thread (before.pc thread) = .unlock mutex target ∧
      after = { before.goto thread target with
        owner := Function.update before.owner mutex none }) ∨
    (∃ semaphore target, program thread (before.pc thread) = .wait semaphore target ∧
      before.value semaphore ≠ 0 ∧
      after = { before.goto thread target with
        value := Function.update before.value semaphore (before.value semaphore - 1) }) ∨
    (∃ semaphore target, program thread (before.pc thread) = .post semaphore target ∧
      after = { before.goto thread target with
        value := Function.update before.value semaphore (before.value semaphore + 1) }) ∨
    (∃ effect target, program thread (before.pc thread) = .run effect target ∧
      after = { before.goto thread (target before.shared) with
        shared := effect before.shared }) := by
  unfold next at moved
  split at moved
  case h_1 mutex target command =>
    split at moved
    · rename_i free
      exact .inl ⟨mutex, target, command, free, (Option.some.inj moved).symm⟩
    · cases moved
  case h_2 mutex target command =>
    exact .inr (.inl ⟨mutex, target, command, (Option.some.inj moved).symm⟩)
  case h_3 semaphore target command =>
    split at moved
    · cases moved
    · rename_i positive
      exact .inr (.inr (.inl
        ⟨semaphore, target, command, positive, (Option.some.inj moved).symm⟩))
  case h_4 semaphore target command =>
    exact .inr (.inr (.inr (.inl ⟨semaphore, target, command, (Option.some.inj moved).symm⟩)))
  case h_5 effect target command =>
    exact .inr (.inr (.inr (.inr ⟨effect, target, command, (Option.some.inj moved).symm⟩)))
  case h_6 => cases moved

/-- One step, field by field: with the program counter known, the command computes each of them. -/
theorem next_fields (moved : next program before thread = some after) :
    (program thread (before.pc thread)).ready before.owner before.value ∧
    (program thread (before.pc thread)).target before.shared = some (after.pc thread) ∧
    after.shared = (program thread (before.pc thread)).effect before.shared ∧
    after.value = (program thread (before.pc thread)).signal before.value := by
  rcases next_cases moved with ⟨_, target, command, free, rfl⟩ | ⟨_, target, command, rfl⟩ |
    ⟨_, target, command, positive, rfl⟩ | ⟨_, target, command, rfl⟩ | ⟨_, target, command, rfl⟩
  · simp [command, free, Command.ready, Command.target, Command.effect, Command.signal]
  · simp [command, Command.ready, Command.target, Command.effect, Command.signal]
  · simp [command, positive, Command.ready, Command.target, Command.effect, Command.signal]
  · simp [command, Command.ready, Command.target, Command.effect, Command.signal]
  · simp [command, Command.ready, Command.target, Command.effect, Command.signal]

/-- A thread whose command is ready can move. -/
theorem exists_next_of_ready
    (ready : (program thread (before.pc thread)).ready before.owner before.value) :
    ∃ after, next program before thread = some after := by
  cases command : program thread (before.pc thread) with
  | lock mutex target =>
      rw [command] at ready
      exact ⟨_, by simp only [next, command]; exact if_pos ready⟩
  | wait semaphore target =>
      rw [command] at ready
      exact ⟨_, by simp only [next, command]; exact if_neg ready⟩
  | unlock mutex target => exact ⟨_, by simp only [next, command]; rfl⟩
  | post semaphore target => exact ⟨_, by simp only [next, command]; rfl⟩
  | run effect target => exact ⟨_, by simp only [next, command]; rfl⟩
  | exit =>
      rw [command] at ready
      exact ready.elim

/-- A thread other than the one that moved stays where it was. -/
theorem next_pc_of_ne (moved : next program before thread = some after) {other : Thread}
    (different : other ≠ thread) : after.pc other = before.pc other := by
  rcases next_cases moved with ⟨_, target, _, _, rfl⟩ | ⟨_, target, _, rfl⟩ |
    ⟨_, target, _, _, rfl⟩ | ⟨_, target, _, rfl⟩ | ⟨_, target, _, rfl⟩
  all_goals exact goto_pc_of_ne before different _

/-- What is read off the program counters of a family of threads stays, as long as the thread that
    moved keeps its part of it. -/
theorem next_steady {Index Reading : Type} (member : Index → Thread)
    (reading : (index : Index) → Pc (member index) → Reading)
    (moved : next program before thread = some after)
    (steady : ∀ index, thread = member index →
      reading index (after.pc (member index)) = reading index (before.pc (member index)))
    (index : Index) :
    reading index (after.pc (member index)) = reading index (before.pc (member index)) := by
  by_cases moves : thread = member index
  · exact steady index moves
  · rw [next_pc_of_ne moved (Ne.symm moves)]

end Steps

section Runs

variable {program : Program Thread Mutex Semaphore Shared Pc}
variable {start : State Thread Mutex Semaphore Shared Pc}

/-- A property of the start state that every step preserves holds wherever a run ends. -/
theorem Run.invariant {holds : State Thread Mutex Semaphore Shared Pc → Prop}
    (initially : holds start)
    (preserved : ∀ {before after thread}, holds before →
      next program before thread = some after → holds after)
    {trace : List (Label Pc)} {state : State Thread Mutex Semaphore Shared Pc}
    (run : Run program start trace state) : holds state := by
  induction run with
  | start => exact initially
  | step _ moved inductionHypothesis => exact preserved inductionHypothesis moved

/-- A run whose steps meet a condition is a run. -/
theorem RunWhere.run {allowed : State Thread Mutex Semaphore Shared Pc → Thread → Prop}
    {trace : List (Label Pc)} {state : State Thread Mutex Semaphore Shared Pc}
    (runWhere : RunWhere program start allowed trace state) : Run program start trace state := by
  induction runWhere with
  | start => exact .start
  | step _ _ moved inductionHypothesis => exact inductionHypothesis.step moved

/-- A schedule all of whose steps meet the condition extends a run of that kind. -/
theorem RunWhere.schedule {allowed : State Thread Mutex Semaphore Shared Pc → Thread → Prop}
    [∀ state thread, Decidable (allowed state thread)] {threads : List Thread}
    {trace : List (Label Pc)} {state final : State Thread Mutex Semaphore Shared Pc}
    (run : RunWhere program start allowed trace state)
    (scheduled : runScheduleWhere program allowed threads state = some final) :
    ∃ longer, RunWhere program start allowed longer final := by
  induction threads generalizing trace state with
  | nil =>
      cases scheduled
      exact ⟨trace, run⟩
  | cons thread rest inductionHypothesis =>
      by_cases meets : allowed state thread
      · rw [runScheduleWhere, if_pos meets] at scheduled
        obtain ⟨middle, moved, scheduled⟩ := Option.bind_eq_some_iff.mp scheduled
        exact inductionHypothesis (run.step meets moved) scheduled
      · rw [runScheduleWhere, if_neg meets] at scheduled
        cases scheduled

/-- A schedule that never meets a blocked thread extends a run. -/
theorem Run.schedule {threads : List Thread} {trace : List (Label Pc)}
    {state final : State Thread Mutex Semaphore Shared Pc} (run : Run program start trace state)
    (scheduled : runSchedule program threads state = some final) :
    ∃ longer, Run program start longer final := by
  induction threads generalizing trace state with
  | nil =>
      cases scheduled
      exact ⟨trace, run⟩
  | cons thread rest inductionHypothesis =>
      obtain ⟨middle, moved, scheduled⟩ := Option.bind_eq_some_iff.mp scheduled
      exact inductionHypothesis (run.step moved) scheduled

/-- A run can be continued along any continuation of its last state. -/
theorem Run.extend {trace : List (Label Pc)}
    {state final : State Thread Mutex Semaphore Shared Pc}
    (run : Run program start trace state) (reaches : Reaches program state final) :
    ∃ rest, Run program start (trace ++ rest) final := by
  induction reaches with
  | refl => exact ⟨[], by simpa using run⟩
  | tail _ moved inductionHypothesis =>
      obtain ⟨rest, longer⟩ := inductionHypothesis
      obtain ⟨thread, moved⟩ := moved
      exact ⟨rest ++ [⟨thread, _⟩], by simpa using longer.step moved⟩

/-- Measure rule for reachability. If every good state that misses the goal has a continuation to a
    good state of smaller measure, then every good state has a continuation to the goal. -/
theorem reaches_goal (good goal : State Thread Mutex Semaphore Shared Pc → Prop)
    (measure : State Thread Mutex Semaphore Shared Pc → Nat)
    (advance : ∀ state, good state → ¬ goal state →
      ∃ later, Reaches program state later ∧ good later ∧ measure later < measure state)
    (state : State Thread Mutex Semaphore Shared Pc) (isGood : good state) :
    ∃ final, Reaches program state final ∧ goal final := by
  induction bound : measure state using Nat.strongRecOn generalizing state with
  | ind size inductionHypothesis =>
      by_cases reached : goal state
      · exact ⟨state, .refl, reached⟩
      · obtain ⟨later, path, laterGood, smaller⟩ := advance state isGood reached
        obtain ⟨final, rest, atGoal⟩ :=
          inductionHypothesis (measure later) (bound ▸ smaller) later laterGood rfl
        exact ⟨final, path.trans rest, atGoal⟩

end Runs

/-! ### Lock discipline

A program respects a table that says which mutexes a thread owns at each of its program counters if
every command moves the table the way it moves the mutex. The owner of a mutex is then determined by
the program counters alone, and two threads never stand in one critical section. -/

/-- The table `holds` describes the locking of `program`. -/
def Respects (program : Program Thread Mutex Semaphore Shared Pc)
    (holds : (thread : Thread) → Pc thread → Mutex → Bool) : Prop :=
  ∀ thread (pc : Pc thread),
    match program thread pc with
    | .lock mutex target =>
        ∀ other, holds thread target other = (holds thread pc other || decide (other = mutex))
    | .unlock mutex target =>
        holds thread pc mutex = true ∧
          ∀ other, holds thread target other = (holds thread pc other && decide (other ≠ mutex))
    | .wait _ target => ∀ other, holds thread target other = holds thread pc other
    | .post _ target => ∀ other, holds thread target other = holds thread pc other
    | .run _ target => ∀ shared other, holds thread (target shared) other = holds thread pc other
    | .exit => True

/-- The owner of every mutex is the thread whose program counter says so. -/
def LockedBy (holds : (thread : Thread) → Pc thread → Mutex → Bool)
    (state : State Thread Mutex Semaphore Shared Pc) : Prop :=
  ∀ mutex thread, state.owner mutex = some thread ↔ holds thread (state.pc thread) mutex = true

section Locks

variable {program : Program Thread Mutex Semaphore Shared Pc}
variable {holds : (thread : Thread) → Pc thread → Mutex → Bool}
variable {before after : State Thread Mutex Semaphore Shared Pc} {thread : Thread}

omit [DecidableEq Thread] [DecidableEq Mutex] [DecidableEq Semaphore] in
/-- At most one thread stands where a mutex is held. -/
theorem LockedBy.exclusive {state : State Thread Mutex Semaphore Shared Pc}
    (locked : LockedBy holds state) {mutex : Mutex} {first second : Thread}
    (one : holds first (state.pc first) mutex = true)
    (two : holds second (state.pc second) mutex = true) : first = second := by
  have same := ((locked mutex first).mpr one).symm.trans ((locked mutex second).mpr two)
  exact Option.some.inj same

omit [DecidableEq Thread] [DecidableEq Mutex] [DecidableEq Semaphore] in
/-- A mutex that nobody holds is free. -/
theorem LockedBy.free {state : State Thread Mutex Semaphore Shared Pc}
    (locked : LockedBy holds state) {mutex : Mutex}
    (nobody : ∀ thread, holds thread (state.pc thread) mutex ≠ true) : state.owner mutex = none := by
  cases owned : state.owner mutex with
  | none => rfl
  | some thread => exact absurd ((locked mutex thread).mp owned) (nobody thread)

omit [DecidableEq Thread] [DecidableEq Mutex] [DecidableEq Semaphore] in
/-- A thread inside a critical section is not the one outside. -/
theorem ne_of_holds {state : State Thread Mutex Semaphore Shared Pc} {mutex : Mutex}
    {first second : Thread} (inside : holds first (state.pc first) mutex = true)
    (outside : holds second (state.pc second) mutex = false) : first ≠ second := by
  rintro rfl
  rw [inside] at outside
  cases outside

omit [DecidableEq Mutex] [DecidableEq Semaphore] in
/-- Moving a thread inside its critical sections keeps the owners right. -/
private theorem LockedBy.goto (locked : LockedBy holds before) {target : Pc thread}
    (same : ∀ other, holds thread target other = holds thread (before.pc thread) other) :
    LockedBy holds (before.goto thread target) := by
  intro mutex other
  by_cases isThread : other = thread
  · subst other
    simpa [same] using locked mutex thread
  · simpa [isThread] using locked mutex other

/-- Every step of a program that respects the table keeps the owners right. -/
theorem Respects.step (respects : Respects program holds) (locked : LockedBy holds before)
    (moved : next program before thread = some after) : LockedBy holds after := by
  have rule := respects thread (before.pc thread)
  rcases next_cases moved with ⟨mutex, target, command, free, rfl⟩ | ⟨mutex, target, command, rfl⟩ |
    ⟨semaphore, target, command, _, rfl⟩ | ⟨semaphore, target, command, rfl⟩ |
    ⟨effect, target, command, rfl⟩
  · -- lock: nobody owned the mutex, so no other thread stands where it is held
    simp only [command] at rule
    have notHeld : ∀ other, holds other (before.pc other) mutex = false := by
      intro other
      have := locked mutex other
      simp [free] at this
      exact this
    intro candidate other
    by_cases isMutex : candidate = mutex
    · subst candidate
      by_cases isThread : other = thread
      · subst other
        simp [rule]
      · simp [isThread, notHeld other, Ne.symm isThread]
    · by_cases isThread : other = thread
      · subst other
        simpa [rule, isMutex] using locked candidate thread
      · simpa [isThread, isMutex] using locked candidate other
  · -- unlock: the moving thread owned the mutex, so nobody else stands where it is held
    simp only [command] at rule
    obtain ⟨held, rule⟩ := rule
    intro candidate other
    by_cases isMutex : candidate = mutex
    · subst candidate
      by_cases isThread : other = thread
      · subst other
        simp [rule]
      · have notHeld : holds other (before.pc other) mutex ≠ true := fun otherHeld =>
          isThread (locked.exclusive otherHeld held)
        simpa [isThread] using notHeld
    · by_cases isThread : other = thread
      · subst other
        simpa [rule, isMutex] using locked candidate thread
      · simpa [isThread, isMutex] using locked candidate other
  · simp only [command] at rule
    exact locked.goto rule
  · simp only [command] at rule
    exact locked.goto rule
  · simp only [command] at rule
    exact locked.goto (rule before.shared)

/-- A step of a thread that is outside a critical section before and after it leaves the owner of
    the mutex alone. -/
theorem owner_eq_of_outside (respects : Respects program holds) (locked : LockedBy holds before)
    (moved : next program before thread = some after) {mutex : Mutex}
    (outsideBefore : holds thread (before.pc thread) mutex = false)
    (outsideAfter : holds thread (after.pc thread) mutex = false) :
    after.owner mutex = before.owner mutex := by
  have lockedAfter := respects.step locked moved
  apply Option.ext
  intro other
  rw [locked mutex other, lockedAfter mutex other]
  by_cases isThread : other = thread
  · subst isThread
    rw [outsideBefore, outsideAfter]
  · rw [next_pc_of_ne moved isThread]

end Locks

/-! ### The thread inside a critical section

For a mutex that guards a stretch of code, what matters to the other threads is how far its owner
has got. `phaseOf` reads that off the owner, and is `idle` while the mutex is free. -/

/-- The phase of the owner of a mutex. -/
def phaseOf {Phase : Type} (phase : (thread : Thread) → Pc thread → Phase) (idle : Phase)
    (mutex : Mutex) (state : State Thread Mutex Semaphore Shared Pc) : Phase :=
  match state.owner mutex with
  | some thread => phase thread (state.pc thread)
  | none => idle

section Phases

variable {Phase : Type} {phase : (thread : Thread) → Pc thread → Phase} {idle : Phase}
variable {holds : (thread : Thread) → Pc thread → Mutex → Bool} {mutex : Mutex}

/-- Outside the critical section a thread has no phase of its own. -/
def IdleOutside (phase : (thread : Thread) → Pc thread → Phase) (idle : Phase)
    (holds : (thread : Thread) → Pc thread → Mutex → Bool) (mutex : Mutex) : Prop :=
  ∀ thread pc, holds thread pc mutex = false → phase thread pc = idle

omit [DecidableEq Thread] [DecidableEq Mutex] [DecidableEq Semaphore] in
/-- The phase of a critical section is the phase of the thread that stands in it. -/
theorem phaseOf_of_holds {state : State Thread Mutex Semaphore Shared Pc}
    (locked : LockedBy holds state) {thread : Thread}
    (held : holds thread (state.pc thread) mutex = true) :
    phaseOf phase idle mutex state = phase thread (state.pc thread) := by
  simp [phaseOf, (locked mutex thread).mpr held]

omit [DecidableEq Thread] [DecidableEq Mutex] [DecidableEq Semaphore] in
/-- A critical section that is not idle has a thread in it. -/
theorem exists_of_phaseOf_ne {state : State Thread Mutex Semaphore Shared Pc}
    (locked : LockedBy holds state) (busy : phaseOf phase idle mutex state ≠ idle) :
    ∃ thread, holds thread (state.pc thread) mutex = true ∧
      phaseOf phase idle mutex state = phase thread (state.pc thread) := by
  cases owned : state.owner mutex with
  | none => simp [phaseOf, owned] at busy
  | some thread => exact ⟨thread, (locked mutex thread).mp owned, by simp [phaseOf, owned]⟩

/-- One step seen from a critical section. Either the section now has the phase of the thread that
    moved, as it had before, or that thread is outside and the section does not notice. -/
theorem phaseOf_step {program : Program Thread Mutex Semaphore Shared Pc}
    {before after : State Thread Mutex Semaphore Shared Pc} {thread : Thread}
    (outside : IdleOutside phase idle holds mutex) (respects : Respects program holds)
    (locked : LockedBy holds before) (moved : next program before thread = some after) :
    (phaseOf phase idle mutex before = phase thread (before.pc thread) ∧
      phaseOf phase idle mutex after = phase thread (after.pc thread)) ∨
    (phaseOf phase idle mutex after = phaseOf phase idle mutex before ∧
      phase thread (before.pc thread) = idle ∧ phase thread (after.pc thread) = idle) := by
  have lockedAfter := respects.step locked moved
  cases heldBefore : holds thread (before.pc thread) mutex with
  | true =>
      left
      refine ⟨phaseOf_of_holds locked heldBefore, ?_⟩
      cases heldAfter : holds thread (after.pc thread) mutex with
      | true => exact phaseOf_of_holds lockedAfter heldAfter
      | false =>
          -- the thread has just left, and nobody else can be inside
          rw [outside thread _ heldAfter]
          by_contra busy
          obtain ⟨other, held, _⟩ := exists_of_phaseOf_ne lockedAfter busy
          have different := ne_of_holds held heldAfter
          rw [next_pc_of_ne moved different] at held
          exact different (locked.exclusive held heldBefore)
  | false =>
      have idleBefore := outside thread _ heldBefore
      cases heldAfter : holds thread (after.pc thread) mutex with
      | true =>
          -- the thread has just entered, so the section was empty
          left
          refine ⟨?_, phaseOf_of_holds lockedAfter heldAfter⟩
          rw [idleBefore]
          by_contra busy
          obtain ⟨other, held, _⟩ := exists_of_phaseOf_ne locked busy
          have different := ne_of_holds held heldBefore
          rw [← next_pc_of_ne moved different] at held
          exact different (lockedAfter.exclusive held heldAfter)
      | false =>
          right
          refine ⟨?_, idleBefore, outside thread _ heldAfter⟩
          have sameOwner := owner_eq_of_outside respects locked moved heldBefore heldAfter
          cases owned : before.owner mutex with
          | none => simp only [phaseOf, sameOwner, owned]
          | some other =>
              have different := ne_of_holds ((locked mutex other).mp owned) heldBefore
              simp only [phaseOf, sameOwner, owned, next_pc_of_ne moved different]

/-- A step outside the section's phases does not change its phase. -/
theorem phaseOf_step_idle {program : Program Thread Mutex Semaphore Shared Pc}
    {before after : State Thread Mutex Semaphore Shared Pc} {thread : Thread}
    (outside : IdleOutside phase idle holds mutex) (respects : Respects program holds)
    (locked : LockedBy holds before) (moved : next program before thread = some after)
    (idleBefore : phase thread (before.pc thread) = idle)
    (idleAfter : phase thread (after.pc thread) = idle) :
    phaseOf phase idle mutex after = phaseOf phase idle mutex before := by
  rcases phaseOf_step outside respects locked moved with ⟨phaseBefore, phaseAfter⟩ | ⟨same, _, _⟩
  · rw [phaseBefore, phaseAfter, idleBefore, idleAfter]
  · exact same

/-- A step into, inside or out of the section's phases is seen as such. -/
theorem phaseOf_step_busy {program : Program Thread Mutex Semaphore Shared Pc}
    {before after : State Thread Mutex Semaphore Shared Pc} {thread : Thread}
    (outside : IdleOutside phase idle holds mutex) (respects : Respects program holds)
    (locked : LockedBy holds before) (moved : next program before thread = some after)
    (busy : phase thread (before.pc thread) ≠ idle ∨ phase thread (after.pc thread) ≠ idle) :
    phaseOf phase idle mutex before = phase thread (before.pc thread) ∧
      phaseOf phase idle mutex after = phase thread (after.pc thread) := by
  rcases phaseOf_step outside respects locked moved with both | ⟨_, idleBefore, idleAfter⟩
  · exact both
  · rcases busy with busy | busy
    · exact absurd idleBefore busy
    · exact absurd idleAfter busy

end Phases

end KernelHacking.Threads
