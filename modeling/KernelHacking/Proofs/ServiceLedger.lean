/-
Module: KernelHacking.Proofs.ServiceLedger
Layer: Proofs
Purpose: Who was served by whom. The statements of a run keep an order book: a call opens an order at a
  cashier, the cashier accepts it, and the next burger the cashier takes off the rack is for that
  order. The book balances in every reachable state (`LedgerInv`): every customer that has called is
  waiting to be accepted, has its order accepted, or has got one burger from the cashier it was
  assigned. So every customer is served exactly once, and the shop closes once, after the last one.
Imports: KernelHacking.Proofs.OrderFlow
Trusted boundary: none (fully proved)
Main exports: Ledger, Ledger.record, ledger, LedgerInv, Closing, Served, run_served, run_served_closing
Open obligations: none
-/
import KernelHacking.Proofs.OrderFlow

namespace KernelHacking.BurgerBuddies

open Threads

/-- The order book of a run. -/
structure Ledger (shop : Shop) where
  /-- The customer that has called a cashier and whose order is not accepted yet. -/
  calling : Fin shop.cashiers → Option (Fin shop.customers)
  /-- The customer whose order a cashier has accepted and not taken a burger for yet. -/
  order : Fin shop.cashiers → Option (Fin shop.customers)
  /-- How many burgers a cashier has taken off the rack for a customer. -/
  burgers : Fin shop.customers → Fin shop.cashiers → Nat

variable {shop : Shop}

/-- The book before the first customer. -/
def Ledger.empty : Ledger shop := ⟨fun _ => none, fun _ => none, fun _ _ => 0⟩

/-- What one statement writes into the book. -/
def Ledger.record (book : Ledger shop) : Label (@Pc shop) → Ledger shop
  | ⟨.customer customer, .postAvailable serverID⟩ =>
      { book with calling := fun index =>
          if serverID = index + 1 then some customer else book.calling index }
  | ⟨.cashier index, .printAccepts⟩ =>
      { book with
        calling := Function.update book.calling index none
        order := Function.update book.order index (book.calling index) }
  | ⟨.cashier index, .takeBurger⟩ =>
      { book with
        order := Function.update book.order index none
        burgers := fun customer other =>
          if other = index ∧ book.order index = some customer then book.burgers customer other + 1
          else book.burgers customer other }
  | _ => book

/-- The book a run has kept. -/
def ledger (trace : List (Label (@Pc shop))) : Ledger shop := trace.foldl Ledger.record Ledger.empty

/-- The cashier a customer was assigned, from the moment it was taken from the queue. -/
def CustomerPc.server : CustomerPc → Option Int
  | .unlockQueue serverID | .postAvailable serverID | .unlockCM serverID | .pthreadExit serverID
  | .exited serverID =>
      some serverID
  | _ => none

/-- Whether a customer has called a cashier, as a number. -/
def hasCalledTo (pc : CustomerPc) (index : Fin shop.cashiers) : Nat :=
  match pc with
  | .unlockCM serverID | .pthreadExit serverID | .exited serverID =>
      if serverID = index + 1 then 1 else 0
  | _ => 0

/-- Whether an entry of the book names a customer, as a number. -/
def mentions (entry : Option (Fin shop.customers)) (customer : Fin shop.customers) : Nat :=
  if entry = some customer then 1 else 0

@[simp] theorem mentions_none (customer : Fin shop.customers) : mentions none customer = 0 := rfl

@[simp] theorem mentions_self (customer : Fin shop.customers) :
    mentions (some customer) customer = 1 := if_pos rfl

theorem mentions_of_ne {customer other : Fin shop.customers} (different : other ≠ customer) :
    mentions (some customer) other = 0 :=
  if_neg fun same => different (Option.some.inj same).symm

/-- The book balances. -/
structure LedgerInv (book : Ledger shop) (state : shop.State) : Prop where
  calling : ∀ index, (book.calling index).isSome.toNat =
    state.value (.cashierAvailable index) + answering (state.pc (.cashier index))
  order : ∀ index, (book.order index).isSome.toNat = fetching (state.pc (.cashier index))
  account : ∀ customer index,
    mentions (book.calling index) customer + mentions (book.order index) customer +
      book.burgers customer index = hasCalledTo (state.pc (.customer customer)) index

section Steps

variable {before after : shop.State} {book : Ledger shop}

/-- A step that writes nothing into the book and moves no thread between its stages keeps it
    balanced. -/
theorem LedgerInv.frame (inv : LedgerInv book before)
    (tokens : ∀ index, after.value (.cashierAvailable index) = before.value (.cashierAvailable index))
    (sameAnswering : ∀ index : Fin shop.cashiers,
      answering (after.pc (.cashier index)) = answering (before.pc (.cashier index)))
    (sameFetching : ∀ index : Fin shop.cashiers,
      fetching (after.pc (.cashier index)) = fetching (before.pc (.cashier index)))
    (sameCalled : ∀ (customer : Fin shop.customers) (index : Fin shop.cashiers),
      hasCalledTo (after.pc (.customer customer)) index =
        hasCalledTo (before.pc (.customer customer)) index) :
    LedgerInv book after where
  calling := by
    intro index
    rw [tokens, sameAnswering]
    exact inv.calling index
  order := by
    intro index
    rw [sameFetching]
    exact inv.order index
  account := by
    intro customer index
    rw [sameCalled]
    exact inv.account customer index

/-- No order is open at a cashier that does not fetch a burger. -/
theorem LedgerInv.order_eq_none (inv : LedgerInv book before) {index : Fin shop.cashiers}
    (notFetching : fetching (before.pc (.cashier index)) = 0) : book.order index = none := by
  have order := inv.order index
  rw [notFetching] at order
  cases isOrder : book.order index with
  | none => rfl
  | some customer =>
      rw [isOrder] at order
      cases order

/-- No call is open at a cashier that has no token and is not about to accept. -/
theorem LedgerInv.calling_eq_none (inv : LedgerInv book before) {index : Fin shop.cashiers}
    (noToken : before.value (.cashierAvailable index) = 0)
    (notAnswering : answering (before.pc (.cashier index)) = 0) : book.calling index = none := by
  have calling := inv.calling index
  rw [noToken, notAnswering] at calling
  cases isCalling : book.calling index with
  | none => rfl
  | some customer =>
      rw [isCalling] at calling
      cases calling

/-- A cook writes nothing into the book. -/
theorem LedgerInv.step_cook (inv : LedgerInv book before) {index : Fin shop.cooks}
    (moved : next shop.program before (.cook index) = some after) :
    LedgerInv (book.record ⟨.cook index, before.pc (.cook index)⟩) after := by
  obtain ⟨_, _, _, value⟩ := next_fields moved
  refine inv.frame ?_ ?_ ?_ ?_
  · intro cashier
    rw [value]
    cases at_ : before.pc (.cook index) <;>
      simp [Shop.program, cook, test, assign, print, Command.signal]
  · intro cashier
    rw [next_pc_of_ne moved (by simp)]
  · intro cashier
    rw [next_pc_of_ne moved (by simp)]
  · intro customer cashier
    rw [next_pc_of_ne moved (by simp)]

/-- A cashier that answers its call turns the token into its turn to accept. -/
theorem LedgerInv.answer (inv : LedgerInv book before) {index : Fin shop.cashiers}
    (moved : next shop.program before (.cashier index) = some after)
    (at_ : before.pc (.cashier index) = .waitCustomer) : LedgerInv book after := by
  obtain ⟨ready, target, _, value⟩ := next_fields moved
  simp only [Shop.program, at_, cashier, Command.ready, Command.target, Command.signal,
    Option.some.injEq] at ready target value
  refine ⟨?_, ?_, ?_⟩
  · intro other
    have calling := inv.calling other
    by_cases same : other = index
    · subst same
      rw [at_] at calling
      rw [← target, value, Function.update_self]
      simp only [answering] at calling ⊢
      omega
    · have different : (other : Int) ≠ index := by omega
      rw [next_pc_of_ne moved (by simp [same]), value,
        Function.update_of_ne (by simpa using different)]
      exact calling
  · intro other
    rw [next_steady Thread.cashier (fun _ => fetching) moved
      (by rintro _ ⟨⟩; rw [at_, ← target]; rfl)]
    exact inv.order other
  · intro customer other
    rw [next_pc_of_ne moved (by simp)]
    exact inv.account customer other

/-- A cashier that accepts moves the call to its order. -/
theorem LedgerInv.accept (inv : LedgerInv book before) {index : Fin shop.cashiers}
    (moved : next shop.program before (.cashier index) = some after)
    (at_ : before.pc (.cashier index) = .printAccepts) :
    LedgerInv (book.record ⟨.cashier index, .printAccepts⟩) after := by
  have noOrder : book.order index = none := inv.order_eq_none (by rw [at_]; rfl)
  -- the cashier's turn to accept is the one call there is
  have called := inv.calling index
  have atMostOne : (book.calling index).isSome.toNat ≤ 1 := Bool.toNat_le _
  obtain ⟨_, target, _, value⟩ := next_fields moved
  simp only [Shop.program, at_, cashier, print, Command.target, Command.signal,
    Option.some.injEq] at target value
  rw [at_] at called
  simp only [answering] at called
  refine ⟨?_, ?_, ?_⟩
  · intro other
    by_cases same : other = index
    · subst same
      rw [← target, value]
      simp only [Ledger.record, Function.update_self, Option.isSome_none, Bool.toNat_false, answering]
      omega
    · rw [next_pc_of_ne moved (by simp [same]), value]
      simpa [Ledger.record, same] using inv.calling other
  · intro other
    by_cases same : other = index
    · subst same
      rw [← target]
      simp only [Ledger.record, Function.update_self, fetching]
      omega
    · rw [next_pc_of_ne moved (by simp [same])]
      simpa [Ledger.record, same] using inv.order other
  · intro customer other
    rw [next_pc_of_ne moved (by simp), ← inv.account customer other]
    by_cases same : other = index
    · subst same
      simp [Ledger.record, noOrder]
    · simp [Ledger.record, same]

/-- A cashier that takes a burger off the rack takes it for its order. -/
theorem LedgerInv.take (inv : LedgerInv book before) {index : Fin shop.cashiers}
    (moved : next shop.program before (.cashier index) = some after)
    (at_ : before.pc (.cashier index) = .takeBurger) :
    LedgerInv (book.record ⟨.cashier index, .takeBurger⟩) after := by
  obtain ⟨_, target, _, value⟩ := next_fields moved
  simp only [Shop.program, at_, cashier, assign, Command.target, Command.signal,
    Option.some.injEq] at target value
  refine ⟨?_, ?_, ?_⟩
  · intro other
    rw [next_steady Thread.cashier (fun _ => answering) moved
      (by rintro _ ⟨⟩; rw [at_, ← target]; rfl), value]
    exact inv.calling other
  · intro other
    by_cases same : other = index
    · subst same
      rw [← target]
      simp [Ledger.record, fetching]
    · rw [next_pc_of_ne moved (by simp [same])]
      simpa [Ledger.record, same] using inv.order other
  · intro customer other
    rw [next_pc_of_ne moved (by simp), ← inv.account customer other]
    by_cases same : other = index
    · subst same
      simp only [Ledger.record, Function.update_self, mentions_none, true_and]
      by_cases isOrder : book.order other = some customer
      · rw [if_pos isOrder, isOrder, mentions_self]
        omega
      · have noMention : mentions (book.order other) customer = 0 := if_neg isOrder
        rw [if_neg isOrder, noMention]
    · simp [Ledger.record, same]

/-- A cashier moves an order from its call to its acceptance, and from there to a burger. -/
theorem LedgerInv.step_cashier (inv : LedgerInv book before) {index : Fin shop.cashiers}
    (moved : next shop.program before (.cashier index) = some after) :
    LedgerInv (book.record ⟨.cashier index, before.pc (.cashier index)⟩) after := by
  have steady : ∀ weight : CashierPc → Nat,
      weight (after.pc (.cashier index)) = weight (before.pc (.cashier index)) →
      ∀ other, weight (after.pc (.cashier other)) = weight (before.pc (.cashier other)) :=
    fun weight same => next_steady Thread.cashier (fun _ => weight) moved
      (by rintro other ⟨⟩; exact same)
  obtain ⟨_, target, _, value⟩ := next_fields moved
  cases at_ : before.pc (.cashier index) <;>
    simp only [Shop.program, at_, cashier, test, assign, print, Command.target, Command.signal,
      Option.some.injEq] at target value
  case waitCustomer => exact inv.answer moved at_
  case printAccepts => exact inv.accept moved at_
  case takeBurger => exact inv.take moved at_
  all_goals
    refine inv.frame (by simp [value]) (steady answering ?_) (steady fetching ?_) ?_
    · rw [at_, ← target]
      first | rfl | (split <;> rfl)
    · rw [at_, ← target]
      first | rfl | (split <;> rfl)
    · intro customer cashier
      rw [next_pc_of_ne moved (by simp)]

/-- A cashier that has been taken from the queue has neither a token nor a call. -/
theorem LedgerInv.free_of_called (inv : LedgerInv book before) {content : List Int}
    (queue : QueueInv before content) {cashier : Fin shop.cashiers}
    (calls : called before = some (cashier + 1 : Int)) :
    before.value (.cashierAvailable cashier) = 0 ∧
      answering (before.pc (.cashier cashier)) = 0 ∧ book.calling cashier = none := by
  have balance := queue.balance cashier
  have pending : pendingCall before cashier = 1 := by
    rw [pendingCall, calls]
    exact if_pos rfl
  have atMostOne := announcement_le_one before cashier
  have noToken : before.value (.cashierAvailable cashier) = 0 := by omega
  have notAnswering : answering (before.pc (.cashier cashier)) = 0 := by
    rw [announcement, pending] at balance
    cases pc : before.pc (.cashier cashier) <;> rw [pc] at balance <;>
      simp only [announced, Bool.false_eq_true, if_false] at balance <;>
      first | rfl | omega
  exact ⟨noToken, notAnswering, inv.calling_eq_none noToken notAnswering⟩

/-- A customer that calls opens an order at a cashier that has none. -/
theorem LedgerInv.call (inv : LedgerInv book before) {content : List Int}
    (queue : QueueInv before content) (locked : LockedBy holds before)
    {index : Fin shop.customers} {serverID : Int}
    (moved : next shop.program before (.customer index) = some after)
    (at_ : before.pc (.customer index) = .postAvailable serverID) :
    LedgerInv (book.record ⟨.customer index, .postAvailable serverID⟩) after := by
  have calls : called before = some serverID := by
    have held : holds (.customer index) (before.pc (.customer index)) .CM = true := by
      rw [at_]
      rfl
    rw [called, phaseOf_of_holds locked held, at_]
    rfl
  have free : ∀ cashier : Fin shop.cashiers, serverID = cashier + 1 →
      before.value (.cashierAvailable cashier) = 0 ∧
        answering (before.pc (.cashier cashier)) = 0 ∧ book.calling cashier = none := by
    rintro cashier rfl
    exact inv.free_of_called queue calls
  obtain ⟨_, target, _, value⟩ := next_fields moved
  simp only [Shop.program, at_, customer, Command.target, Command.signal,
    Option.some.injEq] at target value
  refine ⟨?_, ?_, ?_⟩
  · intro cashier
    rw [next_pc_of_ne moved (by simp), value]
    by_cases callee : serverID = cashier + 1
    · obtain ⟨noToken, notAnswering, _⟩ := free cashier callee
      subst callee
      simp [Ledger.record, noToken, notAnswering]
    · have different : (cashier : Int) ≠ serverID - 1 := by omega
      simpa [Ledger.record, callee, different] using inv.calling cashier
  · intro cashier
    rw [next_pc_of_ne moved (by simp)]
    exact inv.order cashier
  · intro customer cashier
    have account := inv.account customer cashier
    by_cases callee : serverID = cashier + 1
    · -- the entry names the caller, and named nobody before
      obtain ⟨_, _, notCalling⟩ := free cashier callee
      rw [notCalling] at account
      by_cases isIndex : customer = index
      · subst isIndex
        rw [at_] at account
        rw [← target]
        subst callee
        simp only [Ledger.record, hasCalledTo, if_true, mentions_none, mentions_self] at account ⊢
        omega
      · rw [next_pc_of_ne moved (by simp [isIndex])]
        simpa [Ledger.record, callee, mentions_of_ne isIndex] using account
    · by_cases isIndex : customer = index
      · subst isIndex
        rw [at_] at account
        rw [← target]
        simpa [Ledger.record, hasCalledTo, callee] using account
      · rw [next_pc_of_ne moved (by simp [isIndex])]
        simpa [Ledger.record, callee] using account

/-- A customer writes nothing into the book but its call. -/
theorem LedgerInv.step_customer (locked : LockedBy holds before) {content : List Int}
    (queue : QueueInv before content) (inv : LedgerInv book before) {index : Fin shop.customers}
    (moved : next shop.program before (.customer index) = some after) :
    LedgerInv (book.record ⟨.customer index, before.pc (.customer index)⟩) after := by
  obtain ⟨_, target, _, value⟩ := next_fields moved
  cases at_ : before.pc (.customer index) <;>
    simp only [Shop.program, at_, customer, test, assign, print, Command.target, Command.signal,
      Option.some.injEq, reduceCtorEq] at target value
  case postAvailable serverID => exact inv.call queue locked moved at_
  all_goals
    refine inv.frame (by simp [value]) ?_ ?_ ?_
    · intro cashier
      rw [next_pc_of_ne moved (by simp)]
    · intro cashier
      rw [next_pc_of_ne moved (by simp)]
    · intro customer cashier
      refine next_steady Thread.customer (fun _ pc => hasCalledTo pc cashier) moved ?_ customer
      rintro _ ⟨⟩
      rw [at_, ← target]
      first | rfl | (split <;> rfl)

end Steps

section Runs

variable {trace : List (Label (@Pc shop))} {state : shop.State}

/-- The book grows by one entry per step. -/
theorem ledger_concat (trace : List (Label (@Pc shop))) (label : Label (@Pc shop)) :
    ledger (trace ++ [label]) = (ledger trace).record label := by
  rw [ledger, List.foldl_append, ← ledger]
  rfl

/-- The book balances after every run. -/
theorem run_ledger (run : shop.Run trace state) : LedgerInv (ledger trace) state := by
  induction run with
  | start => exact ⟨fun _ => rfl, fun _ => rfl, fun _ _ => rfl⟩
  | @step trace before after thread run moved inductionHypothesis =>
      rw [ledger_concat]
      cases thread with
      | cook index => exact inductionHypothesis.step_cook moved
      | cashier index => exact inductionHypothesis.step_cashier moved
      | customer index =>
          obtain ⟨⟨content, queue⟩, _⟩ := run_queue run
          exact inductionHypothesis.step_customer (run_locked run) queue moved

/-- All burgers the cashiers have taken for customers. -/
def Ledger.total (book : Ledger shop) : Nat := ∑ customer, ∑ index, book.burgers customer index

/-- Taking a burger for an open order adds one burger to the book. -/
theorem Ledger.total_take {book : Ledger shop} {index : Fin shop.cashiers}
    {customer : Fin shop.customers} (isOrder : book.order index = some customer) :
    (book.record ⟨.cashier index, .takeBurger⟩).total = book.total + 1 := by
  have own : (book.record ⟨.cashier index, .takeBurger⟩).burgers customer index =
      book.burgers customer index + 1 := if_pos ⟨rfl, isOrder⟩
  have row : (∑ other, (book.record ⟨.cashier index, .takeBurger⟩).burgers customer other) =
      (∑ other, book.burgers customer other) + 1 := by
    have change := sum_change (book.burgers customer)
      ((book.record ⟨.cashier index, .takeBurger⟩).burgers customer) index
      fun other different => if_neg fun both => different both.1
    omega
  have change := sum_change (fun someone => ∑ other, book.burgers someone other)
    (fun someone => ∑ other, (book.record ⟨.cashier index, .takeBurger⟩).burgers someone other)
    customer fun someone different => Finset.sum_congr rfl fun other _ => if_neg fun both =>
      different (Option.some.inj (both.2.symm.trans isOrder))
  simp only [Ledger.total]
  omega

/-- Every burger taken off the rack is taken for a customer. -/
theorem run_total (run : shop.Run trace state) : (ledger trace).total = takes trace := by
  induction run with
  | start => simp [ledger, Ledger.total, Ledger.empty, takes]
  | @step trace before after thread run moved inductionHypothesis =>
      rw [ledger_concat, takes, countP_concat, ← takes, ← inductionHypothesis]
      cases thread with
      | cook index => rfl
      | customer index => cases at_ : before.pc (.customer index) <;> rfl
      | cashier index =>
          cases at_ : before.pc (.cashier index)
          case takeBurger =>
            have order := (run_ledger run).order index
            rw [at_] at order
            cases isOrder : (ledger trace).order index with
            | none =>
                rw [isOrder] at order
                cases order
            | some customer => exact Ledger.total_take isOrder
          all_goals rfl

end Runs

/-! ### Closing the shop -/

/-- How far a cashier has got since it counted its customer. -/
inductive Closing where
  | idle
  /-- The customer was counted; the count has not been compared with `customers` yet. -/
  | counted
  /-- This was the last customer; `finish` is about to be posted. -/
  | posting
deriving DecidableEq, Repr

def closingPhase : CashierPc → Closing
  | .testServed => .counted
  | .postFinish => .posting
  | _ => .idle

def closingPhaseOf : (thread : Thread shop) → Pc thread → Closing
  | .cashier _, pc => closingPhase pc
  | .cook _, _ | .customer _, _ => .idle

/-- The phase of the cashier at the counter. -/
def closer (state : shop.State) : Closing := phaseOf closingPhaseOf .idle .cntMutex state

theorem closer_idleOutside : IdleOutside (@closingPhaseOf shop) .idle holds .cntMutex := by
  intro thread pc free
  cases thread with
  | cook index => rfl
  | cashier index => cases pc <;> first | rfl | cases free
  | customer index => rfl

/-- All customers have been counted. -/
def AllCounted (state : shop.State) : Prop :=
  state.shared.customersServed = shop.customers ∧ 0 < shop.customers

/-- The posts of `finish`, given or still owed by the cashier at the counter. -/
structure ClosingInv (state : shop.State) : Prop where
  positive : closer state ≠ .idle → 0 < state.shared.customersServed
  open_ : ¬ AllCounted state → state.value .finish = 0 ∧ closer state ≠ .posting
  once : AllCounted state →
    (state.value .finish = 0 ∧ closer state ≠ .idle) ∨
      (state.value .finish = 1 ∧ closer state = .idle)

section ClosingSteps

variable {before after : shop.State}

theorem ClosingInv.frame (inv : ClosingInv before)
    (served : after.shared.customersServed = before.shared.customersServed)
    (tokens : after.value .finish = before.value .finish) (same : closer after = closer before) :
    ClosingInv after := by
  have iff : AllCounted after ↔ AllCounted before := by rw [AllCounted, AllCounted, served]
  constructor
  · rw [same, served]
    exact inv.positive
  · rw [iff, tokens, same]
    exact inv.open_
  · rw [iff, tokens, same]
    exact inv.once

/-- While a cashier is between its count and its post, `finish` has not been posted. -/
theorem ClosingInv.none_of_busy (inv : ClosingInv before) (busy : closer before ≠ .idle) :
    before.value .finish = 0 := by
  by_cases all : AllCounted before
  · rcases inv.once all with ⟨none, _⟩ | ⟨_, idle⟩
    · exact none
    · exact absurd idle busy
  · exact (inv.open_ all).1

/-- The last count, and only the last, is followed by one post of `finish`. -/
theorem ClosingInv.step_cashier (locked : LockedBy holds before) (inv : ClosingInv before)
    (bound : after.shared.customersServed ≤ shop.customers) {index : Fin shop.cashiers}
    (nonneg : 0 ≤ before.shared.customersServed)
    (moved : next shop.program before (.cashier index) = some after) : ClosingInv after := by
  have steady : closingPhase (before.pc (.cashier index)) = .idle →
      closingPhase (after.pc (.cashier index)) = .idle → closer after = closer before :=
    phaseOf_step_idle closer_idleOutside (program_respects shop) locked moved
  have shift : closingPhase (before.pc (.cashier index)) ≠ .idle ∨
      closingPhase (after.pc (.cashier index)) ≠ .idle →
      closer before = closingPhase (before.pc (.cashier index)) ∧
        closer after = closingPhase (after.pc (.cashier index)) :=
    phaseOf_step_busy closer_idleOutside (program_respects shop) locked moved
  obtain ⟨ready, target, shared, value⟩ := next_fields moved
  cases at_ : before.pc (.cashier index) <;>
    simp only [Shop.program, at_, cashier, test, assign, print, Command.ready, Command.target,
      Command.effect, Command.signal, Option.some.injEq, id] at ready target shared value <;>
    rw [at_, ← target] at steady shift
  case countServed =>
    obtain ⟨closerBefore, closerAfter⟩ := shift (.inr (by decide))
    -- the count was below `customers`, so nothing was posted yet
    have served : after.shared.customersServed = before.shared.customersServed + 1 := by rw [shared]
    have notAll : ¬ AllCounted before := by
      rintro ⟨all, _⟩
      omega
    obtain ⟨none, _⟩ := inv.open_ notAll
    have none : after.value .finish = 0 := by rw [value]; exact none
    refine ⟨fun _ => by omega, fun _ => ⟨none, ?_⟩, fun _ => .inl ⟨none, ?_⟩⟩
    · rw [closerAfter]
      decide
    · rw [closerAfter]
      decide
  case testServed =>
    obtain ⟨closerBefore, closerAfter⟩ := shift (.inl (by decide))
    have busy : closer before ≠ .idle := by
      rw [closerBefore]
      decide
    have none : after.value .finish = 0 := by rw [value]; exact inv.none_of_busy busy
    have positive : 0 < after.shared.customersServed := by rw [shared]; exact inv.positive busy
    by_cases last : before.shared.customersServed = shop.customers
    · -- the last customer: the post is now owed
      rw [if_pos last] at closerAfter
      have all : AllCounted after := ⟨by rw [shared]; exact last, by rw [shared] at positive; omega⟩
      refine ⟨fun _ => positive, fun notAll => absurd all notAll, fun _ => .inl ⟨none, ?_⟩⟩
      rw [closerAfter]
      decide
    · rw [if_neg last] at closerAfter
      have notAll : ¬ AllCounted after := by
        rintro ⟨all, _⟩
        rw [shared] at all
        exact last all
      refine ⟨fun _ => positive, fun _ => ⟨none, ?_⟩, fun all => absurd all notAll⟩
      rw [closerAfter]
      decide
  case postFinish =>
    obtain ⟨closerBefore, closerAfter⟩ := shift (.inl (by decide))
    have all : AllCounted before := by
      by_contra notAll
      exact (inv.open_ notAll).2 closerBefore
    have none : before.value .finish = 0 := inv.none_of_busy (by rw [closerBefore]; decide)
    have allAfter : AllCounted after := by rw [AllCounted, shared]; exact all
    exact ⟨fun busy => absurd closerAfter busy, fun notAll => absurd allAfter notAll,
      fun _ => .inr ⟨by simp [value, none], closerAfter⟩⟩
  all_goals
    exact inv.frame (by rw [shared]) (by simp [value])
      (steady rfl (by first | rfl | (split <;> rfl)))

/-- Cooks do not close the shop. -/
theorem ClosingInv.step_cook (locked : LockedBy holds before) (inv : ClosingInv before)
    {index : Fin shop.cooks} (moved : next shop.program before (.cook index) = some after) :
    ClosingInv after := by
  have same : closer after = closer before :=
    phaseOf_step_idle closer_idleOutside (program_respects shop) locked moved rfl rfl
  obtain ⟨_, _, shared, value⟩ := next_fields moved
  cases at_ : before.pc (.cook index) <;>
    simp only [Shop.program, at_, cook, test, assign, print, Command.effect, Command.signal,
      id] at shared value <;>
    exact inv.frame (by rw [shared]) (by simp [value]) same

/-- Customers do not close the shop. -/
theorem ClosingInv.step_customer (locked : LockedBy holds before) (inv : ClosingInv before)
    {index : Fin shop.customers} (moved : next shop.program before (.customer index) = some after) :
    ClosingInv after := by
  have same : closer after = closer before :=
    phaseOf_step_idle closer_idleOutside (program_respects shop) locked moved rfl rfl
  obtain ⟨_, _, shared, value⟩ := next_fields moved
  cases at_ : before.pc (.customer index) <;>
    simp only [Shop.program, at_, customer, test, assign, print, Command.effect, Command.signal,
      id] at shared value <;>
    exact inv.frame (by rw [shared]) (by simp [value]) same

end ClosingSteps

section ClosingRuns

variable {trace : List (Label (@Pc shop))} {state : shop.State}

/-- No more customers are counted than there are. -/
theorem customersServed_le (run : shop.Run trace state) :
    state.shared.customersServed ≤ shop.customers := by
  have served := run_customersServed run
  have counted := run_counts run
  have bound := takes_le_customers run
  omega

/-- Before the last count nothing is posted, and after it one post is given or owed. -/
theorem run_closing (run : shop.Run trace state) : ClosingInv state := by
  induction run with
  | start =>
      refine ⟨fun busy => absurd rfl busy, fun _ => ⟨rfl, ?_⟩, fun all => ?_⟩
      · intro posting
        cases posting
      · obtain ⟨none, some⟩ := all
        simp only [Shop.initial] at none
        omega
  | @step trace before after thread run moved inductionHypothesis =>
      have locked := run_locked run
      cases thread with
      | cook index => exact inductionHypothesis.step_cook locked moved
      | cashier index =>
          have nonneg : 0 ≤ before.shared.customersServed := by
            rw [run_customersServed run]
            omega
          exact inductionHypothesis.step_cashier locked (customersServed_le (run.step moved)) nonneg
            moved
      | customer index => exact inductionHypothesis.step_customer locked moved

end ClosingRuns

/-! ### Every customer once, and then the end -/

/-- How often a customer has called a cashier. -/
def callsTo (customer : Fin shop.customers) (index : Fin shop.cashiers)
    (trace : List (Label (@Pc shop))) : Nat :=
  trace.countP fun label => decide (label = ⟨.customer customer, .postAvailable (index + 1)⟩)

/-- What holds of the service at every point of a run. -/
structure Served (trace : List (Label (@Pc shop))) (state : shop.State) : Prop where
  /-- Burgers taken to customers, orders accepted, customers that have come, all customers. -/
  carried : carries trace ≤ accepts trace
  accepted : accepts trace ≤ comes trace
  come : comes trace ≤ shop.customers
  available : ∀ index : Fin shop.cashiers, state.value (.cashierAvailable index) ≤ 1
  /-- The posts of a cashier's semaphore are the calls of the customers, and each customer assigned
      to the cashier has called it once or is about to. -/
  posted : ∀ index : Fin shop.cashiers,
    trace.countP (postsTo shop.program (.cashierAvailable index)) =
      ∑ customer, callsTo customer index trace
  called : ∀ (customer : Fin shop.customers) (index : Fin shop.cashiers),
    callsTo customer index trace +
        (if calledBy (state.pc (.customer customer)) = some (index + 1 : Int) then 1 else 0) =
      if (state.pc (.customer customer)).server = some (index + 1 : Int) then 1 else 0
  counted : state.shared.customersServed ≤ takes trace
  /-- No customer is served twice. -/
  once : ∀ customer, ∑ index, (ledger trace).burgers customer index ≤ 1
  closed : trace.countP (postsTo shop.program .finish) ≤ 1
  /-- When `finish` is about to be posted, and ever after, every customer was assigned a cashier and
      that cashier has taken a burger for it. -/
  complete : (0 < trace.countP (postsTo shop.program .finish) ∨
      ∃ index, state.pc (.cashier index) = .postFinish) →
    ∀ customer, ∃ index : Fin shop.cashiers,
      (state.pc (.customer customer)).server = some (index + 1 : Int) ∧
        (ledger trace).burgers customer index = 1

section Service

variable {trace : List (Label (@Pc shop))} {state : shop.State}

/-- A customer has called a cashier as often as it stands past that call. -/
theorem run_callsTo (run : shop.Run trace state) (customer : Fin shop.customers)
    (index : Fin shop.cashiers) :
    callsTo customer index trace = hasCalledTo (state.pc (.customer customer)) index := by
  have law : census (fun _ : Unit => Thread.customer customer)
      (fun _ pc => hasCalledTo pc index) state + trace.countP (fun _ => false) =
      callsTo customer index trace := by
    refine Run.flow (fun _ _ _ => rfl) ?_ ?_ ?_ run
    · intro label notCustomer
      refine ⟨decide_eq_false ?_, rfl⟩
      rintro rfl
      exact notCustomer () rfl
    · intro _ pc shared target targets
      cases pc <;> simp only [Shop.program, BurgerBuddies.customer, test, assign, print,
        Command.target, Option.some.injEq, reduceCtorEq] at targets <;> subst targets
      case postAvailable serverID =>
        by_cases callee : serverID = index + 1
        · simp [hasCalledTo, callee]
        · simp [hasCalledTo, callee]
      case testQueue => split <;> simp [hasCalledTo]
      all_goals simp [hasCalledTo]
    · rfl
  simpa [census] using law.symm

/-- The posts of a cashier's semaphore are the calls of the customers. -/
theorem posts_eq_sum_callsTo (trace : List (Label (@Pc shop))) (index : Fin shop.cashiers) :
    trace.countP (postsTo shop.program (.cashierAvailable index)) =
      ∑ customer, callsTo customer index trace := by
  apply Nat.le_antisymm
  · apply countP_le_sum
    intro label isPost
    obtain ⟨customer, rfl⟩ := postsTo_cashierAvailable.mp isPost
    exact ⟨customer, decide_eq_true rfl⟩
  · apply sum_le_countP
    · intro customer label isCall
      exact postsTo_cashierAvailable.mpr ⟨customer, of_decide_eq_true isCall⟩
    · intro first second label one two
      have same := (of_decide_eq_true one).symm.trans (of_decide_eq_true two)
      simpa using same

/-- Between its assignment and its call a customer is about to call, and afterwards it has called. -/
theorem hasCalledTo_add (pc : CustomerPc) (index : Fin shop.cashiers) :
    hasCalledTo pc index + (if calledBy pc = some (index + 1 : Int) then 1 else 0) =
      if pc.server = some (index + 1 : Int) then 1 else 0 := by
  cases pc <;> simp [hasCalledTo, calledBy, CustomerPc.server]

/-- A customer calls at most one cashier. -/
theorem sum_hasCalledTo_le (pc : CustomerPc) :
    ∑ index : Fin shop.cashiers, hasCalledTo pc index ≤ 1 := by
  by_cases some : ∃ index : Fin shop.cashiers, hasCalledTo pc index ≠ 0
  · obtain ⟨index, called⟩ := some
    rw [Finset.sum_eq_single index]
    · cases pc <;> simp only [hasCalledTo] <;> first | omega | (split <;> omega)
    · intro other _ different
      by_contra calledToo
      cases pc <;> simp [hasCalledTo] at called calledToo <;> omega
    · intro absent
      exact absurd (Finset.mem_univ index) absent
  · rw [Finset.sum_eq_zero]
    · exact Nat.zero_le 1
    · intro index _
      by_contra called
      exact some ⟨index, called⟩

/-- No customer gets two burgers. -/
theorem burgers_le_one (run : shop.Run trace state) (customer : Fin shop.customers) :
    ∑ index, (ledger trace).burgers customer index ≤ 1 := by
  calc ∑ index, (ledger trace).burgers customer index
      ≤ ∑ index : Fin shop.cashiers, hasCalledTo (state.pc (.customer customer)) index := by
        apply Finset.sum_le_sum
        intro index _
        have account := (run_ledger run).account customer index
        omega
    _ ≤ 1 := sum_hasCalledTo_le _

/-- The posts of `finish` are its value: nobody in the shop waits on it. -/
theorem posts_finish (run : shop.Run trace state) :
    trace.countP (postsTo shop.program .finish) = state.value .finish := by
  have balance := run.semaphore .finish
  have noWait : trace.countP (waitsOn shop.program .finish) = 0 := by
    rw [List.countP_eq_zero]
    rintro ⟨thread, pc⟩ _
    cases thread <;> cases pc <;>
      simp [waitsOn, Shop.program, cook, cashier, customer, test, assign, print]
  have empty : shop.initial.value .finish = 0 := rfl
  omega

/-- Once all customers are counted, each of them has its burger. -/
theorem all_served (run : shop.Run trace state) (all : AllCounted state)
    (customer : Fin shop.customers) :
    ∃ index : Fin shop.cashiers, (state.pc (.customer customer)).server = some (index + 1 : Int) ∧
      (ledger trace).burgers customer index = 1 := by
  have enough : Fintype.card (Fin shop.customers) ≤
      ∑ someone, ∑ index, (ledger trace).burgers someone index := by
    have total : (ledger trace).total = takes trace := run_total run
    have served := run_customersServed run
    have counted := run_counts run
    have last := all.1
    rw [Fintype.card_fin]
    simp only [Ledger.total] at total
    omega
  have one := eq_one_of_sum_eq_card (burgers_le_one run) enough customer
  obtain ⟨index, _, some⟩ := Finset.exists_ne_zero_of_sum_ne_zero
    (show ∑ index, (ledger trace).burgers customer index ≠ 0 by omega)
  have account := (run_ledger run).account customer index
  have single := Finset.single_le_sum (f := (ledger trace).burgers customer)
    (fun _ _ => Nat.zero_le _) (Finset.mem_univ index)
  have assigned := hasCalledTo_add (state.pc (.customer customer)) index
  refine ⟨index, ?_, by omega⟩
  by_contra notAssigned
  rw [if_neg notAssigned] at assigned
  omega

end Service

/-- At every point of every run the service is in order. -/
theorem run_served (shop : Shop) (trace : List (Label (@Pc shop))) (state : shop.State)
    (run : shop.Run trace state) : Served trace state := by
  have accepted := run_accepts run
  have carried := run_carries run
  have answered := run_answers run
  have answersCalls := answers_le_calls run
  have callsComes := calls_le_comes run
  have closing := run_closing run
  have posts := posts_finish run
  refine ⟨by omega, by omega, comes_le_customers run, ?_, posts_eq_sum_callsTo trace, ?_, ?_,
    burgers_le_one run, ?_, ?_⟩
  · intro index
    obtain ⟨⟨content, queue⟩, _⟩ := run_queue run
    have balance := queue.balance index
    have atMostOne := announcement_le_one state index
    omega
  · intro customer index
    rw [run_callsTo run]
    exact hasCalledTo_add _ index
  · have served := run_customersServed run
    have counted := run_counts run
    omega
  · by_cases all : AllCounted state
    · rcases closing.once all with ⟨none, _⟩ | ⟨one, _⟩ <;> omega
    · have := (closing.open_ all).1
      omega
  · intro ending
    apply all_served run
    by_contra notAll
    obtain ⟨none, notPosting⟩ := closing.open_ notAll
    rcases ending with some | ⟨index, posting⟩
    · omega
    · have held : holds (.cashier index) (state.pc (.cashier index)) .cntMutex = true := by
        rw [posting]
        rfl
      apply notPosting
      rw [closer, phaseOf_of_holds (run_locked run) held, posting]
      rfl

/-- One customer is served and the shop closes. -/
def closingSchedule : List (Thread smallestShop) :=
  List.replicate 8 (.cook ⟨0, Nat.zero_lt_one⟩) ++ List.replicate 4 (.cashier ⟨0, Nat.zero_lt_one⟩) ++
    List.replicate 8 (.customer ⟨0, Nat.zero_lt_one⟩) ++
    List.replicate 15 (.cashier ⟨0, Nat.zero_lt_one⟩)

set_option maxRecDepth 10000 in
/-- The service is in order in a run that goes through to the end. -/
theorem run_served_closing :
    ∃ trace state, smallestShop.Run trace state ∧ state.value .finish = 1 ∧ Served trace state := by
  have scheduled : (runSchedule smallestShop.program closingSchedule smallestShop.initial).map
      (fun state => state.value .finish) = some 1 := by decide
  obtain ⟨state, reached, finished⟩ := Option.map_eq_some_iff.mp scheduled
  obtain ⟨trace, run⟩ := Run.start.schedule reached
  exact ⟨trace, state, run, finished, run_served smallestShop trace state run⟩

end KernelHacking.BurgerBuddies
