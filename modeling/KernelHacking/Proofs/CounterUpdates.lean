/-
Module: KernelHacking.Proofs.CounterUpdates
Layer: Proofs
Purpose: `PG_referenced` under overlapping calls. Calls that do not overlap do to the counter what the
  sequential model says (`uninterrupted_history`). When calls overlap, a store of 0 between the `++` and the
  `--` of a check lets the `--` wrap the counter. As long as no store falls between such a pair, every
  `--` finds its own `++` in the counter (`CounterInv.owed`), and the counter is at most the number of
  scans that can have raised it since the last store (`CounterInv.bound`).
Imports: KernelHacking.Model.CounterUpdates, KernelHacking.Proofs.ReferenceCounter,
  Mathlib.Data.List.Perm.Basic
Trusted boundary: none (fully proved)
Main exports: uninterrupted, uninterrupted_history, Scan.owes, StoreIsQuiet, CounterInv, step_cases,
  CounterInv.step, counter_never_wraps, counter_wraps
Open obligations: none
-/
import Mathlib.Data.List.Perm.Basic
import KernelHacking.Model.CounterUpdates
import KernelHacking.Proofs.ReferenceCounter

namespace KernelHacking.PageReplacement

open Actions

/-! ### Calls that do not overlap -/

/-- The actions of a call that no other call interrupts. -/
def uninterrupted (page : Page) : Event → List UpdateAction
  | .access => [.store]
  | .visit referenced vmFlags =>
      [.startVisit ⟨true, referenced, vmFlags, page.isFileCache⟩, .advance 0]
  | .cull => [.startVisit ⟨false, 0, 0, page.isFileCache⟩, .advance 0]
  | .check reclaimMode referencedPtes vmFlags =>
      [.startCheck ⟨reclaimMode, referencedPtes, vmFlags, page.flags .swapbacked⟩, .advance 0, .advance 0]
  | .setFlag _ _ => []

/-- The actions of a history without overlapping calls. -/
def uninterruptedAll (page : Page) : List Event → List UpdateAction
  | [] => []
  | event :: rest => uninterrupted page event ++ uninterruptedAll (event.apply page) rest

theorem decrements_iff {page : Page} {reclaimMode : ULong} {referencedPtes : Int} {vmFlags : ULong} :
    CheckCall.decrements ⟨reclaimMode, referencedPtes, vmFlags, page.flags .swapbacked⟩ = true ↔
      TakesFileBranch page reclaimMode referencedPtes vmFlags :=
  decide_eq_true_iff

theorem increments_iff {page : Page} {referenced : Int} {vmFlags : ULong} :
    VisitCall.increments ⟨true, referenced, vmFlags, page.isFileCache⟩ = true ↔
      ¬ (referenced ≠ 0 ∧ (vmFlags &&& VM_EXEC ≠ 0 ∧ page.isFileCache = true)) := by
  rw [VisitCall.increments, decide_eq_true_iff]
  exact ⟨fun both => both.2, fun notExec => ⟨rfl, notExec⟩⟩

/-- A call that is not interrupted leaves the counter as the sequential model does, and the scans in
    progress as they were. -/
theorem uninterrupted_event (page : Page) (event : Event) (updates : Updates)
    (same : updates.counter = page.pgReferenced) :
    ∃ after, perform Updates.step (uninterrupted page event) updates = some after ∧
      after.counter = (event.apply page).pgReferenced ∧ after.scans = updates.scans := by
  cases event with
  | access => exact ⟨_, rfl, rfl, rfl⟩
  | visit referenced vmFlags =>
      refine ⟨_, rfl, ?_, rfl⟩
      dsimp only [Updates.start, Updates.advance, Event.apply]
      by_cases exec : referenced ≠ 0 ∧ (vmFlags &&& VM_EXEC ≠ 0 ∧ page.isFileCache = true)
      · rw [if_neg (mt increments_iff.mp (not_not_intro exec)), shrinkActiveListPage_exec page exec, same]
      · rw [if_pos (increments_iff.mpr exec), same, shrinkActiveListPage, if_neg (by simp), if_neg exec]
        dsimp only
        split <;> rfl
  | cull => exact ⟨_, rfl, same, rfl⟩
  | check reclaimMode referencedPtes vmFlags =>
      refine ⟨_, rfl, ?_, rfl⟩
      dsimp only [Updates.start, Updates.advance, Event.apply]
      by_cases branch : TakesFileBranch page reclaimMode referencedPtes vmFlags
      · rw [if_pos (decrements_iff.mpr branch), pageCheckReferences_file page branch, same]
        exact BitVec.add_sub_cancel _ _
      · rw [if_neg (mt decrements_iff.mp branch), pageCheckReferences_counted page branch, same]
  | setFlag flag value => exact ⟨updates, rfl, same, rfl⟩

/-- A history without overlapping calls leaves the counter as the sequential model does. -/
theorem uninterrupted_history (page : Page) (events : List Event) (updates : Updates)
    (same : updates.counter = page.pgReferenced) :
    ∃ after, perform Updates.step (uninterruptedAll page events) updates = some after ∧
      after.counter = (run page events).pgReferenced ∧ after.scans = updates.scans := by
  induction events generalizing page updates with
  | nil => exact ⟨updates, rfl, same, rfl⟩
  | cons event rest inductionHypothesis =>
      obtain ⟨middle, performed, sameMiddle, scansMiddle⟩ := uninterrupted_event page event updates same
      obtain ⟨after, performedRest, sameAfter, scansAfter⟩ :=
        inductionHypothesis (event.apply page) middle sameMiddle
      refine ⟨after, ?_, sameAfter, scansAfter.trans scansMiddle⟩
      rw [uninterruptedAll, perform_append, performed]
      exact performedRest

/-! ### Calls that overlap -/

/-- The scan has raised the counter and is going to lower it again. -/
def Scan.owes : Scan → Bool
  | .raised call => call.decrements
  | .check _ | .visit _ => false

/-- The scan may still raise the counter. -/
def Scan.mayRaise : Scan → Bool
  | .check _ | .visit _ => true
  | .raised _ => false

/-- The store of `mark_page_accessed` does not fall between the `++` of a check and its `--`. -/
def StoreIsQuiet (updates : Updates) (action : UpdateAction) : Prop :=
  action = .store → ∀ scan ∈ updates.scans, scan.owes = false

instance (updates : Updates) (action : UpdateAction) : Decidable (StoreIsQuiet updates action) :=
  inferInstanceAs (Decidable (_ → _))

/-- How many scans in progress are going to lower the counter. -/
def Updates.owed (updates : Updates) : Nat := updates.scans.countP Scan.owes

/-- How many scans in progress may still raise the counter. -/
def Updates.open_ (updates : Updates) : Nat := updates.scans.countP Scan.mayRaise

/-- The counter contains the increments that are going to be taken back, and it is made of increments
    of scans that started since the last store or were in progress then. -/
structure CounterInv (updates : Updates) : Prop where
  owed : updates.owed ≤ updates.counter.toNat
  bound : updates.counter.toNat + updates.open_ ≤ updates.sinceStore + updates.atStore
  scans : updates.sinceStore + updates.atStore ≤ updates.started
  running : updates.scans.length ≤ updates.started

theorem CounterInv.fresh : CounterInv .fresh := by
  constructor <;> decide

section Step

variable {before after : Updates} {action : UpdateAction}

/-- The scan at a position and the others. -/
theorem scans_perm {scans : List Scan} {position : Nat} {scan : Scan}
    (found : scans[position]? = some scan) :
    scans.Perm (scan :: scans.eraseIdx position) ∧
      ∀ moved, (scans.set position moved).Perm (moved :: scans.eraseIdx position) := by
  obtain ⟨inside, rfl⟩ := List.getElem?_eq_some_iff.mp found
  exact ⟨(List.getElem_cons_eraseIdx_perm inside).symm, List.set_perm_cons_eraseIdx inside⟩

/-- What an action can do. -/
theorem Updates.step_cases (moved : before.step action = some after) :
    (∃ scan, scan.mayRaise = true ∧ scan.owes = false ∧ after = before.start scan) ∨
    (∃ call rest scans, before.scans.Perm (.check call :: rest) ∧ scans.Perm (.raised call :: rest) ∧
      after = { before with counter := before.counter + 1, scans := scans }) ∨
    (∃ call rest, before.scans.Perm (.raised call :: rest) ∧
      after = { before with
        counter := if call.decrements then before.counter - 1 else before.counter, scans := rest }) ∨
    (∃ call rest, before.scans.Perm (.visit call :: rest) ∧
      after = { before with
        counter := if call.increments then before.counter + 1 else before.counter, scans := rest }) ∨
    (action = .store ∧
      after = { before with counter := 0, sinceStore := 0, atStore := before.scans.length }) := by
  cases action with
  | startCheck call =>
      cases moved
      exact .inl ⟨_, rfl, rfl, rfl⟩
  | startVisit call =>
      cases moved
      exact .inl ⟨_, rfl, rfl, rfl⟩
  | advance position =>
      obtain ⟨scan, found, rfl⟩ := Option.map_eq_some_iff.mp moved
      obtain ⟨perm, permSet⟩ := scans_perm found
      cases scan with
      | check call => exact .inr (.inl ⟨call, _, _, perm, permSet _, rfl⟩)
      | raised call => exact .inr (.inr (.inl ⟨call, _, perm, rfl⟩))
      | visit call => exact .inr (.inr (.inr (.inl ⟨call, _, perm, rfl⟩)))
  | store =>
      cases moved
      exact .inr (.inr (.inr (.inr ⟨rfl, rfl⟩)))

/-- No action forgets a scan that has started. -/
theorem Updates.started_mono (moved : before.step action = some after) :
    before.started ≤ after.started := by
  rcases Updates.step_cases moved with ⟨scan, _, _, rfl⟩ | ⟨call, rest, scans, _, _, rfl⟩ |
    ⟨call, rest, _, rfl⟩ | ⟨call, rest, _, rfl⟩ | ⟨_, rfl⟩
  · exact Nat.le_succ _
  all_goals exact Nat.le_refl _

theorem toNat_raise {counter : ULong} {bound : Nat} (below : counter.toNat < bound)
    (few : bound < 2 ^ 32) : (counter + 1).toNat = counter.toNat + 1 := by
  rw [BitVec.toNat_add]
  exact Nat.mod_eq_of_lt (Nat.lt_of_le_of_lt below few)

theorem toNat_lower {counter : ULong} (positive : 0 < counter.toNat) :
    (counter - 1).toNat = counter.toNat - 1 := by
  bv_omega

/-- Every action keeps the accounts of the counter, as long as stores are quiet and the scans do not
    outnumber the words. -/
theorem CounterInv.step (inv : CounterInv before) (quiet : StoreIsQuiet before action)
    (moved : before.step action = some after) (few : after.started < 2 ^ 32) : CounterInv after := by
  have mono := Updates.started_mono moved
  obtain ⟨owed, bound, scans, running⟩ := inv
  simp only [Updates.owed, Updates.open_] at owed bound
  rcases Updates.step_cases moved with ⟨scan, raises, notOwes, rfl⟩ |
    ⟨call, rest, moving, perm, permAfter, rfl⟩ | ⟨call, rest, perm, rfl⟩ | ⟨call, rest, perm, rfl⟩ |
    ⟨isStore, rfl⟩
  · -- one more scan that may raise the counter, and one more that has started
    constructor <;>
      simp only [Updates.start, Updates.owed, Updates.open_, List.countP_cons, List.length_cons, raises,
        notOwes, if_true, Bool.false_eq_true, if_false] <;> omega
  · -- the check raises the counter and may owe the increment from now on
    have counts := And.intro (perm.countP_eq Scan.owes) (perm.countP_eq Scan.mayRaise)
    have countAfter := permAfter.countP_eq Scan.mayRaise
    have lengths := And.intro perm.length_eq permAfter.length_eq
    simp only [List.countP_cons, List.length_cons, Scan.owes, Scan.mayRaise, if_true,
      Bool.false_eq_true, if_false] at counts countAfter lengths
    have below : before.counter.toNat < before.started := by omega
    have raised := toNat_raise below (by omega)
    have atMostOne : moving.countP Scan.owes ≤ rest.countP Scan.owes + 1 := by
      rw [permAfter.countP_eq, List.countP_cons]
      split <;> omega
    constructor <;> simp only [Updates.owed, Updates.open_, raised] <;> omega
  · -- the check takes its increment back, or returns
    have counts := And.intro (perm.countP_eq Scan.owes) (perm.countP_eq Scan.mayRaise)
    have length := perm.length_eq
    simp only [List.countP_cons, List.length_cons, Scan.owes, Scan.mayRaise, Bool.false_eq_true,
      if_false] at counts length
    cases lowers : call.decrements with
    | true =>
        simp only [lowers, if_true] at counts ⊢
        have positive : 0 < before.counter.toNat := by omega
        have lowered := toNat_lower positive
        constructor <;> simp only [Updates.owed, Updates.open_, lowered] <;> omega
    | false =>
        simp only [lowers, Bool.false_eq_true, if_false] at counts ⊢
        constructor <;> simp only [Updates.owed, Updates.open_] <;> omega
  · -- the round of the active list raises the counter, or passes the page over
    have counts := And.intro (perm.countP_eq Scan.owes) (perm.countP_eq Scan.mayRaise)
    have length := perm.length_eq
    simp only [List.countP_cons, List.length_cons, Scan.owes, Scan.mayRaise, if_true,
      Bool.false_eq_true, if_false] at counts length
    cases raises : call.increments with
    | true =>
        have below : before.counter.toNat < before.started := by omega
        have raised := toNat_raise below (by omega)
        simp only [if_true]
        constructor <;> simp only [Updates.owed, Updates.open_, raised] <;> omega
    | false =>
        simp only [Bool.false_eq_true, if_false]
        constructor <;> simp only [Updates.owed, Updates.open_] <;> omega
  · -- nothing is owed at a quiet store
    have nothing : before.scans.countP Scan.owes = 0 := by
      rw [List.countP_eq_zero]
      intro scan listed owes
      rw [quiet isStore scan listed] at owes
      cases owes
    have atMostAll := before.scans.countP_le_length (p := Scan.mayRaise)
    have zero : (0 : ULong).toNat = 0 := rfl
    constructor <;> simp only [Updates.owed, Updates.open_, nothing, zero] <;> omega

end Step

/-- The counter under overlapping calls, from a fresh page and with fewer than 2^32 scans in all. In every
    run in which no store falls between the `++` of a check and its `--`, the counter is at most the
    number of scans that started since the last store, with those that were in progress at that store,
    and no `--` finds the counter at 0. -/
theorem counter_never_wraps (actions : List UpdateAction) (updates : Updates)
    (run : RunWhere Updates.step StoreIsQuiet .fresh actions updates)
    (few : updates.started < 2 ^ 32) :
    updates.counter.toNat ≤ updates.sinceStore + updates.atStore ∧
      ∀ call, .raised call ∈ updates.scans → call.decrements = true → updates.counter ≠ 0 := by
  have inv : CounterInv updates := by
    induction run with
    | start => exact CounterInv.fresh
    | step _ meets moved inductionHypothesis =>
        have fewBefore := Nat.lt_of_le_of_lt (Updates.started_mono moved) few
        exact (inductionHypothesis fewBefore).step meets moved few
  refine ⟨Nat.le_trans (Nat.le_add_right _ _) inv.bound, ?_⟩
  intro call listed lowers isZero
  have positive : 0 < updates.owed := List.countP_pos_iff.mpr ⟨_, listed, lowers⟩
  have owed := inv.owed
  rw [isZero] at owed
  exact absurd (Nat.lt_of_lt_of_le positive owed) (Nat.lt_irrefl 0)

/-- A check of a referenced page of a file. -/
def fileCheck : CheckCall := ⟨0, 1, 0, false⟩

/-- The page is accessed before the check raises the counter. -/
theorem counter_never_wraps_check :
    ∃ updates, perform Updates.step [.startCheck fileCheck, .store, .advance 0] .fresh = some updates ∧
      updates.counter = 1 ∧ updates.counter.toNat ≤ updates.sinceStore + updates.atStore := by
  have performed : performWhere Updates.step StoreIsQuiet
      [.startCheck fileCheck, .store, .advance 0] .fresh =
        some ⟨1, [.raised fileCheck], 1, 0, 1⟩ := by decide
  exact ⟨_, by decide, rfl, (counter_never_wraps _ _ (RunWhere.start.perform performed) (by decide)).1⟩

/-- The page is accessed between the `++` of the check and its `--`, and the counter wraps. -/
theorem counter_wraps :
    ¬ ∀ actions updates, Run Updates.step .fresh actions updates → updates.started < 2 ^ 32 →
      updates.counter.toNat ≤ updates.sinceStore + updates.atStore ∧
        ∀ call, .raised call ∈ updates.scans → call.decrements = true → updates.counter ≠ 0 := by
  intro never
  have performed : perform Updates.step
      [.startCheck fileCheck, .advance 0, .store, .advance 0] .fresh =
        some ⟨0xffffffff, [], 1, 0, 1⟩ := by decide
  have bound := (never _ _ (Run.perform .start performed) (by decide)).1
  exact absurd bound (by decide)

end KernelHacking.PageReplacement
