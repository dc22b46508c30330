/-
Module: KernelHacking.Model.CounterUpdates
Layer: Model
Purpose: The updates of `PG_referenced` of one page by calls that overlap. Each single update is one step:
  the `++` and the `--` of `page_check_references`, the `++` of `shrink_active_list` and the store of 0
  in `mark_page_accessed`. Any number of calls may be between two of their updates.
Imports: KernelHacking.Foundations.Actions, KernelHacking.Model.PageReplacement
Trusted boundary: human-reviewed model of the updates in mm/vmscan.c and mm/swap.c
Main exports: CheckCall, VisitCall, Scan, Updates, UpdateAction, Updates.advance, Updates.step
Open obligations: none
-/
import KernelHacking.Foundations.Actions
import KernelHacking.Model.PageReplacement

namespace KernelHacking.PageReplacement

/-- A call of `page_check_references`: its arguments, as in `pageCheckReferences`, and the result of its
    test of `PageSwapBacked`. -/
structure CheckCall where
  reclaimMode : ULong
  referencedPtes : Int
  vmFlags : ULong
  swapBacked : Bool
deriving DecidableEq, Repr

/-- The call goes through the branch with the `--`. -/
def CheckCall.decrements (call : CheckCall) : Bool :=
  decide (call.reclaimMode &&& RECLAIM_MODE_LUMPYRECLAIM = 0 ∧ call.vmFlags &&& VM_LOCKED = 0 ∧
    call.referencedPtes ≠ 0 ∧ call.swapBacked = false)

/-- A round of the loop of `shrink_active_list`: the results it gets, as in `shrinkActiveListPage`, and
    that of `page_is_file_cache`. -/
structure VisitCall where
  evictable : Bool
  referenced : Int
  vmFlags : ULong
  fileCache : Bool
deriving DecidableEq, Repr

/-- The round comes to the `++`. -/
def VisitCall.increments (call : VisitCall) : Bool :=
  decide (call.evictable = true ∧
    ¬ (call.referenced ≠ 0 ∧ (call.vmFlags &&& VM_EXEC ≠ 0 ∧ call.fileCache = true)))

/-- A scan in progress, and how far it has got with its updates. -/
inductive Scan where
  /-- `page_check_references` before its `++`. -/
  | check (call : CheckCall)
  /-- `page_check_references` behind its `++`. -/
  | raised (call : CheckCall)
  /-- A round of `shrink_active_list` before its `++`. -/
  | visit (call : VisitCall)
deriving DecidableEq, Repr

/-- The counter and the scans in progress. The last three fields only keep count of the history: how
    many scans have started, how many of them since the last store, and how many were in progress at
    that store. -/
structure Updates where
  counter : ULong
  scans : List Scan
  started : Nat
  sinceStore : Nat
  atStore : Nat
deriving DecidableEq, Repr

/-- The counter of a page that counts as accessed, with no scan in progress. -/
def Updates.fresh : Updates := ⟨0, [], 0, 0, 0⟩

/-- What can happen next. -/
inductive UpdateAction where
  /-- A call of `page_check_references` starts. -/
  | startCheck (call : CheckCall)
  /-- A round of `shrink_active_list` for the page starts. -/
  | startVisit (call : VisitCall)
  /-- The scan at a position of the list goes on to its next update, or returns. -/
  | advance (position : Nat)
  /-- `mark_page_accessed` stores 0. -/
  | store
deriving DecidableEq, Repr

/-- A scan starts. -/
def Updates.start (updates : Updates) (scan : Scan) : Updates :=
  { updates with
    scans := scan :: updates.scans
    started := updates.started + 1
    sinceStore := updates.sinceStore + 1 }

/-- The next update of a scan. -/
def Updates.advance (updates : Updates) (position : Nat) : Scan → Updates
  | .check call =>
      { updates with
        counter := updates.counter + 1
        scans := updates.scans.set position (.raised call) }
  | .raised call =>
      { updates with
        counter := if call.decrements then updates.counter - 1 else updates.counter
        scans := updates.scans.eraseIdx position }
  | .visit call =>
      { updates with
        counter := if call.increments then updates.counter + 1 else updates.counter
        scans := updates.scans.eraseIdx position }

/-- One action. -/
def Updates.step (updates : Updates) : UpdateAction → Option Updates
  | .startCheck call => some (updates.start (.check call))
  | .startVisit call => some (updates.start (.visit call))
  | .advance position => (updates.scans[position]?).map (updates.advance position)
  | .store =>
      some { updates with counter := 0, sinceStore := 0, atStore := updates.scans.length }

end KernelHacking.PageReplacement
