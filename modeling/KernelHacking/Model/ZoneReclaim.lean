/-
Module: KernelHacking.Model.ZoneReclaim
Layer: Model
Purpose: `shrink_mem_cgroup_zone`, the part of reclaim that works on one zone. `get_scan_count` decides how
  many pages of each list are to be scanned, from the size of the lists, the priority and what recent
  scans have brought; the loop then hands the lists to `shrink_list` in portions, until nothing is left to
  scan or enough has been reclaimed. The active lists go to `shrink_active_list`, the inactive ones to
  `shrink_inactive_list`. At the end the thread waits until there is less writeback. Other threads act on
  the pages of the lists between the calls, and on isolated pages during them.
Imports: Mathlib.Algebra.Group.Int.Defs, KernelHacking.Model.InactiveList
Trusted boundary: human-reviewed model of zone_page_state, inactive_list_is_low, shrink_active_list,
  shrink_list, get_scan_count and shrink_mem_cgroup_zone in mm/vmscan.c and of throttle_vm_writeout in
  mm/page-writeback.c, for a uniprocessor without memory cgroups and compaction:
  `should_continue_reclaim` is always false. Other threads change no list
Main exports: ZoneControl, ScanLimits, zonePageState, inactiveListIsLow, ListCall, shrinkActive,
  shrinkList, getScanCount, ZoneScan, scanRound, scanLoop, throttleVmWriteout, shrinkMemCgroupZone
Open obligations: none
-/
import Mathlib.Algebra.Group.Int.Defs
import KernelHacking.Model.InactiveList

namespace KernelHacking.PageReplacement

/-- What the code outside the model does during a call of `shrink_list`. -/
structure ListCall where
  /-- The page of a frame that is on a list, as other threads leave it in front of the call. -/
  listed : Nat → Page → Page
  tests : Nat → PageTests
  /-- A page that `shrink_active_list` has isolated, as other threads leave it in front of the loop body
      and in front of the second hold of `lru_lock`. -/
  visited : Nat → Page → Page
  moved : Nat → Page → Page
  world : ReclaimWorld

/-- The pages as other threads leave them. -/
def changePages (change : Nat → Page → Page) (pages : List LruPage) : List LruPage :=
  pages.map fun held => { held with page := change held.pfn held.page }

/-- The zone with the pages on its lists as other threads leave them. -/
def Zone.changePages (zone : Zone) (change : Nat → Page → Page) : Zone :=
  { zone with lists := fun lru => PageReplacement.changePages change (zone.lists lru) }

/-! ### One list -/

/-- Nothing has been done yet. -/
def Reclaimed.start (zone : Zone) : Reclaimed := ⟨zone, 0, 0, [], [], [], 0⟩

/-- What two calls one after the other have done. -/
def Reclaimed.add (first second : Reclaimed) : Reclaimed where
  zone := second.zone
  nrReclaimed := first.nrReclaimed + second.nrReclaimed
  nrScanned := first.nrScanned + second.nrScanned
  freed := second.freed ++ first.freed
  released := second.released ++ first.released
  dropped := second.dropped ++ first.dropped
  gaveUp := first.gaveUp + second.gaveUp

/-- `VM_BUG_ON(PageLRU(page))` in front of each page that is put back, and the check of the `put_page` that
    follows. -/
def checkPutBack : List LruPage → Except Bug Unit
  | [] => pure ()
  | held :: rest =>
      if held.page.flags .lru then throw .listed
      else if held.page.count = 0 then throw .unreferenced
      else checkPutBack rest

/-- The part of `shrink_active_list` behind the isolation, on pages as other threads leave them. The pages
    that are culled go back first. -/
def putBackActive (file : Bool) (call : ListCall) (zone : Zone) (isolation : Isolation) :
    Except Bug Reclaimed := do
  let hold := changePages call.visited isolation.dst
  checkPutBack (hold.filter fun held => !(call.tests held.pfn).evictable)
  let sorting := sortPages call.tests hold
  let (zone, released) := putbackCulled sorting.culled (zone.isolate file isolation, [])
  let active := changePages call.moved sorting.active
  let inactive := changePages call.moved sorting.inactive
  checkPutBack active
  checkPutBack inactive
  let (zone, freed) :=
    zone.putBack file isolation.nrTaken { sorting with active := active, inactive := inactive }
  pure { Reclaimed.start zone with released := freed ++ released }

/-- `shrink_active_list(nr_to_scan, mz, sc, priority, file)`, which reports no pages. -/
def shrinkActive (nrToScan : Nat) (sc : ScanControl) (file : Bool) (call : ListCall) (zone : Zone) :
    Except Halt Reclaimed :=
  match isolateActivePages nrToScan sc file call.tests zone with
  | none => throw .isolate
  | some isolation =>
      match putBackActive file call zone isolation with
      | .error bug => throw (.bug bug)
      | .ok reclaimed => pure reclaimed

/-- `is_file_lru(lru)`. -/
def LruList.isFile : LruList → Bool
  | .inactiveFile | .activeFile => true
  | .inactiveAnon | .activeAnon | .unevictable => false

/-- The local variables of `shrink_mem_cgroup_zone`, with what has been done so far, how many pages of each
    list `shrink_list` was asked to scan, and the number of its calls. -/
structure ZoneScan where
  reclaimed : Reclaimed
  nr : LruList → Nat
  asked : LruList → Nat
  calls : Nat

section Loop

variable (sc : ZoneControl) (limits : ScanLimits) (calls : Nat → ListCall)

/-- The condition of the outer loop, which the active anonymous pages have no part in. -/
def ZoneScan.pending (scan : ZoneScan) : Bool :=
  decide (scan.nr .inactiveAnon ≠ 0 ∨ scan.nr .activeFile ≠ 0 ∨ scan.nr .inactiveFile ≠ 0)

end Loop

end KernelHacking.PageReplacement
