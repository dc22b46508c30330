/-
Module: KernelHacking.Model.InactiveList
Layer: Model
Purpose: `shrink_inactive_list` on the lists of a zone. Direct reclaim first waits while other threads have
  too many pages isolated. Pages are isolated from the tail of the inactive list, in lumpy mode together
  with their neighbours in memory from whatever list these are on; the loop of `shrink_page_list` decides
  about each of them, a second time if direct reclaim stalls for writeback; and what is left goes back to
  the lists its flags name. A list is given from its head to its tail.
Imports: Mathlib.Algebra.Group.Nat.Defs, KernelHacking.Model.PageReclaim
Trusted boundary: human-reviewed model of isolate_lru_pages, too_many_isolated, shrink_page_list,
  update_isolated_counts, should_reclaim_stall, putback_inactive_pages and shrink_inactive_list in
  mm/vmscan.c, for a uniprocessor without memory cgroups, compaction and huge pages: nothing else runs
  while `lru_lock` is held. The state is the one that `lru_add_drain` leaves. During the call other threads
  change no list. The waits for the block device that a timeout ends, event counters and trace points are
  left out
Main exports: setReclaimMode, FrameTests, IsolatedPoll, waitIsolated, ReclaimWorld, Collecting, lumpyScan,
  collectPages, Shrinking, shrinkPageList, updateIsolatedCounts, shouldReclaimStall, putbackInactivePages,
  Reclaimed, shrinkInactiveList
Open obligations: none
-/
import Mathlib.Algebra.Group.Nat.Defs
import KernelHacking.Model.PageReclaim

namespace KernelHacking.PageReplacement

def SWAP_CLUSTER_MAX : Nat := 32

/-! ### The reclaim mode -/

/-- The mode that `reset_reclaim_mode(sc)` sets. -/
def resetReclaimMode : ULong := RECLAIM_MODE_SINGLE ||| RECLAIM_MODE_ASYNC

/-! ### Waiting -/

/-- One test of `too_many_isolated(zone, file, sc)`: the counters it reads, and
    `fatal_signal_pending(current)` behind the wait that follows if there are too many. -/
structure IsolatedPoll where
  inactive : Nat
  isolated : Nat
  killed : Bool
deriving DecidableEq, Repr

/-- What is known about a page frame next to an isolated page. -/
structure FrameTests where
  /-- `pfn_valid_within(pfn)`. -/
  valid : Bool
  /-- The frame belongs to the zone. -/
  sameZone : Bool
  /-- `PageTail(page)`. -/
  tail : Bool
  /-- The `struct page` of a frame that is on no list. -/
  page : Page

/-- What the code outside the model does during a call. -/
structure ReclaimWorld where
  frames : Nat → FrameTests
  /-- `nr_swap_pages`. -/
  nrSwapPages : Int
  /-- The page has no mapping, or its mapping has a `migratepage` operation. -/
  migratable : Nat → Bool
  /-- The tests whether other threads have isolated too many pages. -/
  polls : List IsolatedPoll
  /-- The two passes of `shrink_page_list`. -/
  first : Nat → PageServices
  second : Nat → PageServices
  /-- `putback_inactive_pages`. -/
  last : Nat → PageServices

/-- The lists and the local variables of `isolate_lru_pages`. -/
structure Collecting where
  lists : LruList → List LruPage
  dst : List LruPage
  nrTaken : Nat
  scan : Nat

/-- A page is moved from its list to `dst`. -/
def Collecting.take (state : Collecting) (lru : LruList) (held : LruPage) (page : Page) : Collecting :=
  { state with
    lists := Function.update state.lists lru
      ((state.lists lru).filter fun other => decide (other.pfn ≠ held.pfn))
    dst := { held with page := page } :: state.dst
    nrTaken := state.nrTaken + held.nrPages }

/-- What the loop of `shrink_page_list` has done so far. -/
structure Shrinking where
  retPages : List LruPage
  freePages : List LruPage
  /-- Put back by `putback_lru_page`. -/
  culled : List LruPage
  /-- Left to threads that have taken a reference. -/
  dropped : List LruPage
  /-- `sc->reclaim_mode`. -/
  mode : ULong
  tally : Tally

def Tally.add (first second : Tally) : Tally where
  nrScanned := first.nrScanned + second.nrScanned
  nrDirty := first.nrDirty + second.nrDirty
  nrCongested := first.nrCongested + second.nrCongested
  nrWriteback := first.nrWriteback + second.nrWriteback
  nrReclaimed := first.nrReclaimed + second.nrReclaimed
  pgactivate := first.pgactivate + second.pgactivate

/-- One round of the loop, with the list the page goes to. -/
def Shrinking.round (state : Shrinking) (held : LruPage) (outcome : Outcome) : Shrinking :=
  let page := { held with page := outcome.page }
  let state := { state with
    mode := if outcome.resetsMode then resetReclaimMode else state.mode
    tally := state.tally.add outcome.tally }
  match outcome.fate with
  | .freed | .freedOrphan => { state with freePages := page :: state.freePages }
  | .dropped => { state with dropped := page :: state.dropped }
  | .culled => { state with culled := page :: state.culled }
  | .kept | .activated => { state with retPages := page :: state.retPages }

/-- `ClearPageActive(page)` for each page. -/
def clearActive (pages : List LruPage) : List LruPage :=
  pages.map fun held => { held with page := held.page.setFlag .active false }

/-- `add_page_to_lru_list(zone, page, page_lru(page))`. -/
def Zone.addToLru (zone : Zone) (held : LruPage) : Zone :=
  (zone.listAdd (pageLru held.page) held).modLru (pageLru held.page) held.nrPages

/-- The end of `putback_lru_page`: the page goes to its list, unless the reference that is dropped was the
    last one, and `put_page` frees it. -/
def putbackToLru (held : LruPage) : Zone × List LruPage → Zone × List LruPage
  | (zone, freed) =>
      if held.page.count = 0 then (zone, held :: freed) else (zone.addToLru held, freed)

/-- The pages that `shrink_page_list` has culled, in the order of the loop. -/
def putbackCulled (culled : List LruPage) (state : Zone × List LruPage) : Zone × List LruPage :=
  culled.foldr putbackToLru state

/-- One round of `putback_inactive_pages`. -/
def putbackInactivePage (services : Nat → PageServices) (held : LruPage) :
    Zone × List LruPage × List LruPage → Except Bug (Zone × List LruPage × List LruPage)
  | (zone, released, toFree) =>
      let page := (services held.pfn).env .putback held.page
      if page.flags .lru then throw .listed
      else if !(services held.pfn).evictable page then do
        let page ← putback (services held.pfn) page
        let (zone, released) := putbackToLru { held with page := page } (zone, released)
        pure (zone, released, toFree)
      else do
        let lru := pageLru (page.setFlag .lru true)
        let zone :=
          if lru = .activeAnon ∨ lru = .activeFile then
            { zone with
              recentRotated := Function.update zone.recentRotated page.isFileCache
                (zone.recentRotated page.isFileCache + held.nrPages) }
          else zone
        let page ← putPageTestzero (page.setFlag .lru true)
        if page.count = 0 then
          -- the page is taken off the list again
          pure (zone, released,
            { held with page := (page.setFlag .lru false).setFlag .active false } :: toFree)
        else pure (zone.addToLru { held with page := page }, released, toFree)

/-- `putback_inactive_pages(mz, page_list)`: the zone, the pages that `put_page` frees, and the pages that
    are left to free on the list. -/
def putbackInactivePages (services : Nat → PageServices) (pages : List LruPage)
    (state : Zone × List LruPage) : Except Bug (Zone × List LruPage × List LruPage) :=
  pages.foldrM (putbackInactivePage services) (state.1, state.2, [])

/-! ### `shrink_inactive_list` -/

/-- What a call has done: the zone behind it, the pages that went to the allocator, and those that other
    threads will free. -/
structure Reclaimed where
  zone : Zone
  nrReclaimed : Nat
  /-- `sc->nr_scanned`, as far as the call has added to it. -/
  nrScanned : Nat
  /-- Freed by `shrink_page_list`. -/
  freed : List LruPage
  /-- Freed when the last reference was dropped on the way back to the lists. -/
  released : List LruPage
  dropped : List LruPage
  /-- How many calls a fatal signal has ended. -/
  gaveUp : Nat

/-- Why a call does not go through. -/
inductive Halt where
  /-- The page on the list is not one of the list. -/
  | isolate
  | bug (bug : Bug)
  /-- The call still waits for other threads to put back their pages. -/
  | waits
deriving DecidableEq, Repr

end KernelHacking.PageReplacement
