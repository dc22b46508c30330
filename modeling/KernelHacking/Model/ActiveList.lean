/-
Module: KernelHacking.Model.ActiveList
Layer: Model
Purpose: `shrink_active_list` on the lists of a zone. Pages are isolated from the tail of the active list,
  sorted by what the loop body decides about each of them, and moved back to the head of the active or
  the inactive list; the counters of the zone are kept along the way. A list is given from its head to
  its tail, so a loop that takes pages from the tail of a list and adds them to the head of another one
  is a fold from the right.
Imports: KernelHacking.Model.PageReplacement
Trusted boundary: human-reviewed model of __isolate_lru_page, isolate_lru_pages, shrink_active_list,
  putback_lru_page and move_active_pages_to_lru in mm/vmscan.c, and of page_lru in mm_inline.h, for the
  configuration without memory cgroups. Lumpy reclaim is off: `shrink_active_list` resets the reclaim
  mode first. The state is the one that `lru_add_drain` leaves, and nothing else runs during the call
Main exports: LruList, LruPage, Zone, PageTests, isolateLruPage, isolateLruPages, sortPage,
  moveActivePagesToLru, shrinkActiveList
Open obligations: none
-/
import KernelHacking.Model.PageReplacement

namespace KernelHacking.PageReplacement

/-! ### Zones -/

/-- `enum lru_list`. -/
inductive LruList where
  | inactiveAnon
  | activeAnon
  | inactiveFile
  | activeFile
  | unevictable
deriving DecidableEq, Repr

/-- `LRU_ACTIVE + file * LRU_FILE`. -/
def LruList.active (file : Bool) : LruList := if file then .activeFile else .activeAnon

/-- `LRU_BASE + file * LRU_FILE`. -/
def LruList.inactive (file : Bool) : LruList := if file then .inactiveFile else .inactiveAnon

/-- A page on a list: the number of its frame, its `struct page` and `hpage_nr_pages(page)`. -/
structure LruPage where
  pfn : Nat
  page : Page
  nrPages : Nat

/-- `page_lru(page)`. -/
def pageLru (page : Page) : LruList :=
  if page.flags .unevictable then .unevictable
  else if page.flags .active then .active page.isFileCache
  else .inactive page.isFileCache

/-- The fields of `struct zone` that the modelled functions read or write. -/
structure Zone where
  /-- `zone->lruvec.lists`. -/
  lists : LruList → List LruPage
  /-- The counters `NR_LRU_BASE + lru`. -/
  nrLru : LruList → Int
  /-- The counters `NR_ISOLATED_ANON + file`. -/
  nrIsolated : Bool → Int
  recentScanned : Bool → Nat
  recentRotated : Bool → Nat
  pagesScanned : Nat

/-- `list_add(&page->lru, &lruvec->lists[lru])`. -/
def Zone.listAdd (zone : Zone) (lru : LruList) (page : LruPage) : Zone :=
  { zone with lists := Function.update zone.lists lru (page :: zone.lists lru) }

/-- `__mod_zone_page_state(zone, NR_LRU_BASE + lru, delta)`. -/
def Zone.modLru (zone : Zone) (lru : LruList) (delta : Int) : Zone :=
  { zone with nrLru := Function.update zone.nrLru lru (zone.nrLru lru + delta) }

/-- `__mod_zone_page_state(zone, NR_ISOLATED_ANON + file, delta)`. -/
def Zone.modIsolated (zone : Zone) (file : Bool) (delta : Int) : Zone :=
  { zone with nrIsolated := Function.update zone.nrIsolated file (zone.nrIsolated file + delta) }

/-- The base pages of a list of pages. -/
def basePages : List LruPage → Nat
  | [] => 0
  | page :: rest => page.nrPages + basePages rest

/-- What the code outside the model answers about a page during the call. -/
structure PageTests where
  /-- The page has no mapping, or its mapping has a `migratepage` operation. -/
  migratable : Bool
  /-- `page_evictable(page, NULL)`. -/
  evictable : Bool
  /-- There are too many buffer heads, and `try_to_release_page` gets rid of those of this page. -/
  releases : Bool
  /-- `page_referenced(page, …)`. -/
  referenced : Int
  /-- The `vm_flags` that `page_referenced` collects. -/
  vmFlags : ULong
deriving DecidableEq, Repr

/-! ### Isolating pages -/

def ISOLATE_INACTIVE : ULong := 0x1
def ISOLATE_ACTIVE : ULong := 0x2
def ISOLATE_CLEAN : ULong := 0x4
def ISOLATE_UNMAPPED : ULong := 0x8
def ISOLATE_ASYNC_MIGRATE : ULong := 0x10

/-- The results 0, `-EBUSY` and `-EINVAL` of `__isolate_lru_page`. -/
inductive IsolateResult where
  | isolated (page : Page)
  | busy
  | invalid

/-- `__isolate_lru_page(page, mode, file)`. -/
def isolateLruPage (mode : ULong) (file migratable : Bool) (page : Page) : IsolateResult :=
  if page.flags .lru = false then .invalid
  else if mode &&& (ISOLATE_ACTIVE ||| ISOLATE_INACTIVE) ≠ ISOLATE_ACTIVE ||| ISOLATE_INACTIVE ∧
      page.flags .active ≠ decide (mode &&& ISOLATE_ACTIVE ≠ 0) then .invalid
  else if mode &&& (ISOLATE_ACTIVE ||| ISOLATE_INACTIVE) ≠ ISOLATE_ACTIVE ||| ISOLATE_INACTIVE ∧
      page.isFileCache ≠ file then .invalid
  else if page.flags .unevictable = true then .invalid
  else if mode &&& (ISOLATE_CLEAN ||| ISOLATE_ASYNC_MIGRATE) ≠ 0 ∧ page.flags .writeback = true then .busy
  else if mode &&& (ISOLATE_CLEAN ||| ISOLATE_ASYNC_MIGRATE) ≠ 0 ∧ page.flags .dirty = true ∧
      (mode &&& ISOLATE_CLEAN ≠ 0 ∨ migratable = false) then .busy
  else if mode &&& ISOLATE_UNMAPPED ≠ 0 ∧ 0 < page.mapcount then .busy
  -- `get_page_unless_zero`: a page without references is being freed elsewhere
  else if page.count = 0 then .busy
  else .isolated { page.setFlag .lru false with count := page.count + 1 }

/-- The lists and the local variables of `isolate_lru_pages`. -/
structure Isolation where
  src : List LruPage
  dst : List LruPage
  nrTaken : Nat
  nrScanned : Nat

/-- The loop of `isolate_lru_pages`, with the number of pages left to scan. `none` is `BUG()`. -/
def isolateLruPages (mode : ULong) (file : Bool) (tests : Nat → PageTests) :
    Nat → Isolation → Option Isolation
  | 0, state => some state
  | left + 1, state =>
      match state.src.getLast? with
      | none => some state
      | some page =>
          match isolateLruPage mode file (tests page.pfn).migratable page.page with
          | .isolated taken =>
              isolateLruPages mode file tests left
                { src := state.src.dropLast
                  dst := { page with page := taken } :: state.dst
                  nrTaken := state.nrTaken + page.nrPages
                  nrScanned := state.nrScanned + 1 }
          | .busy =>
              isolateLruPages mode file tests left
                { state with
                  src := page :: state.src.dropLast
                  nrScanned := state.nrScanned + 1 }
          | .invalid => none

/-! ### Sorting the isolated pages -/

/-- `page_has_private(page)`. -/
def Page.hasPrivate (page : Page) : Bool := page.flags .private_ || page.flags .private2

/-- `try_to_release_page(page, 0)`, if it succeeds: the buffers go, with the reference they hold. -/
def releaseBuffers (releases : Bool) (page : Page) : Page :=
  if releases = true ∧ page.hasPrivate = true then
    { page.setFlag .private_ false with count := page.count - 1 }
  else page

/-- The pages that the loop of `shrink_active_list` has put on `l_active`, on `l_inactive` and on the
    unevictable list, and `nr_rotated`. -/
structure Sorting where
  active : List LruPage
  inactive : List LruPage
  culled : List LruPage
  nrRotated : Nat

/-- The decision of the loop about a page, and the page after it. Culling ends with the `put_page` of
    `putback_lru_page`. -/
def visitPage (tests : Nat → PageTests) (held : LruPage) : Visit × LruPage :=
  let test := tests held.pfn
  let released := if test.evictable then releaseBuffers test.releases held.page else held.page
  let (visit, page) := shrinkActiveListPage test.evictable test.referenced test.vmFlags released
  (visit, { held with page := if test.evictable then page else { page with count := page.count - 1 } })

/-- One round of the loop of `shrink_active_list`. -/
def sortPage (tests : Nat → PageTests) (held : LruPage) (sorting : Sorting) : Sorting :=
  let test := tests held.pfn
  let (visit, page) := visitPage tests held
  let nrRotated := sorting.nrRotated +
    if test.evictable = true ∧ test.referenced ≠ 0 then held.nrPages else 0
  match visit with
  | .culled => { sorting with culled := page :: sorting.culled, nrRotated := nrRotated }
  | .keptExec | .kept => { sorting with active := page :: sorting.active, nrRotated := nrRotated }
  | .deactivated => { sorting with inactive := page :: sorting.inactive, nrRotated := nrRotated }

/-- The loop of `shrink_active_list` over `l_hold`, from its tail. -/
def sortPages (tests : Nat → PageTests) (hold : List LruPage) : Sorting :=
  hold.foldr (sortPage tests) ⟨[], [], [], 0⟩

/-! ### Moving the pages back -/

/-- The page behind `SetPageLRU` and the decrement of `put_page_testzero`. -/
def LruPage.putBack (moved : LruPage) : LruPage :=
  { moved with page := { moved.page.setFlag .lru true with count := moved.page.count - 1 } }

/-- One round of the loop of `move_active_pages_to_lru`. A page whose last reference is dropped is taken
    off the list again and freed. -/
def movePage (lru : LruList) (moved : LruPage) : Zone × List LruPage → Zone × List LruPage
  | (zone, pagesToFree) =>
      if moved.putBack.page.count = 0 then
        (zone.modLru lru (-moved.nrPages),
          { moved with page := (moved.putBack.page.setFlag .lru false).setFlag .active false } ::
            pagesToFree)
      else (zone.listAdd lru moved.putBack, pagesToFree)

/-- `move_active_pages_to_lru(zone, list, pages_to_free, lru)`. -/
def moveActivePagesToLru (list : List LruPage) (lru : LruList) (state : Zone × List LruPage) :
    Zone × List LruPage :=
  let (zone, pagesToFree) := list.foldr (movePage lru) state
  (zone.modLru lru (basePages list), pagesToFree)

/-! ### `shrink_active_list` -/

/-- The fields of `struct scan_control` that `shrink_active_list` reads. -/
structure ScanControl where
  mayUnmap : Bool
  mayWritepage : Bool
deriving DecidableEq, Repr

/-- The isolation mode of `shrink_active_list`. -/
def ScanControl.isolateMode (sc : ScanControl) : ULong :=
  ISOLATE_ACTIVE ||| (if sc.mayUnmap then 0 else ISOLATE_UNMAPPED) |||
    (if sc.mayWritepage then 0 else ISOLATE_CLEAN)

/-- The call of `isolate_lru_pages` in `shrink_active_list`. -/
def isolateActivePages (nrToScan : Nat) (sc : ScanControl) (file : Bool) (tests : Nat → PageTests)
    (zone : Zone) : Option Isolation :=
  isolateLruPages sc.isolateMode file tests nrToScan ⟨zone.lists (.active file), [], 0, 0⟩

/-- The zone behind the first hold of `lru_lock`. -/
def Zone.isolate (zone : Zone) (file : Bool) (isolation : Isolation) : Zone :=
  let zone := { zone with
    lists := Function.update zone.lists (.active file) isolation.src
    pagesScanned := zone.pagesScanned + isolation.nrScanned
    recentScanned := Function.update zone.recentScanned file
      (zone.recentScanned file + isolation.nrTaken) }
  (zone.modLru (.active file) (-isolation.nrTaken)).modIsolated file isolation.nrTaken

/-- `add_page_to_unevictable_list(page)` for each culled page. -/
def Zone.cull (zone : Zone) (culled : List LruPage) : Zone :=
  culled.foldr (fun page zone => (zone.listAdd .unevictable page).modLru .unevictable page.nrPages) zone

/-- The zone behind the second hold of `lru_lock`, and the pages to free. -/
def Zone.putBack (zone : Zone) (file : Bool) (nrTaken : Nat) (sorting : Sorting) :
    Zone × List LruPage :=
  let zone := { zone with
    recentRotated := Function.update zone.recentRotated file
      (zone.recentRotated file + sorting.nrRotated) }
  let state := moveActivePagesToLru sorting.active (.active file) (zone, [])
  let (zone, pagesToFree) := moveActivePagesToLru sorting.inactive (.inactive file) state
  (zone.modIsolated file (-nrTaken), pagesToFree)

/-- `shrink_active_list(nr_to_scan, mz, sc, priority, file)`, with the pages it frees. -/
def shrinkActiveList (nrToScan : Nat) (sc : ScanControl) (file : Bool) (tests : Nat → PageTests)
    (zone : Zone) : Option (Zone × List LruPage) :=
  (isolateActivePages nrToScan sc file tests zone).map fun isolation =>
    let sorting := sortPages tests isolation.dst
    ((zone.isolate file isolation).cull sorting.culled).putBack file isolation.nrTaken sorting

end KernelHacking.PageReplacement
