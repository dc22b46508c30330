/-
Module: KernelHacking.Model.PageReplacement
Layer: Model
Purpose: The page-replacement code of Project 2 on one page: the counter `PG_referenced` that took the
  place of the flag of that name, the three functions that update it (`mark_page_accessed`,
  `page_check_references`, the loop body of `shrink_active_list`), and the path of a frame from one
  lifetime to the next (`free_pages_prepare`, `prep_new_page`, `page_add_new_anon_rmap`). A history is
  a list of events on the page; each event fixes the arguments of the call, that is what
  `page_referenced` reported and the flags of the mappings.
Imports: Mathlib.Logic.Function.Basic
Trusted boundary: human-reviewed model of mm/vmscan.c, mm/swap.c, mm/page_alloc.c and mm/rmap.c
Main exports: Page, markPageAccessed, pageCheckReferences, activateLocked, shrinkActiveListPage,
  freePagesPrepare, prepNewPage, pageAddNewAnonRmap, Event, Event.apply, run
Open obligations: none
-/
import Mathlib.Logic.Function.Basic

namespace KernelHacking.PageReplacement

/-- `unsigned long` on the 32-bit target. -/
abbrev ULong := BitVec 32

/-- `enum pageflags`, for the configuration of the emulator. -/
inductive PageFlag where
  | locked
  | error
  | referenced
  | uptodate
  | dirty
  | lru
  | active
  | slab
  | ownerPriv1
  | arch1
  | reserved
  | private_
  | private2
  | writeback
  | head
  | tail
  | swapcache
  | mappedtodisk
  | reclaim
  | swapbacked
  | unevictable
  | mlocked
deriving DecidableEq, Repr

/-- What `page->mapping` points to. The lowest bit of the pointer tells an anonymous mapping. -/
inductive Mapping where
  | null
  | anon
  | file
deriving DecidableEq, Repr

/-- The fields of `struct page` that the modelled functions read or write. -/
structure Page where
  flags : PageFlag → Bool
  mapping : Mapping
  /-- `page_mapcount(page)`. -/
  mapcount : Int
  /-- `page->_count`. -/
  count : Int
  /-- `page->PG_referenced`. -/
  pgReferenced : ULong

/-- Set or clear one flag. -/
def Page.setFlag (page : Page) (flag : PageFlag) (value : Bool) : Page :=
  { page with flags := Function.update page.flags flag value }

/-- `page_is_file_cache(page)`. -/
def Page.isFileCache (page : Page) : Bool := !page.flags .swapbacked

def VM_EXEC : ULong := 0x4
def VM_LOCKED : ULong := 0x2000
def RECLAIM_MODE_LUMPYRECLAIM : ULong := 0x8
def PG_REFERENCED_SHRINK_THRESHOLD : ULong := 2

/-- `activate_page(page)` on a uniprocessor, with the test of `__activate_page`. -/
def activatePage (page : Page) : Page :=
  if page.flags .lru && !page.flags .active && !page.flags .unevictable then
    page.setFlag .active true
  else page

/-- `mark_page_accessed(page)`. -/
def markPageAccessed (page : Page) : Page :=
  let page :=
    if !page.flags .active && !page.flags .unevictable && page.flags .lru then activatePage page
    else page
  { page with pgReferenced := 0 }

/-- `enum page_references`. -/
inductive PageReferences where
  | reclaim
  | reclaimClean
  | keep
  | activate
deriving DecidableEq, Repr

/-- `page_check_references(page, mz, sc)`, with `sc->reclaim_mode`, the value of `page_referenced` and
    the `vm_flags` it collected. -/
def pageCheckReferences (reclaimMode : ULong) (referencedPtes : Int) (vmFlags : ULong) (page : Page) :
    PageReferences × Page :=
  let referencedTime := page.pgReferenced
  let page := { page with pgReferenced := page.pgReferenced + 1 }
  if reclaimMode &&& RECLAIM_MODE_LUMPYRECLAIM ≠ 0 then (.reclaim, page)
  else if vmFlags &&& VM_LOCKED ≠ 0 then (.reclaim, page)
  else if referencedPtes ≠ 0 then
    if page.flags .swapbacked then (.activate, page)
    else
      let page := { page with pgReferenced := page.pgReferenced - 1 }
      if referencedTime < 1 ∨ referencedPtes > 1 then (.activate, page)
      else if vmFlags &&& VM_EXEC ≠ 0 then (.activate, page)
      else (.keep, page)
  else if referencedTime < 1 ∧ page.flags .swapbacked = false then (.reclaimClean, page)
  else (.reclaim, page)

/-- `shrink_page_list` at the label `activate_locked`, and `putback_inactive_pages` after it: the page
    that reclaim activates goes back to its list. -/
def activateLocked (page : Page) : Page := (page.setFlag .active true).setFlag .lru true

/-- What the loop of `shrink_active_list` does with a page. -/
inductive Visit where
  /-- The page is not evictable and goes to the unevictable list. -/
  | culled
  /-- The page is a referenced page of an executable file mapping and stays active. -/
  | keptExec
  /-- The counter is below the threshold and the page stays active. -/
  | kept
  /-- The page goes to the inactive list. -/
  | deactivated
deriving DecidableEq, Repr

/-- `putback_lru_page(page)` for a page that `page_evictable` rejects: it goes to the unevictable
    list. -/
def putbackLruPage (page : Page) : Page :=
  ((page.setFlag .active false).setFlag .unevictable true).setFlag .lru true

/-- One round of the loop of `shrink_active_list`, with the results of `page_evictable` and of
    `page_referenced` and the `vm_flags` the latter collected. -/
def shrinkActiveListPage (evictable : Bool) (referenced : Int) (vmFlags : ULong) (page : Page) :
    Visit × Page :=
  if !evictable then (.culled, putbackLruPage page)
  else if referenced ≠ 0 ∧ (vmFlags &&& VM_EXEC ≠ 0 ∧ page.isFileCache = true) then (.keptExec, page)
  else
    let page := { page with pgReferenced := page.pgReferenced + 1 }
    if page.pgReferenced < PG_REFERENCED_SHRINK_THRESHOLD then (.kept, page)
    else (.deactivated, page.setFlag .active false)

/-- `PAGE_FLAGS_CHECK_AT_FREE`. -/
def PAGE_FLAGS_CHECK_AT_FREE : List PageFlag :=
  [.lru, .locked, .private_, .private2, .writeback, .reserved, .slab, .swapcache, .active,
    .unevictable, .mlocked]

/-- `free_pages_check(page)`: `none` for a bad page. All flags are cleared, since
    `PAGE_FLAGS_CHECK_AT_PREP` is all of them. -/
def freePagesCheck (page : Page) : Option Page :=
  if page.mapcount ≠ 0 ∨ page.mapping ≠ .null ∨ page.count ≠ 0 ∨
      PAGE_FLAGS_CHECK_AT_FREE.any page.flags = true then none
  else some { page with flags := fun _ => false }

/-- `free_pages_prepare(page, 0)`: `none` for a bad page, which is not freed. -/
def freePagesPrepare (page : Page) : Option Page :=
  freePagesCheck (if page.mapping = .anon then { page with mapping := .null } else page)

/-- `PAGE_FLAGS_CHECK_AT_PREP`: all flags. -/
def PAGE_FLAGS_CHECK_AT_PREP : List PageFlag :=
  [.locked, .error, .referenced, .uptodate, .dirty, .lru, .active, .slab, .ownerPriv1, .arch1,
    .reserved, .private_, .private2, .writeback, .head, .tail, .swapcache, .mappedtodisk, .reclaim,
    .swapbacked, .unevictable, .mlocked]

/-- `check_new_page(page)`: whether the page is bad. -/
def checkNewPage (page : Page) : Prop :=
  page.mapcount ≠ 0 ∨ page.mapping ≠ .null ∨ page.count ≠ 0 ∨
    PAGE_FLAGS_CHECK_AT_PREP.any page.flags = true

instance (page : Page) : Decidable (checkNewPage page) :=
  inferInstanceAs (Decidable (_ ∨ _ ∨ _ ∨ _))

/-- `prep_new_page(page, 0, gfp_flags)`: `none` for a bad page, which is not handed out. -/
def prepNewPage (page : Page) : Option Page :=
  if checkNewPage page then none else some { page with count := 1 }

/-- A frame is freed and handed out again. The free lists do not touch the modelled fields. -/
def reallocate (page : Page) : Option Page := (freePagesPrepare page).bind prepNewPage

/-- `lru_cache_add_lru(page, lru)` for an active list, once the page vector is drained. -/
def lruCacheAddActive (page : Page) : Page :=
  let page :=
    if page.flags .active then page.setFlag .active false
    else if page.flags .unevictable then page.setFlag .unevictable false
    else page
  (page.setFlag .lru true).setFlag .active true

/-- `page_add_new_anon_rmap(page, vma, address)`, with the result of `page_evictable`. -/
def pageAddNewAnonRmap (evictable : Bool) (page : Page) : Page :=
  let page := { page.setFlag .swapbacked true with mapcount := 1, mapping := .anon }
  if evictable then lruCacheAddActive page
  else (page.setFlag .unevictable true).setFlag .lru true

/-- One event in the history of a page. -/
inductive Event where
  /-- `mark_page_accessed`. -/
  | access
  /-- A `shrink_active_list` visit of an evictable page. -/
  | visit (referenced : Int) (vmFlags : ULong)
  /-- A `shrink_active_list` visit of a page that is not evictable. -/
  | cull
  /-- A `page_check_references` call. -/
  | check (reclaimMode : ULong) (referencedPtes : Int) (vmFlags : ULong)
  /-- Any other code sets or clears a flag of the page. -/
  | setFlag (flag : PageFlag) (value : Bool)
deriving DecidableEq, Repr

/-- The page after an event. -/
def Event.apply (page : Page) : Event → Page
  | .access => markPageAccessed page
  | .visit referenced vmFlags => (shrinkActiveListPage true referenced vmFlags page).2
  | .cull => (shrinkActiveListPage false 0 0 page).2
  | .check reclaimMode referencedPtes vmFlags =>
      (pageCheckReferences reclaimMode referencedPtes vmFlags page).2
  | .setFlag flag value => page.setFlag flag value

/-- The page after a history. -/
def run (page : Page) (events : List Event) : Page := events.foldl Event.apply page

end KernelHacking.PageReplacement
