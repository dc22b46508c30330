/-
Module: KernelHacking.Model.PageReclaim
Layer: Model
Purpose: One round of the loop of `shrink_page_list`: an isolated page of the inactive list is locked,
  checked for references, given swap space, unmapped, written out, stripped of its buffers and removed
  from its cache, and leaves each of these stages towards one of the labels at the end of the loop. Other
  threads run meanwhile: `env` is what they did to the page before a statement reads it. A `BUG_ON` or
  `VM_BUG_ON` that fires is an error of the model, also where the configuration compiles it to nothing.
Imports: KernelHacking.Model.ActiveList
Trusted boundary: human-reviewed model of shrink_page_list, pageout, __remove_mapping and
  putback_lru_page in mm/vmscan.c, of unlock_page, get_page, put_page_testzero, add_to_swap,
  add_to_swap_cache, delete_from_swap_cache, try_to_free_swap, try_to_unmap, try_to_release_page,
  try_to_free_buffers, clear_page_dirty_for_io, __delete_from_page_cache and free_hot_cold_page, with their
  checks, for the configuration without memory cgroups and huge pages. Left out are the checks inside rmap
  walks, file systems and the radix tree, and that the page is one of the zone. `page_evictable` does not
  change during `putback_lru_page`
Main exports: ReclaimControl, Backing, pageMapping, Bug, unlockPage, Point, PageServices, addToSwap,
  tryToFreeSwap, Fate, Outcome, removeMapping, pageout, shrinkPage, freeHotColdPage
Open obligations: none
-/
import KernelHacking.Model.ActiveList

namespace KernelHacking.PageReplacement

/-! ### Scan control -/

def RECLAIM_MODE_SINGLE : ULong := 0x1
def RECLAIM_MODE_ASYNC : ULong := 0x2
/-- What `page_mapping(page)` points to. -/
inductive Backing where
  | swapper
  | file
deriving DecidableEq, Repr

/-- `page_mapping(page)`. -/
def pageMapping (page : Page) : Option Backing :=
  if page.flags .swapcache then some .swapper
  else if page.mapping = .file then some .file
  else none

inductive Bug where
  /-- `VM_BUG_ON(PageActive(page))`. -/
  | active
  /-- `BUG_ON(!PageLocked(page))`, and `VM_BUG_ON` of it. -/
  | notLocked
  /-- `BUG_ON(mapping != page_mapping(page))`. -/
  | mappingChanged
  /-- `BUG_ON(page_mapped(page))`. -/
  | mapped
  /-- `VM_BUG_ON(PageWriteback(page))`. -/
  | writeback
  /-- `VM_BUG_ON(PageLRU(page) || PageUnevictable(page))`, and `VM_BUG_ON(PageLRU(page))`. -/
  | listed
  /-- `VM_BUG_ON(!PageUptodate(page))`. -/
  | notUptodate
  /-- `VM_BUG_ON(PageSwapCache(page))`. -/
  | swapCache
  /-- `VM_BUG_ON(!PageSwapCache(page))`. -/
  | notSwapCache
  /-- `VM_BUG_ON(!PageSwapBacked(page))`. -/
  | notSwapBacked
  /-- `VM_BUG_ON(atomic_read(&page->_count) <= 0)`, and `== 0`. -/
  | unreferenced
deriving DecidableEq, Repr

/-- `unlock_page(page)`. -/
def unlockPage (page : Page) : Except Bug Page :=
  if page.flags .locked = false then throw .notLocked else pure (page.setFlag .locked false)

/-- `__clear_page_locked(page)`. -/
def clearPageLocked (page : Page) : Page := page.setFlag .locked false

/-- `put_page_testzero(page)`, which is true if no reference is left. -/
def putPageTestzero (page : Page) : Except Bug Page :=
  if page.count = 0 then throw .unreferenced else pure { page with count := page.count - 1 }

/-! ### Other threads -/

/-- The statements of the loop in front of which other threads can change the page. -/
inductive Point where
  /-- `trylock_page(page)`, at the top of the loop. -/
  | lock
  | evictable
  | writeback
  /-- Behind `wait_on_page_writeback(page)`. -/
  | waited
  | references
  | swap
  | unmap
  | dirty
  | pageout
  /-- Behind a write that has unlocked the page. -/
  | written
  /-- The second `trylock_page(page)`. -/
  | relock
  | relocked
  | buffers
  /-- `put_page_testzero(page)` on a page without a mapping. -/
  | orphan
  /-- `page_freeze_refs(page, 2)`. -/
  | freeze
  | putback
deriving DecidableEq, Repr

/-- At these points the reclaiming thread does not hold the page lock. -/
def Point.unlocked : Point → Bool
  | .lock | .written | .relock | .orphan | .putback => true
  | _ => false

/-- What one walk over the page tables that map a page comes to, in `try_to_unmap`. -/
inductive UnmapResult where
  | again
  | fail
  | mlock
deriving DecidableEq, Repr

/-- What the code outside the model does about a page during one round. -/
structure PageServices where
  /-- The page as other threads leave it in front of a statement. -/
  env : Point → Page → Page
  /-- `mapping_unevictable(page_mapping(page))`, if there is a mapping. -/
  mappingUnevictable : Bool
  /-- `page_referenced(page, …)`. -/
  referenced : Int
  /-- The `vm_flags` that `page_referenced` collects. -/
  vmFlags : ULong
  /-- `get_swap_page()` finds a swap entry. -/
  swapEntry : Bool
  /-- `radix_tree_preload(gfp_mask)` and `radix_tree_insert(…)` get memory. -/
  preloads : Bool
  inserts : Bool
  /-- The page table entries that `try_to_unmap` removes. -/
  unmaps : Nat
  /-- One of them was dirty. -/
  unmapsDirty : Bool
  unmapResult : UnmapResult
  /-- `mapping->a_ops->writepage` is there. -/
  hasWritepage : Bool
  /-- `may_write_to_queue(mapping->backing_dev_info, sc)`. -/
  mayWriteToQueue : Bool
  /-- `mapping->a_ops->writepage(page, &wbc)`: whether it returns `AOP_WRITEPAGE_ACTIVATE`, and the page
      behind it. -/
  writepage : Page → Bool × Page
  /-- The buffers of the page can be freed. -/
  releases : Bool
  /-- Freeing the buffers finds the page clean. -/
  cancelsDirty : Bool
  /-- `vm_swap_full()`. -/
  swapFull : Bool
  /-- Nothing but the swap cache uses the swap slot of the page. -/
  slotUnused : Bool

/-! ### Services with an effect on the page -/

/-- `page_evictable(page, NULL)`. -/
def PageServices.evictable (services : PageServices) (page : Page) : Bool :=
  !((pageMapping page).isSome && services.mappingUnevictable) && !page.flags .mlocked

/-- `try_to_free_buffers(page)`, and `try_to_release_page(page, gfp_mask)`. -/
def tryToReleasePage (services : PageServices) (page : Page) : Except Bug (Bool × Page) :=
  if page.flags .locked = false then throw .notLocked
  else if page.flags .writeback = false ∧ services.releases = true then
    pure (true, { ((page.setFlag .private_ false).setFlag .private2 false).setFlag .dirty
        (page.flags .dirty && !services.cancelsDirty) with
      count := page.count - 1 })
  else pure (false, page)

/-! ### Removal and writing -/

/-- The results of `pageout`. -/
inductive PageoutResult where
  | keep
  | activate
  | success
  | clean
deriving DecidableEq, Repr

/-- `is_page_cache_freeable(page)`. -/
def isPageCacheFreeable (page : Page) : Bool :=
  decide (page.count - (if page.hasPrivate then 1 else 0) = 2)

/-- `pageout(page, mapping, sc)`. -/
def pageout (services : PageServices) (mapping : Option Backing) (page : Page) :
    Except Bug (PageoutResult × Page) :=
  if !isPageCacheFreeable page then pure (.keep, page)
  else if mapping = none then
    if page.hasPrivate then do
      match ← tryToReleasePage services page with
      | (true, page) => pure (.clean, page.setFlag .dirty false)
      | (false, page) => pure (.keep, page)
    else pure (.keep, page)
  else if !services.hasWritepage then pure (.activate, page)
  else if !services.mayWriteToQueue then pure (.keep, page)
  -- `clear_page_dirty_for_io(page)`
  else if page.flags .locked = false then throw .notLocked
  else if page.flags .dirty then
    match services.writepage ((page.setFlag .dirty false).setFlag .reclaim true) with
    | (true, page) => pure (.activate, page.setFlag .reclaim false)
    | (false, page) =>
        pure (.success, if page.flags .writeback then page else page.setFlag .reclaim false)
  else pure (.clean, page)

/-! ### The labels at the end of the loop -/

/-- The counters that a round of the loop adds to. -/
structure Tally where
  nrScanned : Nat
  nrDirty : Nat
  nrCongested : Nat
  nrWriteback : Nat
  nrReclaimed : Nat
  pgactivate : Nat
deriving DecidableEq, Repr

def Tally.zero : Tally := ⟨0, 0, 0, 0, 0, 0⟩

/-- What becomes of the page. -/
inductive Fate where
  /-- Removed from its cache, and put on `free_pages`. -/
  | freed
  /-- A page without a mapping whose buffers are gone, put on `free_pages`. -/
  | freedOrphan
  /-- Left to another thread that has taken a reference meanwhile. -/
  | dropped
  /-- Put back by `putback_lru_page`. -/
  | culled
  /-- On `ret_pages`. -/
  | kept
  /-- On `ret_pages`, with `PG_active`. -/
  | activated
deriving DecidableEq, Repr

/-- The end of one round. -/
structure Outcome where
  fate : Fate
  page : Page
  /-- `reset_reclaim_mode(sc)` was called. -/
  resetsMode : Bool
  tally : Tally

/-- `putback_lru_page(page)`, up to the list: its flags, and the reference it drops. -/
def putback (services : PageServices) (page : Page) : Except Bug Page :=
  let active := page.flags .active
  if page.flags .lru then throw .listed
  else
    let page := (page.setFlag .active false).setFlag .unevictable false
    let page :=
      if services.evictable page then page.setFlag .active active else page.setFlag .unevictable true
    putPageTestzero (page.setFlag .lru true)

/-- `free_hot_cold_page(page, cold)`, up to the free lists: `none` for a bad page, which is not freed. -/
def freeHotColdPage (page : Page) : Option Page := freePagesPrepare (page.setFlag .mlocked false)

end KernelHacking.PageReplacement
