/-
Module: KernelHacking.Model.PageAllocator
Layer: Model
Purpose: The allocator of page frames of one zone. Free blocks are on lists by order and migrate type,
  and the first page of each block carries the order. Freeing merges a block with its buddies, allocation
  splits a larger block and falls back to the lists of other types, and single pages go through the lists
  of the processor. A list is given from its head to its tail, and a page by its frame number.
Imports: Mathlib.Algebra.Group.Nat.Defs, Mathlib.Algebra.Group.Int.Defs, Mathlib.Logic.Function.Basic
Trusted boundary: human-reviewed model of mm/page_alloc.c for one processor, flat memory, at most two
  zones, and without compound pages, guard pages and memory hotplug. What runs with the interrupts off is
  one step; the stores to the limits of the lists of the processor are single steps. The checks that only
  report (VM_BUG_ON, bad_page) are left out; a page that fails a check of free_pages_prepare or
  prep_new_page stays with its owner. A zone has fewer than 2^31 pages, so its counters do not wrap
Main exports: Zone, Zone.freeOnePage, expand, rmqueueSmallest, moveFreepagesBlock, rmqueueFallback, rmqueue,
  rmqueueBulk, takePages, freePcppagesBulk, freeHotColdPage, freePages, drainPages,
  setupZoneMigrateReserve, zoneWatermarkOk
Open obligations: none
-/
import Mathlib.Algebra.Group.Nat.Defs
import Mathlib.Algebra.Group.Int.Defs
import Mathlib.Logic.Function.Basic

namespace KernelHacking.PageAllocator

def MAX_ORDER : Nat := 11
def PAGE_SHIFT : Nat := 12
def pageblockOrder : Nat := MAX_ORDER - 1
def pageblockNrPages : Nat := 2 ^ pageblockOrder

/-- `MIGRATE_UNMOVABLE` and so on. -/
inductive MigrateType where
  | unmovable
  | reclaimable
  | movable
  | reserve
  | isolate
deriving DecidableEq, Repr

def MigrateType.code : MigrateType → Nat
  | .unmovable => 0
  | .reclaimable => 1
  | .movable => 2
  | .reserve => 3
  | .isolate => 4

def MigrateType.ofCode : Nat → Option MigrateType
  | 0 => some .unmovable
  | 1 => some .reclaimable
  | 2 => some .movable
  | 3 => some .reserve
  | 4 => some .isolate
  | _ => none

/-- The types with a list for each processor, in the order of the lists. A request has such a type. -/
inductive PcpType where
  | unmovable
  | reclaimable
  | movable
deriving DecidableEq, Repr

def MIGRATE_PCPTYPES : Nat := 3

def PcpType.type : PcpType → MigrateType
  | .unmovable => .unmovable
  | .reclaimable => .reclaimable
  | .movable => .movable

/-- `if (++migratetype == MIGRATE_PCPTYPES) migratetype = 0`. -/
def PcpType.next : PcpType → PcpType
  | .unmovable => .reclaimable
  | .reclaimable => .movable
  | .movable => .unmovable

/-! ### The zone -/

/-- `high` and `batch` of the lists of a processor. No statement stores a batch of zero. -/
structure PcpLimits where
  high : Nat
  batch : Nat
  batch_pos : 0 < batch

/-- A store to one of the limits. -/
inductive PcpStore where
  | high (value : Nat)
  | batch (value : Nat) (positive : 0 < value)

def PcpStore.apply (limits : PcpLimits) : PcpStore → PcpLimits
  | .high value => { limits with high := value }
  | .batch value positive => ⟨limits.high, value, positive⟩

theorem max_one_pos (number : Nat) : 0 < max 1 number :=
  Nat.lt_of_lt_of_le Nat.one_pos (Nat.le_max_left _ _)

theorem largestBatch_pos : 0 < PAGE_SHIFT * 8 := by decide

/-- The stores of `setup_pageset(p, batch)` to the limits, in their order. -/
def setupPageset (batch : Nat) : List PcpStore :=
  [.high (6 * batch), .batch (max 1 (1 * batch)) (max_one_pos _)]

/-- The stores of `setup_pagelist_highmark(p, high)`, in their order. -/
def setupPagelistHighmark (high : Nat) : List PcpStore :=
  [.high high, .batch (max 1 (high / 4)) (max_one_pos _)] ++
    if PAGE_SHIFT * 8 < high / 4 then [.batch (PAGE_SHIFT * 8) largestBatch_pos] else []

/-- `struct per_cpu_pages`. -/
structure PerCpuPages where
  count : Int
  limits : PcpLimits
  lists : PcpType → List Nat

/-- A zone, with the fields of the pages that the allocator uses. The pages of the other zone have such
    fields as well. -/
structure Zone where
  zoneStartPfn : Nat
  spannedPages : Nat
  /-- `free_area[order].free_list[migratetype]`. -/
  freeList : Nat → MigrateType → List Nat
  /-- `free_area[order].nr_free`. -/
  nrFree : Nat → Nat
  /-- `PageBuddy(page)`. -/
  pageBuddy : Nat → Bool
  /-- `page_private(page)`: the order of a free block, the type of a page on a list of the processor. -/
  pagePrivate : Nat → Nat
  /-- The type of each block of `pageblock_nr_pages` pages. -/
  pageblockFlags : Nat → MigrateType
  /-- `NR_FREE_PAGES`. -/
  nrFreePages : Int
  pcp : PerCpuPages

namespace Zone

/-- The page has the number of the zone. -/
def spans (zone : Zone) (page : Nat) : Bool :=
  decide (zone.zoneStartPfn ≤ page ∧ page < zone.zoneStartPfn + zone.spannedPages)

def listDel (zone : Zone) (page : Nat) : Zone :=
  { zone with freeList := fun order type =>
      (zone.freeList order type).filter fun other => decide (other ≠ page) }

def listAdd (zone : Zone) (page order : Nat) (type : MigrateType) : Zone :=
  { zone with freeList := fun o t =>
      if o = order ∧ t = type then page :: zone.freeList o t else zone.freeList o t }

def listAddTail (zone : Zone) (page order : Nat) (type : MigrateType) : Zone :=
  { zone with freeList := fun o t =>
      if o = order ∧ t = type then zone.freeList o t ++ [page] else zone.freeList o t }

def incNrFree (zone : Zone) (order : Nat) : Zone :=
  { zone with nrFree := Function.update zone.nrFree order (zone.nrFree order + 1) }

def decNrFree (zone : Zone) (order : Nat) : Zone :=
  { zone with nrFree := Function.update zone.nrFree order (zone.nrFree order - 1) }

def setPagePrivate (zone : Zone) (page value : Nat) : Zone :=
  { zone with pagePrivate := Function.update zone.pagePrivate page value }

def setPageOrder (zone : Zone) (page order : Nat) : Zone :=
  { zone.setPagePrivate page order with pageBuddy := Function.update zone.pageBuddy page true }

def rmvPageOrder (zone : Zone) (page : Nat) : Zone :=
  { zone.setPagePrivate page 0 with pageBuddy := Function.update zone.pageBuddy page false }

/-- `__mod_zone_page_state(zone, NR_FREE_PAGES, delta)`. -/
def modNrFreePages (zone : Zone) (delta : Int) : Zone :=
  { zone with nrFreePages := zone.nrFreePages + delta }

/-- The number of the page block of a page. -/
def pageblock (zone : Zone) (page : Nat) : Nat :=
  (page - zone.zoneStartPfn / pageblockNrPages * pageblockNrPages) / pageblockNrPages

def getPageblockMigratetype (zone : Zone) (page : Nat) : MigrateType :=
  zone.pageblockFlags (zone.pageblock page)

/-- `set_pageblock_migratetype`; the flag is `page_group_by_mobility_disabled`. -/
def setPageblockMigratetype (disabled : Bool) (zone : Zone) (page : Nat) (type : MigrateType) : Zone :=
  { zone with
    pageblockFlags := Function.update zone.pageblockFlags (zone.pageblock page)
      (if disabled then .unmovable else type) }

/-! ### Freeing a block -/

/-- `__find_buddy_index`. -/
def findBuddyIndex (pageIdx order : Nat) : Nat := pageIdx ^^^ (1 <<< order)

def pageIsBuddy (zone : Zone) (page buddy order : Nat) : Bool :=
  zone.spans page == zone.spans buddy && zone.pageBuddy buddy && zone.pagePrivate buddy == order

/-- What a round of the loop of `__free_one_page` does to the buddy. -/
def takeBuddy (zone : Zone) (buddy order : Nat) : Zone :=
  ((zone.listDel buddy).decNrFree order).rmvPageOrder buddy

/-- The loop of `__free_one_page`, with the number of orders left below `MAX_ORDER - 1`: the zone, the
    page, its index and its order behind the loop. -/
def mergeLoop : Nat → Zone → Nat → Nat → Nat → Zone × Nat × Nat × Nat
  | 0, zone, page, pageIdx, order => (zone, page, pageIdx, order)
  | left + 1, zone, page, pageIdx, order =>
      let buddyIdx := findBuddyIndex pageIdx order
      let buddy := page + buddyIdx - pageIdx
      if zone.pageIsBuddy page buddy order then
        let combinedIdx := buddyIdx &&& pageIdx
        mergeLoop left (zone.takeBuddy buddy order) (page + combinedIdx - pageIdx) combinedIdx (order + 1)
      else (zone, page, pageIdx, order)

/-- The buddy of the next order is free, so the block is likely to be merged soon. -/
def higherBuddyFree (zone : Zone) (page pageIdx order : Nat) : Bool :=
  let combinedIdx := findBuddyIndex pageIdx order &&& pageIdx
  let higherPage := page + combinedIdx - pageIdx
  let buddyIdx := findBuddyIndex combinedIdx (order + 1)
  decide (order < MAX_ORDER - 2) &&
    zone.pageIsBuddy higherPage (higherPage + buddyIdx - combinedIdx) (order + 1)

/-- `__free_one_page`. -/
def freeOnePage (zone : Zone) (page order : Nat) (type : MigrateType) : Zone :=
  match mergeLoop (MAX_ORDER - 1 - order) zone page (page &&& (2 ^ MAX_ORDER - 1)) order with
  | (zone, page, pageIdx, order) =>
      let zone := zone.setPageOrder page order
      let zone :=
        if zone.higherBuddyFree page pageIdx order then zone.listAddTail page order type
        else zone.listAdd page order type
      zone.incNrFree order

end Zone

open Zone

/-! ### Allocating a block -/

/-- `expand(zone, page, low, high, area, migratetype)`, with the distance of `high` from `low`. -/
def expand (zone : Zone) (page low : Nat) (type : MigrateType) : Nat → Zone
  | 0 => zone
  | above + 1 =>
      let high := low + above
      let half := page + 2 ^ high
      expand (((zone.listAdd half high type).incNrFree high).setPageOrder half high) page low type above

/-- The orders from `order` up to `MAX_ORDER - 1`. -/
def ordersFrom (order : Nat) : List Nat := List.range' order (MAX_ORDER - order)

/-- The loop of `__rmqueue_smallest` over the orders that are left. -/
def smallestFrom (zone : Zone) (order : Nat) (type : MigrateType) : List Nat → Option (Zone × Nat)
  | [] => none
  | currentOrder :: rest =>
      match zone.freeList currentOrder type with
      | [] => smallestFrom zone order type rest
      | page :: _ =>
          let zone := ((zone.listDel page).rmvPageOrder page).decNrFree currentOrder
          some (expand zone page order type (currentOrder - order), page)

/-- `__rmqueue_smallest`. -/
def rmqueueSmallest (zone : Zone) (order : Nat) (type : MigrateType) : Option (Zone × Nat) :=
  smallestFrom zone order type (ordersFrom order)

/-- A row of the table has four places, and the last one is not initialised in any of them. -/
def fallbacks : MigrateType → List MigrateType
  | .unmovable => [.reclaimable, .movable, .reserve, .unmovable]
  | .reclaimable => [.unmovable, .movable, .reserve, .unmovable]
  | .movable => [.reclaimable, .unmovable, .reserve, .unmovable]
  | .reserve => [.reserve, .reserve, .reserve, .unmovable]
  | .isolate => [.unmovable, .unmovable, .unmovable, .unmovable]

/-- The loop of `move_freepages` up to the page `last`. A round goes on by at least one page, so the number
    of pages is a bound for the rounds. -/
def moveFreepages (type : MigrateType) (last : Nat) : Nat → Zone → Nat → Nat → Zone × Nat
  | 0, zone, _, pagesMoved => (zone, pagesMoved)
  | rounds + 1, zone, page, pagesMoved =>
      if page ≤ last then
        if zone.pageBuddy page then
          let order := zone.pagePrivate page
          moveFreepages type last rounds ((zone.listDel page).listAdd page order type)
            (page + 2 ^ order) (pagesMoved + 2 ^ order)
        else moveFreepages type last rounds zone (page + 1) pagesMoved
      else (zone, pagesMoved)

def moveFreepagesBlock (zone : Zone) (page : Nat) (type : MigrateType) : Zone × Nat :=
  let startPfn := page / pageblockNrPages * pageblockNrPages
  let endPfn := startPfn + pageblockNrPages - 1
  -- do not cross zone boundaries
  let startPage := if startPfn < zone.zoneStartPfn then page else startPfn
  if zone.zoneStartPfn + zone.spannedPages ≤ endPfn then (zone, 0)
  else moveFreepages type endPfn (endPfn + 1 - startPage) zone startPage 0

/-- The loop of `change_pageblock_range`, with the number of page blocks left. -/
def changePageblockRange (disabled : Bool) (type : MigrateType) : Nat → Zone → Nat → Zone
  | 0, zone, _ => zone
  | nrPageblocks + 1, zone, page =>
      changePageblockRange disabled type nrPageblocks (zone.setPageblockMigratetype disabled page type)
        (page + pageblockNrPages)

/-- The part of `__rmqueue_fallback` that moves the free pages around the page to the list of the request:
    the zone and the type for what is left of the block. -/
def claimPageblock (disabled : Bool) (zone : Zone) (page currentOrder : Nat)
    (startType type : MigrateType) : Zone × MigrateType :=
  if pageblockOrder >>> 1 ≤ currentOrder ∨ startType = .reclaimable ∨ disabled = true then
    match moveFreepagesBlock zone page startType with
    | (zone, pages) =>
        if 2 ^ (pageblockOrder - 1) ≤ pages ∨ disabled = true then
          (zone.setPageblockMigratetype disabled page startType, startType)
        else (zone, startType)
  else (zone, type)

/-- A block is taken from the list of another type. -/
def stealBlock (disabled : Bool) (zone : Zone) (page order currentOrder : Nat)
    (startType type : MigrateType) : Zone :=
  match claimPageblock disabled (zone.decNrFree currentOrder) page currentOrder startType type with
  | (zone, type) =>
      let zone := (zone.listDel page).rmvPageOrder page
      -- take ownership for orders from pageblock_order on
      let zone :=
        if pageblockOrder ≤ currentOrder then
          changePageblockRange disabled startType (2 ^ (currentOrder - pageblockOrder)) zone page
        else zone
      expand zone page order type (currentOrder - order)

/-- The two loops of `__rmqueue_fallback` over the orders and types that are left. -/
def fallbackFrom (disabled : Bool) (zone : Zone) (order : Nat) (startType : MigrateType) :
    List (Nat × MigrateType) → Option (Zone × Nat)
  | [] => none
  | (currentOrder, type) :: rest =>
      if type = .reserve then fallbackFrom disabled zone order startType rest
      else
        match zone.freeList currentOrder type with
        | [] => fallbackFrom disabled zone order startType rest
        | page :: _ => some (stealBlock disabled zone page order currentOrder startType type, page)

/-- `__rmqueue_fallback`: the largest blocks come first. -/
def rmqueueFallback (disabled : Bool) (zone : Zone) (order : Nat) (startType : MigrateType) :
    Option (Zone × Nat) :=
  fallbackFrom disabled zone order startType
    ((ordersFrom order).reverse.flatMap fun currentOrder =>
      (fallbacks startType).map fun type => (currentOrder, type))

/-- `__rmqueue`. -/
def rmqueue (disabled : Bool) (zone : Zone) (order : Nat) (type : MigrateType) : Option (Zone × Nat) :=
  match rmqueueSmallest zone order type with
  | some taken => some taken
  | none =>
      if type = .reserve then none
      else
        match rmqueueFallback disabled zone order type with
        | some taken => some taken
        | none => rmqueueSmallest zone order .reserve

/-! ### The lists of the processor -/

/-- The loop of `rmqueue_bulk`, with the pages it has taken. -/
def rmqueueBulkLoop (disabled : Bool) (type : PcpType) : Nat → Zone → List Nat → Zone × List Nat
  | 0, zone, pages => (zone, pages)
  | count + 1, zone, pages =>
      match rmqueue disabled zone 0 type.type with
      | none => (zone, pages)
      | some (zone, page) =>
          rmqueueBulkLoop disabled type count (zone.setPagePrivate page type.type.code) (pages ++ [page])

/-- The list of the processor is replaced. -/
def Zone.setPcpList (zone : Zone) (type : PcpType) (pages : List Nat) : Zone :=
  { zone with pcp.lists := Function.update zone.pcp.lists type pages }

def Zone.modPcpCount (zone : Zone) (delta : Int) : Zone :=
  { zone with pcp.count := zone.pcp.count + delta }

/-- `pcp->count += rmqueue_bulk(zone, 0, pcp->batch, list, migratetype, cold)`. Each page is put next to
    the one before it, behind it or, for cold pages, ahead of it. -/
def rmqueueBulk (disabled : Bool) (zone : Zone) (type : PcpType) (cold : Bool) : Zone :=
  match rmqueueBulkLoop disabled type zone.pcp.limits.batch zone [] with
  | (zone, pages) =>
      let list := zone.pcp.lists type
      let zone := zone.setPcpList type (if cold then list ++ pages.reverse else pages ++ list)
      (zone.modNrFreePages (-pages.length)).modPcpCount pages.length

/-- A page is taken from the list of the processor, from the tail if it is to be cold. -/
def takePcpPage (zone : Zone) (type : PcpType) (cold : Bool) : Zone × Option Nat :=
  let list := zone.pcp.lists type
  match if cold then list.getLast? else list.head? with
  | none => (zone, none)
  | some page =>
      let list := if cold then list.dropLast else list.tail
      ((zone.setPcpList type list).modPcpCount (-1), some page)

/-- The part of `buffered_rmqueue` with the interrupts off, behind the label `again`. -/
def takePages (disabled : Bool) (zone : Zone) (order : Nat) (type : PcpType) (cold : Bool) :
    Zone × Option Nat :=
  if order = 0 then
    let zone := if zone.pcp.lists type = [] then rmqueueBulk disabled zone type cold else zone
    takePcpPage zone type cold
  else
    match rmqueue disabled zone order type.type with
    | none => (zone, none)
    | some (zone, page) => (zone.modNrFreePages (-2 ^ order), some page)

/-- The inner search of `free_pcppages_bulk`, with the number of lists left to look at: the list and
    `batch_free`. If all three lists are empty, the search does not end. -/
def nextList (lists : PcpType → List Nat) : Nat → PcpType → Nat → Option (PcpType × Nat)
  | 0, _, _ => none
  | left + 1, type, batchFree =>
      if lists type.next = [] then nextList lists left type.next (batchFree + 1)
      else some (type.next, batchFree + 1)

/-- The inner loop of `free_pcppages_bulk` over one list: the zone, `to_free` and `batch_free` behind it.
    `none` is an access behind the end of a list or of `free_list`. -/
def freeFromList (type : PcpType) : Nat → Nat → Zone → Option (Zone × Nat × Nat)
  | 0, _, _ => none
  | toFree + 1, batchFree, zone =>
      match (zone.pcp.lists type).getLast? with
      | none => none
      | some page =>
          match MigrateType.ofCode (zone.pagePrivate page) with
          | none => none
          | some pageType =>
              let zone := zone.setPcpList type (zone.pcp.lists type).dropLast
              let zone := zone.freeOnePage page 0 pageType
              if toFree = 0 then some (zone, 0, batchFree)
              else if batchFree - 1 = 0 then some (zone, toFree, 0)
              else if zone.pcp.lists type = [] then some (zone, toFree, batchFree - 1)
              else freeFromList type toFree (batchFree - 1) zone

/-- The outer loop of `free_pcppages_bulk`. A round frees a page, so `to_free` rounds are enough. -/
def freePcppagesLoop : Nat → PcpType → Nat → Nat → Zone → Option Zone
  | 0, _, _, toFree, zone => if toFree = 0 then some zone else none
  | rounds + 1, type, batchFree, toFree, zone =>
      if toFree = 0 then some zone
      else
        match nextList zone.pcp.lists MIGRATE_PCPTYPES type batchFree with
        | none => none
        | some (type, batchFree) =>
            -- the other lists were empty: free all from this one
            let batchFree := if batchFree = MIGRATE_PCPTYPES then toFree else batchFree
            match freeFromList type toFree batchFree zone with
            | none => none
            | some (zone, toFree, batchFree) => freePcppagesLoop rounds type batchFree toFree zone

/-- `free_pcppages_bulk(zone, count, pcp)`. -/
def freePcppagesBulk (zone : Zone) (count : Nat) : Option Zone :=
  (freePcppagesLoop count .unmovable 0 count zone).map fun zone => zone.modNrFreePages count

/-- The list of the processor that takes pages of the type. -/
def pcpTypeOf : MigrateType → Option PcpType
  | .unmovable => some .unmovable
  | .reclaimable => some .reclaimable
  | .movable => some .movable
  -- RESERVE is treated as movable, so that these areas can be got back
  | .reserve => some .movable
  | .isolate => none

/-- A page is added to a list of the processor, at its tail if it is cold. -/
def Zone.addPcpPage (zone : Zone) (type : PcpType) (page : Nat) (cold : Bool) : Zone :=
  let list := zone.pcp.lists type
  (zone.setPcpList type (if cold then list ++ [page] else page :: list)).modPcpCount 1

/-- `if (pcp->count >= pcp->high)`, with what it does. -/
def trimPcp (zone : Zone) : Option Zone :=
  if zone.pcp.limits.high ≤ zone.pcp.count then
    (freePcppagesBulk zone zone.pcp.limits.batch).map fun zone =>
      zone.modPcpCount (-zone.pcp.limits.batch)
  else some zone

/-- `free_hot_cold_page`, once the page has passed the checks. -/
def freeHotColdPage (zone : Zone) (page : Nat) (cold : Bool) : Option Zone :=
  let type := zone.getPageblockMigratetype page
  let zone := zone.setPagePrivate page type.code
  match pcpTypeOf type with
  | none => some ((zone.freeOnePage page 0 type).modNrFreePages 1)
  | some pcpType => trimPcp (zone.addPcpPage pcpType page cold)

/-- `__free_pages`, for the last reference: single pages go to the lists of the processor, and the rest is
    `__free_pages_ok`. -/
def freePages (zone : Zone) (page order : Nat) (cold : Bool) : Option Zone :=
  if order = 0 then freeHotColdPage zone page cold
  else some ((zone.freeOnePage page order (zone.getPageblockMigratetype page)).modNrFreePages (2 ^ order))

/-- `drain_pages`, for the zone. -/
def drainPages (zone : Zone) : Option Zone :=
  if zone.pcp.count = 0 then some zone
  else (freePcppagesBulk zone zone.pcp.count.toNat).map fun zone => { zone with pcp.count := 0 }

/-! ### The reserve -/

/-- A page block becomes one of the type, with its free pages. -/
def retypeBlock (disabled : Bool) (zone : Zone) (page : Nat) (type : MigrateType) : Zone :=
  (moveFreepagesBlock (zone.setPageblockMigratetype disabled page type) page type).1

/-- What `setup_zone_migrate_reserve` tests on a page block. -/
structure BlockTests where
  /-- `pfn_valid(pfn)`, and the page is one of the node of the zone. -/
  valid : Nat → Bool
  /-- `pageblock_is_reserved(pfn, block_end_pfn)`. -/
  reserved : Nat → Bool

/-- A round of the loop of `setup_zone_migrate_reserve`: the zone and the blocks still to be reserved. -/
def reserveRound (disabled : Bool) (tests : BlockTests) (zone : Zone) (reserve pfn : Nat) : Zone × Nat :=
  if !tests.valid pfn then (zone, reserve)
  else
    let type := zone.getPageblockMigratetype pfn
    if 0 < reserve ∧ tests.reserved pfn = true then (zone, reserve)
    else if 0 < reserve ∧ type = .reserve then (zone, reserve - 1)
    else if 0 < reserve ∧ type = .movable then (retypeBlock disabled zone pfn .reserve, reserve - 1)
    -- the reserve is met: take the block back
    else if type = .reserve then (retypeBlock disabled zone pfn .movable, reserve)
    else (zone, reserve)

def reserveLoop (disabled : Bool) (tests : BlockTests) : List Nat → Zone → Nat → Zone
  | [], zone, _ => zone
  | pfn :: rest, zone, reserve =>
      match reserveRound disabled tests zone reserve pfn with
      | (zone, reserve) => reserveLoop disabled tests rest zone reserve

/-- `roundup(number, pageblock_nr_pages)`. -/
def roundupBlock (number : Nat) : Nat :=
  (number + pageblockNrPages - 1) / pageblockNrPages * pageblockNrPages

/-- `setup_zone_migrate_reserve`, for a zone with the minimum watermark. -/
def setupZoneMigrateReserve (disabled : Bool) (tests : BlockTests) (minWmark : Nat)
    (zone : Zone) : Zone :=
  let startPfn := roundupBlock zone.zoneStartPfn
  let endPfn := zone.zoneStartPfn + zone.spannedPages
  let reserve := min 2 (roundupBlock minWmark / 2 ^ pageblockOrder)
  let blocks := (endPfn + pageblockNrPages - 1 - startPfn) / pageblockNrPages
  reserveLoop disabled tests (List.range' startPfn blocks pageblockNrPages) zone reserve

/-! ### The watermarks -/

/-- A `long` as an `unsigned long`. -/
def asUnsigned (value : Int) : Int := value % 2 ^ 32

/-- The loop of `__zone_watermark_ok`: how much is left above the orders before `o`, for the orders from
    `o` on. -/
def watermarkLoop (zone : Zone) (shift : Nat) : Nat → Nat → Int → Int → Bool
  | 0, _, _, _ => true
  | left + 1, o, freePages, least =>
      let freePages := freePages - (zone.nrFree o * 2 ^ o : Nat)
      let least := least >>> shift
      if freePages ≤ least then false else watermarkLoop zone shift left (o + 1) freePages least

/-- What a caller of `zone_watermark_ok` asks for. -/
structure WatermarkCall where
  /-- An `unsigned long`. -/
  mark : BitVec 32
  /-- `lowmem_reserve[classzone_idx]`, an `unsigned long`. -/
  lowmemReserve : BitVec 32
  /-- `ALLOC_HIGH` and `ALLOC_HARDER`. -/
  high : Bool
  harder : Bool
  /-- `min_free_order_shift`. -/
  shift : Nat

/-- The watermark that the flags leave. It is a `long`, so a mark from 2^31 on is negative. -/
def WatermarkCall.least (call : WatermarkCall) : Int :=
  let least := call.mark.toInt
  let least := if call.high then least - least.tdiv 2 else least
  if call.harder then least - least.tdiv 4 else least

/-- `zone_watermark_ok(z, order, mark, classzone_idx, alloc_flags)`. The reserve is unsigned, and so is
    the comparison with it. -/
def zoneWatermarkOk (zone : Zone) (order : Nat) (call : WatermarkCall) : Bool :=
  let freePages := zone.nrFreePages - (2 ^ order - 1)
  if asUnsigned freePages ≤ asUnsigned (call.least + call.lowmemReserve.toNat) then false
  else watermarkLoop zone call.shift order 0 freePages call.least

end KernelHacking.PageAllocator
