/-
Module: KernelHacking.Model.FramePool
Layer: Model
Purpose: What the page allocator of a zone is for: a pool of free frames, some of them merged into blocks
  and some kept as single frames, from which aligned blocks are taken and to which they are put back. And
  the runs of the allocator itself: any sequence of its calls, with what the rest of the kernel does to
  the pages in between.
Imports: KernelHacking.Foundations.Buddy, KernelHacking.Model.PageAllocator
Trusted boundary: human-reviewed statement of the purpose. A block that is put back is aligned, lies in the
  zone and has no free frame; nobody else writes to the pages that are free
Main exports: Zone.freeBlocks, Zone.Admits, FramePool, PoolEvent, FramePool.Step, bootZone, AllocatorCall,
  AllocatorStep, SetUp, Zone.Spins
Open obligations: none
-/
import KernelHacking.Foundations.Buddy
import KernelHacking.Model.PageAllocator

namespace KernelHacking.PageAllocator

open Buddy

/-! ### The pool -/

/-- The free frames: those that are merged into blocks, and those that are kept as single frames. -/
structure FramePool where
  merged : Finset Nat
  cached : Finset Nat

/-- A block of the order is taken, or none is found; a block is put back; the single frames are given up. -/
inductive PoolEvent where
  | take (order : Nat) (page : Option Nat)
  | put (page order : Nat)
  | drain
deriving DecidableEq, Repr

namespace FramePool

def empty : FramePool := ⟨∅, ∅⟩

/-- Frames are taken out of their blocks and kept as single frames. -/
def refill (pool : FramePool) (moved : Finset Nat) : FramePool :=
  ⟨pool.merged \ moved, pool.cached ∪ moved⟩

/-- Single frames are merged into blocks. -/
def settle (pool : FramePool) (moved : Finset Nat) : FramePool :=
  ⟨pool.merged ∪ moved, pool.cached \ moved⟩

inductive Step : FramePool → PoolEvent → FramePool → Prop where
  | takeBlock {pool : FramePool} {b : Block} (positive : 0 < b.order) (free : b.frames ⊆ pool.merged) :
      Step pool (.take b.order (some b.start)) ⟨pool.merged \ b.frames, pool.cached⟩
  | takeFrame {pool : FramePool} {moved : Finset Nat} {frame : Nat} (merged : moved ⊆ pool.merged)
      (free : frame ∈ (pool.refill moved).cached) :
      Step pool (.take 0 (some frame)) ⟨(pool.refill moved).merged,
        (pool.refill moved).cached.erase frame⟩
  /-- The single frames are not searched for a block. -/
  | noBlock {pool : FramePool} {order : Nat} (positive : 0 < order)
      (tooSmall : order < MAX_ORDER → ∀ b : Block, b.order = order → ¬b.frames ⊆ pool.merged) :
      Step pool (.take order none) pool
  /-- A single frame that is kept for requests of another type is not found. -/
  | noFrame {pool : FramePool} (used : pool.merged = ∅) : Step pool (.take 0 none) pool
  | putBlock {pool : FramePool} {b : Block} (positive : 0 < b.order)
      (owned : Disjoint b.frames pool.merged)
      (ownedSingle : Disjoint b.frames pool.cached) :
      Step pool (.put b.start b.order) ⟨pool.merged ∪ b.frames, pool.cached⟩
  | putFrame {pool : FramePool} {moved : Finset Nat} {frame : Nat} (owned : frame ∉ pool.merged)
      (ownedSingle : frame ∉ pool.cached) (single : moved ⊆ insert frame pool.cached) :
      Step pool (.put frame 0) (settle ⟨pool.merged, insert frame pool.cached⟩ moved)
  | drain {pool : FramePool} : Step pool .drain (pool.settle pool.cached)

end FramePool

/-! ### The free frames of a zone -/

namespace Zone

/-- The order of the free block that the page is the first page of. -/
def freeOrder (zone : Zone) (page : Nat) : Option Nat :=
  if zone.spans page = true ∧ zone.pageBuddy page = true then some (zone.pagePrivate page) else none

/-- The free blocks. -/
def freeBlocks (zone : Zone) : Set Block := {b | zone.freeOrder b.start = some b.order}

/-- The page is on a list of the processor. -/
def Cached (zone : Zone) (page : Nat) : Prop := ∃ type, page ∈ zone.pcp.lists type

/-- The block is one of the zone, and not too large for its lists. -/
structure Admits (zone : Zone) (b : Block) : Prop where
  order_lt : b.order < MAX_ORDER
  inside : ∀ {frame}, b.Covers frame → zone.spans frame = true

/-- The block may be put back: its frames are frames of the zone, and none of them is free. -/
structure Owned (zone : Zone) (b : Block) : Prop extends zone.Admits b where
  notMerged : ∀ {frame}, b.Covers frame → ¬Covered zone.freeBlocks frame
  notCached : ∀ {frame}, b.Covers frame → ¬zone.Cached frame

end Zone

/-! ### Runs of the allocator -/

/-- The limits of the lists that a zone has at boot, where `setup_pageset` sets a batch of 0. -/
def bootLimits : PcpLimits := ⟨6 * 0, max 1 (1 * 0), max_one_pos _⟩

/-- A zone at boot: no page is free yet, and all page blocks are movable. -/
def bootZone (zoneStartPfn spannedPages : Nat) : Zone where
  zoneStartPfn := zoneStartPfn
  spannedPages := spannedPages
  freeList _ _ := []
  nrFree _ := 0
  pageBuddy _ := false
  pagePrivate _ := 0
  pageblockFlags _ := .movable
  nrFreePages := 0
  pcp := ⟨0, bootLimits, fun _ => []⟩

/-- The calls, with the page that an allocation returns. -/
inductive AllocatorCall where
  | take (order : Nat) (type : PcpType) (cold : Bool) (page : Option Nat)
  | put (page order : Nat) (cold : Bool)
  | drain
  | reserve (tests : BlockTests) (minWmark : Nat)
  | store (store : PcpStore)
  | other

/-- One call, or what the owners of pages and the other zone do to the pages. -/
inductive AllocatorStep (disabled : Bool) : Zone → AllocatorCall → Zone → Prop where
  | take {zone after : Zone} {order : Nat} {type : PcpType} {cold : Bool} {page : Option Nat}
      (result : takePages disabled zone order type cold = (after, page)) :
      AllocatorStep disabled zone (.take order type cold page) after
  | put {zone after : Zone} {b : Block} {cold : Bool} (owned : zone.Owned b)
      (result : freePages zone b.start b.order cold = some after) :
      AllocatorStep disabled zone (.put b.start b.order cold) after
  | drain {zone after : Zone} (result : drainPages zone = some after) :
      AllocatorStep disabled zone .drain after
  | reserve {zone : Zone} {tests : BlockTests} {minWmark : Nat} :
      AllocatorStep disabled zone (.reserve tests minWmark)
        (setupZoneMigrateReserve disabled tests minWmark zone)
  /-- The interrupts are on while the limits are set up, so that other calls run between two stores. -/
  | store {zone : Zone} {store : PcpStore}
      (setup : (∃ batch, store ∈ setupPageset batch) ∨ ∃ high, store ∈ setupPagelistHighmark high) :
      AllocatorStep disabled zone (.store store) { zone with pcp.limits := store.apply zone.pcp.limits }
  | other {zone : Zone} {pageBuddy : Nat → Bool} {pagePrivate : Nat → Nat}
      (buddies : ∀ page, zone.spans page = true → pageBuddy page = zone.pageBuddy page)
      (privates : ∀ page, Covered zone.freeBlocks page ∨ zone.Cached page →
        pagePrivate page = zone.pagePrivate page) :
      AllocatorStep disabled zone .other { zone with pageBuddy := pageBuddy, pagePrivate := pagePrivate }

/-- What a call is for the pool. -/
def AllocatorCall.event : AllocatorCall → Option PoolEvent
  | .take order _ _ page => some (.take order page)
  | .put page order _ => some (.put page order)
  | .drain => some .drain
  | .reserve _ _ | .store _ | .other => none

/-- The store of a call to the limits. -/
def AllocatorCall.stored : AllocatorCall → Option PcpStore
  | .store written => some written
  | .take _ _ _ _ | .put _ _ _ | .drain | .reserve _ _ | .other => none

/-- No setup of the limits is half-way: the stores so far end with those of a whole one. -/
def SetUp (stores : List PcpStore) : Prop :=
  stores = [] ∨ ∃ earlier, (∃ batch, stores = earlier ++ setupPageset batch) ∨
    ∃ high, stores = earlier ++ setupPagelistHighmark high

/-- Freeing a block of the order does not come to an end: `free_pcppages_bulk` is asked for more pages than
    there are on the lists of the processor. -/
def Zone.Spins (zone : Zone) (order : Nat) : Prop :=
  order = 0 ∧ (zone.pcp.limits.high : Int) ≤ zone.pcp.count + 1 ∧
    zone.pcp.count + 1 < zone.pcp.limits.batch

end KernelHacking.PageAllocator
