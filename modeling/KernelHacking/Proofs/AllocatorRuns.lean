/-
Module: KernelHacking.Proofs.AllocatorRuns
Layer: Proofs
Purpose: Runs of the page allocator from boot on, with calls in any order. Every run shows a run of the
  pool of frames, no call leaves its lists, and a call hangs only while the limits of the lists of the
  processor are half-way through a change. So a frame that is handed out is not handed out again before it
  is put back, the free blocks depend on the free frames only, and a request that passes the watermark is
  served.
Imports: Mathlib (sums), KernelHacking.Foundations.Refinement, KernelHacking.Proofs.PageAllocator
Trusted boundary: none (fully proved)
Main exports: allocator_simulates, exec_limits, allocator_refines_pool, taken_frame_returned,
  free_blocks_determined, watermark_serves
Open obligations: none
-/
import Mathlib.Algebra.Order.BigOperators.Group.Finset
import KernelHacking.Foundations.Refinement
import KernelHacking.Proofs.PageAllocator

namespace KernelHacking.PageAllocator

open Buddy Refinement

/-! ### The reserve -/

section Reserve

variable {zone : Zone} {pfn : Nat} (disabled : Bool) (tests : BlockTests)

theorem retypeBlock_spec (type : MigrateType) (listed : zone.Listed) (inside : zone.spans pfn = true)
    (notIsolate : type ≠ .isolate) : Shuffled zone (retypeBlock disabled zone pfn type) := by
  have set := shuffled_setPageblockMigratetype zone disabled pfn notIsolate
  exact set.trans (moveFreepagesBlock_spec (set.keeps_listed listed) inside notIsolate)

theorem reserveRound_spec (reserve : Nat) (listed : zone.Listed) (inside : zone.spans pfn = true) :
    Shuffled zone (reserveRound disabled tests zone reserve pfn).1 := by
  have toReserve := retypeBlock_spec disabled .reserve listed inside MigrateType.noConfusion
  have toMovable := retypeBlock_spec disabled .movable listed inside MigrateType.noConfusion
  simp only [reserveRound]
  repeat' split
  all_goals first | exact .refl zone | exact toReserve | exact toMovable

theorem reserveLoop_spec {pfns : List Nat} (reserve : Nat) (listed : zone.Listed)
    (inside : ∀ pfn ∈ pfns, zone.spans pfn = true) :
    Shuffled zone (reserveLoop disabled tests pfns zone reserve) := by
  induction pfns generalizing zone reserve with
  | nil => exact .refl zone
  | cons pfn rest inductionHypothesis =>
      have round := reserveRound_spec disabled tests reserve listed (inside pfn List.mem_cons_self)
      refine round.trans (inductionHypothesis _ (round.keeps_listed listed) fun other member => ?_)
      rw [round.spans]
      exact inside other (List.mem_cons_of_mem _ member)

/-- Only the types of page blocks and of the lists change. -/
theorem setupZoneMigrateReserve_spec (minWmark : Nat) (listed : zone.Listed) :
    Shuffled zone (setupZoneMigrateReserve disabled tests minWmark zone) := by
  refine reserveLoop_spec disabled tests _ listed fun pfn member => ?_
  obtain ⟨number, inRange, rfl⟩ := List.mem_range'.mp member
  rw [Zone.spans, decide_eq_true_eq]
  simp only [roundupBlock, pageblockNrPages, pageblockOrder, MAX_ORDER] at *
  omega

end Reserve

/-! ### Every step is one of the pool -/

/-- The frame is in the pool. -/
def FramePool.Free (pool : FramePool) (frame : Nat) : Prop := frame ∈ pool.merged ∨ frame ∈ pool.cached

section Steps

variable {zone : Zone} {pool : FramePool} {disabled : Bool}

theorem represents_boot (zoneStartPfn spannedPages : Nat) :
    Represents (bootZone zoneStartPfn spannedPages) .empty := by
  have noOrder : ∀ page, (bootZone zoneStartPfn spannedPages).freeOrder page = none :=
    fun page => if_neg fun both => Bool.false_ne_true both.2
  have noBlock : (bootZone zoneStartPfn spannedPages).freeBlocks = ∅ := by
    ext b
    rw [Zone.mem_freeBlocks, noOrder]
    simp
  have uncovered : ∀ frame, ¬Covered (bootZone zoneStartPfn spannedPages).freeBlocks frame := by
    rintro frame ⟨b, member, _⟩
    rw [noBlock] at member
    exact member
  refine ⟨⟨⟨⟨fun page order => ?_, fun _ => rfl⟩, fun _ => rfl, fun free => ?_, fun member => ?_, ?_, ?_⟩,
    fun frame => ?_, ?_, fun _ => rfl, fun member => ?_, fun member => ?_, fun member => ?_⟩, rfl, rfl⟩
  · rw [noOrder]
    rfl
  · rw [noOrder] at free
    exact nomatch free
  · rw [noBlock] at member
    exact absurd member (Set.notMem_empty _)
  · rw [noBlock]
    exact Coalesced.empty _
  · exact fun _ => MigrateType.noConfusion
  · exact ⟨fun member => absurd member (Finset.notMem_empty _),
      fun covered => absurd covered (uncovered frame)⟩
  · rw [Zone.freePages]
    exact Finset.sum_eq_zero fun order _ => Nat.zero_mul _
  · exact absurd member (Finset.notMem_empty _)
  · exact absurd member (Finset.notMem_empty _)
  · exact absurd member (Finset.notMem_empty _)

/-- What the owners of pages and the other zone write does not matter for the pool. -/
theorem Represents.other {pageBuddy : Nat → Bool} {pagePrivate : Nat → Nat}
    (represents : Represents zone pool)
    (buddies : ∀ page, zone.spans page = true → pageBuddy page = zone.pageBuddy page)
    (privates : ∀ page, Covered zone.freeBlocks page ∨ zone.Cached page →
      pagePrivate page = zone.pagePrivate page) :
    Represents { zone with pageBuddy := pageBuddy, pagePrivate := pagePrivate } pool := by
  have orders : ∀ page,
      Zone.freeOrder { zone with pageBuddy := pageBuddy, pagePrivate := pagePrivate } page =
        zone.freeOrder page := by
    intro page
    show (if zone.spans page = true ∧ pageBuddy page = true then some (pagePrivate page) else none) =
      if zone.spans page = true ∧ zone.pageBuddy page = true then some (zone.pagePrivate page) else none
    by_cases inside : zone.spans page = true
    · rw [buddies page inside]
      by_cases buddy : zone.pageBuddy page = true
      · rw [if_pos ⟨inside, buddy⟩, if_pos ⟨inside, buddy⟩]
        have free : zone.freeOrder page = some (zone.pagePrivate page) := if_pos ⟨inside, buddy⟩
        have covered : Covered zone.freeBlocks page :=
          ⟨_, (represents.sound.mem_of_freeOrder free).1, Block.covers_ofFrame _ page⟩
        exact congrArg some (privates page (.inl covered))
      · rw [if_neg fun both => buddy both.2, if_neg fun both => buddy both.2]
    · rw [if_neg fun both => inside both.1, if_neg fun both => inside both.1]
  have alike : Alike zone { zone with pageBuddy := pageBuddy, pagePrivate := pagePrivate } :=
    ⟨fun _ => rfl, orders, fun _ _ => rfl, fun _ => rfl, fun _ => rfl, rfl, id⟩
  exact ⟨represents.alike alike rfl fun member => privates _ (.inr (represents.mem_cached.mp member)),
    represents.nrFreePages_eq, represents.count_eq⟩

/-- A call that returns has put the block back. -/
theorem freePages_some {after : Zone} {b : Block} {cold : Bool} (represents : Represents zone pool)
    (owned : zone.Owned b) (result : freePages zone b.start b.order cold = some after) :
    ∃ poolAfter, FramePool.Step pool (.put b.start b.order) poolAfter ∧ Represents after poolAfter ∧
      after.pcp.limits = zone.pcp.limits := by
  rcases freePages_spec cold represents owned with
    ⟨zoneAfter, poolAfter, returned, step, put, limits, _⟩ | ⟨hangs, _⟩
  · rw [result] at returned
    cases returned
    exact ⟨poolAfter, step, put, limits⟩
  · rw [result] at hangs
    cases hangs

theorem allocator_simulates (disabled : Bool) :
    Simulates (AllocatorStep disabled) FramePool.Step AllocatorCall.event Represents := by
  intro before after call pool represents step
  cases step with
  | @take _ order type cold page result =>
      obtain ⟨poolAfter, step, taken, _⟩ := takePages_spec disabled order type cold represents
      rw [result] at step taken
      exact ⟨poolAfter, step, taken⟩
  | put owned result =>
      obtain ⟨poolAfter, step, put, _⟩ := freePages_some represents owned result
      exact ⟨poolAfter, step, put⟩
  | drain result =>
      obtain ⟨zoneAfter, returned, drained, _⟩ := drainPages_spec represents
      rw [result] at returned
      cases returned
      exact ⟨_, .drain, drained⟩
  | @reserve tests minWmark =>
      have shuffled := setupZoneMigrateReserve_spec disabled tests minWmark represents.sound.toListed
      refine ⟨represents.shuffle shuffled, ?_, ?_⟩
      · rw [shuffled.same.nrFreePages, represents.nrFreePages_eq]
      · rw [shuffled.same.pcp, represents.count_eq]
  | store =>
      exact ⟨represents.alike
          ⟨fun _ => rfl, fun _ => rfl, fun _ _ => rfl, fun _ => rfl, fun _ => rfl, rfl, id⟩
          rfl fun _ => rfl, represents.nrFreePages_eq, represents.count_eq⟩
  | other buddies privates => exact represents.other buddies privates

/-- The pool of a run from boot on. -/
theorem exec_represents {zoneStartPfn spannedPages : Nat} {calls : List AllocatorCall}
    (exec : Exec (AllocatorStep disabled) (bootZone zoneStartPfn spannedPages) calls zone) :
    ∃ pool, Exec FramePool.Step .empty (calls.filterMap AllocatorCall.event) pool ∧
      Represents zone pool :=
  Simulates.exec (allocator_simulates disabled) (represents_boot zoneStartPfn spannedPages) exec

/-! ### The limits of the lists -/

/-- A call changes the limits by its own store only. -/
theorem AllocatorStep.limits_eq {after : Zone} {call : AllocatorCall} (represents : Represents zone pool)
    (step : AllocatorStep disabled zone call after) :
    after.pcp.limits = call.stored.toList.foldl PcpStore.apply zone.pcp.limits := by
  cases step with
  | @take _ order type cold page result =>
      obtain ⟨_, _, _, limits⟩ := takePages_spec disabled order type cold represents
      rw [result] at limits
      exact limits
  | put owned result =>
      obtain ⟨_, _, _, limits⟩ := freePages_some represents owned result
      exact limits
  | drain result =>
      obtain ⟨_, returned, _, limits⟩ := drainPages_spec represents
      rw [result] at returned
      cases returned
      exact limits
  | @reserve tests minWmark =>
      have shuffled := setupZoneMigrateReserve_spec disabled tests minWmark represents.sound.toListed
      exact congrArg PerCpuPages.limits shuffled.same.pcp
  | store => rfl
  | other => rfl

/-- The limits are what the stores of the run have left. -/
theorem exec_limits {zoneStartPfn spannedPages : Nat} {calls : List AllocatorCall}
    (exec : Exec (AllocatorStep disabled) (bootZone zoneStartPfn spannedPages) calls zone) :
    zone.pcp.limits = (calls.filterMap AllocatorCall.stored).foldl PcpStore.apply bootLimits := by
  induction exec with
  | start => rfl
  | @step calls before after call exec moved inductionHypothesis =>
      obtain ⟨_, _, represents⟩ := exec_represents exec
      have last : [call].filterMap AllocatorCall.stored = call.stored.toList := by
        cases call <;> rfl
      rw [moved.limits_eq represents, inductionHypothesis, List.filterMap_append, List.foldl_append, last]

/-- A whole setup leaves a batch that fits below `high`. -/
theorem SetUp.batch_le {stores : List PcpStore} (setUp : SetUp stores) :
    (stores.foldl PcpStore.apply bootLimits).batch ≤
      max 1 (stores.foldl PcpStore.apply bootLimits).high := by
  rcases setUp with rfl | ⟨earlier, ⟨batch, rfl⟩ | ⟨high, rfl⟩⟩
  · decide
  · rw [List.foldl_append]
    simp only [setupPageset, List.foldl_cons, List.foldl_nil, PcpStore.apply]
    omega
  · rw [List.foldl_append]
    simp only [setupPagelistHighmark, List.foldl_append, List.foldl_cons, List.foldl_nil, PcpStore.apply]
    split
    · simp only [List.foldl_cons, List.foldl_nil, PcpStore.apply]
      omega
    · simp only [List.foldl_nil]
      omega

/-- Every run of the allocator shows a run of the pool. The next drain returns as well, and so does the next
    free, unless the limits are half-way through a change and the lists have less than a batch. -/
theorem allocator_refines_pool {zoneStartPfn spannedPages : Nat} {calls : List AllocatorCall}
    (exec : Exec (AllocatorStep disabled) (bootZone zoneStartPfn spannedPages) calls zone) :
    ∃ pool, Exec FramePool.Step .empty (calls.filterMap AllocatorCall.event) pool ∧ Represents zone pool ∧
      (∀ b cold, zone.Owned b →
        ((∃ after, freePages zone b.start b.order cold = some after) ↔ ¬zone.Spins b.order)) ∧
      (SetUp (calls.filterMap AllocatorCall.stored) → ∀ order, ¬zone.Spins order) ∧
      ∃ after, drainPages zone = some after := by
  obtain ⟨pool, shows, represents⟩ := exec_represents exec
  refine ⟨pool, shows, represents, fun b cold owned => ?_, fun setUp order spins => ?_, ?_⟩
  · rcases freePages_spec cold represents owned with ⟨after, _, returned, _, _, _, ends⟩ | ⟨hangs, spins⟩
    · exact ⟨fun _ => ends, fun _ => ⟨after, returned⟩⟩
    · rw [hangs]
      exact ⟨fun returned => absurd returned.choose_spec.symm (Option.some_ne_none _),
        fun ends => absurd spins ends⟩
  · have fits := setUp.batch_le
    rw [← exec_limits exec] at fits
    have count := represents.count_eq
    obtain ⟨_, full, few⟩ := spins
    omega
  · obtain ⟨after, returned, _⟩ := drainPages_spec represents
    exact ⟨after, returned⟩

theorem admits_of_le {b : Block} (order : b.order < MAX_ORDER) (first : zone.zoneStartPfn ≤ b.start)
    (last : b.start + 2 ^ b.order ≤ zone.zoneStartPfn + zone.spannedPages) : zone.Admits b := by
  refine ⟨order, fun covers => ?_⟩
  rw [Block.covers_iff] at covers
  rw [Zone.spans, decide_eq_true_eq]
  omega

/-- A block without a frame of the pool may be put back. -/
theorem Represents.owned {b : Block} (represents : Represents zone pool) (admits : zone.Admits b)
    (outside : ∀ frame, b.Covers frame → ¬pool.Free frame) : zone.Owned b where
  toAdmits := admits
  notMerged covers covered := outside _ covers (.inl ((represents.merged_iff _).mpr covered))
  notCached covers cached := outside _ covers (.inr (represents.mem_cached.mpr cached))

/-- At boot every block of the zone may be put back. -/
theorem owned_boot {zoneStartPfn spannedPages : Nat} {b : Block}
    (admits : (bootZone zoneStartPfn spannedPages).Admits b) :
    (bootZone zoneStartPfn spannedPages).Owned b :=
  (represents_boot zoneStartPfn spannedPages).owned admits fun frame _ free =>
    free.elim (Finset.notMem_empty frame) (Finset.notMem_empty frame)

/-- The zone after a movable block with more than one frame has been put back. -/
def Zone.withBlock (zone : Zone) (b : Block) : Zone :=
  (zone.freeOnePage b.start b.order .movable).modNrFreePages (2 ^ b.order)

theorem owned_eight : (bootZone 0 8).Owned ⟨0, 3⟩ :=
  owned_boot (admits_of_le (by decide) (by decide) (by decide))

/-- A zone of eight frames that have been put back. -/
def eightFrames : Zone := (bootZone 0 8).withBlock ⟨0, 3⟩

theorem put_eight : AllocatorStep false (bootZone 0 8) (.put 0 3 false) eightFrames :=
  .put owned_eight rfl

theorem take_pair : AllocatorStep false eightFrames (.take 1 .movable false (some 0))
    (takePages false eightFrames 1 .movable false).1 :=
  .take (Prod.ext rfl (by decide))

/-- The eight frames are put back as one block, and a pair of them is taken. -/
theorem allocator_refines_pool_pair : ∃ zone pool,
    Exec (AllocatorStep false) (bootZone 0 8) [.put 0 3 false, .take 1 .movable false (some 0)] zone ∧
      Exec FramePool.Step .empty [.put 0 3, .take 1 (some 0)] pool ∧ Represents zone pool ∧
      ∀ order, ¬zone.Spins order := by
  have exec := (Exec.start.step put_eight).step take_pair
  obtain ⟨pool, shows, represents, _, ends, _⟩ := allocator_refines_pool exec
  exact ⟨_, pool, exec, shows, represents, ends (.inl rfl)⟩

end Steps

/-! ### A frame has one owner -/

section Owners

variable {pool after : FramePool} {event : PoolEvent} {frame : Nat}

/-- A frame comes into the pool with a block that is put back. -/
theorem FramePool.Step.put_of_free (step : FramePool.Step pool event after) (free : after.Free frame) :
    pool.Free frame ∨ ∃ page order, event = .put page order ∧
      (Block.ofFrame order page).Covers frame := by
  cases step with
  | takeBlock =>
      simp only [FramePool.Free, Finset.mem_sdiff] at free ⊢
      tauto
  | takeFrame merged =>
      simp only [FramePool.Free, FramePool.refill, Finset.mem_sdiff, Finset.mem_erase,
        Finset.mem_union] at free ⊢
      have moved := @merged frame
      tauto
  | noBlock => exact .inl free
  | noFrame => exact .inl free
  | @putBlock b =>
      simp only [FramePool.Free, Finset.mem_union, Block.mem_frames] at free ⊢
      by_cases covers : b.Covers frame
      · refine .inr ⟨b.start, b.order, rfl, ?_⟩
        rwa [Block.ofFrame_start]
      · tauto
  | @putFrame moved page _ _ single =>
      simp only [FramePool.Free, FramePool.settle, Finset.mem_union, Finset.mem_sdiff,
        Finset.mem_insert] at free ⊢
      by_cases same : frame = page
      · exact .inr ⟨page, 0, rfl, by rw [same]; exact Block.covers_ofFrame 0 page⟩
      · have inside := @single frame
        simp only [Finset.mem_insert] at inside
        tauto
  | drain =>
      simp only [FramePool.Free, FramePool.settle, Finset.mem_union, Finset.mem_sdiff] at free ⊢
      tauto

/-- No frame is merged and kept at the same time. -/
def FramePool.Apart (pool : FramePool) : Prop := ∀ frame ∈ pool.cached, frame ∉ pool.merged

theorem FramePool.Step.apart (step : FramePool.Step pool event after)
    (apart : pool.Apart) : after.Apart := by
  intro frame
  have before := apart frame
  cases step with
  | takeBlock =>
      simp only [Finset.mem_sdiff]
      tauto
  | takeFrame merged =>
      simp only [FramePool.refill, Finset.mem_sdiff, Finset.mem_erase, Finset.mem_union]
      tauto
  | noBlock => exact before
  | noFrame => exact before
  | putBlock _ _ ownedSingle =>
      intro cached merged
      rcases Finset.mem_union.mp merged with merged | covers
      · exact before cached merged
      · exact Finset.disjoint_left.mp ownedSingle covers cached
  | putFrame owned _ single =>
      simp only [FramePool.settle, Finset.mem_union, Finset.mem_sdiff, Finset.mem_insert]
      rintro ⟨rfl | cached, unmoved⟩ (merged | moved)
      · exact owned merged
      · exact unmoved moved
      · exact before cached merged
      · exact unmoved moved
  | drain =>
      simp only [FramePool.settle, Finset.mem_union, Finset.mem_sdiff]
      tauto

/-- The frames of a block that is taken were in the pool, and leave it. -/
theorem FramePool.Step.taken {order page : Nat}
    (step : FramePool.Step pool (.take order (some page)) after)
    (apart : pool.Apart) (covers : (Block.ofFrame order page).Covers frame) :
    pool.Free frame ∧ ¬after.Free frame := by
  have before := apart frame
  generalize shape : PoolEvent.take order (some page) = event at step
  cases step with
  | @takeBlock b _ free =>
      cases shape
      rw [Block.ofFrame_start] at covers
      have member := Block.mem_frames.mpr covers
      have merged := free member
      refine ⟨.inl merged, ?_⟩
      simp only [FramePool.Free, Finset.mem_sdiff]
      tauto
  | @takeFrame moved single merged free =>
      cases shape
      rw [← Block.mem_frames, frames_ofFrame_zero, Finset.mem_singleton] at covers
      subst covers
      have inside := @merged frame
      simp only [FramePool.refill, Finset.mem_union] at free
      simp only [FramePool.Free, FramePool.refill, Finset.mem_sdiff, Finset.mem_erase, Finset.mem_union]
      tauto
  | noBlock => cases shape
  | noFrame => cases shape
  | putBlock => cases shape
  | putFrame => cases shape
  | drain => cases shape

/-- A frame that is not in the pool stays outside until it is put back. -/
theorem FramePool.put_of_exec {events : List PoolEvent} (exec : Exec FramePool.Step pool events after)
    (outside : ¬pool.Free frame) (free : after.Free frame) :
    ∃ page order, PoolEvent.put page order ∈ events ∧ (Block.ofFrame order page).Covers frame := by
  induction exec with
  | start => exact absurd free outside
  | step _ moved inductionHypothesis =>
      rcases moved.put_of_free free with earlier | ⟨page, order, rfl, covers⟩
      · obtain ⟨page, order, member, covers⟩ := inductionHypothesis earlier
        exact ⟨page, order, List.mem_append_left _ member, covers⟩
      · exact ⟨page, order, List.mem_append_right _ (List.mem_singleton_self _), covers⟩

/-- Between two allocations that return the same frame there is a call that puts the frame back. -/
theorem taken_frame_returned {disabled : Bool} {zoneStartPfn spannedPages frame : Nat} {zone : Zone}
    {before middle : List AllocatorCall} {firstOrder firstPage secondOrder secondPage : Nat}
    {firstType secondType : PcpType} {firstCold secondCold : Bool}
    (exec : Exec (AllocatorStep disabled) (bootZone zoneStartPfn spannedPages)
      (before ++ [.take firstOrder firstType firstCold (some firstPage)] ++ middle ++
        [.take secondOrder secondType secondCold (some secondPage)]) zone)
    (first : (Block.ofFrame firstOrder firstPage).Covers frame)
    (second : (Block.ofFrame secondOrder secondPage).Covers frame) :
    ∃ page order cold, AllocatorCall.put page order cold ∈ middle ∧
      (Block.ofFrame order page).Covers frame := by
  obtain ⟨pool, shows, _⟩ := exec_represents exec
  simp only [List.filterMap_append, List.filterMap_cons, List.filterMap_nil, AllocatorCall.event] at shows
  obtain ⟨last, shows, secondTake⟩ := shows.split
  obtain ⟨taken, shows, between⟩ := shows.split
  obtain ⟨start, shows, firstTake⟩ := shows.split
  have apart : ∀ {pool events}, Exec FramePool.Step .empty events pool → pool.Apart := fun exec =>
    exec.invariant (fun _ member => absurd member (Finset.notMem_empty _))
      (fun holds step => step.apart holds)
  have left := (firstTake.single.taken (apart shows) first).2
  have again := (secondTake.single.taken (apart ((shows.append firstTake).append between)) second).1
  obtain ⟨page, order, member, covers⟩ := FramePool.put_of_exec between left again
  obtain ⟨call, inMiddle, isPut⟩ := List.mem_filterMap.mp member
  cases call with
  | put callPage callOrder cold =>
      cases isPut
      exact ⟨page, order, cold, inMiddle, covers⟩
  | take => exact nomatch isPut
  | drain => exact nomatch isPut
  | reserve => exact nomatch isPut
  | store => exact nomatch isPut
  | other => exact nomatch isPut

/-- The pair of `take_pair` is put back and taken again. -/
theorem put_pair : ∃ after,
    AllocatorStep false (takePages false eightFrames 1 .movable false).1 (.put 0 1 false) after ∧
      AllocatorStep false after (.take 1 .movable false (some 0))
        (takePages false after 1 .movable false).1 := by
  obtain ⟨pool, _, represents⟩ := exec_represents (Exec.start.step put_eight)
  obtain ⟨poolTaken, step, taken, _⟩ := takePages_spec false 1 .movable false represents
  have page : (takePages false eightFrames 1 .movable false).2 = some 0 := by decide
  rw [page] at step
  have admits : (takePages false eightFrames 1 .movable false).1.Admits ⟨0, 1⟩ :=
    admits_of_le (by decide) (by decide) (by decide)
  have owned := taken.owned admits fun frame covers =>
    (step.taken (fun _ => represents.notMerged) covers).2
  exact ⟨_, .put owned rfl, .take (Prod.ext rfl (by decide))⟩

theorem taken_frame_returned_pair : ∃ zone,
    Exec (AllocatorStep false) (bootZone 0 8) ([.put 0 3 false] ++ [.take 1 .movable false (some 0)] ++
      [.put 0 1 false] ++ [.take 1 .movable false (some 0)]) zone ∧
      ∃ page order cold, AllocatorCall.put page order cold ∈ [AllocatorCall.put 0 1 false] ∧
        (Block.ofFrame order page).Covers 1 := by
  obtain ⟨after, put, take⟩ := put_pair
  have exec := (((Exec.start.step put_eight).step take_pair).step put).step take
  exact ⟨_, exec, taken_frame_returned exec rfl rfl⟩

end Owners

/-! ### The free blocks -/

section Determined

variable {zone other : Zone} {order : Nat}

/-- The pages on the lists of an order. -/
def Zone.orderList (zone : Zone) (order : Nat) : List Nat :=
  zone.freeList order .unmovable ++ zone.freeList order .reclaimable ++ zone.freeList order .movable ++
    zone.freeList order .reserve ++ zone.freeList order .isolate

theorem count_orderList (zone : Zone) (page : Nat) :
    (zone.orderList order).count page = zone.listings page order := by
  simp only [Zone.orderList, Zone.listings, overTypes, List.count_append]

theorem length_orderList (zone : Zone) : (zone.orderList order).length = zone.listed order := by
  simp only [Zone.orderList, Zone.listed, overTypes, List.length_append]

theorem Zone.Sound.freeOrder_congr (sound : zone.Sound) (blocks : zone.freeBlocks = other.freeBlocks)
    {page : Nat}
    (free : zone.freeOrder page = some order) : other.freeOrder page = some order := by
  obtain ⟨member, start⟩ := sound.mem_of_freeOrder free
  rwa [blocks, Zone.mem_freeBlocks, start, Block.order_ofFrame] at member

/-- Zones with the same free blocks have the same pages on the lists of each order, and so the same
    counters. -/
theorem Zone.Sound.orderList_perm (sound : zone.Sound) (soundOther : other.Sound)
    (blocks : zone.freeBlocks = other.freeBlocks) (order : Nat) :
    (zone.orderList order).Perm (other.orderList order) := by
  refine List.perm_iff_count.mpr fun page => ?_
  have same : zone.freeOrder page = some order ↔ other.freeOrder page = some order :=
    ⟨sound.freeOrder_congr blocks, soundOther.freeOrder_congr blocks.symm⟩
  rw [count_orderList, count_orderList, sound.listings_eq, soundOther.listings_eq]
  simp only [same]

/-- The free blocks and the counters depend on the free frames only, not on the calls that led there. -/
theorem free_blocks_determined {disabled disabledOther : Bool}
    {zoneStartPfn spannedPages zoneStartPfnOther
    spannedPagesOther : Nat} {calls callsOther : List AllocatorCall}
    (exec : Exec (AllocatorStep disabled) (bootZone zoneStartPfn spannedPages) calls zone)
    (execOther : Exec (AllocatorStep disabledOther)
    (bootZone zoneStartPfnOther spannedPagesOther) callsOther other)
    (frames : ∀ frame, Covered zone.freeBlocks frame ↔ Covered other.freeBlocks frame) :
    zone.freeBlocks = other.freeBlocks ∧ ∀ order, zone.nrFree order = other.nrFree order ∧
      (zone.orderList order).Perm (other.orderList order) := by
  obtain ⟨_, _, represents⟩ := exec_represents exec
  obtain ⟨_, _, representsOther⟩ := exec_represents execOther
  have sound := represents.sound
  have soundOther := representsOther.sound
  have blocks := sound.coalesced.ext soundOther.coalesced frames
  refine ⟨blocks, fun order => ?_⟩
  have perm := sound.orderList_perm soundOther blocks order
  refine ⟨?_, perm⟩
  rw [sound.nrFree_eq, soundOther.nrFree_eq, ← length_orderList, ← length_orderList, perm.length_eq]

/-- A block that is put back adds its frames. -/
theorem covered_withBlock {b : Block} {frame : Nat} (sound : zone.Sound) (owned : zone.Owned b) :
    Covered (zone.withBlock b).freeBlocks frame ↔ b.Covers frame ∨ Covered zone.freeBlocks frame := by
  have custody := Custody.hold sound (fun _ covers => owned.notMerged covers) owned.toAdmits
  have notIsolate : MigrateType.movable ≠ .isolate := MigrateType.noConfusion
  have freed := freeOnePage_spec custody notIsolate
  have same : (zone.withBlock b).freeBlocks =
      (zone.freeOnePage b.start b.order .movable).freeBlocks := rfl
  rw [same, ← has_none, freed.has_iff, has_some]

theorem uncovered_boot {zoneStartPfn spannedPages frame : Nat} :
    ¬Covered (bootZone zoneStartPfn spannedPages).freeBlocks frame := fun covered =>
  Finset.notMem_empty frame (((represents_boot zoneStartPfn spannedPages).merged_iff frame).mpr covered)

theorem owned_firstHalf : (bootZone 0 8).Owned ⟨0, 2⟩ :=
  owned_boot (admits_of_le (by decide) (by decide) (by decide))

/-- The first half of the eight frames has been put back. -/
def firstHalf : Zone := (bootZone 0 8).withBlock ⟨0, 2⟩

theorem put_firstHalf : AllocatorStep false (bootZone 0 8) (.put 0 2 false) firstHalf :=
  .put owned_firstHalf rfl

theorem owned_secondHalf : firstHalf.Owned ⟨1, 2⟩ := by
  refine ⟨admits_of_le (by decide) (by decide) (by decide), fun {frame} covers covered => ?_,
    fun _ ⟨type, member⟩ => ?_⟩
  · have cases := (covered_withBlock (represents_boot 0 8).sound owned_firstHalf).mp covered
    have first := cases.resolve_right uncovered_boot
    have same : (⟨1, 2⟩ : Block) = ⟨0, 2⟩ := Block.eq_of_covers rfl covers first
    exact absurd same (by decide)
  · cases type <;> exact nomatch member

/-- The eight frames put back as one block or as two halves: the same block is free. -/
theorem free_blocks_determined_halves :
    eightFrames.freeBlocks = (firstHalf.withBlock ⟨1, 2⟩).freeBlocks ∧ ∀ order,
      eightFrames.nrFree order = (firstHalf.withBlock ⟨1, 2⟩).nrFree order ∧
      (eightFrames.orderList order).Perm ((firstHalf.withBlock ⟨1, 2⟩).orderList order) := by
  have putSecond : AllocatorStep false firstHalf (.put 4 2 false) (firstHalf.withBlock ⟨1, 2⟩) :=
    .put owned_secondHalf rfl
  obtain ⟨_, _, represents⟩ := exec_represents (Exec.start.step put_firstHalf)
  refine free_blocks_determined (Exec.start.step put_eight)
    ((Exec.start.step put_firstHalf).step putSecond)
    fun frame => ?_
  have split : Block.Covers ⟨0, 3⟩ frame ↔ Block.Covers ⟨0, 2⟩ frame ∨ Block.Covers ⟨1, 2⟩ frame :=
    Block.covers_iff_halves (b := ⟨0, 3⟩) (by decide)
  rw [eightFrames, covered_withBlock (represents_boot 0 8).sound owned_eight, split,
    covered_withBlock represents.sound owned_secondHalf, firstHalf,
    covered_withBlock (represents_boot 0 8).sound owned_firstHalf]
  tauto

end Determined

/-! ### The watermarks -/

section Watermark

variable {zone : Zone} {order : Nat}

theorem Zone.Sound.exists_of_nrFree_pos (sound : zone.Sound) (positive : 0 < zone.nrFree order) :
    ∃ b ∈ zone.freeBlocks, b.order = order := by
  rw [sound.nrFree_eq, ← length_orderList] at positive
  obtain ⟨page, member⟩ := List.exists_mem_of_length_pos positive
  have listed := List.count_pos_iff.mpr member
  rw [count_orderList, sound.listings_eq] at listed
  split at listed
  · next free => exact ⟨_, (sound.mem_of_freeOrder free).1, rfl⟩
  · exact absurd listed (Nat.lt_irrefl 0)

/-- If the loop reaches its end, pages are left above the orders it went through. -/
theorem watermarkLoop_pos {shift left o : Nat} {freePages least : Int} (nonneg : 0 ≤ least)
    (ok : watermarkLoop zone shift (left + 1) o freePages least = true) :
    ((∑ number ∈ Finset.range (left + 1), zone.nrFree (o + number) * 2 ^ (o + number) : Nat) : Int) <
      freePages := by
  induction left generalizing o freePages least with
  | zero =>
      simp only [watermarkLoop, Int.shiftRight_eq_div_pow] at ok
      have shifted := Int.ediv_nonneg nonneg (Int.natCast_nonneg (2 ^ shift))
      split at ok
      · exact absurd ok Bool.false_ne_true
      · rw [Finset.sum_range_one]
        simp only [Nat.add_zero]
        omega
  | succ left inductionHypothesis =>
      rw [watermarkLoop] at ok
      simp only [Int.shiftRight_eq_div_pow] at ok
      have shifted := Int.ediv_nonneg nonneg (Int.natCast_nonneg (2 ^ shift))
      split at ok
      · exact absurd ok Bool.false_ne_true
      · have rest := inductionHypothesis shifted ok
        rw [Finset.sum_range_succ']
        simp only [Nat.add_zero, Nat.add_right_comm o, ← Nat.add_assoc] at rest ⊢
        omega

theorem least_nonneg {call : WatermarkCall} (small : call.mark.toNat < 2 ^ 31) : 0 ≤ call.least := by
  have halved : ∀ number divisor : Int, 0 ≤ number → 0 < divisor → 0 ≤ number - number.tdiv divisor := by
    intro number divisor nonneg positive
    have bound := Int.tdiv_le_self divisor nonneg
    omega
  have mark : 0 ≤ call.mark.toInt := by
    rw [BitVec.toInt_eq_toNat_of_lt (by omega)]
    exact Int.natCast_nonneg _
  simp only [WatermarkCall.least]
  split <;> split
  · exact halved _ _ (halved _ _ mark (by decide)) (by decide)
  · exact halved _ _ mark (by decide)
  · exact halved _ _ mark (by decide)
  · exact mark

/-- A request that passes the watermark finds a page of the zone, or a block of the order or a larger one. -/
theorem exists_of_watermark {pool : FramePool} {call : WatermarkCall} (represents : Represents zone pool)
    (small : call.mark.toNat < 2 ^ 31) (ok : zoneWatermarkOk zone order call = true) :
    ∃ b ∈ zone.freeBlocks, order ≤ b.order := by
  have total : (zone.nrFreePages : Int) = zone.freePages := by
    rw [represents.nrFreePages_eq, represents.freePages_eq]
  simp only [zoneWatermarkOk] at ok
  split at ok
  · exact absurd ok Bool.false_ne_true
  next above =>
    by_contra none
    have empty : ∀ o, order ≤ o → zone.nrFree o = 0 := by
      intro o large
      by_contra some_
      obtain ⟨b, member, orders⟩ := represents.sound.exists_of_nrFree_pos (Nat.pos_of_ne_zero some_)
      exact none ⟨b, member, by omega⟩
    rcases Nat.eq_zero_or_pos order with rfl | positive
    · -- no page is free, so the comparison with the reserve has failed
      have noPages : zone.freePages = 0 := Finset.sum_eq_zero fun o _ => by
        rw [empty o (Nat.zero_le o), Nat.zero_mul]
      rw [total, noPages] at above
      exact above (Int.emod_nonneg _ (by decide))
    · obtain ⟨left, rfl⟩ := Nat.exists_eq_succ_of_ne_zero (Nat.pos_iff_ne_zero.mp positive)
      have below := watermarkLoop_pos (least_nonneg small) ok
      simp only [Nat.zero_add] at below
      have most : zone.freePages ≤ ∑ o ∈ Finset.range (left + 1), zone.nrFree o * 2 ^ o := by
        rcases Nat.le_total (left + 1) MAX_ORDER with inside | outside
        · refine Nat.le_of_eq
            (Finset.sum_subset (Finset.range_subset_range.mpr inside) fun o _ large => ?_).symm
          rw [empty o (by simpa using large), Nat.zero_mul]
        · exact Finset.sum_le_sum_of_subset (Finset.range_subset_range.mpr outside)
      have size := Nat.two_pow_pos (left + 1)
      have size' : (1 : Int) ≤ 2 ^ (left + 1) := by exact_mod_cast size
      rw [total] at below
      omega

/-- In a zone where a request passes the watermark, the request is served. The mark is a `long` in the
    comparison, so it must not be negative there. -/
theorem watermark_serves {disabled : Bool} {zoneStartPfn spannedPages : Nat} {calls : List AllocatorCall}
    {call : WatermarkCall} (type : PcpType) (cold : Bool)
    (exec : Exec (AllocatorStep disabled) (bootZone zoneStartPfn spannedPages) calls zone)
    (small : call.mark.toNat < 2 ^ 31) (ok : zoneWatermarkOk zone order call = true) :
    ∃ after page, takePages disabled zone order type cold = (after, some page) := by
  obtain ⟨pool, _, represents⟩ := exec_represents exec
  obtain ⟨b, member, large⟩ := exists_of_watermark represents small ok
  have small : order < MAX_ORDER := Nat.lt_of_le_of_lt large (represents.sound.admits member).order_lt
  have free : (Block.ofFrame order b.start).frames ⊆ pool.merged := by
    intro frame inBlock
    have covers := Block.Covers.of_le large (Block.covers_ofFrame order b.start) b.covers_start
      (Block.mem_frames.mp inBlock)
    exact (represents.merged_iff frame).mpr ⟨b, member, covers⟩
  obtain ⟨poolAfter, step, _⟩ := takePages_spec disabled order type cold represents
  cases result : takePages disabled zone order type cold with
  | mk after found =>
      cases found with
      | some page => exact ⟨after, page, rfl⟩
      | none =>
          rw [result] at step
          cases step with
          | noBlock _ tooSmall => exact absurd free (tooSmall small _ rfl)
          | noFrame used =>
              have first := free (Block.mem_frames.mpr (Block.covers_ofFrame _ b.start))
              rw [used] at first
              exact absurd first (Finset.notMem_empty _)

/-- With a watermark of one page, four of the eight frames can be taken. -/
theorem watermark_serves_four : ∃ after page,
    takePages false eightFrames 2 .unmovable false = (after, some page) :=
  watermark_serves .unmovable false (Exec.start.step put_eight)
    (show (1 : BitVec 32).toNat < 2 ^ 31 by decide)
    (show zoneWatermarkOk eightFrames 2 ⟨1, 0, false, false, 1⟩ = true by decide)

end Watermark

end KernelHacking.PageAllocator
