/-
Module: KernelHacking.Proofs.PageAllocator
Layer: Proofs
Purpose: The page allocator of a zone is a pool of frames. The free lists stand for the frames that are
  merged into blocks, and the lists of the processor for the single frames (`Represents`). Each function
  is described by what it does to the pool, and the loop that empties the lists of the processor stays
  inside the lists and ends exactly if it is not asked for more pages than there are.
Imports: KernelHacking.Foundations.Refinement, KernelHacking.Proofs.BuddySystem
Trusted boundary: none (fully proved)
Main exports: Stocks, Represents, takePages_spec, freePages_spec, drainPages_spec
Open obligations: none
-/
import KernelHacking.Foundations.Refinement
import KernelHacking.Proofs.BuddySystem

namespace KernelHacking.PageAllocator

open Buddy

/-! ### The pool of a zone -/

/-- How often the page is on the lists of the processor. -/
def Zone.cachings (zone : Zone) (page : Nat) : Nat :=
  (zone.pcp.lists .unmovable).count page + (zone.pcp.lists .reclaimable).count page +
    (zone.pcp.lists .movable).count page

/-- The lists hold the frames of the pool. -/
structure Stocks (zone : Zone) (pool : FramePool) : Prop where
  sound : zone.Sound
  merged_iff : ∀ frame, frame ∈ pool.merged ↔ Covered zone.freeBlocks frame
  freePages_eq : zone.freePages = pool.merged.card
  cachings_eq : ∀ page, zone.cachings page = if page ∈ pool.cached then 1 else 0
  notMerged : ∀ {page}, page ∈ pool.cached → page ∉ pool.merged
  inside : ∀ {page}, page ∈ pool.cached → zone.spans page = true
  /-- The field that is read as a migrate type when the page is merged. -/
  typed : ∀ {page}, page ∈ pool.cached → ∃ type, type ≠ .isolate ∧
    zone.pagePrivate page = MigrateType.code type

/-- The lists and the two counters describe the pool. -/
structure Represents (zone : Zone) (pool : FramePool) : Prop extends Stocks zone pool where
  nrFreePages_eq : zone.nrFreePages = pool.merged.card
  count_eq : zone.pcp.count = pool.cached.card

/-- The page is not free, and may be put on a list of the processor. -/
structure Prepared (zone : Zone) (pool : FramePool) (page : Nat) : Prop where
  notMerged : page ∉ pool.merged
  notCached : page ∉ pool.cached
  inside : zone.spans page = true
  typed : ∃ type, type ≠ .isolate ∧ zone.pagePrivate page = MigrateType.code type

section Pool

variable {zone after : Zone} {pool : FramePool} {b : Block} {type : PcpType} {page : Nat}

theorem cachings_setPcpList (zone : Zone) (type : PcpType) (pages : List Nat) (page : Nat) :
    (zone.setPcpList type pages).cachings page + (zone.pcp.lists type).count page =
      zone.cachings page + pages.count page := by
  cases type <;> simp [Zone.cachings, Zone.setPcpList] <;> omega

theorem count_le_cachings (zone : Zone) (type : PcpType) (page : Nat) :
    (zone.pcp.lists type).count page ≤ zone.cachings page := by
  cases type <;> simp only [Zone.cachings] <;> omega

theorem Stocks.mem_cached_of_mem (stocks : Stocks zone pool) (member : page ∈ zone.pcp.lists type) :
    page ∈ pool.cached := by
  have occurs := List.count_pos_iff.mpr member
  have bound := count_le_cachings zone type page
  have total := stocks.cachings_eq page
  by_contra absent
  rw [if_neg absent] at total
  omega

theorem Stocks.mem_cached (stocks : Stocks zone pool) : page ∈ pool.cached ↔ zone.Cached page := by
  refine ⟨fun member => ?_, fun ⟨_, member⟩ => stocks.mem_cached_of_mem member⟩
  have total := stocks.cachings_eq page
  rw [if_pos member, Zone.cachings] at total
  by_contra none
  have absent : ∀ type, (zone.pcp.lists type).count page = 0 :=
    fun type => List.count_eq_zero.mpr fun listed => none ⟨type, listed⟩
  simp only [absent] at total
  omega

/-- What the pool says depends on the lists, the orders of the free blocks and the types of the single
    pages. -/
theorem Stocks.alike (stocks : Stocks zone pool) (alike : Alike zone after)
    (lists : after.pcp.lists = zone.pcp.lists)
    (privates : ∀ {page}, page ∈ pool.cached → after.pagePrivate page = zone.pagePrivate page) :
    Stocks after pool where
  sound := alike.keeps_sound stocks.sound
  merged_iff frame := by rw [alike.freeBlocks, stocks.merged_iff]
  freePages_eq := (Zone.freePages_congr alike.nrFree).trans stocks.freePages_eq
  cachings_eq page := by rw [Zone.cachings, lists, ← stocks.cachings_eq, Zone.cachings]
  notMerged := stocks.notMerged
  inside member := (alike.spans _).trans (stocks.inside member)
  typed member := by
    rw [privates member]
    exact stocks.typed member

theorem Stocks.modNrFreePages (stocks : Stocks zone pool) (delta : Int) :
    Stocks (zone.modNrFreePages delta) pool :=
  stocks.alike ⟨fun _ => rfl, fun _ => rfl, fun _ _ => rfl, fun _ => rfl, fun _ => rfl, rfl, id⟩ rfl
    fun _ => rfl

theorem Stocks.setPcpCount (stocks : Stocks zone pool) (count : Int) :
    Stocks { zone with pcp.count := count } pool :=
  stocks.alike ⟨fun _ => rfl, fun _ => rfl, fun _ _ => rfl, fun _ => rfl, fun _ => rfl, rfl, id⟩ rfl
    fun _ => rfl

theorem Stocks.modPcpCount (stocks : Stocks zone pool)
    (delta : Int) : Stocks (zone.modPcpCount delta) pool :=
  stocks.setPcpCount (zone.pcp.count + delta)

/-- A frame that is not free is the first page of no free block. -/
theorem Stocks.freeOrder_eq_none (stocks : Stocks zone pool) (outside : page ∉ pool.merged) :
    zone.freeOrder page = none := by
  cases free : zone.freeOrder page with
  | none => rfl
  | some order =>
      have covered : Covered zone.freeBlocks page :=
        ⟨_, (stocks.sound.mem_of_freeOrder free).1, Block.covers_ofFrame order page⟩
      exact absurd ((stocks.merged_iff page).mpr covered) outside

/-- The owner of a page writes to its field. -/
theorem Stocks.setPagePrivate (stocks : Stocks zone pool) (outside : page ∉ pool.merged)
    (single : page ∉ pool.cached) (value : Nat) : Stocks (zone.setPagePrivate page value) pool := by
  have orders : ∀ other, (zone.setPagePrivate page value).freeOrder other = zone.freeOrder other := by
    intro other
    by_cases same : other = page
    · have none := stocks.freeOrder_eq_none outside
      rw [same, none]
      rw [Zone.freeOrder] at none ⊢
      split at none
      · cases none
      · next notFree => exact if_neg notFree
    · show (if zone.spans other = true ∧ zone.pageBuddy other = true then
        some (Function.update zone.pagePrivate page value other) else none) = _
      rw [Function.update_of_ne same, Zone.freeOrder]
  refine stocks.alike ⟨fun _ => rfl, orders, fun _ _ => rfl, fun _ => rfl, fun _ => rfl, rfl, id⟩ rfl ?_
  intro other member
  refine Function.update_of_ne ?_ _ _
  rintro rfl
  exact single member

/-! ### Blocks -/

theorem Stocks.shuffle (stocks : Stocks zone pool) (shuffled : Shuffled zone after) : Stocks after pool :=
  stocks.alike shuffled.toAlike (congrArg PerCpuPages.lists shuffled.same.pcp)
    fun _ => congrFun shuffled.pagePrivate _

theorem cachings_congr (lists : after.pcp = zone.pcp)
    (page : Nat) : after.cachings page = zone.cachings page := by
  rw [Zone.cachings, lists, Zone.cachings]

/-- A block of frames that are not free is merged. -/
theorem Stocks.put (stocks : Stocks zone pool) (regrouped : Regrouped zone (some b) after none)
    (owned : Disjoint b.frames pool.merged) (ownedSingle : Disjoint b.frames pool.cached) :
    Stocks after ⟨pool.merged ∪ b.frames, pool.cached⟩ where
  sound := regrouped.custody.sound
  merged_iff frame := by
    rw [← has_none, regrouped.has_iff, has_some, Finset.mem_union, stocks.merged_iff, Block.mem_frames,
      or_comm]
  freePages_eq := by
    have pages := regrouped.pages
    rw [heldPages, heldPages, Nat.add_zero, stocks.freePages_eq] at pages
    rw [pages, Finset.card_union_of_disjoint owned.symm, Block.card_frames]
  cachings_eq page := (cachings_congr regrouped.same.pcp page).trans (stocks.cachings_eq page)
  notMerged member merged := by
    rcases Finset.mem_union.mp merged with merged | covers
    · exact stocks.notMerged member merged
    · exact Finset.disjoint_left.mp ownedSingle covers member
  inside member := (regrouped.same.spans _).trans (stocks.inside member)
  typed := by
    intro page member
    have untouched : ¬zone.Has (some b) page := by
      rw [has_some, ← stocks.merged_iff, ← Block.mem_frames]
      rintro (covers | merged)
      · exact Finset.disjoint_left.mp ownedSingle covers member
      · exact stocks.notMerged member merged
    rw [regrouped.private_eq untouched]
    exact stocks.typed member

/-- A block is taken out of the merged frames. -/
theorem Stocks.take (stocks : Stocks zone pool) (regrouped : Regrouped zone none after (some b)) :
    b.frames ⊆ pool.merged ∧ Stocks after ⟨pool.merged \ b.frames, pool.cached⟩ := by
  have has : ∀ frame, frame ∈ pool.merged ↔ b.Covers frame ∨ Covered after.freeBlocks frame := by
    intro frame
    rw [stocks.merged_iff, ← has_none, ← regrouped.has_iff, has_some]
  have subset : b.frames ⊆ pool.merged :=
    fun frame member => (has frame).mpr (.inl (Block.mem_frames.mp member))
  refine ⟨subset, ?_⟩
  exact
    { sound := regrouped.custody.sound
      merged_iff := by
        intro frame
        rw [Finset.mem_sdiff, has, Block.mem_frames]
        have apart : b.Covers frame → ¬Covered after.freeBlocks frame :=
          fun covers => regrouped.custody.apart rfl covers
        tauto
      freePages_eq := by
        have pages := regrouped.pages
        rw [heldPages, heldPages, Nat.add_zero, stocks.freePages_eq] at pages
        rw [Finset.card_sdiff_of_subset subset, Block.card_frames, ← pages, Nat.add_sub_cancel]
      cachings_eq := fun page => (cachings_congr regrouped.same.pcp page).trans (stocks.cachings_eq page)
      notMerged := fun member merged => stocks.notMerged member (Finset.mem_sdiff.mp merged).1
      inside := fun member => (regrouped.same.spans _).trans (stocks.inside member)
      typed := by
        intro page member
        have untouched : ¬zone.Has none page := by
          rw [has_none, ← stocks.merged_iff]
          exact stocks.notMerged member
        rw [regrouped.private_eq untouched]
        exact stocks.typed member }

/-! ### Single frames -/

theorem alike_setPcpList (zone : Zone) (type : PcpType) (pages : List Nat) :
    Alike zone (zone.setPcpList type pages) :=
  ⟨fun _ => rfl, fun _ => rfl, fun _ _ => rfl, fun _ => rfl, fun _ => rfl, rfl, id⟩

/-- A page is taken from a list of the processor. -/
theorem Stocks.uncache {rest : List Nat} (stocks : Stocks zone pool)
    (list : (zone.pcp.lists type).Perm (page :: rest)) :
    page ∈ pool.cached ∧ Stocks (zone.setPcpList type rest) ⟨pool.merged, pool.cached.erase page⟩ := by
  have cached := stocks.mem_cached_of_mem (list.mem_iff.mpr List.mem_cons_self)
  refine ⟨cached, ?_⟩
  have counts : ∀ other, (zone.setPcpList type rest).cachings other + [page].count other =
      zone.cachings other := by
    intro other
    have changed := cachings_setPcpList zone type rest other
    rw [list.count_eq, show page :: rest = [page] ++ rest from rfl, List.count_append] at changed
    omega
  exact
    { sound := (alike_setPcpList zone type rest).keeps_sound stocks.sound
      merged_iff := stocks.merged_iff
      freePages_eq := (Zone.freePages_congr rfl).trans stocks.freePages_eq
      cachings_eq := by
        intro other
        have total := counts other
        rw [stocks.cachings_eq] at total
        by_cases same : other = page
        · rw [same, if_pos cached, List.count_singleton_self] at total
          rw [same, if_neg (Finset.notMem_erase _ _)]
          omega
        · rw [List.count_singleton, if_neg (by simpa using Ne.symm same), Nat.add_zero] at total
          rw [total]
          simp [same]
      notMerged := fun member => stocks.notMerged (Finset.mem_of_mem_erase member)
      inside := fun member => stocks.inside (Finset.mem_of_mem_erase member)
      typed := fun member => stocks.typed (Finset.mem_of_mem_erase member) }

/-- Pages that are not free are put on a list of the processor. -/
theorem Stocks.cache {pages list : List Nat} (stocks : Stocks zone pool)
    (permuted : list.Perm (pages ++ zone.pcp.lists type)) (once : pages.Nodup)
    (prepared : ∀ page ∈ pages, Prepared zone pool page) :
    Stocks (zone.setPcpList type list) ⟨pool.merged, pool.cached ∪ pages.toFinset⟩ where
  sound := (alike_setPcpList zone type list).keeps_sound stocks.sound
  merged_iff := stocks.merged_iff
  freePages_eq := (Zone.freePages_congr rfl).trans stocks.freePages_eq
  cachings_eq := by
    intro page
    have changed := cachings_setPcpList zone type list page
    rw [permuted.count_eq, List.count_append, stocks.cachings_eq] at changed
    by_cases new : page ∈ pages
    · rw [if_neg (prepared page new).notCached, once.count, if_pos new] at changed
      rw [if_pos (Finset.mem_union_right _ (List.mem_toFinset.mpr new))]
      omega
    · rw [List.count_eq_zero.mpr new] at changed
      simp only [Finset.mem_union, List.mem_toFinset, new, or_false]
      omega
  notMerged := by
    intro page member
    rcases Finset.mem_union.mp member with member | new
    · exact stocks.notMerged member
    · exact (prepared page (List.mem_toFinset.mp new)).notMerged
  inside := by
    intro page member
    rcases Finset.mem_union.mp member with member | new
    · exact stocks.inside member
    · exact (prepared page (List.mem_toFinset.mp new)).inside
  typed := by
    intro page member
    rcases Finset.mem_union.mp member with member | new
    · exact stocks.typed member
    · exact (prepared page (List.mem_toFinset.mp new)).typed

end Pool

/-! ### Allocation -/

section Take

variable {zone after : Zone} {pool : FramePool} {type : PcpType} {disabled : Bool} {order page : Nat}

theorem PcpType.type_ne_isolate (type : PcpType) : type.type ≠ .isolate := by
  cases type <;> exact MigrateType.noConfusion

@[simp] theorem frames_ofFrame_zero (page : Nat) : (Block.ofFrame 0 page).frames = {page} := by
  ext frame
  rw [Block.mem_frames, Finset.mem_singleton, Block.Covers, Block.ofFrame, Nat.pow_zero, Nat.div_one,
    Nat.div_one]

theorem Stocks.rmqueue_some (stocks : Stocks zone pool)
    (result : rmqueue disabled zone order type.type = some (after, page)) :
    (Block.ofFrame order page).start = page ∧
      Regrouped zone none after (some (Block.ofFrame order page)) := by
  obtain ⟨aligned, regrouped⟩ := rmqueue_spec stocks.sound type.type_ne_isolate result
  exact ⟨Block.start_ofFrame aligned, regrouped⟩

/-- If no block is found, no block of the order is free. -/
theorem Stocks.rmqueue_none (stocks : Stocks zone pool) (small : order < MAX_ORDER)
    (result : rmqueue disabled zone order type.type = none) (b : Block) (orders : b.order = order) :
    ¬b.frames ⊆ pool.merged := by
  intro subset
  obtain ⟨c, member, large, _⟩ := stocks.sound.coalesced.exists_mem (b := b)
    (by rw [orders]; exact Nat.le_sub_one_of_lt small)
    (fun covers => (stocks.merged_iff _).mp (subset (Block.mem_frames.mpr covers)))
  have tooSmall := PageAllocator.rmqueue_none stocks.sound result member
  omega

theorem Stocks.merged_eq_empty (stocks : Stocks zone pool)
    (result : rmqueue disabled zone 0 type.type = none) : pool.merged = ∅ := by
  refine Finset.eq_empty_of_forall_notMem fun frame member => ?_
  refine stocks.rmqueue_none (by decide) result (Block.ofFrame 0 frame) rfl ?_
  rw [frames_ofFrame_zero]
  exact Finset.singleton_subset_iff.mpr member

/-- A page that waits for its list is not touched when another one is taken from the merged frames. -/
theorem Prepared.take {other code : Nat} (prepared : Prepared zone pool other) (stocks : Stocks zone pool)
    (regrouped : Regrouped zone none after (some (Block.ofFrame 0 page))) (different : other ≠ page) :
    Prepared (after.setPagePrivate page code) ⟨pool.merged \ {page}, pool.cached⟩ other where
  notMerged still := prepared.notMerged (Finset.mem_sdiff.mp still).1
  notCached := prepared.notCached
  inside := (regrouped.same.spans other).trans prepared.inside
  typed := by
    have untouched : after.pagePrivate other = zone.pagePrivate other := by
      refine regrouped.private_eq ?_
      rw [has_none, ← stocks.merged_iff]
      exact prepared.notMerged
    show ∃ type, type ≠ .isolate ∧
      Function.update after.pagePrivate page code other = MigrateType.code type
    rw [Function.update_of_ne different, untouched]
    exact prepared.typed

/-- The pages are taken one by one from the merged frames, and stay apart until the list is changed. -/
theorem rmqueueBulkLoop_spec (disabled : Bool) (type : PcpType) (count : Nat) {pages : List Nat}
    (stocks : Stocks zone pool) (once : pages.Nodup)
    (prepared : ∀ page ∈ pages, Prepared zone pool page) :
    ∃ after new, rmqueueBulkLoop disabled type count zone pages = (after, pages ++ new) ∧
      new.toFinset ⊆ pool.merged ∧ Stocks after ⟨pool.merged \ new.toFinset, pool.cached⟩ ∧
      (pages ++ new).Nodup ∧
      (∀ page ∈ pages ++ new, Prepared after ⟨pool.merged \ new.toFinset, pool.cached⟩ page) ∧
      SameZone zone after ∧ (0 < count → new = [] → pool.merged = ∅) := by
  induction count generalizing zone pool pages with
  | zero =>
      refine ⟨zone, [], by rw [rmqueueBulkLoop, List.append_nil], by simp, ?_, ?_, ?_, .refl zone, ?_⟩
      · simpa using stocks
      · simpa using once
      · simpa using prepared
      · exact fun impossible => absurd impossible (Nat.lt_irrefl 0)
  | succ count inductionHypothesis =>
      rw [rmqueueBulkLoop]
      cases result : rmqueue disabled zone 0 type.type with
      | none =>
          refine ⟨zone, [], by rw [List.append_nil], by simp, ?_, ?_, ?_, .refl zone, ?_⟩
          · simpa using stocks
          · simpa using once
          · simpa using prepared
          · exact fun _ _ => stocks.merged_eq_empty result
      | some taken =>
          obtain ⟨middle, page⟩ := taken
          obtain ⟨_, regrouped⟩ := stocks.rmqueue_some result
          obtain ⟨free, stocked⟩ := stocks.take regrouped
          rw [frames_ofFrame_zero] at free stocked
          have merged : page ∈ pool.merged := free (Finset.mem_singleton_self page)
          have removed : page ∉ pool.merged \ {page} := by simp
          have single : page ∉ pool.cached := fun member => stocks.notMerged member merged
          have fresh : page ∉ pages := fun member => (prepared page member).notMerged merged
          have typed := stocked.setPagePrivate removed single type.type.code
          have onceNew : (pages ++ [page]).Nodup := by
            rw [List.nodup_append]
            refine ⟨once, List.nodup_singleton page, fun a member b isPage => ?_⟩
            rw [List.mem_singleton.mp isPage]
            rintro rfl
            exact fresh member
          have preparedNew : ∀ other ∈ pages ++ [page],
              Prepared (middle.setPagePrivate page type.type.code)
                ⟨pool.merged \ {page}, pool.cached⟩ other := by
            intro other member
            rcases List.mem_append.mp member with member | isPage
            · exact (prepared other member).take stocks regrouped fun same => fresh (same ▸ member)
            · rw [List.mem_singleton.mp isPage]
              exact ⟨removed, single, (regrouped.custody.admits rfl).inside (Block.covers_ofFrame 0 page),
                type.type, type.type_ne_isolate, Function.update_self _ _ _⟩
          obtain ⟨after, new, loop, subset, stocksAfter, onceAfter, preparedAfter, same, _⟩ :=
            inductionHypothesis typed onceNew preparedNew
          have sets : (pool.merged \ {page}) \ new.toFinset = pool.merged \ (page :: new).toFinset := by
            ext frame
            simp only [Finset.mem_sdiff, Finset.mem_singleton, List.toFinset_cons, Finset.mem_insert]
            tauto
          rw [sets] at stocksAfter
          simp only [sets] at preparedAfter
          rw [List.append_assoc, List.singleton_append] at loop onceAfter preparedAfter
          refine ⟨after, page :: new, loop, ?_, stocksAfter, onceAfter, preparedAfter, ?_,
            fun _ empty => ?_⟩
          · rw [List.toFinset_cons]
            exact Finset.insert_subset merged (subset.trans Finset.sdiff_subset)
          · have typedSame : SameZone middle (middle.setPagePrivate page type.type.code) :=
                ⟨rfl, rfl, rfl, rfl⟩
            exact (regrouped.same.trans typedSame).trans same
          · exact nomatch empty

theorem rmqueueBulk_spec (disabled : Bool) (type : PcpType) (cold : Bool)
    (represents : Represents zone pool) :
    ∃ moved ⊆ pool.merged, Represents (rmqueueBulk disabled zone type cold) (pool.refill moved) ∧
      (rmqueueBulk disabled zone type cold).pcp.limits = zone.pcp.limits ∧
      ((rmqueueBulk disabled zone type cold).pcp.lists type = [] → pool.merged = ∅) := by
  obtain ⟨after, new, loop, subset, stocks, once, prepared, same, empty⟩ :=
    rmqueueBulkLoop_spec disabled type zone.pcp.limits.batch represents.toStocks List.nodup_nil
      (fun _ member => nomatch member)
  rw [List.nil_append] at loop once prepared
  obtain ⟨list, permuted, result⟩ : ∃ list : List Nat, list.Perm (new ++ after.pcp.lists type) ∧
      rmqueueBulk disabled zone type cold =
        ((after.setPcpList type list).modNrFreePages (-new.length)).modPcpCount new.length := by
    refine ⟨if cold then after.pcp.lists type ++ new.reverse else new ++ after.pcp.lists type, ?_,
      by rw [rmqueueBulk, loop]⟩
    split
    · exact List.perm_append_comm.trans ((List.reverse_perm new).append_right _)
    · exact .refl _
  have stocked := stocks.cache permuted once prepared
  have cardNew : new.toFinset.card = new.length := List.toFinset_card_of_nodup once
  refine ⟨new.toFinset, subset, ⟨?_, ?_, ?_⟩, ?_, fun left => ?_⟩
  · rw [result]
    exact (stocked.modNrFreePages _).modPcpCount _
  · rw [result]
    show after.nrFreePages + -(new.length : Int) = ((pool.merged \ new.toFinset).card : Int)
    have total := Finset.card_sdiff_add_card_eq_card subset
    rw [same.nrFreePages, represents.nrFreePages_eq]
    omega
  · rw [result]
    show after.pcp.count + (new.length : Int) = ((pool.cached ∪ new.toFinset).card : Int)
    have disjoint : Disjoint pool.cached new.toFinset :=
      Finset.disjoint_left.mpr fun frame member new => represents.notMerged member (subset new)
    rw [Finset.card_union_of_disjoint disjoint, same.pcp, represents.count_eq, cardNew]
    omega
  · rw [result]
    show after.pcp.limits = zone.pcp.limits
    rw [same.pcp]
  · rw [result] at left
    have filled : (after.setPcpList type list).pcp.lists type = list := Function.update_self _ _ _
    rw [filled.symm.trans left] at permuted
    exact empty zone.pcp.limits.batch_pos (List.append_eq_nil_iff.mp permuted.nil_eq.symm).1

theorem takePcpPage_spec (type : PcpType) (cold : Bool) (represents : Represents zone pool) :
    (zone.pcp.lists type = [] ∧ takePcpPage zone type cold = (zone, none)) ∨
      ∃ after page, takePcpPage zone type cold = (after, some page) ∧ page ∈ pool.cached ∧
        Represents after ⟨pool.merged, pool.cached.erase page⟩ ∧ after.pcp.limits = zone.pcp.limits := by
  cases end_ : (if cold then (zone.pcp.lists type).getLast? else (zone.pcp.lists type).head?) with
  | none =>
      refine .inl ⟨?_, ?_⟩
      · cases cold
        · exact List.head?_eq_none_iff.mp end_
        · exact List.getLast?_eq_none_iff.mp end_
      · simp only [takePcpPage, end_]
  | some page =>
      have permuted : (zone.pcp.lists type).Perm
          (page :: if cold then (zone.pcp.lists type).dropLast else (zone.pcp.lists type).tail) := by
        cases cold
        · rw [if_neg Bool.false_ne_true] at end_ ⊢
          exact .of_eq (List.eq_cons_of_mem_head? end_)
        · rw [if_pos rfl] at end_ ⊢
          obtain ⟨front, list⟩ := List.getLast?_eq_some_iff.mp end_
          rw [list, List.dropLast_concat]
          exact List.perm_append_comm
      obtain ⟨member, stocks⟩ := represents.uncache permuted
      refine .inr ⟨_, page, by simp only [takePcpPage, end_], member,
        ⟨stocks.modPcpCount (-1), ?_, ?_⟩, rfl⟩
      · exact represents.nrFreePages_eq
      · show zone.pcp.count + -1 = ((pool.cached.erase page).card : Int)
        have total := Finset.card_erase_add_one member
        rw [represents.count_eq]
        omega

theorem refill_empty (pool : FramePool) : pool.refill ∅ = pool := by
  rw [FramePool.refill, Finset.sdiff_empty, Finset.union_empty]

/-- A single page is taken from the list of its type, which is filled up first if it is empty. -/
theorem takePages_zero (disabled : Bool) (type : PcpType) (cold : Bool)
    (represents : Represents zone pool) :
    ∃ poolAfter, FramePool.Step pool (.take 0 (takePages disabled zone 0 type cold).2) poolAfter ∧
      Represents (takePages disabled zone 0 type cold).1 poolAfter ∧
      (takePages disabled zone 0 type cold).1.pcp.limits = zone.pcp.limits := by
  rw [takePages, if_pos rfl]
  by_cases none : zone.pcp.lists type = []
  · simp only [if_pos none]
    obtain ⟨moved, subset, filled, limits, empty⟩ :=
      rmqueueBulk_spec disabled type cold represents
    rcases takePcpPage_spec type cold filled with
      ⟨left, result⟩ | ⟨after, page, result, member, taken, same⟩
    · have used := empty left
      rw [used, Finset.subset_empty] at subset
      rw [subset, refill_empty] at filled
      rw [result]
      exact ⟨pool, .noFrame used, filled, limits⟩
    · rw [result]
      exact ⟨_, .takeFrame subset member, taken, same.trans limits⟩
  · simp only [if_neg none]
    rcases takePcpPage_spec type cold represents with
      ⟨left, _⟩ | ⟨after, page, result, member, taken, same⟩
    · exact absurd left none
    · rw [result]
      refine ⟨_, .takeFrame (Finset.empty_subset _) ?_, ?_, same⟩
      · rw [refill_empty]
        exact member
      · rw [refill_empty]
        exact taken

theorem takePages_spec (disabled : Bool) (order : Nat) (type : PcpType) (cold : Bool)
    (represents : Represents zone pool) :
    ∃ poolAfter, FramePool.Step pool (.take order (takePages disabled zone order type cold).2) poolAfter ∧
      Represents (takePages disabled zone order type cold).1 poolAfter ∧
      (takePages disabled zone order type cold).1.pcp.limits = zone.pcp.limits := by
  rcases Nat.eq_zero_or_pos order with rfl | positive
  · exact takePages_zero disabled type cold represents
  rw [takePages, if_neg (Nat.pos_iff_ne_zero.mp positive)]
  cases result : rmqueue disabled zone order type.type with
  | none =>
      exact ⟨pool, .noBlock positive fun small b orders => represents.rmqueue_none small result b orders,
        represents, rfl⟩
  | some taken =>
      obtain ⟨after, page⟩ := taken
      obtain ⟨start, regrouped⟩ := represents.rmqueue_some result
      obtain ⟨free, stocks⟩ := represents.take regrouped
      have step := @FramePool.Step.takeBlock pool (Block.ofFrame order page) positive free
      rw [start] at step
      refine ⟨_, step, ⟨stocks.modNrFreePages _, ?_, ?_⟩, congrArg PerCpuPages.limits regrouped.same.pcp⟩
      · show after.nrFreePages + -2 ^ order =
          ((pool.merged \ (Block.ofFrame order page).frames).card : Int)
        have total := Finset.card_sdiff_add_card_eq_card free
        rw [Block.card_frames, Block.order_ofFrame] at total
        have whole : (pool.merged.card : Int) =
            ((pool.merged \ (Block.ofFrame order page).frames).card : Int) + 2 ^ order := by
          exact_mod_cast total.symm
        rw [regrouped.same.nrFreePages, represents.nrFreePages_eq, whole]
        omega
      · show after.pcp.count = _
        rw [regrouped.same.pcp]
        exact represents.count_eq

end Take

/-! ### Freeing -/

section Put

variable {zone after : Zone} {pool : FramePool} {type : PcpType} {page : Nat}

theorem MigrateType.ofCode_code (type : MigrateType) : MigrateType.ofCode type.code = some type := by
  cases type <;> rfl

/-- The fields that the loops over the lists of the processor leave to their caller. -/
structure SameCounters (zone after : Zone) : Prop where
  nrFreePages : after.nrFreePages = zone.nrFreePages
  count : after.pcp.count = zone.pcp.count
  limits : after.pcp.limits = zone.pcp.limits

theorem SameCounters.trans {middle : Zone} (one : SameCounters zone middle)
    (two : SameCounters middle after) :
    SameCounters zone after :=
  ⟨two.1.trans one.1, two.2.trans one.2, two.3.trans one.3⟩

theorem settle_settle (pool : FramePool) (one two : Finset Nat) :
    (pool.settle one).settle two = pool.settle (one ∪ two) := by
  rw [FramePool.settle, FramePool.settle, FramePool.settle, Finset.union_assoc]
  congr 1
  ext frame
  simp only [Finset.mem_sdiff, Finset.mem_union]
  tauto

theorem settle_empty (pool : FramePool) : pool.settle ∅ = pool := by
  rw [FramePool.settle, Finset.sdiff_empty, Finset.union_empty]

/-- A block that is not free is held. -/
theorem Stocks.custody {b : Block} (stocks : Stocks zone pool) (admits : zone.Admits b)
    (owned : Disjoint b.frames pool.merged) : Custody zone (some b) := by
  refine Custody.hold stocks.sound (fun frame covers covered => ?_) admits
  exact Finset.disjoint_left.mp owned (Block.mem_frames.mpr covers)
    ((stocks.merged_iff frame).mpr covered)

/-- A round of the inner loop: the last page of the list is merged. -/
theorem Stocks.settle_last (stocks : Stocks zone pool)
    (last : (zone.pcp.lists type).getLast? = some page) :
    ∃ pageType, MigrateType.ofCode (zone.pagePrivate page) = some pageType ∧ page ∈ pool.cached ∧
      Stocks ((zone.setPcpList type (zone.pcp.lists type).dropLast).freeOnePage page 0 pageType)
        (pool.settle {page}) ∧
      SameCounters zone ((zone.setPcpList type (zone.pcp.lists type).dropLast).freeOnePage page 0
        pageType) := by
  have permuted : (zone.pcp.lists type).Perm (page :: (zone.pcp.lists type).dropLast) := by
    obtain ⟨front, list⟩ := List.getLast?_eq_some_iff.mp last
    rw [list, List.dropLast_concat]
    exact List.perm_append_comm
  obtain ⟨member, stocked⟩ := stocks.uncache permuted
  obtain ⟨pageType, notIsolate, code⟩ := stocks.typed member
  have start : (Block.ofFrame 0 page).start = page := Block.start_ofFrame (Nat.one_dvd page)
  have owned : Disjoint (Block.ofFrame 0 page).frames pool.merged := by
    rw [frames_ofFrame_zero]
    exact Finset.disjoint_singleton_left.mpr (stocks.notMerged member)
  have ownedSingle : Disjoint (Block.ofFrame 0 page).frames (pool.cached.erase page) := by
    rw [frames_ofFrame_zero]
    exact Finset.disjoint_singleton_left.mpr (Finset.notMem_erase _ _)
  have admits : (zone.setPcpList type (zone.pcp.lists type).dropLast).Admits (Block.ofFrame 0 page) := by
    refine ⟨Nat.zero_lt_of_lt (by decide : 0 < MAX_ORDER), fun {frame} covers => ?_⟩
    rw [← Block.mem_frames, frames_ofFrame_zero, Finset.mem_singleton] at covers
    rw [covers]
    exact stocks.inside member
  have regrouped := freeOnePage_spec (stocked.custody admits owned) notIsolate
  have settled := stocked.put regrouped owned ownedSingle
  rw [start, Block.order_ofFrame] at regrouped settled
  rw [frames_ofFrame_zero] at settled
  refine ⟨pageType, by rw [code, MigrateType.ofCode_code], member, ?_, regrouped.same.nrFreePages, ?_, ?_⟩
  · rw [FramePool.settle, Finset.sdiff_singleton_eq_erase]
    exact settled
  · rw [regrouped.same.pcp]
    rfl
  · rw [regrouped.same.pcp]
    rfl

/-- The inner loop frees at least one page. -/
theorem freeFromList_spec {toFree : Nat} (batchFree : Nat) (stocks : Stocks zone pool)
    (some_ : zone.pcp.lists type ≠ []) (positive : 0 < toFree) :
    ∃ after left batchLeft moved, freeFromList type toFree batchFree zone =
      some (after, left, batchLeft) ∧
      moved ⊆ pool.cached ∧ 0 < moved.card ∧ moved.card + left = toFree ∧
        Stocks after (pool.settle moved) ∧
      SameCounters zone after := by
  induction toFree generalizing zone pool batchFree with
  | zero => exact absurd positive (Nat.lt_irrefl 0)
  | succ toFree inductionHypothesis =>
      rw [freeFromList]
      cases last : (zone.pcp.lists type).getLast? with
      | none => exact absurd (List.getLast?_eq_none_iff.mp last) some_
      | some page =>
          obtain ⟨pageType, code, member, settled, same⟩ := stocks.settle_last last
          have subset : {page} ⊆ pool.cached := Finset.singleton_subset_iff.mpr member
          simp only [code]
          by_cases done : toFree = 0
          · rw [if_pos done]
            exact ⟨_, _, _, {page}, rfl, subset, by simp, by simp [done], settled, same⟩
          rw [if_neg done]
          by_cases batch : batchFree - 1 = 0
          · rw [if_pos batch]
            refine ⟨_, _, _, {page}, rfl, subset, by simp, ?_, settled, same⟩
            rw [Finset.card_singleton, Nat.add_comm]
          rw [if_neg batch]
          split
          · refine ⟨_, _, _, {page}, rfl, subset, by simp, ?_, settled, same⟩
            rw [Finset.card_singleton, Nat.add_comm]
          · next more =>
              obtain ⟨after, left, batchLeft, moved, result, inside, _, total, stocked, sameAfter⟩ :=
                inductionHypothesis (batchFree - 1) settled more (Nat.pos_of_ne_zero done)
              have fresh : page ∉ moved := by
                intro again
                exact (Finset.mem_sdiff.mp (inside again)).2 (Finset.mem_singleton_self page)
              have card : ({page} ∪ moved).card = moved.card + 1 := by
                rw [Finset.singleton_union, Finset.card_insert_of_notMem fresh]
              refine ⟨after, left, batchLeft, {page} ∪ moved, result,
                Finset.union_subset subset (inside.trans Finset.sdiff_subset), ?_, ?_, ?_,
                same.trans sameAfter⟩
              · omega
              · omega
              · rw [← settle_settle]
                exact stocked

/-- The search ends at a list that is not empty. -/
theorem nextList_spec {lists : PcpType → List Nat} (type : PcpType) (batchFree : Nat)
    (some_ : ∃ other, lists other ≠ []) :
    ∃ found batch, nextList lists MIGRATE_PCPTYPES type batchFree = some (found, batch) ∧
      lists found ≠ [] := by
  have reached : ∀ other, other = type.next ∨ other = type.next.next ∨ other = type.next.next.next := by
    intro other
    cases other <;> cases type <;> simp [PcpType.next]
  obtain ⟨other, notEmpty⟩ := some_
  simp only [MIGRATE_PCPTYPES, nextList]
  by_cases first : lists type.next = []
  · rw [if_pos first]
    by_cases second : lists type.next.next = []
    · rw [if_pos second]
      have third : lists type.next.next.next ≠ [] := by
        rcases reached other with rfl | rfl | rfl
        · exact absurd first notEmpty
        · exact absurd second notEmpty
        · exact notEmpty
      rw [if_neg third]
      exact ⟨_, _, rfl, third⟩
    · rw [if_neg second]
      exact ⟨_, _, rfl, second⟩
  · rw [if_neg first]
    exact ⟨_, _, rfl, first⟩

/-- Without a page on the lists the search does not end. -/
theorem nextList_none {lists : PcpType → List Nat} (empty : ∀ type, lists type = []) (left : Nat)
    (type : PcpType)
    (batchFree : Nat) : nextList lists left type batchFree = none := by
  induction left generalizing type batchFree with
  | zero => rfl
  | succ left inductionHypothesis => rw [nextList, if_pos (empty _), inductionHypothesis]

/-- The loop frees as many pages as it is asked for, if the lists have as many. -/
theorem freePcppagesLoop_spec {rounds toFree : Nat} (type : PcpType) (batchFree : Nat)
    (stocks : Stocks zone pool)
    (enough : toFree ≤ pool.cached.card) (bound : toFree ≤ rounds) :
    ∃ after moved, freePcppagesLoop rounds type batchFree toFree zone = some after ∧ moved ⊆ pool.cached ∧
      moved.card = toFree ∧ Stocks after (pool.settle moved) ∧ SameCounters zone after := by
  induction rounds generalizing zone pool type batchFree toFree with
  | zero =>
      have none : toFree = 0 := by omega
      refine ⟨zone, ∅, by rw [freePcppagesLoop, if_pos none], Finset.empty_subset _, ?_, ?_, rfl, rfl,
        rfl⟩
      · rw [Finset.card_empty, none]
      · rw [settle_empty]
        exact stocks
  | succ rounds inductionHypothesis =>
      rw [freePcppagesLoop]
      by_cases done : toFree = 0
      · refine ⟨zone, ∅, by rw [if_pos done], Finset.empty_subset _, ?_, ?_, rfl, rfl, rfl⟩
        · rw [Finset.card_empty, done]
        · rw [settle_empty]
          exact stocks
      rw [if_neg done]
      have filled : ∃ other, zone.pcp.lists other ≠ [] := by
        obtain ⟨page, member⟩ := Finset.card_pos.mp (Nat.lt_of_lt_of_le (Nat.pos_of_ne_zero done) enough)
        obtain ⟨other, listed⟩ := stocks.mem_cached.mp member
        exact ⟨other, List.ne_nil_of_mem listed⟩
      obtain ⟨found, batch, search, notEmpty⟩ := nextList_spec type batchFree filled
      simp only [search]
      obtain ⟨middle, left, batchLeft, first, result, subset, some_, total, stocked, same⟩ :=
        freeFromList_spec (if batch = MIGRATE_PCPTYPES then toFree else batch) stocks notEmpty
          (Nat.pos_of_ne_zero done)
      simp only [result]
      have remaining : left ≤ (pool.settle first).cached.card := by
        show left ≤ (pool.cached \ first).card
        rw [Finset.card_sdiff_of_subset subset]
        omega
      obtain ⟨after, rest, resultRest, subsetRest, cardRest, stocksAfter, sameAfter⟩ :=
        inductionHypothesis found batchLeft stocked remaining (by omega)
      have disjoint : Disjoint first rest :=
        Finset.disjoint_left.mpr fun frame inFirst inRest =>
          (Finset.mem_sdiff.mp (subsetRest inRest)).2 inFirst
      refine ⟨after, first ∪ rest, resultRest, ?_, ?_, ?_, same.trans sameAfter⟩
      · exact Finset.union_subset subset (subsetRest.trans Finset.sdiff_subset)
      · rw [Finset.card_union_of_disjoint disjoint]
        omega
      · rw [← settle_settle]
        exact stocksAfter

/-- If the lists have fewer pages, the loop does not come to an end. -/
theorem freePcppagesLoop_none {toFree : Nat} (rounds : Nat) (type : PcpType) (batchFree : Nat)
    (stocks : Stocks zone pool) (few : pool.cached.card < toFree) :
    freePcppagesLoop rounds type batchFree toFree zone = none := by
  have positive : 0 < toFree := Nat.lt_of_le_of_lt (Nat.zero_le _) few
  induction rounds generalizing zone pool type batchFree toFree with
  | zero => rw [freePcppagesLoop, if_neg (Nat.pos_iff_ne_zero.mp positive)]
  | succ rounds inductionHypothesis =>
      rw [freePcppagesLoop, if_neg (Nat.pos_iff_ne_zero.mp positive)]
      by_cases filled : ∃ other, zone.pcp.lists other ≠ []
      · obtain ⟨found, batch, search, notEmpty⟩ := nextList_spec type batchFree filled
        obtain ⟨middle, left, batchLeft, moved, result, subset, _, total, stocked, _⟩ :=
          freeFromList_spec (if batch = MIGRATE_PCPTYPES then toFree else batch) stocks notEmpty positive
        have fewer : (pool.settle moved).cached.card < left := by
          have rest : (pool.settle moved).cached.card = pool.cached.card - moved.card :=
            Finset.card_sdiff_of_subset subset
          have bound := Finset.card_le_card subset
          omega
        simp only [search, result]
        exact inductionHypothesis found batchLeft stocked fewer (Nat.lt_of_le_of_lt (Nat.zero_le _) fewer)
      · have empty : ∀ other, zone.pcp.lists other = [] := fun other => by
          by_contra some_
          exact filled ⟨other, some_⟩
        rw [nextList_none empty]

theorem freePcppagesBulk_spec {count : Nat} (stocks : Stocks zone pool)
    (enough : count ≤ pool.cached.card) :
    ∃ after moved, freePcppagesBulk zone count = some after ∧ moved ⊆ pool.cached ∧ moved.card = count ∧
      Stocks after (pool.settle moved) ∧ after.nrFreePages = zone.nrFreePages + count ∧
      after.pcp.count = zone.pcp.count ∧ after.pcp.limits = zone.pcp.limits := by
  obtain ⟨after, moved, result, subset, card, stocked, same⟩ :=
    freePcppagesLoop_spec .unmovable 0 stocks enough (Nat.le_refl count)
  refine ⟨after.modNrFreePages count, moved, ?_, subset, card, stocked.modNrFreePages _, ?_, same.count,
    same.limits⟩
  · rw [freePcppagesBulk, result]
    rfl
  · show after.nrFreePages + (count : Int) = _
    rw [same.nrFreePages]

theorem card_settle {moved : Finset Nat} (stocks : Stocks zone pool) (subset : moved ⊆ pool.cached) :
    (pool.settle moved).merged.card = pool.merged.card + moved.card ∧
      (pool.settle moved).cached.card + moved.card = pool.cached.card := by
  have disjoint : Disjoint pool.merged moved :=
    Finset.disjoint_right.mpr fun frame member => stocks.notMerged (subset member)
  refine ⟨?_, Finset.card_sdiff_add_card_eq_card subset⟩
  show (pool.merged ∪ moved).card = _
  rw [Finset.card_union_of_disjoint disjoint]

/-- If there are too many single frames, a batch is merged. The call does not come to an end if the batch
    is larger. -/
theorem trimPcp_spec (represents : Represents zone pool) :
    (∃ after, ∃ moved ⊆ pool.cached, trimPcp zone = some after ∧ Represents after (pool.settle moved) ∧
        after.pcp.limits = zone.pcp.limits ∧
        ¬(zone.pcp.limits.high ≤ pool.cached.card ∧ pool.cached.card < zone.pcp.limits.batch)) ∨
      (trimPcp zone = none ∧ zone.pcp.limits.high ≤ pool.cached.card ∧
        pool.cached.card < zone.pcp.limits.batch) := by
  rw [trimPcp]
  split
  · next full =>
      rw [represents.count_eq, Int.ofNat_le] at full
      by_cases enough : pool.cached.card < zone.pcp.limits.batch
      · refine .inr ⟨?_, full, enough⟩
        rw [freePcppagesBulk, freePcppagesLoop_none _ _ _ represents.toStocks enough]
        rfl
      rw [Nat.not_lt] at enough
      refine .inl ?_
      obtain ⟨after, moved, result, subset, card, stocks, nrFreePages, count, limits⟩ :=
        freePcppagesBulk_spec represents.toStocks enough
      obtain ⟨cardMerged, cardCached⟩ := card_settle represents.toStocks subset
      refine ⟨after.modPcpCount (-after.pcp.limits.batch), moved, subset, ?_,
        ⟨stocks.modPcpCount _, ?_, ?_⟩,
        limits, fun few => Nat.lt_irrefl _ (Nat.lt_of_lt_of_le few.2 enough)⟩
      · rw [result]
        rfl
      · show after.nrFreePages = _
        rw [nrFreePages, represents.nrFreePages_eq]
        omega
      · show after.pcp.count + -(after.pcp.limits.batch : Int) = _
        rw [count, limits, represents.count_eq]
        omega
  · next room =>
      rw [represents.count_eq, Int.ofNat_le] at room
      refine .inl ⟨zone, ∅, Finset.empty_subset _, rfl, ?_, rfl, fun few => room few.1⟩
      rw [settle_empty]
      exact represents

/-- A page that is not free becomes a single frame. -/
theorem addPcpPage_spec (type : PcpType) (cold : Bool) (represents : Represents zone pool)
    (prepared : Prepared zone pool page) :
    Represents (zone.addPcpPage type page cold) ⟨pool.merged, insert page pool.cached⟩ := by
  have permuted : (if cold then zone.pcp.lists type ++ [page] else page :: zone.pcp.lists type).Perm
      ([page] ++ zone.pcp.lists type) := by
    split
    · exact List.perm_append_comm
    · exact .refl _
  have kept := represents.cache permuted (List.nodup_singleton page)
    (fun other member => List.mem_singleton.mp member ▸ prepared)
  have cached : pool.cached ∪ [page].toFinset = insert page pool.cached := by
    rw [List.toFinset_cons, List.toFinset_nil, insert_empty_eq, Finset.union_comm, Finset.singleton_union]
  rw [cached] at kept
  refine ⟨kept.modPcpCount 1, represents.nrFreePages_eq, ?_⟩
  show zone.pcp.count + 1 = ((insert page pool.cached).card : Int)
  rw [represents.count_eq, Finset.card_insert_of_notMem prepared.notCached]
  omega

theorem freeHotColdPage_spec (cold : Bool) (represents : Represents zone pool)
    (inside : zone.spans page = true)
    (owned : page ∉ pool.merged) (ownedSingle : page ∉ pool.cached) :
    (∃ after, ∃ moved ⊆ insert page pool.cached, freeHotColdPage zone page cold = some after ∧
        Represents after (FramePool.settle ⟨pool.merged, insert page pool.cached⟩ moved) ∧
        after.pcp.limits = zone.pcp.limits ∧ ¬zone.Spins 0) ∨
      (freeHotColdPage zone page cold = none ∧ zone.Spins 0) := by
  have notIsolate : zone.getPageblockMigratetype page ≠ .isolate := represents.sound.flags_ne _
  obtain ⟨pcpType, list⟩ : ∃ pcpType, pcpTypeOf (zone.getPageblockMigratetype page) = some pcpType := by
    cases type : zone.getPageblockMigratetype page with
    | isolate => exact absurd type notIsolate
    | unmovable => exact ⟨_, rfl⟩
    | reclaimable => exact ⟨_, rfl⟩
    | movable => exact ⟨_, rfl⟩
    | reserve => exact ⟨_, rfl⟩
  have typed : Represents (zone.setPagePrivate page (zone.getPageblockMigratetype page).code) pool :=
    ⟨represents.setPagePrivate owned ownedSingle _, represents.nrFreePages_eq, represents.count_eq⟩
  have kept := addPcpPage_spec pcpType cold typed
    ⟨owned, ownedSingle, inside, _, notIsolate, Function.update_self _ _ _⟩
  have spins : zone.Spins 0 ↔ zone.pcp.limits.high ≤ (insert page pool.cached).card ∧
      (insert page pool.cached).card < zone.pcp.limits.batch := by
    rw [Zone.Spins, represents.count_eq, Finset.card_insert_of_notMem ownedSingle]
    omega
  simp only [freeHotColdPage, list, spins]
  exact trimPcp_spec kept

/-- A block that is not free is merged, or kept if it is a single frame. -/
theorem freePages_spec {b : Block} (cold : Bool) (represents : Represents zone pool)
    (owned : zone.Owned b) :
    (∃ after poolAfter, freePages zone b.start b.order cold = some after ∧
        FramePool.Step pool (.put b.start b.order) poolAfter ∧ Represents after poolAfter ∧
        after.pcp.limits = zone.pcp.limits ∧ ¬zone.Spins b.order) ∨
      (freePages zone b.start b.order cold = none ∧ zone.Spins b.order) := by
  have notMerged : Disjoint b.frames pool.merged := Finset.disjoint_left.mpr fun frame member merged =>
    owned.notMerged (Block.mem_frames.mp member) ((represents.merged_iff frame).mp merged)
  have notCached : Disjoint b.frames pool.cached := Finset.disjoint_left.mpr fun frame member cached =>
    owned.notCached (Block.mem_frames.mp member) (represents.mem_cached.mp cached)
  rcases Nat.eq_zero_or_pos b.order with single | positive
  · have first : b.start ∈ b.frames := Block.mem_frames.mpr b.covers_start
    rw [freePages, if_pos single, single]
    rcases freeHotColdPage_spec cold represents (owned.inside b.covers_start)
        (Finset.disjoint_left.mp notMerged first) (Finset.disjoint_left.mp notCached first) with
      ⟨after, moved, subset, result, settled⟩ | hangs
    · exact .inl ⟨after, _, result, .putFrame (Finset.disjoint_left.mp notMerged first)
        (Finset.disjoint_left.mp notCached first) subset, settled⟩
    · exact .inr hangs
  · have notIsolate : zone.getPageblockMigratetype b.start ≠ .isolate := represents.sound.flags_ne _
    have regrouped := freeOnePage_spec (represents.custody owned.toAdmits notMerged) notIsolate
    have stocks := represents.put regrouped notMerged notCached
    refine .inl ⟨_, _, by rw [freePages, if_neg (Nat.pos_iff_ne_zero.mp positive)],
      .putBlock positive notMerged notCached, ⟨stocks.modNrFreePages _, ?_, ?_⟩,
      congrArg PerCpuPages.limits regrouped.same.pcp,
        fun spins => Nat.pos_iff_ne_zero.mp positive spins.1⟩
    · show (zone.freeOnePage b.start b.order _).nrFreePages + 2 ^ b.order =
        ((pool.merged ∪ b.frames).card : Int)
      rw [Finset.card_union_of_disjoint notMerged.symm, Block.card_frames, regrouped.same.nrFreePages,
        represents.nrFreePages_eq]
      exact_mod_cast rfl
    · show (zone.freeOnePage b.start b.order _).pcp.count = (pool.cached.card : Int)
      rw [regrouped.same.pcp]
      exact represents.count_eq

/-- All single frames are merged. -/
theorem drainPages_spec (represents : Represents zone pool) :
    ∃ after, drainPages zone = some after ∧ Represents after (pool.settle pool.cached) ∧
      after.pcp.limits = zone.pcp.limits := by
  rw [drainPages]
  split
  · next none =>
      rw [represents.count_eq] at none
      have empty : pool.cached = ∅ := Finset.card_eq_zero.mp (by omega)
      refine ⟨zone, rfl, ?_, rfl⟩
      rw [empty, settle_empty]
      exact represents
  · have count : zone.pcp.count.toNat = pool.cached.card := by
      rw [represents.count_eq]
      omega
    obtain ⟨after, moved, result, subset, card, stocks, nrFreePages, _, limits⟩ :=
      freePcppagesBulk_spec represents.toStocks (Nat.le_of_eq count)
    have all : moved = pool.cached := Finset.eq_of_subset_of_card_le subset (by omega)
    obtain ⟨cardMerged, cardCached⟩ := card_settle represents.toStocks subset
    rw [all] at stocks cardMerged cardCached
    refine ⟨{ after with pcp.count := 0 }, by rw [result]; rfl, ⟨stocks.setPcpCount 0, ?_, ?_⟩, limits⟩
    · show after.nrFreePages = _
      rw [nrFreePages, represents.nrFreePages_eq, cardMerged, count]
      omega
    · show (0 : Int) = _
      omega

end Put

end KernelHacking.PageAllocator
