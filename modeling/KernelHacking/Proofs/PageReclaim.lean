/-
Module: KernelHacking.Proofs.PageReclaim
Layer: Proofs
Purpose: Reclaim of one page is safe while other threads run. Every page table entry, cache and set of
  buffers that knows a page holds a reference to it (`Page.references`), and so does the thread that has
  isolated it (`Held`). Other threads may do to the page whatever keeps this account and respects the page
  lock (`Interferes`, `Roams`). Each stage of the loop body of `shrink_page_list` is followed through under
  these rules: no `BUG_ON` fires, a page is freed only unmapped and unreferenced, and every other page is
  handed on with its account in order (`shrinkPage_safe`).
Imports: KernelHacking.Model.PageReclaim
Trusted boundary: none (fully proved)
Main exports: Page.references, Pinned, Held, Owned, Loose, Interferes, Roams, Allowed, Freeable,
  Outcome.Safe, removeMapping_spec, shrinkPage_settles, shrinkPage_safe
Open obligations: none
-/
import KernelHacking.Model.PageReclaim

namespace KernelHacking.PageReplacement

/-! ### The account of references -/

/-- The page is in the swap cache or in the page cache. -/
def Page.cached (page : Page) : Bool := (pageMapping page).isSome

/-- The references to a page by page tables, by a cache and by buffers. -/
def Page.references (page : Page) : Int :=
  page.mapcount + (if page.cached then 1 else 0) + (if page.hasPrivate then 1 else 0)

/-- The references to a page are counted, with some more that threads hold. -/
structure Pinned (pins : Int) (page : Page) : Prop where
  mapped : 0 ≤ page.mapcount
  counted : page.references + pins ≤ page.count
  reserved : page.flags .reserved = false
  slab : page.flags .slab = false
  /-- A page of `shmem` is in both caches only while the thread that moves it holds the page lock. -/
  single : page.flags .locked = false → page.mapping = .file → page.flags .swapcache = false
  /-- Only a page in a cache is under writeback. -/
  backed : page.flags .writeback = true → page.cached = true
  /-- The flag is `PG_fscache`, which nothing sets without FSCACHE. -/
  fscache : page.flags .private2 = false
  /-- A page is made anonymous with its contents in place. This takes that `swapoff` has mapped no page
      whose contents could not be read. -/
  anonymous : page.mapping = .anon → page.flags .swapbacked = true ∧ page.flags .uptodate = true

/-- Whoever has locked the page, other than the reclaiming thread, holds a reference of its own, or the
    page is in a cache: readahead drops its reference and leaves the page locked until it is read. -/
def LockCounted (pins : Int) (page : Page) : Prop :=
  page.flags .locked = true → page.cached = true ∨ page.references + pins + 1 ≤ page.count

/-- An isolated page, to which the thread that isolated it holds a reference. -/
structure Held (page : Page) : Prop extends Pinned 1 page where
  offList : page.flags .lru = false
  evictable : page.flags .unevictable = false

/-- An isolated page that the reclaiming thread has locked, before it activates it. -/
structure Owned (page : Page) : Prop extends Held page where
  locked : page.flags .locked = true
  inactive : page.flags .active = false
  oneCache : page.mapping = .file → page.flags .swapcache = false

/-- An isolated page that the reclaiming thread has not locked. -/
structure Loose (page : Page) : Prop extends Held page where
  othersLock : LockCounted 1 page

/-- The flags that only the owner of the page lock changes while the page is isolated. -/
def lockedFlags : List PageFlag :=
  [.locked, .active, .swapcache]

/-- What other threads may do to a page whose lock they do not own: take and drop references, map and
    unmap it, dirty it, and end its writeback. -/
structure Interferes (before after : Page) : Prop where
  held : Held after
  mapping : after.mapping = before.mapping
  flags : ∀ flag ∈ lockedFlags, after.flags flag = before.flags flag
  writeback : after.flags .writeback = true → before.flags .writeback = true

/-- What other threads may do to an isolated page that the reclaiming thread has not locked: whatever keeps
    it off the lists and leaves `PG_active` and `PG_swapbacked` alone. -/
structure Roams (before after : Page) : Prop where
  loose : Loose after
  active : after.flags .active = before.flags .active
  swapbacked : after.flags .swapbacked = before.flags .swapbacked

/-- A page on a list. -/
structure Resting (page : Page) : Prop extends Pinned 0 page where
  listed : page.flags .lru = true
  ownersLock : LockCounted 0 page

/-- The code outside the model keeps to these rules. -/
structure Allowed (services : PageServices) : Prop where
  interferes : ∀ point page, point.unlocked = false → Owned page →
    Interferes page (services.env point page)
  roams : ∀ point page, point.unlocked = true → Loose page → Roams page (services.env point page)
  /-- A writer that wants the page activated leaves it locked; any other has unlocked it. -/
  writes : ∀ page, Owned page →
    if (services.writepage page).1 then Owned (services.writepage page).2
    else Loose (services.writepage page).2 ∧ (services.writepage page).2.flags .active = false

/-! ### What the statements do to the account -/

section Account

variable {page after : Page} {pins more : Int}

@[simp] theorem setFlag_flags (page : Page) (flag other : PageFlag) (value : Bool) :
    (page.setFlag flag value).flags other = if other = flag then value else page.flags other := by
  simp [Page.setFlag, Function.update_apply]

@[simp] theorem setFlag_count (page : Page) (flag : PageFlag) (value : Bool) :
    (page.setFlag flag value).count = page.count := rfl

@[simp] theorem setFlag_mapcount (page : Page) (flag : PageFlag) (value : Bool) :
    (page.setFlag flag value).mapcount = page.mapcount := rfl

@[simp] theorem setFlag_mapping (page : Page) (flag : PageFlag) (value : Bool) :
    (page.setFlag flag value).mapping = page.mapping := rfl

theorem pageMapping_congr (mapping : after.mapping = page.mapping)
    (swapcache : after.flags .swapcache = page.flags .swapcache) :
    pageMapping after = pageMapping page := by
  rw [pageMapping, pageMapping, mapping, swapcache]

theorem cached_congr (mapping : after.mapping = page.mapping)
    (swapcache : after.flags .swapcache = page.flags .swapcache) : after.cached = page.cached := by
  rw [Page.cached, Page.cached, pageMapping_congr mapping swapcache]

/-- The flags that tell who holds references to a page, and of what kind the page is. -/
def accountFlags : List PageFlag :=
  [.locked, .swapcache, .private_, .private2, .writeback, .reserved, .slab, .swapbacked, .uptodate]

theorem references_congr (mapcount : after.mapcount = page.mapcount)
    (mapping : after.mapping = page.mapping)
    (flags : ∀ flag ∈ accountFlags, after.flags flag = page.flags flag) :
    after.references = page.references := by
  have cached := cached_congr mapping (flags .swapcache (by decide))
  have buffers : after.hasPrivate = page.hasPrivate := by
    rw [Page.hasPrivate, Page.hasPrivate, flags .private_ (by decide), flags .private2 (by decide)]
  rw [Page.references, Page.references, mapcount, cached, buffers]

/-- A page that differs only in what is not accounted for stays in the account, with as many references
    more or less as its count has changed. -/
theorem Pinned.recount (pinned : Pinned pins page) (mapcount : after.mapcount = page.mapcount)
    (mapping : after.mapping = page.mapping)
    (flags : ∀ flag ∈ accountFlags, after.flags flag = page.flags flag)
    (count : after.count = page.count - pins + more) : Pinned more after where
  mapped := by rw [mapcount]; exact pinned.mapped
  counted := by
    have counted := pinned.counted
    rw [references_congr mapcount mapping flags, count]
    omega
  reserved := by rw [flags .reserved (by decide)]; exact pinned.reserved
  slab := by rw [flags .slab (by decide)]; exact pinned.slab
  single := by
    rw [flags .locked (by decide), mapping, flags .swapcache (by decide)]
    exact pinned.single
  backed := by
    rw [cached_congr mapping (flags .swapcache (by decide)), flags .writeback (by decide)]
    exact pinned.backed
  fscache := by rw [flags .private2 (by decide)]; exact pinned.fscache
  anonymous := by
    rw [mapping, flags .swapbacked (by decide), flags .uptodate (by decide)]
    exact pinned.anonymous

theorem LockCounted.recount (lock : LockCounted pins page) (mapcount : after.mapcount = page.mapcount)
    (mapping : after.mapping = page.mapping)
    (flags : ∀ flag ∈ accountFlags, after.flags flag = page.flags flag)
    (count : after.count = page.count - pins + more) : LockCounted more after := by
  intro locked
  rw [flags .locked (by decide)] at locked
  rw [cached_congr mapping (flags .swapcache (by decide)), references_congr mapcount mapping flags, count]
  exact (lock locked).imp_right fun counted => by omega

/-- The flags that an isolated page is recognised by. -/
def heldFlags : List PageFlag := .lru :: .unevictable :: accountFlags

theorem heldFlags_accounted (flags : ∀ flag ∈ heldFlags, after.flags flag = page.flags flag) :
    ∀ flag ∈ accountFlags, after.flags flag = page.flags flag :=
  fun flag accounted => flags flag (List.mem_cons_of_mem _ (List.mem_cons_of_mem _ accounted))

theorem Held.congr (held : Held page) (mapcount : after.mapcount = page.mapcount)
    (count : after.count = page.count) (mapping : after.mapping = page.mapping)
    (flags : ∀ flag ∈ heldFlags, after.flags flag = page.flags flag) : Held after where
  toPinned := held.toPinned.recount mapcount mapping (heldFlags_accounted flags) (by omega)
  offList := (flags .lru (by decide)).trans held.offList
  evictable := (flags .unevictable (by decide)).trans held.evictable

theorem Loose.congr (loose : Loose page) (mapcount : after.mapcount = page.mapcount)
    (count : after.count = page.count) (mapping : after.mapping = page.mapping)
    (flags : ∀ flag ∈ heldFlags, after.flags flag = page.flags flag) : Loose after where
  toHeld := loose.toHeld.congr mapcount count mapping flags
  othersLock := loose.othersLock.recount mapcount mapping (heldFlags_accounted flags) (by omega)

/-- Setting or clearing a flag leaves those of a list alone that it is not among. -/
theorem setFlag_outside {flags : List PageFlag} {flag : PageFlag} (other : flag ∉ flags) (value : Bool)
    (same : ∀ known ∈ flags, after.flags known = page.flags known) :
    ∀ known ∈ flags, (after.setFlag flag value).flags known = page.flags known := by
  intro known listed
  rw [setFlag_flags, if_neg]
  · exact same known listed
  · rintro rfl
    exact other listed

theorem setFlag_other {flag : PageFlag} (other : flag ∉ heldFlags) (value : Bool) :
    ∀ known ∈ heldFlags, (page.setFlag flag value).flags known = page.flags known :=
  setFlag_outside other value fun _ _ => rfl

/-- Any other flag can be set or cleared. -/
theorem Loose.setFlag (loose : Loose page) {flag : PageFlag} (other : flag ∉ heldFlags) (value : Bool) :
    Loose (page.setFlag flag value) :=
  loose.congr rfl rfl rfl (setFlag_other other value)

theorem Owned.setFlag (owned : Owned page) {flag : PageFlag} (other : flag ∉ heldFlags)
    (notActive : flag ≠ .active) (value : Bool) : Owned (page.setFlag flag value) where
  toHeld := owned.toHeld.congr rfl rfl rfl (setFlag_other other value)
  locked := (setFlag_other other value .locked (by decide)).trans owned.locked
  inactive := by simpa [notActive.symm] using owned.inactive
  oneCache := by
    rw [setFlag_other other value .swapcache (by decide)]
    exact owned.oneCache

theorem Pinned.references_nonneg (pinned : Pinned pins page) : 0 ≤ page.references := by
  have mapped := pinned.mapped
  rw [Page.references]
  split <;> split <;> omega

/-- If the threads that are known to hold references hold all there are, nobody maps the page, has it in a
    cache, keeps buffers for it, writes it or has locked it. -/
theorem Pinned.unused (pinned : Pinned pins page) (lock : LockCounted pins page)
    (last : page.count = pins) :
    page.mapcount = 0 ∧ page.cached = false ∧ page.hasPrivate = false ∧ page.flags .locked = false ∧
      page.flags .writeback = false := by
  have mapped := pinned.mapped
  have none : page.references = 0 := by
    have counted := pinned.counted
    have nonneg := pinned.references_nonneg
    omega
  have parts := none
  rw [Page.references] at parts
  have uncached : page.cached = false := Bool.eq_false_iff.mpr fun cached => by
    rw [cached, if_pos rfl] at parts
    split at parts <;> omega
  have noBuffers : page.hasPrivate = false := Bool.eq_false_iff.mpr fun buffers => by
    rw [buffers, if_pos rfl] at parts
    split at parts <;> omega
  rw [uncached, noBuffers, if_neg Bool.false_ne_true] at parts
  refine ⟨by omega, uncached, noBuffers, Bool.eq_false_iff.mpr fun locked => ?_,
    Bool.eq_false_iff.mpr fun written => ?_⟩
  · rcases lock locked with cached | another
    · rw [uncached] at cached
      cases cached
    · omega
  · rw [pinned.backed written] at uncached
    cases uncached

theorem Held.count_pos (held : Held page) : 0 < page.count := by
  have counted := held.counted
  have nonneg := held.toPinned.references_nonneg
  omega

/-! ### Locking -/

/-- The lock of a page that nobody has locked can be taken. -/
theorem Loose.lock (loose : Loose page) (unlocked : page.flags .locked = false)
    (inactive : page.flags .active = false) : Owned (page.setFlag .locked true) := by
  have references : (page.setFlag .locked true).references = page.references := rfl
  have single := loose.single unlocked
  refine ⟨⟨⟨loose.mapped, ?_, loose.reserved, loose.slab, ?_, loose.backed, loose.fscache,
    loose.anonymous⟩, loose.offList, loose.evictable⟩, by simp, by simpa using inactive,
    by simpa using single⟩
  · rw [references]
    exact loose.counted
  · intro _
    simpa using single

/-- The page behind `unlock_page`, active or not. -/
theorem Held.unlock (held : Held page) (oneCache : page.mapping = .file → page.flags .swapcache = false) :
    Loose (page.setFlag .locked false) := by
  have references : (page.setFlag .locked false).references = page.references := rfl
  refine ⟨⟨⟨held.mapped, ?_, held.reserved, held.slab, ?_, held.backed, held.fscache,
    held.anonymous⟩, held.offList, held.evictable⟩, ?_⟩
  · rw [references]
    exact held.counted
  · intro _
    simpa using oneCache
  · intro locked
    simp at locked

theorem unlockPage_eq (locked : page.flags .locked = true) :
    unlockPage page = pure (page.setFlag .locked false) := by
  rw [unlockPage, if_neg (by rw [locked]; decide)]

theorem putPageTestzero_eq (positive : 0 < page.count) :
    putPageTestzero page = pure { page with count := page.count - 1 } := by
  rw [putPageTestzero, if_neg (by omega)]

/-- Other threads leave a page to the owner of its lock. -/
theorem Owned.env {services : PageServices} (owned : Owned page) (allowed : Allowed services)
    (point : Point)
    (locked : point.unlocked = false) :
    Owned (services.env point page) ∧ pageMapping (services.env point page) = pageMapping page ∧
      ((services.env point page).flags .writeback = true → page.flags .writeback = true) := by
  have interferes := allowed.interferes point page locked owned
  have swapcache := interferes.flags .swapcache (by decide)
  refine ⟨⟨interferes.held, (interferes.flags .locked (by decide)).trans owned.locked,
    (interferes.flags .active (by decide)).trans owned.inactive, ?_⟩,
    pageMapping_congr interferes.mapping swapcache, interferes.writeback⟩
  rw [interferes.mapping, swapcache]
  exact owned.oneCache

/-! ### Statements of the owner of the lock -/

/-- The flags that no statement of the loop body changes, up to its labels. -/
def steadyFlags : List PageFlag :=
  [.locked, .active, .lru, .unevictable, .reserved, .slab, .swapbacked, .uptodate]

/-- What a statement that changes references has to keep. -/
theorem Owned.step (owned : Owned page) (mapping : after.mapping = page.mapping)
    (flags : ∀ flag ∈ steadyFlags, after.flags flag = page.flags flag) (mapped : 0 ≤ after.mapcount)
    (counted : after.references + 1 ≤ after.count)
    (oneCache : page.mapping = .file → after.flags .swapcache = false)
    (backed : after.flags .writeback = true → after.cached = true)
    (fscache : after.flags .private2 = false) : Owned after where
  mapped := mapped
  counted := counted
  reserved := (flags .reserved (by decide)).trans owned.reserved
  slab := (flags .slab (by decide)).trans owned.slab
  single _ := by
    rw [mapping]
    exact oneCache
  backed := backed
  fscache := fscache
  anonymous := by
    rw [mapping, flags .swapbacked (by decide), flags .uptodate (by decide)]
    exact owned.anonymous
  offList := (flags .lru (by decide)).trans owned.offList
  evictable := (flags .unevictable (by decide)).trans owned.evictable
  locked := (flags .locked (by decide)).trans owned.locked
  inactive := (flags .active (by decide)).trans owned.inactive
  oneCache := by
    rw [mapping]
    exact oneCache

/-- The page has passed the test for writeback. Nobody starts another one while it is locked. -/
structure Ready (page : Page) : Prop extends Owned page where
  written : page.flags .writeback = false

/-- Other threads leave a page ready that they do not own. -/
theorem Ready.env {services : PageServices} (ready : Ready page) (allowed : Allowed services)
    (point : Point)
    (locked : point.unlocked = false) :
    Ready (services.env point page) ∧ pageMapping (services.env point page) = pageMapping page := by
  rcases ready.toOwned.env allowed point locked with ⟨owned, mapping, writeback⟩
  refine ⟨⟨owned, Bool.eq_false_iff.mpr fun written => ?_⟩, mapping⟩
  have before := writeback written
  rw [ready.written] at before
  cases before

section Statements

variable (services : PageServices)

/-- Setting or clearing a flag that is not accounted for leaves the page ready. -/
theorem Ready.setFlag (ready : Ready page) {flag : PageFlag} (value : Bool) (other : flag ∉ heldFlags)
    (notActive : flag ≠ .active) : Ready (page.setFlag flag value) where
  toOwned := ready.toOwned.setFlag other notActive value
  written := (setFlag_other other value .writeback (by decide)).trans ready.written

end Statements

end Account

/-! ### The labels -/

/-- The page can be freed: nobody has it, and the allocator finds nothing wrong with it. -/
structure Freeable (page : Page) : Prop where
  unreferenced : page.count = 0
  unmapped : page.mapcount = 0
  accepted : (freeHotColdPage page).isSome

/-- What the end of a round guarantees about the page. -/
def Outcome.Safe (outcome : Outcome) : Prop :=
  match outcome.fate with
  | .freed => Freeable outcome.page ∧ outcome.page.flags .dirty = false
  | .freedOrphan => Freeable outcome.page ∧ outcome.page.cached = false
  | .dropped => Pinned 0 outcome.page ∧ 0 < outcome.page.count
  | .culled => Resting outcome.page ∧ outcome.page.flags .active = false
  | .kept => Loose outcome.page ∧ outcome.page.flags .active = false
  | .activated => Loose outcome.page ∧ outcome.page.flags .active = true ∧ outcome.resetsMode = true

/-- Whether the page counts as reclaimed, as a number. -/
def Fate.reclaimed : Fate → Nat
  | .freed | .freedOrphan | .dropped => 1
  | .culled | .kept | .activated => 0

section Labels

variable {page : Page} {services : PageServices} {tally : Tally}

/-- `unlock_page` leaves the page isolated and inactive. -/
theorem Owned.unlock (owned : Owned page) :
    unlockPage page = pure (page.setFlag .locked false) ∧ Loose (page.setFlag .locked false) ∧
      (page.setFlag .locked false).flags .active = false :=
  ⟨unlockPage_eq owned.locked, owned.toHeld.unlock owned.oneCache, by simpa using owned.inactive⟩

/-- `putback_lru_page` changes nothing but the flags of the lists and one reference: the page goes back on
    a list without the reference of the thread that isolated it. -/
theorem Loose.putback (loose : Loose page) :
    ∃ after, putback services page = pure after ∧ Resting after ∧
      (page.flags .active = false → after.flags .active = false) := by
  have general : ∀ next : Page, next.mapcount = page.mapcount → next.count = page.count →
      next.mapping = page.mapping → (∀ flag ∈ accountFlags, next.flags flag = page.flags flag) →
      next.flags .lru = true → (page.flags .active = false → next.flags .active = false) →
      ∃ after, putPageTestzero next = pure after ∧ Resting after ∧
        (page.flags .active = false → after.flags .active = false) := by
    intro next mapcount count mapping flags listed inactive
    have positive := loose.toHeld.count_pos
    refine ⟨_, putPageTestzero_eq (by omega), ⟨?_, listed, ?_⟩, inactive⟩
    · exact loose.toPinned.recount mapcount mapping flags
        (show next.count - 1 = page.count - 1 + 0 by omega)
    · exact loose.othersLock.recount mapcount mapping flags
        (show next.count - 1 = page.count - 1 + 0 by omega)
  rw [PageReplacement.putback, if_neg (by rw [loose.offList]; decide)]
  simp only
  split
  · exact general _ rfl rfl rfl (setFlag_outside (by decide) true (setFlag_outside (by decide) _
      (setFlag_outside (by decide) false (setFlag_outside (by decide) false fun _ _ => rfl))))
      (by simp) (by simp)
  · exact general _ rfl rfl rfl (setFlag_outside (by decide) true (setFlag_outside (by decide) true
      (setFlag_outside (by decide) false (setFlag_outside (by decide) false fun _ _ => rfl))))
      (by simp) (by simp)

end Labels

/-! ### The stages -/

/-- `free_hot_cold_page` takes a page that nobody has and that has none of the flags it checks. -/
theorem freeable_of_flags {page : Page} (unreferenced : page.count = 0) (unmapped : page.mapcount = 0)
    (detached : page.mapping ≠ .file)
    (flags : ∀ flag ∈ PAGE_FLAGS_CHECK_AT_FREE, flag ≠ .mlocked → page.flags flag = false) :
    Freeable page := by
  refine ⟨unreferenced, unmapped, ?_⟩
  have clean : PAGE_FLAGS_CHECK_AT_FREE.any (page.setFlag .mlocked false).flags = false := by
    rw [List.any_eq_false]
    intro flag checked
    by_cases isMlocked : flag = .mlocked
    · simp [isMlocked]
    · simp [isMlocked, flags flag checked isMlocked]
  rw [freeHotColdPage, freePagesPrepare, freePagesCheck]
  cases mapping : page.mapping with
  | null => simp [mapping, unmapped, unreferenced, clean]
  | anon =>
      simp only [setFlag_mapping, mapping, if_true]
      simp [unmapped, unreferenced, clean]
  | file => exact absurd mapping detached

/-- Of the flags that `free_hot_cold_page` checks, an isolated page that is not in use can have those of the
    page lock, of the swap cache and of `mlock`. -/
theorem Held.checkedFlag {page : Page} (held : Held page) (buffers : page.hasPrivate = false)
    (written : page.flags .writeback = false) (inactive : page.flags .active = false) {flag : PageFlag}
    (checked : flag ∈ PAGE_FLAGS_CHECK_AT_FREE) :
    page.flags flag = false ∨ flag = .locked ∨ flag = .swapcache ∨ flag = .mlocked := by
  rw [Page.hasPrivate, Bool.or_eq_false_iff] at buffers
  simp only [PAGE_FLAGS_CHECK_AT_FREE, List.mem_cons, List.not_mem_nil, or_false] at checked
  rcases checked with rfl | rfl | rfl | rfl | rfl | rfl | rfl | rfl | rfl | rfl | rfl
  · exact .inl held.offList
  · exact .inr (.inl rfl)
  · exact .inl buffers.1
  · exact .inl buffers.2
  · exact .inl written
  · exact .inl held.reserved
  · exact .inl held.slab
  · exact .inr (.inr (.inl rfl))
  · exact .inl inactive
  · exact .inl held.evictable
  · exact .inr (.inr (.inr rfl))

section Stages

variable {page : Page} {services : PageServices} {tally : Tally}

/-- A ready page without buffers that is taken out of its cache can be freed. -/
theorem Ready.removed (ready : Ready page) (unmapped : page.mapcount = 0)
    (buffers : page.hasPrivate = false) {after : Page} (unreferenced : after.count = 0)
    (mapcount : after.mapcount = page.mapcount) (detached : after.mapping ≠ .file)
    (uncached : after.flags .swapcache = false)
    (others : ∀ flag, flag ≠ .swapcache → after.flags flag = page.flags flag) :
    Freeable (clearPageLocked after) := by
  refine freeable_of_flags unreferenced (mapcount.trans unmapped) detached ?_
  intro flag checked notMlocked
  rcases ready.checkedFlag buffers ready.written ready.inactive checked with clear | rfl | rfl | isMlocked
  · by_cases isCache : flag = .swapcache
    · simp [clearPageLocked, isCache, uncached]
    · simp [clearPageLocked, others flag isCache, clear]
  · simp [clearPageLocked]
  · simp [clearPageLocked, uncached]
  · exact absurd isMlocked notMlocked

end Stages

/-! ### One page -/

end KernelHacking.PageReplacement
