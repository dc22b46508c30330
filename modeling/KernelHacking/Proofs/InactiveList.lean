/-
Module: KernelHacking.Proofs.InactiveList
Layer: Proofs
Purpose: What `shrink_inactive_list` does to the lists of a zone. Isolation, lumpy or not, moves pages from
  the lists to a list of its own and leaves the rest in place (`collectPages_spec`); the counters follow
  (`updateIsolatedCounts_sound`); each pass of `shrink_page_list` shares the isolated pages out
  (`shrinkPageList_spec`), and the second one, which must not meet an active page, only runs if the first
  has activated none (`shrinkPasses_spec`); what is left goes back to the lists. Together: no page is lost,
  listed twice or freed in use, and the counters are right again (`shrinkInactiveList_spec`).
Imports: KernelHacking.Model.InactiveList, KernelHacking.Proofs.ActiveList,
  KernelHacking.Proofs.PageReclaim
Trusted boundary: none (fully proved)
Main exports: allPages, Zone.Sound, Collected, collectPages_spec, SharedOut, shrinkPageList_spec,
  shrinkPasses_spec, PutBack, Reclaimed.Conserves, shrinkInactiveList_spec
Open obligations: none
-/
import KernelHacking.Model.InactiveList
import KernelHacking.Proofs.ActiveList
import KernelHacking.Proofs.PageReclaim

namespace KernelHacking.PageReplacement

/-! ### The pages of all lists -/

/-- The pages of all lists. -/
def allPages (lists : LruList → List LruPage) : List LruPage := LruList.all.flatMap lists

theorem pfns_eq (zone : Zone) : zone.pfns = (allPages zone.lists).map LruPage.pfn := by
  rw [Zone.pfns, allPages, List.map_flatMap]

theorem mem_allPages {lists : LruList → List LruPage} {held : LruPage} :
    held ∈ allPages lists ↔ ∃ lru, held ∈ lists lru := by
  rw [allPages, List.mem_flatMap]
  constructor
  · rintro ⟨lru, _, listed⟩
    exact ⟨lru, listed⟩
  · rintro ⟨lru, listed⟩
    exact ⟨lru, by cases lru <;> decide, listed⟩

/-- The pages of one list stand together among all pages. -/
theorem allPages_split (lists : LruList → List LruPage) (lru : LruList) :
    ∃ before after, allPages lists = before ++ (lists lru ++ after) ∧
      ∀ new, allPages (Function.update lists lru new) = before ++ (new ++ after) := by
  cases lru
  · exact ⟨[], lists .activeAnon ++ (lists .inactiveFile ++ (lists .activeFile ++ lists .unevictable)),
      by simp [allPages, LruList.all], by simp [allPages, LruList.all]⟩
  · exact ⟨lists .inactiveAnon, lists .inactiveFile ++ (lists .activeFile ++ lists .unevictable),
      by simp [allPages, LruList.all], by simp [allPages, LruList.all]⟩
  · exact ⟨lists .inactiveAnon ++ lists .activeAnon, lists .activeFile ++ lists .unevictable,
      by simp [allPages, LruList.all], by simp [allPages, LruList.all]⟩
  · exact ⟨lists .inactiveAnon ++ (lists .activeAnon ++ lists .inactiveFile), lists .unevictable,
      by simp [allPages, LruList.all], by simp [allPages, LruList.all]⟩
  · exact ⟨lists .inactiveAnon ++ (lists .activeAnon ++ (lists .inactiveFile ++ lists .activeFile)), [],
      by simp [allPages, LruList.all], by simp [allPages, LruList.all]⟩

/-- Reordering a list reorders all pages. -/
theorem allPages_reorder {lists : LruList → List LruPage} {lru : LruList} {new : List LruPage}
    (perm : new.Perm (lists lru)) : (allPages (Function.update lists lru new)).Perm (allPages lists) := by
  rcases allPages_split lists lru with ⟨before, after, isAll, updated⟩
  rw [isAll, updated]
  exact (perm.append_right after).append_left before

/-- Taking a page from its list takes it from all pages. -/
theorem allPages_take {lists : LruList → List LruPage} {lru : LruList} {held : LruPage}
    {rest : List LruPage} (perm : (held :: rest).Perm (lists lru)) :
    (held :: allPages (Function.update lists lru rest)).Perm (allPages lists) := by
  rcases allPages_split lists lru with ⟨before, after, isAll, updated⟩
  rw [isAll, updated]
  exact List.perm_middle.symm.trans ((perm.append_right after).append_left before)

/-- The zone is consistent, and the references to the pages on its lists are accounted for. -/
structure Zone.Sound (zone : Zone) : Prop extends zone.Consistent where
  resting : ∀ lru, ∀ held ∈ zone.lists lru, Resting held.page

/-! ### Isolation -/

/-- `isolate_lru_pages` has taken some pages from the lists of the zone. -/
structure Collected (start : LruList → List LruPage) (state : Collecting) (taken : List LruPage) :
    Prop where
  within : ∀ lru, ∀ held ∈ state.lists lru, held ∈ start lru
  perm : (taken ++ allPages state.lists).Perm (allPages start)
  dst : state.dst = taken.map LruPage.grab
  evictable : ∀ held ∈ taken, held.page.flags .unevictable = false
  nrTaken : state.nrTaken = basePages taken

section Collect

variable {start : LruList → List LruPage} {state : Collecting} {taken : List LruPage}

theorem Collected.nothing (lists : LruList → List LruPage) : Collected lists ⟨lists, [], 0, 0⟩ [] where
  within _ _ listed := listed
  perm := .refl _
  dst := rfl
  evictable := by simp
  nrTaken := rfl

/-- One more page is taken from its list. -/
theorem Collected.take (collected : Collected start state taken) {lru : LruList} {held : LruPage}
    {rest : List LruPage} (perm : (held :: rest).Perm (state.lists lru))
    (evictable : held.page.flags .unevictable = false) (scan : Nat) :
    Collected start
      ⟨Function.update state.lists lru rest, held.grab :: state.dst, state.nrTaken + held.nrPages, scan⟩
      (held :: taken) where
  within := by
    intro other page listed
    by_cases same : other = lru
    · subst same
      have inRest : page ∈ rest := by simpa using listed
      exact collected.within other page (perm.subset (List.mem_cons_of_mem held inRest))
    · have unchanged : page ∈ state.lists other := by simpa [same] using listed
      exact collected.within other page unchanged
  perm := by
    have moved : (held :: (taken ++ allPages (Function.update state.lists lru rest))).Perm
        (taken ++ allPages state.lists) :=
      List.perm_middle.symm.trans ((allPages_take perm).append_left taken)
    exact moved.trans collected.perm
  dst := by rw [List.map_cons, collected.dst]
  evictable := by
    intro page listed
    rcases List.mem_cons.mp listed with rfl | before
    · exact evictable
    · exact collected.evictable page before
  nrTaken := by
    show state.nrTaken + held.nrPages = held.nrPages + basePages taken
    rw [collected.nrTaken, Nat.add_comm]

/-- A list is reordered. -/
theorem Collected.reorder (collected : Collected start state taken) {lru : LruList}
    {new : List LruPage} (perm : new.Perm (state.lists lru)) (scan : Nat) :
    Collected start { state with lists := Function.update state.lists lru new, scan := scan } taken where
  within := by
    intro other page listed
    by_cases same : other = lru
    · subst same
      have inNew : page ∈ new := by simpa using listed
      exact collected.within other page (perm.subset inNew)
    · have unchanged : page ∈ state.lists other := by simpa [same] using listed
      exact collected.within other page unchanged
  perm := ((allPages_reorder perm).append_left taken).trans collected.perm
  dst := collected.dst
  evictable := collected.evictable
  nrTaken := collected.nrTaken

theorem Collected.scan (collected : Collected start state taken) (scan : Nat) :
    Collected start { state with scan := scan } taken :=
  ⟨collected.within, collected.perm, collected.dst, collected.evictable, collected.nrTaken⟩

/-- The pages of a list are distinct as long as no page is lost or made up. -/
theorem Collected.distinct (collected : Collected start state taken)
    (distinct : ((allPages start).map LruPage.pfn).Nodup) (lru : LruList) :
    ((state.lists lru).map LruPage.pfn).Nodup := by
  have all : ((taken ++ allPages state.lists).map LruPage.pfn).Nodup :=
    (collected.perm.map LruPage.pfn).nodup_iff.mpr distinct
  rcases allPages_split state.lists lru with ⟨before, after, isAll, _⟩
  rw [isAll] at all
  exact all.sublist (((List.sublist_append_left _ after).trans
    ((List.sublist_append_right before _).trans (List.sublist_append_right taken _))).map LruPage.pfn)

end Collect

/-! ### The isolated pages and the counters -/

section Counters

variable {zone : Zone} {state : Collecting} {taken : List LruPage}

theorem Collected.order (sound : zone.Sound) (collected : Collected zone.lists state taken)
    {held : LruPage} (isTaken : held ∈ taken) : held.nrPages = 1 ∧ Resting held.page := by
  have listed : held ∈ allPages zone.lists := collected.perm.subset (List.mem_append_left _ isTaken)
  rcases mem_allPages.mp listed with ⟨lru, onList⟩
  exact ⟨(sound.listed lru held onList).1, sound.resting lru held onList⟩

/-- An isolated page is held by the thread that isolated it. -/
theorem Resting.grab {held : LruPage} (resting : Resting held.page)
    (evictable : held.page.flags .unevictable = false) : Loose held.grab.page := by
  have flags : ∀ flag ∈ accountFlags, held.grab.page.flags flag = held.page.flags flag :=
    setFlag_outside (by decide) false fun _ _ => rfl
  have count : held.grab.page.count = held.page.count - 0 + 1 := by
    show held.page.count + 1 = held.page.count - 0 + 1
    omega
  exact ⟨⟨resting.toPinned.recount rfl rfl flags count, by simp [LruPage.grab],
    by simpa [LruPage.grab] using evictable⟩, resting.ownersLock.recount rfl rfl flags count⟩

end Counters

/-! ### The passes of `shrink_page_list` -/

/-- The pages that a pass has dealt with, by what became of them. -/
def Shrinking.pages (state : Shrinking) : List LruPage :=
  state.retPages ++ (state.freePages ++ (state.culled ++ state.dropped))

/-- A pass has shared out the pages of a list. -/
structure SharedOut (pages : List LruPage) (state : Shrinking) : Prop where
  perm : (state.pages.map LruPage.pfn).Perm (pages.map LruPage.pfn)
  order : ∀ held ∈ state.pages, held.nrPages = 1
  returned : ∀ held ∈ state.retPages, Loose held.page
  /-- A pass that has activated a page has reset the reclaim mode. -/
  inactive : state.mode = resetReclaimMode ∨ ∀ held ∈ state.retPages, held.page.flags .active = false
  freed : ∀ held ∈ state.freePages, Freeable held.page
  culled : ∀ held ∈ state.culled, Resting held.page
  dropped : ∀ held ∈ state.dropped, Pinned 0 held.page ∧ 0 < held.page.count
  reclaimed : state.tally.nrReclaimed = state.freePages.length + state.dropped.length

section Passes

variable (sc : ReclaimControl) {services : Nat → PageServices}

/-- One more round shares out one more page. -/
theorem SharedOut.round {rest : List LruPage} {state : Shrinking} (shared : SharedOut rest state)
    {held : LruPage} (order : held.nrPages = 1) {outcome : Outcome} (safe : outcome.Safe)
    (counts : outcome.tally.nrReclaimed = 0 + outcome.fate.reclaimed) :
    SharedOut (held :: rest) (state.round held outcome) := by
  rcases outcome with ⟨fate, page, resetsMode, tally⟩
  have reclaimed := shared.reclaimed
  -- the page goes to the head of one of the four lists
  have pages : (((state.round held ⟨fate, page, resetsMode, tally⟩).pages).Perm
      ({ held with page := page } :: state.pages)) := by
    cases fate
    case kept | activated => exact .refl _
    case freed | freedOrphan => exact List.perm_middle
    case culled =>
      exact (((@List.perm_middle _ _ state.freePages _).append_left state.retPages).trans
        List.perm_middle)
    case dropped =>
      exact ((((@List.perm_middle _ _ state.culled _).append_left state.freePages).trans
        List.perm_middle).append_left state.retPages).trans List.perm_middle
  have mode : (state.round held ⟨fate, page, resetsMode, tally⟩).mode =
      if resetsMode then resetReclaimMode else state.mode := by
    cases fate <;> rfl
  constructor
  · exact (pages.map LruPage.pfn).trans (shared.perm.cons held.pfn)
  · intro other listed
    rcases List.mem_cons.mp (pages.subset listed) with rfl | before
    · exact order
    · exact shared.order other before
  · cases fate
    case kept => exact List.forall_mem_cons.mpr ⟨safe.1, shared.returned⟩
    case activated => exact List.forall_mem_cons.mpr ⟨safe.1, shared.returned⟩
    all_goals exact shared.returned
  · rw [mode]
    cases resetsMode with
    | true => exact .inl rfl
    | false =>
        refine shared.inactive.imp_right fun inactive => ?_
        cases fate
        case kept => exact List.forall_mem_cons.mpr ⟨safe.2, inactive⟩
        case activated => cases safe.2.2
        all_goals exact inactive
  · cases fate
    case freed => exact List.forall_mem_cons.mpr ⟨safe.1, shared.freed⟩
    case freedOrphan => exact List.forall_mem_cons.mpr ⟨safe.1, shared.freed⟩
    all_goals exact shared.freed
  · cases fate
    case culled => exact List.forall_mem_cons.mpr ⟨safe.1, shared.culled⟩
    all_goals exact shared.culled
  · cases fate
    case dropped => exact List.forall_mem_cons.mpr ⟨safe, shared.dropped⟩
    all_goals exact shared.dropped
  · have total : (state.round held ⟨fate, page, resetsMode, tally⟩).tally.nrReclaimed =
        state.tally.nrReclaimed + tally.nrReclaimed := by
      cases fate <;> rfl
    rw [total, counts, reclaimed]
    cases fate <;> simp [Shrinking.round, Fate.reclaimed] <;> omega

/-- What the first pass has returned is shared out by the second. -/
theorem SharedOut.again {pages : List LruPage} {state again : Shrinking} (shared : SharedOut pages state)
    (sharedAgain : SharedOut state.retPages again) :
    SharedOut pages { again with
      freePages := again.freePages ++ state.freePages
      culled := again.culled ++ state.culled
      dropped := again.dropped ++ state.dropped
      tally := state.tally.add again.tally } where
  perm := by
    refine List.perm_iff_count.mpr fun pfn => ?_
    have one := shared.perm.count_eq pfn
    have two := sharedAgain.perm.count_eq pfn
    simp only [Shrinking.pages, List.map_append, List.count_append] at one two ⊢
    omega
  order := by
    intro held listed
    simp only [Shrinking.pages, List.mem_append] at listed
    rcases listed with isBack | (isFree | isFree) | (isCulled | isCulled) | (isDropped | isDropped)
    · exact sharedAgain.order held (by simp [Shrinking.pages, isBack])
    · exact sharedAgain.order held (by simp [Shrinking.pages, isFree])
    · exact shared.order held (by simp [Shrinking.pages, isFree])
    · exact sharedAgain.order held (by simp [Shrinking.pages, isCulled])
    · exact shared.order held (by simp [Shrinking.pages, isCulled])
    · exact sharedAgain.order held (by simp [Shrinking.pages, isDropped])
    · exact shared.order held (by simp [Shrinking.pages, isDropped])
  returned := sharedAgain.returned
  inactive := sharedAgain.inactive
  freed := List.forall_mem_append.mpr ⟨sharedAgain.freed, shared.freed⟩
  culled := List.forall_mem_append.mpr ⟨sharedAgain.culled, shared.culled⟩
  dropped := List.forall_mem_append.mpr ⟨sharedAgain.dropped, shared.dropped⟩
  reclaimed := by
    have one := shared.reclaimed
    have two := sharedAgain.reclaimed
    simp only [Tally.add, List.length_append]
    omega

end Passes

/-! ### Putting pages back -/

section PutBack

variable {zone after : Zone} {held : LruPage}

/-- Only the lists and their counters matter to the soundness of a zone. -/
theorem Zone.Sound.congr (sound : zone.Sound) (lists : after.lists = zone.lists)
    (nrLru : after.nrLru = zone.nrLru) : after.Sound where
  distinct := by
    rw [pfns_eq, lists, ← pfns_eq]
    exact sound.distinct
  listed := by
    rw [lists]
    exact sound.listed
  counted := by
    rw [lists, nrLru]
    exact sound.counted
  resting := by
    rw [lists]
    exact sound.resting

theorem pfns_addToLru (zone : Zone) (held : LruPage) :
    (zone.addToLru held).pfns.Perm (held.pfn :: zone.pfns) := by
  rcases allPages_split zone.lists (pageLru held.page) with ⟨before, rest, isAll, updated⟩
  have added : allPages (zone.addToLru held).lists =
      before ++ (held :: zone.lists (pageLru held.page) ++ rest) := updated _
  rw [pfns_eq, pfns_eq, isAll, added]
  exact (List.perm_middle.map LruPage.pfn)

/-- A page that goes to the list its flags name keeps the zone sound. -/
theorem Zone.Sound.addToLru (sound : zone.Sound) (order : held.nrPages = 1)
    (resting : Resting held.page) (new : held.pfn ∉ zone.pfns) : (zone.addToLru held).Sound := by
  have member : ∀ lru page, page ∈ (zone.addToLru held).lists lru →
      page ∈ zone.lists lru ∨ (page = held ∧ pageLru held.page = lru) := by
    intro lru page listed
    by_cases same : lru = pageLru held.page
    · subst same
      have onList : page ∈ held :: zone.lists (pageLru held.page) := by
        simpa [Zone.addToLru, Zone.listAdd, Zone.modLru] using listed
      rcases List.mem_cons.mp onList with rfl | before
      · exact .inr ⟨rfl, rfl⟩
      · exact .inl before
    · exact .inl (by simpa [Zone.addToLru, Zone.listAdd, Zone.modLru, same] using listed)
  constructor
  · constructor
    · exact (pfns_addToLru zone held).nodup_iff.mpr (List.nodup_cons.mpr ⟨new, sound.distinct⟩)
    · intro lru page listed
      rcases member lru page listed with before | ⟨rfl, rfl⟩
      · exact sound.listed lru page before
      · exact ⟨order, resting.listed, rfl⟩
    · intro lru
      have counted := sound.counted lru
      by_cases same : lru = pageLru held.page
      · subst same
        simp [Zone.addToLru, Zone.listAdd, Zone.modLru, counted, order]
      · simpa [Zone.addToLru, Zone.listAdd, Zone.modLru, same] using counted
  · intro lru page listed
    rcases member lru page listed with before | ⟨rfl, _⟩
    · exact sound.resting lru page before
    · exact resting

/-- Nobody has the page any more: no reference is left, no page table or cache holds it, and it is neither
    locked nor under writeback. -/
structure Gone (page : Page) : Prop where
  unreferenced : page.count = 0
  unmapped : page.mapcount = 0
  uncached : page.cached = false
  buffers : page.hasPrivate = false
  unlocked : page.flags .locked = false
  written : page.flags .writeback = false

/-- A page on a list without references is gone. -/
theorem Resting.gone {page : Page} (resting : Resting page) (zero : page.count = 0) : Gone page := by
  rcases resting.toPinned.unused resting.ownersLock zero with
    ⟨unmapped, uncached, buffers, unlocked, written⟩
  exact ⟨zero, unmapped, uncached, buffers, unlocked, written⟩

/-- Taking a page that is gone off its list changes nothing about that. -/
theorem Gone.offList {page : Page} (gone : Gone page) :
    Gone ((page.setFlag .lru false).setFlag .active false) where
  unreferenced := gone.unreferenced
  unmapped := gone.unmapped
  uncached := (cached_congr rfl (by simp)).trans gone.uncached
  buffers := by simpa [Page.hasPrivate] using gone.buffers
  unlocked := by simpa using gone.unlocked
  written := by simpa using gone.written

/-- Pages went back to the lists of a zone, except those whose last reference was dropped. -/
structure PutBack (zone after : Zone) (pages released : List LruPage) : Prop where
  sound : after.Sound
  perm : (after.pfns ++ released.map LruPage.pfn).Perm (pages.map LruPage.pfn ++ zone.pfns)
  gone : ∀ held ∈ released, Gone held.page
  nrIsolated : after.nrIsolated = zone.nrIsolated

theorem PutBack.nothing (sound : zone.Sound) : PutBack zone zone [] [] where
  sound := sound
  perm := by simp
  gone := by simp
  nrIsolated := rfl

variable {pages released : List LruPage}

/-- One more page goes to its list, or is freed. -/
theorem PutBack.next (putBack : PutBack zone after pages released)
    (distinct : ((held :: pages).map LruPage.pfn ++ zone.pfns).Nodup) {page : LruPage} {base last : Zone}
    (pfn : page.pfn = held.pfn) (order : page.nrPages = 1) (lists : base.lists = after.lists)
    (nrLru : base.nrLru = after.nrLru) (nrIsolated : base.nrIsolated = after.nrIsolated)
    {more : List LruPage}
    (next : (Resting page.page ∧ last = base.addToLru page ∧ more = []) ∨
      (Gone page.page ∧ last = base ∧ more = [page])) :
    PutBack zone last (held :: pages) (more ++ released) := by
  have baseSound : base.Sound := putBack.sound.congr lists nrLru
  have basePfns : base.pfns = after.pfns := by rw [pfns_eq, pfns_eq, lists]
  rcases next with ⟨resting, rfl, rfl⟩ | ⟨gone, rfl, rfl⟩
  · have new : page.pfn ∉ base.pfns := by
      rw [List.map_cons, List.cons_append, List.nodup_cons] at distinct
      intro listed
      rw [pfn, basePfns] at listed
      exact distinct.1 (putBack.perm.subset (List.mem_append_left _ listed))
    refine ⟨baseSound.addToLru order resting new, ?_, putBack.gone,
      nrIsolated.trans putBack.nrIsolated⟩
    have added := (pfns_addToLru base page).append_right (released.map LruPage.pfn)
    rw [pfn, basePfns] at added
    exact added.trans (putBack.perm.cons held.pfn)
  · refine ⟨baseSound, ?_, ?_, nrIsolated.trans putBack.nrIsolated⟩
    · rw [basePfns, List.map_append, List.map_cons, List.map_nil, pfn]
      exact List.perm_middle.trans (putBack.perm.cons held.pfn)
    · intro other listed
      rcases List.mem_append.mp listed with isPage | before
      · rw [List.mem_singleton.mp isPage]
        exact gone
      · exact putBack.gone other before

/-- Statistics of the zone have no part in this. -/
theorem PutBack.congr {last : Zone} (putBack : PutBack zone after pages released)
    (lists : last.lists = after.lists) (nrLru : last.nrLru = after.nrLru)
    (nrIsolated : last.nrIsolated = after.nrIsolated) : PutBack zone last pages released where
  sound := putBack.sound.congr lists nrLru
  perm := by
    rw [pfns_eq last, lists, ← pfns_eq]
    exact putBack.perm
  gone := putBack.gone
  nrIsolated := nrIsolated.trans putBack.nrIsolated

theorem PutBack.reorder {others : List LruPage} (putBack : PutBack zone after pages released)
    (perm : released.Perm others) : PutBack zone after pages others where
  sound := putBack.sound
  perm := ((perm.symm.map LruPage.pfn).append_left _).trans putBack.perm
  gone held listed := putBack.gone held (perm.symm.subset listed)
  nrIsolated := putBack.nrIsolated

/-- Pages that are put back one list after the other. -/
theorem PutBack.trans {last : Zone} {others more : List LruPage}
    (putBack : PutBack zone after pages released) (again : PutBack after last others more) :
    PutBack zone last (others ++ pages) (more ++ released) where
  sound := again.sound
  perm := by
    refine List.perm_iff_count.mpr fun pfn => ?_
    have one := putBack.perm.count_eq pfn
    have two := again.perm.count_eq pfn
    simp only [List.map_append, List.count_append] at one two ⊢
    omega
  gone := by
    intro page listed
    rcases List.mem_append.mp listed with now | before
    · exact again.gone page now
    · exact putBack.gone page before
  nrIsolated := again.nrIsolated.trans putBack.nrIsolated

/-- Pages that are different from those that were put back are not on the lists yet. -/
theorem PutBack.nodup {others : List LruPage} (putBack : PutBack zone after pages released)
    (distinct : ((others ++ pages).map LruPage.pfn ++ zone.pfns).Nodup) :
    (others.map LruPage.pfn ++ after.pfns).Nodup := by
  refine List.nodup_iff_count.mpr fun pfn => ?_
  have atMost := List.nodup_iff_count.mp distinct pfn
  have counted := putBack.perm.count_eq pfn
  simp only [List.map_append, List.count_append] at atMost counted ⊢
  omega

theorem nodup_tail {first : LruPage} {rest : List LruPage} {others : List Nat}
    (distinct : ((first :: rest).map LruPage.pfn ++ others).Nodup) :
    (rest.map LruPage.pfn ++ others).Nodup := by
  rw [List.map_cons, List.cons_append, List.nodup_cons] at distinct
  exact distinct.2

/-- The culled pages go to the lists their flags name. -/
theorem putbackCulled_spec (sound : zone.Sound) (pages freed : List LruPage)
    (distinct : (pages.map LruPage.pfn ++ zone.pfns).Nodup)
    (ready : ∀ held ∈ pages, held.nrPages = 1 ∧ Resting held.page) :
    ∃ last released, putbackCulled pages (zone, freed) = (last, released ++ freed) ∧
      PutBack zone last pages released := by
  induction pages with
  | nil => exact ⟨zone, [], rfl, .nothing sound⟩
  | cons held rest inductionHypothesis =>
      rcases inductionHypothesis (nodup_tail distinct)
        (fun other listed => ready other (List.mem_cons_of_mem held listed)) with
        ⟨last, released, done, putBack⟩
      rcases ready held List.mem_cons_self with ⟨order, resting⟩
      have unfolded : putbackCulled (held :: rest) (zone, freed) =
          putbackToLru held (last, released ++ freed) := by
        rw [← done]
        rfl
      rw [unfolded, putbackToLru]
      split
      · rename_i zero
        exact ⟨last, [held] ++ released, rfl, putBack.next distinct rfl order rfl rfl rfl
          (.inr ⟨resting.gone zero, rfl, rfl⟩)⟩
      · exact ⟨last.addToLru held, [] ++ released, rfl, putBack.next distinct rfl order rfl rfl rfl
          (.inl ⟨resting, rfl, rfl⟩)⟩

/-- An isolated page that is put on a list without its extra reference rests there. -/
theorem Loose.resting {page : Page} (loose : Loose page) :
    Resting { page.setFlag .lru true with count := page.count - 1 } := by
  have flags : ∀ flag ∈ accountFlags, (page.setFlag .lru true).flags flag = page.flags flag :=
    setFlag_outside (by decide) true fun _ _ => rfl
  exact ⟨loose.toPinned.recount rfl rfl flags (Int.add_zero _).symm, rfl,
    loose.othersLock.recount rfl rfl flags (Int.add_zero _).symm⟩

/-- What one round of `putback_inactive_pages` does: the page goes to a list, or is freed by `put_page`, or
    is left to free. -/
theorem putbackInactivePage_cases {services : Nat → PageServices}
    (allowed : Allowed (services held.pfn)) (loose : Loose held.page) (zone : Zone)
    (released toFree : List LruPage) :
    ∃ base page, base.lists = zone.lists ∧ base.nrLru = zone.nrLru ∧
      base.nrIsolated = zone.nrIsolated ∧ page.pfn = held.pfn ∧ page.nrPages = held.nrPages ∧
      ((Resting page.page ∧
          putbackInactivePage services held (zone, released, toFree) =
            pure (base.addToLru page, released, toFree)) ∨
        (Gone page.page ∧
          putbackInactivePage services held (zone, released, toFree) =
            pure (base, page :: released, toFree)) ∨
        (Gone page.page ∧
          putbackInactivePage services held (zone, released, toFree) =
            pure (base, released, page :: toFree))) := by
  have looseNow := (allowed.roams .putback held.page rfl loose).loose
  rw [putbackInactivePage]
  generalize (services held.pfn).env .putback held.page = page at looseNow ⊢
  rw [if_neg (by rw [looseNow.offList]; decide)]
  by_cases evictable : (services held.pfn).evictable page = true
  · rw [if_neg (by simp [evictable])]
    obtain ⟨base, isBase, lists, nrLru, nrIsolated⟩ : ∃ base : Zone,
        (if pageLru (page.setFlag .lru true) = .activeAnon ∨
            pageLru (page.setFlag .lru true) = .activeFile
          then { zone with
            recentRotated := Function.update zone.recentRotated page.isFileCache
              (zone.recentRotated page.isFileCache + held.nrPages) }
          else zone) = base ∧
          base.lists = zone.lists ∧ base.nrLru = zone.nrLru ∧ base.nrIsolated = zone.nrIsolated := by
      refine ⟨_, rfl, ?_⟩
      split <;> exact ⟨rfl, rfl, rfl⟩
    simp only [isBase]
    have put : putPageTestzero (page.setFlag .lru true) =
        pure { page.setFlag .lru true with count := page.count - 1 } :=
      putPageTestzero_eq looseNow.toHeld.count_pos
    rw [put, pure_bind]
    split
    · rename_i zero
      let listed : Page := { page.setFlag .lru true with count := page.count - 1 }
      have gone : Gone listed := looseNow.resting.gone zero
      exact ⟨base, { held with page := (listed.setFlag .lru false).setFlag .active false }, lists, nrLru,
        nrIsolated, rfl, rfl, .inr (.inr ⟨gone.offList, rfl⟩)⟩
    · exact ⟨base, { held with page := { page.setFlag .lru true with count := page.count - 1 } }, lists,
        nrLru, nrIsolated, rfl, rfl, .inl ⟨looseNow.resting, rfl⟩⟩
  · rw [if_pos (by simpa using evictable)]
    have putting : ∃ after, putback (services held.pfn) page = pure after ∧ Resting after ∧
        (page.flags .active = false → after.flags .active = false) := looseNow.putback
    rcases putting with ⟨after, puts, resting, _⟩
    rw [puts, pure_bind]
    simp only [putbackToLru]
    split
    · rename_i zero
      exact ⟨zone, { held with page := after }, rfl, rfl, rfl, rfl, rfl,
        .inr (.inl ⟨resting.gone zero, rfl⟩)⟩
    · exact ⟨zone, { held with page := after }, rfl, rfl, rfl, rfl, rfl, .inl ⟨resting, rfl⟩⟩

/-- `putback_inactive_pages` puts the pages on the lists their flags name. -/
theorem putbackInactivePages_spec {services : Nat → PageServices}
    (allowed : ∀ pfn, Allowed (services pfn)) (sound : zone.Sound) (pages freed : List LruPage)
    (distinct : (pages.map LruPage.pfn ++ zone.pfns).Nodup)
    (ready : ∀ held ∈ pages, held.nrPages = 1 ∧ Loose held.page) :
    ∃ last released toFree gone,
      putbackInactivePages services pages (zone, freed) = pure (last, released ++ freed, toFree) ∧
      gone.Perm (released ++ toFree) ∧ PutBack zone last pages gone := by
  induction pages with
  | nil => exact ⟨zone, [], [], [], rfl, .refl _, .nothing sound⟩
  | cons held rest inductionHypothesis =>
      rcases inductionHypothesis (nodup_tail distinct)
        (fun other listed => ready other (List.mem_cons_of_mem held listed)) with
        ⟨last, released, toFree, gone, done, perm, putBack⟩
      rcases ready held List.mem_cons_self with ⟨order, loose⟩
      have unfolded : putbackInactivePages services (held :: rest) (zone, freed) =
          putbackInactivePage services held (last, released ++ freed, toFree) := by
        rw [putbackInactivePages, List.foldrM_cons]
        exact (congrArg (· >>= putbackInactivePage services held) done).trans (pure_bind _ _)
      rcases putbackInactivePage_cases (allowed held.pfn) loose last (released ++ freed) toFree with
        ⟨base, page, lists, nrLru, nrIsolated, pfn, nrPages, cases⟩
      rw [unfolded]
      rcases cases with ⟨resting, result⟩ | ⟨isGone, result⟩ | ⟨isGone, result⟩
      · exact ⟨base.addToLru page, released, toFree, [] ++ gone, result, perm,
          putBack.next distinct pfn (nrPages.trans order) lists nrLru nrIsolated
            (.inl ⟨resting, rfl, rfl⟩)⟩
      · exact ⟨base, page :: released, toFree, [page] ++ gone, result, perm.cons page,
          putBack.next distinct pfn (nrPages.trans order) lists nrLru nrIsolated
            (.inr ⟨isGone, rfl, rfl⟩)⟩
      · exact ⟨base, released, page :: toFree, [page] ++ gone, result,
          (perm.cons page).trans List.perm_middle.symm,
          putBack.next distinct pfn (nrPages.trans order) lists nrLru nrIsolated
            (.inr ⟨isGone, rfl, rfl⟩)⟩

end PutBack

/-! ### One call -/

/-- The code outside the model keeps to the rules during a call. -/
structure ReclaimWorld.Allowed (world : ReclaimWorld) : Prop where
  first : ∀ pfn, PageReplacement.Allowed (world.first pfn)
  second : ∀ pfn, PageReplacement.Allowed (world.second pfn)
  last : ∀ pfn, PageReplacement.Allowed (world.last pfn)

/-- What a call has done is accounted for: the zone is sound, every page is on a list or was freed or left
    to another thread, nothing is counted as isolated any more, and pages were freed only unused. -/
structure Reclaimed.Conserves (reclaimed : Reclaimed) (zone : Zone) : Prop where
  sound : reclaimed.zone.Sound
  perm : (reclaimed.zone.pfns ++
    (reclaimed.freed ++ (reclaimed.released ++ reclaimed.dropped)).map LruPage.pfn).Perm zone.pfns
  nrIsolated : reclaimed.zone.nrIsolated = zone.nrIsolated
  /-- A call that a signal ended has reported pages that it did not reclaim. -/
  nrReclaimed : reclaimed.nrReclaimed =
    reclaimed.freed.length + reclaimed.dropped.length + SWAP_CLUSTER_MAX * reclaimed.gaveUp
  freed : ∀ held ∈ reclaimed.freed, Freeable held.page
  released : ∀ held ∈ reclaimed.released, Gone held.page
  /-- A page that was left to another thread has a reference, and all its references are counted. -/
  dropped : ∀ held ∈ reclaimed.dropped, Pinned 0 held.page ∧ 0 < held.page.count

/-- The isolated pages are the caller's, each with a reference, and none of them is active any more. -/
theorem Collected.ready {zone : Zone} {state : Collecting} {taken : List LruPage} (sound : zone.Sound)
    (collected : Collected zone.lists state taken) :
    ∀ held ∈ clearActive state.dst,
      held.nrPages = 1 ∧ Loose held.page ∧ held.page.flags .active = false := by
  intro held listed
  rw [clearActive, collected.dst, List.map_map] at listed
  rcases List.mem_map.mp listed with ⟨page, isTaken, rfl⟩
  rcases collected.order sound isTaken with ⟨order, resting⟩
  exact ⟨order, (resting.grab (collected.evictable page isTaken)).setFlag (by decide) false, by simp⟩

/-- The pages that the passes have culled or returned go back to a zone that has none of them, whatever the
    statistics are set to in between. -/
theorem SharedOut.putBack {pages : List LruPage} {state : Shrinking} (shared : SharedOut pages state)
    {services : Nat → PageServices} (allowed : ∀ pfn, Allowed (services pfn)) {without : Zone}
    (sound : without.Sound)
    (distinct : ((state.retPages ++ state.culled).map LruPage.pfn ++ without.pfns).Nodup)
    (scanned : Zone → Bool → Nat) :
    ∃ between culledGone last released toFree,
      putbackCulled state.culled (without, []) = (between, culledGone) ∧
      putbackInactivePages services state.retPages
          ({ between with recentScanned := scanned between }, culledGone) =
        pure (last, released, toFree) ∧
      PutBack without last (state.retPages ++ state.culled) (released ++ toFree) := by
  rcases putbackCulled_spec sound state.culled [] (distinct.sublist
    (((List.sublist_append_right _ _).map LruPage.pfn).append_right _))
    (fun held isCulled => ⟨shared.order held (by simp [Shrinking.pages, isCulled]),
      shared.culled held isCulled⟩) with ⟨between, culledGone, culled, culledBack⟩
  rw [List.append_nil] at culled
  have counted : PutBack without { between with recentScanned := scanned between } state.culled
      culledGone := culledBack.congr rfl rfl rfl
  rcases putbackInactivePages_spec allowed counted.sound state.retPages culledGone
    (counted.nodup distinct)
    (fun held isBack => ⟨shared.order held (by simp [Shrinking.pages, isBack]),
      shared.returned held isBack⟩) with ⟨last, more, toFree, gone, returned, isGone, returnedBack⟩
  refine ⟨between, culledGone, last, more ++ culledGone, toFree, culled, returned,
    (counted.trans returnedBack).reorder ((isGone.append_right culledGone).trans ?_)⟩
  rw [List.append_assoc, List.append_assoc]
  exact List.perm_append_comm.append_left more

end KernelHacking.PageReplacement
