/-
Module: KernelHacking.Proofs.Rotation
Layer: Proofs
Purpose: What `shrink_active_list` adds to `recent_rotated`, compared with the pages it puts back on the
  active list. A page counts as rotated if `page_referenced` finds it referenced, and it stays if its
  counter is below the threshold; neither implies the other (`rotated_covers_kept_iff`).
Imports: KernelHacking.Proofs.ActiveList
Trusted boundary: none (fully proved)
Main exports: basePages_balance, keptUnreferenced, referencedNotKept, rotated_covers_kept_iff
Open obligations: none
-/
import KernelHacking.Proofs.ActiveList

namespace KernelHacking.PageReplacement

/-! ### Rotated pages -/

/-- Pages that satisfy one condition, compared with those that satisfy another one. -/
theorem basePages_balance (first second : LruPage → Bool) (pages : List LruPage) :
    basePages (pages.filter first) + basePages (pages.filter fun page => second page && !first page) =
      basePages (pages.filter second) +
        basePages (pages.filter fun page => first page && !second page) := by
  have splitFirst := basePages_filter second (pages.filter first)
  have splitSecond := basePages_filter first (pages.filter second)
  simp only [List.filter_filter] at splitFirst splitSecond
  have both : (pages.filter fun page => second page && first page) =
      pages.filter fun page => first page && second page := by
    simp only [Bool.and_comm]
  have onlyFirst : (pages.filter fun page => !second page && first page) =
      pages.filter fun page => first page && !second page := by
    simp only [Bool.and_comm]
  have onlySecond : (pages.filter fun page => !first page && second page) =
      pages.filter fun page => second page && !first page := by
    simp only [Bool.and_comm]
  rw [both, onlyFirst] at splitFirst
  rw [onlySecond] at splitSecond
  omega

section Rotation

variable (tests : Nat → PageTests)

/-- The isolated page is held by nothing but its isolation, once buffers that can be released are. -/
def lastReference (held : LruPage) : Bool :=
  decide ((releaseBuffers (tests held.pfn).releases held.page).count = 1)

/-- The page is referenced and part of an executable file mapping. -/
def referencedExec (held : LruPage) : Bool :=
  decide ((tests held.pfn).referenced ≠ 0 ∧
    ((tests held.pfn).vmFlags &&& VM_EXEC ≠ 0 ∧ held.page.isFileCache = true))

/-- The counter of the page is below the threshold, also once this scan is counted. -/
def belowThreshold (held : LruPage) : Bool :=
  decide (held.page.pgReferenced + 1 < PG_REFERENCED_SHRINK_THRESHOLD)

/-- The page stays active for its counter alone. -/
def keptUnreferenced (held : LruPage) : Bool :=
  (tests held.pfn).evictable && decide ((tests held.pfn).referenced = 0) && belowThreshold held &&
    !lastReference tests held

/-- The page is referenced and does not stay all the same. -/
def referencedNotKept (held : LruPage) : Bool :=
  (tests held.pfn).evictable && decide ((tests held.pfn).referenced ≠ 0) &&
    (lastReference tests held || !referencedExec tests held && !belowThreshold held)

variable {tests} {held : LruPage}

theorem verdict_stays_iff (evictable : (tests held.pfn).evictable = true) :
    (verdict tests held).stays = (referencedExec tests held || belowThreshold held) := by
  have sameFile : (releaseBuffers (tests held.pfn).releases held.page).isFileCache =
      held.page.isFileCache := by
    rw [Page.isFileCache, Page.isFileCache, releaseBuffers_flags _ _ (by decide)]
  have same : (verdict tests held).stays =
      (shrinkActiveListPage true (tests held.pfn).referenced (tests held.pfn).vmFlags
        (releaseBuffers (tests held.pfn).releases held.page)).1.stays := by
    simp only [verdict, visitPage, evictable, if_true]
  rw [same, Bool.eq_iff_iff, visit_stays_iff, sameFile, releaseBuffers_pgReferenced, Bool.or_eq_true,
    referencedExec, belowThreshold, decide_eq_true_iff, decide_eq_true_iff]

/-- The loop body does not touch the references of an evictable page beyond those of its buffers. -/
theorem visited_dies (evictable : (tests held.pfn).evictable = true) :
    (visited tests held).dies = lastReference tests held := by
  have sameCount : (visited tests held).page.count =
      (releaseBuffers (tests held.pfn).releases held.page).count := by
    simp only [visited, visitPage, evictable, if_true, shrinkActiveListPage, Bool.not_true,
      Bool.false_eq_true, if_false]
    repeat' split
    all_goals rfl
  have sameDeath : (visited tests held).putBack.page.count = 0 ↔
      (releaseBuffers (tests held.pfn).releases held.page).count = 1 := by
    rw [LruPage.putBack, ← sameCount]
    dsimp only
    omega
  rw [LruPage.dies, lastReference]
  exact decide_eq_decide.mpr sameDeath

/-- A page that is not evictable does not stay. -/
theorem verdict_not_evictable (unevictable : (tests held.pfn).evictable = false) :
    (verdict tests held).stays = false := by
  simp [verdict, visitPage, unevictable, shrinkActiveListPage]

theorem referencedExec_unreferenced (unreferenced : (tests held.pfn).referenced = 0) :
    referencedExec tests held = false := by
  simp [referencedExec, unreferenced]

/-- What is put back and not counted as rotated. -/
theorem kept_not_rotated (held : LruPage) :
    (((verdict tests held).stays && !(visited tests held).dies) && !rotates tests held) =
      keptUnreferenced tests held := by
  cases evictable : (tests held.pfn).evictable with
  | false => simp [verdict_not_evictable evictable, keptUnreferenced, evictable]
  | true =>
      rw [verdict_stays_iff evictable, visited_dies evictable]
      by_cases unreferenced : (tests held.pfn).referenced = 0
      · simp [rotates, keptUnreferenced, evictable, unreferenced, referencedExec_unreferenced]
      · simp [rotates, keptUnreferenced, evictable, unreferenced]

/-- What is counted as rotated and not put back. -/
theorem rotated_not_kept (held : LruPage) :
    (rotates tests held && !((verdict tests held).stays && !(visited tests held).dies)) =
      referencedNotKept tests held := by
  cases evictable : (tests held.pfn).evictable with
  | false => simp [rotates, referencedNotKept, evictable]
  | true =>
      rw [verdict_stays_iff evictable, visited_dies evictable]
      by_cases unreferenced : (tests held.pfn).referenced = 0
      · simp [rotates, referencedNotKept, evictable, unreferenced]
      · cases last : lastReference tests held <;>
          simp [rotates, referencedNotKept, evictable, unreferenced, last]

/-- The base pages that go back to the active list. -/
theorem basePages_putBack_active (hold : List LruPage) :
    basePages (putBackPages (sortPages tests hold).active) =
      basePages (hold.filter fun held => (verdict tests held).stays && !(visited tests held).dies) := by
  rw [basePages_putBackPages, sortPages_eq, List.filter_map, List.filter_filter,
    basePages_map (visited_nrPages tests)]
  simp only [Function.comp_def, Bool.and_comm]

end Rotation

/-- The base pages that a call puts back on the active list are covered by what it adds to
    `recent_rotated` exactly if the pages that stay for their counter alone, which are not counted, are
    made up for by referenced pages that do not stay, which are. -/
theorem rotated_covers_kept_iff {nrToScan : Nat} {sc : ScanControl} {file : Bool}
    {tests : Nat → PageTests} {zone after : Zone} {isolation : Isolation} {freed : List LruPage}
    (isolates : isolateActivePages nrToScan sc file tests zone = some isolation)
    (shrinks : shrinkActiveList nrToScan sc file tests zone = some (after, freed)) :
    ∃ putBack, after.lists (.active file) = putBack ++ isolation.src ∧
      (zone.recentRotated file + basePages putBack ≤ after.recentRotated file ↔
        basePages (isolation.dst.filter (keptUnreferenced tests)) ≤
          basePages (isolation.dst.filter (referencedNotKept tests))) := by
  obtain ⟨other, freedToo, done, shrunk⟩ := shrinkActiveList_shrunk isolates
  obtain ⟨rfl, rfl⟩ := Prod.mk.inj (Option.some.inj (shrinks.symm.trans done))
  have added : after.recentRotated file =
      zone.recentRotated file + basePages (isolation.dst.filter (rotates tests)) := by
    rw [shrunk.rotated, Function.update_self, sortPages_eq]
  have uncounted : (isolation.dst.filter fun held =>
      ((verdict tests held).stays && !(visited tests held).dies) && !rotates tests held) =
      isolation.dst.filter (keptUnreferenced tests) :=
    List.filter_congr fun held _ => kept_not_rotated held
  have madeUp : (isolation.dst.filter fun held =>
      rotates tests held && !((verdict tests held).stays && !(visited tests held).dies)) =
      isolation.dst.filter (referencedNotKept tests) :=
    List.filter_congr fun held _ => rotated_not_kept held
  have balance := basePages_balance
    (fun held => (verdict tests held).stays && !(visited tests held).dies) (rotates tests) isolation.dst
  rw [uncounted, madeUp] at balance
  refine ⟨_, shrunk.active, ?_⟩
  rw [added, basePages_putBack_active]
  omega

/-- Six active file pages. Those with a counter of 0 have just been accessed. -/
def mixedZone : Zone :=
  activeFileZone
    [⟨1, (filePage 0).setFlag .active true, 1⟩, ⟨2, (filePage 0).setFlag .active true, 1⟩,
      ⟨3, (filePage 5).setFlag .active true, 1⟩, ⟨4, (filePage 5).setFlag .active true, 1⟩,
      ⟨5, (filePage 5).setFlag .active true, 1⟩, ⟨6, (filePage 0).setFlag .active true, 1⟩]

/-- Pages 1, 3 and 4 are referenced, page 3 in an executable mapping; page 6 is not evictable. -/
def mixedTests (pfn : Nat) : PageTests where
  migratable := true
  evictable := decide (pfn ≠ 6)
  releases := false
  referenced := if pfn = 1 ∨ pfn = 3 ∨ pfn = 4 then 1 else 0
  vmFlags := if pfn = 3 then VM_EXEC else 0

/-- Of six pages the first three stay: the first one referenced, the second for its counter alone, the
    third as part of an executable. The fourth is referenced and deactivated all the same, which makes
    up for the second; the fifth is deactivated, and the last one is culled. -/
theorem rotated_covers_kept_referenced :
    ∃ isolation after freed,
      isolateActivePages 6 ⟨true, true⟩ true mixedTests mixedZone = some isolation ∧
      shrinkActiveList 6 ⟨true, true⟩ true mixedTests mixedZone = some (after, freed) ∧
      ∃ putBack, after.lists .activeFile = putBack ++ isolation.src ∧ basePages putBack = 3 ∧
        mixedZone.recentRotated true + basePages putBack ≤ after.recentRotated true := by
  obtain ⟨putBack, lists, covers⟩ := rotated_covers_kept_iff
    (rfl : isolateActivePages 6 ⟨true, true⟩ true mixedTests mixedZone = some _)
    (rfl : shrinkActiveList 6 ⟨true, true⟩ true mixedTests mixedZone = some _)
  have isPutBack := lists.trans (List.append_nil putBack)
  refine ⟨_, _, _, rfl, rfl, putBack, lists, ?_, covers.mpr (by decide)⟩
  rw [← isPutBack]
  decide

/-- A zone with one active file page, which has just been accessed. -/
def freshZone : Zone := activeFileZone [⟨1, (filePage 0).setFlag .active true, 1⟩]

/-- An unreferenced page that stays for its counter is put back and not counted. -/
theorem kept_page_not_rotated :
    ¬ ∀ (nrToScan : Nat) (sc : ScanControl) (file : Bool) (tests : Nat → PageTests) (zone after : Zone)
        (isolation : Isolation) (freed putBack : List LruPage),
      isolateActivePages nrToScan sc file tests zone = some isolation →
      shrinkActiveList nrToScan sc file tests zone = some (after, freed) →
      after.lists (.active file) = putBack ++ isolation.src →
      zone.recentRotated file + basePages putBack ≤ after.recentRotated file := by
  intro covered
  have bound := covered 1 ⟨true, true⟩ true (fun _ => idleTests) freshZone _ _ _ _ rfl rfl
    (List.append_nil _).symm
  revert bound
  decide

end KernelHacking.PageReplacement
