/-
Module: KernelHacking.Proofs.Activation
Layer: Proofs
Purpose: How a page becomes active and whether it stays so. A `page_check_references` call on a referenced
  file page leaves the counter as it was, so a page that keeps being referenced is judged by the same
  counter every time (`second_check_activates_iff`). A page that `mark_page_accessed` activates survives
  its next visit, since its counter starts from 0; a page that reclaim activates keeps the counter it
  had, raised by one if it is swap-backed (`activated_page_stays_iff`).
Imports: KernelHacking.Proofs.ReferenceCounter
Trusted boundary: none (fully proved)
Main exports: Visit.stays, pageCheckReferences_file_verdict, visit_stays_iff,
  second_check_activates_iff, activated_page_stays_iff
Open obligations: none
-/
import KernelHacking.Proofs.ReferenceCounter

namespace KernelHacking.PageReplacement

/-- The page is on the active list after the visit. -/
def Visit.stays : Visit → Bool
  | .keptExec | .kept => true
  | .culled | .deactivated => false

@[simp] theorem Visit.stays_culled : Visit.culled.stays = false := rfl
@[simp] theorem Visit.stays_keptExec : Visit.keptExec.stays = true := rfl
@[simp] theorem Visit.stays_kept : Visit.kept.stays = true := rfl
@[simp] theorem Visit.stays_deactivated : Visit.deactivated.stays = false := rfl

/-! ### What a check decides -/

section Check

variable {page : Page} {reclaimMode : ULong} {referencedPtes : Int} {vmFlags : ULong}

/-- A check changes no flag. -/
theorem pageCheckReferences_flags :
    (pageCheckReferences reclaimMode referencedPtes vmFlags page).2.flags = page.flags := by
  obtain ⟨verdict, after, isResult, ⟨_, rfl, _⟩ | ⟨_, rfl, _⟩⟩ :=
    pageCheckReferences_cases page reclaimMode referencedPtes vmFlags
  · rw [isResult]
  · rw [isResult]

/-- A check of a referenced file page activates it if its counter is 0, if it has more than one
    reference, or if it is mapped executable. -/
theorem pageCheckReferences_file_verdict
    (branch : TakesFileBranch page reclaimMode referencedPtes vmFlags) :
    (pageCheckReferences reclaimMode referencedPtes vmFlags page).1 = .activate ↔
      page.pgReferenced = 0 ∨ 1 < referencedPtes ∨ vmFlags &&& VM_EXEC ≠ 0 := by
  obtain ⟨verdict, after, isResult, ⟨_, _, activates⟩ | ⟨counts, _⟩⟩ :=
    pageCheckReferences_cases page reclaimMode referencedPtes vmFlags
  · rw [isResult, activates]
  · exact absurd branch counts

/-- The counter of a page that a check has activated: that of a swap-backed page was raised. -/
theorem pgReferenced_of_activated
    (activates : (pageCheckReferences reclaimMode referencedPtes vmFlags page).1 = .activate) :
    (pageCheckReferences reclaimMode referencedPtes vmFlags page).2.pgReferenced =
      if page.flags .swapbacked then page.pgReferenced + 1 else page.pgReferenced := by
  obtain ⟨verdict, after, isResult, ⟨branch, rfl, _⟩ | ⟨counts, rfl, allowed⟩⟩ :=
    pageCheckReferences_cases page reclaimMode referencedPtes vmFlags
  · rw [isResult, branch.2.2.2]
    rfl
  · rw [isResult] at activates ⊢
    obtain ⟨notLumpy, unlocked, referenced⟩ := allowed.mp activates
    have backed : page.flags .swapbacked = true := by
      by_contra notBacked
      exact counts ⟨notLumpy, unlocked, referenced, Bool.of_not_eq_true notBacked⟩
    rw [if_pos backed]

end Check

/-- A visit keeps an evictable page exactly if it leaves through the branch for executable files or the
    raised counter is below the threshold. -/
theorem visit_stays_iff (page : Page) (referenced : Int) (vmFlags : ULong) :
    (shrinkActiveListPage true referenced vmFlags page).1.stays = true ↔
      (referenced ≠ 0 ∧ (vmFlags &&& VM_EXEC ≠ 0 ∧ page.isFileCache = true)) ∨
        page.pgReferenced + 1 < PG_REFERENCED_SHRINK_THRESHOLD := by
  by_cases exec : referenced ≠ 0 ∧ (vmFlags &&& VM_EXEC ≠ 0 ∧ page.isFileCache = true)
  · rw [shrinkActiveListPage_exec page exec]
    exact ⟨fun _ => Or.inl exec, fun _ => rfl⟩
  · rw [shrinkActiveListPage, if_neg (by simp), if_neg exec]
    by_cases young : page.pgReferenced + 1 < PG_REFERENCED_SHRINK_THRESHOLD
    · rw [if_pos young]
      exact ⟨fun _ => Or.inr young, fun _ => rfl⟩
    · rw [if_neg young]
      constructor
      · intro stays
        cases stays
      · rintro (isExec | isYoung)
        · exact absurd isExec exec
        · exact absurd isYoung young

/-! ### Two checks in a row -/

/-- Two `page_check_references` calls in a row on a file page, both of which find it referenced. The
    second one activates the page exactly if the counter was 0 to begin with, or the second call sees
    more than one reference or an executable mapping. -/
theorem second_check_activates_iff (page : Page) (file : page.flags .swapbacked = false)
    (firstMode secondMode : ULong) (firstPtes secondPtes : Int) (firstFlags secondFlags : ULong)
    (notLumpy : firstMode &&& RECLAIM_MODE_LUMPYRECLAIM = 0 ∧
      secondMode &&& RECLAIM_MODE_LUMPYRECLAIM = 0)
    (unlocked : firstFlags &&& VM_LOCKED = 0 ∧ secondFlags &&& VM_LOCKED = 0)
    (referenced : 1 ≤ firstPtes ∧ 1 ≤ secondPtes) :
    (pageCheckReferences secondMode secondPtes secondFlags
        (pageCheckReferences firstMode firstPtes firstFlags page).2).1 = .activate ↔
      page.pgReferenced = 0 ∨ 1 < secondPtes ∨ secondFlags &&& VM_EXEC ≠ 0 := by
  have first : TakesFileBranch page firstMode firstPtes firstFlags :=
    ⟨notLumpy.1, unlocked.1, by omega, file⟩
  have second : TakesFileBranch (pageCheckReferences firstMode firstPtes firstFlags page).2 secondMode
      secondPtes secondFlags :=
    ⟨notLumpy.2, unlocked.2, by omega, by rw [pageCheckReferences_flags]; exact file⟩
  rw [pageCheckReferences_file_verdict second, pageCheckReferences_file page first]

/-- An inactive page of a file mapping, with the given counter. -/
def filePage (counter : ULong) : Page where
  flags := fun flag => decide (flag = .lru)
  mapping := .file
  mapcount := 1
  count := 2
  pgReferenced := counter

/-- A page with a fresh counter is activated. -/
theorem second_check_activates_fresh :
    (pageCheckReferences 0 1 0 (pageCheckReferences 0 1 0 (filePage 0)).2).1 = .activate :=
  (second_check_activates_iff (filePage 0) rfl 0 0 1 1 0 0 ⟨rfl, rfl⟩ ⟨rfl, rfl⟩ (by decide)).mpr
    (Or.inl rfl)

/-- A page that was scanned before is spared twice and not activated. -/
theorem second_check_keeps_scanned :
    ¬ ∀ page : Page, page.flags .swapbacked = false →
      ∀ (firstMode secondMode : ULong) (firstPtes secondPtes : Int) (firstFlags secondFlags : ULong),
      firstMode &&& RECLAIM_MODE_LUMPYRECLAIM = 0 ∧ secondMode &&& RECLAIM_MODE_LUMPYRECLAIM = 0 →
      firstFlags &&& VM_LOCKED = 0 ∧ secondFlags &&& VM_LOCKED = 0 →
      1 ≤ firstPtes ∧ 1 ≤ secondPtes →
      (pageCheckReferences secondMode secondPtes secondFlags
        (pageCheckReferences firstMode firstPtes firstFlags page).2).1 = .activate := by
  intro activates
  have spared : (pageCheckReferences 0 1 0 (pageCheckReferences 0 1 0 (filePage 1)).2).1 = .keep := by
    decide
  rw [activates (filePage 1) rfl 0 0 1 1 0 0 ⟨rfl, rfl⟩ ⟨rfl, rfl⟩ (by decide)] at spared
  cases spared

/-! ### The two ways to activate a page -/

/-- The page that reclaim activates after a check. -/
def reclaimActivated (reclaimMode : ULong) (referencedPtes : Int) (vmFlags : ULong) (page : Page) :
    Page :=
  activateLocked (pageCheckReferences reclaimMode referencedPtes vmFlags page).2

theorem reclaimActivated_isFileCache (reclaimMode : ULong) (referencedPtes : Int) (vmFlags : ULong)
    (page : Page) :
    (reclaimActivated reclaimMode referencedPtes vmFlags page).isFileCache = page.isFileCache := by
  simp [reclaimActivated, activateLocked, Page.setFlag, Page.isFileCache, pageCheckReferences_flags]

/-- The counter is such that the next visit leaves it below the threshold: 0, or about to wrap, for a
    page of a file; about to wrap for a swap-backed page, which reclaim has counted once more. -/
def CounterProtects (page : Page) : Prop :=
  page.pgReferenced = 0xffffffff ∨
    (page.flags .swapbacked = true ∧ page.pgReferenced = 0xfffffffe) ∨
    (page.flags .swapbacked = false ∧ page.pgReferenced = 0)

instance (page : Page) : Decidable (CounterProtects page) :=
  inferInstanceAs (Decidable (_ ∨ _ ∨ _))

/-- The next visit keeps a page that `mark_page_accessed` has activated, whatever it finds. It keeps a
    page that reclaim has activated exactly if it finds an executable file mapping referenced, or the
    counter of the page was such that it protects the page. -/
theorem activated_page_stays_iff (page : Page) :
    (∀ referenced vmFlags,
      (shrinkActiveListPage true referenced vmFlags (markPageAccessed page)).1.stays = true) ∧
    ∀ reclaimMode referencedPtes vmFlags, 0 < referencedPtes →
      (pageCheckReferences reclaimMode referencedPtes vmFlags page).1 = .activate →
      ∀ visitReferenced visitFlags,
        (shrinkActiveListPage true visitReferenced visitFlags
            (reclaimActivated reclaimMode referencedPtes vmFlags page)).1.stays = true ↔
          (visitReferenced ≠ 0 ∧ visitFlags &&& VM_EXEC ≠ 0 ∧ page.isFileCache = true) ∨
            CounterProtects page := by
  refine ⟨fun referenced vmFlags => ?_, ?_⟩
  · have fresh : (markPageAccessed page).pgReferenced = 0 := rfl
    refine (visit_stays_iff _ _ _).mpr (Or.inr ?_)
    rw [fresh]
    decide
  · intro reclaimMode referencedPtes vmFlags _ activates visitReferenced visitFlags
    have counter : (reclaimActivated reclaimMode referencedPtes vmFlags page).pgReferenced =
        if page.flags .swapbacked then page.pgReferenced + 1 else page.pgReferenced :=
      pgReferenced_of_activated activates
    have protects : (reclaimActivated reclaimMode referencedPtes vmFlags page).pgReferenced + 1 <
        PG_REFERENCED_SHRINK_THRESHOLD ↔ CounterProtects page := by
      rw [counter, CounterProtects, PG_REFERENCED_SHRINK_THRESHOLD]
      cases backed : page.flags .swapbacked with
      | true =>
          simp only [if_true, true_and, reduceCtorEq, false_and, or_false]
          bv_omega
      | false =>
          simp only [Bool.false_eq_true, if_false, false_and, false_or, true_and]
          bv_omega
    rw [visit_stays_iff, protects, reclaimActivated_isFileCache]

/-- A page of a file whose counter is 0 survives its next visit. -/
theorem activated_page_stays_fresh :
    (shrinkActiveListPage true 0 0 (reclaimActivated 0 1 0 (filePage 0))).1.stays = true :=
  ((activated_page_stays_iff (filePage 0)).2 0 1 0 (by decide) (by decide) 0 0).mpr
    (Or.inr (by decide))

/-- An inactive anonymous page. -/
def anonPage : Page where
  flags := fun flag => decide (flag = .lru ∨ flag = .swapbacked)
  mapping := .anon
  mapcount := 1
  count := 1
  pgReferenced := 0

/-- An anonymous page that reclaim activates is deactivated by its next visit. -/
theorem activated_anon_page_deactivated :
    ¬ ∀ (page : Page) (reclaimMode : ULong) (referencedPtes : Int) (vmFlags : ULong),
      0 < referencedPtes →
      (pageCheckReferences reclaimMode referencedPtes vmFlags page).1 = .activate →
      ∀ visitReferenced visitFlags,
        (shrinkActiveListPage true visitReferenced visitFlags
          (reclaimActivated reclaimMode referencedPtes vmFlags page)).1.stays = true := by
  intro stays
  have deactivated :
      (shrinkActiveListPage true 0 0 (reclaimActivated 0 1 0 anonPage)).1.stays = false := by decide
  rw [stays anonPage 0 1 0 (by decide) (by decide) 0 0] at deactivated
  cases deactivated

end KernelHacking.PageReplacement
