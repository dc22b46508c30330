/-
Module: KernelHacking.Proofs.ReferenceCounter
Layer: Proofs
Purpose: What the counter `PG_referenced` means. Each event on a page refreshes it, counts it or passes
  it over (`Event.mark`), and the counter follows the age of the page under these marks
  (`run_follows`): it is the number of counted scans since the last access. A counted visit of the
  active list deactivates a page exactly if it was counted before since its last access.
Imports: Mathlib.Data.List.Induction, KernelHacking.Foundations.Age,
  KernelHacking.Model.PageReplacement
Trusted boundary: none (fully proved)
Main exports: Counted, Event.mark, marks, countedScans, scans, pageCheckReferences_cases, run_follows,
  run_follows_of_access, visit_deactivates_iff, counter_law, counter_law_example
Open obligations: none
-/
import Mathlib.Data.List.Induction
import KernelHacking.Foundations.Age
import KernelHacking.Model.PageReplacement

namespace KernelHacking.PageReplacement

open Age

/-- The `page_check_references` call goes through the branch for referenced pages that are not
    swap-backed. -/
def TakesFileBranch (page : Page) (reclaimMode : ULong) (referencedPtes : Int) (vmFlags : ULong) :
    Prop :=
  reclaimMode &&& RECLAIM_MODE_LUMPYRECLAIM = 0 ∧ vmFlags &&& VM_LOCKED = 0 ∧ referencedPtes ≠ 0 ∧
    page.flags .swapbacked = false

instance (page : Page) (reclaimMode : ULong) (referencedPtes : Int) (vmFlags : ULong) :
    Decidable (TakesFileBranch page reclaimMode referencedPtes vmFlags) :=
  inferInstanceAs (Decidable (_ ∧ _ ∧ _ ∧ _))

/-- The `shrink_active_list` visit leaves through the branch for referenced pages of executable files. -/
def TakesExecBranch (page : Page) (referenced : Int) (vmFlags : ULong) : Prop :=
  referenced ≠ 0 ∧ (vmFlags &&& VM_EXEC ≠ 0 ∧ page.isFileCache = true)

instance (page : Page) (referenced : Int) (vmFlags : ULong) :
    Decidable (TakesExecBranch page referenced vmFlags) :=
  inferInstanceAs (Decidable (_ ∧ _ ∧ _))

/-- A scan is counted. A visit is, unless it leaves through the branch for referenced pages of
    executable files; a check is, unless it goes through the branch for referenced file pages. -/
def Counted (page : Page) : Event → Prop
  | .visit referenced vmFlags => ¬ TakesExecBranch page referenced vmFlags
  | .check reclaimMode referencedPtes vmFlags =>
      ¬ TakesFileBranch page reclaimMode referencedPtes vmFlags
  | .access | .cull | .setFlag _ _ => False

instance (page : Page) (event : Event) : Decidable (Counted page event) :=
  match event with
  | .visit _ _ => inferInstanceAs (Decidable (¬ _))
  | .check _ _ _ => inferInstanceAs (Decidable (¬ _))
  | .access | .cull | .setFlag _ _ => inferInstanceAs (Decidable False)

/-- What an event does to the age of a page. -/
def Event.mark (page : Page) (event : Event) : Mark :=
  if event = .access then .refresh else if Counted page event then .tick else .pass

theorem Event.mark_of_counted {page : Page} {event : Event} (counts : Counted page event) :
    event.mark page = .tick := by
  have notAccess : event ≠ .access := by
    rintro rfl
    exact counts
  rw [Event.mark, if_neg notAccess, if_pos counts]

theorem Event.mark_of_not_counted {page : Page} {event : Event} (notAccess : event ≠ .access)
    (skips : ¬ Counted page event) : event.mark page = .pass := by
  rw [Event.mark, if_neg notAccess, if_neg skips]

/-- The marks of a history, each event judged on the page it meets. -/
def marks (page : Page) : List Event → List Mark
  | [] => []
  | event :: rest => event.mark page :: marks (event.apply page) rest

/-- The number of counted scans since the last access. -/
def countedScans (page : Page) (events : List Event) : Nat := age (marks page events)

/-- What an event does to the number of scans since the last access, counted or not. -/
def Event.scanMark : Event → Mark
  | .access => .refresh
  | .visit _ _ | .check _ _ _ => .tick
  | .cull | .setFlag _ _ => .pass

/-- The number of scans since the last access. -/
def scans (events : List Event) : Nat := age (events.map Event.scanMark)

section Histories

variable (page : Page)

theorem run_append (earlier later : List Event) :
    run page (earlier ++ later) = run (run page earlier) later := by
  rw [run, List.foldl_append]
  rfl

theorem marks_append (earlier later : List Event) :
    marks page (earlier ++ later) = marks page earlier ++ marks (run page earlier) later := by
  induction earlier generalizing page with
  | nil => rfl
  | cons event rest inductionHypothesis =>
      simp only [List.cons_append, marks, inductionHypothesis]
      rfl

/-- One more event makes the page one step older, or as young as new. -/
theorem countedScans_concat (events : List Event) (event : Event) :
    countedScans page (events ++ [event]) =
      advance (countedScans page events) (event.mark (run page events)) := by
  rw [countedScans, marks_append]
  exact age_concat _ _

theorem scans_concat (events : List Event) (event : Event) :
    scans (events ++ [event]) = advance (scans events) event.scanMark := by
  rw [scans, List.map_append]
  exact age_concat _ _

/-- Only scans are counted. -/
theorem countedScans_le_scans (events : List Event) : countedScans page events ≤ scans events := by
  induction events using List.reverseRecOn with
  | nil => exact Nat.le_refl 0
  | append_singleton rest event inductionHypothesis =>
      have atMostOne : event ≠ .access →
          countedScans page (rest ++ [event]) ≤ countedScans page rest + 1 := by
        intro notAccess
        rw [countedScans_concat]
        by_cases counts : Counted (run page rest) event
        · rw [Event.mark_of_counted counts]
          exact Nat.le_refl _
        · rw [Event.mark_of_not_counted notAccess counts]
          exact Nat.le_succ _
      rw [scans_concat]
      cases event with
      | access =>
          rw [countedScans_concat]
          exact Nat.le_refl 0
      | visit referenced vmFlags =>
          exact Nat.le_trans (atMostOne (by simp)) (Nat.succ_le_succ inductionHypothesis)
      | check reclaimMode referencedPtes vmFlags =>
          exact Nat.le_trans (atMostOne (by simp)) (Nat.succ_le_succ inductionHypothesis)
      | cull =>
          rw [countedScans_concat]
          exact inductionHypothesis
      | setFlag flag value =>
          rw [countedScans_concat]
          exact inductionHypothesis

/-- The marks name refreshes where the history has accesses. -/
theorem refresh_mem_marks {events : List Event} : .refresh ∈ marks page events ↔ .access ∈ events := by
  induction events generalizing page with
  | nil => simp [marks]
  | cons event rest inductionHypothesis =>
      have head : Mark.refresh = event.mark page ↔ Event.access = event := by
        rw [Event.mark]
        by_cases isAccess : event = .access
        · simp [isAccess]
        · rw [if_neg isAccess]
          constructor
          · intro refreshes
            split at refreshes <;> cases refreshes
          · intro same
            exact absurd same.symm isAccess
      simp only [marks, List.mem_cons, head, inductionHypothesis]

end Histories

/-! ### What one event does to the counter -/

section Events

variable (page : Page)

/-- A visit that leaves through the branch for executable files changes nothing. -/
theorem shrinkActiveListPage_exec {referenced : Int} {vmFlags : ULong}
    (exec : TakesExecBranch page referenced vmFlags) :
    shrinkActiveListPage true referenced vmFlags page = (.keptExec, page) := by
  unfold TakesExecBranch at exec
  rw [shrinkActiveListPage, if_neg (by simp), if_pos exec]

/-- Any other visit raises the counter and compares it with the threshold. -/
theorem shrinkActiveListPage_counted {referenced : Int} {vmFlags : ULong}
    (counts : Counted page (.visit referenced vmFlags)) :
    shrinkActiveListPage true referenced vmFlags page =
      if page.pgReferenced + 1 < PG_REFERENCED_SHRINK_THRESHOLD then
        (.kept, { page with pgReferenced := page.pgReferenced + 1 })
      else
        (.deactivated, { page with pgReferenced := page.pgReferenced + 1 }.setFlag .active false) := by
  have notExec : ¬ (referenced ≠ 0 ∧ (vmFlags &&& VM_EXEC ≠ 0 ∧ page.isFileCache = true)) := counts
  rw [shrinkActiveListPage, if_neg (by simp), if_neg notExec]

/-- What a check can do. In the branch for referenced file pages it takes its increment back, and the
    page is activated if its counter is 0, if it has more than one reference, or if it is mapped
    executable. Every other check raises the counter, and activates a page that is referenced outside
    lumpy reclaim and outside locked mappings. -/
theorem pageCheckReferences_cases (reclaimMode : ULong) (referencedPtes : Int) (vmFlags : ULong) :
    ∃ verdict after, pageCheckReferences reclaimMode referencedPtes vmFlags page = (verdict, after) ∧
      ((TakesFileBranch page reclaimMode referencedPtes vmFlags ∧ after = page ∧
          (verdict = .activate ↔
            page.pgReferenced = 0 ∨ 1 < referencedPtes ∨ vmFlags &&& VM_EXEC ≠ 0)) ∨
        (¬ TakesFileBranch page reclaimMode referencedPtes vmFlags ∧
          after = { page with pgReferenced := page.pgReferenced + 1 } ∧
          (verdict = .activate ↔ reclaimMode &&& RECLAIM_MODE_LUMPYRECLAIM = 0 ∧
            vmFlags &&& VM_LOCKED = 0 ∧ referencedPtes ≠ 0))) := by
  have unused : page.pgReferenced < 1 ↔ page.pgReferenced = 0 := by bv_omega
  by_cases lumpy : reclaimMode &&& RECLAIM_MODE_LUMPYRECLAIM ≠ 0
  · refine ⟨.reclaim, _, ?_, Or.inr ⟨fun branch => lumpy branch.1, rfl, ?_⟩⟩
    · simp only [pageCheckReferences, if_pos lumpy]
    · exact ⟨fun activates => absurd activates (by decide), fun allowed => absurd allowed.1 lumpy⟩
  by_cases locked : vmFlags &&& VM_LOCKED ≠ 0
  · refine ⟨.reclaim, _, ?_, Or.inr ⟨fun branch => locked branch.2.1, rfl, ?_⟩⟩
    · simp only [pageCheckReferences, if_neg lumpy, if_pos locked]
    · exact ⟨fun activates => absurd activates (by decide), fun allowed => absurd allowed.2.1 locked⟩
  have allowed := And.intro (Decidable.not_not.mp lumpy) (Decidable.not_not.mp locked)
  by_cases referenced : referencedPtes ≠ 0
  · cases backed : page.flags .swapbacked with
    | true =>
        refine ⟨.activate, _, ?_, Or.inr ⟨fun branch => ?_, rfl, ?_⟩⟩
        · simp only [pageCheckReferences, if_neg lumpy, if_neg locked, if_pos referenced, if_pos backed]
        · exact absurd (branch.2.2.2.symm.trans backed) (by decide)
        · exact ⟨fun _ => ⟨allowed.1, allowed.2, referenced⟩, fun _ => rfl⟩
    | false =>
        have notBacked : ¬ page.flags .swapbacked = true := by simp [backed]
        refine ⟨if page.pgReferenced = 0 ∨ 1 < referencedPtes ∨ vmFlags &&& VM_EXEC ≠ 0 then .activate
          else .keep, page, ?_, Or.inl ⟨⟨allowed.1, allowed.2, referenced, backed⟩, rfl, ?_⟩⟩
        · simp only [pageCheckReferences, if_neg lumpy, if_neg locked, if_pos referenced,
            if_neg notBacked, BitVec.add_sub_cancel, unused, gt_iff_lt]
          by_cases young : page.pgReferenced = 0 ∨ 1 < referencedPtes
          · rw [if_pos young, if_pos (young.imp_right Or.inl)]
          · by_cases exec : vmFlags &&& VM_EXEC ≠ 0
            · rw [if_neg young, if_pos exec, if_pos (Or.inr (Or.inr exec))]
            · rw [if_neg young, if_neg exec, if_neg (by rw [← or_assoc]; exact not_or.mpr ⟨young, exec⟩)]
        · split
          · rename_i activates
            exact ⟨fun _ => activates, fun _ => rfl⟩
          · rename_i spares
            exact ⟨fun activates => absurd activates (by decide),
              fun activates => absurd activates spares⟩
  · refine ⟨if page.pgReferenced = 0 ∧ page.flags .swapbacked = false then .reclaimClean else .reclaim,
      _, ?_, Or.inr ⟨fun branch => referenced branch.2.2.1, rfl, ?_⟩⟩
    · simp only [pageCheckReferences, if_neg lumpy, if_neg locked, if_neg referenced, unused]
      split <;> rfl
    · refine ⟨fun activates => ?_, fun allowed => absurd allowed.2.2 referenced⟩
      split at activates <;> cases activates

/-- A check in the branch for referenced file pages takes its increment back. -/
theorem pageCheckReferences_file {reclaimMode : ULong} {referencedPtes : Int} {vmFlags : ULong}
    (branch : TakesFileBranch page reclaimMode referencedPtes vmFlags) :
    (pageCheckReferences reclaimMode referencedPtes vmFlags page).2.pgReferenced =
      page.pgReferenced := by
  obtain ⟨verdict, after, isResult, ⟨_, rfl, _⟩ | ⟨counts, _⟩⟩ :=
    pageCheckReferences_cases page reclaimMode referencedPtes vmFlags
  · rw [isResult]
  · exact absurd branch counts

/-- Every other check raises the counter. -/
theorem pageCheckReferences_counted {reclaimMode : ULong} {referencedPtes : Int} {vmFlags : ULong}
    (counts : ¬ TakesFileBranch page reclaimMode referencedPtes vmFlags) :
    (pageCheckReferences reclaimMode referencedPtes vmFlags page).2.pgReferenced =
      page.pgReferenced + 1 := by
  obtain ⟨verdict, after, isResult, ⟨branch, _⟩ | ⟨_, rfl, _⟩⟩ :=
    pageCheckReferences_cases page reclaimMode referencedPtes vmFlags
  · exact absurd branch counts
  · rw [isResult]

/-- The counter moves with the mark of the event. -/
theorem apply_tracks (event : Event) :
    Tracks page.pgReferenced (event.apply page).pgReferenced (event.mark page) := by
  cases event with
  | access => rfl
  | visit referenced vmFlags =>
      by_cases exec : TakesExecBranch page referenced vmFlags
      · have skips : ¬ Counted page (.visit referenced vmFlags) := not_not_intro exec
        rw [Event.mark_of_not_counted (by simp) skips, Event.apply, shrinkActiveListPage_exec page exec]
        rfl
      · have counts : Counted page (.visit referenced vmFlags) := exec
        rw [Event.mark_of_counted counts, Event.apply, shrinkActiveListPage_counted page counts]
        split <;> rfl
  | cull => rfl
  | check reclaimMode referencedPtes vmFlags =>
      by_cases branch : TakesFileBranch page reclaimMode referencedPtes vmFlags
      · have skips : ¬ Counted page (.check reclaimMode referencedPtes vmFlags) :=
          not_not_intro branch
        rw [Event.mark_of_not_counted (by simp) skips]
        exact pageCheckReferences_file page branch
      · have counts : Counted page (.check reclaimMode referencedPtes vmFlags) := branch
        rw [Event.mark_of_counted counts]
        exact pageCheckReferences_counted page branch
  | setFlag flag value => rfl

end Events

/-- The counter follows the age of the page: it is the number of counted scans since the last access,
    modulo the word size. -/
theorem run_follows {page : Page} (fresh : page.pgReferenced = 0) (events : List Event) :
    Follows (run page events).pgReferenced (countedScans page events) := by
  induction events using List.reverseRecOn with
  | nil => exact fresh
  | append_singleton rest event inductionHypothesis =>
      rw [countedScans_concat, run_append]
      exact inductionHypothesis.step (apply_tracks _ event)

/-- After an access the counter follows the age of the page, whatever it was before. -/
theorem run_follows_of_access {page : Page} {events : List Event} (accessed : .access ∈ events) :
    Follows (run page events).pgReferenced (countedScans page events) := by
  induction events using List.reverseRecOn with
  | nil => cases accessed
  | append_singleton rest event inductionHypothesis =>
      rw [countedScans_concat, run_append]
      by_cases isAccess : event = .access
      · subst isAccess
        rfl
      · have accessedBefore : .access ∈ rest := by
          rcases List.mem_append.mp accessed with before | last
          · exact before
          · exact absurd (List.mem_singleton.mp last).symm isAccess
        exact (inductionHypothesis accessedBefore).step (apply_tracks _ event)

/-- A counted visit deactivates a page exactly if the page was counted before since its last access,
    as long as the counter does not wrap. -/
theorem visit_deactivates_iff {page : Page} {referenced : Int} {vmFlags : ULong} {age : Nat}
    (counts : Counted page (.visit referenced vmFlags)) (follows : Follows page.pgReferenced age)
    (fits : age + 1 < 2 ^ 32) :
    (shrinkActiveListPage true referenced vmFlags page).1 = .deactivated ↔ 1 ≤ age := by
  have raised : Follows (page.pgReferenced + 1) (advance age .tick) := follows.step rfl
  have value : (page.pgReferenced + 1).toNat = age + 1 := raised.toNat_eq fits
  have threshold : page.pgReferenced + 1 < PG_REFERENCED_SHRINK_THRESHOLD ↔ age + 1 < 2 := by
    rw [BitVec.lt_def, value]
    rfl
  rw [shrinkActiveListPage_counted page counts]
  by_cases young : page.pgReferenced + 1 < PG_REFERENCED_SHRINK_THRESHOLD
  · rw [if_pos young]
    have := threshold.mp young
    simp
    omega
  · rw [if_neg young]
    have := mt threshold.mpr young
    simp
    omega

/-! ### The law of the counter -/

/-- `page_check_references` is called for pages of the inactive list only: `shrink_page_list` stops
    with `VM_BUG_ON(PageActive(page))` otherwise. -/
def ChecksInactive (page : Page) (events : List Event) : Prop :=
  ∀ earlier reclaimMode referencedPtes vmFlags later,
    events = earlier ++ .check reclaimMode referencedPtes vmFlags :: later →
    (run page earlier).flags .active = false

/-- The page is active at every point of a stretch of its history. -/
def StaysActive (page : Page) (events : List Event) : Prop :=
  ∀ earlier later, events = earlier ++ later → (run page earlier).flags .active = true

/-- A page that is not scanned after an access is as good as new. -/
theorem countedScans_eq_zero (page : Page) {events : List Event} (accessed : .access ∈ events)
    (noVisit : ∀ referenced vmFlags, .visit referenced vmFlags ∉ events)
    (noCheck : ∀ reclaimMode referencedPtes vmFlags,
      .check reclaimMode referencedPtes vmFlags ∉ events) (earlier : List Event) :
    countedScans page (earlier ++ events) = 0 := by
  induction events using List.reverseRecOn with
  | nil => cases accessed
  | append_singleton rest event inductionHypothesis =>
      rw [← List.append_assoc, countedScans_concat]
      by_cases isAccess : event = .access
      · rw [isAccess]
        rfl
      · have accessedBefore : .access ∈ rest := by
          rcases List.mem_append.mp accessed with before | last
          · exact before
          · exact absurd (List.mem_singleton.mp last).symm isAccess
        have skips : ¬ Counted (run page (earlier ++ rest)) event := by
          cases event with
          | access => exact absurd rfl isAccess
          | visit referenced vmFlags => exact absurd (by simp) (noVisit referenced vmFlags)
          | check reclaimMode referencedPtes vmFlags =>
              exact absurd (by simp) (noCheck reclaimMode referencedPtes vmFlags)
          | cull => exact not_false
          | setFlag flag value => exact not_false
        rw [Event.mark_of_not_counted isAccess skips]
        exact inductionHypothesis accessedBefore
          (fun referenced vmFlags member => noVisit referenced vmFlags (by simp [member]))
          (fun reclaimMode referencedPtes vmFlags member =>
            noCheck reclaimMode referencedPtes vmFlags (by simp [member]))

/-- A counted scan leaves its trace until the next access. -/
theorem one_le_countedScans (page : Page) {earlier later : List Event} {event : Event}
    (counts : Counted (run page earlier) event) (notAccessed : .access ∉ later) :
    1 ≤ countedScans page (earlier ++ event :: later) := by
  have split : earlier ++ event :: later = (earlier ++ [event]) ++ later := by simp
  rw [split, countedScans, marks_append]
  have grows := (age_append_bounds (marks page (earlier ++ [event]))
    (marks (run page (earlier ++ [event])) later)
    (by rw [refresh_mem_marks]; exact notAccessed)).1
  have first : 1 ≤ countedScans page (earlier ++ [event]) := by
    rw [countedScans_concat, Event.mark_of_counted counts]
    exact Nat.succ_pos _
  exact Nat.le_trans first grows

section Law

variable {page : Page}

/-- A visit at the end of a history adds one scan. -/
theorem scans_visit (events : List Event) (referenced : Int) (vmFlags : ULong) :
    scans (events ++ [.visit referenced vmFlags]) = scans events + 1 :=
  scans_concat events _

/-- Right after an access, with no scan in between, a visit does not deactivate. -/
theorem visit_keeps (fresh : page.pgReferenced = 0) {events : List Event}
    (young : countedScans page events = 0) (referenced : Int) (vmFlags : ULong) :
    (shrinkActiveListPage true referenced vmFlags (run page events)).1 ≠ .deactivated := by
  by_cases counts : Counted (run page events) (.visit referenced vmFlags)
  · have follows := run_follows fresh events
    rw [young] at follows
    intro deactivated
    have old := (visit_deactivates_iff counts follows (by decide)).mp deactivated
    omega
  · rw [shrinkActiveListPage_exec _ (Decidable.not_not.mp counts)]
    intro deactivated
    cases deactivated

/-- In a stretch in which the page stays active `page_check_references` is not called. -/
theorem StaysActive.no_check {earlier stretch later : List Event}
    (active : StaysActive (run page earlier) stretch)
    (inactive : ChecksInactive page (earlier ++ (stretch ++ later)))
    (reclaimMode : ULong) (referencedPtes : Int) (vmFlags : ULong) :
    .check reclaimMode referencedPtes vmFlags ∉ stretch := by
  intro member
  obtain ⟨before, after, rfl⟩ := List.append_of_mem member
  have isActive := active before (.check reclaimMode referencedPtes vmFlags :: after) rfl
  have isInactive := inactive (earlier ++ before) reclaimMode referencedPtes vmFlags (after ++ later)
    (by simp)
  rw [run_append, isActive] at isInactive
  cases isInactive

end Law

/-- The law of the counter `PG_referenced`, for every history of a page that starts at zero, with
    fewer than `2 ^ 32` scans since the last access: the counter is the number of counted scans since
    the last access; a counted visit at the end of the history deactivates the page exactly if the page
    was counted before since its last access. Hence a page that stays active is not deactivated by a
    visit if it was accessed since the visit before, and a page that is counted by two visits without
    an access between them is deactivated by the second one at the latest. -/
theorem counter_law (page : Page) (fresh : page.pgReferenced = 0) (events : List Event)
    (few : scans events < 2 ^ 32) :
    (run page events).pgReferenced.toNat = countedScans page events ∧
    (∀ earlier referenced vmFlags, events = earlier ++ [.visit referenced vmFlags] →
      Counted (run page earlier) (.visit referenced vmFlags) →
      ((shrinkActiveListPage true referenced vmFlags (run page earlier)).1 = .deactivated ↔
        1 ≤ countedScans page earlier)) ∧
    (∀ earlier stretch referenced vmFlags,
      events = earlier ++ (stretch ++ [.visit referenced vmFlags]) →
      ChecksInactive page events → StaysActive (run page earlier) stretch → .access ∈ stretch →
      (∀ referenced vmFlags, .visit referenced vmFlags ∉ stretch) →
      (shrinkActiveListPage true referenced vmFlags (run page (earlier ++ stretch))).1 ≠
        .deactivated) ∧
    (∀ earlier first firstFlags stretch second secondFlags,
      events = (earlier ++ .visit first firstFlags :: stretch) ++ [.visit second secondFlags] →
      .access ∉ stretch → Counted (run page earlier) (.visit first firstFlags) →
      Counted (run page (earlier ++ .visit first firstFlags :: stretch))
        (.visit second secondFlags) →
      (shrinkActiveListPage true second secondFlags
        (run page (earlier ++ .visit first firstFlags :: stretch))).1 = .deactivated) := by
  have atVisit : ∀ earlier referenced vmFlags, events = earlier ++ [.visit referenced vmFlags] →
      Counted (run page earlier) (.visit referenced vmFlags) →
      ((shrinkActiveListPage true referenced vmFlags (run page earlier)).1 = .deactivated ↔
        1 ≤ countedScans page earlier) := by
    rintro earlier referenced vmFlags rfl counts
    have bound := countedScans_le_scans page earlier
    rw [scans_visit] at few
    exact visit_deactivates_iff counts (run_follows fresh earlier) (by omega)
  refine ⟨?_, atVisit, ?_, ?_⟩
  · have bound := countedScans_le_scans page events
    exact (run_follows fresh events).toNat_eq (by omega)
  · rintro earlier stretch referenced vmFlags rfl inactive active accessed noVisit
    exact visit_keeps fresh
      (countedScans_eq_zero page accessed noVisit (active.no_check inactive) earlier) _ _
  · rintro earlier first firstFlags stretch second secondFlags split notAccessed firstCounts
      secondCounts
    exact (atVisit _ second secondFlags split secondCounts).mpr
      (one_le_countedScans page firstCounts notAccessed)

/-- A page on the active list, just accessed. -/
def accessedPage : Page where
  flags := fun flag => decide (flag = .lru ∨ flag = .active ∨ flag = .swapbacked)
  mapping := .anon
  mapcount := 1
  count := 1
  pgReferenced := 0

/-- Two visits without an access between them: the counter is 2 and the second one deactivates. -/
theorem counter_law_example :
    (run accessedPage [.access, .visit 0 0, .visit 1 0]).pgReferenced.toNat = 2 ∧
      (shrinkActiveListPage true 1 0 (run accessedPage [.access, .visit 0 0])).1 = .deactivated := by
  obtain ⟨counter, decision, _, _⟩ :=
    counter_law accessedPage rfl [.access, .visit 0 0, .visit 1 0] (by decide)
  exact ⟨counter, (decision [.access, .visit 0 0] 1 0 rfl (by decide)).mpr (by decide)⟩

end KernelHacking.PageReplacement
