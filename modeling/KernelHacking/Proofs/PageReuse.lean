/-
Module: KernelHacking.Proofs.PageReuse
Layer: Proofs
Purpose: What a page frame takes from one lifetime into the next. Freeing and handing out a frame clears
  its flags but not `PG_referenced` (`reallocate_eq`), and later decisions of the replacement code tell
  any two values of the counter apart (`decisions_separate`). So the decisions about the new contents
  are the same for two histories exactly if both left the same counter, and a fresh anonymous page
  survives its first visit exactly if the counter it inherits is 0 or about to wrap.
Imports: KernelHacking.Proofs.ReferenceCounter
Trusted boundary: none (fully proved)
Main exports: Decision, decisions, Survives, NoLeak, reallocate_eq, decisions_separate,
  reuse_leaks_nothing_iff, reuse_leaks_nothing_after_access, reuse_leaks
Open obligations: none
-/
import KernelHacking.Proofs.ReferenceCounter

namespace KernelHacking.PageReplacement

/-- What the replacement code decides about a page. -/
inductive Decision where
  | visit (visit : Visit)
  | check (references : PageReferences)
deriving DecidableEq, Repr

/-- The decision an event takes, if any. -/
def Event.decision (page : Page) : Event → Option Decision
  | .visit referenced vmFlags => some (.visit (shrinkActiveListPage true referenced vmFlags page).1)
  | .cull => some (.visit (shrinkActiveListPage false 0 0 page).1)
  | .check reclaimMode referencedPtes vmFlags =>
      some (.check (pageCheckReferences reclaimMode referencedPtes vmFlags page).1)
  | .access | .setFlag _ _ => none

/-- The decisions along a history. -/
def decisions (page : Page) : List Event → List (Option Decision)
  | [] => []
  | event :: rest => event.decision page :: decisions (event.apply page) rest

/-- The page, put on the active list as a new anonymous page, is not deactivated by its first
    visit. -/
def Survives (page : Page) : Prop :=
  ∀ referenced vmFlags,
    (shrinkActiveListPage true referenced vmFlags (pageAddNewAnonRmap true page)).1 ≠ .deactivated

/-- Nothing of the earlier lifetimes shows: the decisions about the new contents are the same for
    every sequence of later events, and new anonymous contents survive their first visit. -/
def NoLeak (first second : Page) : Prop :=
  (∀ later, decisions first later = decisions second later) ∧ Survives first ∧ Survives second

/-- A frame as the allocator hands it out, with the counter it came with. -/
def blankPage (counter : ULong) : Page where
  flags := fun _ => false
  mapping := .null
  mapcount := 0
  count := 1
  pgReferenced := counter

/-- A page passes `free_pages_check` only unmapped, and then loses all its flags. -/
theorem freePagesCheck_eq {page free : Page} (checked : freePagesCheck page = some free) :
    page.mapcount = 0 ∧ page.mapping = .null ∧ free = { page with flags := fun _ => false } := by
  rw [freePagesCheck] at checked
  split at checked
  · cases checked
  · rename_i good
    simp only [not_or, Decidable.not_not] at good
    exact ⟨good.1, good.2.1, (Option.some.inj checked).symm⟩

/-- A page that passes `check_new_page` is handed out as it is, with one reference. -/
theorem prepNewPage_eq {page new : Page} (handedOut : prepNewPage page = some new) :
    new = { page with count := 1 } := by
  rw [prepNewPage] at handedOut
  split at handedOut
  · cases handedOut
  · exact (Option.some.inj handedOut).symm

/-- Freeing and handing out a frame resets everything but the counter. -/
theorem reallocate_eq {page new : Page} (freed : reallocate page = some new) :
    new = blankPage page.pgReferenced := by
  obtain ⟨free, prepared, handedOut⟩ := Option.bind_eq_some_iff.mp freed
  obtain ⟨unmapped, detached, rfl⟩ := freePagesCheck_eq prepared
  rw [prepNewPage_eq handedOut, blankPage]
  simp only [unmapped, detached]
  split <;> rfl

theorem decisions_append (page : Page) (earlier later : List Event) :
    decisions page (earlier ++ later) = decisions page earlier ++ decisions (run page earlier) later := by
  induction earlier generalizing page with
  | nil => rfl
  | cons event rest inductionHypothesis =>
      simp only [List.cons_append, decisions, inductionHypothesis]
      rfl

/-- A visit without a reference is always counted. -/
theorem counted_visit_zero (page : Page) : Counted page (.visit 0 0) := fun exec => exec.1 rfl

/-- Visits without a reference count one by one. -/
theorem run_visits_pgReferenced (page : Page) (visits : Nat) :
    (run page (List.replicate visits (.visit 0 0))).pgReferenced =
      page.pgReferenced + BitVec.ofNat 32 visits := by
  induction visits with
  | zero => simp [run]
  | succ visits inductionHypothesis =>
      have tracks := apply_tracks (run page (List.replicate visits (.visit 0 0))) (.visit 0 0)
      rw [Event.mark_of_counted (counted_visit_zero _)] at tracks
      rw [List.replicate_succ', run_append, BitVec.ofNat_add, ← BitVec.add_assoc,
        ← inductionHypothesis]
      exact tracks

/-- The decision of one more visit without a reference. -/
theorem decision_after_visits (page : Page) (visits : Nat) :
    Event.decision (run page (List.replicate visits (.visit 0 0))) (.visit 0 0) =
      some (.visit (if page.pgReferenced + BitVec.ofNat 32 visits + 1 <
        PG_REFERENCED_SHRINK_THRESHOLD then .kept else .deactivated)) := by
  rw [Event.decision, shrinkActiveListPage_counted _ (counted_visit_zero _), run_visits_pgReferenced]
  by_cases young : page.pgReferenced + BitVec.ofNat 32 visits + 1 < PG_REFERENCED_SHRINK_THRESHOLD
  · rw [if_pos young, if_pos young]
  · rw [if_neg young, if_neg young]

/-- The distance of two counters, by way of the visits that take the first one to the last word. -/
theorem add_neg_succ_add_one (first second : ULong) : second + -(first + 1) + 1 = second - first := by
  rw [BitVec.neg_add, BitVec.sub_eq_add_neg, BitVec.sub_eq_add_neg, BitVec.add_assoc, BitVec.add_assoc,
    BitVec.add_left_neg, BitVec.add_zero]

/-- Some number of visits separates two different counters: the smaller of two neighbours is still
    below the threshold when the other one has reached it. -/
theorem visits_separate {first second : ULong} (different : first ≠ second) :
    ∃ visits : Nat,
      ¬ (first + BitVec.ofNat 32 visits + 1 < PG_REFERENCED_SHRINK_THRESHOLD ↔
        second + BitVec.ofNat 32 visits + 1 < PG_REFERENCED_SHRINK_THRESHOLD) := by
  simp only [PG_REFERENCED_SHRINK_THRESHOLD]
  by_cases neighbours : second = first + 1
  · refine ⟨(-first).toNat, ?_⟩
    rw [BitVec.ofNat_toNat, BitVec.setWidth_eq, neighbours]
    intro same
    have one : first + -first + 1 = (1 : ULong) := by rw [BitVec.add_neg_eq_sub]; simp
    have two : first + 1 + -first + 1 = (2 : ULong) := by
      rw [BitVec.add_comm first 1, BitVec.add_assoc 1 first, BitVec.add_right_neg]
      rfl
    rw [one, two] at same
    exact absurd (same.mp (by decide)) (by decide)
  · refine ⟨(-(first + 1)).toNat, ?_⟩
    rw [BitVec.ofNat_toNat, BitVec.setWidth_eq]
    intro same
    rw [add_neg_succ_add_one, add_neg_succ_add_one, BitVec.sub_self] at same
    have low : second - first < 2 := same.mp (by decide)
    have gap : second - first = 0 ∨ second - first = 1 := by bv_omega
    rcases gap with none | one
    · exact different (by bv_omega)
    · exact neighbours (by bv_omega)

/-- Later decisions tell any two counters apart. -/
theorem decisions_separate {first second : Page}
    (same : ∀ later, decisions first later = decisions second later) :
    first.pgReferenced = second.pgReferenced := by
  by_contra different
  obtain ⟨visits, separates⟩ := visits_separate different
  apply separates
  have agree := same (List.replicate visits (.visit 0 0) ++ [.visit 0 0])
  rw [decisions_append, decisions_append, same (List.replicate visits (.visit 0 0)),
    List.append_cancel_left_eq] at agree
  have last := (List.cons.inj agree).1
  rw [decision_after_visits, decision_after_visits] at last
  constructor
  · intro young
    by_contra old
    rw [if_pos young, if_neg old] at last
    cases last
  · intro young
    by_contra old
    rw [if_neg old, if_pos young] at last
    cases last

/-- A new anonymous page survives its first visit exactly if one more scan keeps its counter below
    the threshold. -/
theorem survives_blank_iff (counter : ULong) :
    Survives (blankPage counter) ↔ counter + 1 < PG_REFERENCED_SHRINK_THRESHOLD := by
  have counts : ∀ referenced vmFlags,
      Counted (pageAddNewAnonRmap true (blankPage counter)) (.visit referenced vmFlags) := by
    rintro referenced vmFlags ⟨_, _, file⟩
    cases file
  have inherits : (pageAddNewAnonRmap true (blankPage counter)).pgReferenced = counter := rfl
  constructor
  · intro survives
    by_contra old
    apply survives 0 0
    rw [shrinkActiveListPage_counted _ (counts 0 0), inherits, if_neg old]
  · intro young referenced vmFlags
    rw [shrinkActiveListPage_counted _ (counts referenced vmFlags), inherits, if_pos young]
    intro deactivated
    cases deactivated

/-- Two histories of a frame leave no trace in its next lifetime exactly if both end with the same
    counter and this counter is 0, or so large that the next scan wraps it to 0. -/
theorem reuse_leaks_nothing_iff (start : Page) (one two : List Event) (first second : Page)
    (freedOne : reallocate (run start one) = some first)
    (freedTwo : reallocate (run start two) = some second) :
    NoLeak first second ↔
      (run start one).pgReferenced = (run start two).pgReferenced ∧
        (run start one).pgReferenced + 1 < PG_REFERENCED_SHRINK_THRESHOLD := by
  rw [reallocate_eq freedOne, reallocate_eq freedTwo]
  constructor
  · rintro ⟨same, survivesOne, _⟩
    have sameCounter : (blankPage (run start one).pgReferenced).pgReferenced =
        (blankPage (run start two).pgReferenced).pgReferenced := decisions_separate same
    exact ⟨sameCounter, (survives_blank_iff _).mp survivesOne⟩
  · rintro ⟨same, young⟩
    refine ⟨?_, (survives_blank_iff _).mpr young, (survives_blank_iff _).mpr ?_⟩
    · intro later
      rw [same]
    · rw [← same]
      exact young

/-- The page of an anonymous mapping that has been torn down, still on the active list. -/
def unmappedPage : Page where
  flags := fun flag => decide (flag = .lru ∨ flag = .active ∨ flag = .swapbacked)
  mapping := .anon
  mapcount := 0
  count := 0
  pgReferenced := 0

/-- The page is accessed, taken off the active list and freed. -/
def accessedLifetime : List Event := [.access, .setFlag .lru false, .setFlag .active false]

/-- The page is accessed, visited once, taken off the active list and freed. -/
def visitedLifetime : List Event :=
  [.access, .visit 0 0, .setFlag .lru false, .setFlag .active false]

/-- The page is accessed, deactivated by its second visit, accessed again, which activates it, taken off
    the active list and freed. -/
def reaccessedLifetime : List Event :=
  [.access, .visit 0 0, .visit 0 0, .access, .setFlag .lru false, .setFlag .active false]

/-- Two different lifetimes that end right after an access leave no trace. -/
theorem reuse_leaks_nothing_after_access :
    ∃ first second, reallocate (run unmappedPage accessedLifetime) = some first ∧
      reallocate (run unmappedPage reaccessedLifetime) = some second ∧ NoLeak first second :=
  ⟨_, _, rfl, rfl, (reuse_leaks_nothing_iff unmappedPage accessedLifetime reaccessedLifetime
    (blankPage 0) (blankPage 0) rfl rfl).mpr ⟨rfl, by decide⟩⟩

/-- A frame that was scanned in its earlier lifetime betrays it: its new contents are deactivated by
    their first visit. -/
theorem reuse_leaks :
    ¬ ∀ (start : Page) (one two : List Event) (first second : Page),
      reallocate (run start one) = some first → reallocate (run start two) = some second →
      NoLeak first second := by
  intro noLeak
  obtain ⟨same, _, survives⟩ := noLeak unmappedPage accessedLifetime visitedLifetime (blankPage 0)
    (blankPage 1) rfl rfl
  exact survives 0 0 (by decide)

end KernelHacking.PageReplacement
