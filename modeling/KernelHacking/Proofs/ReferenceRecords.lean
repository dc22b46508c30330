/-
Module: KernelHacking.Proofs.ReferenceRecords
Layer: Proofs
Purpose: The flag and the counter called `PG_referenced` are two records that do not know of each
  other. No function sets the flag (`referenced_clear`), so smaps never counts an old entry as
  referenced, and clear_refs leaves the counter alone. The records agree in a history exactly as long as
  nobody compares them while the page is young (`records_agree_iff`).
Imports: KernelHacking.Model.ReferenceRecords, KernelHacking.Proofs.ReferenceCounter
Trusted boundary: none (fully proved)
Main exports: trace, runRecords_page, referenced_clear, RegardsAccessed, CountsReferenced,
  RecordsAgree, AgedSinceAccess, records_agree_iff, records_agree_aged, records_disagree
Open obligations: none
-/
import KernelHacking.Model.ReferenceRecords
import KernelHacking.Proofs.ReferenceCounter

namespace KernelHacking.PageReplacement

open Age

/-- What an event on a mapped page does to the page. -/
def RecordEvent.onPage (state : Mapped) : RecordEvent → List Event
  | .replacement event => [event.val]
  | .clearRefs => if state.entry.clearable then [.setFlag .referenced false] else []
  | .smaps | .setEntry _ => []

/-- The history of the page in a history of the mapped page. -/
def trace (start : Mapped) : List RecordEvent → List Event
  | [] => []
  | event :: rest => event.onPage start ++ trace (event.apply start) rest

theorem apply_page (state : Mapped) (event : RecordEvent) :
    (event.apply state).page = run state.page (event.onPage state) := by
  cases event with
  | replacement event => rfl
  | clearRefs =>
      obtain ⟨page, entry⟩ := state
      cases entry with
      | present young dirty normal => cases normal <;> rfl
      | none | file | swap swapcount | migration dirty | special => rfl
  | smaps => rfl
  | setEntry entry => rfl

/-- The page lives through its own history. -/
theorem runRecords_page (start : Mapped) (events : List RecordEvent) :
    (runRecords start events).page = run start.page (trace start events) := by
  induction events generalizing start with
  | nil => rfl
  | cons event rest inductionHypothesis =>
      rw [trace, run_append, ← apply_page]
      exact inductionHypothesis (event.apply start)

theorem access_mem_onPage (state : Mapped) (event : RecordEvent) :
    .access ∈ event.onPage state ↔ RecordEvent.access = event := by
  cases event with
  | replacement event =>
      rw [RecordEvent.onPage, List.mem_singleton, RecordEvent.access,
        RecordEvent.replacement.injEq, Subtype.ext_iff]
  | clearRefs =>
      rw [RecordEvent.onPage]
      split <;> simp [RecordEvent.access]
  | smaps => simp [RecordEvent.onPage, RecordEvent.access]
  | setEntry entry => simp [RecordEvent.onPage, RecordEvent.access]

theorem access_mem_trace (start : Mapped) (events : List RecordEvent) :
    .access ∈ trace start events ↔ .access ∈ events := by
  induction events generalizing start with
  | nil => simp [trace]
  | cons event rest inductionHypothesis =>
      rw [trace, List.mem_append, access_mem_onPage, inductionHypothesis, List.mem_cons]

/-! ### Nobody sets the flag -/

theorem setFlag_referenced {page : Page} {flag : PageFlag} (other : flag ≠ .referenced)
    (value : Bool) : (page.setFlag flag value).flags .referenced = page.flags .referenced := by
  rw [Page.setFlag]
  exact Function.update_of_ne other.symm value page.flags

/-- The replacement code neither sets nor clears the flag. -/
theorem apply_referenced (page : Page) (event : ReplacementEvent) :
    (event.val.apply page).flags .referenced = page.flags .referenced := by
  obtain ⟨event, spares⟩ := event
  cases event with
  | access =>
      simp only [Event.apply, markPageAccessed, activatePage]
      split
      · split
        · exact setFlag_referenced (by decide) true
        · rfl
      · rfl
  | visit referenced vmFlags =>
      simp only [Event.apply, shrinkActiveListPage]
      split
      · rfl
      · split
        · rfl
        · split
          · rfl
          · exact setFlag_referenced (by decide) false
  | cull => rfl
  | check reclaimMode referencedPtes vmFlags =>
      simp only [Event.apply, pageCheckReferences]
      repeat' split
      all_goals rfl
  | setFlag flag value =>
      apply setFlag_referenced
      rintro rfl
      exact spares value rfl

/-- A page comes from the allocator with the flag cleared, and the flag stays cleared. -/
theorem referenced_clear {start : Mapped} (clear : start.page.flags .referenced = false)
    (events : List RecordEvent) : (runRecords start events).page.flags .referenced = false := by
  induction events generalizing start with
  | nil => exact clear
  | cons event rest inductionHypothesis =>
      apply inductionHypothesis
      cases event with
      | replacement event => exact (apply_referenced start.page event).trans clear
      | clearRefs =>
          rw [apply_page, RecordEvent.onPage]
          split
          · exact Function.update_self PageFlag.referenced false start.page.flags
          · exact clear
      | smaps => exact clear
      | setEntry entry => exact clear

theorem prepNewPage_referenced {before page : Page} (allocated : prepNewPage before = some page) :
    page.flags .referenced = false := by
  rw [prepNewPage] at allocated
  split at allocated
  · cases allocated
  · rename_i good
    cases allocated
    by_contra isSet
    apply good
    refine Or.inr (Or.inr (Or.inr (List.any_eq_true.mpr ⟨.referenced, by decide, ?_⟩)))
    exact Bool.of_not_eq_false isSet

/-! ### The two records -/

/-- The replacement code regards the page as accessed since its last counted scan: there was a
    `mark_page_accessed` and the counter is zero. This is what `page_check_references` reads as
    `referenced_time < 1`. -/
def RegardsAccessed (start : Mapped) (earlier : List RecordEvent) : Prop :=
  .access ∈ earlier ∧ (runRecords start earlier).page.pgReferenced = 0

/-- `smaps_pte_entry` counts the page as referenced. -/
def CountsReferenced (state : Mapped) : Prop :=
  ∀ mss, (smapsPteEntry state.entry state.page PAGE_SIZE mss).referenced = mss.referenced + PAGE_SIZE

/-- The two records of "recently referenced" agree in a history. -/
structure RecordsAgree (start : Mapped) (events : List RecordEvent) : Prop where
  /-- smaps counts a page behind an old entry as referenced exactly if the replacement code regards it
      as accessed. -/
  smaps : ∀ earlier later, events = earlier ++ .smaps :: later →
    (runRecords start earlier).entry.findsPage = true →
    (runRecords start earlier).entry.young = false →
    (CountsReferenced (runRecords start earlier) ↔ RegardsAccessed start earlier)
  /-- The next `page_check_references` after clear_refs came by the page, without an access between
      them, does not regard the page as accessed. -/
  clearRefs : ∀ earlier between reclaimMode referencedPtes vmFlags later,
    events = earlier ++ .clearRefs :: (between ++ .check reclaimMode referencedPtes vmFlags :: later) →
    (runRecords start earlier).entry.clearable = true → .access ∉ between →
    (∀ reclaimMode referencedPtes vmFlags,
      .check reclaimMode referencedPtes vmFlags ∉ between) →
    ¬ RegardsAccessed start (earlier ++ .clearRefs :: between)

/-- The page was not accessed yet, or it was counted by scans since its last access, and not a multiple
    of `2 ^ 32` times. -/
def AgedSinceAccess (start : Mapped) (earlier : List RecordEvent) : Prop :=
  .access ∈ earlier → countedScans start.page (trace start earlier) % 2 ^ 32 ≠ 0

/-- The counter tells the truth about the history. -/
theorem regardsAccessed_iff (start : Mapped) (earlier : List RecordEvent) :
    RegardsAccessed start earlier ↔ ¬ AgedSinceAccess start earlier := by
  rw [RegardsAccessed, AgedSinceAccess, Classical.not_imp, not_not]
  refine and_congr_right fun accessed => ?_
  have accessedPage := (access_mem_trace start earlier).mpr accessed
  rw [runRecords_page]
  exact (run_follows_of_access accessedPage).eq_zero_iff

theorem smapsSwap_referenced (entry : Pte) (mss : MemSizeStats) :
    (smapsSwap entry mss).referenced = mss.referenced := by
  cases entry with
  | swap swapcount =>
      rw [smapsSwap]
      dsimp only
      split <;> rfl
  | none | present young dirty normal | file | migration dirty | special => rfl

/-- Without the flag only a young entry makes a page count as referenced. -/
theorem not_countsReferenced {state : Mapped} (old : state.entry.young = false)
    (clear : state.page.flags .referenced = false) : ¬ CountsReferenced state := by
  intro counts
  have untouched : ∀ mss, (smapsPteEntry state.entry state.page PAGE_SIZE mss).referenced =
      mss.referenced := by
    intro mss
    rw [← smapsSwap_referenced state.entry mss, smapsPteEntry, old, clear]
    simp only [Bool.or_self, Bool.false_eq_true, if_false]
    repeat' split
    all_goals rfl
  have zero := (untouched ⟨0, 0, 0, 0, 0, 0, 0, 0, 0, 0⟩).symm.trans (counts _)
  exact absurd zero (by decide)

/-- The records agree in a history of a page from the allocator exactly if, whenever smaps comes by an
    old entry and whenever `page_check_references` comes by for the first time after clear_refs, the
    page has been counted by a scan since its last access. -/
theorem records_agree_iff {before page : Page} (allocated : prepNewPage before = some page)
    (entry : Pte) (events : List RecordEvent) :
    RecordsAgree ⟨page, entry⟩ events ↔
      (∀ earlier later, events = earlier ++ .smaps :: later →
        (runRecords ⟨page, entry⟩ earlier).entry.findsPage = true →
        (runRecords ⟨page, entry⟩ earlier).entry.young = false →
        AgedSinceAccess ⟨page, entry⟩ earlier) ∧
      (∀ earlier between reclaimMode referencedPtes vmFlags later,
        events =
          earlier ++ .clearRefs :: (between ++ .check reclaimMode referencedPtes vmFlags :: later) →
        (runRecords ⟨page, entry⟩ earlier).entry.clearable = true → .access ∉ between →
        (∀ reclaimMode referencedPtes vmFlags,
          .check reclaimMode referencedPtes vmFlags ∉ between) →
        AgedSinceAccess ⟨page, entry⟩ (earlier ++ .clearRefs :: between)) := by
  have never : ∀ earlier, (runRecords ⟨page, entry⟩ earlier).entry.young = false →
      ¬ CountsReferenced (runRecords ⟨page, entry⟩ earlier) := fun earlier old =>
    not_countsReferenced old (referenced_clear (prepNewPage_referenced allocated) earlier)
  constructor
  · intro agree
    refine ⟨fun earlier later split found old => ?_, fun earlier between reclaimMode referencedPtes
      vmFlags later split clears noAccess noCheck => ?_⟩
    · by_contra young
      exact never earlier old
        ((agree.smaps earlier later split found old).mpr ((regardsAccessed_iff _ _).mpr young))
    · by_contra young
      exact agree.clearRefs earlier between reclaimMode referencedPtes vmFlags later split clears
        noAccess noCheck ((regardsAccessed_iff _ _).mpr young)
  · rintro ⟨atSmaps, atCheck⟩
    refine ⟨fun earlier later split found old => ?_, fun earlier between reclaimMode referencedPtes
      vmFlags later split clears noAccess noCheck regards => ?_⟩
    · refine iff_of_false (never earlier old) fun regards => ?_
      exact (regardsAccessed_iff _ _).mp regards (atSmaps earlier later split found old)
    · exact (regardsAccessed_iff _ _).mp regards
        (atCheck earlier between reclaimMode referencedPtes vmFlags later split clears noAccess noCheck)

/-- A page on the free list. -/
def freePage : Page where
  flags := fun _ => false
  mapping := .null
  mapcount := 0
  count := 0
  pgReferenced := 0

/-- The page as `prep_new_page` hands it out. -/
def newPage : Page := { freePage with count := 1 }

/-- A page that a scan has counted since its access: smaps and the replacement code both say that it
    was not referenced, also after clear_refs. -/
theorem records_agree_aged :
    prepNewPage freePage = some newPage ∧
      RecordsAgree ⟨newPage, .present false false true⟩
        [.access, .visit 0 0, .smaps, .clearRefs, .check 0 0 0] := by
  have allocated : prepNewPage freePage = some newPage := by
    rw [prepNewPage, if_neg (by decide)]
    rfl
  refine ⟨allocated, (records_agree_iff allocated _ _).mpr ⟨?_, ?_⟩⟩
  · intro earlier later split _ _ _
    have scanned : earlier = [.access, .visit 0 0] ∧
        later = [.clearRefs, .check 0 0 0] := by
      simpa [List.cons_eq_append_iff, RecordEvent.access, RecordEvent.visit,
        RecordEvent.check] using split
    rw [scanned.1]
    decide
  · intro earlier between reclaimMode referencedPtes vmFlags later split _ _ _ _
    have scanned : earlier = [.access, .visit 0 0, .smaps] ∧
        between ++ .check reclaimMode referencedPtes vmFlags :: later = [.check 0 0 0] := by
      simpa [List.cons_eq_append_iff, RecordEvent.access, RecordEvent.visit,
        RecordEvent.check] using split
    have lengths := congrArg List.length scanned.2
    have adjacent : between = [] := by
      apply List.eq_nil_of_length_eq_zero
      simp at lengths
      omega
    rw [scanned.1, adjacent]
    decide

/-- A page that was just marked as accessed: smaps does not count it as referenced, and after
    clear_refs `page_check_references` still regards it as accessed. -/
theorem records_disagree :
    ¬ RecordsAgree ⟨newPage, .present false false true⟩ [.access, .smaps] ∧
      ¬ RecordsAgree ⟨newPage, .present true false true⟩ [.access, .clearRefs, .check 0 0 0] := by
  constructor
  · intro agree
    have counts := (agree.smaps [.access] [] rfl rfl rfl).mpr ⟨List.mem_singleton_self _, rfl⟩
    exact absurd (counts ⟨0, 0, 0, 0, 0, 0, 0, 0, 0, 0⟩) (by decide)
  · intro agree
    exact agree.clearRefs [.access] [] 0 0 0 [] rfl rfl List.not_mem_nil
      (fun _ _ _ => List.not_mem_nil) ⟨List.mem_cons_self, rfl⟩

end KernelHacking.PageReplacement
