/-
Module: KernelHacking.Proofs.ActiveList
Layer: Proofs
Purpose: What `shrink_active_list` does to the lists of a zone, loop by loop. Isolation takes a sublist of
  the active list and leaves the rest (`isolateLruPages_spec`); the loop body sorts it into three lists
  without changing the order (`sortPages_eq`); each list goes to the head of its destination
  (`moveActivePagesToLru_eq`). Together: a call loses no page, leaves flags and counters consistent with
  the lists, and keeps the order of the pages it puts back (`shrinkActiveList_keeps_pages`).
Imports: Mathlib.Data.List.Perm.Basic, Mathlib.Data.List.Count, KernelHacking.Model.ActiveList,
  KernelHacking.Proofs.Activation
Trusted boundary: none (fully proved)
Main exports: isolateLruPages_spec, sortPages_eq, moveActivePagesToLru_eq, Zone.Consistent,
  shrinkActiveList_eq, shrinkActiveList_keeps_pages
Open obligations: none
-/
import Mathlib.Data.List.Perm.Basic
import Mathlib.Data.List.Count
import KernelHacking.Model.ActiveList
import KernelHacking.Proofs.Activation

namespace KernelHacking.PageReplacement

theorem basePages_cons (page : LruPage) (rest : List LruPage) :
    basePages (page :: rest) = page.nrPages + basePages rest := rfl

theorem basePages_append (first second : List LruPage) :
    basePages (first ++ second) = basePages first + basePages second := by
  induction first with
  | nil => exact (Nat.zero_add _).symm
  | cons page rest inductionHypothesis =>
      rw [List.cons_append, basePages_cons, basePages_cons, inductionHypothesis, Nat.add_assoc]

/-- What keeps the sizes of the pages keeps their number of base pages. -/
theorem basePages_map {change : LruPage → LruPage} (keeps : ∀ page, (change page).nrPages = page.nrPages)
    (pages : List LruPage) : basePages (pages.map change) = basePages pages := by
  induction pages with
  | nil => rfl
  | cons page rest inductionHypothesis =>
      rw [List.map_cons, basePages_cons, basePages_cons, keeps, inductionHypothesis]

/-- The pages that satisfy a condition and those that do not make up the list. -/
theorem basePages_filter (condition : LruPage → Bool) (pages : List LruPage) :
    basePages pages =
      basePages (pages.filter condition) + basePages (pages.filter fun page => !condition page) := by
  induction pages with
  | nil => rfl
  | cons page rest inductionHypothesis =>
      cases holds : condition page with
      | true =>
          simp only [List.filter_cons, holds, if_true, Bool.not_true, Bool.false_eq_true, if_false,
            basePages_cons]
          omega
      | false =>
          simp only [List.filter_cons, holds, if_true, Bool.not_false, Bool.false_eq_true, if_false,
            basePages_cons]
          omega

/-! ### Isolation -/

/-- The page once it is isolated. -/
def LruPage.grab (page : LruPage) : LruPage :=
  { page with page := { page.page.setFlag .lru false with count := page.page.count + 1 } }

/-- A page is isolated in one way. -/
theorem isolateLruPage_isolated {mode : ULong} {file migratable : Bool} {page taken : Page}
    (isolated : isolateLruPage mode file migratable page = .isolated taken) :
    taken = { page.setFlag .lru false with count := page.count + 1 } ∧ page.count ≠ 0 := by
  unfold isolateLruPage at isolated
  repeat' split at isolated
  all_goals cases isolated
  rename_i referenced
  exact ⟨rfl, referenced⟩

section Isolate

variable {mode : ULong} {file : Bool} {tests : Nat → PageTests}

/-- The page can be isolated. -/
def Isolable (mode : ULong) (file : Bool) (tests : Nat → PageTests) (page : LruPage) : Prop :=
  ∃ taken, isolateLruPage mode file (tests page.pfn).migratable page.page = .isolated taken

/-- The loop of `isolate_lru_pages` takes pages of the list in their order and leaves the others. Pages
    that are busy go round to the head and are not taken however often they come up. -/
theorem isolateLruPages_spec (left : Nat) (state : Isolation)
    (valid : ∀ page ∈ state.src,
      isolateLruPage mode file (tests page.pfn).migratable page.page ≠ .invalid) :
    ∃ after taken, isolateLruPages mode file tests left state = some after ∧
      taken.Sublist state.src ∧ (after.src ++ taken).Perm state.src ∧
      (∀ page ∈ taken, Isolable mode file tests page) ∧
      after.dst = taken.map LruPage.grab ++ state.dst ∧
      after.nrTaken = state.nrTaken + basePages taken := by
  induction left generalizing state with
  | zero => exact ⟨state, [], rfl, List.nil_sublist _, by simp, by simp, rfl, rfl⟩
  | succ left inductionHypothesis =>
      obtain ⟨src, dst, nrTaken, nrScanned⟩ := state
      rcases List.eq_nil_or_concat src with rfl | ⟨rest, page, rfl⟩
      · exact ⟨_, [], rfl, List.nil_sublist _, by simp, by simp, rfl, rfl⟩
      rw [List.concat_eq_append] at valid ⊢
      dsimp only at valid ⊢
      have restValid : ∀ other ∈ rest,
          isolateLruPage mode file (tests other.pfn).migratable other.page ≠ .invalid :=
        fun other listed => valid other (List.mem_append_left _ listed)
      have pageValid := valid page (List.mem_append_right _ List.mem_cons_self)
      cases result : isolateLruPage mode file (tests page.pfn).migratable page.page with
      | invalid => exact absurd result pageValid
      | isolated moved =>
          obtain ⟨rfl, _⟩ := isolateLruPage_isolated result
          obtain ⟨after, taken, done, sub, perm, isolable, isDst, isTaken⟩ := inductionHypothesis
            ⟨rest, page.grab :: dst, nrTaken + page.nrPages, nrScanned + 1⟩ restValid
          refine ⟨after, taken ++ [page], ?_, sub.append_right _, ?_, ?_, ?_, ?_⟩
          · simp only [isolateLruPages, List.getLast?_append, List.getLast?_singleton, Option.some_or,
              result, List.dropLast_concat]
            exact done
          · rw [← List.append_assoc]
            exact perm.append_right _
          · intro other listed
            rcases List.mem_append.mp listed with before | last
            · exact isolable other before
            · rw [List.mem_singleton.mp last]
              exact ⟨_, result⟩
          · rw [isDst, List.map_append, List.append_assoc]
            rfl
          · rw [isTaken, basePages_append, basePages_cons]
            simp only [basePages]
            omega
      | busy =>
          have rotatedValid : ∀ other ∈ page :: rest,
              isolateLruPage mode file (tests other.pfn).migratable other.page ≠ .invalid := by
            intro other listed
            rcases List.mem_cons.mp listed with rfl | inRest
            · exact pageValid
            · exact restValid other inRest
          obtain ⟨after, taken, done, sub, perm, isolable, isDst, isTaken⟩ := inductionHypothesis
            ⟨page :: rest, dst, nrTaken, nrScanned + 1⟩ rotatedValid
          have subRest : taken.Sublist rest := by
            rcases List.sublist_cons_iff.mp sub with inRest | ⟨others, rfl, _⟩
            · exact inRest
            · obtain ⟨moved, isolated⟩ := isolable page List.mem_cons_self
              rw [result] at isolated
              cases isolated
          refine ⟨after, taken, ?_, subRest.trans (List.sublist_append_left _ _), ?_, isolable, isDst,
            isTaken⟩
          · simp only [isolateLruPages, List.getLast?_append, List.getLast?_singleton, Option.some_or,
              result, List.dropLast_concat]
            exact done
          · exact perm.trans (List.perm_append_singleton page rest).symm

end Isolate

/-! ### Sorting -/

section Sorting

variable (tests : Nat → PageTests)

/-- The decision of the loop about a page. -/
def verdict (held : LruPage) : Visit := (visitPage tests held).1

/-- The page behind the loop. -/
def visited (held : LruPage) : LruPage := (visitPage tests held).2

/-- The page counts as rotated. -/
def rotates (held : LruPage) : Bool :=
  decide ((tests held.pfn).evictable = true ∧ (tests held.pfn).referenced ≠ 0)

/-- The loop of `shrink_active_list` sorts the pages by its decisions, in their order. -/
theorem sortPages_eq (hold : List LruPage) :
    sortPages tests hold =
      { active := (hold.filter fun held => (verdict tests held).stays).map (visited tests)
        inactive := (hold.filter fun held => decide (verdict tests held = .deactivated)).map
          (visited tests)
        culled := (hold.filter fun held => decide (verdict tests held = .culled)).map (visited tests)
        nrRotated := basePages (hold.filter (rotates tests)) } := by
  induction hold with
  | nil => rfl
  | cons held rest inductionHypothesis =>
      have counted : basePages ((held :: rest).filter (rotates tests)) =
          basePages (rest.filter (rotates tests)) +
            if (tests held.pfn).evictable = true ∧ (tests held.pfn).referenced ≠ 0 then held.nrPages
            else 0 := by
        by_cases rotated : (tests held.pfn).evictable = true ∧ (tests held.pfn).referenced ≠ 0
        · have isRotated : rotates tests held = true := decide_eq_true rotated
          rw [List.filter_cons_of_pos isRotated, if_pos rotated, basePages_cons, Nat.add_comm]
        · have notRotated : ¬ rotates tests held = true := mt of_decide_eq_true rotated
          rw [List.filter_cons_of_neg notRotated, if_neg rotated, Nat.add_zero]
      have unfolded : sortPages tests (held :: rest) = sortPage tests held (sortPages tests rest) := rfl
      have same : (visitPage tests held).1 = verdict tests held := rfl
      rw [unfolded, inductionHypothesis, counted]
      cases decision : verdict tests held with
      | culled => simp [sortPage, same, decision, visited]
      | keptExec => simp [sortPage, same, decision, visited]
      | kept => simp [sortPage, same, decision, visited]
      | deactivated => simp [sortPage, same, decision, visited]

/-- Releasing buffers touches no flag but that of the buffers. -/
theorem releaseBuffers_flags (releases : Bool) (page : Page) {flag : PageFlag}
    (other : flag ≠ .private_) : (releaseBuffers releases page).flags flag = page.flags flag := by
  rw [releaseBuffers]
  split
  · exact Function.update_of_ne other _ _
  · rfl

theorem releaseBuffers_pgReferenced (releases : Bool) (page : Page) :
    (releaseBuffers releases page).pgReferenced = page.pgReferenced := by
  rw [releaseBuffers]
  split <;> rfl

/-- What the loop can do to a page. A page that is not evictable is culled. Of the flags of any other
    page at most those of its buffers change, and `PG_active` if the page is deactivated. -/
theorem visitPage_cases (held : LruPage) :
    ((tests held.pfn).evictable = false ∧ verdict tests held = .culled ∧
      visited tests held =
        { held with page := { putbackLruPage held.page with count := held.page.count - 1 } }) ∨
    ((tests held.pfn).evictable = true ∧ (verdict tests held).stays = true ∧
      ∃ page, visited tests held = { held with page := page } ∧
        ∀ flag, flag ≠ .private_ → page.flags flag = held.page.flags flag) ∨
    ((tests held.pfn).evictable = true ∧ verdict tests held = .deactivated ∧
      ∃ page, visited tests held = { held with page := page } ∧ page.flags .active = false ∧
        ∀ flag, flag ≠ .private_ → flag ≠ .active → page.flags flag = held.page.flags flag) := by
  cases evictable : (tests held.pfn).evictable with
  | false => exact .inl ⟨rfl, by simp [verdict, visitPage, evictable, shrinkActiveListPage],
      by simp [visited, visitPage, evictable, shrinkActiveListPage, putbackLruPage, Page.setFlag]⟩
  | true =>
      have keeps : ∀ flag, flag ≠ .private_ →
          (releaseBuffers (tests held.pfn).releases held.page).flags flag = held.page.flags flag :=
        fun flag other => releaseBuffers_flags _ _ other
      -- the three ways through the loop body for an evictable page
      simp only [verdict, visited, visitPage, evictable, if_true, shrinkActiveListPage, Bool.not_true,
        Bool.false_eq_true, if_false]
      split
      · exact .inr (.inl ⟨trivial, rfl, _, rfl, keeps⟩)
      · split
        · exact .inr (.inl ⟨trivial, rfl, _, rfl, keeps⟩)
        · refine .inr (.inr ⟨trivial, rfl, _, rfl, ?_, fun flag other notActive => ?_⟩)
          · simp [Page.setFlag]
          · exact (Function.update_of_ne notActive _ _).trans (keeps flag other)

end Sorting

/-! ### Moving back -/

section Moving

variable (lru : LruList)

/-- Putting the page back drops its last reference. -/
def LruPage.dies (moved : LruPage) : Bool := decide (moved.putBack.page.count = 0)

/-- The page as it is freed. -/
def LruPage.free (moved : LruPage) : LruPage :=
  { moved with page := (moved.putBack.page.setFlag .lru false).setFlag .active false }

/-- The pages of the list that go back to a list of the zone. -/
def putBackPages (pages : List LruPage) : List LruPage :=
  (pages.filter fun moved => !moved.dies).map LruPage.putBack

theorem basePages_putBackPages (pages : List LruPage) :
    basePages (putBackPages pages) = basePages (pages.filter fun moved => !moved.dies) := by
  have keeps : ∀ moved : LruPage, moved.putBack.nrPages = moved.nrPages := fun _ => rfl
  rw [putBackPages, basePages_map keeps]

/-- The zone with pages added to the head of a list, and counted. -/
def Zone.grow (zone : Zone) (lru : LruList) (pages : List LruPage) : Zone :=
  { zone with
    lists := Function.update zone.lists lru (pages ++ zone.lists lru)
    nrLru := Function.update zone.nrLru lru (zone.nrLru lru + basePages pages) }

/-- The loop of `move_active_pages_to_lru`: the pages go to the head of the list in their order, except
    those that are freed. -/
theorem foldr_movePage (list : List LruPage) (zone : Zone) (pagesToFree : List LruPage) :
    list.foldr (movePage lru) (zone, pagesToFree) =
      ({ zone with
          lists := Function.update zone.lists lru
            ((list.filter fun moved => !moved.dies).map LruPage.putBack ++ zone.lists lru)
          nrLru := Function.update zone.nrLru lru
            (zone.nrLru lru - basePages (list.filter LruPage.dies)) },
        (list.filter LruPage.dies).map LruPage.free ++ pagesToFree) := by
  induction list with
  | nil => simp [basePages]
  | cons moved rest inductionHypothesis =>
      rw [List.foldr_cons, inductionHypothesis]
      by_cases dies : moved.putBack.page.count = 0
      · have isDead : moved.dies = true := decide_eq_true dies
        have dead : (moved :: rest).filter LruPage.dies = moved :: rest.filter LruPage.dies :=
          List.filter_cons_of_pos isDead
        have alive : ((moved :: rest).filter fun page => !page.dies) =
            rest.filter fun page => !page.dies :=
          List.filter_cons_of_neg (by rw [isDead]; decide)
        have less : zone.nrLru lru - basePages (rest.filter LruPage.dies) + -(moved.nrPages : Int) =
            zone.nrLru lru - (moved.nrPages + basePages (rest.filter LruPage.dies) : Nat) := by
          omega
        rw [dead, alive, basePages_cons, ← less]
        simp [movePage, dies, Zone.modLru, LruPage.free]
      · have isAlive : moved.dies = false := decide_eq_false dies
        have dead : (moved :: rest).filter LruPage.dies = rest.filter LruPage.dies :=
          List.filter_cons_of_neg (by rw [isAlive]; decide)
        have alive : ((moved :: rest).filter fun page => !page.dies) =
            moved :: rest.filter fun page => !page.dies :=
          List.filter_cons_of_pos (by rw [isAlive]; rfl)
        rw [dead, alive]
        simp [movePage, dies, Zone.listAdd]

/-- `move_active_pages_to_lru`: the list grows by the pages that are not freed, and so does its counter. -/
theorem moveActivePagesToLru_eq (list : List LruPage) (zone : Zone) (pagesToFree : List LruPage) :
    moveActivePagesToLru list lru (zone, pagesToFree) =
      (zone.grow lru (putBackPages list), (list.filter LruPage.dies).map LruPage.free ++
        pagesToFree) := by
  have split := basePages_filter LruPage.dies list
  have grown : zone.nrLru lru - basePages (list.filter LruPage.dies) + basePages list =
      zone.nrLru lru + basePages (list.filter fun moved => !moved.dies) := by
    omega
  simp [moveActivePagesToLru, foldr_movePage, Zone.modLru, grown, Zone.grow, basePages_putBackPages]
  rfl

end Moving

/-- Culling adds the pages to the unevictable list. -/
theorem Zone.cull_eq (zone : Zone) (culled : List LruPage) :
    zone.cull culled = zone.grow .unevictable culled := by
  induction culled with
  | nil => simp [Zone.cull, Zone.grow, basePages]
  | cons page rest inductionHypothesis =>
      have unfolded : zone.cull (page :: rest) =
          ((zone.cull rest).listAdd .unevictable page).modLru .unevictable page.nrPages := rfl
      have more : zone.nrLru .unevictable + basePages rest + (page.nrPages : Int) =
          zone.nrLru .unevictable + basePages (page :: rest) := by
        rw [basePages_cons]
        omega
      rw [unfolded, inductionHypothesis]
      simp [Zone.listAdd, Zone.modLru, Zone.grow, more]

/-! ### One call -/

theorem LruList.active_ne_inactive (file : Bool) : LruList.active file ≠ .inactive file := by
  cases file <;> decide

theorem LruList.active_ne_unevictable (file : Bool) : LruList.active file ≠ .unevictable := by
  cases file <;> decide

theorem LruList.inactive_ne_unevictable (file : Bool) : LruList.inactive file ≠ .unevictable := by
  cases file <;> decide

/-- What a call of `shrink_active_list` does to the zone, given the pages it isolated and how it sorted
    them. -/
structure Shrunk (zone : Zone) (file : Bool) (isolation : Isolation) (sorting : Sorting) (after : Zone)
    (freed : List LruPage) : Prop where
  active : after.lists (.active file) = putBackPages sorting.active ++ isolation.src
  inactive : after.lists (.inactive file) =
    putBackPages sorting.inactive ++ zone.lists (.inactive file)
  unevictable : after.lists .unevictable = sorting.culled ++ zone.lists .unevictable
  other : ∀ lru, lru ≠ .active file → lru ≠ .inactive file → lru ≠ .unevictable →
    after.lists lru = zone.lists lru ∧ after.nrLru lru = zone.nrLru lru
  nrActive : after.nrLru (.active file) =
    zone.nrLru (.active file) - isolation.nrTaken + basePages (putBackPages sorting.active)
  nrInactive : after.nrLru (.inactive file) =
    zone.nrLru (.inactive file) + basePages (putBackPages sorting.inactive)
  nrUnevictable : after.nrLru .unevictable = zone.nrLru .unevictable + basePages sorting.culled
  nrIsolated : after.nrIsolated = zone.nrIsolated
  rotated : after.recentRotated =
    Function.update zone.recentRotated file (zone.recentRotated file + sorting.nrRotated)
  freed : freed = (sorting.inactive.filter LruPage.dies).map LruPage.free ++
    (sorting.active.filter LruPage.dies).map LruPage.free

/-- A call that isolates pages without hitting `BUG()` goes through. -/
theorem shrinkActiveList_shrunk {nrToScan : Nat} {sc : ScanControl} {file : Bool}
    {tests : Nat → PageTests} {zone : Zone} {isolation : Isolation}
    (isolates : isolateActivePages nrToScan sc file tests zone = some isolation) :
    ∃ after freed, shrinkActiveList nrToScan sc file tests zone = some (after, freed) ∧
      Shrunk zone file isolation (sortPages tests isolation.dst) after freed := by
  have inactive := (LruList.active_ne_inactive file).symm
  have unevictable := (LruList.active_ne_unevictable file).symm
  have unevictable' := (LruList.inactive_ne_unevictable file).symm
  let sorting := sortPages tests isolation.dst
  let held := (zone.isolate file isolation).grow .unevictable sorting.culled
  let rotated := { held with
    recentRotated := Function.update held.recentRotated file
      (held.recentRotated file + sorting.nrRotated) }
  let grown := (rotated.grow (.active file) (putBackPages sorting.active)).grow (.inactive file)
    (putBackPages sorting.inactive)
  have done : shrinkActiveList nrToScan sc file tests zone =
      some (grown.modIsolated file (-isolation.nrTaken),
        (sorting.inactive.filter LruPage.dies).map LruPage.free ++
          (sorting.active.filter LruPage.dies).map LruPage.free) := by
    rw [shrinkActiveList, isolates]
    simp only [Option.map_some, Zone.cull_eq, Zone.putBack, moveActivePagesToLru_eq, List.append_nil]
    rfl
  refine ⟨_, _, done, ?_⟩
  simp only [grown, rotated, held, Zone.grow, Zone.modIsolated, Zone.isolate, Zone.modLru]
  constructor
  case other =>
    intro lru notActive notInactive notUnevictable
    simp only [Function.update_of_ne notActive, Function.update_of_ne notInactive,
      Function.update_of_ne notUnevictable, and_self]
  case nrIsolated =>
    funext other
    by_cases same : other = file
    · subst same
      simp only [Function.update_self]
      exact Int.add_neg_cancel_right _ _
    · simp only [Function.update_of_ne same]
  -- the three lists are different ones, so each update is seen at its own list only
  all_goals simp only [sorting, Int.sub_eq_add_neg, Function.update_self, Function.update_of_ne inactive,
    Function.update_of_ne inactive.symm, Function.update_of_ne unevictable,
    Function.update_of_ne unevictable.symm, Function.update_of_ne unevictable',
    Function.update_of_ne unevictable'.symm]

/-! ### Pages and their lists -/

/-- The page belongs on the list: it is a page of order 0, marked as listed, and its flags name the
    list. -/
def LruPage.BelongsOn (held : LruPage) (lru : LruList) : Prop :=
  held.nrPages = 1 ∧ held.page.flags .lru = true ∧ pageLru held.page = lru

theorem pageLru_eq_active_iff {page : Page} {file : Bool} :
    pageLru page = .active file ↔
      page.flags .unevictable = false ∧ page.flags .active = true ∧ page.isFileCache = file := by
  unfold pageLru
  cases page.flags .unevictable <;> cases page.flags .active <;> cases page.isFileCache <;> cases file <;>
    decide

theorem pageLru_eq_inactive_iff {page : Page} {file : Bool} :
    pageLru page = .inactive file ↔
      page.flags .unevictable = false ∧ page.flags .active = false ∧ page.isFileCache = file := by
  unfold pageLru
  cases page.flags .unevictable <;> cases page.flags .active <;> cases page.isFileCache <;> cases file <;>
    decide

/-- `__isolate_lru_page` finds nothing wrong with a page of the active list. -/
theorem isolateLruPage_valid {sc : ScanControl} {file migratable : Bool} {held : LruPage}
    (belongs : held.BelongsOn (.active file)) :
    isolateLruPage sc.isolateMode file migratable held.page ≠ .invalid := by
  obtain ⟨_, listed, lists⟩ := belongs
  obtain ⟨evictable, active, isFile⟩ := pageLru_eq_active_iff.mp lists
  have asked : decide (sc.isolateMode &&& ISOLATE_ACTIVE ≠ 0) = true := by
    obtain ⟨mayUnmap, mayWritepage⟩ := sc
    cases mayUnmap <;> cases mayWritepage <;> decide
  rw [isolateLruPage, if_neg (by simp [listed]), if_neg (by simp only [asked, active]; simp),
    if_neg (by simp [isFile]), if_neg (by simp [evictable])]
  repeat' split
  all_goals exact IsolateResult.noConfusion

theorem visited_pfn (tests : Nat → PageTests) (held : LruPage) : (visited tests held).pfn = held.pfn :=
  rfl

theorem visited_nrPages (tests : Nat → PageTests) (held : LruPage) :
    (visited tests held).nrPages = held.nrPages :=
  rfl

section Belongs

variable {tests : Nat → PageTests} {file : Bool} {held : LruPage}

/-- A page that stays active belongs on the active list again once it is put back. -/
theorem belongsOn_of_stays (belongs : held.BelongsOn (.active file))
    (stays : (verdict tests held.grab).stays = true) :
    (visited tests held.grab).putBack.BelongsOn (.active file) := by
  obtain ⟨order, _, lists⟩ := belongs
  obtain ⟨evictable, active, isFile⟩ := pageLru_eq_active_iff.mp lists
  rcases visitPage_cases tests held.grab with
    ⟨_, culled, _⟩ | ⟨_, _, page, isVisited, flags⟩ | ⟨_, deactivated, _⟩
  · rw [culled] at stays
    cases stays
  · refine ⟨order, by simp [LruPage.putBack, Page.setFlag], pageLru_eq_active_iff.mpr ?_⟩
    rw [isVisited]
    refine ⟨?_, ?_, ?_⟩
    · simpa [LruPage.putBack, Page.setFlag, flags, LruPage.grab] using evictable
    · simpa [LruPage.putBack, Page.setFlag, flags, LruPage.grab] using active
    · simpa [LruPage.putBack, Page.setFlag, flags, LruPage.grab, Page.isFileCache] using isFile
  · rw [deactivated] at stays
    cases stays

/-- A page that is deactivated belongs on the inactive list once it is put back. -/
theorem belongsOn_of_deactivated (belongs : held.BelongsOn (.active file))
    (deactivated : verdict tests held.grab = .deactivated) :
    (visited tests held.grab).putBack.BelongsOn (.inactive file) := by
  obtain ⟨order, _, lists⟩ := belongs
  obtain ⟨evictable, _, isFile⟩ := pageLru_eq_active_iff.mp lists
  rcases visitPage_cases tests held.grab with
    ⟨_, culled, _⟩ | ⟨_, stays, _⟩ | ⟨_, _, page, isVisited, inactive, flags⟩
  · rw [culled] at deactivated
    cases deactivated
  · rw [deactivated] at stays
    cases stays
  · refine ⟨order, by simp [LruPage.putBack, Page.setFlag], pageLru_eq_inactive_iff.mpr ?_⟩
    rw [isVisited]
    refine ⟨?_, ?_, ?_⟩
    · simpa [LruPage.putBack, Page.setFlag, flags, LruPage.grab] using evictable
    · simpa [LruPage.putBack, Page.setFlag] using inactive
    · simpa [LruPage.putBack, Page.setFlag, flags, LruPage.grab, Page.isFileCache] using isFile

/-- A page that is culled belongs on the unevictable list. -/
theorem belongsOn_of_culled (belongs : held.BelongsOn (.active file))
    (culled : verdict tests held.grab = .culled) :
    (visited tests held.grab).BelongsOn .unevictable := by
  obtain ⟨order, _, _⟩ := belongs
  rcases visitPage_cases tests held.grab with
    ⟨_, _, isVisited⟩ | ⟨_, stays, _⟩ | ⟨_, deactivated, _⟩
  · rw [isVisited]
    exact ⟨order, by simp [putbackLruPage, Page.setFlag], by simp [pageLru, putbackLruPage, Page.setFlag]⟩
  · rw [culled] at stays
    cases stays
  · rw [culled] at deactivated
    cases deactivated

end Belongs

/-! ### No page is lost -/

/-- The lists of a zone. -/
def LruList.all : List LruList := [.inactiveAnon, .activeAnon, .inactiveFile, .activeFile, .unevictable]

/-- The pages on the lists of a zone. -/
def Zone.pfns (zone : Zone) : List Nat :=
  LruList.all.flatMap fun lru => (zone.lists lru).map LruPage.pfn

/-- The lists hold distinct pages of order 0, each on the list that its flags and its type name, and the
    counters are the lengths of the lists. -/
structure Zone.Consistent (zone : Zone) : Prop where
  distinct : zone.pfns.Nodup
  listed : ∀ lru, ∀ held ∈ zone.lists lru, held.BelongsOn lru
  counted : ∀ lru, zone.nrLru lru = (zone.lists lru).length

theorem basePages_eq_length {pages : List LruPage} (order : ∀ held ∈ pages, held.nrPages = 1) :
    basePages pages = pages.length := by
  induction pages with
  | nil => rfl
  | cons held rest inductionHypothesis =>
      rw [basePages_cons, order held List.mem_cons_self,
        inductionHypothesis fun other listed => order other (List.mem_cons_of_mem _ listed),
        List.length_cons, Nat.add_comm]

/-- Sorting loses no page. -/
theorem sortPages_perm (tests : Nat → PageTests) (hold : List LruPage) :
    (((sortPages tests hold).active ++ ((sortPages tests hold).inactive ++
      (sortPages tests hold).culled)).map LruPage.pfn).Perm (hold.map LruPage.pfn) := by
  rw [sortPages_eq]
  induction hold with
  | nil => exact .refl _
  | cons held rest inductionHypothesis =>
      simp only [List.map_append, List.map_map, List.map_cons] at inductionHypothesis ⊢
      cases decision : verdict tests held with
      | keptExec => simpa [decision, visited_pfn] using inductionHypothesis.cons held.pfn
      | kept => simpa [decision, visited_pfn] using inductionHypothesis.cons held.pfn
      | deactivated =>
          simp only [List.filter_cons, decision, Visit.stays_deactivated, Bool.false_eq_true, if_false,
            decide_true, if_true, reduceCtorEq, decide_false, List.map_cons, Function.comp_apply,
            visited_pfn, List.cons_append]
          exact List.perm_middle.trans (inductionHypothesis.cons held.pfn)
      | culled =>
          simp only [List.filter_cons, decision, Visit.stays_culled, Bool.false_eq_true, if_false,
            decide_true, if_true, reduceCtorEq, decide_false, List.map_cons, Function.comp_apply,
            visited_pfn]
          rw [← List.append_assoc] at inductionHypothesis ⊢
          exact List.perm_middle.trans (inductionHypothesis.cons held.pfn)

/-- Sorting keeps the order of the pages that stay active. -/
theorem sortPages_active_sublist (tests : Nat → PageTests) (hold : List LruPage) :
    ((sortPages tests hold).active.map LruPage.pfn).Sublist (hold.map LruPage.pfn) := by
  rw [sortPages_eq, List.map_map]
  exact List.filter_sublist.map LruPage.pfn

/-- Sorting keeps the order of the pages that are deactivated. -/
theorem sortPages_inactive_sublist (tests : Nat → PageTests) (hold : List LruPage) :
    ((sortPages tests hold).inactive.map LruPage.pfn).Sublist (hold.map LruPage.pfn) := by
  rw [sortPages_eq, List.map_map]
  exact List.filter_sublist.map LruPage.pfn

/-- The pages of a zone, by the two lists of the type that is scanned, the unevictable list and the two
    lists of the other type. -/
theorem Zone.count_pfns (zone : Zone) (file : Bool) (pfn : Nat) :
    zone.pfns.count pfn =
      ((zone.lists (.active file)).map LruPage.pfn).count pfn +
      ((zone.lists (.inactive file)).map LruPage.pfn).count pfn +
      ((zone.lists .unevictable).map LruPage.pfn).count pfn +
      (((zone.lists (.active !file)).map LruPage.pfn).count pfn +
        ((zone.lists (.inactive !file)).map LruPage.pfn).count pfn) := by
  cases file <;> simp [Zone.pfns, LruList.all, LruList.active, LruList.inactive, List.count_append] <;>
    omega

section Call

variable {tests : Nat → PageTests} {file : Bool} {zone after : Zone} {isolation : Isolation}
  {taken : List LruPage}

/-- The pages a call puts back or frees are those it is given. -/
theorem count_putBackPages (pages : List LruPage) (pfn : Nat) :
    ((putBackPages pages).map LruPage.pfn).count pfn +
        (((pages.filter LruPage.dies).map LruPage.free).map LruPage.pfn).count pfn =
      (pages.map LruPage.pfn).count pfn := by
  have putBack : LruPage.pfn ∘ LruPage.putBack = LruPage.pfn := rfl
  have freed : LruPage.pfn ∘ LruPage.free = LruPage.pfn := rfl
  rw [putBackPages, List.map_map, List.map_map, putBack, freed, ← List.count_append, ← List.map_append]
  refine (List.Perm.map LruPage.pfn ?_).count_eq pfn
  exact (List.perm_append_comm).trans (List.filter_append_perm LruPage.dies pages)

/-- The pages a call finds on the lists are those it leaves there and those it frees. -/
theorem Shrunk.pfns_freed_perm {freed : List LruPage}
    (shrunk : Shrunk zone file isolation (sortPages tests isolation.dst) after freed)
    (perm : (isolation.src ++ taken).Perm (zone.lists (.active file)))
    (isDst : isolation.dst = taken.map LruPage.grab) :
    (after.pfns ++ freed.map LruPage.pfn).Perm zone.pfns := by
  have grabbed : isolation.dst.map LruPage.pfn = taken.map LruPage.pfn := by
    rw [isDst, List.map_map]
    rfl
  have otherActive := (shrunk.other (.active !file) (by cases file <;> decide)
    (by cases file <;> decide) (by cases file <;> decide)).1
  have otherInactive := (shrunk.other (.inactive !file) (by cases file <;> decide)
    (by cases file <;> decide) (by cases file <;> decide)).1
  refine List.perm_iff_count.mpr fun pfn => ?_
  have isolated := (perm.map LruPage.pfn).count_eq pfn
  have sorted := (sortPages_perm tests isolation.dst).count_eq pfn
  have active := count_putBackPages (sortPages tests isolation.dst).active pfn
  have inactive := count_putBackPages (sortPages tests isolation.dst).inactive pfn
  rw [grabbed] at sorted
  rw [List.count_append, after.count_pfns file, zone.count_pfns file, shrunk.active, shrunk.inactive,
    shrunk.unevictable, otherActive, otherInactive, shrunk.freed]
  simp only [List.map_append, List.count_append] at isolated sorted ⊢
  omega

/-- The pages a call finds on the lists are those it leaves there. -/
theorem Shrunk.pfns_perm
    (shrunk : Shrunk zone file isolation (sortPages tests isolation.dst) after [])
    (perm : (isolation.src ++ taken).Perm (zone.lists (.active file)))
    (isDst : isolation.dst = taken.map LruPage.grab) : after.pfns.Perm zone.pfns := by
  simpa using shrunk.pfns_freed_perm perm isDst

/-- The lists of a call: each page belongs where it is. -/
theorem Shrunk.belongsOn (consistent : zone.Consistent) {freed : List LruPage}
    (shrunk : Shrunk zone file isolation (sortPages tests isolation.dst) after freed)
    (perm : (isolation.src ++ taken).Perm (zone.lists (.active file)))
    (isDst : isolation.dst = taken.map LruPage.grab) (lru : LruList) (held : LruPage)
    (listed : held ∈ after.lists lru) : held.BelongsOn lru := by
  have wasActive : ∀ page ∈ taken, page.BelongsOn (.active file) := fun page isTaken =>
    consistent.listed _ page (perm.subset (List.mem_append_right _ isTaken))
  by_cases isActive : lru = .active file
  · subst isActive
    rw [shrunk.active, putBackPages, sortPages_eq, isDst] at listed
    rcases List.mem_append.mp listed with putBack | stayed
    · simp only [List.mem_map, List.mem_filter] at putBack
      obtain ⟨_, ⟨⟨_, ⟨⟨page, isTaken, rfl⟩, stays⟩, rfl⟩, _⟩, rfl⟩ := putBack
      exact belongsOn_of_stays (wasActive page isTaken) stays
    · exact consistent.listed _ held (perm.subset (List.mem_append_left _ stayed))
  by_cases isInactive : lru = .inactive file
  · subst isInactive
    rw [shrunk.inactive, putBackPages, sortPages_eq, isDst] at listed
    rcases List.mem_append.mp listed with moved | before
    · simp only [List.mem_map, List.mem_filter] at moved
      obtain ⟨_, ⟨⟨_, ⟨⟨page, isTaken, rfl⟩, deactivated⟩, rfl⟩, _⟩, rfl⟩ := moved
      exact belongsOn_of_deactivated (wasActive page isTaken) (of_decide_eq_true deactivated)
    · exact consistent.listed _ held before
  by_cases isUnevictable : lru = .unevictable
  · subst isUnevictable
    rw [shrunk.unevictable, sortPages_eq, isDst] at listed
    rcases List.mem_append.mp listed with culled | before
    · simp only [List.mem_map, List.mem_filter] at culled
      obtain ⟨_, ⟨⟨page, isTaken, rfl⟩, isCulled⟩, rfl⟩ := culled
      exact belongsOn_of_culled (wasActive page isTaken) (of_decide_eq_true isCulled)
    · exact consistent.listed _ held before
  · rw [(shrunk.other lru isActive isInactive isUnevictable).1] at listed
    exact consistent.listed lru held listed

/-- The counters of a call are the lengths of the lists again. -/
theorem Shrunk.nrLru_eq (consistent : zone.Consistent) {freed : List LruPage}
    (shrunk : Shrunk zone file isolation (sortPages tests isolation.dst) after freed)
    (perm : (isolation.src ++ taken).Perm (zone.lists (.active file)))
    (isTaken : isolation.nrTaken = basePages taken)
    (belongs : ∀ lru, ∀ held ∈ after.lists lru, held.BelongsOn lru) (lru : LruList) :
    after.nrLru lru = (after.lists lru).length := by
  have order : ∀ {lru : LruList} {added rest : List LruPage}, after.lists lru = added ++ rest →
      basePages added = added.length := fun {lru} {_} {_} lists =>
    basePages_eq_length fun held listed => (belongs lru held (by
      rw [lists]
      exact List.mem_append_left _ listed)).1
  have takenLength : basePages taken = taken.length := basePages_eq_length fun held listed =>
    (consistent.listed _ held (perm.subset (List.mem_append_right _ listed))).1
  by_cases isActive : lru = .active file
  · subst isActive
    have lengths := perm.length_eq
    have counted := consistent.counted (.active file)
    rw [List.length_append] at lengths
    rw [shrunk.nrActive, order shrunk.active, shrunk.active, List.length_append, isTaken, takenLength]
    omega
  by_cases isInactive : lru = .inactive file
  · subst isInactive
    have counted := consistent.counted (.inactive file)
    rw [shrunk.nrInactive, order shrunk.inactive, shrunk.inactive, List.length_append]
    omega
  by_cases isUnevictable : lru = .unevictable
  · subst isUnevictable
    have counted := consistent.counted .unevictable
    rw [shrunk.nrUnevictable, order shrunk.unevictable, shrunk.unevictable, List.length_append]
    omega
  · obtain ⟨sameList, sameCount⟩ := shrunk.other lru isActive isInactive isUnevictable
    rw [sameList, sameCount]
    exact consistent.counted lru

end Call

/-- A call of `shrink_active_list` on a consistent zone that frees no page leaves the zone consistent,
    with the same pages, each on one list. Its counters change with the lengths of the lists, and those
    of isolated pages are as before. In front of what it does not isolate the active list holds the pages
    it puts back, and in front of what was there the inactive list holds those it moves; both keep the
    order in which the pages stood on the active list. -/
theorem shrinkActiveList_keeps_pages (zone : Zone) (consistent : zone.Consistent) (nrToScan : Nat)
    (sc : ScanControl) (file : Bool) (tests : Nat → PageTests) :
    ∃ isolation after freed, isolateActivePages nrToScan sc file tests zone = some isolation ∧
      shrinkActiveList nrToScan sc file tests zone = some (after, freed) ∧
      (freed = [] →
        after.pfns.Perm zone.pfns ∧ after.Consistent ∧
        (∀ lru, after.nrLru lru - zone.nrLru lru =
          (after.lists lru).length - (zone.lists lru).length) ∧
        after.nrIsolated = zone.nrIsolated ∧
        ∃ putBack moved,
          after.lists (.active file) = putBack ++ isolation.src ∧
          after.lists (.inactive file) = moved ++ zone.lists (.inactive file) ∧
          (∀ held ∈ putBack ++ isolation.src, held.page.flags .active = true) ∧
          (∀ held ∈ moved, held.page.flags .active = false) ∧
          (putBack.map LruPage.pfn).Sublist (isolation.dst.map LruPage.pfn) ∧
          (moved.map LruPage.pfn).Sublist (isolation.dst.map LruPage.pfn) ∧
          (isolation.dst.map LruPage.pfn).Sublist ((zone.lists (.active file)).map LruPage.pfn)) := by
  have valid : ∀ held ∈ zone.lists (.active file),
      isolateLruPage sc.isolateMode file (tests held.pfn).migratable held.page ≠ .invalid :=
    fun held listed => isolateLruPage_valid (consistent.listed _ held listed)
  obtain ⟨isolation, taken, isolates, sub, perm, _, isDst, isTaken⟩ :=
    isolateLruPages_spec nrToScan ⟨zone.lists (.active file), [], 0, 0⟩ valid
  rw [List.append_nil] at isDst
  rw [Nat.zero_add] at isTaken
  obtain ⟨after, freed, done, shrunk⟩ := shrinkActiveList_shrunk isolates
  refine ⟨isolation, after, freed, isolates, done, ?_⟩
  rintro rfl
  have samePages := shrunk.pfns_perm perm isDst
  have belongs := shrunk.belongsOn consistent perm isDst
  have counted := shrunk.nrLru_eq consistent perm isTaken belongs
  have order : (isolation.dst.map LruPage.pfn).Sublist ((zone.lists (.active file)).map LruPage.pfn) := by
    rw [isDst, List.map_map]
    exact sub.map LruPage.pfn
  have putBackSublist : ∀ pages : List LruPage,
      ((putBackPages pages).map LruPage.pfn).Sublist (pages.map LruPage.pfn) := by
    intro pages
    rw [putBackPages, List.map_map]
    exact List.filter_sublist.map LruPage.pfn
  refine ⟨samePages, ⟨samePages.nodup_iff.mpr consistent.distinct, belongs, counted⟩, fun lru => ?_,
    shrunk.nrIsolated, _, _, shrunk.active, shrunk.inactive, ?_, ?_, ?_, ?_, order⟩
  · rw [counted lru, consistent.counted lru]
  · rw [← shrunk.active]
    exact fun held listed => (pageLru_eq_active_iff.mp (belongs _ held listed).2.2).2.1
  · intro held listed
    have onList : held ∈ after.lists (.inactive file) := by
      rw [shrunk.inactive]
      exact List.mem_append_left _ listed
    exact (pageLru_eq_inactive_iff.mp (belongs _ held onList).2.2).2.1
  · exact (putBackSublist _).trans (sortPages_active_sublist tests _)
  · exact (putBackSublist _).trans (sortPages_inactive_sublist tests _)

/-- The pages 1 and 2 of the active file list. Page 1 has just been accessed. -/
def twoPages : List LruPage :=
  [⟨1, (filePage 0).setFlag .active true, 1⟩, ⟨2, (filePage 5).setFlag .active true, 1⟩]

/-- A zone with active file pages only. -/
def activeFileZone (pages : List LruPage) : Zone where
  lists := fun lru => if lru = .activeFile then pages else []
  nrLru := fun lru => if lru = .activeFile then pages.length else 0
  nrIsolated := fun _ => 0
  recentScanned := fun _ => 0
  recentRotated := fun _ => 0
  pagesScanned := 0

theorem twoPages_consistent : (activeFileZone twoPages).Consistent where
  distinct := by decide
  listed := by
    intro lru held listed
    cases lru <;> simp [activeFileZone, twoPages] at listed
    rcases listed with rfl | rfl <;> exact ⟨rfl, rfl, rfl⟩
  counted := by
    intro lru
    cases lru <;> rfl

/-- Tests that find every page unreferenced. -/
def idleTests : PageTests := ⟨true, true, false, 0, 0⟩

/-- Page 1 stays on the active list and page 2 moves to the inactive one. -/
theorem shrinkActiveList_keeps_pages_two :
    ∃ after, shrinkActiveList 2 ⟨true, true⟩ true (fun _ => idleTests) (activeFileZone twoPages) =
        some (after, []) ∧
      after.pfns.Perm (activeFileZone twoPages).pfns ∧ after.Consistent := by
  obtain ⟨_, after, freed, _, done, keeps⟩ := shrinkActiveList_keeps_pages (activeFileZone twoPages)
    twoPages_consistent 2 ⟨true, true⟩ true (fun _ => idleTests)
  have noneFreed : (shrinkActiveList 2 ⟨true, true⟩ true (fun _ => idleTests)
      (activeFileZone twoPages)).map (fun result => result.2.length) = some 0 := by
    decide
  rw [done] at noneFreed
  have isNil : freed = [] := List.eq_nil_of_length_eq_zero (Option.some.inj noneFreed)
  subst isNil
  exact ⟨after, done, (keeps rfl).1, (keeps rfl).2.1⟩

end KernelHacking.PageReplacement
