/-
Module: KernelHacking.Proofs.ClientReads
Layer: Proofs
Purpose: Through which directory entries the two clients read. A call with a page-aligned window address
  opens at most one window, so a directory it returns has at most one entry that is not null, that of
  the first populated slot the walk meets. `VATranslate` reads through the entry of its address and
  `vm_inspector` through those of all slots from the first to the last address, the end included, and
  neither looks whether an entry is null.
Imports: KernelHacking.Proofs.CallSafety, KernelHacking.Proofs.TableClients
Trusted boundary: none (fully proved)
Main exports: vaTranslateSlots, inspectSlots, vmInspectorSlots, inspectPages_congr, FirstWindow,
  directory_cases, clients_read_windows_iff, clients_read_one_slot, clients_read_null
Open obligations: none
-/
import KernelHacking.Proofs.CallSafety
import KernelHacking.Proofs.TableClients

namespace KernelHacking.PageTable

/-! ### The entries the clients read through -/

/-- The slots whose directory entries `VATranslate` reads through. -/
def vaTranslateSlots (beginVaddr : ULong) : List Nat := [((beginVaddr >>> 21) &&& 0x7FF).toNat]

/-- The slots whose directory entries the loop of `vm_inspector` reads through, up to a bad read. -/
def inspectSlots (view : View) : List ULong → List Nat
  | [] => []
  | i :: pages =>
      (i >>> 9).toNat ::
        match view.word (i >>> 9).toNat (i &&& 0x1FF) with
        | none => []
        | some _ => inspectSlots view pages

/-- The slots whose directory entries `vm_inspector` reads through. -/
def vmInspectorSlots (view : View) (beginVaddr endVaddr : ULong) : List Nat :=
  inspectSlots view
    (pagesFrom ((beginVaddr >>> PAGE_SHIFT) &&& 0xFFFFF) ((endVaddr >>> PAGE_SHIFT) &&& 0xFFFFF))

/-- The output of `VATranslate` depends on no other words. -/
theorem vaTranslate_congr {first second : View} {beginVaddr : ULong}
    (same : ∀ slot ∈ vaTranslateSlots beginVaddr, first.fakePgd slot = second.fakePgd slot ∧
      ∀ entry, first.word slot entry = second.word slot entry) :
    vaTranslate first beginVaddr = vaTranslate second beginVaddr := by
  obtain ⟨sameEntry, sameWords⟩ := same _ (List.mem_singleton_self _)
  simp only [vaTranslate, sameWords, sameEntry]

/-- The output of `vm_inspector` depends on no other words. -/
theorem inspectPages_congr {first second : View} {pages : List ULong}
    (same : ∀ slot ∈ inspectSlots first pages, ∀ entry, first.word slot entry = second.word slot entry) :
    inspectPages first pages = inspectPages second pages := by
  induction pages with
  | nil => rfl
  | cons page pages inductionHypothesis =>
      rw [inspectPages, inspectPages, ← same _ List.mem_cons_self]
      cases word : first.word (page >>> 9).toNat (page &&& 0x1FF) with
      | none => rfl
      | some pte =>
          have later : inspectPages first pages = inspectPages second pages := by
            apply inductionHypothesis
            intro slot listed
            apply same
            rw [inspectSlots, word]
            exact List.mem_cons_of_mem _ listed
          simp only [later]

/-- Pages of mapped windows do not end the loop. -/
theorem mem_inspectSlots {view : View} {earlier later : List ULong} {page : ULong}
    (mapped : ∀ other ∈ earlier, (view.word (other >>> 9).toNat (other &&& 0x1FF)).isSome = true) :
    (page >>> 9).toNat ∈ inspectSlots view (earlier ++ page :: later) := by
  induction earlier with
  | nil => exact List.mem_cons_self
  | cons other earlier inductionHypothesis =>
      obtain ⟨pte, word⟩ := Option.isSome_iff_exists.mp (mapped other List.mem_cons_self)
      rw [List.cons_append, inspectSlots, word]
      exact List.mem_cons_of_mem _
        (inductionHypothesis fun page listed => mapped page (List.mem_cons_of_mem _ listed))

theorem exists_of_mem_inspectSlots {view : View} {pages : List ULong} {slot : Nat}
    (listed : slot ∈ inspectSlots view pages) : ∃ page ∈ pages, slot = (page >>> 9).toNat := by
  induction pages with
  | nil => cases listed
  | cons page pages inductionHypothesis =>
      rw [inspectSlots] at listed
      rcases List.mem_cons.mp listed with here | later
      · exact ⟨page, List.mem_cons_self, here⟩
      · split at later
        · cases later
        · obtain ⟨other, isPage, isSlot⟩ := inductionHypothesis later
          exact ⟨other, List.mem_cons_of_mem _ isPage, isSlot⟩

section Directory

variable {kernel : Kernel} {system : System} {current : Nat} {args : ExposeArgs}

/-- The slot is the first populated one that the walk of the call meets, and it is not refused. -/
def FirstWindow (kernel : Kernel) (system : System) (current : Nat) (args : ExposeArgs) (slot : Nat) :
    Prop :=
  ∃ mm call, system.pids args.pid = .process mm ∧
    NextCall (walkedSpace system current mm) args.endVaddr args.beginVaddr
      (Live.start system current args.pageTableAddr) call ∧
    refusal kernel (system.spaces current).mm call.pmd args.pageTableAddr = none ∧
    pgdIndex call.addr = slot

/-- The directory after a call with an aligned window address: one entry, with the window mapped, or
none. -/
theorem directory_cases {after : System} {directory : Nat → ULong} {remaps : List (Frame × Bool)}
    (aligned : args.pageTableAddr &&& 0xFFF = 0)
    (returned : exposeCall kernel system current args = .returned 0 after (some directory) remaps) :
    args.pageTableAddr ≠ 0 ∧ args.beginVaddr < args.endVaddr ∧
    ((∃ slot frame, FirstWindow kernel system current args slot ∧
        directory = Function.update (fun _ => 0) slot args.pageTableAddr ∧
        (after.spaces current).pages (pageOf args.pageTableAddr) = some frame) ∨
      ((∀ slot, ¬FirstWindow kernel system current args slot) ∧ directory = fun _ => 0)) := by
  obtain ⟨mm, last, final, err, live, comes, reach, ending, rfl, isDirectory⟩ :=
    returned_cases returned
  rw [Option.some.injEq] at isDirectory
  subst isDirectory
  refine ⟨comes.somewhere, comes.nonempty, ?_⟩
  rw [setSpace_self]
  -- the first call opens the window, or there is none to open
  have opened : ∀ call, NextCall (walkedSpace system current mm) args.endVaddr args.beginVaddr
      (Live.start system current args.pageTableAddr) call →
      Opens kernel (Live.start system current args.pageTableAddr) call →
      live.pgdBase = ((Live.start system current args.pageTableAddr).openWindow kernel call).pgdBase →
      live.caller.pages =
        ((Live.start system current args.pageTableAddr).openWindow kernel call).caller.pages →
      ∃ slot frame, FirstWindow kernel system current args slot ∧
        live.pgdBase = Function.update (fun _ => 0) slot args.pageTableAddr ∧
        live.caller.pages (pageOf args.pageTableAddr) = some frame := by
    intro call next opens isDirectory arePages
    refine ⟨pgdIndex call.addr, call.pmd.extractLsb' 12 20,
      ⟨mm, call, comes.process, next, opens.1, rfl⟩, isDirectory, ?_⟩
    rw [arePages]
    exact Function.update_self _ _ _
  rcases reach.aligned aligned with same | ⟨call, next, opens, rfl⟩
  · rw [Prod.mk.injEq] at same
    obtain ⟨rfl, rfl⟩ := same
    rcases ending.finished_cases with ⟨call, next, opens, _, rfl⟩ | ⟨none, unopened⟩
    · exact Or.inl (opened call next opens rfl rfl)
    · refine Or.inr ⟨?_, unopened.pgdBase⟩
      rintro slot ⟨other, call, process, next, allowed, _⟩
      rw [comes.process, PidState.process.injEq] at process
      subst process
      exact none call next allowed
  · rcases ending.finished_cases with ⟨second, _, opens', _, _⟩ | ⟨_, unopened⟩
    · exact absurd opens' (not_opens_second aligned)
    · exact Or.inl (opened call next opens unopened.pgdBase unopened.pages)

end Directory

/-! ### Comparing the entries read with the entries filled in -/

/-- `VATranslate` reads through no null entry. -/
def TranslateReadsWindows (directory : Nat → ULong) (beginVaddr : ULong) : Prop :=
  ∀ slot ∈ vaTranslateSlots beginVaddr, directory slot ≠ 0

/-- `vm_inspector` reads through no null entry. -/
def InspectorReadsWindows (view : View) (beginVaddr endVaddr : ULong) : Prop :=
  ∀ slot ∈ vmInspectorSlots view beginVaddr endVaddr, view.fakePgd slot ≠ 0

/-- A page of the list, with the pages before it. -/
theorem pagesFrom_split {first last page : ULong} (above : first ≤ page) (below : page ≤ last) :
    ∃ earlier later, pagesFrom first last = earlier ++ page :: later ∧
      ∀ other ∈ earlier, first ≤ other ∧ other < page := by
  obtain ⟨earlier, later, split⟩ := List.append_of_mem (mem_pagesFrom.mpr ⟨above, below⟩)
  refine ⟨earlier, later, split, fun other listed => ⟨?_, ?_⟩⟩
  · have isPage : other ∈ pagesFrom first last := by
      rw [split]
      exact List.mem_append_left _ listed
    exact (mem_pagesFrom.mp isPage).1
  · have increasing := pagesFrom_increasing first last
    rw [split] at increasing
    exact (List.pairwise_append.mp increasing).2.2 other listed page List.mem_cons_self

/-- The first entry that `vm_inspector` reads through. -/
theorem first_mem_slots (view : View) {beginVaddr endVaddr : ULong} (nonempty : beginVaddr < endVaddr) :
    pgdIndex beginVaddr ∈ vmInspectorSlots view beginVaddr endVaddr := by
  have ordered : beginVaddr >>> PAGE_SHIFT ≤ (endVaddr >>> PAGE_SHIFT) &&& 0xFFFFF := by
    rw [BitVec.lt_def] at nonempty
    rw [BitVec.le_def, toNat_page, Word.toNat_shift, PAGE_SHIFT]
    omega
  obtain ⟨rest, pages, _⟩ := pagesFrom_cons ordered
  rw [vmInspectorSlots, page_eq beginVaddr, pages, ← slot_of_page]
  exact List.mem_cons_self

/-- If the window of the first slot is mapped and the end lies in a higher slot, `vm_inspector` comes to
the slot behind the first. -/
theorem second_mem_slots {view : View} {beginVaddr endVaddr : ULong}
    (mapped : ∀ entry : ULong, entry.toNat < 512 →
      (view.word (pgdIndex beginVaddr) entry).isSome = true)
    (higher : pgdIndex beginVaddr < pgdIndex endVaddr) :
    pgdIndex beginVaddr + 1 ∈ vmInspectorSlots view beginVaddr endVaddr := by
  have inRange := endVaddr.isLt
  rw [pgdIndex_eq, pgdIndex_eq] at higher
  -- the first page of the next slot
  have isPage : (BitVec.ofNat 32 ((beginVaddr.toNat / 2 ^ 21 + 1) * 2 ^ 9)).toNat =
      (beginVaddr.toNat / 2 ^ 21 + 1) * 2 ^ 9 := by
    rw [BitVec.toNat_ofNat]
    omega
  obtain ⟨earlier, later, split, between⟩ := pagesFrom_split
    (show (beginVaddr >>> PAGE_SHIFT) &&& 0xFFFFF ≤
      BitVec.ofNat 32 ((beginVaddr.toNat / 2 ^ 21 + 1) * 2 ^ 9) by
        rw [BitVec.le_def, toNat_page, isPage]
        omega)
    (show BitVec.ofNat 32 ((beginVaddr.toNat / 2 ^ 21 + 1) * 2 ^ 9) ≤
      (endVaddr >>> PAGE_SHIFT) &&& 0xFFFFF by
        rw [BitVec.le_def, toNat_page, isPage]
        omega)
  have isSlot : pgdIndex beginVaddr + 1 =
      (BitVec.ofNat 32 ((beginVaddr.toNat / 2 ^ 21 + 1) * 2 ^ 9) >>> 9).toNat := by
    rw [Word.toNat_shift, isPage, pgdIndex_eq]
    omega
  rw [vmInspectorSlots, split, isSlot]
  apply mem_inspectSlots
  intro other listed
  obtain ⟨above, below⟩ := between other listed
  rw [BitVec.le_def, toNat_page] at above
  rw [BitVec.lt_def, isPage] at below
  have sameSlot : (other >>> 9).toNat = pgdIndex beginVaddr := by
    rw [Word.toNat_shift, pgdIndex_eq]
    omega
  rw [sameSlot]
  apply mapped
  rw [toNat_entry]
  exact Nat.mod_lt _ (by decide)

/-- All entries that `vm_inspector` reads through belong to the slots of the range, the end included. -/
theorem slots_in_range {view : View} {beginVaddr endVaddr : ULong} {slot : Nat}
    (listed : slot ∈ vmInspectorSlots view beginVaddr endVaddr) :
    pgdIndex beginVaddr ≤ slot ∧ slot ≤ pgdIndex endVaddr := by
  obtain ⟨page, isPage, rfl⟩ := exists_of_mem_inspectSlots listed
  obtain ⟨above, below⟩ := mem_pagesFrom.mp isPage
  rw [BitVec.le_def, toNat_page] at above below
  rw [Word.toNat_shift, pgdIndex_eq, pgdIndex_eq]
  omega

section Compare

variable {kernel : Kernel} {system after : System} {current : Nat} {args : ExposeArgs}
  {directory : Nat → ULong} {remaps : List (Frame × Bool)}

/-- The filled entries are those of the first window, which is mapped. -/
theorem filled_iff (aligned : args.pageTableAddr &&& 0xFFF = 0)
    (returned : exposeCall kernel system current args = .returned 0 after (some directory) remaps)
    (slot : Nat) :
    directory slot ≠ 0 ↔ FirstWindow kernel system current args slot := by
  obtain ⟨somewhere, _, ⟨first, frame, window, rfl, _⟩ | ⟨none, rfl⟩⟩ :=
    directory_cases aligned returned
  · constructor
    · intro filled
      have same : slot = first := by
        by_contra different
        rw [Function.update_of_ne different] at filled
        exact filled rfl
      rw [same]
      exact window
    · rintro ⟨mm, call, process, next, _, rfl⟩
      obtain ⟨mm', call', process', next', _, rfl⟩ := window
      rw [process, PidState.process.injEq] at process'
      subst process'
      rw [next.unique next', Function.update_self]
      exact somewhere
  · exact iff_of_false (fun filled => filled rfl) (none slot)

/-- The words of a filled entry can be read. -/
theorem word_isSome (ram : Ram) (aligned : args.pageTableAddr &&& 0xFFF = 0)
    (returned : exposeCall kernel system current args = .returned 0 after (some directory) remaps)
    {slot : Nat} (filled : directory slot ≠ 0) {entry : ULong} (inside : entry.toNat < 512) :
    (View.word ⟨directory, readUser ram (after.spaces current).pages⟩ slot entry).isSome = true := by
  obtain ⟨_, _, ⟨first, frame, _, rfl, mapped⟩ | ⟨_, rfl⟩⟩ := directory_cases aligned returned
  · have same : slot = first := by
      by_contra different
      rw [Function.update_of_ne different] at filled
      exact filled rfl
    rw [View.word]
    dsimp only
    rw [same, Function.update_self, four_mul, readUser_window aligned mapped (by omega)]
    rfl
  · exact absurd rfl filled

/-- Only one slot has a filled entry. -/
theorem filled_unique (aligned : args.pageTableAddr &&& 0xFFF = 0)
    (returned : exposeCall kernel system current args = .returned 0 after (some directory) remaps)
    {first second : Nat} (one : directory first ≠ 0) (two : directory second ≠ 0) :
    first = second := by
  obtain ⟨mm, call, process, next, _, rfl⟩ := (filled_iff aligned returned first).mp one
  obtain ⟨mm', call', process', next', _, rfl⟩ := (filled_iff aligned returned second).mp two
  rw [process, PidState.process.injEq] at process'
  subst process'
  rw [next.unique next']

/-- `VATranslate` reads through the entry of one slot. -/
theorem translate_iff (aligned : args.pageTableAddr &&& 0xFFF = 0)
    (returned : exposeCall kernel system current args = .returned 0 after (some directory) remaps) :
    TranslateReadsWindows directory args.beginVaddr ↔
      FirstWindow kernel system current args (pgdIndex args.beginVaddr) := by
  rw [← filled_iff aligned returned]
  simp only [TranslateReadsWindows, vaTranslateSlots, pmdIndex_eq, List.mem_singleton, forall_eq]

/-- `vm_inspector` reads through the entries of all slots up to that of the end. -/
theorem inspector_iff (ram : Ram) (aligned : args.pageTableAddr &&& 0xFFF = 0)
    (returned : exposeCall kernel system current args = .returned 0 after (some directory) remaps) :
    InspectorReadsWindows ⟨directory, readUser ram (after.spaces current).pages⟩ args.beginVaddr
        args.endVaddr ↔
      pgdIndex args.beginVaddr = pgdIndex args.endVaddr ∧
        FirstWindow kernel system current args (pgdIndex args.beginVaddr) := by
  have nonempty := (directory_cases aligned returned).2.1
  rw [← filled_iff aligned returned]
  constructor
  · intro reads
    have first := reads _ (first_mem_slots _ nonempty)
    refine ⟨?_, first⟩
    -- a higher end takes the loop to the slot behind the first, which is not filled in
    by_contra different
    have higher : pgdIndex args.beginVaddr < pgdIndex args.endVaddr :=
      Nat.lt_of_le_of_ne (pgdIndex_mono (by bv_omega)) different
    have second := reads _ (second_mem_slots
      (fun entry inside => word_isSome ram aligned returned first inside) higher)
    have same := filled_unique aligned returned first second
    omega
  · rintro ⟨sameSlot, first⟩ slot listed
    have inRange := slots_in_range listed
    have same : slot = pgdIndex args.beginVaddr := by omega
    rw [same]
    exact first

/-- After a call that returned 0, with the page-aligned window address that the clients pass,
`VATranslate` reads through no null entry exactly if the slot of its address is the first populated one
that the walk meets and is not refused; `vm_inspector` exactly if this holds and the end of the range
lies in the same slot as its start. -/
theorem clients_read_windows_iff (ram : Ram) (aligned : args.pageTableAddr &&& 0xFFF = 0)
    (returned : exposeCall kernel system current args = .returned 0 after (some directory) remaps) :
    (TranslateReadsWindows directory args.beginVaddr ↔
      FirstWindow kernel system current args (pgdIndex args.beginVaddr)) ∧
    (InspectorReadsWindows ⟨directory, readUser ram (after.spaces current).pages⟩ args.beginVaddr
        args.endVaddr ↔
      pgdIndex args.beginVaddr = pgdIndex args.endVaddr ∧
        FirstWindow kernel system current args (pgdIndex args.beginVaddr)) :=
  ⟨translate_iff aligned returned, inspector_iff ram aligned returned⟩

end Compare

/-- The request for a page of the first slot: both clients read through its entry. -/
theorem clients_read_one_slot :
    ∃ after directory remaps,
      exposeCall obliging smallSystem 1 (firstSlot 2) = .returned 0 after (some directory) remaps ∧
      TranslateReadsWindows directory 0x1000 ∧
      InspectorReadsWindows ⟨directory, readUser (fun _ _ => 0) (after.spaces 1).pages⟩ 0x1000
        0x2000 := by
  have next : NextCall (walkedSpace smallSystem 1 2) 0x2000 0x1000
      (Live.start smallSystem 1 0x40000000) ⟨pmdPopulate 5, 0x1000, 0x2000⟩ :=
    firstSlot_next (by decide) rfl
  have walked : walkOf obliging smallSystem 1 (firstSlot 2) 2 = some _ :=
    walkPageRangeIn_eq (by decide) .refl (.last next (by decide) rfl)
  have window : FirstWindow obliging smallSystem 1 (firstSlot 2) 0 :=
    ⟨2, _, rfl, next, by decide, by decide⟩
  have returned := exposeCall_eq (comesToWalk_second rfl (by decide)) walked
  have reads := clients_read_windows_iff (fun _ _ => 0) (by decide) returned
  exact ⟨_, _, _, returned, reads.1.mpr window, reads.2.mpr ⟨by decide, window⟩⟩

/-- A page of the second slot, which has no second-level table, and a range that ends at its start: in
the first case both clients read through a null entry, in the second `vm_inspector` does. -/
theorem clients_read_null :
    (∃ after directory remaps,
      exposeCall obliging smallSystem 1 ⟨2, 0x50000000, 0x40000000, 0x200000, 0x201000⟩ =
        .returned 0 after (some directory) remaps ∧
      ¬TranslateReadsWindows directory 0x200000 ∧
      ¬InspectorReadsWindows ⟨directory, readUser (fun _ _ => 0) (after.spaces 1).pages⟩ 0x200000
        0x201000) ∧
    ∃ after directory remaps,
      exposeCall obliging smallSystem 1 ⟨2, 0x50000000, 0x40000000, 0x1000, 0x200000⟩ =
        .returned 0 after (some directory) remaps ∧
      ¬InspectorReadsWindows ⟨directory, readUser (fun _ _ => 0) (after.spaces 1).pages⟩ 0x1000
        0x200000 := by
  constructor
  · have nothing : NoCall (walkedSpace smallSystem 1 2) 0x201000 0x200000
        (Live.start smallSystem 1 0x40000000) := .last rfl (by decide)
    have returned := exposeCall_eq ⟨by decide, rfl, rfl, by decide⟩
      (walkPageRangeIn_eq (by decide) .refl (.done nothing) :
        walkOf obliging smallSystem 1 ⟨2, 0x50000000, 0x40000000, 0x200000, 0x201000⟩ 2 = some _)
    refine ⟨_, _, _, returned, fun reads => ?_, fun reads => ?_⟩
    · exact reads _ (List.mem_singleton_self _) rfl
    · exact reads _ (first_mem_slots _ (by decide)) rfl
  · have next : NextCall (walkedSpace smallSystem 1 2) 0x200000 0x1000
        (Live.start smallSystem 1 0x40000000) ⟨pmdPopulate 5, 0x1000, 0x200000⟩ :=
      ⟨[], .last rfl (by decide)⟩
    have returned := exposeCall_eq ⟨by decide, rfl, rfl, by decide⟩
      (walkPageRangeIn_eq (by decide) .refl (.last next (by decide) rfl) :
        walkOf obliging smallSystem 1 ⟨2, 0x50000000, 0x40000000, 0x1000, 0x200000⟩ 2 = some _)
    refine ⟨_, _, _, returned, fun reads => ?_⟩
    have sameSlot := ((inspector_iff (fun _ _ => 0) (by decide) returned).mp reads).1
    exact absurd sameSlot (by decide)

end KernelHacking.PageTable
