/-
Module: KernelHacking.Proofs.WindowWrites
Layer: Proofs
Purpose: Whether a caller can write to the page tables it has been shown. The window is the table itself,
  mapped into whatever area `find_vma` returned, so a write through a shared writable area lands in the
  table. The tables stay what they were under every sequence of accesses exactly if no page of such an
  area was mapped to one of them before the call, and the call opens no window in such an area.
Imports: Mathlib.Data.Set.Defs, KernelHacking.Model.UserAccess,
  KernelHacking.Proofs.CallSafety, KernelHacking.Proofs.ExposedTable
Trusted boundary: none (fully proved)
Main exports: tableFrames, SharedWritable, TablesKept, tablesKept_iff, OpensAt, tables_kept_iff,
  tables_kept_read_only, table_overwritten
Open obligations: none
-/
import Mathlib.Data.Set.Defs
import KernelHacking.Model.UserAccess
import KernelHacking.Proofs.CallSafety
import KernelHacking.Proofs.ExposedTable

namespace KernelHacking.PageTable

/-- The frames of the second-level tables of a directory. Each holds the Linux and the hardware entries
of its slot. -/
def tableFrames (pgd : Nat → ULong) : Set Frame :=
  { frame | ∃ slot, pgd slot ≠ 0 ∧ pgd slot &&& 2 = 0 ∧ frame = (pgd slot).extractLsb' 12 20 }

/-- The page lies in an area that is shared and writable. -/
def SharedWritable (mm : Mm) (page : Frame) : Prop :=
  ∃ addr vma, pageOf addr = page ∧ areaAt mm addr = some vma ∧ vma.vmFlags &&& VM_WRITE ≠ 0 ∧
    vma.vmFlags &&& VM_SHARED ≠ 0

/-- No sequence of accesses changes a word of the frames. The kernel supplies no frame that is in use as
a page table. -/
def TablesKept (mm : Mm) (memory : Memory) (tables : Set Frame) : Prop :=
  ∀ accesses : List Access, (∀ access ∈ accesses, ∀ frame, access.fresh = some frame → frame ∉ tables) →
    ∀ frame ∈ tables, (runAccesses mm memory accesses).ram frame = memory.ram frame

/-! ### Which frames a process can write to -/

section Accesses

variable {mm : Mm} {tables : Set Frame}

/-- The process can write to none of the frames. -/
def OutOfReach (mm : Mm) (tables : Set Frame) (pages : Pages) : Prop :=
  ∀ page frame, SharedWritable mm page → pages page = some frame → frame ∉ tables

/-- Mapping a page to a frame that is no table keeps the tables out of reach. -/
theorem OutOfReach.map {pages : Pages} {page frame : Frame} (outOfReach : OutOfReach mm tables pages)
    (noTable : frame ∉ tables) : OutOfReach mm tables (Function.update pages page (some frame)) := by
  intro other table writable mapped
  by_cases same : other = page
  · rw [same, Function.update_self, Option.some.injEq] at mapped
    rw [← mapped]
    exact noTable
  · rw [Function.update_of_ne same] at mapped
    exact outOfReach other table writable mapped

/-- The tables are out of reach in the second memory, and their words are those of the first. -/
def Keeps (mm : Mm) (tables : Set Frame) (before after : Memory) : Prop :=
  OutOfReach mm tables after.pages ∧ ∀ frame ∈ tables, after.ram frame = before.ram frame

theorem Keeps.refl {memory : Memory} (outOfReach : OutOfReach mm tables memory.pages) :
    Keeps mm tables memory memory :=
  ⟨outOfReach, fun _ _ => rfl⟩

/-- A word stored in a frame that is no table. -/
theorem Ram.store_table {ram : Ram} {frame table : Frame} (index : Nat) (value : ULong)
    (noTable : frame ∉ tables) (isTable : table ∈ tables) :
    Ram.store ram frame index value table = ram table := by
  have different : table ≠ frame := by
    rintro rfl
    exact noTable isTable
  rw [Ram.store, Function.update_of_ne different]

/-- A write through a shared writable area goes to a frame that is no table. -/
theorem Keeps.writeShared {memory : Memory} {addr value : ULong} {fresh : Option Frame}
    (outOfReach : OutOfReach mm tables memory.pages) (writable : SharedWritable mm (pageOf addr))
    (supplied : ∀ frame, fresh = some frame → frame ∉ tables) :
    Keeps mm tables memory (memory.writeShared addr value fresh) := by
  cases mapped : memory.pages (pageOf addr) with
  | some frame =>
      have noTable := outOfReach _ frame writable mapped
      simp only [Memory.writeShared, mapped]
      exact ⟨outOfReach, fun table isTable => Ram.store_table _ _ noTable isTable⟩
  | none =>
      cases fresh with
      | none =>
          simp only [Memory.writeShared, mapped]
          exact Keeps.refl outOfReach
      | some frame =>
          have noTable := supplied frame rfl
          simp only [Memory.writeShared, mapped]
          exact ⟨outOfReach.map noTable, fun table isTable => Ram.store_table _ _ noTable isTable⟩

/-- A write through a private area goes to the copy. -/
theorem Keeps.writePrivate {memory : Memory} {addr value : ULong} {fresh : Option Frame}
    (outOfReach : OutOfReach mm tables memory.pages)
    (supplied : ∀ frame, fresh = some frame → frame ∉ tables) :
    Keeps mm tables memory (memory.writePrivate addr value fresh) := by
  cases fresh with
  | none => exact Keeps.refl outOfReach
  | some copy =>
      have noTable := supplied copy rfl
      refine ⟨outOfReach.map noTable, fun table isTable => ?_⟩
      refine (Ram.store_table _ _ noTable isTable).trans ?_
      cases memory.pages (pageOf addr) with
      | none => rfl
      | some frame =>
          have different : table ≠ copy := by
            rintro rfl
            exact noTable isTable
          exact Function.update_of_ne different _ _

/-- One access keeps the tables out of reach and their words as they are. -/
theorem Keeps.step {memory : Memory} (access : Access) (outOfReach : OutOfReach mm tables memory.pages)
    (supplied : ∀ frame, access.fresh = some frame → frame ∉ tables) :
    Keeps mm tables memory (access.apply mm memory) := by
  cases access with
  | read addr fresh =>
      cases mapped : memory.pages (pageOf addr) <;> cases area : areaAt mm addr <;> cases fresh <;>
        simp only [Access.apply, mapped, area]
      -- the only read that changes anything is the first one of a page
      case none.some.some frame => exact ⟨outOfReach.map (supplied frame rfl), fun _ _ => rfl⟩
      all_goals exact Keeps.refl outOfReach
  | write addr value fresh =>
      cases area : areaAt mm addr with
      | none =>
          simp only [Access.apply, area]
          exact Keeps.refl outOfReach
      | some vma =>
          simp only [Access.apply, area]
          split
          · exact Keeps.refl outOfReach
          · rename_i writable
            split
            · rename_i isShared
              exact Keeps.writeShared outOfReach ⟨addr, vma, rfl, area, writable, isShared⟩ supplied
            · exact Keeps.writePrivate outOfReach supplied

/-- Frames that are out of reach stay so, and keep their words. -/
theorem OutOfReach.run {memory : Memory} (outOfReach : OutOfReach mm tables memory.pages)
    (accesses : List Access)
    (supplied : ∀ access ∈ accesses, ∀ frame, access.fresh = some frame → frame ∉ tables) :
    ∀ frame ∈ tables, (runAccesses mm memory accesses).ram frame = memory.ram frame := by
  induction accesses generalizing memory with
  | nil => exact fun _ _ => rfl
  | cons access rest inductionHypothesis =>
      obtain ⟨outOfReachAfter, kept⟩ := Keeps.step access outOfReach (supplied access List.mem_cons_self)
      intro frame isTable
      rw [← kept frame isTable]
      exact inductionHypothesis outOfReachAfter
        (fun later listed => supplied later (List.mem_cons_of_mem _ listed)) frame isTable

/-- The tables are kept exactly if they are out of reach. -/
theorem tablesKept_iff {memory : Memory} :
    TablesKept mm memory tables ↔ OutOfReach mm tables memory.pages := by
  constructor
  · rintro kept page frame ⟨addr, vma, rfl, isArea, writable, isShared⟩ mapped isTable
    -- one write of another word than the one that is there
    have same := kept [.write addr (memory.ram frame (wordIndex addr) + 1) none]
      (fun access listed => by
        rw [List.mem_singleton.mp listed]
        rintro _ ⟨⟩) frame isTable
    have written : (runAccesses mm memory
        [.write addr (memory.ram frame (wordIndex addr) + 1) none]).ram frame (wordIndex addr) =
          memory.ram frame (wordIndex addr) + 1 := by
      simp only [runAccesses, List.foldl_cons, List.foldl_nil, Access.apply, isArea, if_neg writable,
        if_pos isShared, Memory.writeShared, mapped, Ram.store, Function.update_self]
    rw [same] at written
    exact absurd written (by bv_omega)
  · intro outOfReach accesses supplied
    exact outOfReach.run accesses supplied

end Accesses

/-! ### The tables of the walked address space -/

section Tables

/-- A second-level table that is allocated for a slot adds its frame. -/
theorem mem_tableFrames_populate {kernel : Kernel} {pgd : Nat → ULong} {slot : Nat} {frame : Frame} :
    frame ∈ tableFrames (populate kernel pgd slot) ↔
      frame ∈ tableFrames pgd ∨ pgd slot = 0 ∧ frame = kernel.freshTable slot := by
  rw [populate]
  by_cases empty : pgd slot = 0
  · rw [if_pos empty]
    constructor
    · rintro ⟨other, populated, good, rfl⟩
      by_cases same : other = slot
      · rw [same, Function.update_self, pmdPopulate_frame]
        exact Or.inr ⟨empty, rfl⟩
      · rw [Function.update_of_ne same] at populated good ⊢
        exact Or.inl ⟨other, populated, good, rfl⟩
    · rintro (⟨other, populated, good, rfl⟩ | ⟨_, rfl⟩)
      · have different : other ≠ slot := by
          rintro rfl
          exact populated empty
        refine ⟨other, ?_⟩
        rw [Function.update_of_ne different]
        exact ⟨populated, good, rfl⟩
      · refine ⟨slot, ?_⟩
        rw [Function.update_self]
        exact ⟨pmdPopulate_ne_zero _, pmdPopulate_not_bad _, (pmdPopulate_frame _).symm⟩
  · rw [if_neg empty]
    exact ⟨Or.inl, fun either => either.elim id fun fresh => absurd fresh.1 empty⟩

/-- The flags that `remap_pfn_range` sets leave the rights of an area alone. -/
theorem addFlags_rights (vma : Vma) {flags : ULong} (kept : flags &&& (VM_WRITE ||| VM_SHARED) = 0) :
    (vma.addFlags flags).vmFlags &&& VM_WRITE = vma.vmFlags &&& VM_WRITE ∧
      (vma.addFlags flags).vmFlags &&& VM_SHARED = vma.vmFlags &&& VM_SHARED := by
  have write : flags &&& VM_WRITE = 0 := by
    rw [show VM_WRITE = (VM_WRITE ||| VM_SHARED) &&& VM_WRITE by decide, ← BitVec.and_assoc, kept]
    rfl
  have share : flags &&& VM_SHARED = 0 := by
    rw [show VM_SHARED = (VM_WRITE ||| VM_SHARED) &&& VM_SHARED by decide, ← BitVec.and_assoc, kept]
    rfl
  simp [Vma.addFlags, BitVec.and_or_distrib_right, write, share]

theorem remapFlags_rights (vma : Vma) (addr start other : ULong) :
    (if other = start then remapFlags vma addr else 0) &&& (VM_WRITE ||| VM_SHARED) = 0 := by
  rw [remapFlags]
  split
  · split
    · decide
    · decide
  · decide

/-- The area at an address, once flags have been set. -/
theorem areaAt_addFlags (mm : Mm) (start flags addr : ULong) :
    areaAt (mm.addFlags start flags) addr =
      (areaAt mm addr).map fun area => area.addFlags (if area.vmStart = start then flags else 0) := by
  rw [areaAt, findVma_addFlags, Option.filter_map]
  rfl

/-- So the same pages can be written to. -/
theorem sharedWritable_addFlags (mm : Mm) (vma : Vma) (start addr : ULong) (page : Frame) :
    SharedWritable (mm.addFlags start (remapFlags vma addr)) page ↔ SharedWritable mm page := by
  have rights := fun area : Vma => addFlags_rights area (remapFlags_rights vma addr start area.vmStart)
  constructor
  · rintro ⟨inside, area, isPage, isArea, writable, isShared⟩
    rw [areaAt_addFlags, Option.map_eq_some_iff] at isArea
    obtain ⟨before, isBefore, rfl⟩ := isArea
    rw [(rights before).1] at writable
    rw [(rights before).2] at isShared
    exact ⟨inside, before, isPage, isBefore, writable, isShared⟩
  · rintro ⟨inside, area, isPage, isArea, writable, isShared⟩
    refine ⟨inside, area.addFlags (if area.vmStart = start then remapFlags vma addr else 0), isPage,
      ?_, ?_, ?_⟩
    · rw [areaAt_addFlags, isArea, Option.map_some]
    · rw [(rights area).1]
      exact writable
    · rw [(rights area).2]
      exact isShared

end Tables

/-! ### The windows of a call -/

section Windows

variable {kernel : Kernel} {system : System} {current mm : Nat} {stop : ULong}

/-- From a point on, the walk opens a window at the page. -/
def OpensAt (kernel : Kernel) (target : Live → Target) (stop : ULong) (start : ULong × Live)
    (page : Frame) : Prop :=
  ∃ addr live call, Reach kernel target stop start (addr, live) ∧
    NextCall target stop addr live call ∧ Opens kernel live call ∧ page = pageOf live.pteBase

/-- A window is opened at a page that is not mapped. -/
theorem Opens.free {live : Live} {call : Call} (opens : Opens kernel live call) :
    live.caller.pages (pageOf live.pteBase) = none := by
  by_contra taken
  exact opens.2 (Or.inr (Or.inl (Option.isSome_iff_ne_none.mpr taken)))

/-- The tables of the walked address space. -/
def tablesAt (system : System) (current mm : Nat) (live : Live) : Set Frame :=
  tableFrames (walkedSpace system current mm live).pgd

/-- A window adds at most a fresh table to those of the walked address space. -/
theorem mem_tablesAt_openWindow {live : Live} {call : Call} {frame : Frame} :
    frame ∈ tablesAt system current mm (live.openWindow kernel call) ↔
      frame ∈ tablesAt system current mm live ∨
        mm = current ∧ live.caller.pgd (pgdIndex live.pteBase) = 0 ∧
          frame = kernel.freshTable (pgdIndex live.pteBase) := by
  rw [tablesAt, tablesAt, walkedSpace, walkedSpace]
  by_cases own : mm = current
  · rw [if_pos own, if_pos own, and_iff_right own]
    exact mem_tableFrames_populate
  · rw [if_neg own, if_neg own]
    exact ⟨Or.inl, fun either => either.elim id fun fresh => absurd fresh.1 own⟩

/-- The frame behind a window is a table of the address space that is walked. -/
theorem NextCall.frame_mem {addr : ULong} {live : Live} {call : Call}
    (next : NextCall (walkedSpace system current mm) stop addr live call)
    (opens : Opens kernel live call) :
    call.pmd.extractLsb' 12 20 ∈ tablesAt system current mm live := by
  obtain ⟨rest, walks⟩ := next
  obtain ⟨_, isWord, populated⟩ := walks.call_eq List.mem_cons_self
  obtain ⟨_, _, good, _⟩ := refusal_none opens.1
  rw [isWord] at populated good ⊢
  exact ⟨_, populated, Decidable.not_not.mp good, rfl⟩

/-- What a part of a walk leaves as it was: mapped pages, tables, and the rights of the areas. -/
structure Extends (kernel : Kernel) (system : System) (current mm : Nat) (before after : Live) :
    Prop where
  pages : ∀ page frame, before.caller.pages page = some frame → after.caller.pages page = some frame
  tables : ∀ frame, frame ∈ tablesAt system current mm before → frame ∈ tablesAt system current mm after
  fresh : ∀ frame, frame ∈ tablesAt system current mm after →
    frame ∈ tablesAt system current mm before ∨ ∃ slot, frame = kernel.freshTable slot
  rights : ∀ page, SharedWritable after.caller.mm page ↔ SharedWritable before.caller.mm page

theorem Extends.refl (live : Live) : Extends kernel system current mm live live :=
  ⟨fun _ _ mapped => mapped, fun _ isTable => isTable, fun _ isTable => Or.inl isTable, fun _ => Iff.rfl⟩

theorem Extends.trans {first second third : Live} (one : Extends kernel system current mm first second)
    (two : Extends kernel system current mm second third) :
    Extends kernel system current mm first third where
  pages page frame mapped := two.pages page frame (one.pages page frame mapped)
  tables frame isTable := two.tables frame (one.tables frame isTable)
  fresh frame isTable := by
    rcases two.fresh frame isTable with old | isFresh
    · exact one.fresh frame old
    · exact Or.inr isFresh
  rights page := (two.rights page).trans (one.rights page)

/-- A window. -/
theorem Opens.extends {live : Live} {call : Call} (opens : Opens kernel live call) :
    Extends kernel system current mm live (live.openWindow kernel call) where
  pages page frame mapped := by
    have different : page ≠ pageOf live.pteBase := by
      rintro rfl
      rw [opens.free] at mapped
      cases mapped
    exact (Function.update_of_ne different _ _).trans mapped
  tables frame isTable := mem_tablesAt_openWindow.mpr (Or.inl isTable)
  fresh frame isTable := by
    rcases mem_tablesAt_openWindow.mp isTable with old | ⟨_, _, isFresh⟩
    · exact Or.inl old
    · exact Or.inr ⟨_, isFresh⟩
  rights page := by
    obtain ⟨vma, found, _⟩ := refusal_none opens.1
    simp only [Live.openWindow, Space.openWindow, found]
    exact sharedWritable_addFlags _ _ _ _ page

theorem Reach.extends {first second : ULong × Live}
    (reach : Reach kernel (walkedSpace system current mm) stop first second) :
    Extends kernel system current mm first.2 second.2 := by
  induction reach with
  | refl => exact Extends.refl _
  | tail _ step inductionHypothesis =>
      cases step with
      | mk next opens more => exact inductionHypothesis.trans opens.extends

/-- Where the pages come from that are mapped after a part of the walk. -/
theorem Reach.mapped_cases {first second : ULong × Live}
    (reach : Reach kernel (walkedSpace system current mm) stop first second) {page frame : Frame}
    (mapped : second.2.caller.pages page = some frame) :
    first.2.caller.pages page = some frame ∨
      OpensAt kernel (walkedSpace system current mm) stop first page := by
  induction reach with
  | refl => exact Or.inl mapped
  | tail before step inductionHypothesis =>
      cases step with
      | @mk addr live call next opens more =>
          by_cases here : page = pageOf live.pteBase
          · exact Or.inr ⟨addr, live, call, before, next, opens, here⟩
          · exact inductionHypothesis ((Function.update_of_ne here _ _).symm.trans mapped)

/-- The end of a walk. -/
theorem Ending.extends {addr : ULong} {live after : Live} {err : Int}
    (ending : Ending kernel (walkedSpace system current mm) stop addr live (.finished err after)) :
    Extends kernel system current mm live after := by
  rcases ending.finished_cases with ⟨call, _, opens, _, rfl⟩ | ⟨_, unopened⟩
  · exact opens.extends
  · have tables : tablesAt system current mm after = tablesAt system current mm live := by
      rw [tablesAt, tablesAt, walkedSpace, walkedSpace]
      split
      · exact congrArg tableFrames unopened.pgd
      · rfl
    refine ⟨fun page frame mapped => unopened.pages ▸ mapped, fun frame isTable => tables ▸ isTable,
      fun frame isTable => Or.inl (tables ▸ isTable), fun page => ?_⟩
    rcases unopened.areas with same | ⟨vma, changed⟩
    · rw [same]
    · rw [changed]
      exact sharedWritable_addFlags _ _ _ _ page

/-- The pages that are mapped at the end were mapped at the start, or are windows. -/
theorem Ending.mapped_cases {start : ULong × Live} {addr : ULong} {live after : Live} {err : Int}
    (reach : Reach kernel (walkedSpace system current mm) stop start (addr, live))
    (ending : Ending kernel (walkedSpace system current mm) stop addr live (.finished err after))
    {page frame : Frame} (mapped : after.caller.pages page = some frame) :
    start.2.caller.pages page = some frame ∨
      OpensAt kernel (walkedSpace system current mm) stop start page := by
  rcases ending.finished_cases with ⟨call, next, opens, _, rfl⟩ | ⟨_, unopened⟩
  · by_cases here : page = pageOf live.pteBase
    · exact Or.inr ⟨addr, live, call, reach, next, opens, here⟩
    · exact Reach.mapped_cases reach ((Function.update_of_ne here _ _).symm.trans mapped)
  · rw [unopened.pages] at mapped
    exact Reach.mapped_cases reach mapped

/-- A window is mapped to a table once it is open. -/
theorem openWindow_mapped {addr : ULong} {live : Live} {call : Call}
    (next : NextCall (walkedSpace system current mm) stop addr live call)
    (opens : Opens kernel live call) :
    ∃ frame, (live.openWindow kernel call).caller.pages (pageOf live.pteBase) = some frame ∧
      frame ∈ tablesAt system current mm (live.openWindow kernel call) :=
  ⟨_, Function.update_self _ _ _, mem_tablesAt_openWindow.mpr (Or.inl (next.frame_mem opens))⟩

/-- And it is so at the end: the walk is determined, so the window lies on its way. -/
theorem OpensAt.mapped {start : ULong × Live} {addr : ULong} {live after : Live} {err : Int}
    (reach : Reach kernel (walkedSpace system current mm) stop start (addr, live))
    (ending : Ending kernel (walkedSpace system current mm) stop addr live (.finished err after))
    {page : Frame} (opened : OpensAt kernel (walkedSpace system current mm) stop start page) :
    ∃ frame, after.caller.pages page = some frame ∧ frame ∈ tablesAt system current mm after := by
  obtain ⟨early, before, call, reachEarly, next, opens, rfl⟩ := opened
  obtain ⟨frame, mapped, isTable⟩ := openWindow_mapped next opens
  suffices later : Extends kernel system current mm (before.openWindow kernel call) after from
    ⟨frame, later.pages _ _ mapped, later.tables _ isTable⟩
  have onTheWay : Reach kernel (walkedSpace system current mm) stop (early, before) (addr, live) := by
    rcases reachEarly.total_of_right_unique OpenStep.unique reach with forward | backward
    · exact forward
    · rcases backward.cases_head with same | ⟨point, step, _⟩
      · rw [same]
      · exact absurd step ending.no_step
  rcases onTheWay.cases_head with same | ⟨point, step, rest⟩
  · obtain ⟨rfl, rfl⟩ := Prod.mk.inj same
    rcases ending.finished_cases with ⟨other, next', _, _, rfl⟩ | ⟨none, _⟩
    · rw [next.unique next']
      exact Extends.refl _
    · exact absurd opens.1 (none call next)
  · cases step with
    | mk next' _ _ =>
        rw [next.unique next']
        exact (Reach.extends rest).trans ending.extends

end Windows

/-! ### The tables after a call -/

/-- For a call that returns 0, where the kernel allocates no frame that the caller has mapped: no sequence
of accesses through the mappings of the caller changes a table of the target exactly if no page of a
shared writable area was mapped to a table before, and the call opens no window in such an area. -/
theorem tables_kept_iff {kernel : Kernel} {system after : System} {current mm : Nat} {args : ExposeArgs}
    {directory : Option (Nat → ULong)} {remaps : List (Frame × Bool)} (ram : Ram)
    (process : system.pids args.pid = .process mm)
    (free : ∀ slot page, (system.spaces current).pages page ≠ some (kernel.freshTable slot))
    (returned : exposeCall kernel system current args = .returned 0 after directory remaps) :
    TablesKept (after.spaces current).mm ⟨ram, (after.spaces current).pages⟩
        (tableFrames (after.spaces mm).pgd) ↔
      ∀ page, SharedWritable (system.spaces current).mm page →
        (∀ frame, (system.spaces current).pages page = some frame →
          frame ∉ tableFrames (system.spaces mm).pgd) ∧
        ¬OpensAt kernel (walkedSpace system current mm) args.endVaddr
          (args.beginVaddr, Live.start system current args.pageTableAddr) page := by
  obtain ⟨found, last, final, err, live, comes, reach, ending, rfl, _⟩ := returned_cases returned
  obtain rfl : found = mm := by
    have same := comes.process.symm.trans process
    rwa [PidState.process.injEq] at same
  have whole : Extends kernel system current found _ live := (Reach.extends reach).trans ending.extends
  have tablesBefore : tablesAt system current found (Live.start system current args.pageTableAddr) =
      tableFrames (system.spaces found).pgd := by
    rw [tablesAt, walkedSpace]
    split
    · rename_i own
      rw [own]
      rfl
    · rfl
  have tablesAfter : tableFrames ((system.setSpace current live.caller).spaces found).pgd =
      tablesAt system current found live := by
    rw [tablesAt, walkedSpace]
    by_cases own : found = current
    · rw [if_pos own, own, setSpace_self]
    · rw [if_neg own]
      exact congrArg (fun space : Space => tableFrames space.pgd) (Function.update_of_ne own _ _)
  rw [tablesKept_iff, setSpace_self, tablesAfter, ← tablesBefore]
  constructor
  · intro outOfReach page writable
    have writableAfter := (whole.rights page).mpr writable
    refine ⟨fun frame mapped isTable => ?_, fun opened => ?_⟩
    · exact outOfReach page frame writableAfter (whole.pages page frame mapped)
        (whole.tables frame isTable)
    · obtain ⟨frame, mapped, isTable⟩ := opened.mapped reach ending
      exact outOfReach page frame writableAfter mapped isTable
  · intro condition page frame writableAfter mapped isTable
    obtain ⟨oldPages, noWindow⟩ := condition page ((whole.rights page).mp writableAfter)
    rcases Ending.mapped_cases reach ending mapped with old | opened
    · rcases whole.fresh frame isTable with oldTable | ⟨slot, rfl⟩
      · exact oldPages frame old oldTable
      · exact free slot page old
    · exact noWindow opened

/-- The process of the examples with an area that it may write to. -/
def writableSpace : Space :=
  { smallSpace with mm := windowMm (VM_SHARED ||| VM_MAYWRITE ||| VM_WRITE) }

/-- The system of the examples with such a caller. -/
def writableSystem : System := smallSystem.setSpace 1 writableSpace

/-- In a shared area that is not writable the window is safe. -/
theorem tables_kept_read_only :
    ∃ after directory remaps,
      exposeCall obliging smallSystem 1 (firstSlot 2) = .returned 0 after directory remaps ∧
      ∀ ram, TablesKept (after.spaces 1).mm ⟨ram, (after.spaces 1).pages⟩
        (tableFrames (after.spaces 2).pgd) := by
  obtain ⟨after, directory, remaps, returned, _⟩ := requestAt_opens smallSystem 0x50000000
    0x40000000 rfl rfl (by decide) (by decide)
  refine ⟨after, directory, remaps, returned, fun ram => ?_⟩
  refine (tables_kept_iff ram rfl (fun _ _ => by rintro ⟨⟩) returned).mpr ?_
  rintro page ⟨addr, vma, _, isArea, writable, _⟩
  obtain ⟨found, _⟩ := Option.filter_eq_some_iff.mp isArea
  rw [List.mem_singleton.mp (List.mem_of_find?_eq_some found)] at writable
  exact absurd rfl writable

/-- In a shared writable area one store changes the table of the target. -/
theorem table_overwritten :
    ∃ after directory remaps,
      exposeCall obliging writableSystem 1 (firstSlot 2) = .returned 0 after directory remaps ∧
      5 ∈ tableFrames (after.spaces 2).pgd ∧
      (runAccesses (after.spaces 1).mm ⟨fun _ _ => 0, (after.spaces 1).pages⟩
        [.write 0x40000000 7 none]).ram 5 0 = 7 ∧
      ¬TablesKept (after.spaces 1).mm ⟨fun _ _ => 0, (after.spaces 1).pages⟩
        (tableFrames (after.spaces 2).pgd) := by
  obtain ⟨after, directory, remaps, returned, rfl⟩ := requestAt_opens writableSystem
    0x50000000 0x40000000 rfl rfl (by decide) (by decide)
  have isTable : (5 : Frame) ∈ tableFrames smallSpace.pgd := ⟨0, by decide, by decide, by decide⟩
  refine ⟨_, directory, remaps, returned, isTable, by decide, fun kept => ?_⟩
  have same := kept [.write 0x40000000 7 none]
    (fun access listed => by
      rw [List.mem_singleton.mp listed]
      rintro _ ⟨⟩) 5 isTable
  exact absurd (congrFun same 0) (by decide)

end KernelHacking.PageTable
