/-
Module: KernelHacking.Proofs.WindowPlacement
Layer: Proofs
Purpose: Where the windows of `expose_page_table` lie. Every page that `for_pmd_entry` maps lies in the
  area it is mapped for, and that area is the one of `page_table_addr`, exactly if the address lies in an
  area whenever a slot gets a window, and the area reaches 2048 bytes further whenever a second slot gets
  one. There is never a third window. A call for which there is no room returns an error only if the
  directory cannot be written back.
Imports: KernelHacking.Proofs.ClientReads, KernelHacking.Proofs.WindowWrites
Trusted boundary: none (fully proved)
Main exports: Vma.Contains, Vma.HoldsPage, MapsPage, mapsPage_iff, not_opens_third, InPlace, Placed,
  HasRoom, WindowsStayInside, WellPlaced, windows_inside_iff, window_below_area
Open obligations: none
-/
import KernelHacking.Proofs.ClientReads
import KernelHacking.Proofs.WindowWrites

namespace KernelHacking.PageTable

/-! ### Areas and their pages -/

/-- The address lies in the area. -/
def Vma.Contains (vma : Vma) (addr : ULong) : Prop := vma.vmStart ≤ addr ∧ addr < vma.vmEnd

/-- The whole page lies in the area. -/
def Vma.HoldsPage (vma : Vma) (page : Frame) : Prop := ∀ addr, pageOf addr = page → vma.Contains addr

/-- The bounds of an area are those of pages, so it holds a page whole or not at all. -/
theorem Vma.holdsPage_iff {vma : Vma} {addr : ULong} :
    vma.HoldsPage (pageOf addr) ↔ vma.Contains addr := by
  constructor
  · intro holds
    exact holds addr rfl
  · rintro ⟨above, below⟩ other samePage
    have samePageNat := congrArg BitVec.toNat samePage
    rw [toNat_pageOf, toNat_pageOf] at samePageNat
    have startAligned := toNat_of_aligned vma.aligned.1
    have endAligned := toNat_of_aligned vma.aligned.2
    rw [BitVec.le_def] at above
    rw [BitVec.lt_def] at below
    rw [Vma.Contains, BitVec.le_def, BitVec.lt_def]
    omega

theorem areaAt_eq_some_iff {mm : Mm} {vma : Vma} {addr : ULong} :
    areaAt mm addr = some vma ↔ findVma mm addr = some vma ∧ vma.Contains addr := by
  rw [areaAt, Option.filter_eq_some_iff, decide_eq_true_eq]
  constructor
  · rintro ⟨found, above⟩
    exact ⟨found, above, (findVma_some found).2⟩
  · rintro ⟨found, above, _⟩
    exact ⟨found, above⟩

/-- An area ends before the last page, so 2048 bytes behind an address in it there is an address. -/
theorem Vma.Contains.toNat_add {vma : Vma} {addr : ULong} (inside : vma.Contains addr) :
    (addr + EACH_PTE_SIZE).toNat = addr.toNat + 2048 := by
  have endAligned := toNat_of_aligned vma.aligned.2
  have inRange := vma.vmEnd.isLt
  have below := BitVec.lt_def.mp inside.2
  rw [BitVec.toNat_add, show EACH_PTE_SIZE.toNat = 2048 from rfl]
  omega

/-! ### The pages that are mapped -/

section Windows

variable {kernel : Kernel} {target : Live → Target} {stop : ULong} {live : Live}

/-- Called for a slot, `for_pmd_entry` maps the page into the caller. -/
def MapsPage (kernel : Kernel) (live : Live) (call : Call) (page : Frame) : Prop :=
  (forPmdEntryIn kernel call.pmd call.addr call.next live).state.caller.pages page ≠
    live.caller.pages page

/-- Only a slot that gets a window has a page mapped, and it is the one of the window address. -/
theorem mapsPage_iff {call : Call} {page : Frame} :
    MapsPage kernel live call page ↔ Opens kernel live call ∧ page = pageOf live.pteBase := by
  cases isRefused : refusal kernel live.caller.mm call.pmd live.pteBase with
  | some err =>
      rcases forPmdEntryIn_refused kernel live call isRefused with ⟨after, reply, unopened⟩
      rw [MapsPage, reply, Reply.state, unopened.pages, Opens, isRefused]
      simp
  | none =>
      rw [MapsPage, forPmdEntryIn_remaps kernel live call isRefused]
      by_cases stops : Stops live.caller.pages live.pteBase
      · rw [if_pos stops, Reply.state, Opens]
        simp [stops]
      · have opens : Opens kernel live call := ⟨isRefused, stops⟩
        rw [if_neg stops, Reply.state]
        by_cases same : page = pageOf live.pteBase
        · subst same
          simp [Live.openWindow, Space.openWindow, opens, opens.free]
        · simp [Live.openWindow, Space.openWindow, same]

theorem pageOf_third {base : ULong} (apart : pageOf (base + EACH_PTE_SIZE) ≠ pageOf base) :
    pageOf (base + EACH_PTE_SIZE + EACH_PTE_SIZE) = pageOf (base + EACH_PTE_SIZE) := by
  have inRange := base.isLt
  have apartNat : (pageOf (base + EACH_PTE_SIZE)).toNat ≠ (pageOf base).toNat :=
    fun same => apart (BitVec.eq_of_toNat_eq same)
  apply BitVec.eq_of_toNat_eq
  rw [toNat_pageOf, toNat_pageOf, BitVec.toNat_add, show EACH_PTE_SIZE.toNat = 2048 from rfl] at apartNat
  rw [toNat_pageOf, toNat_pageOf, BitVec.toNat_add, BitVec.toNat_add,
    show EACH_PTE_SIZE.toNat = 2048 from rfl]
  omega

/-- A window is mapped at its page. -/
theorem pages_openWindow (kernel : Kernel) (live : Live) (call : Call) :
    (live.openWindow kernel call).caller.pages (pageOf live.pteBase) =
      some (call.pmd.extractLsb' 12 20) :=
  Function.update_self _ _ _

theorem pteBase_openWindow (kernel : Kernel) (live : Live) (call : Call) :
    (live.openWindow kernel call).pteBase = live.pteBase + EACH_PTE_SIZE := rfl

/-- Two windows start in different pages, and the third would start in the page of the second. -/
theorem not_opens_third {first second third : Call}
    (opens : Opens kernel (live.openWindow kernel first) second) :
    ¬Opens kernel ((live.openWindow kernel first).openWindow kernel second) third := by
  intro opensThird
  have apart : pageOf (live.pteBase + EACH_PTE_SIZE) ≠ pageOf live.pteBase := by
    intro same
    have free := opens.free
    rw [pteBase_openWindow, same, pages_openWindow] at free
    cases free
  have free := opensThird.free
  rw [pteBase_openWindow, pteBase_openWindow, pageOf_third apart, ← pteBase_openWindow kernel live first,
    pages_openWindow] at free
  cases free

/-- A window is opened before the walk has opened another, or behind exactly one. -/
theorem Reach.opens_cases {addr last : ULong} {final : Live} {call : Call}
    (reach : Reach kernel target stop (addr, live) (last, final)) (opens : Opens kernel final call) :
    (last, final) = (addr, live) ∨ OpenStep kernel target stop (addr, live) (last, final) := by
  rcases Relation.ReflTransGen.cases_head reach with same | ⟨middle, step, rest⟩
  · exact Or.inl same.symm
  · rcases Relation.ReflTransGen.cases_head rest with same | ⟨third, secondStep, others⟩
    · exact Or.inr (same ▸ step)
    · cases step with
      | mk _ _ _ =>
          cases secondStep with
          | mk _ opensSecond _ =>
              rcases Relation.ReflTransGen.cases_head others with same | ⟨_, thirdStep, _⟩
              · rw [Prod.mk.injEq] at same
                rw [← same.2] at opens
                exact absurd opens (not_opens_third opensSecond)
              · cases thirdStep with
                | mk _ opensThird _ => exact absurd opensThird (not_opens_third opensSecond)

end Windows

/-! ### The area that is passed to `remap_pfn_range` -/

/-- The area that `for_pmd_entry` passes to `remap_pfn_range` holds the page, and is the area of
    `page_table_addr`. -/
def InPlace (live : Live) (pageTableAddr : ULong) (page : Frame) : Prop :=
  ∃ vma, findVma live.caller.mm live.pteBase = some vma ∧ vma.HoldsPage page ∧
    vma.Contains pageTableAddr

/-- The first window is in place if its address lies in an area at all. -/
theorem inPlace_first_iff {live : Live} :
    InPlace live live.pteBase (pageOf live.pteBase) ↔
      ∃ vma, areaAt live.caller.mm live.pteBase = some vma := by
  constructor
  · rintro ⟨vma, found, _, inside⟩
    exact ⟨vma, areaAt_eq_some_iff.mpr ⟨found, inside⟩⟩
  · rintro ⟨vma, isArea⟩
    rcases areaAt_eq_some_iff.mp isArea with ⟨found, inside⟩
    exact ⟨vma, found, Vma.holdsPage_iff.mpr inside, inside⟩

/-- A window leaves the bounds of the areas alone. -/
theorem findVma_openWindow {kernel : Kernel} {live : Live} {call : Call}
    (opens : Opens kernel live call) :
    ∃ flags : Vma → ULong, ∀ addr, findVma (live.openWindow kernel call).caller.mm addr =
      (findVma live.caller.mm addr).map fun area => area.addFlags (flags area) := by
  rcases refusal_none opens.1 with ⟨vma, found, _⟩
  refine ⟨fun area => if area.vmStart = vma.vmStart then remapFlags vma live.pteBase else 0,
    fun addr => ?_⟩
  simp only [Live.openWindow, Space.openWindow, found]
  exact findVma_addFlags live.caller.mm vma.vmStart (remapFlags vma live.pteBase) addr

/-- The second window is in place if the area of the first one reaches to its address. -/
theorem inPlace_second_iff {kernel : Kernel} {live : Live} {call : Call}
    (opens : Opens kernel live call) :
    InPlace (live.openWindow kernel call) live.pteBase (pageOf (live.pteBase + EACH_PTE_SIZE)) ↔
      ∃ vma, areaAt live.caller.mm live.pteBase = some vma ∧
        live.pteBase.toNat + 2048 < vma.vmEnd.toNat := by
  rcases findVma_openWindow opens with ⟨flags, sameAreas⟩
  rw [InPlace, pteBase_openWindow, sameAreas]
  constructor
  · rintro ⟨flagged, isFlagged, holds, inside⟩
    rcases Option.map_eq_some_iff.mp isFlagged with ⟨vma, found, rfl⟩
    have contains : vma.Contains live.pteBase := inside
    have containsSecond : vma.Contains (live.pteBase + EACH_PTE_SIZE) := Vma.holdsPage_iff.mp holds
    have foundFirst := findVma_eq (findVma_some found).1 contains.1 contains.2
    refine ⟨vma, areaAt_eq_some_iff.mpr ⟨foundFirst, contains⟩, ?_⟩
    rw [← contains.toNat_add]
    exact containsSecond.2
  · rintro ⟨vma, isArea, reaches⟩
    rcases areaAt_eq_some_iff.mp isArea with ⟨found, contains⟩
    rw [← contains.toNat_add] at reaches
    have higher : live.pteBase ≤ live.pteBase + EACH_PTE_SIZE := by
      rw [BitVec.le_def, contains.toNat_add]
      omega
    have containsSecond : vma.Contains (live.pteBase + EACH_PTE_SIZE) :=
      ⟨BitVec.le_trans contains.1 higher, reaches⟩
    have foundSecond := findVma_eq (findVma_some found).1 containsSecond.1 containsSecond.2
    refine ⟨vma.addFlags (flags vma), ?_, ?_, contains⟩
    · rw [foundSecond, Option.map_some]
    · exact Vma.holdsPage_iff.mpr containsSecond

/-! ### Whole calls -/

section Calls

variable (kernel : Kernel) (system : System) (current : Nat) (args : ExposeArgs) (mm : Nat)

/-- Every page that `for_pmd_entry` maps in the walk of the call is in place. -/
def Placed : Prop :=
  ∀ last final call page, Visited kernel system current args mm last final →
    NextCall (walkedSpace system current mm) args.endVaddr last final call →
    MapsPage kernel final call page → InPlace final args.pageTableAddr page

/-- `page_table_addr` lies in an area that has room behind it for the populated slots that the walk of the
    target meets. -/
def HasRoom : Prop :=
  ∃ vma calls, areaAt (system.spaces current).mm args.pageTableAddr = some vma ∧
    Walks (system.spaces mm).mm (system.spaces mm).pgd args.endVaddr args.beginVaddr calls ∧
    args.pageTableAddr.toNat + EACH_PTE_SIZE.toNat * calls.length ≤ vma.vmEnd.toNat

/-- The call returns an error. -/
def ReturnsError : Prop :=
  ∃ code after directory remaps,
    exposeCall kernel system current args = .returned code after directory remaps ∧ code ≠ 0

/-- For the target of the call, the pages that are mapped are in place, and if there is no room the call
    returns an error. -/
def WindowsStayInside : Prop :=
  ∀ mm, system.pids args.pid = .process mm →
    (ComesToWalk kernel system args mm → Placed kernel system current args mm) ∧
    (¬HasRoom system current args mm → ReturnsError kernel system current args)

/-- Each slot that the walk of the call comes to is refused, or its window address is not one that
    `remap_pfn_range` stops at. -/
def NoneStops : Prop :=
  ∀ last final call, Visited kernel system current args mm last final →
    NextCall (walkedSpace system current mm) args.endVaddr last final call →
    refusal kernel final.caller.mm call.pmd final.pteBase ≠ none ∨
      ¬Stops final.caller.pages final.pteBase

/-- Conditions for a call that comes to the walk: if the first populated slot gets a window,
    `page_table_addr` lies in an area; if the second one gets one too, this area reaches more than 2048
    bytes further; and if there is no room, the directory cannot be written back, and no slot that the
    walk comes to stops the kernel. -/
structure WellPlaced : Prop where
  first : ∀ call, NextCall (walkedSpace system current mm) args.endVaddr args.beginVaddr
      (Live.start system current args.pageTableAddr) call →
    Opens kernel (Live.start system current args.pageTableAddr) call →
    ∃ vma, areaAt (system.spaces current).mm args.pageTableAddr = some vma
  second : ∀ last final call, OpenStep kernel (walkedSpace system current mm) args.endVaddr
      (args.beginVaddr, Live.start system current args.pageTableAddr) (last, final) →
    NextCall (walkedSpace system current mm) args.endVaddr last final call → Opens kernel final call →
    ∃ vma, areaAt (system.spaces current).mm args.pageTableAddr = some vma ∧
      args.pageTableAddr.toNat + 2048 < vma.vmEnd.toNat
  reported : ¬HasRoom system current args mm → kernel.copyToUser args.fakePgd = false ∧
    NoneStops kernel system current args mm

variable {kernel system current args mm}

/-- A call that does not come to the walk returns an error. -/
theorem returned_error (process : system.pids args.pid = .process mm)
    (never : ¬ComesToWalk kernel system args mm) : ReturnsError kernel system current args := by
  have neverAny : ∀ other, ¬ComesToWalk kernel system args other := by
    intro other comes
    have same := comes.process
    rw [process, PidState.process.injEq] at same
    exact never (same ▸ comes)
  rcases exposeCall_early neverAny with ⟨_, noProcess⟩ | ⟨code, isError, ends⟩
  · exact absurd process (noProcess mm)
  · exact ⟨code, system, none, [], ends, isError⟩

/-- The walk finishes exactly if no slot that it comes to stops the kernel. -/
theorem noneStops_iff (nonempty : args.beginVaddr < args.endVaddr) :
    NoneStops kernel system current args mm ↔
      ∃ err live, walkOf kernel system current args mm = some (.finished err live) := by
  have positive : 0 < args.endVaddr := by bv_omega
  rcases exists_ending kernel (walkedSpace system current mm) positive args.beginVaddr
    (Live.start system current args.pageTableAddr) with ⟨last, final, reply, reach, ending⟩
  have walked : walkOf kernel system current args mm = some reply :=
    walkPageRangeIn_eq nonempty reach ending
  constructor
  · intro noneStops
    cases reply with
    | finished err live => exact ⟨err, live, walked⟩
    | oops live =>
        cases ending with
        | stopped next allowed stops _ =>
            rcases noneStops last final _ reach next with refused | runs
            · exact absurd allowed refused
            · exact absurd stops runs
  · rintro ⟨err, live, finished⟩ point state call visited next
    rw [walked, Option.some.injEq] at finished
    subst finished
    by_contra bad
    have allowed : refusal kernel state.caller.mm call.pmd state.pteBase = none := by
      by_contra refused
      exact bad (Or.inl refused)
    have stops : Stops state.caller.pages state.pteBase := by
      by_contra runs
      exact bad (Or.inr runs)
    -- from such a point the walk has another ending
    rcases forPmdEntryIn_stops kernel state call allowed stops with ⟨after, reply⟩
    have other : walkOf kernel system current args mm = some (.oops after) :=
      walkPageRangeIn_eq nonempty visited (.stopped next allowed stops reply)
    rw [walked] at other
    cases other

/-- A call that comes to the walk returns an error exactly if no slot stops the kernel and the directory
    cannot be written back. -/
theorem returned_error_iff (comes : ComesToWalk kernel system args mm) :
    ReturnsError kernel system current args ↔ kernel.copyToUser args.fakePgd = false ∧
      NoneStops kernel system current args mm := by
  have positive : 0 < args.endVaddr := by
    have nonempty := comes.nonempty
    bv_omega
  rcases exists_ending kernel (walkedSpace system current mm) positive args.beginVaddr
    (Live.start system current args.pageTableAddr) with ⟨last, final, reply, reach, ending⟩
  have walked : walkOf kernel system current args mm = some reply :=
    walkPageRangeIn_eq comes.nonempty reach ending
  rw [ReturnsError, noneStops_iff comes.nonempty, exposeCall_eq comes walked]
  cases reply with
  | oops live => simp [walked]
  | finished err live =>
      cases copied : kernel.copyToUser args.fakePgd with
      | true => simp
      | false => simp [walked, EFAULT]

/-- The page of the first window is in place, so its address lies in an area. -/
theorem Placed.first (placed : Placed kernel system current args mm) {call : Call}
    (next : NextCall (walkedSpace system current mm) args.endVaddr args.beginVaddr
      (Live.start system current args.pageTableAddr) call)
    (opens : Opens kernel (Live.start system current args.pageTableAddr) call) :
    ∃ vma, areaAt (system.spaces current).mm args.pageTableAddr = some vma :=
  inPlace_first_iff.mp (placed _ _ call _ .refl next (mapsPage_iff.mpr ⟨opens, rfl⟩))

/-- The page of the second window is in place, so the area reaches to it. -/
theorem Placed.second (placed : Placed kernel system current args mm) {last : ULong} {final : Live}
    {call : Call}
    (step : OpenStep kernel (walkedSpace system current mm) args.endVaddr
      (args.beginVaddr, Live.start system current args.pageTableAddr) (last, final))
    (next : NextCall (walkedSpace system current mm) args.endVaddr last final call)
    (opens : Opens kernel final call) :
    ∃ vma, areaAt (system.spaces current).mm args.pageTableAddr = some vma ∧
      args.pageTableAddr.toNat + 2048 < vma.vmEnd.toNat := by
  have inPlace := placed last final call _ (.single step) next (mapsPage_iff.mpr ⟨opens, rfl⟩)
  cases step with
  | mk _ opensFirst _ => exact (inPlace_second_iff opensFirst).mp inPlace

/-- Nothing but the pages of these two windows is mapped. -/
theorem WellPlaced.placed (wellPlaced : WellPlaced kernel system current args mm) :
    Placed kernel system current args mm := by
  intro last final call page reach next maps
  rcases mapsPage_iff.mp maps with ⟨opens, rfl⟩
  rcases reach.opens_cases opens with same | step
  · rw [Prod.mk.injEq] at same
    rcases same with ⟨rfl, rfl⟩
    exact inPlace_first_iff.mpr (wellPlaced.first call next opens)
  · have reaches := wellPlaced.second last final call step next opens
    cases step with
    | mk _ opensFirst _ => exact (inPlace_second_iff opensFirst).mpr reaches

/-- The windows stay inside the area of the caller exactly if the call does not come to the walk, or
    `page_table_addr` is well placed. -/
theorem windows_inside_iff (kernel : Kernel) (system : System) (current : Nat) (args : ExposeArgs) :
    WindowsStayInside kernel system current args ↔
      ∀ mm, ComesToWalk kernel system args mm → WellPlaced kernel system current args mm := by
  constructor
  · intro inside mm comes
    rcases inside mm comes.process with ⟨comesPlaced, reported⟩
    have placed := comesPlaced comes
    constructor
    · intro call next opens
      exact placed.first next opens
    · intro last final call step next opens
      exact placed.second step next opens
    · intro noRoom
      exact (returned_error_iff comes).mp (reported noRoom)
  · intro wellPlaced mm process
    constructor
    · intro comes
      exact (wellPlaced mm comes).placed
    · intro noRoom
      by_cases comes : ComesToWalk kernel system args mm
      · exact (returned_error_iff comes).mpr ((wellPlaced mm comes).reported noRoom)
      · exact returned_error process comes

/-- A page-aligned address in an area with room for the slots is well placed: there is one window. -/
theorem HasRoom.wellPlaced (aligned : args.pageTableAddr &&& 0xFFF = 0)
    (room : HasRoom system current args mm) : WellPlaced kernel system current args mm := by
  constructor
  · intro _ _ _
    rcases room with ⟨vma, _, isArea, _⟩
    exact ⟨vma, isArea⟩
  · intro last final call step _ opens
    cases step with
    | mk _ _ _ => exact absurd opens (not_opens_second aligned)
  · intro noRoom
    exact absurd room noRoom

end Calls

/-- The request for the first slot has room in the area of the caller. -/
example : WellPlaced obliging smallSystem 1 (firstSlot 2) 2 :=
  HasRoom.wellPlaced (by decide) ⟨_, [⟨pmdPopulate 5, 0x1000, 0x2000⟩], rfl,
    .last rfl (by decide), by decide⟩

/-- A request with the page below the area of the caller as the place for the windows. -/
def belowArea : ExposeArgs := ⟨2, 0x50000000, 0x3FFFF000, 0x1000, 0x2000⟩

/-- The address lies in no area. The page there is mapped for the area above, and the call returns 0. -/
theorem window_below_area :
    areaAt (smallSystem.spaces 1).mm belowArea.pageTableAddr = none ∧
    (∃ after directory remaps,
      exposeCall obliging smallSystem 1 belowArea = .returned 0 after directory remaps ∧
      (after.spaces 1).pages (pageOf belowArea.pageTableAddr) = some 5) ∧
    ¬WindowsStayInside obliging smallSystem 1 belowArea := by
  have outside : areaAt (smallSystem.spaces 1).mm belowArea.pageTableAddr = none := rfl
  have next : NextCall (walkedSpace smallSystem 1 2) 0x2000 0x1000
      (Live.start smallSystem 1 0x3FFFF000) ⟨pmdPopulate 5, 0x1000, 0x2000⟩ :=
    firstSlot_next (by decide) rfl
  have opens : Opens obliging (Live.start smallSystem 1 0x3FFFF000) ⟨pmdPopulate 5, 0x1000, 0x2000⟩ := by
    decide
  have comes : ComesToWalk obliging smallSystem belowArea 2 := ⟨by decide, rfl, rfl, by decide⟩
  refine ⟨outside, ?_, fun inside => ?_⟩
  · have walked : walkOf obliging smallSystem 1 belowArea 2 = some (.finished 0 _) :=
      walkPageRangeIn_eq (by decide) .refl (.last next opens rfl)
    refine ⟨_, _, _, exposeCall_eq comes walked, ?_⟩
    rw [setSpace_self]
    exact (pages_openWindow _ _ _).trans (congrArg some (pmdPopulate_frame 5))
  · rcases ((inside 2 rfl).1 comes).first next opens with ⟨vma, isArea⟩
    rw [outside] at isArea
    cases isArea

end KernelHacking.PageTable
