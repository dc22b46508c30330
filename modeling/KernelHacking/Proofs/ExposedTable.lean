/-
Module: KernelHacking.Proofs.ExposedTable
Layer: Proofs
Purpose: What the caller sees after `expose_page_table`. With a page-aligned place for the windows, the
  first populated slot that the walk comes to gets a window on its second-level table. The window of a
  second one would start in the middle of the page that is mapped already, and `remap_pte_range` stops the
  kernel there. So the call does what it is for exactly if the walk comes to no second slot and every
  populated slot of the range is the first one. A caller that asks for its own tables changes its address
  space with the window, and the second slot is looked for in the changed one.
Imports: KernelHacking.Proofs.RequestedSlots
Trusted boundary: none (fully proved)
Main exports: pmdPopulate_frame, readUser_window, not_opens_second, Reach.aligned, Space.remapped, Request,
  Request.Exposed, Request.Correct, Request.opens_first, Request.correct_iff, Request.second_window_stops
Open obligations: none
-/
import KernelHacking.Proofs.RequestedSlots

namespace KernelHacking.PageTable

/-! ### Words and pages -/

/-- The word of a populated slot is the frame number above twelve fixed bits. -/
theorem toNat_pmdPopulate (frame : Frame) :
    (pmdPopulate frame).toNat = frame.toNat * 2 ^ 12 + 0x831 := by
  have inRange := frame.isLt
  have shifted : (frame ++ 0#12).toNat = frame.toNat * 2 ^ 12 := by
    rw [BitVec.toNat_append, Nat.shiftLeft_eq]
    exact Nat.or_zero _
  have hardware : ((frame ++ 0#12) + (2048 : ULong)).toNat = (frame.toNat * 2 + 1) <<< 11 := by
    rw [BitVec.toNat_add, shifted, show (2048 : ULong).toNat = 2048 from rfl, Nat.shiftLeft_eq]
    omega
  rw [pmdPopulate, BitVec.toNat_or, hardware, show (0x31 : ULong).toNat = 0x31 from rfl,
    ← Nat.shiftLeft_add_eq_or_of_lt (by decide), Nat.shiftLeft_eq]
  omega

theorem pmdPopulate_ne_zero (frame : Frame) : pmdPopulate frame ≠ 0 := by
  intro isZero
  have value := toNat_pmdPopulate frame
  rw [isZero] at value
  simp at value

theorem pmdPopulate_not_bad (frame : Frame) : pmdPopulate frame &&& 2 = 0 := by
  apply BitVec.eq_of_getLsbD_eq
  intro i inside
  have bits : (2 : ULong).getLsbD i = decide (i = 1) := by
    revert i
    decide
  rw [BitVec.getLsbD_and, bits, show BitVec.getLsbD (0 : ULong) i = false from BitVec.getLsbD_zero]
  by_cases second : i = 1
  · have value := toNat_pmdPopulate frame
    rw [second, ← BitVec.testBit_toNat, value, Nat.testBit_succ, Nat.testBit_zero]
    simp only [decide_true, Bool.and_true, decide_eq_false_iff_not]
    omega
  · simp [second]

theorem pmdPopulate_frame (frame : Frame) : (pmdPopulate frame).extractLsb' 12 20 = frame := by
  have inRange := frame.isLt
  apply BitVec.eq_of_toNat_eq
  rw [BitVec.extractLsb'_toNat, toNat_pmdPopulate, Nat.shiftRight_eq_div_pow]
  omega

theorem toNat_pageOf (addr : ULong) : (pageOf addr).toNat = addr.toNat / 2 ^ 12 := by
  have inRange := addr.isLt
  rw [pageOf, BitVec.extractLsb'_toNat, Nat.shiftRight_eq_div_pow]
  omega

theorem toNat_of_aligned {addr : ULong} (aligned : addr &&& 0xFFF = 0) : addr.toNat % 2 ^ 12 = 0 := by
  rw [← Word.toNat_and_low (show Word.LowMask 12 (0xFFF : ULong) by decide), aligned]
  rfl

/-- The words of a window lie in one page, one behind the other. -/
theorem readUser_window {ram : Ram} {pages : Pages} {base : ULong} {frame : Frame}
    (aligned : base &&& 0xFFF = 0) (mapped : pages (pageOf base) = some frame) {j : Nat}
    (inside : j < 1024) : readUser ram pages (base + BitVec.ofNat 32 (4 * j)) = some (ram frame j) := by
  have alignedNat := toNat_of_aligned aligned
  have inRange := base.isLt
  have sum : (base + BitVec.ofNat 32 (4 * j)).toNat = base.toNat + 4 * j := by
    rw [BitVec.toNat_add, BitVec.toNat_ofNat]
    omega
  have samePage : pageOf (base + BitVec.ofNat 32 (4 * j)) = pageOf base := by
    apply BitVec.eq_of_toNat_eq
    rw [toNat_pageOf, toNat_pageOf, sum]
    omega
  have offset : (((base + BitVec.ofNat 32 (4 * j)) &&& 0xFFF) >>> 2).toNat = j := by
    rw [Word.toNat_shift, Word.toNat_and_low (show Word.LowMask 12 (0xFFF : ULong) by decide), sum]
    omega
  rw [readUser, samePage, mapped, Option.map_some, offset]

theorem directory_some {tables : Nat → Option Frame} {slot : Nat} {frame : Frame}
    (populated : tables slot = some frame) : directory tables slot = pmdPopulate frame := by
  rw [directory, populated]

theorem directory_ne_zero {tables : Nat → Option Frame} {slot : Nat} :
    directory tables slot ≠ 0 ↔ tables slot ≠ none := by
  cases populated : tables slot with
  | none => simp [directory, populated]
  | some frame =>
      rw [directory_some populated]
      simp only [ne_eq, reduceCtorEq, not_false_eq_true, iff_true]
      exact pmdPopulate_ne_zero frame

/-- A page does not cross a slot boundary. -/
theorem pgdAddrEnd_page {addr : ULong} (aligned : addr &&& 0xFFF = 0)
    (noWrap : addr.toNat + 2 ^ 12 < 2 ^ 32) : pgdAddrEnd addr (addr + PAGE_SIZE) = addr + PAGE_SIZE := by
  have alignedNat := toNat_of_aligned aligned
  have sum : (addr + PAGE_SIZE).toNat = addr.toNat + 2 ^ 12 := by
    rw [BitVec.toNat_add, show PAGE_SIZE.toNat = 2 ^ 12 from rfl]
    omega
  have positive : 0 < addr + PAGE_SIZE := by
    rw [BitVec.lt_def, sum]
    exact Nat.lt_of_lt_of_le (by decide) (Nat.le_add_left _ _)
  rcases pgdAddrEnd_cases addr positive with ⟨ends, _⟩ | ⟨boundary, lower⟩
  · exact ends
  · rw [BitVec.lt_def, boundary, sum] at lower
    rw [pgdIndex_eq] at lower
    omega

/-! ### One window for an aligned address -/

section Aligned

variable {kernel : Kernel} {target : Live → Target} {stop : ULong}

/-- The window behind that of an aligned address starts in the same page. -/
theorem pageOf_second {base : ULong} (aligned : base &&& 0xFFF = 0) :
    pageOf (base + EACH_PTE_SIZE) = pageOf base := by
  have alignedNat := toNat_of_aligned aligned
  have inRange := base.isLt
  apply BitVec.eq_of_toNat_eq
  rw [toNat_pageOf, toNat_pageOf, BitVec.toNat_add, show EACH_PTE_SIZE.toNat = 2 ^ 11 from rfl]
  omega

/-- So no second window is opened. -/
theorem not_opens_second {live : Live} {first second : Call} (aligned : live.pteBase &&& 0xFFF = 0) :
    ¬Opens kernel (live.openWindow kernel first) second := by
  intro opens
  apply opens.2
  have taken : ((live.openWindow kernel first).caller.pages
      (pageOf (live.pteBase + EACH_PTE_SIZE))).isSome = true := by
    rw [pageOf_second aligned]
    simp [Live.openWindow, Space.openWindow]
  exact Or.inr (Or.inl taken)

/-- A walk with an aligned window address ends before or behind its first window. -/
theorem Reach.aligned {addr last : ULong} {live final : Live} (aligned : live.pteBase &&& 0xFFF = 0)
    (reach : Reach kernel target stop (addr, live) (last, final)) :
    (last, final) = (addr, live) ∨ ∃ call, NextCall target stop addr live call ∧
      Opens kernel live call ∧ final = live.openWindow kernel call := by
  rcases Relation.ReflTransGen.cases_head reach with same | ⟨middle, step, rest⟩
  · exact Or.inl same.symm
  · cases step with
    | mk next opens more =>
        rcases Relation.ReflTransGen.cases_head rest with same | ⟨_, second, _⟩
        · rw [Prod.mk.injEq] at same
          exact Or.inr ⟨_, next, opens, same.2.symm⟩
        · cases second with
          | mk _ opens' _ => exact absurd opens' (not_opens_second aligned)

end Aligned

/-! ### The address space behind a window -/

/-- The first area that ends above an address, once flags have been set. -/
theorem findVma_addFlags (mm : Mm) (start flags addr : ULong) :
    findVma (mm.addFlags start flags) addr =
      (findVma mm addr).map fun area => area.addFlags (if area.vmStart = start then flags else 0) := by
  rw [findVma, Mm.addFlags, List.find?_map]
  rfl

/-- The flags that `remap_pfn_range` sets do not make an area private. -/
theorem isCowMapping_addFlags (area vma : Vma) (addr start : ULong) :
    isCowMapping (area.addFlags (if area.vmStart = start then remapFlags vma addr else 0)).vmFlags =
      isCowMapping area.vmFlags := by
  have kept : (if area.vmStart = start then remapFlags vma addr else 0) &&&
      (VM_SHARED ||| VM_MAYWRITE) = 0 := by
    rw [remapFlags]
    split
    · split
      · decide
      · decide
    · decide
  have same : (area.addFlags (if area.vmStart = start then remapFlags vma addr else 0)).vmFlags &&&
      (VM_SHARED ||| VM_MAYWRITE) = area.vmFlags &&& (VM_SHARED ||| VM_MAYWRITE) := by
    rw [Vma.addFlags, BitVec.and_or_distrib_right, kept]
    exact BitVec.or_zero
  rw [isCowMapping, same]
  rfl

/-- The areas and the directory of the caller once a window has been opened at the address. -/
def Space.remapped (kernel : Kernel) (space : Space) (base : ULong) : Target where
  mm := match findVma space.mm base with
    | none => space.mm
    | some vma => space.mm.addFlags vma.vmStart (remapFlags vma base)
  pgd := populate kernel space.pgd (pgdIndex base)

/-- The address space that the walk of a call reads once it has opened its first window. -/
def openedSpace (kernel : Kernel) (system : System) (current : Nat) (args : ExposeArgs) (mm : Nat) :
    Target :=
  if mm = current then (system.spaces current).remapped kernel args.pageTableAddr
  else (system.spaces mm).toTarget

theorem walkedSpace_start (system : System) (current mm : Nat) (pageTableAddr : ULong) :
    walkedSpace system current mm (Live.start system current pageTableAddr) =
      (system.spaces mm).toTarget := by
  rw [walkedSpace]
  split
  · rename_i own
    rw [own]
    rfl
  · rfl

/-! ### The first window of a call -/

/-- There is a place for a window at the address: it is the start of a page that is not mapped, the area
there is shared, and there is memory for a second-level table. The word of the slot is that of a table
in a valid frame. -/
structure WindowFits (kernel : Kernel) (caller : Space) (base pmd : ULong) : Prop where
  aligned : base &&& 0xFFF = 0
  unmapped : caller.pages (pageOf base) = none
  isShared : ∃ vma, findVma caller.mm base = some vma ∧ isCowMapping vma.vmFlags = false
  memory : kernel.pteAlloc (pageOf base) = true
  table : pmd &&& 2 = 0
  valid : kernel.pfnValid (pmd.extractLsb' 12 20) = true

/-- A page-aligned address in front of the end of an area leaves room for a page. -/
theorem not_wraps {vma : Vma} {base : ULong} (aligned : base &&& 0xFFF = 0) (below : base < vma.vmEnd) :
    base.toNat + 2 ^ 12 < 2 ^ 32 := by
  have alignedNat := toNat_of_aligned aligned
  have endAligned := toNat_of_aligned vma.aligned.2
  have inRange := vma.vmEnd.isLt
  rw [BitVec.lt_def] at below
  omega

section FirstWindow

variable {kernel : Kernel} {system : System} {current mm : Nat} {args : ExposeArgs}

/-- Where there is a place for it, a window is opened. -/
theorem WindowFits.opens {call : Call}
    (fits : WindowFits kernel (system.spaces current) args.pageTableAddr call.pmd) :
    Opens kernel (Live.start system current args.pageTableAddr) call := by
  obtain ⟨vma, found, isShared⟩ := fits.isShared
  have inside := not_wraps fits.aligned (findVma_some found).2
  have good : ¬call.pmd &&& 2 ≠ 0 := fun bad => bad fits.table
  refine ⟨?_, ?_⟩
  · have foundFirst : findVma (Live.start system current args.pageTableAddr).caller.mm
        (Live.start system current args.pageTableAddr).pteBase = some vma := found
    have memory : kernel.pteAlloc (pageOf (Live.start system current args.pageTableAddr).pteBase) =
        true := fits.memory
    simp only [refusal, foundFirst, if_neg good, fits.valid, isShared, memory, Bool.true_eq_false,
      Bool.false_eq_true, and_false, if_false, ite_self]
  · rintro (wraps | taken | crosses)
    · have sum : (args.pageTableAddr + PAGE_SIZE).toNat = args.pageTableAddr.toNat + 2 ^ 12 := by
        rw [BitVec.toNat_add, show PAGE_SIZE.toNat = 2 ^ 12 from rfl]
        omega
      have wrapsNat : (args.pageTableAddr + PAGE_SIZE).toNat ≤ args.pageTableAddr.toNat :=
        BitVec.le_def.mp wraps
      omega
    · exact absurd taken (by simp [Live.start, fits.unmapped])
    · have page : pgdAddrEnd args.pageTableAddr (args.pageTableAddr + PAGE_SIZE) =
          args.pageTableAddr + PAGE_SIZE := pgdAddrEnd_page fits.aligned inside
      exact crosses page

/-- A walk of the target without calls meets nothing. -/
theorem noCall_start (current : Nat)
    (walks : Walks (system.spaces mm).mm (system.spaces mm).pgd args.endVaddr args.beginVaddr []) :
    NoCall (walkedSpace system current mm) args.endVaddr args.beginVaddr
      (Live.start system current args.pageTableAddr) := by
  rw [NoCall, walkedSpace_start]
  exact walks

/-- The first call of a walk of the target is the next one of the live walk. -/
theorem nextCall_start (current : Nat) {call : Call} {rest : List Call}
    (walks : Walks (system.spaces mm).mm (system.spaces mm).pgd args.endVaddr args.beginVaddr
      (call :: rest)) :
    NextCall (walkedSpace system current mm) args.endVaddr args.beginVaddr
      (Live.start system current args.pageTableAddr) call := by
  refine ⟨rest, ?_⟩
  rw [walkedSpace_start]
  exact walks

/-- Where the walk goes on behind its first slot: nowhere, or over the address space with the window
open. -/
theorem behind_cases {start : Target} {call : Call} {rest : List Call} (positive : 0 < args.endVaddr)
    (walks : Walks start.mm start.pgd args.endVaddr args.beginVaddr (call :: rest)) (target : Target) :
    (call.next = args.endVaddr ∧
      ∀ other, ¬ReachedBehind target args.endVaddr (pgdIndex call.addr) other) ∨
      (call.next ≠ args.endVaddr ∧ call.next < args.endVaddr ∧
        ∀ other, ReachedBehind target args.endVaddr (pgdIndex call.addr) other ↔
          Reached target call.next args.endVaddr other) := by
  have isNext := walks.next_eq List.mem_cons_self
  rcases pgdAddrEnd_cases call.addr positive with ⟨ends, inside⟩ | ⟨boundary, lower⟩
  · refine Or.inl ⟨isNext.trans ends, fun other behind => ?_⟩
    have := behind.1
    omega
  · rw [← isNext] at boundary lower
    have isBoundary : call.next = BitVec.ofNat 32 ((pgdIndex call.addr + 1) * 2 ^ 21) := by
      apply BitVec.eq_of_toNat_eq
      rw [BitVec.toNat_ofNat, ← boundary, Nat.mod_eq_of_lt call.next.isLt]
    refine Or.inr ⟨fun same => ?_, lower, fun other => ?_⟩
    · rw [same] at lower
      bv_omega
    · rw [ReachedBehind, ← isBoundary, ← boundary]
      exact and_iff_right (BitVec.lt_def.mp lower)

end FirstWindow

/-! ### Requests -/

/-- A request for the page table of a process, with what both clients and the kernel see to: the window area
is 2^22 bytes of a shared area of the caller, page-aligned and not mapped yet, the null page is not
mapped, the target's directory points to second-level tables, and no service refuses. The target may be
the caller itself. -/
structure Request where
  kernel : Kernel
  system : System
  current : Nat
  args : ExposeArgs
  mm : Nat
  tables : Nat → Option Frame
  ram : Ram
  process : system.pids args.pid = .process mm
  isDirectory : (system.spaces mm).pgd = directory tables
  nonempty : args.beginVaddr < args.endVaddr
  aligned : args.pageTableAddr &&& 0xFFF = 0
  somewhere : args.pageTableAddr ≠ 0
  reserved : ∃ vma ∈ (system.spaces current).mm.mmap, vma.vmStart ≤ args.pageTableAddr ∧
    args.pageTableAddr.toNat + 2 ^ 22 ≤ vma.vmEnd.toNat ∧ isCowMapping vma.vmFlags = false
  unmapped : ∀ offset < 2 ^ 22,
    (system.spaces current).pages (pageOf (args.pageTableAddr + BitVec.ofNat 32 offset)) = none
  nullUnmapped : (system.spaces current).pages 0 = none
  framesValid : ∀ slot frame, tables slot = some frame → kernel.pfnValid frame = true
  freshValid : ∀ slot, kernel.pfnValid (kernel.freshTable slot) = true
  allocates : ∀ page, kernel.pteAlloc page = true
  kmallocs : kernel.kmalloc = true
  copies : kernel.copyToUser args.fakePgd = true

namespace Request

/-- The address space that is asked for, when the call is made. -/
def target (request : Request) : Target := (request.system.spaces request.mm).toTarget

/-- The address space that is asked for, once a window is open. -/
def opened (request : Request) : Target :=
  openedSpace request.kernel request.system request.current request.args request.mm

/-- The system call on the request. -/
def outcome (request : Request) : CallEnd :=
  exposeCall request.kernel request.system request.current request.args

/-- The slot overlaps the range. -/
def Overlaps (request : Request) (slot : Nat) : Prop :=
  pgdIndex request.args.beginVaddr ≤ slot ∧ slot ≤ pgdIndex (request.args.endVaddr - 1)

/-- The window of the slot shows the Linux entries of its second-level table. -/
def Shows (request : Request) (after : System) (fakePgd : Nat → ULong) (slot : Nat) (frame : Frame) :
    Prop :=
  ∀ j < 512, readUser request.ram (after.spaces request.current).pages
    (fakePgd slot + BitVec.ofNat 32 (4 * j)) = some (request.ram frame j)

/-- What the caller finds after a successful call. -/
structure Exposed (request : Request) (after : System) (fakePgd : Nat → ULong) : Prop where
  shown : ∀ slot frame, request.tables slot = some frame → request.Overlaps slot →
    request.Shows after fakePgd slot frame
  pages : ∀ slot, fakePgd slot ≠ 0 → fakePgd slot &&& 0xFFF = 0
  disjoint : ∀ first second, fakePgd first ≠ 0 → fakePgd second ≠ 0 →
    fakePgd first = fakePgd second → first = second
  inside : ∀ slot, fakePgd slot ≠ 0 → request.args.pageTableAddr ≤ fakePgd slot ∧
    (fakePgd slot).toNat + 2 ^ 12 ≤ request.args.pageTableAddr.toNat + 2 ^ 22
  unexposed : ∀ slot, fakePgd slot = 0 ∨
    ∃ frame, request.tables slot = some frame ∧ request.Shows after fakePgd slot frame

/-- The call keeps the requirement of `remap_pfn_range`, and after success the table is exposed. -/
def Correct (request : Request) : Prop :=
  match request.outcome with
  | .returned code after directory _ =>
      code = 0 → ∃ fakePgd, directory = some fakePgd ∧ request.Exposed after fakePgd
  | .oops => False
  | .hangs => False

/-- The slot is the first one that the walk comes to. -/
def First (request : Request) (slot : Nat) : Prop :=
  FirstReached request.target request.args.beginVaddr request.args.endVaddr slot

/-- Behind this slot, with its window open, the walk comes to another one. -/
def Behind (request : Request) (slot other : Nat) : Prop :=
  ReachedBehind request.opened request.args.endVaddr slot other

theorem comes (request : Request) :
    ComesToWalk request.kernel request.system request.args request.mm :=
  ⟨request.nonempty, request.process, request.kmallocs, request.somewhere⟩

theorem stop_pos (request : Request) : 0 < request.args.endVaddr := by
  have := request.nonempty
  bv_omega

/-- A populated slot has a second-level table. -/
theorem target_word (request : Request) {slot : Nat} (populated : request.target.pgd slot ≠ 0) :
    ∃ frame, request.tables slot = some frame ∧ request.target.pgd slot = pmdPopulate frame ∧
      request.kernel.pfnValid frame = true := by
  have isWord : request.target.pgd slot = directory request.tables slot :=
    congrFun request.isDirectory slot
  rw [isWord] at populated ⊢
  obtain ⟨frame, isFrame⟩ := Option.ne_none_iff_exists'.mp (directory_ne_zero.mp populated)
  exact ⟨frame, isFrame, directory_some isFrame, request.framesValid slot frame isFrame⟩

/-- So it has once a window is open, which may have needed a table in the caller. -/
theorem opened_word (request : Request) {slot : Nat} (populated : request.opened.pgd slot ≠ 0) :
    ∃ frame, request.opened.pgd slot = pmdPopulate frame ∧ request.kernel.pfnValid frame = true := by
  have old : request.target.pgd slot ≠ 0 →
      ∃ frame, request.target.pgd slot = pmdPopulate frame ∧ request.kernel.pfnValid frame = true := by
    intro wasPopulated
    obtain ⟨frame, _, isWord, valid⟩ := request.target_word wasPopulated
    exact ⟨frame, isWord, valid⟩
  rw [opened, openedSpace] at populated ⊢
  by_cases own : request.mm = request.current
  · have same : request.target = (request.system.spaces request.current).toTarget := by
      rw [target, own]
    rw [same] at old
    simp only [if_pos own, Space.remapped, populate] at populated ⊢
    split at populated
    · rename_i empty
      rw [if_pos empty]
      by_cases here : slot = pgdIndex request.args.pageTableAddr
      · rw [here, Function.update_self]
        exact ⟨_, rfl, request.freshValid _⟩
      · rw [Function.update_of_ne here] at populated ⊢
        exact old populated
    · rename_i filled
      rw [if_neg filled]
      exact old populated
  · rw [if_neg own] at populated ⊢
    exact old populated

/-- The area of the windows, which contains the whole reserve. -/
theorem findVma_reserve (request : Request) {base : ULong} (above : request.args.pageTableAddr ≤ base)
    (below : base.toNat < request.args.pageTableAddr.toNat + 2 ^ 22) :
    ∃ vma, findVma (request.system.spaces request.current).mm base = some vma ∧
      isCowMapping vma.vmFlags = false := by
  obtain ⟨vma, listed, starts, ends, isShared⟩ := request.reserved
  exact ⟨vma, findVma_eq listed (BitVec.le_trans starts above) (by rw [BitVec.lt_def]; omega), isShared⟩

/-- A table is not refused a window in a shared area. -/
theorem refusal_shared (request : Request) {mm : Mm} {base : ULong} {vma : Vma} {frame : Frame}
    (found : findVma mm base = some vma) (isShared : isCowMapping vma.vmFlags = false)
    (valid : request.kernel.pfnValid frame = true) :
    refusal request.kernel mm (pmdPopulate frame) base = none := by
  have good : ¬pmdPopulate frame &&& 2 ≠ 0 := by
    rw [pmdPopulate_not_bad]
    exact fun bad => bad rfl
  simp only [refusal, found, if_neg good, pmdPopulate_frame, valid, isShared, request.allocates,
    Bool.true_eq_false, Bool.false_eq_true, and_false, if_false, ite_self]

/-- The first slot gets its window, at the start of the reserve. -/
theorem opens_first (request : Request) {call : Call} {frame : Frame}
    (isWord : call.pmd = pmdPopulate frame) (valid : request.kernel.pfnValid frame = true) :
    Opens request.kernel (Live.start request.system request.current request.args.pageTableAddr) call := by
  have free := request.unmapped 0 (by decide)
  rw [show request.args.pageTableAddr + BitVec.ofNat 32 0 = request.args.pageTableAddr from
    BitVec.add_zero _] at free
  refine WindowFits.opens ⟨request.aligned, free,
    request.findVma_reserve (BitVec.le_refl _) (by omega), request.allocates _, ?_, ?_⟩
  · rw [isWord]
    exact pmdPopulate_not_bad frame
  · rw [isWord, pmdPopulate_frame]
    exact valid

/-- The second slot stops the kernel: its window starts in the page of the first. -/
theorem stops_second (request : Request) {first second : Call} {addr : ULong} {frame : Frame}
    (next : NextCall (walkedSpace request.system request.current request.mm) request.args.endVaddr addr
      ((Live.start request.system request.current request.args.pageTableAddr).openWindow
        request.kernel first) second)
    (opens : Opens request.kernel
      (Live.start request.system request.current request.args.pageTableAddr) first)
    (isWord : second.pmd = pmdPopulate frame) (valid : request.kernel.pfnValid frame = true) :
    ∃ after, Ending request.kernel (walkedSpace request.system request.current request.mm)
      request.args.endVaddr addr
      ((Live.start request.system request.current request.args.pageTableAddr).openWindow
        request.kernel first) (.oops after) := by
  have alignedNat := toNat_of_aligned request.aligned
  have sum : (request.args.pageTableAddr + EACH_PTE_SIZE).toNat =
      request.args.pageTableAddr.toNat + 2 ^ 11 := by
    have inRange := request.args.pageTableAddr.isLt
    rw [BitVec.toNat_add, show EACH_PTE_SIZE.toNat = 2 ^ 11 from rfl]
    omega
  obtain ⟨area, foundArea, isShared⟩ := request.findVma_reserve
    (show request.args.pageTableAddr ≤ request.args.pageTableAddr + EACH_PTE_SIZE by
      rw [BitVec.le_def, sum]
      omega) (by omega)
  -- the flags of the first window leave the area shared
  obtain ⟨vma, found, _⟩ := refusal_none opens.1
  have foundFirst : findVma (request.system.spaces request.current).mm request.args.pageTableAddr =
      some vma := found
  have sameAreas : ((Live.start request.system request.current request.args.pageTableAddr).openWindow
      request.kernel first).caller.mm = (request.system.spaces request.current).mm.addFlags vma.vmStart
        (remapFlags vma request.args.pageTableAddr) := by
    simp only [Live.openWindow, Space.openWindow, Live.start, foundFirst]
  have foundSecond := findVma_addFlags (request.system.spaces request.current).mm vma.vmStart
    (remapFlags vma request.args.pageTableAddr) (request.args.pageTableAddr + EACH_PTE_SIZE)
  rw [foundArea, Option.map_some, ← sameAreas] at foundSecond
  have allowed := isWord ▸ request.refusal_shared foundSecond
    ((isCowMapping_addFlags area vma request.args.pageTableAddr vma.vmStart).trans isShared) valid
  have stops : Stops ((Live.start request.system request.current request.args.pageTableAddr).openWindow
      request.kernel first).caller.pages (request.args.pageTableAddr + EACH_PTE_SIZE) := by
    by_contra runs
    exact not_opens_second request.aligned ⟨allowed, runs⟩
  obtain ⟨after, reply⟩ := forPmdEntryIn_stops request.kernel _ second allowed stops
  exact ⟨after, .stopped next allowed stops reply⟩

/-! ### The outcome of a request -/

section Outcome

variable {request : Request}

/-- The walk of the request, from its start. -/
theorem exists_calls (request : Request) :
    ∃ calls, Walks request.target.mm request.target.pgd request.args.endVaddr request.args.beginVaddr
      calls :=
  exists_walks _ _ request.stop_pos _

/-- What a call returns whose walk ends well. -/
theorem outcome_eq {last : ULong} {final live : Live} {err : Int}
    (reach : Reach request.kernel (walkedSpace request.system request.current request.mm)
      request.args.endVaddr (request.args.beginVaddr,
        Live.start request.system request.current request.args.pageTableAddr) (last, final))
    (ending : Ending request.kernel (walkedSpace request.system request.current request.mm)
      request.args.endVaddr last final (.finished err live)) :
    request.outcome = .returned 0 (request.system.setSpace request.current live.caller)
      (some live.pgdBase) live.remaps := by
  rw [outcome, exposeCall_eq request.comes (walkPageRangeIn_eq request.nonempty reach ending)]
  dsimp only
  rw [if_pos request.copies]

/-- Nothing is exposed if no slot is reached. -/
theorem outcome_none (walks : Walks request.target.mm request.target.pgd request.args.endVaddr
    request.args.beginVaddr []) :
    ∃ after remaps, request.outcome = .returned 0 after (some fun _ => 0) remaps ∧
      (after.spaces request.current).pages = (request.system.spaces request.current).pages := by
  have none : NoCall (walkedSpace request.system request.current request.mm) request.args.endVaddr
      request.args.beginVaddr
      (Live.start request.system request.current request.args.pageTableAddr) :=
        noCall_start request.current walks
  exact ⟨_, _, outcome_eq .refl (.done none), by rw [setSpace_self]; rfl⟩

/-- One table is exposed if no slot is reached behind the first. -/
theorem outcome_one {call : Call} {rest : List Call} {frame : Frame}
    (walks : Walks request.target.mm request.target.pgd request.args.endVaddr request.args.beginVaddr
      (call :: rest)) (isWord : call.pmd = pmdPopulate frame)
    (valid : request.kernel.pfnValid frame = true)
    (alone : ∀ other, ¬request.Behind (pgdIndex call.addr) other) :
    ∃ after remaps, request.outcome = .returned 0 after
        (some (Function.update (fun _ => 0) (pgdIndex call.addr) request.args.pageTableAddr)) remaps ∧
      (after.spaces request.current).pages =
        Function.update (request.system.spaces request.current).pages
          (pageOf request.args.pageTableAddr) (some frame) := by
  have next := nextCall_start request.current walks
  have opens := request.opens_first isWord valid
  have mapped : ((request.system.setSpace request.current
      ((Live.start request.system request.current request.args.pageTableAddr).openWindow request.kernel
        call).caller).spaces request.current).pages =
        Function.update (request.system.spaces request.current).pages
          (pageOf request.args.pageTableAddr) (some frame) := by
    rw [setSpace_self, ← pmdPopulate_frame frame, ← isWord]
    rfl
  rcases behind_cases request.stop_pos walks request.opened with ⟨ends, _⟩ | ⟨more, inside, behind⟩
  · exact ⟨_, _, outcome_eq .refl (.last next opens ends), mapped⟩
  · obtain ⟨calls, later⟩ := exists_walks request.opened.mm request.opened.pgd request.stop_pos call.next
    cases calls with
    | nil => exact ⟨_, _, outcome_eq (.single ⟨next, opens, more⟩) (.done later), mapped⟩
    | cons second others =>
        have reached := (later.firstReached inside).1
        exact absurd ((behind _).mpr reached) (alone _)

/-- A slot that is reached behind the first stops the kernel. -/
theorem outcome_many {call : Call} {rest : List Call} {frame : Frame} {other : Nat}
    (walks : Walks request.target.mm request.target.pgd request.args.endVaddr request.args.beginVaddr
      (call :: rest)) (isWord : call.pmd = pmdPopulate frame)
    (valid : request.kernel.pfnValid frame = true)
    (another : request.Behind (pgdIndex call.addr) other) : request.outcome = .oops := by
  have next := nextCall_start request.current walks
  have opens := request.opens_first isWord valid
  rcases behind_cases request.stop_pos walks request.opened with ⟨_, nothing⟩ | ⟨more, inside, behind⟩
  · exact absurd another (nothing other)
  · obtain ⟨calls, later⟩ := exists_walks request.opened.mm request.opened.pgd request.stop_pos call.next
    cases calls with
    | nil => exact absurd ((behind other).mp another) (later.not_reached inside other)
    | cons second others =>
        obtain ⟨_, isSecond, populated⟩ := later.call_eq List.mem_cons_self
        rw [isSecond] at populated
        obtain ⟨otherFrame, isOther, otherValid⟩ := request.opened_word populated
        obtain ⟨after, ending⟩ := request.stops_second ⟨others, later⟩ opens
          (isSecond.trans isOther) otherValid
        rw [outcome, exposeCall_eq request.comes (walkPageRangeIn_eq request.nonempty
          (.single ⟨next, opens, more⟩) ending)]

/-- Nothing is read through a null entry. -/
theorem not_shows_null {after : System} {fakePgd : Nat → ULong} {slot : Nat} {frame : Frame}
    (unmapped : (after.spaces request.current).pages 0 = none) (null : fakePgd slot = 0) :
    ¬request.Shows after fakePgd slot frame := by
  intro shows_
  have word := shows_ 0 (by decide)
  rw [null, readUser, show pageOf (0 + BitVec.ofNat 32 (4 * 0)) = 0 by decide, unmapped] at word
  cases word

theorem exposed_none_iff {after : System}
    (samePages : (after.spaces request.current).pages = (request.system.spaces request.current).pages) :
    (request.Exposed after fun _ => 0) ↔
      ∀ slot, request.tables slot ≠ none → ¬request.Overlaps slot := by
  have unmapped : (after.spaces request.current).pages 0 = none := by
    rw [samePages]
    exact request.nullUnmapped
  constructor
  · intro exposed slot populated overlaps
    obtain ⟨frame, isFrame⟩ := Option.ne_none_iff_exists'.mp populated
    exact not_shows_null unmapped rfl (exposed.shown slot frame isFrame overlaps)
  · intro nothing
    refine ⟨fun slot frame isFrame overlaps => ?_, fun slot filled => absurd rfl filled,
      fun slot _ filled => absurd rfl filled, fun slot filled => absurd rfl filled,
      fun slot => Or.inl rfl⟩
    exact absurd overlaps (nothing slot (by simp [isFrame]))

/-- The window area does not start in the null page. -/
theorem area_page_ne_zero (request : Request) : (0 : Frame) ≠ pageOf request.args.pageTableAddr := by
  intro isNull
  have page := toNat_pageOf request.args.pageTableAddr
  have alignedNat := toNat_of_aligned request.aligned
  rw [← isNull, show (0 : Frame).toNat = 0 from rfl] at page
  exact request.somewhere (BitVec.eq_of_toNat_eq (by
    rw [show (0 : ULong).toNat = 0 from rfl]
    omega))

theorem exposed_one_iff {after : System} {slot : Nat} {frame : Frame}
    (populated : request.tables slot = some frame)
    (oneMore : (after.spaces request.current).pages =
      Function.update (request.system.spaces request.current).pages
        (pageOf request.args.pageTableAddr) (some frame)) :
    request.Exposed after (Function.update (fun _ => 0) slot request.args.pageTableAddr) ↔
      ∀ other, request.tables other ≠ none → request.Overlaps other → other = slot := by
  have here : Function.update (fun _ => (0 : ULong)) slot request.args.pageTableAddr slot =
      request.args.pageTableAddr := Function.update_self _ _ _
  have null : ∀ other, other ≠ slot →
      Function.update (fun _ => (0 : ULong)) slot request.args.pageTableAddr other = 0 :=
    fun other different => Function.update_of_ne different _ _
  have only : ∀ other, Function.update (fun _ => (0 : ULong)) slot request.args.pageTableAddr other ≠ 0 →
      other = slot := by
    intro other filled
    by_contra different
    exact filled (null other different)
  have shown : request.Shows after (Function.update (fun _ => 0) slot request.args.pageTableAddr) slot
      frame := by
    intro j inside
    rw [here]
    exact readUser_window request.aligned (by rw [oneMore, Function.update_self]) (by omega)
  have unmapped : (after.spaces request.current).pages 0 = none := by
    rw [oneMore, Function.update_of_ne request.area_page_ne_zero, request.nullUnmapped]
  constructor
  · intro exposed other isPopulated overlaps
    by_contra different
    obtain ⟨otherFrame, isFrame⟩ := Option.ne_none_iff_exists'.mp isPopulated
    exact not_shows_null unmapped (null other different)
      (exposed.shown other otherFrame isFrame overlaps)
  · intro nothingElse
    constructor
    case shown =>
      intro other otherFrame isFrame overlaps
      have same := nothingElse other (by simp [isFrame]) overlaps
      subst same
      rw [populated, Option.some.injEq] at isFrame
      rw [← isFrame]
      exact shown
    case pages =>
      intro other filled
      rw [only other filled, here]
      exact request.aligned
    case disjoint =>
      intro first second filled filled' _
      rw [only first filled, only second filled']
    case inside =>
      intro other filled
      rw [only other filled, here]
      exact ⟨BitVec.le_refl _, by omega⟩
    case unexposed =>
      intro other
      by_cases same : other = slot
      · subst same
        exact Or.inr ⟨frame, populated, shown⟩
      · exact Or.inl (null other same)

end Outcome

/-- The call does what it is for exactly if the walk comes to no slot behind the first, and every populated
slot that overlaps the range is the first. -/
theorem correct_iff (request : Request) : request.Correct ↔
    (∀ slot other, request.First slot → ¬request.Behind slot other) ∧
      ∀ slot, request.tables slot ≠ none → request.Overlaps slot → request.First slot := by
  obtain ⟨calls, walks⟩ := request.exists_calls
  cases calls with
  | nil =>
      have nowhere : ∀ slot, ¬request.First slot :=
        fun slot first => walks.not_reached request.nonempty slot first.1
      obtain ⟨after, remaps, returned, samePages⟩ := outcome_none walks
      rw [Correct, returned]
      simp only [forall_const, Option.some.injEq, exists_eq_left', exposed_none_iff samePages]
      constructor
      · intro nothing
        exact ⟨fun slot _ first => absurd first (nowhere slot),
          fun slot populated overlaps => absurd overlaps (nothing slot populated)⟩
      · intro ⟨_, all⟩ slot populated overlaps
        exact nowhere slot (all slot populated overlaps)
  | cons call rest =>
      have isFirst : request.First (pgdIndex call.addr) := walks.firstReached request.nonempty
      obtain ⟨_, isSlot, populated⟩ := walks.call_eq List.mem_cons_self
      rw [isSlot] at populated
      obtain ⟨frame, isFrame, isWord, valid⟩ := request.target_word populated
      by_cases alone : ∀ other, ¬request.Behind (pgdIndex call.addr) other
      · obtain ⟨after, remaps, returned, oneMore⟩ := outcome_one walks (isSlot.trans isWord) valid alone
        rw [Correct, returned]
        simp only [forall_const, Option.some.injEq, exists_eq_left', exposed_one_iff isFrame oneMore]
        constructor
        · intro nothingElse
          refine ⟨fun slot other first => ?_, fun slot isPopulated overlaps => ?_⟩
          · rw [first.unique isFirst]
            exact alone other
          · rw [nothingElse slot isPopulated overlaps]
            exact isFirst
        · intro ⟨_, all⟩ slot isPopulated overlaps
          exact (all slot isPopulated overlaps).unique isFirst
      · obtain ⟨other, another⟩ := not_forall_not.mp alone
        rw [Correct, outcome_many walks (isSlot.trans isWord) valid another]
        exact ⟨False.elim, fun condition => condition.1 _ other isFirst another⟩

/-! ### Requests that fail -/

/-- A second slot stops the kernel, whichever address the walk meets it at. -/
theorem outcome_oops (request : Request) {slot other : Nat} (first : request.First slot)
    (behind : request.Behind slot other) : request.outcome = .oops := by
  obtain ⟨calls, walks⟩ := request.exists_calls
  cases calls with
  | nil => exact absurd first.1 (walks.not_reached request.nonempty slot)
  | cons call rest =>
      obtain ⟨_, isSlot, populated⟩ := walks.call_eq List.mem_cons_self
      rw [isSlot] at populated
      obtain ⟨frame, _, isWord, valid⟩ := request.target_word populated
      have same : slot = pgdIndex call.addr := first.unique (walks.firstReached request.nonempty)
      rw [same] at behind
      exact outcome_many walks (isSlot.trans isWord) valid behind

theorem windowArea_somewhere : (0x40000000 : ULong) ≠ 0 := by decide

theorem windowArea_size : (0x40000000 : ULong).toNat + 2 ^ 22 ≤ (0x40400000 : ULong).toNat := by decide

theorem windowArea_shared : isCowMapping (VM_SHARED ||| VM_MAYWRITE) = false := by decide

/-- A request of the first process of the examples for the tables of a second one, which no service
refuses. -/
def sample (mm : Mm) (tables : Nat → Option Frame) (start stop : ULong) (nonempty : start < stop) :
    Request where
  kernel := obliging
  system := smallSystem.setSpace 2 ⟨⟨mm, directory tables⟩, fun _ => none⟩
  current := 1
  args := ⟨2, 0x50000000, 0x40000000, start, stop⟩
  mm := 2
  tables := tables
  ram := fun _ _ => 0
  process := rfl
  isDirectory := rfl
  nonempty := nonempty
  aligned := windowArea_aligned.1
  somewhere := windowArea_somewhere
  reserved := ⟨_, List.mem_singleton_self _, BitVec.le_refl _, windowArea_size, windowArea_shared⟩
  unmapped := fun _ _ => rfl
  nullUnmapped := rfl
  framesValid := fun _ _ _ => rfl
  freshValid := fun _ => rfl
  allocates := fun _ => rfl
  kmallocs := rfl
  copies := rfl

theorem twoTables_nonempty : (0x1000 : ULong) < 0x201000 := by decide

/-- Two neighbouring slots with second-level tables, and a range in both. -/
def twoTables : Request :=
  sample ⟨[], List.Pairwise.nil⟩ (fun slot => if slot < 2 then some 5 else none) 0x1000 0x201000
    twoTables_nonempty

theorem hiddenTable_nonempty : (0x200000 : ULong) < 0x400000 := by decide

theorem hiddenArea_sorted : [slotArea 1 2 VM_PFNMAP (by decide) (by decide)].Pairwise
    fun low high => low.vmEnd ≤ high.vmStart :=
  List.pairwise_singleton _ _

/-- A slot with a second-level table in an area of raw page frames. -/
def hiddenTable : Request :=
  sample ⟨_, hiddenArea_sorted⟩ (fun slot => if slot = 1 then some 5 else none) 0x200000 0x400000
    hiddenTable_nonempty

theorem ownArea_nonempty : (0x40001000 : ULong) < 0x40401000 := by decide

theorem ownArea_aligned : (0x40001000 : ULong) &&& 0xFFF = 0 ∧ (0x40401000 : ULong) &&& 0xFFF = 0 := by
  decide

theorem ownArea_somewhere : (0x40001000 : ULong) ≠ 0 := by decide

theorem ownArea_size : (0x40001000 : ULong).toNat + 2 ^ 22 ≤ (0x40401000 : ULong).toNat := by decide

theorem ownTable_nonempty : (0x1000 : ULong) < 0x40002000 := by decide

/-- A process with a table for its first slot, and a shared area for the windows that starts behind the
first page of a slot. -/
def ownTableSpace : Space where
  mm := ⟨[⟨0x40001000, 0x40401000, VM_SHARED ||| VM_MAYWRITE, ownArea_nonempty, ownArea_aligned⟩],
    List.pairwise_singleton _ _⟩
  pgd := directory fun slot => if slot = 0 then some 5 else none
  pages := fun _ => none

/-- This process asks for its own tables, up to the first page of the area. -/
def ownTable : Request where
  kernel := obliging
  system := smallSystem.setSpace 1 ownTableSpace
  current := 1
  args := ⟨1, 0x50000000, 0x40001000, 0x1000, 0x40002000⟩
  mm := 1
  tables := fun slot => if slot = 0 then some 5 else none
  ram := fun _ _ => 0
  process := rfl
  isDirectory := rfl
  nonempty := ownTable_nonempty
  aligned := ownArea_aligned.1
  somewhere := ownArea_somewhere
  reserved := ⟨_, List.mem_singleton_self _, BitVec.le_refl _, ownArea_size, windowArea_shared⟩
  unmapped := fun _ _ => rfl
  nullUnmapped := rfl
  framesValid := fun _ _ _ => rfl
  freshValid := fun _ => rfl
  allocates := fun _ => rfl
  kmallocs := rfl
  copies := rfl

/-- A populated slot is reached through an open address of the range. -/
theorem reached_at {target : Target} {addr stop : ULong} (other : ULong) (above : addr ≤ other)
    (below : other < stop) (isOpen : pfnmapAt target.mm other = none)
    (populated : target.pgd (pgdIndex other) ≠ 0) : Reached target addr stop (pgdIndex other) :=
  ⟨populated, Or.inl ⟨other, above, below, pfnmapAt_none.mp isOpen, rfl⟩⟩

/-- A second table stops the kernel, and a table in an area of raw page frames is missing after success. A
caller that has one table and asks for its own stops at the table that its window has needed. -/
theorem second_window_stops : (twoTables.outcome = .oops ∧ ¬twoTables.Correct) ∧
    (∃ after directory remaps, hiddenTable.outcome = .returned 0 after (some directory) remaps ∧
      ¬hiddenTable.Exposed after directory) ∧
    ownTable.outcome = .oops ∧ ¬ownTable.Correct := by
  have incorrect : ∀ request : Request, request.outcome = .oops → ¬request.Correct := by
    intro request stops
    rw [Correct, stops]
    exact id
  refine ⟨?_, ?_, ?_⟩
  · have first : twoTables.First 0 :=
      ⟨reached_at 0x1000 (by decide) (by decide) rfl (by decide), fun _ _ => Nat.zero_le _⟩
    have behind : twoTables.Behind 0 1 :=
      ⟨by decide, reached_at 0x200000 (by decide) (by decide) rfl (by decide)⟩
    have stops := twoTables.outcome_oops first behind
    exact ⟨stops, incorrect _ stops⟩
  · have missed : Walks hiddenTable.target.mm hiddenTable.target.pgd 0x400000 0x200000 [] :=
      .leap rfl rfl
    obtain ⟨after, remaps, returned, samePages⟩ := outcome_none missed
    refine ⟨after, _, remaps, returned, fun exposed => ?_⟩
    exact (exposed_none_iff samePages).mp exposed 1 (by decide) ⟨by decide, by decide⟩
  · have first : ownTable.First 0 :=
      ⟨reached_at 0x1000 (by decide) (by decide) rfl (by decide), fun _ _ => Nat.zero_le _⟩
    have behind : ownTable.Behind 0 0x200 :=
      ⟨by decide, reached_at 0x40000000 (by decide) (by decide) rfl (by decide)⟩
    have stops := ownTable.outcome_oops first behind
    exact ⟨stops, incorrect _ stops⟩

end Request

end KernelHacking.PageTable
