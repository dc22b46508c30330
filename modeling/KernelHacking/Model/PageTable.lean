/-
Module: KernelHacking.Model.PageTable
Layer: Model
Purpose: Areas, the two-level ARM page table, and one round of the kernel's page walk on it. A `BUG_ON`
  or a null pointer stops the kernel, and the result of a callback or of a walk says so. The loop around
  the rounds is in Model.PageTableSystem, since the callback of `expose_page_table` may change the
  address space that is walked.
Imports: Mathlib.Algebra.Group.Nat.Defs, Mathlib.Logic.Function.Basic
Trusted boundary: find_vma is the search for the first area that ends above the address, and the memory
  of a process is its page table
Main exports: Vma, Mm, findVma, pgdAddrEnd, walkTurn, Services, Pages, isCowMapping, Target, readUser,
  pmdPopulate, directory
Open obligations: none
-/
import Mathlib.Algebra.Group.Nat.Defs
import Mathlib.Logic.Function.Basic

namespace KernelHacking.PageTable

/-- `unsigned long` on the 32-bit ARM target. -/
abbrev ULong := BitVec 32

/-- The number of a page or of a page frame. -/
abbrev Frame := BitVec 20

def PAGE_SHIFT : Nat := 12

def PAGE_SIZE : ULong := 4096

def PGDIR_SHIFT : Nat := 21

def PGDIR_SIZE : ULong := 0x200000

def PGDIR_MASK : ULong := 0xFFE00000

/-- The bytes of the 512 Linux entries of a second-level table. -/
def EACH_PTE_SIZE : ULong := 2048

def VM_SHARED : ULong := 0x8

def VM_MAYWRITE : ULong := 0x20

def VM_PFNMAP : ULong := 0x400

def ENOMEM : Int := 12

def EFAULT : Int := 14

def EINVAL : Int := 22

/-- The page that holds an address. -/
def pageOf (addr : ULong) : Frame := addr.extractLsb' 12 20

/-- `pgd_index`. -/
def pgdIndex (addr : ULong) : Nat := (addr >>> PGDIR_SHIFT).toNat

/-! ### Areas -/

/-- `struct vm_area_struct`, with the page-aligned bounds of its addresses. -/
structure Vma where
  vmStart : ULong
  vmEnd : ULong
  vmFlags : ULong
  nonempty : vmStart < vmEnd
  aligned : vmStart &&& 0xFFF = 0 ∧ vmEnd &&& 0xFFF = 0

/-- The areas of an address space, sorted by address. -/
structure Mm where
  mmap : List Vma
  sorted : mmap.Pairwise fun low high => low.vmEnd ≤ high.vmStart

/-- The first area that ends above `addr`. -/
def findVma (mm : Mm) (addr : ULong) : Option Vma :=
  mm.mmap.find? fun vma => addr < vma.vmEnd

/-! ### `walk_page_range` -/

/-- What a callback or a walk comes back with: an error code, 0 for success, or a stopped kernel. -/
inductive Reply (σ : Type) where
  | finished (err : Int) (state : σ)
  | oops (state : σ)

/-- The state the callbacks left behind. -/
def Reply.state {σ : Type} : Reply σ → σ
  | .finished _ state => state
  | .oops state => state

/-- A `pmd_entry` callback: the word of the slot, and the start and the end of the addresses. -/
abbrev PmdEntry (σ : Type) := ULong → ULong → ULong → σ → Reply σ

/-- The next boundary of a slot, or the end of the range if that comes earlier. -/
def pgdAddrEnd (addr stop : ULong) : ULong :=
  let boundary := (addr + PGDIR_SIZE) &&& PGDIR_MASK
  if boundary - 1 < stop - 1 then boundary else stop

/-- `walk_pmd_range`. The middle level is folded, so `pmd_addr_end` is the end and the loop runs
once. -/
def walkPmdRange {σ : Type} (pmdEntry : PmdEntry σ) (pmd addr stop : ULong) (state : σ) : Reply σ :=
  if pmd = 0 then .finished 0 state else pmdEntry pmd addr stop state

/-- `walk_pud_range`. The upper level is folded too: `pud_none` is 0 and the loop runs once. -/
def walkPudRange {σ : Type} (pmdEntry : PmdEntry σ) (pud addr stop : ULong) (state : σ) : Reply σ :=
  walkPmdRange pmdEntry pud addr stop state

/-- The end of one round of the loop: a result, or the next address and the next entry of the
directory. -/
inductive Turn (σ : Type) where
  | stop (reply : Reply σ)
  | go (next : ULong) (slot : Nat) (state : σ)

/-- One round of the loop of `walk_page_range`. There is no `hugetlb_entry`, `pgd_entry` or
`pte_hole`, and `pgd_none` is 0. -/
def walkTurn {σ : Type} (mm : Mm) (pgd : Nat → ULong) (pmdEntry : PmdEntry σ) (stop addr : ULong)
    (slot : Nat) (state : σ) : Turn σ :=
  let next := pgdAddrEnd addr stop
  match (findVma mm addr).filter fun vma =>
      vma.vmStart ≤ addr && vma.vmFlags &&& VM_PFNMAP ≠ 0 with
  | some vma => .go vma.vmEnd (pgdIndex vma.vmEnd) state
  | none =>
      match walkPudRange pmdEntry (pgd slot) addr next state with
      | .finished err after =>
          if err ≠ 0 then .stop (.finished err after) else .go next (slot + 1) after
      | .oops after => .stop (.oops after)

/-- The address space that is walked: its areas and the words of its page directory. -/
structure Target where
  mm : Mm
  pgd : Nat → ULong

/-! ### Services and pages -/

/-- The kernel services that may refuse. -/
structure Services where
  pfnValid : Frame → Bool
  /-- A second-level table for the page is there or can be allocated. -/
  pteAlloc : Frame → Bool
  kmalloc : Bool
  /-- All bytes of the directory arrive at the address. -/
  copyToUser : ULong → Bool

/-- The pages of a process, each mapped to a frame or not mapped. -/
abbrev Pages := Frame → Option Frame

/-- `is_cow_mapping`. -/
def isCowMapping (flags : ULong) : Bool := flags &&& (VM_SHARED ||| VM_MAYWRITE) = VM_MAYWRITE

/-! ### Memory -/

/-- The words of the page frames. -/
abbrev Ram := Frame → Nat → ULong

/-- The word a process reads at an address, if the page is mapped. -/
def readUser (ram : Ram) (pages : Pages) (addr : ULong) : Option ULong :=
  (pages (pageOf addr)).map fun frame => ram frame ((addr &&& 0xFFF) >>> 2).toNat

/-- The word of a slot that points to the second-level table in the given frame: the address of the
hardware entries behind the 512 Linux entries, and the bits of a user table. -/
def pmdPopulate (frame : Frame) : ULong := ((frame ++ 0#12) + 2048) ||| 0x31

/-- The words of a page directory with the given second-level tables. -/
def directory (tables : Nat → Option Frame) (slot : Nat) : ULong :=
  match tables slot with
  | none => 0
  | some frame => pmdPopulate frame

end KernelHacking.PageTable
