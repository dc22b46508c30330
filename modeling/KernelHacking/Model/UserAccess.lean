/-
Module: KernelHacking.Model.UserAccess
Layer: Model
Purpose: What a process does to memory through its own mappings. A read of a mapped page goes through; a
  write goes through the fault handler first, since a new entry is clean: it needs an area that allows
  writing, and then lands in the mapped frame itself if the area is shared, and in a copy if it is
  private. A page that is not mapped gets a frame from the kernel.
Imports: KernelHacking.Model.PageTable
Trusted boundary: human-reviewed model of __do_page_fault, handle_pte_fault and do_wp_page for user
  accesses; an area does not grow
Main exports: areaAt, Memory, Access, Access.apply, runAccesses
Open obligations: none
-/
import KernelHacking.Model.PageTable

namespace KernelHacking.PageTable

def VM_WRITE : ULong := 0x2

/-- The area that contains an address. -/
def areaAt (mm : Mm) (addr : ULong) : Option Vma :=
  (findVma mm addr).filter fun vma => vma.vmStart ≤ addr

/-- The frames, and the pages of a process. -/
structure Memory where
  ram : Ram
  pages : Pages

/-- An access to a word, with the frame that the kernel supplies if one is needed, or none if there is no
memory left. -/
inductive Access where
  | read (addr : ULong) (fresh : Option Frame)
  | write (addr value : ULong) (fresh : Option Frame)
deriving DecidableEq, Repr

/-- The frame supplied by the kernel. -/
def Access.fresh : Access → Option Frame
  | .read _ fresh => fresh
  | .write _ _ fresh => fresh

/-- The index of a word in its page. -/
def wordIndex (addr : ULong) : Nat := ((addr &&& 0xFFF) >>> 2).toNat

/-- Write a word of a frame. -/
def Ram.store (ram : Ram) (frame : Frame) (index : Nat) (value : ULong) : Ram :=
  Function.update ram frame (Function.update (ram frame) index value)

/-- Map a page. -/
def Memory.map (memory : Memory) (page frame : Frame) : Memory :=
  { memory with pages := Function.update memory.pages page (some frame) }

/-- A write to a page of a shared area: into the mapped frame, or into one that is mapped for it. -/
def Memory.writeShared (memory : Memory) (addr value : ULong) (fresh : Option Frame) : Memory :=
  match memory.pages (pageOf addr), fresh with
  | some frame, _ => { memory with ram := memory.ram.store frame (wordIndex addr) value }
  | none, some frame =>
      { memory.map (pageOf addr) frame with ram := memory.ram.store frame (wordIndex addr) value }
  | none, none => memory

/-- A write to a page of a private area: into a copy of the mapped frame. A page that belongs to the
process alone is its own copy. -/
def Memory.writePrivate (memory : Memory) (addr value : ULong) (fresh : Option Frame) : Memory :=
  match fresh with
  | none => memory
  | some copy =>
      let ram := match memory.pages (pageOf addr) with
        | some frame => Function.update memory.ram copy (memory.ram frame)
        | none => memory.ram
      { memory.map (pageOf addr) copy with ram := Ram.store ram copy (wordIndex addr) value }

/-- Memory after an access of a process with the given areas. An access that is not allowed changes
nothing. -/
def Access.apply (mm : Mm) (memory : Memory) : Access → Memory
  | .read addr fresh =>
      match memory.pages (pageOf addr), areaAt mm addr, fresh with
      | none, some _, some frame => memory.map (pageOf addr) frame
      | _, _, _ => memory
  | .write addr value fresh =>
      match areaAt mm addr with
      | none => memory
      | some vma =>
          if vma.vmFlags &&& VM_WRITE = 0 then memory
          else if vma.vmFlags &&& VM_SHARED ≠ 0 then memory.writeShared addr value fresh
          else memory.writePrivate addr value fresh

/-- Memory after a sequence of accesses. -/
def runAccesses (mm : Mm) (memory : Memory) (accesses : List Access) : Memory :=
  accesses.foldl (Access.apply mm) memory

end KernelHacking.PageTable
