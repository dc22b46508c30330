/-
Module: KernelHacking.Model.SyscallTable
Layer: Model
Purpose: The system-call table and the two modules that write to it. Loading a module saves the entries it
  is going to replace in static variables of the module and writes its own functions there; removing it
  writes the saved values back, whatever the entries hold by then. Both modules replace entry 233.
Imports: Mathlib.Logic.Function.Basic
Trusted boundary: human-reviewed model of ptree_init, ptree_exit, pagetable_layout_init and
  pagetable_layout_exit; a module is loaded at an address that the module loader chooses, and a loaded
  module is not loaded again
Main exports: Handler, TableState, boot, ptreeInit, ptreeExit, pagetableLayoutInit, pagetableLayoutExit,
  ModuleEvent, moduleStep, runModules
Open obligations: none
-/
import Mathlib.Logic.Function.Basic

namespace KernelHacking.SyscallTable

def NR_ptree : Nat := 233

def NR_get_pagetable_layout : Nat := 233

def NR_expose_page_table : Nat := 378

/-- What an entry points to: code of the kernel, or a function of a module that was loaded at an
address. -/
inductive Handler where
  | kernel (addr : Nat)
  | ptree (base : Nat)
  | getPagetableLayout (base : Nat)
  | exposePageTable (base : Nat)
deriving DecidableEq, Repr

/-- The ptree module: where it is loaded, and its static variable. -/
structure PtreeModule where
  base : Nat
  oldcall : Handler
deriving DecidableEq, Repr

/-- The page table module: where it is loaded, and its static variables. -/
structure PagetableModule where
  base : Nat
  oldcallGetPagetableLayout : Handler
  oldcallExposePageTable : Handler
deriving DecidableEq, Repr

/-- The table, and the modules that are loaded. -/
structure TableState where
  syscall : Nat → Handler
  ptreemodule : Option PtreeModule
  pagetable : Option PagetableModule

/-- The table after boot, with no module loaded. -/
def boot (original : Nat → Nat) : TableState where
  syscall nr := .kernel (original nr)
  ptreemodule := none
  pagetable := none

/-! ### The modules -/

/-- `ptree_init`. -/
def ptreeInit (base : Nat) (state : TableState) : TableState :=
  { state with
    ptreemodule := some ⟨base, state.syscall NR_ptree⟩
    syscall := Function.update state.syscall NR_ptree (.ptree base) }

/-- `ptree_exit`. -/
def ptreeExit (loaded : PtreeModule) (state : TableState) : TableState :=
  { state with
    ptreemodule := none
    syscall := Function.update state.syscall NR_ptree loaded.oldcall }

/-- `pagetable_layout_init`. -/
def pagetableLayoutInit (base : Nat) (state : TableState) : TableState :=
  let oldcallGetPagetableLayout := state.syscall NR_get_pagetable_layout
  let syscall := Function.update state.syscall NR_get_pagetable_layout (.getPagetableLayout base)
  let oldcallExposePageTable := syscall NR_expose_page_table
  { state with
    pagetable := some ⟨base, oldcallGetPagetableLayout, oldcallExposePageTable⟩
    syscall := Function.update syscall NR_expose_page_table (.exposePageTable base) }

/-- `pagetable_layout_exit`. -/
def pagetableLayoutExit (loaded : PagetableModule) (state : TableState) : TableState :=
  let syscall := Function.update state.syscall NR_get_pagetable_layout loaded.oldcallGetPagetableLayout
  { state with
    pagetable := none
    syscall := Function.update syscall NR_expose_page_table loaded.oldcallExposePageTable }

/-! ### Runs -/

/-- The two modules. -/
inductive ModuleName where
  | ptreemodule
  | pagetable
deriving DecidableEq, Repr

inductive ModuleEvent where
  | load (name : ModuleName) (base : Nat)
  | unload (name : ModuleName)
deriving DecidableEq, Repr

/-- One event. A module is loaded if it is not, and unloaded if it is. -/
def moduleStep (state : TableState) : ModuleEvent → Option TableState
  | .load .ptreemodule base =>
      match state.ptreemodule with
      | none => some (ptreeInit base state)
      | some _ => none
  | .load .pagetable base =>
      match state.pagetable with
      | none => some (pagetableLayoutInit base state)
      | some _ => none
  | .unload .ptreemodule => state.ptreemodule.map fun loaded => ptreeExit loaded state
  | .unload .pagetable => state.pagetable.map fun loaded => pagetableLayoutExit loaded state

/-- The state after a sequence of events, if each of them is possible. -/
def runModules (state : TableState) : List ModuleEvent → Option TableState
  | [] => some state
  | event :: rest => (moduleStep state event).bind fun after => runModules after rest

end KernelHacking.SyscallTable
