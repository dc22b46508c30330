/-
Module: KernelHacking.Model.CallResources
Layer: Model
Purpose: What the two system calls take and give back: blocks of `kmalloc`, references to a `struct pid`
  and to a task, and locks. Every statement that takes or gives back something is one step on the state
  of these resources, in the order of the source, and every early `return` leaves the rest of the
  function out.
Imports: KernelHacking.Model.PtreeCall, KernelHacking.Model.PageTableSystem
Trusted boundary: human-reviewed model of find_get_pid, get_pid_task and of the lock and allocation
  functions. A call runs alone: a lock that is not free at its start blocks it. The counts do not
  overflow, and a number has one `struct pid`
Main exports: RwLock, Held, Stop, CallM, findGetPid, getPidTask, ptreeIn, exposeTarget, exposeIn, Machine,
  SystemCall, Machine.call
Open obligations: none
-/
import KernelHacking.Model.PtreeCall
import KernelHacking.Model.PageTableSystem

namespace KernelHacking.Resources

open TaskTree ProcessTree PageTable

/-! ### Resources -/

/-- A lock for readers and writers. -/
structure RwLock where
  readers : Nat
  writer : Bool
deriving DecidableEq, Repr

/-- Nobody holds the lock. -/
def RwLock.free : RwLock := ⟨0, false⟩

/-- What is held. -/
structure Held where
  /-- The blocks that `kmalloc` has returned and `kfree` has not been given. -/
  blocks : Nat
  /-- `count` of the `struct pid` of a number. -/
  pidCount : Int → Nat
  /-- `usage` of a task. -/
  usage : TaskId → Nat
  /-- How many `rcu_read_lock` sections the caller is in. -/
  rcuNesting : Nat
  tasklistLock : RwLock
  /-- `mmap_sem` of an address space. -/
  mmapSem : Nat → RwLock

/-- Why a call does not return: the kernel stops, the walk does not end, or a lock is not free. -/
inductive Stop where
  | oops
  | hangs
  | blocked
deriving DecidableEq, Repr

/-- A statement that works on the resources. -/
abbrev CallM := StateT Held (Except Stop)

/-- `kmalloc`: whether there is memory. -/
def kmalloc (available : Bool) : CallM Bool := do
  if available then
    modify fun held => { held with blocks := held.blocks + 1 }
  pure available

def kfree : CallM Unit := modify fun held => { held with blocks := held.blocks - 1 }

def rcuReadLock : CallM Unit := modify fun held => { held with rcuNesting := held.rcuNesting + 1 }

def rcuReadUnlock : CallM Unit := modify fun held => { held with rcuNesting := held.rcuNesting - 1 }

def getPid (number : Int) : CallM Unit := modify fun held =>
  { held with pidCount := Function.update held.pidCount number (held.pidCount number + 1) }

def getTaskStruct (task : TaskId) : CallM Unit := modify fun held =>
  { held with usage := Function.update held.usage task (held.usage task + 1) }

/-- `read_lock(&tasklist_lock)`. -/
def readLock : CallM Unit := do
  let held ← get
  if held.tasklistLock.writer then throw .blocked
  else set { held with tasklistLock.readers := held.tasklistLock.readers + 1 }

def readUnlock : CallM Unit := modify fun held =>
  { held with tasklistLock.readers := held.tasklistLock.readers - 1 }

/-- `down_write(&mm->mmap_sem)`. -/
def downWrite (mm : Nat) : CallM Unit := do
  let held ← get
  if held.mmapSem mm = .free then
    set { held with mmapSem := Function.update held.mmapSem mm ⟨0, true⟩ }
  else throw .blocked

def upWrite (mm : Nat) : CallM Unit := modify fun held =>
  { held with mmapSem := Function.update held.mmapSem mm .free }

/-! ### `ptree` -/

/-- `ptree`, with a bound on the depth of the tree. -/
def ptreeIn (s : TaskState) (depth : Nat) (services : PtreeServices) : CallM Int := do
  let allocated ← kmalloc services.kmalloc
  readLock
  -- the first entry is written without a check of the pointer
  if ¬allocated then throw .oops
  else
    match dfs s depth ⟨services.contents, 0, []⟩ initTask with
    | none => throw .hangs
    | some filled => do
        readUnlock
        if services.bufAccepts < PRINFO_SIZE * MAXBUFFERSIZE then pure 1
        else if services.nrAccepts < (wordBytes filled.nr).length then pure 1
        else do
          kfree
          pure 0

/-! ### `expose_page_table` -/

/-- `find_get_pid`. -/
def findGetPid (pids : Int → PidState) (nr : Int) : CallM Bool := do
  rcuReadLock
  if pids nr = .unused then do
    rcuReadUnlock
    pure false
  else do
    getPid nr
    rcuReadUnlock
    pure true

/-- The task of a number, if the number is that of a task. -/
def pidTask (pids : Int → PidState) (taskOf : Int → TaskId) (nr : Int) : Option TaskId :=
  match pids nr with
  | .unused | .groupOnly => none
  | .zombie | .kernelThread | .process _ => some (taskOf nr)

/-- `get_pid_task`. -/
def getPidTask (pids : Int → PidState) (taskOf : Int → TaskId) (nr : Int) : CallM (Option TaskId) := do
  rcuReadLock
  match pidTask pids taskOf nr with
  | none => do
      rcuReadUnlock
      pure none
  | some task => do
      getTaskStruct task
      rcuReadUnlock
      pure (some task)

/-- `expose_page_table`, once the `mm` of the target is known. -/
def exposeTarget (kernel : Kernel) (system : System) (current : Nat) (args : ExposeArgs) (mm : Nat) :
    CallM (Int × System) := do
  -- the areas of the target are printed
  downWrite mm
  upWrite mm
  let allocated ← kmalloc kernel.kmalloc
  if ¬allocated then pure (-EFAULT, system)
  else if args.pageTableAddr = 0 then pure (-EFAULT, system)
  else do
    downWrite mm
    match walkPageRangeIn (walkedSpace system current mm) (forPmdEntryIn kernel) args.beginVaddr
        args.endVaddr (Live.start system current args.pageTableAddr) with
    | none => throw .hangs
    | some (.oops _) => throw .oops
    | some (.finished _ live) => do
        upWrite mm
        let after := system.setSpace current live.caller
        if ¬kernel.copyToUser args.fakePgd then pure (-EFAULT, after)
        else do
          kfree
          pure (0, after)

/-- `expose_page_table`: the code it returns, and the address spaces behind it. -/
def exposeIn (kernel : Kernel) (system : System) (taskOf : Int → TaskId) (current : Nat)
    (args : ExposeArgs) : CallM (Int × System) := do
  if args.endVaddr ≤ args.beginVaddr then pure (-EINVAL, system)
  else
    let found ← findGetPid system.pids args.pid
    if ¬found then pure (-EINVAL, system)
    else
      let target ← getPidTask system.pids taskOf args.pid
      match target, system.pids args.pid with
      | some _, .process mm => exposeTarget kernel system current args mm
      -- the name and the memory of the process are read without a check
      | _, _ => throw .oops

/-! ### Calls -/

/-- The tasks, the address spaces, the task of each number, and what is held. -/
structure Machine where
  tasks : TaskState
  system : System
  taskOf : Int → TaskId
  held : Held

/-- A system call, with what it meets. -/
inductive SystemCall where
  | ptree (depth : Nat) (services : PtreeServices)
  | expose (kernel : Kernel) (current : Nat) (args : ExposeArgs)

/-- The machine and the code after a call that returns. -/
def Machine.call (machine : Machine) : SystemCall → Except Stop (Int × Machine)
  | .ptree depth services => do
      let (code, held) ← (ptreeIn machine.tasks depth services).run machine.held
      pure (code, { machine with held := held })
  | .expose kernel current args => do
      let ((code, system), held) ←
        (exposeIn kernel machine.system machine.taskOf current args).run machine.held
      pure (code, { machine with system := system, held := held })

/-- One event in a run: a call, or any other activity. -/
inductive MachineEvent where
  | call (call : SystemCall)
  | other (after : Machine)

end KernelHacking.Resources
