/-
Module: KernelHacking.Model.PtreeCall
Layer: Model
Purpose: The `ptree` system call: `convert` fills one entry from a task, `dfs` walks through the children
  lists from `init_task` and writes one entry after the other behind the buffer pointer, and `ptree`
  copies the whole buffer to the caller. The buffer is memory as `kmalloc` returns it, byte by byte.
Imports: KernelHacking.Model.ProcessTree, KernelHacking.Model.TaskTree
Trusted boundary: human-reviewed model of convert, dfs and ptree. `copy_to_user` copies the bytes up to
  the first address that cannot be written; a null buffer stops the kernel at the first entry
Main exports: getTaskComm, convert, Prinfo.bytes, PtreeBuffer, dfs, PtreeServices, PtreeEnd, ptree
Open obligations: none
-/
import KernelHacking.Model.ProcessTree
import KernelHacking.Model.TaskTree

namespace KernelHacking.ProcessTree

open TaskTree

abbrev Byte := BitVec 8

/-! ### `convert` -/

/-- `get_task_comm`: `strncpy` of 16 characters, with NULs behind the text. -/
def getTaskComm (comm : List Char) : List Char :=
  let text := (comm.takeWhile (· ≠ '\x00')).take 16
  text ++ List.replicate (16 - text.length) '\x00'

/-- The pid behind `children.next`. -/
def firstChildPid (s : TaskState) (task : TaskId) : Int :=
  match s.children task with
  | [] => 0
  | child :: _ => s.pid child

/-- The pid behind `sibling.next`. The last task of a list is followed by the head of the list in the
parent, which `list_entry` takes for the `sibling` of a task; what stands at its `pid` is the word of
bit-fields of the parent. -/
def nextSiblingPid (s : TaskState) (task : TaskId) : Int :=
  match s.sibling task with
  | none => 0
  | some owner =>
      match ((s.children owner).dropWhile (· ≠ task)).drop 1 with
      | [] => (s.attributes owner).bits.word
      | next :: _ => s.pid next

/-- `convert`. -/
def convert (s : TaskState) (task : TaskId) : Prinfo where
  parentPid := match s.parent task with
    | none => 0
    | some parent => s.pid parent
  pid := s.pid task
  firstChildPid := firstChildPid s task
  nextSiblingPid := nextSiblingPid s task
  state := (s.attributes task).state
  uid := (s.attributes task).uid
  comm := getTaskComm (s.attributes task).comm

/-! ### `dfs` -/

/-- The four bytes of a number, the lowest first. -/
def wordBytes (value : Int) : List Byte :=
  let word := BitVec.ofInt 32 value
  [word.extractLsb' 0 8, word.extractLsb' 8 8, word.extractLsb' 16 8, word.extractLsb' 24 8]

/-- The bytes of an entry, in the order of the fields of `struct prinfo`. -/
def Prinfo.bytes (entry : Prinfo) : List Byte :=
  wordBytes entry.parentPid ++ wordBytes entry.pid ++ wordBytes entry.firstChildPid ++
    wordBytes entry.nextSiblingPid ++ wordBytes entry.state ++ wordBytes entry.uid ++
    entry.comm.map fun char => BitVec.ofNat 8 char.toNat

/-- `sizeof(struct prinfo)`. -/
def PRINFO_SIZE : Nat := 40

/-- The memory from the buffer pointer on, the counter `*nr`, and the indices that have been written. -/
structure PtreeBuffer where
  memory : Nat → Byte
  nr : Nat
  written : List Nat

/-- Write bytes from an address on. -/
def writeBytes (memory : Nat → Byte) (addr : Nat) (bytes : List Byte) : Nat → Byte :=
  fun other => if addr ≤ other then (bytes[other - addr]?).getD (memory other) else memory other

/-- `convert(task, &buf[*nr]); ++(*nr);` -/
def PtreeBuffer.put (s : TaskState) (buffer : PtreeBuffer) (task : TaskId) : PtreeBuffer where
  memory := writeBytes buffer.memory (PRINFO_SIZE * buffer.nr) (convert s task).bytes
  nr := buffer.nr + 1
  written := buffer.written ++ [buffer.nr]

/-- `dfs`, with a bound on the depth of the recursion. The bound stands for the end of the walk only: that
the kernel stack has room for a recursion as deep as the tree is assumed. -/
def dfs (s : TaskState) : Nat → PtreeBuffer → TaskId → Option PtreeBuffer
  | 0, _, _ => none
  | depth + 1, buffer, task => (s.children task).foldlM (dfs s depth) (buffer.put s task)

/-! ### `ptree` -/

/-- What the call meets: whether `kmalloc` has memory, what that memory contains, and how many bytes can
be written to the two user addresses. -/
structure PtreeServices where
  kmalloc : Bool
  contents : Nat → Byte
  bufAccepts : Nat
  nrAccepts : Nat

/-- The end of a call: it stops the kernel, or returns with the indices that `dfs` has written, the
bytes copied to `buf` and the bytes copied to `nr`. -/
inductive PtreeEnd where
  | oops
  | returned (code : Int) (written : List Nat) (copied nrCopied : List Byte)

/-- `copy_to_user`: the bytes that are copied. -/
def copyToUser (accepts size : Nat) (memory : Nat → Byte) : List Byte :=
  (List.range (min accepts size)).map memory

/-- `ptree`, with a bound on the depth of the tree. The value of `*nr` in user space is not read. -/
def ptree (s : TaskState) (depth : Nat) (services : PtreeServices) : Option PtreeEnd :=
  if services.kmalloc then
    (dfs s depth ⟨services.contents, 0, []⟩ initTask).map fun filled =>
      let size := PRINFO_SIZE * MAXBUFFERSIZE
      let copied := copyToUser services.bufAccepts size filled.memory
      let nrBytes := wordBytes filled.nr
      if services.bufAccepts < size then .returned 1 filled.written copied []
      else if services.nrAccepts < nrBytes.length then
        .returned 1 filled.written copied (nrBytes.take services.nrAccepts)
      else .returned 0 filled.written copied nrBytes
  else some .oops

end KernelHacking.ProcessTree
