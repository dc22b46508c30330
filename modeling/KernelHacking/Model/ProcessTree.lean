/-
Module: KernelHacking.Model.ProcessTree
Layer: Model
Purpose: The printing half of the process-tree listing: the entries the `ptree` system call delivers and
  the client's `display`, which rebuilds the nesting of a flat preorder listing with a stack of its
  own. A read or a write outside an array makes the whole call `none`.
Imports: Mathlib.Logic.Function.Basic
Trusted boundary: none (fully proved)
Main exports: Prinfo, popToSibling, place, displayStep, display, Line
Open obligations: none
-/
import Mathlib.Logic.Function.Basic

namespace KernelHacking.ProcessTree

/-- The number of entries of the buffer that the module and the client share. -/
def MAXBUFFERSIZE : Nat := 2048

/-- The size of the two local arrays of `display`. -/
def MAXPROCESSNUMBER : Nat := 256

/-- `struct prinfo`. -/
structure Prinfo where
  parentPid : Int
  pid : Int
  firstChildPid : Int
  nextSiblingPid : Int
  state : Int
  uid : Int
  /-- The 16 characters of the name, the text ending at the first NUL. -/
  comm : List Char
deriving DecidableEq, Repr

/-! ### Arrays of fixed size -/

/-- Read a cell of an array of `size` cells. -/
def read {α : Type} (size : Nat) (cells : Nat → α) (index : Nat) : Option α :=
  if index < size then some (cells index) else none

/-- Write a cell of an array of `size` cells. -/
def write {α : Type} (size : Nat) (cells : Nat → α) (index : Nat) (value : α) : Option (Nat → α) :=
  if index < size then some (Function.update cells index value) else none

@[simp]
theorem read_of_lt {α : Type} {size index : Nat} {cells : Nat → α} (inside : index < size) :
    read size cells index = some (cells index) :=
  if_pos inside

@[simp]
theorem write_of_lt {α : Type} {size index : Nat} {cells : Nat → α} {value : α}
    (inside : index < size) :
    write size cells index value = some (Function.update cells index value) :=
  if_pos inside

/-! ### `display` -/

/-- `buf[index].next_sibling_pid = 0`. -/
def clearSibling (buf : Nat → Prinfo) (index : Nat) : Nat → Prinfo :=
  Function.update buf index { buf index with nextSiblingPid := 0 }

/-- The local variables of `display` and the buffer it works on. -/
structure Frame where
  buf : Nat → Prinfo
  stack : Nat → Nat
  tabcnt : Nat → Nat
  top : Nat

/-- The `while` loop: leave every process on the stack that the process `pid` is not the next sibling
of. At `top = 0` the loop condition reads `stack[-1]`. -/
def popToSibling (cells : Nat) (pid : Int) (stack : Nat → Nat) :
    Nat → (Nat → Prinfo) → Option ((Nat → Prinfo) × Nat)
  | 0, _ => none
  | top + 1, buf => do
      let index ← read MAXPROCESSNUMBER stack top
      let entry ← read cells buf index
      if pid ≠ entry.nextSiblingPid then
        popToSibling cells pid stack top (clearSibling buf index)
      else
        some (buf, top + 1)

/-- The next listed process is neither the next sibling nor the first child of process `i`. -/
def isStale (cells nr : Nat) (buf : Nat → Prinfo) (i : Nat) : Option Bool := do
  if i + 1 = nr then
    some true
  else
    let entry ← read cells buf i
    let next ← read cells buf (i + 1)
    some (entry.nextSiblingPid ≠ next.pid ∧ entry.firstChildPid ≠ next.pid)

/-- The stack is empty, or process `i` is the first child of the process on top of it. -/
def isFirstChild (cells : Nat) (frame : Frame) (i : Nat) : Option Bool := do
  if frame.top = 0 then
    some true
  else
    let entry ← read cells frame.buf i
    let previous ← read MAXPROCESSNUMBER frame.stack (frame.top - 1)
    let previousEntry ← read cells frame.buf previous
    some (entry.pid = previousEntry.firstChildPid)

/-- Put process `i` on the stack: above its parent, or in the place of its previous sibling. -/
def place (cells : Nat) (frame : Frame) (i : Nat) : Option Frame := do
  let firstChild ← isFirstChild cells frame i
  if firstChild then
    let stack ← write MAXPROCESSNUMBER frame.stack frame.top i
    some { frame with stack := stack, top := frame.top + 1 }
  else
    let entry ← read cells frame.buf i
    let (buf, top) ← popToSibling cells entry.pid frame.stack frame.top frame.buf
    let stack ← write MAXPROCESSNUMBER frame.stack (top - 1) i
    some { frame with buf := buf, stack := stack, top := top }

/-- One round of the `for` loop of `display`. -/
def displayStep (cells nr : Nat) (frame : Frame) (i : Nat) : Option Frame := do
  let stale ← isStale cells nr frame.buf i
  let buf ←
    if stale then do
      let _ ← read cells frame.buf i
      some (clearSibling frame.buf i)
    else
      some frame.buf
  let placed ← place cells { frame with buf := buf } i
  let tabcnt ← write MAXPROCESSNUMBER placed.tabcnt i (placed.top - 1)
  some { placed with tabcnt := tabcnt }

/-- One printed line: the tabs and the entry behind them. -/
structure Line where
  tabs : Nat
  entry : Prinfo
deriving DecidableEq, Repr

/-- The characters of the line. -/
def Line.text (line : Line) : String :=
  String.ofList (List.replicate line.tabs '\t') ++
    String.ofList (line.entry.comm.takeWhile (· ≠ '\x00')) ++
    "," ++ toString line.entry.pid ++ "," ++ toString line.entry.state ++
    "," ++ toString line.entry.parentPid ++ "," ++ toString line.entry.firstChildPid ++
    "," ++ toString line.entry.nextSiblingPid ++ "," ++ toString line.entry.uid ++ "\n"

/-- The printing loop. -/
def printLines (cells nr : Nat) (frame : Frame) : Option (List Line) :=
  (List.range nr).mapM fun i => do
    let tabs ← read MAXPROCESSNUMBER frame.tabcnt i
    let entry ← read cells frame.buf i
    some ⟨tabs, entry⟩

/-- `display`, called with a buffer of `cells` entries of which `nr` are listed. The stack starts with
whatever the memory holds. -/
def display (cells : Nat) (buf : Nat → Prinfo) (nr : Nat) (garbage : Nat → Nat) :
    Option (List Line) := do
  let frame ← (List.range nr).foldlM (displayStep cells nr) ⟨buf, garbage, fun _ => 0, 0⟩
  printLines cells nr frame

end KernelHacking.ProcessTree
