/-
Module: KernelHacking.Proofs.PtreeCall
Layer: Proofs
Purpose: What `ptree` writes and copies, for any finite process tree. `dfs` fills the memory behind the
  buffer pointer with the entries of the visited tasks, one behind the other and without a bound. The
  copy to the caller is always the whole buffer. So the call stays inside its buffers for trees that
  fit and callers with room for all of the buffer, and it shows the caller what `kmalloc` found in
  memory unless the entries fill what is copied.
Imports: KernelHacking.Foundations.TreeWalk, KernelHacking.Model.PtreeCall
Trusted boundary: none (fully proved)
Main exports: dfs_eq_visit, foldl_put, exists_dfs, Returns, returns_iff, StaysInside, Fits, stays_inside_iff,
  stays_inside_three, ptree_overruns, RevealsNothing, FilledUp, reveals_nothing_iff,
  reveals_nothing_full, reveals_memory
Open obligations: none
-/
import KernelHacking.Foundations.TreeWalk
import KernelHacking.Model.PtreeCall

namespace KernelHacking.ProcessTree

open TaskTree TreeWalk

/-! ### The bytes of an entry -/

theorem length_getTaskComm (comm : List Char) : (getTaskComm comm).length = 16 := by
  have short : ((comm.takeWhile (· ≠ '\x00')).take 16).length ≤ 16 := by
    rw [List.length_take]
    exact Nat.min_le_left _ _
  rw [getTaskComm, List.length_append, List.length_replicate]
  omega

/-- `convert` writes every byte of the entry. -/
theorem length_convert (s : TaskState) (task : TaskId) :
    (convert s task).bytes.length = PRINFO_SIZE := by
  simp only [Prinfo.bytes, List.length_append, List.length_map, wordBytes, List.length_cons,
    List.length_nil, convert, length_getTaskComm, PRINFO_SIZE]

theorem writeBytes_nil (memory : Nat → Byte) (addr : Nat) : writeBytes memory addr [] = memory := by
  funext other
  simp [writeBytes]

/-- Two writes, the second behind the first. -/
theorem writeBytes_append (memory : Nat → Byte) (addr : Nat) (first second : List Byte) :
    writeBytes (writeBytes memory addr first) (addr + first.length) second =
      writeBytes memory addr (first ++ second) := by
  funext other
  simp only [writeBytes]
  by_cases before : addr ≤ other
  · rw [if_pos before]
    by_cases inFirst : other - addr < first.length
    · rw [if_neg (by omega), if_pos before, List.getElem?_append_left inFirst]
    · rw [if_pos (by omega), if_pos before, List.getElem?_append_right (by omega),
        show other - (addr + first.length) = other - addr - first.length by omega,
        List.getElem?_eq_none (by omega : first.length ≤ other - addr), Option.getD_none]
  · rw [if_neg before, if_neg (by omega), if_neg before]

/-- The children lists are lists of `sibling` links: every task on a list is linked on this list, and
    once. -/
structure SiblingsLinked (s : TaskState) : Prop where
  sibling : ∀ {owner child}, child ∈ s.children owner → s.sibling child = some owner
  nodup : ∀ owner, (s.children owner).Nodup

/-- What `convert` finds behind a task on a children list. -/
theorem nextSiblingPid_at {s : TaskState} {task owner : TaskId} {before rest : List TaskId}
    (linked : SiblingsLinked s) (place : s.children owner = before ++ task :: rest) :
    nextSiblingPid s task = (rest.head?.map s.pid).getD (s.attributes owner).bits.word := by
  have listed : task ∈ s.children owner := by
    rw [place]
    exact List.mem_append_right _ List.mem_cons_self
  have notBefore : ∀ other ∈ before, decide (other ≠ task) = true := by
    intro other inBefore
    have distinct := linked.nodup owner
    rw [place] at distinct
    exact decide_eq_true ((List.nodup_append.mp distinct).2.2 other inBefore task List.mem_cons_self)
  have behind : ((s.children owner).dropWhile (· ≠ task)).drop 1 = rest := by
    rw [place, List.dropWhile_append_of_pos notBefore, List.dropWhile_cons_of_neg (by simp)]
    rfl
  rw [nextSiblingPid, linked.sibling listed]
  dsimp only
  rw [behind]
  cases rest <;> rfl

/-! ### What `dfs` writes -/

/-- `dfs` is a walk in preorder that puts down an entry at each task. -/
theorem dfs_eq_visit (s : TaskState) (depth : Nat) :
    dfs s depth = visit s.children (PtreeBuffer.put s) depth := by
  induction depth with
  | zero => rfl
  | succ depth inductionHypothesis =>
      funext buffer task
      rw [dfs, visit, inductionHypothesis]

/-- The bytes of the entries of tasks, one behind the other. -/
def listing (s : TaskState) (visited : List TaskId) : List Byte :=
  visited.flatMap fun task => (convert s task).bytes

theorem listing_cons (s : TaskState) (task : TaskId) (rest : List TaskId) :
    listing s (task :: rest) = (convert s task).bytes ++ listing s rest :=
  List.flatMap_cons

theorem length_listing (s : TaskState) (visited : List TaskId) :
    (listing s visited).length = PRINFO_SIZE * visited.length := by
  induction visited with
  | nil => rfl
  | cons task rest inductionHypothesis =>
      rw [listing_cons, List.length_append, length_convert, inductionHypothesis, List.length_cons,
        Nat.mul_succ, Nat.add_comm]

/-- The buffer after the entries of the visited tasks. -/
theorem foldl_put (s : TaskState) (visited : List TaskId) (buffer : PtreeBuffer) :
    visited.foldl (PtreeBuffer.put s) buffer =
      { memory := writeBytes buffer.memory (PRINFO_SIZE * buffer.nr) (listing s visited)
        nr := buffer.nr + visited.length
        written := buffer.written ++ List.range' buffer.nr visited.length } := by
  induction visited generalizing buffer with
  | nil => simp [listing, writeBytes_nil]
  | cons task rest inductionHypothesis =>
      rw [List.foldl_cons, inductionHypothesis, PtreeBuffer.put]
      dsimp only
      have next : PRINFO_SIZE * (buffer.nr + 1) =
          PRINFO_SIZE * buffer.nr + (convert s task).bytes.length := by
        rw [length_convert, Nat.mul_succ]
      rw [next, writeBytes_append, ← listing_cons, List.length_cons, List.range'_succ,
        List.append_assoc, Nat.add_assoc, Nat.add_comm 1]
      rfl

/-- The memory from the buffer pointer on, after the walk. -/
def filled (s : TaskState) (visited : List TaskId) (contents : Nat → Byte) : Nat → Byte :=
  writeBytes contents 0 (listing s visited)

theorem filled_of_lt {s : TaskState} {visited : List TaskId} {addr : Nat}
    (inside : addr < PRINFO_SIZE * visited.length) (first second : Nat → Byte) :
    filled s visited first addr = filled s visited second addr := by
  rw [← length_listing s] at inside
  rw [filled, filled, writeBytes, writeBytes, if_pos (Nat.zero_le _), if_pos (Nat.zero_le _),
    Nat.sub_zero,
    List.getElem?_eq_getElem inside, Option.getD_some, Option.getD_some]

theorem filled_of_le {s : TaskState} {visited : List TaskId} {addr : Nat}
    (outside : PRINFO_SIZE * visited.length ≤ addr) (contents : Nat → Byte) :
    filled s visited contents addr = contents addr := by
  rw [← length_listing s] at outside
  rw [filled, writeBytes, if_pos (Nat.zero_le _), Nat.sub_zero, List.getElem?_eq_none outside,
    Option.getD_none]

/-! ### How a call ends -/

/-- The call ends so. -/
def Returns (s : TaskState) (services : PtreeServices) (ending : PtreeEnd) : Prop :=
  ∃ depth, ptree s depth services = some ending

/-- The end of a call in a tree of which the tasks are visited in the given order. -/
def endOf (s : TaskState) (visited : List TaskId) (services : PtreeServices) : PtreeEnd :=
  if services.kmalloc then
    let size := PRINFO_SIZE * MAXBUFFERSIZE
    let written := List.range visited.length
    let copied := copyToUser services.bufAccepts size (filled s visited services.contents)
    let nrBytes := wordBytes visited.length
    if services.bufAccepts < size then .returned 1 written copied []
    else if services.nrAccepts < nrBytes.length then
      .returned 1 written copied (nrBytes.take services.nrAccepts)
    else .returned 0 written copied nrBytes
  else .oops

/-- The buffer behind the walk. -/
theorem foldl_put_empty (s : TaskState) (visited : List TaskId) (contents : Nat → Byte) :
    visited.foldl (PtreeBuffer.put s) ⟨contents, 0, []⟩ =
      ⟨filled s visited contents, visited.length, List.range visited.length⟩ := by
  rw [foldl_put, List.range_eq_range']
  simp only [Nat.mul_zero, Nat.zero_add, List.nil_append, filled]

/-- In a finite tree the walk ends. -/
theorem exists_dfs {s : TaskState} {visited : List TaskId} (tree : Visits s.children [initTask] visited)
    (contents : Nat → Byte) : ∃ depth, dfs s depth ⟨contents, 0, []⟩ initTask =
      some ⟨filled s visited contents, visited.length, List.range visited.length⟩ := by
  obtain ⟨depth, walks⟩ := exists_visit (PtreeBuffer.put s) tree
  have walked := walks ⟨contents, 0, []⟩
  rw [List.foldlM_cons, ← dfs_eq_visit, foldl_put_empty] at walked
  obtain ⟨after, walkedRoot, isAfter⟩ := Option.bind_eq_some_iff.mp walked
  cases isAfter
  exact ⟨depth, walkedRoot⟩

/-- A call in a finite tree comes to its end, and to no other. -/
theorem returns_iff {s : TaskState} {visited : List TaskId} (tree : Visits s.children [initTask] visited)
    (services : PtreeServices) (ending : PtreeEnd) :
    Returns s services ending ↔ ending = endOf s visited services := by
  constructor
  · rintro ⟨depth, returned⟩
    rw [ptree] at returned
    rw [endOf]
    by_cases memory : services.kmalloc = true
    · rw [if_pos memory] at returned ⊢
      obtain ⟨after, walked, rfl⟩ := Option.map_eq_some_iff.mp returned
      rw [dfs_eq_visit] at walked
      obtain ⟨other, visits, rfl⟩ := visits_of_visit walked
      rw [visits.unique tree, foldl_put_empty]
    · rw [if_neg memory] at returned ⊢
      exact (Option.some.inj returned).symm
  · rintro rfl
    rw [endOf]
    by_cases memory : services.kmalloc = true
    · obtain ⟨depth, walked⟩ := exists_dfs tree services.contents
      refine ⟨depth, ?_⟩
      rw [ptree, if_pos memory, if_pos memory, walked]
      rfl
    · refine ⟨0, ?_⟩
      rw [ptree, if_neg memory, if_neg memory]

/-! ### Staying inside the buffers -/

/-- For a tree of `processes` tasks and a caller with room for `nr` entries: `dfs` writes into the
buffer, the call writes at most `nr` entries to the caller, and what it stores in `*nr` is the number of
entries of the tree that it has copied. -/
def StaysInside (processes : Nat) (nr : Int) : PtreeEnd → Prop
  | .oops => False
  | .returned code written copied nrCopied =>
      (∀ index ∈ written, index < MAXBUFFERSIZE) ∧ copied.length ≤ PRINFO_SIZE * nr.toNat ∧
        (code = 0 → nrCopied = wordBytes (min processes (copied.length / PRINFO_SIZE) : Nat))

/-- There is memory, the tree fits into the buffer, and the whole buffer fits into the memory of the
caller, or the copy stops in time. -/
structure Fits (visited : List TaskId) (services : PtreeServices) (nr : Int) : Prop where
  memory : services.kmalloc = true
  tree : visited.length ≤ MAXBUFFERSIZE
  room : MAXBUFFERSIZE ≤ nr.toNat ∨ services.bufAccepts ≤ PRINFO_SIZE * nr.toNat

theorem length_copyToUser (accepts size : Nat) (memory : Nat → Byte) :
    (copyToUser accepts size memory).length = min accepts size := by
  rw [copyToUser, List.length_map, List.length_range]

/-- The three parts of the end of a call with memory. -/
theorem endOf_returned (s : TaskState) (visited : List TaskId) {services : PtreeServices}
    (memory : services.kmalloc = true) :
    ∃ code nrCopied, endOf s visited services = .returned code (List.range visited.length)
        (copyToUser services.bufAccepts (PRINFO_SIZE * MAXBUFFERSIZE)
          (filled s visited services.contents)) nrCopied ∧
      (code = 0 → PRINFO_SIZE * MAXBUFFERSIZE ≤ services.bufAccepts ∧
        nrCopied = wordBytes visited.length) ∧
      ∀ contents, endOf s visited { services with contents := contents } =
        .returned code (List.range visited.length)
          (copyToUser services.bufAccepts (PRINFO_SIZE * MAXBUFFERSIZE) (filled s visited contents))
          nrCopied := by
  by_cases short : services.bufAccepts < PRINFO_SIZE * MAXBUFFERSIZE
  · refine ⟨1, [], ?_, fun isZero => absurd isZero (by decide), fun contents => ?_⟩
    · simp only [endOf, memory, if_true, if_pos short]
    · simp only [endOf, memory, if_true, if_pos short]
  · by_cases stopped : services.nrAccepts < (wordBytes (visited.length : Int)).length
    · refine ⟨1, (wordBytes visited.length).take services.nrAccepts, ?_,
        fun isZero => absurd isZero (by decide), fun contents => ?_⟩
      · simp only [endOf, memory, if_true, if_neg short, if_pos stopped]
      · simp only [endOf, memory, if_true, if_neg short, if_pos stopped]
    · refine ⟨0, wordBytes visited.length, ?_, fun _ => ⟨Nat.not_lt.mp short, rfl⟩, fun contents => ?_⟩
      · simp only [endOf, memory, if_true, if_neg short, if_neg stopped]
      · simp only [endOf, memory, if_true, if_neg short, if_neg stopped]

theorem staysInside_endOf (s : TaskState) (visited : List TaskId) (services : PtreeServices) (nr : Int) :
    StaysInside visited.length nr (endOf s visited services) ↔ Fits visited services nr := by
  by_cases memory : services.kmalloc = true
  · obtain ⟨code, nrCopied, isEnd, stored, _⟩ := endOf_returned s visited memory
    rw [isEnd, StaysInside, length_copyToUser]
    constructor
    · rintro ⟨inBuffer, inRoom, _⟩
      refine ⟨memory, Nat.not_lt.mp fun large => ?_, ?_⟩
      · exact absurd (inBuffer MAXBUFFERSIZE (List.mem_range.mpr large)) (Nat.lt_irrefl _)
      · simp only [PRINFO_SIZE] at inRoom ⊢
        omega
    · rintro ⟨_, tree, room⟩
      refine ⟨fun index listed => Nat.lt_of_lt_of_le (List.mem_range.mp listed) tree, ?_,
        fun succeeds => ?_⟩
      · simp only [PRINFO_SIZE] at room ⊢
        omega
      · obtain ⟨whole, isStored⟩ := stored succeeds
        have copied : min visited.length
            (min services.bufAccepts (PRINFO_SIZE * MAXBUFFERSIZE) / PRINFO_SIZE) = visited.length := by
          simp only [PRINFO_SIZE] at whole ⊢
          omega
        rw [isStored, copied]
  · rw [endOf, if_neg memory]
    exact ⟨False.elim, fun fits => memory fits.memory⟩

/-- For every finite process tree, every outcome of `kmalloc` and every `*nr`: the call comes to an end,
and it has stayed inside its buffers exactly if everything fits. -/
theorem stays_inside_iff {s : TaskState} {visited : List TaskId}
    (tree : Visits s.children [initTask] visited) (services : PtreeServices) (nr : Int) :
    ∃ ending, Returns s services ending ∧
      (StaysInside visited.length nr ending ↔ Fits visited services nr) :=
  ⟨_, (returns_iff tree services _).mpr rfl, staysInside_endOf s visited services nr⟩

/-- `init_task` with a number of children. -/
def wideTree (count : Nat) : TaskState :=
  { bootTasks ⟨⟨false, false, false, false, false, false⟩, 0, 0, []⟩ with
    children := fun task => if task = initTask then List.range' 1 count else [] }

theorem visits_childless {children : TaskId → List TaskId} {nodes : List TaskId}
    (childless : ∀ node ∈ nodes, children node = []) : Visits children nodes nodes := by
  induction nodes with
  | nil => exact .nil
  | cons node rest inductionHypothesis =>
      have below : Visits children (children node) [] := by
        rw [childless node List.mem_cons_self]
        exact .nil
      exact .cons below (inductionHypothesis fun other listed =>
        childless other (List.mem_cons_of_mem _ listed))

theorem wideTree_visits (count : Nat) :
    Visits (wideTree count).children [initTask] (initTask :: List.range' 1 count) := by
  have below : Visits (wideTree count).children (List.range' 1 count) (List.range' 1 count) := by
    refine visits_childless fun node listed => if_neg ?_
    rintro rfl
    exact absurd (List.mem_range'_1.mp listed).1 (by decide)
  have walk : Visits (wideTree count).children [initTask]
      (initTask :: (List.range' 1 count ++ [])) := .cons below .nil
  rwa [List.append_nil] at walk

/-- How a call ends in such a tree. -/
theorem wideTree_end (count : Nat) (services : PtreeServices) (nr : Int) :
    ∃ ending, Returns (wideTree count) services ending ∧
      (StaysInside (count + 1) nr ending ↔ Fits (initTask :: List.range' 1 count) services nr) := by
  have processes : (initTask :: List.range' 1 count).length = count + 1 := by
    rw [List.length_cons, List.length_range']
  refine ⟨_, (returns_iff (wideTree_visits count) services _).mpr rfl, ?_⟩
  rw [← staysInside_endOf (wideTree count), processes]

/-- Services that refuse nothing, with the given contents of the fresh memory. -/
def generous (contents : Nat → Byte) : PtreeServices where
  kmalloc := true
  contents := contents
  bufAccepts := 100000
  nrAccepts := 4

/-- The same services without memory. -/
def exhausted : PtreeServices := { generous (fun _ => 0) with kmalloc := false }

/-- Three processes, and a caller with room for the whole buffer. -/
theorem stays_inside_three :
    ∃ ending, Returns (wideTree 2) (generous fun _ => 0) ending ∧ StaysInside 3 2048 ending := by
  obtain ⟨ending, returned, isInside⟩ := stays_inside_iff (wideTree_visits 2) (generous fun _ => 0) 2048
  exact ⟨ending, returned, isInside.mpr ⟨rfl, by decide, Or.inl (by decide)⟩⟩

/-- Without memory the first entry is written to the null pointer; with 2049 processes the last entry is
written behind the buffer; and a caller that asks for three entries gets 2048. -/
theorem ptree_overruns :
    (∃ ending, Returns (wideTree 2) exhausted ending ∧ ¬StaysInside (2 + 1) 2048 ending) ∧
    (∃ ending, Returns (wideTree 2048) (generous fun _ => 0) ending ∧
      ¬StaysInside (2048 + 1) 4096 ending) ∧
    ∃ ending, Returns (wideTree 2) (generous fun _ => 0) ending ∧ ¬StaysInside (2 + 1) 3 ending := by
  refine ⟨?_, ?_, ?_⟩
  · obtain ⟨ending, returned, isInside⟩ := wideTree_end 2 exhausted 2048
    refine ⟨ending, returned, fun inside => ?_⟩
    cases (isInside.mp inside).memory
  · obtain ⟨ending, returned, isInside⟩ := wideTree_end 2048 (generous fun _ => 0) 4096
    refine ⟨ending, returned, fun inside => ?_⟩
    have tree := (isInside.mp inside).tree
    rw [List.length_cons, List.length_range'] at tree
    exact absurd tree (by decide)
  · obtain ⟨ending, returned, isInside⟩ := wideTree_end 2 (generous fun _ => 0) 3
    refine ⟨ending, returned, fun inside => ?_⟩
    rcases (isInside.mp inside).room with all | stops
    · exact absurd all (by decide)
    · exact absurd stops (by decide)

/-! ### What the caller sees -/

/-- The bytes copied to the caller: to `buf` and to `nr`. -/
def PtreeEnd.copiedBytes : PtreeEnd → List Byte × List Byte
  | .oops => ([], [])
  | .returned _ _ copied nrCopied => (copied, nrCopied)

/-- The bytes that are copied do not depend on what the memory contained that `kmalloc` returns. -/
def RevealsNothing (s : TaskState) (services : PtreeServices) : Prop :=
  ∀ first second firstEnd secondEnd, Returns s { services with contents := first } firstEnd →
    Returns s { services with contents := second } secondEnd →
    firstEnd.copiedBytes = secondEnd.copiedBytes

/-- What is copied is written first: the entries of the tree fill the buffer, or the copy stops before
their end. -/
def FilledUp (visited : List TaskId) (services : PtreeServices) : Prop :=
  MAXBUFFERSIZE ≤ visited.length ∨ services.bufAccepts ≤ PRINFO_SIZE * visited.length

theorem filledUp_iff {visited : List TaskId} {services : PtreeServices} :
    FilledUp visited services ↔
      min services.bufAccepts (PRINFO_SIZE * MAXBUFFERSIZE) ≤ PRINFO_SIZE * visited.length := by
  simp only [FilledUp, PRINFO_SIZE]
  omega

/-- The copied bytes of a call with memory, for any contents of that memory. -/
theorem copiedBytes_endOf (s : TaskState) (visited : List TaskId) {services : PtreeServices}
    (memory : services.kmalloc = true) :
    ∃ nrCopied, ∀ contents, (endOf s visited { services with contents := contents }).copiedBytes =
      (copyToUser services.bufAccepts (PRINFO_SIZE * MAXBUFFERSIZE) (filled s visited contents),
        nrCopied) := by
  obtain ⟨code, nrCopied, _, _, isEnd⟩ := endOf_returned s visited memory
  refine ⟨nrCopied, fun contents => ?_⟩
  rw [isEnd, PtreeEnd.copiedBytes]

section

variable {s : TaskState} {visited : List TaskId} (tree : Visits s.children [initTask] visited)
  {services : PtreeServices}

include tree

/-- If the buffer is not filled up, the byte behind the last entry is one that `kmalloc` left. -/
theorem leaks_of_not_filledUp (memory : services.kmalloc = true) (beyond : ¬FilledUp visited services) :
    ¬RevealsNothing s services := by
  rw [filledUp_iff, Nat.not_le] at beyond
  intro nothing
  obtain ⟨nrCopied, copied⟩ := copiedBytes_endOf s visited memory
  have same := nothing (fun _ => 0) (fun _ => 1) _ _ ((returns_iff tree _ _).mpr rfl)
    ((returns_iff tree _ _).mpr rfl)
  rw [copied, copied, Prod.mk.injEq, copyToUser, copyToUser, List.map_inj_left] at same
  have leaked := same.1 (PRINFO_SIZE * visited.length) (List.mem_range.mpr beyond)
  rw [filled_of_le (Nat.le_refl _), filled_of_le (Nat.le_refl _)] at leaked
  exact absurd leaked (by decide)

theorem FilledUp.reveals_nothing (memory : services.kmalloc = true)
    (enough : FilledUp visited services) : RevealsNothing s services := by
  rw [filledUp_iff] at enough
  intro first second firstEnd secondEnd firstReturned secondReturned
  obtain ⟨nrCopied, copied⟩ := copiedBytes_endOf s visited memory
  rw [(returns_iff tree _ _).mp firstReturned, (returns_iff tree _ _).mp secondReturned, copied, copied,
    Prod.mk.injEq, copyToUser, copyToUser, List.map_inj_left]
  refine ⟨fun addr listed => filled_of_lt ?_ first second, rfl⟩
  exact Nat.lt_of_lt_of_le (List.mem_range.mp listed) enough

/-- For every finite process tree and every caller: two calls that differ only in what the memory
contained copy the same bytes exactly if there is no memory at all or everything that is copied has been
written. -/
theorem reveals_nothing_iff (services : PtreeServices) :
    RevealsNothing s services ↔ services.kmalloc = false ∨ FilledUp visited services := by
  by_cases memory : services.kmalloc = true
  · constructor
    · intro nothing
      by_contra neither
      exact leaks_of_not_filledUp tree memory (fun enough => neither (Or.inr enough)) nothing
    · rintro (noMemory | enough)
      · rw [memory] at noMemory
        cases noMemory
      · exact enough.reveals_nothing tree memory
  · refine ⟨fun _ => Or.inl (Bool.of_not_eq_true memory), fun _ => ?_⟩
    intro first second firstEnd secondEnd firstReturned secondReturned
    rw [(returns_iff tree _ _).mp firstReturned, (returns_iff tree _ _).mp secondReturned, endOf, endOf,
      if_neg memory, if_neg memory]

end

/-- With 2048 processes the whole buffer is written. -/
theorem reveals_nothing_full : RevealsNothing (wideTree 2047) (generous fun _ => 0) := by
  refine (reveals_nothing_iff (wideTree_visits 2047) (generous fun _ => 0)).mpr (Or.inr (Or.inl ?_))
  rw [List.length_cons, List.length_range']
  decide

/-- With three processes the caller sees what was in memory. -/
theorem reveals_memory : ¬RevealsNothing (wideTree 2) (generous fun _ => 0) := by
  refine leaks_of_not_filledUp (wideTree_visits 2) rfl ?_
  rintro (full | stops)
  · exact absurd full (by decide)
  · exact absurd stops (by decide)

end KernelHacking.ProcessTree
