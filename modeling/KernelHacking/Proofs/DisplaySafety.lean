/-
Module: KernelHacking.Proofs.DisplaySafety
Layer: Proofs
Purpose: Which listings `display` can handle. Whatever the sibling link behind a last sibling holds, every
  process finds its place on the stack: its parent is on top, or its previous sibling is still on the
  stack with its link. So the stack is never left, and the only limit is the size of the two arrays,
  which is smaller than that of the buffer (`listing_handled_iff`).
Imports: Mathlib.Data.Nat.Find, KernelHacking.Proofs.DisplayTree, KernelHacking.Proofs.PtreeOrder
Trusted boundary: none (fully proved)
Main exports: HasPlace, Keeps, EntryLinks, visits_handled, loadPrinfo, StaysInBounds,
  listing_handled_iff
Open obligations: none
-/
import Mathlib.Data.Nat.Find
import KernelHacking.Proofs.DisplayTree
import KernelHacking.Proofs.PtreeOrder

namespace KernelHacking.ProcessTree

open TaskTree TreeWalk

/-! ### A place for every process -/

/-- Process `i` has a place: the stack is empty, or the process on top of it names `i` as its first
    child, or a process from `bound` on, somewhere on the stack, names `i` as its sibling. -/
def HasPlace (source : Nat → Prinfo) (bound i : Nat) (frame : Frame) : Prop :=
  frame.top = 0 ∨ (source (frame.stack (frame.top - 1))).firstChildPid = (source i).pid ∨
    ∃ level, level < frame.top ∧ bound ≤ frame.stack level ∧
      (frame.buf (frame.stack level)).nextSiblingPid = (source i).pid

/-- The processes before `bound` stay on the stack, with their links. -/
def Keeps (bound : Nat) (before after : Frame) : Prop :=
  ∀ level, level < before.top → before.stack level < bound →
    level < after.top ∧ after.stack level = before.stack level ∧
      after.buf (before.stack level) = before.buf (before.stack level)

theorem Keeps.trans {bound : Nat} {first second third : Frame} (before : Keeps bound first second)
    (after : Keeps bound second third) : Keeps bound first third := by
  intro level lower early
  rcases before level lower early with ⟨inSecond, sameStack, sameBuf⟩
  rcases after level inSecond (by rw [sameStack]; exact early) with ⟨inThird, stackAgain, bufAgain⟩
  rw [sameStack] at stackAgain bufAgain
  exact ⟨inThird, stackAgain, bufAgain.trans sameBuf⟩

theorem Keeps.mono {bound larger : Nat} {before after : Frame} (less : bound ≤ larger)
    (keeps : Keeps larger before after) : Keeps bound before after :=
  fun level lower early => keeps level lower (Nat.lt_of_lt_of_le early less)

/-- The place is a level of the stack, and the processes before `bound` are below it. -/
theorem HasPlace.exists_waiting {source : Nat → Prinfo} {bound i : Nat} {frame : Frame}
    (place : HasPlace source bound i frame) (sound : Sound source i frame) :
    ∃ depth, Waiting source i depth frame ∧
      ∀ level, level < frame.top → frame.stack level < bound → level < depth := by
  by_cases isChild : (source (frame.stack (frame.top - 1))).firstChildPid = (source i).pid
  · exact ⟨frame.top, .child rfl fun _ => isChild, fun level lower _ => lower⟩
  · rcases place with empty | child | ⟨level, lower, fromBound, link⟩
    · refine ⟨frame.top, .child rfl fun positive => ?_, fun level lower _ => lower⟩
      omega
    · exact absurd child isChild
    · -- the loop stops at the highest level with such a link
      let named (k : Nat) : Prop := (frame.buf (frame.stack k)).nextSiblingPid = (source i).pid
      have highest := Nat.findGreatest_spec (P := named) (show level ≤ frame.top - 1 by omega) link
      have above := Nat.le_findGreatest (P := named) (show level ≤ frame.top - 1 by omega) link
      have inside := Nat.findGreatest_le (P := named) (frame.top - 1)
      refine ⟨Nat.findGreatest named (frame.top - 1),
        .sibling (by omega) isChild highest fun other higher below =>
          Nat.findGreatest_is_greatest (P := named) higher (by omega), fun other below early => ?_⟩
      by_contra notLower
      rcases Nat.lt_or_ge level other with later | earlier
      · have ascends := sound.ascending level other later below
        omega
      · have same : other = level := by omega
        rw [same] at early
        omega

/-- One round of the loop, for a process that has a place. -/
theorem displayStep_handled {source : Nat → Prinfo} {cells nr bound i : Nat} {frame : Frame}
    (consistent : Consistent source i frame) (place : HasPlace source bound i frame)
    (small : nr ≤ MAXPROCESSNUMBER) (room : nr ≤ cells) (listed : i < nr) :
    ∃ depth after, displayStep cells nr frame i = some after ∧
      Enters source nr i depth frame after ∧ Keeps bound frame after := by
  rcases place.exists_waiting consistent.toSound with ⟨depth, waiting, below⟩
  rcases displayStep_enters consistent waiting small room listed with ⟨after, step, enters⟩
  refine ⟨depth, after, step, enters, fun level lower early => ?_⟩
  have deeper := below level lower early
  exact ⟨by rw [enters.top_eq]; omega, enters.path level deeper⟩

/-! ### The whole loop -/

/-- The entries of a tree are linked: that of a process names its first child, and that of a process
    with a next sibling names this sibling. Nothing is said about the link of a last sibling. -/
structure EntryLinks {α : Type} (children : α → List α) (entry : α → Prinfo) : Prop where
  firstChild : ∀ {node first rest}, children node = first :: rest →
    (entry node).firstChildPid = (entry first).pid
  nextSibling : ∀ node, (children node).IsChain fun one next =>
    (entry one).nextSiblingPid = (entry next).pid

theorem visits_head {α : Type} {children : α → List α} {nodes visited : List α}
    (visits : Visits children nodes visited) : visited.head? = nodes.head? := by
  cases visits with
  | nil => rfl
  | cons below behind => rfl

section Loop

variable {α : Type} {children : α → List α} {entry : α → Prinfo} {source : Nat → Prinfo}
  {cells nr i depth : Nat} {frame entered inner : Frame} {node : α}

/-- From entry `i` on, the buffer holds the entries of the nodes. -/
def Holds (source : Nat → Prinfo) (entry : α → Prinfo) (i : Nat) (visited : List α) : Prop :=
  ∀ k node, visited[k]? = some node → source (i + k) = entry node

theorem Holds.left {first second : List α} (holds : Holds source entry i (first ++ second)) :
    Holds source entry i first := by
  intro k node listed
  apply holds k node
  rw [List.getElem?_append_left (List.getElem?_eq_some_iff.mp listed).1]
  exact listed

theorem Holds.right {first second : List α} (holds : Holds source entry i (first ++ second)) :
    Holds source entry (i + first.length) second := by
  intro k node listed
  rw [Nat.add_assoc]
  apply holds
  rw [List.getElem?_append_right (Nat.le_add_right _ _), Nat.add_sub_cancel_left]
  exact listed

/-- Behind a process comes its first child. -/
theorem Enters.place_child (enters : Enters source nr i depth frame entered)
    (links : EntryLinks children entry) {visited : List α} (here : source i = entry node)
    (visits : Visits children (children node) visited) (holds : Holds source entry (i + 1) visited)
    (nonempty : children node ≠ []) : HasPlace source (i + 1) (i + 1) entered := by
  rcases List.exists_cons_of_ne_nil nonempty with ⟨first, rest, isFirst⟩
  have isHead : visited[0]? = some first := by
    rw [← List.head?_eq_getElem?, visits_head visits, isFirst]
    rfl
  refine Or.inr (Or.inl ?_)
  rw [enters.top_eq, Nat.add_sub_cancel, enters.placed, here, links.firstChild isFirst,
    ← holds 0 first isHead]

/-- Behind the processes below a process comes its next sibling, and the process is still on the stack
    with its link. -/
theorem Enters.place_sibling (enters : Enters source nr i depth frame entered)
    (links : EntryLinks children entry) {below behind : List α} {next : α} {rest : List α}
    (here : source i = entry node) (visits : Visits children (children node) below)
    (siblings : Visits children (next :: rest) behind)
    (holds : Holds source entry (i + 1) (below ++ behind))
    (listed : i + 1 + below.length + behind.length ≤ nr)
    (link : (entry node).nextSiblingPid = (entry next).pid) (keeps : Keeps (i + 1) entered inner) :
    HasPlace source i (i + 1 + below.length) inner := by
  have isNext : behind[0]? = some next := by
    rw [← List.head?_eq_getElem?, visits_head siblings]
    rfl
  have more : 0 < behind.length := (List.getElem?_eq_some_iff.mp isNext).1
  have nextEntry : source (i + 1 + below.length) = entry next := holds.right 0 next isNext
  have related : NextRelated nr source i := by
    refine ⟨by omega, ?_⟩
    cases isChildren : children node with
    | nil =>
        rw [isChildren] at visits
        cases visits
        rw [here, link, ← nextEntry]
        exact Or.inl rfl
    | cons first others =>
        have isFirst : below[0]? = some first := by
          rw [← List.head?_eq_getElem?, visits_head visits, isChildren]
          rfl
        rw [here, links.firstChild isChildren, ← holds.left 0 first isFirst]
        exact Or.inr rfl
  have onTop : entered.stack depth < i + 1 := by
    rw [enters.placed]
    exact Nat.lt_succ_self i
  rcases keeps depth (by rw [enters.top_eq]; exact Nat.lt_succ_self depth) onTop with
    ⟨lower, sameStack, sameBuf⟩
  rw [enters.placed] at sameStack sameBuf
  refine Or.inr (Or.inr ⟨depth, lower, Nat.le_of_eq sameStack.symm, ?_⟩)
  rw [sameStack, sameBuf, enters.kept related, here, link, nextEntry]

/-- The rounds of a listed tree stay inside the arrays. -/
theorem visits_handled (links : EntryLinks children entry) (small : nr ≤ MAXPROCESSNUMBER)
    (room : nr ≤ cells) {nodes visited : List α} (visits : Visits children nodes visited)
    {bound : Nat} (holds : Holds source entry i visited) (listed : i + visited.length ≤ nr)
    (siblings : nodes.IsChain fun one next => (entry one).nextSiblingPid = (entry next).pid)
    (consistent : Consistent source i frame) (early : bound ≤ i)
    (place : nodes ≠ [] → HasPlace source bound i frame) :
    ∃ after, rounds cells nr frame i visited.length = some after ∧
      Consistent source (i + visited.length) after ∧ Keeps bound frame after := by
  induction visits generalizing i bound frame with
  | nil => exact ⟨frame, rfl, consistent, fun level lower _ => ⟨lower, rfl, rfl⟩⟩
  | @cons node rest below behind visitsBelow visitsBehind ofBelow ofBehind =>
      have sizes : (node :: (below ++ behind)).length = 1 + (below.length + behind.length) := by
        simp only [List.length_cons, List.length_append]
        omega
      rw [sizes] at listed ⊢
      have here : source i = entry node := holds 0 node rfl
      have whole : Holds source entry i ([node] ++ (below ++ behind)) := holds
      have later : Holds source entry (i + 1) (below ++ behind) := whole.right
      -- the round of the process itself
      rcases displayStep_handled consistent (place (by simp)) small room (by omega) with
        ⟨depth, entered, step, enters, keepsHere⟩
      -- the rounds of the processes below it
      rcases ofBelow later.left (by omega) (links.nextSibling node) enters.consistent
        (Nat.le_refl _) (enters.place_child links here visitsBelow later.left) with
        ⟨inner, roundsBelow, consistentBelow, keepsBelow⟩
      -- the rounds of its siblings
      have placeBehind : rest ≠ [] → HasPlace source i (i + 1 + below.length) inner := by
        intro nonempty
        rcases List.exists_cons_of_ne_nil nonempty with ⟨next, others, rfl⟩
        exact enters.place_sibling links here visitsBelow visitsBehind later (by omega)
          (List.isChain_cons_cons.mp siblings).1 keepsBelow
      rcases ofBehind later.right (by omega) siblings.tail consistentBelow (by omega)
        placeBehind with ⟨after, roundsBehind, consistentBehind, keepsBehind⟩
      refine ⟨after, ?_, ?_, ?_⟩
      · rw [rounds_add (rounds_one step), rounds_add roundsBelow, roundsBehind]
      · rwa [Nat.add_assoc (i + 1), Nat.add_assoc i] at consistentBehind
      · exact (keepsHere.trans (keepsBelow.mono (by omega))).trans (keepsBehind.mono early)

end Loop

/-! ### The size of the arrays -/

/-- `display` reads and writes `buf` below `nr` only, and `stack` and `tabcnt` inside their
    `MAXPROCESSNUMBER` cells, whatever the stack contains at the start. -/
def StaysInBounds (buf : Nat → Prinfo) (nr : Nat) : Prop :=
  ∀ garbage, (display nr buf nr garbage).isSome = true

/-- The round of entry 256 writes behind `tabcnt`. -/
theorem displayStep_overrun (cells nr : Nat) (frame : Frame) :
    displayStep cells nr frame MAXPROCESSNUMBER = none := by
  have outside : ∀ tabs value, write MAXPROCESSNUMBER tabs MAXPROCESSNUMBER value =
      (none : Option (Nat → Nat)) := fun _ _ => if_neg (Nat.lt_irrefl _)
  simp [displayStep, outside]

/-- Without a place in the arrays the loop does not come to its end. -/
theorem display_overruns {cells nr : Nat} (large : MAXPROCESSNUMBER < nr) (buf : Nat → Prinfo)
    (garbage : Nat → Nat) : display cells buf nr garbage = none := by
  have before : List.range nr = List.range MAXPROCESSNUMBER ++
      MAXPROCESSNUMBER :: List.range' (MAXPROCESSNUMBER + 1) (nr - MAXPROCESSNUMBER - 1) := by
    have whole := @List.range'_append_1 0 MAXPROCESSNUMBER (nr - MAXPROCESSNUMBER - 1 + 1)
    rw [Nat.zero_add] at whole
    rw [← List.range'_succ, List.range_eq_range', List.range_eq_range', whole]
    congr 1
    omega
  rw [display, before, List.foldlM_append]
  cases (List.range MAXPROCESSNUMBER).foldlM (displayStep cells nr) ⟨buf, garbage, fun _ => 0, 0⟩ with
  | none => rfl
  | some frame =>
      simp only [Option.bind_eq_bind, Option.bind_some, List.foldlM_cons, displayStep_overrun,
        Option.bind_none]

/-- For the entries of a tree, the arrays are left exactly if the tree is too large for them. -/
theorem staysInBounds_iff {α : Type} {children : α → List α} {entry : α → Prinfo} {buf : Nat → Prinfo}
    {root : α} {visited : List α} (links : EntryLinks children entry)
    (visits : Visits children [root] visited) (holds : Holds buf entry 0 visited) :
    StaysInBounds buf visited.length ↔ visited.length ≤ MAXPROCESSNUMBER := by
  constructor
  · intro inBounds
    by_contra large
    have printed := inBounds fun _ => 0
    rw [display_overruns (Nat.not_le.mp large)] at printed
    cases printed
  · intro small garbage
    have ready := ready_initial visited.length buf garbage 0 .nil .nil
    rcases visits_handled links small (Nat.le_refl _) visits holds (by omega)
      (List.isChain_singleton _) ready.1 (Nat.le_refl 0) (fun _ => Or.inl rfl) with
      ⟨after, done, _⟩
    rw [display_of_rounds small (Nat.le_refl _) done]
    rfl

/-! ### What the system call delivers -/

/-- The entry at an address. -/
def loadPrinfo (memory : Nat → Byte) (addr : Nat) : Prinfo where
  parentPid := (loadWord memory addr).toInt
  pid := (loadWord memory (addr + 4)).toInt
  firstChildPid := (loadWord memory (addr + 8)).toInt
  nextSiblingPid := (loadWord memory (addr + 12)).toInt
  state := (loadWord memory (addr + 16)).toInt
  uid := (loadWord memory (addr + 20)).toInt
  comm := (loadComm memory (addr + 24)).map fun byte => Char.ofNat byte.toNat

/-- Bytes that have been copied to an address, as memory from this address on. -/
def userMemory (copied : List Byte) (addr : Nat) : Byte := (copied[addr]?).getD 0

/-- `buf` of the client. -/
def clientBuf (copied : List Byte) (i : Nat) : Prinfo := loadPrinfo (userMemory copied) (PRINFO_SIZE * i)

/-- `*nr` of the client. -/
def clientNr (nrCopied : List Byte) : Nat := (loadWord (userMemory nrCopied) 0).toNat

/-- A number as it is read from four bytes. -/
def asInt (value : Int) : Int := (BitVec.ofInt 32 value).toInt

/-- The entry of a task as the client reads it. -/
def clientEntry (s : TaskState) (task : TaskId) : Prinfo where
  parentPid := asInt (convert s task).parentPid
  pid := asInt (s.pid task)
  firstChildPid := asInt (firstChildPid s task)
  nextSiblingPid := asInt (nextSiblingPid s task)
  state := asInt (s.attributes task).state
  uid := asInt (s.attributes task).uid
  comm := (getTaskComm (s.attributes task).comm).map fun char =>
    Char.ofNat (BitVec.ofNat 8 char.toNat).toNat

section Delivered

variable {s : TaskState} {task : TaskId}

/-- The entries that the system call delivers are linked. -/
theorem clientEntry_links (linked : SiblingsLinked s) : EntryLinks s.children (clientEntry s) where
  firstChild := by
    intro node first rest isFirst
    simp only [clientEntry, firstChildPid, isFirst]
  nextSibling := by
    intro node
    have chain : ∀ before rest, s.children node = before ++ rest →
        rest.IsChain fun one next =>
          (clientEntry s one).nextSiblingPid = (clientEntry s next).pid := by
      intro before rest place
      induction rest generalizing before with
      | nil => exact .nil
      | cons one others inductionHypothesis =>
          cases others with
          | nil => exact .singleton _
          | cons next others =>
              apply List.IsChain.cons_cons
              · simp only [clientEntry, nextSiblingPid_at linked place, List.head?_cons,
                  Option.map_some, Option.getD_some]
              · apply inductionHypothesis (before ++ [one])
                rw [place, List.append_assoc]
                rfl
    exact chain [] _ rfl

theorem loadPrinfo_congr {first second : Nat → Byte} {addr : Nat}
    (same : ∀ k < PRINFO_SIZE, first (addr + k) = second (addr + k)) :
    loadPrinfo first addr = loadPrinfo second addr := by
  have word : ∀ offset, offset + 4 ≤ PRINFO_SIZE →
      loadWord first (addr + offset) = loadWord second (addr + offset) := by
    intro offset inside
    simp only [loadWord, Nat.add_assoc]
    rw [same (offset + 3) (by omega), same (offset + 2) (by omega), same (offset + 1) (by omega),
      same offset (by omega)]
  have text : loadComm first (addr + 24) = loadComm second (addr + 24) := by
    apply List.map_congr_left
    intro k inside
    rw [Nat.add_assoc]
    apply same
    have small := List.mem_range.mp inside
    simp only [PRINFO_SIZE]
    omega
  have parent : loadWord first addr = loadWord second addr := word 0 (by decide)
  simp only [loadPrinfo, parent, word 4 (by decide), word 8 (by decide), word 12 (by decide),
    word 16 (by decide), word 20 (by decide), text]

/-- The client reads the entry of each task. -/
theorem loadPrinfo_filled {visited : List TaskId} {i : Nat} (listed : visited[i]? = some task)
    (contents : Nat → Byte) :
    loadPrinfo (filled s visited contents) (PRINFO_SIZE * i) = clientEntry s task := by
  let word (offset : Nat) := loadWord (filled s visited contents) (PRINFO_SIZE * i + offset)
  have parent : word 0 = BitVec.ofInt 32 (convert s task).parentPid :=
    @loadWord_filled s visited i task listed contents 0 [] _ _ rfl (Prinfo.bytes_pid _)
  have pid : word 4 = BitVec.ofInt 32 (s.pid task) :=
    loadWord_filled listed contents rfl (Prinfo.bytes_pid _)
  have firstChild : word 8 = BitVec.ofInt 32 (firstChildPid s task) :=
    loadWord_filled listed contents rfl (Prinfo.bytes_firstChildPid _)
  have nextSibling : word 12 = BitVec.ofInt 32 (nextSiblingPid s task) :=
    loadWord_filled listed contents rfl (Prinfo.bytes_nextSiblingPid _)
  have state : word 16 = BitVec.ofInt 32 (s.attributes task).state :=
    loadWord_filled listed contents rfl (Prinfo.bytes_state _)
  have uid : word 20 = BitVec.ofInt 32 (s.attributes task).uid :=
    loadWord_filled listed contents rfl (Prinfo.bytes_uid _)
  have comm := loadComm_filled (s := s) listed contents
  simp only [word, Nat.add_zero] at parent pid firstChild nextSibling state uid
  simp only [loadPrinfo, clientEntry, asInt, parent, pid, firstChild, nextSibling, state, uid, comm,
    List.map_map]
  rfl

/-- After a successful call the buffer of the client holds the entries. -/
theorem clientBuf_holds {visited : List TaskId} (fits : visited.length ≤ MAXBUFFERSIZE)
    {accepts : Nat} (whole : PRINFO_SIZE * MAXBUFFERSIZE ≤ accepts) (contents : Nat → Byte) :
    Holds (clientBuf (copyToUser accepts (PRINFO_SIZE * MAXBUFFERSIZE) (filled s visited contents)))
      (clientEntry s) 0 visited := by
  intro i task listed
  have inside : i < visited.length := (List.getElem?_eq_some_iff.mp listed).1
  rw [Nat.zero_add, clientBuf, ← loadPrinfo_filled listed contents]
  apply loadPrinfo_congr
  intro k inEntry
  have inBuffer : PRINFO_SIZE * i + k < min accepts (PRINFO_SIZE * MAXBUFFERSIZE) := by
    simp only [PRINFO_SIZE] at whole inEntry ⊢
    omega
  rw [userMemory, copyToUser, List.getElem?_map, List.getElem?_range inBuffer, Option.map_some,
    Option.getD_some]

/-- The client reads the number of tasks. -/
theorem clientNr_eq {count : Nat} (small : count ≤ MAXBUFFERSIZE) :
    clientNr (wordBytes count) = count := by
  have isWord : loadWord (userMemory (wordBytes count)) 0 = BitVec.ofInt 32 count := append_bytes _
  rw [clientNr, isWord, BitVec.ofInt_natCast, BitVec.toNat_ofNat]
  simp only [MAXBUFFERSIZE] at small
  omega

/-- What a successful call delivers for a tree that fits. -/
theorem delivered {visited : List TaskId} (tree : Visits s.children [initTask] visited)
    (fits : visited.length ≤ MAXBUFFERSIZE) {services : PtreeServices} {written : List Nat}
    {copied nrCopied : List Byte}
    (returned : Returns s services (.returned 0 written copied nrCopied)) :
    clientNr nrCopied = visited.length ∧ Holds (clientBuf copied) (clientEntry s) 0 visited := by
  have isEnd := (returns_iff tree services _).mp returned
  have memory : services.kmalloc = true := by
    by_contra noMemory
    rw [endOf, if_neg noMemory] at isEnd
    cases isEnd
  rcases endOf_returned s visited memory with ⟨code, stored, sameEnd, succeeded, _⟩
  rw [sameEnd, PtreeEnd.returned.injEq] at isEnd
  rcases isEnd with ⟨isCode, _, isCopied, isStored⟩
  rcases succeeded isCode.symm with ⟨whole, isNr⟩
  rw [isStored, isNr, isCopied]
  exact ⟨clientNr_eq fits, clientBuf_holds fits whole _⟩

end Delivered

/-- For every finite process tree whose listing fits the buffer, and every call of `ptree` that
    succeeds: the client gets the number of processes, and `display` handles the listing exactly if
    there are at most `MAXPROCESSNUMBER` of them. -/
theorem listing_handled_iff {s : TaskState} {visited : List TaskId}
    (tree : Visits s.children [initTask] visited) (linked : SiblingsLinked s)
    (fits : visited.length ≤ MAXBUFFERSIZE) {services : PtreeServices} {written : List Nat}
    {copied nrCopied : List Byte}
    (returned : Returns s services (.returned 0 written copied nrCopied)) :
    clientNr nrCopied = visited.length ∧
      (StaysInBounds (clientBuf copied) (clientNr nrCopied) ↔ visited.length ≤ MAXPROCESSNUMBER) := by
  rcases delivered tree fits returned with ⟨isLength, holds⟩
  rw [isLength]
  exact ⟨rfl, staysInBounds_iff (clientEntry_links linked) tree holds⟩

/-- `init_task` with a number of children, linked on its list. -/
def broadTree (count : Nat) : TaskState :=
  { wideTree count with
    pid := fun task => task
    sibling := fun task => if task = initTask then none else some initTask }

theorem broadTree_visits (count : Nat) :
    Visits (broadTree count).children [initTask] (initTask :: List.range' 1 count) :=
  wideTree_visits count

theorem broadTree_linked (count : Nat) : SiblingsLinked (broadTree count) where
  sibling := by
    intro owner child listed
    simp only [broadTree, wideTree] at listed ⊢
    split at listed
    · rename_i isInit
      have different : child ≠ initTask := Nat.ne_of_gt (List.mem_range'_1.mp listed).1
      rw [if_neg different, isInit]
    · cases listed
  nodup := by
    intro owner
    simp only [broadTree, wideTree]
    split
    · exact List.nodup_range'
    · exact List.nodup_nil

/-- A call for such a tree succeeds, with services that refuse nothing. -/
theorem broadTree_returns (count : Nat) :
    ∃ written copied nrCopied, Returns (broadTree count) (generous fun _ => 0)
      (.returned 0 written copied nrCopied) :=
  ⟨_, _, _, (returns_iff (broadTree_visits count) _ _).mpr rfl⟩

/-- Three processes are displayed. -/
theorem listing_handled_three :
    ∃ written copied nrCopied,
      Returns (broadTree 2) (generous fun _ => 0) (.returned 0 written copied nrCopied) ∧
        clientNr nrCopied = 3 ∧ StaysInBounds (clientBuf copied) 3 := by
  rcases broadTree_returns 2 with ⟨written, copied, nrCopied, returned⟩
  rcases listing_handled_iff (broadTree_visits 2) (broadTree_linked 2) (by decide) returned with
    ⟨isNr, handled⟩
  rw [isNr] at handled
  exact ⟨written, copied, nrCopied, returned, isNr, handled.mpr (by decide)⟩

/-- The listing of 257 processes fits the buffer, and `display` leaves its arrays. -/
theorem large_listing_not_handled :
    ¬ ∀ (s : TaskState) (visited : List TaskId), Visits s.children [initTask] visited →
      SiblingsLinked s → visited.length ≤ MAXBUFFERSIZE →
      ∀ services written copied nrCopied, Returns s services (.returned 0 written copied nrCopied) →
        StaysInBounds (clientBuf copied) (clientNr nrCopied) := by
  intro handles
  have fits : (initTask :: List.range' 1 MAXPROCESSNUMBER).length ≤ MAXBUFFERSIZE := by
    rw [List.length_cons, List.length_range']
    decide
  rcases broadTree_returns MAXPROCESSNUMBER with ⟨written, copied, nrCopied, returned⟩
  have inBounds := handles _ _ (broadTree_visits _) (broadTree_linked _) fits _ _ _ _ returned
  have printed := inBounds fun _ => 0
  rw [(delivered (broadTree_visits _) fits returned).1, display_overruns] at printed
  · cases printed
  · rw [List.length_cons, List.length_range']
    exact Nat.lt_succ_self _

end KernelHacking.ProcessTree
