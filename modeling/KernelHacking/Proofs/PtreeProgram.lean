/-
Module: KernelHacking.Proofs.PtreeProgram
Layer: Proofs
Purpose: The program `ptree` from the task structures to the printed lines: the system call walks the
  children lists and copies the bytes of its entries out, the program reads them back and hands them to
  `display`. After a regular run of forks and exits the lines show the tree of all processes, each once
  and at its depth (`ptreeMain_prints_processes`).
Imports: KernelHacking.Proofs.DisplaySafety, KernelHacking.Proofs.PtreeRelations
Trusted boundary: human-reviewed model of main in ptree.c (`ptreeMain`); the rest is fully proved
Main exports: ptreeMain, PID_MAX_LIMIT, LinksApart, ShowsTasks, ptreeMain_prints_processes
Open obligations: none
-/
import KernelHacking.Proofs.DisplaySafety
import KernelHacking.Proofs.PtreeRelations

namespace KernelHacking.ProcessTree

open TaskTree TreeWalk

/-! ### The program -/

/-- `main` of the program `ptree`. The buffer and `nr` hold what the memory contained until the call
    copies something there; the code that the call returns is not looked at. -/
def ptreeMain (s : TaskState) (depth : Nat) (services : PtreeServices) (heap nrBytes : List Byte)
    (garbage : Nat → Nat) : Option (List Line) :=
  match ptree s depth services with
  | none | some .oops => none
  | some (.returned _ _ copied nrCopied) =>
      let nr := loadWord (userMemory (nrCopied ++ nrBytes.drop nrCopied.length)) 0
      display MAXBUFFERSIZE (clientBuf (copied ++ heap.drop copied.length)) nr.toInt.toNat garbage

/-! ### Pids -/

/-- `PID_MAX_LIMIT`. -/
def PID_MAX_LIMIT : Int := 0x8000

/-- Every pid is below the limit. -/
def PidsInRange (s : TaskState) : Prop := ∀ task, 0 ≤ s.pid task ∧ s.pid task < PID_MAX_LIMIT

section Pids

variable {s after : TaskState}

theorem handOver_pid (father reaper : TaskId) (ignoresSigchld : Bool) (left : List TaskId) :
    (left.foldl (reparentChild father reaper ignoresSigchld) s).pid = s.pid := by
  induction left generalizing s with
  | nil => rfl
  | cons child rest inductionHypothesis =>
      rw [List.foldl_cons, inductionHypothesis]
      exact (reparentChild_fields s father reaper child ignoresSigchld).1

/-- Only `fork` gives a pid. -/
theorem taskStep_pid {event : TaskEvent} (stepped : taskStep s event = some after) :
    after.pid = s.pid ∨ ∃ args, event = .fork args ∧ 0 < args.pid ∧
      after.pid = Function.update s.pid args.task args.pid := by
  rcases taskStep_eq_some.mp stepped with ⟨possible, isEffect⟩
  cases event with
  | fork args =>
      cases isEffect
      exact .inr ⟨args, rfl, possible.2.2.1, (copyProcess_fields s args).2.1⟩
  | forgetOriginalParent task rounds ignoresSigchld =>
      rcases Option.map_eq_some_iff.mp isEffect with ⟨reaper, _, rfl⟩
      exact .inl (handOver_pid task reaper ignoresSigchld (s.children task))
  | releaseTask task =>
      cases isEffect
      left
      rw [releaseTask]
      split
      · split <;> rfl
      · rfl
  | _ =>
      cases isEffect
      exact .inl rfl

theorem PidsInRange.step {event : TaskEvent} (inRange : PidsInRange s)
    (bounded : ∀ args, event = .fork args → args.pid < PID_MAX_LIMIT)
    (stepped : taskStep s event = some after) : PidsInRange after := by
  intro task
  rcases taskStep_pid stepped with same | ⟨args, isFork, positive, updated⟩
  · rw [same]
    exact inRange task
  · rw [updated]
    by_cases isNew : task = args.task
    · subst isNew
      rw [Function.update_self]
      exact ⟨Int.le_of_lt positive, bounded args isFork⟩
    · rw [Function.update_of_ne isNew]
      exact inRange task

theorem PidsInRange.run {events : List TaskEvent} (inRange : PidsInRange s)
    (bounded : ∀ args, .fork args ∈ events → args.pid < PID_MAX_LIMIT)
    (ran : runTasks s events = some after) : PidsInRange after := by
  induction events generalizing s with
  | nil =>
      cases ran
      exact inRange
  | cons event rest inductionHypothesis =>
      rcases Option.bind_eq_some_iff.mp ran with ⟨middle, stepped, ranRest⟩
      refine inductionHypothesis (inRange.step ?_ stepped) ?_ ranRest
      · rintro args rfl
        exact bounded args List.mem_cons_self
      · exact fun args listed => bounded args (List.mem_cons_of_mem event listed)

/-- A pid is read back as it was written. -/
theorem asInt_pid (inRange : PidsInRange s) (task : TaskId) : asInt (s.pid task) = s.pid task := by
  rcases inRange task with ⟨least, most⟩
  rw [PID_MAX_LIMIT] at most
  rw [asInt, BitVec.toInt_ofInt]
  exact Int.bmod_eq_of_le (by omega) (by omega)

end Pids

/-! ### The listing of a tree of tasks -/

/-- What `convert` takes for the pid behind the last child of a task, the word of bit-fields of the task, is
    not the pid of a task listed behind this child. -/
def LinksApart (s : TaskState) (visited : List TaskId) : Prop :=
  ∀ owner last before after, (s.children owner).getLast? = some last → visited = before ++ last :: after →
    ∀ task ∈ after, s.pid task ≠ (s.attributes owner).bits.word

section Listing

variable {s : TaskState} {visited : List TaskId} {buf : Nat → Prinfo}

theorem word_bounds (bits : TaskBits) : 0 ≤ bits.word ∧ bits.word < 64 := by
  rcases bits with ⟨one, two, three, four, five, six⟩
  cases one <;> cases two <;> cases three <;> cases four <;> cases five <;> cases six <;> decide

/-- The link behind a last child is read back as the word of bit-fields. -/
theorem asInt_word (bits : TaskBits) : asInt bits.word = bits.word := by
  rcases word_bounds bits with ⟨least, most⟩
  rw [asInt, BitVec.toInt_ofInt]
  exact Int.bmod_eq_of_le (by omega) (by omega)

/-- The pids of the entries are those of the tasks. -/
theorem Holds.pid (holds : Holds buf (clientEntry s) 0 visited) (inRange : PidsInRange s) {k : Nat}
    (listed : k < visited.length) : (buf k).pid = s.pid visited[k] := by
  have held := holds k visited[k] (List.getElem?_eq_getElem listed)
  rw [Nat.zero_add] at held
  rw [held]
  exact asInt_pid inRange _

/-- The entries of the buffer are those of the tasks. -/
theorem Holds.map_range {β : Type} {entry : TaskId → Prinfo} (holds : Holds buf entry 0 visited)
    (field : Prinfo → β) :
    (List.range visited.length).map (fun k => field (buf k)) =
      visited.map fun task => field (entry task) := by
  apply List.ext_getElem
  · simp
  · intro k listed _
    have inside : k < visited.length := by simpa using listed
    have held := holds k visited[k] (List.getElem?_eq_getElem inside)
    rw [Nat.zero_add] at held
    simp [held]

/-- The entry of a task names the first root below it. -/
theorem clientEntry_firstChild (inRange : PidsInRange s) {task : TaskId} {children : Forest TaskId}
    (isChildren : s.children task = children.roots) :
    (clientEntry s task).firstChildPid = (children.map s.pid).head.getD 0 := by
  show asInt (firstChildPid s task) = _
  rw [Forest.head_map, Forest.head_eq_roots_head?, ← isChildren, firstChildPid]
  cases s.children task with
  | nil => rfl
  | cons child _ => exact asInt_pid inRange child

/-- The buffer of the program lists a forest of tasks whose roots are the end of a children list. -/
theorem lists_of_holds (linked : SiblingsLinked s) (inRange : PidsInRange s)
    (apart : LinksApart s visited) (holds : Holds buf (clientEntry s) 0 visited)
    (forest : Forest TaskId) (isLinked : forest.Linked s.children) {owner : TaskId}
    {first rest : List TaskId} (place : s.children owner = first ++ forest.roots) {i : Nat}
    (part : visited.drop i = forest.labels ++ rest) :
    Lists visited.length buf i (forest.map s.pid) := by
  induction forest generalizing owner first rest i with
  | nil => trivial
  | node task children siblings ofChildren ofSiblings =>
      rcases isLinked with ⟨isChildren, linkedChildren, linkedSiblings⟩
      rw [Forest.labels, List.cons_append, List.append_assoc] at part
      have here : visited[i]? = some task := by
        have head := congrArg List.head? part
        rwa [List.head?_drop] at head
      have entry : buf i = clientEntry s task := by
        have held := holds i task here
        rwa [Nat.zero_add] at held
      have behind : visited.drop (i + 1) = children.labels ++ (siblings.labels ++ rest) := by
        rw [← List.drop_drop, part]
        rfl
      have link := nextSiblingPid_at linked place
      refine ⟨?_, ?_, ?_, ofChildren linkedChildren (isChildren.trans (List.nil_append _).symm)
        behind, ?_⟩
      · rw [entry]
        exact asInt_pid inRange task
      · rw [entry]
        exact clientEntry_firstChild inRange isChildren
      · cases siblings with
        | nil =>
            -- the last child: whatever stands behind it is not the pid of a task to come
            intro k listed later
            have whole : visited = visited.take i ++ task :: visited.drop (i + 1) := by
              rw [behind, ← part, List.take_append_drop]
            have last : (s.children owner).getLast? = some task := by
              rw [place, Forest.roots, Forest.roots, List.getLast?_concat]
            have inside : visited[k] ∈ visited.drop (i + 1) := by
              rw [List.mem_drop_iff_getElem]
              exact ⟨k - (i + 1), by omega, by congr 1; omega⟩
            rw [entry, holds.pid inRange listed]
            show asInt (nextSiblingPid s task) ≠ _
            rw [link]
            show asInt (s.attributes owner).bits.word ≠ _
            rw [asInt_word]
            exact (apart owner task _ _ last whole _ inside).symm
        | node next _ _ =>
            show (buf i).nextSiblingPid = s.pid next
            rw [entry]
            show asInt (nextSiblingPid s task) = s.pid next
            rw [link]
            exact asInt_pid inRange next
      · have place : s.children owner = (first ++ [task]) ++ siblings.roots := by
          rw [place, List.append_assoc]
          rfl
        have outer : visited.drop (i + 1 + children.size) = siblings.labels ++ rest := by
          rw [← List.drop_drop, behind, ← Forest.length_labels, List.drop_left]
        rw [Forest.size_map]
        exact ofSiblings linkedSiblings place outer

/-- The tasks that the walk comes to have pids of their own. -/
theorem nodup_pids (reachable : Reachable s) (tree : Visits s.children [initTask] visited) :
    (visited.map s.pid).Nodup := by
  rcases reachable.links with ⟨rank, inv⟩
  have isTask : ∀ task ∈ visited, s.Exists task := by
    intro task listed
    rcases (inv.ofDescends ((mem_visited_iff tree).mp listed)).2 with rfl | inTasks
    · exact inv.groups.exists_init
    · exact (inv.lists.mem_tasks.mp inTasks).1
  exact (inv.nodup_visited tree).map_on fun first isFirst second isSecond same =>
    reachable.tracing.pids (isTask first isFirst) (isTask second isSecond) same

/-- Behind `init_task` there is no pid 0. -/
theorem pid_ne_zero (root : s.pid initTask = 0) (distinct : (visited.map s.pid).Nodup)
    (first : visited.head? = some initTask) {k : Nat} (later : 0 < k) (listed : k < visited.length) :
    s.pid visited[k] ≠ 0 := by
  rcases List.head?_eq_some_iff.mp first with ⟨rest, rfl⟩
  obtain ⟨before, rfl⟩ : ∃ before, k = before + 1 := ⟨k - 1, by omega⟩
  rw [List.map_cons, List.nodup_cons, root] at distinct
  intro isZero
  apply distinct.1
  rw [← isZero]
  exact List.mem_map_of_mem (List.getElem_mem _)

/-- The buffer of the program lists the tree below `init_task`. -/
theorem lists_tasks (linked : SiblingsLinked s) (inRange : PidsInRange s) (apart : LinksApart s visited)
    (root : s.pid initTask = 0 ∧ s.sibling initTask = none) (distinct : (visited.map s.pid).Nodup)
    (holds : Holds buf (clientEntry s) 0 visited) {children : Forest TaskId}
    (isChildren : s.children initTask = children.roots) (linkedChildren : children.Linked s.children)
    (labels : visited = initTask :: children.labels) :
    Lists visited.length buf 0 ((Forest.node initTask children .nil).map s.pid) := by
  have entry : buf 0 = clientEntry s initTask := by
    have held := holds 0 initTask (by rw [labels]; rfl)
    rwa [Nat.zero_add] at held
  refine ⟨?_, ?_, ?_, lists_of_holds linked inRange apart holds children linkedChildren
    (isChildren.trans (List.nil_append _).symm) (?_ : _ = children.labels ++ []), trivial⟩
  · rw [entry]
    exact asInt_pid inRange initTask
  · rw [entry]
    exact clientEntry_firstChild inRange isChildren
  · intro k listed later
    rw [entry, holds.pid inRange listed]
    show asInt (nextSiblingPid s initTask) ≠ _
    rw [nextSiblingPid, root.2]
    show (0 : Int) ≠ _
    exact (pid_ne_zero root.1 distinct (by rw [labels]; rfl) later listed).symm
  · rw [labels, List.append_nil]
    rfl

end Listing

/-! ### What the program gets -/

/-- The call is refused nothing. -/
structure PtreeServices.Serve (services : PtreeServices) : Prop where
  memory : services.kmalloc = true
  buf : PRINFO_SIZE * MAXBUFFERSIZE ≤ services.bufAccepts
  nr : 4 ≤ services.nrAccepts

section Program

variable {s : TaskState} {visited : List TaskId} {services : PtreeServices}

/-- The program hands the entries of the visited tasks to `display`. -/
theorem ptreeMain_eq (tree : Visits s.children [initTask] visited)
    (fits : visited.length ≤ MAXBUFFERSIZE) (serve : services.Serve) (heap nrBytes : List Byte) :
    ∃ depth buf, Holds buf (clientEntry s) 0 visited ∧
      ∀ garbage, ptreeMain s depth services heap nrBytes garbage =
        display MAXBUFFERSIZE buf visited.length garbage := by
  let size := PRINFO_SIZE * MAXBUFFERSIZE
  let copied := copyToUser services.bufAccepts size (filled s visited services.contents)
  have ends : endOf s visited services =
      .returned 0 (List.range visited.length) copied (wordBytes visited.length) := by
    have short : ¬services.nrAccepts < (wordBytes (visited.length : Int)).length :=
      Nat.not_lt.mpr serve.nr
    simp only [endOf, serve.memory, if_true, if_neg (Nat.not_lt.mpr serve.buf), if_neg short]
    rfl
  rcases (returns_iff tree services _).mpr ends.symm with ⟨depth, returned⟩
  have whole : copied.length = size := by
    rw [length_copyToUser]
    exact Nat.min_eq_right serve.buf
  refine ⟨depth, clientBuf (copied ++ heap.drop copied.length), ?_, fun garbage => ?_⟩
  · intro i task listed
    rw [← clientBuf_holds fits serve.buf services.contents i task listed]
    apply loadPrinfo_congr
    intro k inEntry
    have inside : i < visited.length := (List.getElem?_eq_some_iff.mp listed).1
    have inCopied : PRINFO_SIZE * (0 + i) + k < copied.length := by
      rw [whole]
      simp only [size, PRINFO_SIZE] at inEntry ⊢
      omega
    rw [userMemory, userMemory, List.getElem?_append_left inCopied]
  · have count : loadWord (userMemory (wordBytes visited.length ++
        nrBytes.drop (wordBytes visited.length).length)) 0 = BitVec.ofInt 32 visited.length :=
      append_bytes _
    have small : (BitVec.ofInt 32 (visited.length : Int)).toInt.toNat = visited.length := by
      rw [BitVec.toInt_ofInt, Int.bmod_eq_of_le (by omega) (by simp only [MAXBUFFERSIZE] at fits; omega)]
      exact Int.toNat_natCast _
    rw [ptreeMain, returned]
    simp only
    rw [count, small]

/-- The lines show the tree of tasks: a line for each task, indented by its depth, with the fields of its
    entry. Only the links to next siblings are left open. -/
structure ShowsTasks (s : TaskState) (forest : Forest TaskId) (lines : List Line) : Prop where
  tabs : lines.map (fun line => line.tabs) = forest.depths 0
  pids : lines.map (fun line => line.entry.pid) = forest.labels.map s.pid
  entries : lines.map (fun line => { line.entry with nextSiblingPid := 0 }) =
    forest.labels.map fun task => { clientEntry s task with nextSiblingPid := 0 }

/-- After any regular run from boot in which pids stay below the limit: if there are at most as many
    processes as `display` has room for, and no word of bit-fields is the pid of a process listed later, the
    program prints the tree of all processes, each once and at its depth. -/
theorem ptreeMain_prints_processes {attributes : Attributes} {events : List TaskEvent}
    (ran : runTasks (bootTasks attributes) events = some s)
    (regular : RegularRun (bootTasks attributes) events)
    (bounded : ∀ args, .fork args ∈ events → args.pid < PID_MAX_LIMIT)
    (few : s.tasks.length + 1 ≤ MAXPROCESSNUMBER)
    (apart : ∀ visited, Visits s.children [initTask] visited → LinksApart s visited)
    (serve : services.Serve) (heap nrBytes : List Byte) (garbage : Nat → Nat) :
    ∃ depth forest lines, ptreeMain s depth services heap nrBytes garbage = some lines ∧
      forest.Linked s.children ∧ forest.roots = [initTask] ∧
      forest.labels.Perm (initTask :: s.tasks) ∧ ShowsTasks s forest lines := by
  have reachable : Reachable s := ⟨attributes, events, ran⟩
  rcases reachable.links with ⟨rank, inv⟩
  have tracing := reachable.tracing
  have bootPid : (0 : Int) ≤ 0 ∧ (0 : Int) < PID_MAX_LIMIT := by decide
  have inRange : PidsInRange s := PidsInRange.run (fun _ => bootPid) bounded ran
  have orderly := (Orderly.boot attributes).run (LinksInv.boot attributes) regular ran
  rcases inv.exists_visits with ⟨visited, tree⟩
  have once := inv.nodup_visited tree
  have all : visited.Perm (initTask :: s.tasks) := by
    refine (List.perm_ext_iff_of_nodup once ?_).mpr fun task => ?_
    · refine List.nodup_cons.mpr ⟨fun listed => (inv.lists.mem_tasks.mp listed).2.2 rfl,
        inv.lists.nodup_tasks⟩
    · rw [mem_visited_iff tree, List.mem_cons]
      refine ⟨fun descends => (inv.ofDescends descends).2, ?_⟩
      rintro (rfl | listed)
      · exact .refl
      · exact orderly.toConnected.descends inv listed
  have distinct := nodup_pids reachable tree
  have small : visited.length ≤ MAXPROCESSNUMBER := Nat.le_trans (inv.length_visited tree) few
  have room : visited.length ≤ MAXBUFFERSIZE := Nat.le_trans small (by decide)
  rcases ptreeMain_eq tree room serve heap nrBytes with ⟨depth, buf, holds, prints⟩
  rcases tree.exists_forest with ⟨forest, isLinked, isRoots, labels⟩
  -- the forest has one root
  obtain ⟨children, rfl⟩ : ∃ children, forest = .node initTask children .nil := by
    cases forest with
    | nil => cases isRoots
    | node label children siblings =>
        rw [Forest.roots, List.cons.injEq] at isRoots
        rcases isRoots with ⟨rfl, none⟩
        cases siblings with
        | nil => exact ⟨children, rfl⟩
        | node => cases none
  have isLabels : visited = initTask :: children.labels := by
    rw [← labels, Forest.labels, Forest.labels, List.append_nil]
  have lists := lists_tasks (siblingsLinked inv) inRange (apart visited tree)
    ⟨tracing.init.1, inv.parents.init.2⟩ distinct holds isLinked.1 isLinked.2.1 isLabels
  have size : ((Forest.node initTask children .nil).map s.pid).size = visited.length := by
    rw [Forest.size_map, ← Forest.length_labels, labels]
  have nonzero : ∀ k, 0 < k → k < visited.length → (buf k).pid ≠ 0 := by
    intro k later listed
    rw [holds.pid inRange listed]
    exact pid_ne_zero tracing.init.1 distinct (by rw [isLabels]; rfl) later listed
  rcases forest_displayed small room nonzero _ lists (by rw [size, Nat.zero_add])
    (ready_initial _ buf garbage (s.pid initTask) (children.map s.pid) .nil) with
    ⟨after, done, displayed⟩
  rw [size] at done
  have fields := displayed.closed.consistent.fields
  have tabs := displayed.tabs
  rw [size, ← List.range_eq_range', Forest.depths_map] at tabs
  refine ⟨depth, _, _, (prints garbage).trans (display_of_rounds small room done), isLinked, isRoots, ?_,
    ?_, ?_, ?_⟩
  · rw [labels]
    exact all
  · rw [List.map_map]
    exact tabs
  · rw [List.map_map, labels]
    have pids : ∀ k, (after.buf k).pid = (buf k).pid := fun k => by rw [fields k]
    refine (List.map_congr_left fun k _ => pids k).trans ((holds.map_range Prinfo.pid).trans ?_)
    exact List.map_congr_left fun task _ => asInt_pid inRange task
  · rw [List.map_map, labels]
    have same : ∀ k, { after.buf k with nextSiblingPid := 0 } = { buf k with nextSiblingPid := 0 } :=
      fun k => by rw [fields k]
    exact (List.map_congr_left fun k _ => same k).trans
      (holds.map_range fun entry => { entry with nextSiblingPid := 0 })

end Program

/-- The words of bit-fields are 0 and no process behind `init_task` has this pid. -/
theorem linksApart_of_zero {s : TaskState} {visited : List TaskId}
    (words : ∀ owner, (s.attributes owner).bits.word = 0) (root : s.pid initTask = 0)
    (distinct : (visited.map s.pid).Nodup) (first : visited.head? = some initTask) :
    LinksApart s visited := by
  rintro owner last before after _ rfl task listed
  rcases List.mem_iff_getElem.mp listed with ⟨k, inside, rfl⟩
  rw [words owner]
  have behind := pid_ne_zero root distinct first (Nat.succ_pos (before.length + k))
    (by simp only [List.length_append, List.length_cons]; omega)
  simpa [List.getElem_append_right, Nat.add_sub_cancel_left, Nat.succ_eq_add_one,
    Nat.add_assoc] using behind

/-- The state that `orphanRun` leads to. -/
def orphanState : TaskState :=
  (runTasks (bootTasks plainAttributes) orphanRun).getD (bootTasks plainAttributes)

/-- Init, a process that has exited and its orphan, now below init, are printed. -/
theorem ptreeMain_prints_orphan :
    ∃ depth forest lines,
      ptreeMain orphanState depth (generous fun _ => 0) [] [] (fun _ => 0) = some lines ∧
      forest.labels.Perm [0, 1, 2, 3] ∧ ShowsTasks orphanState forest lines := by
  have ran : runTasks (bootTasks plainAttributes) orphanRun = some orphanState := rfl
  have words : ∀ owner, (orphanState.attributes owner).bits.word = 0 := by
    intro owner
    show (Function.update (Function.update (Function.update (fun _ => plainAttributes)
      1 plainAttributes) 2 plainAttributes) 3 plainAttributes owner).bits.word = 0
    simp [Function.update_apply, plainAttributes, TaskBits.word]
  rcases ptreeMain_prints_processes ran regular_orphanRun
    (by
      intro args listed
      simp only [orphanRun, forkEvent, List.mem_cons, TaskEvent.fork.injEq, reduceCtorEq,
        List.not_mem_nil,
        or_false] at listed
      rcases listed with rfl | rfl | rfl <;> decide)
    (by decide)
    (fun visited tree => linksApart_of_zero words rfl (nodup_pids ⟨_, _, ran⟩ tree) (visits_head tree))
    (⟨rfl, by decide, by decide⟩ : (generous fun _ => 0).Serve) [] [] (fun _ => 0) with
    ⟨depth, forest, lines, prints, _, _, all, shows⟩
  exact ⟨depth, forest, lines, prints, all, shows⟩

end KernelHacking.ProcessTree
