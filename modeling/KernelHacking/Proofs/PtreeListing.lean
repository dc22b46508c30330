/-
Module: KernelHacking.Proofs.PtreeListing
Layer: Proofs
Purpose: Which processes `ptree` lists. The walk of `dfs` ends in every state that is reached from boot,
  and it comes to every process once exactly if each one stands on the children list of a thread group
  leader. A process that a thread forks stands on the list of that thread, where the walk does not
  look, and so do the children that a leader hands over to a thread.
Imports: Mathlib.Data.List.Perm.Subperm, KernelHacking.Proofs.PtreeCall, KernelHacking.Proofs.TaskRuns
Trusted boundary: none (fully proved)
Main exports: LinksInv.tidy, LinksInv.exists_visits, Connected, LinksInv.visits_all_iff, Orderly,
  ListsEveryProcess, Regular, RegularRun, lists_every_process, lists_orphan, process_not_listed
Open obligations: none
-/
import Mathlib.Data.List.Perm.Subperm
import KernelHacking.Proofs.PtreeCall
import KernelHacking.Proofs.TaskRuns

namespace KernelHacking.TaskTree

open TreeWalk

/-! ### The walk from `init_task` -/

section Walk

variable {s : TaskLinks} {rank : TaskId → Nat}

/-- The children lists are tidy. -/
theorem LinksInv.tidy (inv : LinksInv s rank) : Tidy s.children rank where
  owner_unique := by
    intro first second child inFirst inSecond
    obtain ⟨_, _, one⟩ := inv.lists.mem_children.mp inFirst
    obtain ⟨_, _, two⟩ := inv.lists.mem_children.mp inSecond
    exact Option.some.inj (one.symm.trans two)
  nodup := inv.lists.nodup_children
  lt_rank := by
    intro owner child listed
    obtain ⟨isTask, _, isOwner, attached, _⟩ := inv.ofChild listed
    rw [← isOwner]
    exact inv.ranked.lt isTask attached

theorem LinksInv.mem_tasks_of_child (inv : LinksInv s rank) {owner child : TaskId}
    (listed : child ∈ s.children owner) : child ∈ s.tasks := by
  obtain ⟨isTask, isLeader, linked⟩ := inv.lists.mem_children.mp listed
  refine inv.lists.mem_tasks.mpr ⟨isTask, isLeader, ?_⟩
  rintro rfl
  rw [inv.parents.init.2] at linked
  cases linked

/-- The walk from `init_task` ends. -/
theorem LinksInv.exists_visits (inv : LinksInv s rank) :
    ∃ visited, Visits s.children [initTask] visited := by
  obtain ⟨bound, bounded⟩ := exists_bound rank s.tasks
  exact TreeWalk.exists_visits inv.tidy
    (fun listed => bounded _ (inv.mem_tasks_of_child listed)) [initTask]

/-- A task below `init_task` is a leader, and it is a process of the task list unless it is `init_task`
itself. -/
theorem LinksInv.ofDescends (inv : LinksInv s rank) {task : TaskId}
    (descends : Descends s.children initTask task) :
    s.IsLeader task ∧ (task = initTask ∨ task ∈ s.tasks) := by
  rcases descends.cases_tail with rfl | ⟨owner, _, listed⟩
  · exact ⟨inv.groups.init.2.1, Or.inl rfl⟩
  · exact ⟨(inv.ofChild listed).2.1, Or.inr (inv.mem_tasks_of_child listed)⟩

theorem mem_visited_iff {visited : List TaskId} (tree : Visits s.children [initTask] visited)
    {task : TaskId} : task ∈ visited ↔ Descends s.children initTask task := by
  rw [tree.mem_iff]
  constructor
  · rintro ⟨start, isStart, descends⟩
    rwa [List.mem_singleton.mp isStart] at descends
  · exact fun descends => ⟨initTask, List.mem_singleton_self _, descends⟩

theorem LinksInv.nodup_visited (inv : LinksInv s rank) {visited : List TaskId}
    (tree : Visits s.children [initTask] visited) : visited.Nodup := by
  refine tree.nodup inv.tidy (List.nodup_singleton _) fun first isFirst second isSecond _ => ?_
  rw [List.mem_singleton.mp isFirst, List.mem_singleton.mp isSecond]

/-- The walk comes to at most as many tasks as there are processes. -/
theorem LinksInv.length_visited (inv : LinksInv s rank) {visited : List TaskId}
    (tree : Visits s.children [initTask] visited) : visited.length ≤ s.tasks.length + 1 := by
  have within : visited ⊆ initTask :: s.tasks := by
    intro task listed
    exact List.mem_cons.mpr (inv.ofDescends ((mem_visited_iff tree).mp listed)).2
  exact ((inv.nodup_visited tree).subperm within).length_le

/-- Every process stands on the children list of a leader. -/
structure Connected (s : TaskLinks) : Prop where
  linked : ∀ task ∈ s.tasks, s.sibling task ≠ none
  leaders : ∀ task ∈ s.tasks, s.IsLeader (s.realParent task)

/-- The place of a process on its children list. -/
theorem LinksInv.mem_children_realParent (inv : LinksInv s rank) {task : TaskId}
    (listed : task ∈ s.tasks) (linked : s.sibling task ≠ none) :
    task ∈ s.children (s.realParent task) := by
  obtain ⟨isTask, isLeader, _⟩ := inv.lists.mem_tasks.mp listed
  obtain ⟨owner, isOwner⟩ := Option.ne_none_iff_exists'.mp linked
  rw [inv.parents.owner isTask isLeader isOwner]
  exact inv.lists.mem_children.mpr ⟨isTask, isLeader, isOwner⟩

/-- In a connected state every process lies below `init_task`. -/
theorem Connected.descends (connected : Connected s) (inv : LinksInv s rank) {task : TaskId}
    (listed : task ∈ s.tasks) : Descends s.children initTask task := by
  induction isRank : rank task using Nat.strongRecOn generalizing task with
  | _ _ inductionHypothesis =>
      have isChild := inv.mem_children_realParent listed (connected.linked task listed)
      have lower := inv.tidy.lt_rank isChild
      obtain ⟨_, _, _, _, parents⟩ := inv.ofChild isChild
      by_cases isInit : s.realParent task = initTask
      · rw [isInit] at isChild
        exact .single isChild
      · have parentListed := inv.lists.mem_tasks.mpr
          ⟨exists_of_parents parents, connected.leaders task listed, isInit⟩
        exact (inductionHypothesis _ (isRank ▸ lower) parentListed rfl).tail isChild

/-- The walk comes to every process exactly if the state is connected. -/
theorem LinksInv.visits_all_iff (inv : LinksInv s rank) {visited : List TaskId}
    (tree : Visits s.children [initTask] visited) :
    (∀ task ∈ s.tasks, visited.count task = 1) ↔ Connected s := by
  have once : ∀ {task}, visited.count task = 1 ↔ Descends s.children initTask task := by
    intro task
    rw [← mem_visited_iff tree]
    constructor
    · intro isOne
      exact List.count_pos_iff.mp (by omega)
    · exact List.count_eq_one_of_mem (inv.nodup_visited tree)
  constructor
  · intro all
    have place : ∀ task ∈ s.tasks, ∃ owner, Descends s.children initTask owner ∧
        task ∈ s.children owner := by
      intro task listed
      rcases (once.mp (all task listed)).cases_tail with isInit | below
      · exact absurd isInit (inv.lists.mem_tasks.mp listed).2.2
      · exact below
    refine ⟨fun task listed => ?_, fun task listed => ?_⟩
    · obtain ⟨owner, _, isChild⟩ := place task listed
      rw [(inv.lists.mem_children.mp isChild).2.2]
      exact Option.some_ne_none owner
    · obtain ⟨owner, above, isChild⟩ := place task listed
      rw [(inv.ofChild isChild).2.2.1]
      exact (inv.ofDescends above).1
  · exact fun connected task listed => once.mpr (connected.descends inv listed)

end Walk

/-! ### Orderly states -/

/-- The state is connected, and the child reaper is a leader. -/
structure Orderly (s : TaskLinks) : Prop extends Connected s where
  reaper : s.IsLeader s.childReaper

section Orderly

variable {s after : TaskLinks} {rank : TaskId → Nat} {new father reaper child : TaskId}

/-- The real parent of a process is a task. -/
theorem Connected.exists_realParent (connected : Connected s) (inv : LinksInv s rank) {task : TaskId}
    (listed : task ∈ s.tasks) : s.Exists (s.realParent task) := by
  obtain ⟨isTask, isLeader, _⟩ := inv.lists.mem_tasks.mp listed
  refine exists_of_parents (inv.parents.parents isTask ?_)
  rw [TaskLinks.Attached, isLeader]
  exact connected.linked task listed

/-- A new task keeps the state orderly if, as a process, it is linked to a leader. -/
theorem Orderly.added (orderly : Orderly s) (inv : LinksInv s rank) (added : Added new s after)
    (listed : ∀ {task}, task ∈ after.tasks → task ∈ s.tasks ∨ task = new ∧ after.sibling new ≠ none ∧
      s.Exists (after.realParent new) ∧ s.IsLeader (after.realParent new))
    (reaperLeads : after.IsLeader after.childReaper) : Orderly after := by
  have stillLeads : ∀ {task}, s.Exists task → s.IsLeader task → after.IsLeader task :=
    fun isTask isLeader => (added.isLeader_iff (ne_of_unused added.unused isTask)).mpr isLeader
  have isOld : ∀ {task}, task ∈ s.tasks → task ≠ new := fun inTasks =>
    ne_of_unused added.unused (inv.lists.mem_tasks.mp inTasks).1
  refine ⟨⟨fun task inTasks => ?_, fun task inTasks => ?_⟩, reaperLeads⟩
  · rcases listed inTasks with before | ⟨rfl, linked, _⟩
    · rw [added.sibling (isOld before)]
      exact orderly.linked task before
    · exact linked
  · rcases listed inTasks with before | ⟨rfl, _, parentExists, parentLeads⟩
    · rw [added.realParent (isOld before)]
      exact stillLeads (orderly.exists_realParent inv before) (orderly.leaders task before)
    · exact stillLeads parentExists parentLeads

/-- A child is handed over to a leader. -/
theorem Orderly.move (orderly : Orderly s) (inv : LinksInv s rank) (listed : child ∈ s.children father)
    (isLeader : s.IsLeader reaper) : Orderly (s.move father reaper child) := by
  obtain ⟨childExists, childLeads, _⟩ := inv.ofChild listed
  refine ⟨⟨fun task inTasks => ?_, fun task inTasks => ?_⟩, orderly.reaper⟩
  · by_cases isChild : task = child
    · rw [isChild, move_sibling_self]
      exact Option.some_ne_none reaper
    · rw [move_sibling_of_ne isChild]
      exact orderly.linked task inTasks
  · rw [inv.groups.move_realParent childExists childLeads (inv.lists.mem_tasks.mp inTasks).1]
    split
    · exact isLeader
    · exact orderly.leaders task inTasks

end Orderly

section Steps

variable {s : TaskState} {rank : TaskId → Nat}

/-- A process is forked by a leader, or beside the process that forks. -/
theorem Orderly.copyProcess (orderly : Orderly s.toTaskLinks) (inv : LinksInv s.toTaskLinks rank)
    {args : ForkArgs} (can : CanFork s args)
    (regular : args.cloneThread = true ∨ args.cloneParent = true ∨ s.IsLeader args.current) :
    Orderly (TaskTree.copyProcess s args).toTaskLinks := by
  obtain ⟨isRunning, unused, _, _, _, idle, _⟩ := can
  have isTask : s.Exists args.current := exists_of_stage isRunning (by decide)
  have reaperOld := ne_of_unused unused (exists_of_parents inv.parents.reaper)
  cases isThread : args.cloneThread with
  | true =>
      rw [copyProcess_thread isThread]
      have added := added_addThread unused (s.groupLeader args.current) (s.realParent args.current)
      exact orderly.added inv added Or.inl ((added.isLeader_iff reaperOld).mpr orderly.reaper)
  | false =>
      rw [copyProcess_process isThread]
      have added := added_addProcess unused (args.realParent s)
        (if args.pid = 1 then args.task else s.childReaper)
      refine orderly.added inv added ?_ ?_
      · intro task listed
        rcases List.mem_append.mp listed with before | isNew
        · exact Or.inl before
        · refine Or.inr ⟨List.mem_singleton.mp isNew, ?_, ?_⟩
          · rw [addProcess_sibling]
            exact Option.some_ne_none _
          · rw [addProcess_realParent, ForkArgs.realParent, isThread]
            by_cases isSibling : args.cloneParent = true
            · -- the real parent of a group is that of its leader, which is a process
              rw [if_pos (Or.inl isSibling), inv.parents.same isTask]
              have notInit : args.current ≠ initTask := by
                intro isInit
                rw [(idle isInit).2] at isSibling
                cases isSibling
              obtain ⟨leaderExists, isLeader⟩ := inv.groups.leader isTask
              have leaderListed := inv.lists.mem_tasks.mpr
                ⟨leaderExists, isLeader, (inv.leader_of_running isRunning notInit).1⟩
              exact ⟨orderly.exists_realParent inv leaderListed, orderly.leaders _ leaderListed⟩
            · rw [if_neg (by simp [isSibling])]
              refine ⟨isTask, ?_⟩
              rcases regular with makesThread | makesSibling | isLeader
              · rw [isThread] at makesThread
                cases makesThread
              · exact absurd makesSibling isSibling
              · exact isLeader
      · show (s.addProcess args.task _ _).IsLeader (if args.pid = 1 then args.task else s.childReaper)
        split
        · exact addProcess_groupLeader
        · exact (added.isLeader_iff reaperOld).mpr orderly.reaper

/-- The loop over the ancestors comes to leaders only. -/
theorem Orderly.findSubreaper (orderly : Orderly s.toTaskLinks) (inv : LinksInv s.toTaskLinks rank)
    {rounds : Nat} {start reaper : TaskId} (parents : (s.stage start).parents = true)
    (startLeads : s.IsLeader start) (found : TaskTree.findSubreaper s rounds start = some reaper) :
    s.IsLeader reaper := by
  induction rounds generalizing start with
  | zero => cases found
  | succ rounds inductionHypothesis =>
      rw [TaskTree.findSubreaper] at found
      split at found
      · rw [← Option.some.inj found]
        exact orderly.reaper
      · rename_i notInit
        split at found
        · rw [← Option.some.inj found]
          exact orderly.reaper
        · split at found
          · rw [← Option.some.inj found]
            exact startLeads
          · have isTask := exists_of_parents parents
            have listed := inv.lists.mem_tasks.mpr ⟨isTask, startLeads, notInit⟩
            have attached : s.Attached start := by
              rw [TaskLinks.Attached, startLeads]
              exact orderly.linked start listed
            exact inductionHypothesis (inv.parents.parents isTask attached)
              (orderly.leaders start listed) found

/-- A leader that exits as the last running thread of its group. -/
def ExitsLast (s : TaskState) (father : TaskId) : Prop :=
  ∀ thread ∈ s.threads father, s.stage thread ≠ .running

instance (s : TaskState) (father : TaskId) : Decidable (ExitsLast s father) :=
  inferInstanceAs (Decidable (∀ thread ∈ _, _))

/-- If no thread is left, the children of a leader go to a leader, and the child reaper stays. -/
theorem Orderly.findNewReaper (orderly : Orderly s.toTaskLinks) (inv : LinksInv s.toTaskLinks rank)
    {father reaper : TaskId} {rounds : Nat} (exiting : s.stage father = .untraced)
    (isLeader : s.IsLeader father) (last : ExitsLast s father)
    (found : TaskTree.findNewReaper s rounds father = some reaper) :
    s.IsLeader reaper ∧ s.childReaper ≠ father := by
  have isTask : s.Exists father := exists_of_stage exiting (by decide)
  have noThread : TaskTree.liveThread s father = none := by
    refine Option.eq_none_iff_forall_ne_some.mpr fun thread live => ?_
    obtain ⟨isRunning, different, group⟩ := inv.liveThread isTask (exiting.trans_ne (by decide)) live
    have threadExists : s.Exists thread := exists_of_stage isRunning (by decide)
    have isMember : s.groupLeader thread = father := group.trans isLeader
    exact last thread ((inv.groups.mem_threads isTask isLeader).mpr ⟨threadExists, isMember, different⟩)
      isRunning
  have notInit : father ≠ initTask := inv.groups.ne_init exiting (by decide)
  have listed := inv.lists.mem_tasks.mpr ⟨isTask, isLeader, notInit⟩
  rw [TaskTree.findNewReaper, noThread] at found
  dsimp only at found
  split at found
  · cases found
  · rename_i notReaper
    refine ⟨?_, notReaper⟩
    split at found
    · refine orderly.findSubreaper inv (inv.parents.parents isTask ?_)
        (orderly.leaders father listed) found
      rw [TaskLinks.Attached, isLeader]
      exact orderly.linked father listed
    · rw [← Option.some.inj found]
      exact orderly.reaper

/-- No child would go to the list of the dead. -/
def KeepsChildren (s : TaskState) (ignoresSigchld : Bool) (left : List TaskId) : Prop :=
  ignoresSigchld = true →
    ∀ child ∈ left, ¬(s.stage child = .zombie ∧ s.ptrace child = false ∧ s.threads child = [])

instance (s : TaskState) (ignoresSigchld : Bool) (left : List TaskId) :
    Decidable (KeepsChildren s ignoresSigchld left) :=
  inferInstanceAs (Decidable (_ → ∀ child ∈ _, _))

/-- The loop of `forget_original_parent` hands over children to a leader. -/
theorem Orderly.handOver {father reaper : TaskId} {left : List TaskId} {ignoresSigchld : Bool}
    (orderly : Orderly s.toTaskLinks) (handing : Handing s rank father reaper left)
    (isLeader : s.IsLeader reaper) (keeps : KeepsChildren s ignoresSigchld left) :
    Orderly (left.foldl (reparentChild father reaper ignoresSigchld) s).toTaskLinks := by
  induction left generalizing s with
  | nil => exact orderly
  | cons child rest inductionHypothesis =>
      have listed : child ∈ s.children father := by
        rw [handing.children]
        exact List.mem_cons_self
      have stays : ¬GoesToDead s father reaper ignoresSigchld child := by
        rintro ⟨isZombie, _, untraced, alone, ignores⟩
        exact keeps ignores child List.mem_cons_self ⟨isZombie, untraced, alone⟩
      have links := reparentChild_moved stays
      have moved := handing.step ignoresSigchld
      have traces : (reparentChild father reaper ignoresSigchld s child).ptrace = s.ptrace := by
        rw [reparentChild, if_neg stays]
        rfl
      rw [List.foldl_cons]
      refine inductionHypothesis ?_ moved ?_ ?_
      · rw [links]
        exact orderly.move handing.inv listed isLeader
      · rw [links]
        exact isLeader
      · intro ignores other inRest
        rw [traces, links]
        exact keeps ignores other (List.mem_cons_of_mem _ inRest)

theorem Orderly.forgetOriginalParent (orderly : Orderly s.toTaskLinks)
    (inv : LinksInv s.toTaskLinks rank) {after : TaskState} {father : TaskId} {rounds : Nat}
    {ignoresSigchld : Bool} (exiting : s.stage father = .untraced)
    (last : s.IsLeader father → ExitsLast s father)
    (keeps : KeepsChildren s ignoresSigchld (s.children father))
    (forgotten : TaskTree.forgetOriginalParent s father rounds ignoresSigchld = some after) :
    Orderly after.toTaskLinks := by
  obtain ⟨reaper, found, rfl⟩ := forgetOriginalParent_eq forgotten
  have handing := inv.handing exiting found
  suffices handed : Orderly ((s.children father).foldl (reparentChild father reaper ignoresSigchld)
      (chooseReaper s father)).toTaskLinks from ⟨⟨handed.linked, handed.leaders⟩, handed.reaper⟩
  by_cases isLeader : s.IsLeader father
  · obtain ⟨reaperLeads, notReaper⟩ := orderly.findNewReaper inv exiting isLeader (last isLeader) found
    have chosen : chooseReaper s father = s := by
      rw [chooseReaper, if_neg notReaper]
    rw [chosen] at handing ⊢
    exact orderly.handOver handing reaperLeads keeps
  · -- a thread is nobody's real parent, and it is not the child reaper
    have childless : s.children father = [] := by
      refine List.eq_nil_iff_forall_not_mem.mpr fun child listed => isLeader ?_
      rw [← (inv.ofChild listed).2.2.1]
      exact orderly.leaders child (inv.mem_tasks_of_child listed)
    have notReaper : s.childReaper ≠ father := by
      rintro rfl
      exact isLeader orderly.reaper
    rw [childless, chooseReaper, if_neg notReaper]
    exact orderly

theorem Orderly.releaseTask (orderly : Orderly s.toTaskLinks) (inv : LinksInv s.toTaskLinks rank)
    (task : TaskId) : Orderly (TaskTree.releaseTask s task).toTaskLinks := by
  have still : ∀ {other}, other ∈ s.tasks.erase task → other ≠ task ∧ other ∈ s.tasks := fun listed =>
    inv.lists.nodup_tasks.mem_erase_iff.mp listed
  by_cases isLeader : s.groupLeader task = task
  · rw [TaskTree.releaseTask, if_pos isLeader]
    cases s.sibling task with
    | none => exact ⟨⟨fun other listed => orderly.linked other (still listed).2, fun other listed =>
        orderly.leaders other (still listed).2⟩, orderly.reaper⟩
    | some owner =>
        refine ⟨⟨fun other listed => ?_, fun other listed => orderly.leaders other (still listed).2⟩,
          orderly.reaper⟩
        obtain ⟨different, before⟩ := still listed
        show Function.update s.sibling task none other ≠ none
        rw [Function.update_of_ne different]
        exact orderly.linked other before
  · rw [TaskTree.releaseTask, if_neg isLeader]
    exact ⟨⟨orderly.linked, orderly.leaders⟩, orderly.reaper⟩

/-- Steps that keep every process below `init_task`: processes are forked by leaders or beside the
process that forks; a leader hands over its children only as the last running thread; and none of them
is a zombie that nobody waits for. -/
def Regular (s : TaskState) : TaskEvent → Prop
  | .fork args =>
      args.cloneThread = true ∨ args.cloneParent = true ∨ s.groupLeader args.current = args.current
  | .forgetOriginalParent father _ ignoresSigchld =>
      (s.groupLeader father = father → ExitsLast s father) ∧
        KeepsChildren s ignoresSigchld (s.children father)
  | _ => True

instance (s : TaskState) : (event : TaskEvent) → Decidable (Regular s event)
  | .fork _ => inferInstanceAs (Decidable (_ ∨ _ ∨ _))
  | .forgetOriginalParent _ _ _ => inferInstanceAs (Decidable ((_ → _) ∧ _))
  | .exitSignals _ | .exitPtrace _ | .exitNotify _ _ | .reap _ | .releaseTask _ | .ptraceAttach _ _
  | .ptraceTraceme _ | .ptraceDetach _ | .setChildSubreaper _ _ | .setAttributes _ _ =>
      inferInstanceAs (Decidable True)

theorem Orderly.step {after : TaskState} {event : TaskEvent} (orderly : Orderly s.toTaskLinks)
    (inv : LinksInv s.toTaskLinks rank) (regular : Regular s event)
    (stepped : taskStep s event = some after) : Orderly after.toTaskLinks := by
  obtain ⟨possible, isEffect⟩ := taskStep_eq_some.mp stepped
  cases event with
  | fork args =>
      cases isEffect
      exact orderly.copyProcess inv possible regular
  | forgetOriginalParent father rounds ignoresSigchld =>
      exact orderly.forgetOriginalParent inv possible regular.1 regular.2 isEffect
  | releaseTask task =>
      cases isEffect
      exact orderly.releaseTask inv task
  | exitSignals task | exitPtrace task | exitNotify task autoreap | reap task | ptraceAttach tracer task
  | ptraceTraceme task | ptraceDetach task | setChildSubreaper task value
  | setAttributes task attributes =>
      cases isEffect
      exact ⟨⟨orderly.linked, orderly.leaders⟩, orderly.reaper⟩

/-- All steps of a run are regular. -/
def RegularRun (s : TaskState) : List TaskEvent → Prop
  | [] => True
  | event :: rest => Regular s event ∧
      match taskStep s event with
      | none => True
      | some after => RegularRun after rest

theorem Orderly.boot (attributes : Attributes) : Orderly (bootTasks attributes).toTaskLinks where
  linked := fun _ listed => absurd listed List.not_mem_nil
  leaders := fun _ listed => absurd listed List.not_mem_nil
  reaper := rfl

theorem Orderly.run {after : TaskState} {events : List TaskEvent} (orderly : Orderly s.toTaskLinks)
    (inv : LinksInv s.toTaskLinks rank) (regular : RegularRun s events)
    (ran : runTasks s events = some after) : Orderly after.toTaskLinks := by
  induction events generalizing s rank with
  | nil =>
      cases ran
      exact orderly
  | cons event rest inductionHypothesis =>
      obtain ⟨middle, stepped, ranRest⟩ := Option.bind_eq_some_iff.mp ran
      obtain ⟨_, invMiddle⟩ := inv.step stepped
      obtain ⟨regularStep, regularRest⟩ := regular
      rw [stepped] at regularRest
      exact inductionHypothesis (orderly.step inv regularStep stepped) invMiddle regularRest ranRest

end Steps

end KernelHacking.TaskTree

namespace KernelHacking.ProcessTree

open TaskTree TreeWalk

/-! ### What `ptree` lists -/

/-- If the processes fit into the buffer, `dfs` fills it with the entries of the tasks it visits, and every
process of the task list is visited once. -/
def ListsEveryProcess (s : TaskState) : Prop :=
  s.tasks.length + 1 ≤ MAXBUFFERSIZE →
    ∃ visited, Visits s.children [initTask] visited ∧ visited.length ≤ MAXBUFFERSIZE ∧
      (∀ contents, ∃ depth, dfs s depth ⟨contents, 0, []⟩ initTask =
        some ⟨filled s visited contents, visited.length, List.range visited.length⟩) ∧
      ∀ task ∈ s.tasks, visited.count task = 1

/-- In a state that is reached from boot, this means that the state is connected. -/
theorem listsEveryProcess_iff {s : TaskState} (reachable : Reachable s)
    (few : s.tasks.length + 1 ≤ MAXBUFFERSIZE) : ListsEveryProcess s ↔ Connected s.toTaskLinks := by
  obtain ⟨rank, inv⟩ := reachable.links
  constructor
  · intro lists
    obtain ⟨visited, tree, _, _, once⟩ := lists few
    exact (inv.visits_all_iff tree).mp once
  · intro connected _
    obtain ⟨visited, tree⟩ := inv.exists_visits
    refine ⟨visited, tree, Nat.le_trans (inv.length_visited tree) few, exists_dfs tree, ?_⟩
    exact (inv.visits_all_iff tree).mpr connected

/-- After every run of regular steps, `ptree` lists every process. -/
theorem lists_every_process {attributes : Attributes} {events : List TaskEvent} {s : TaskState}
    (ran : runTasks (bootTasks attributes) events = some s)
    (regular : RegularRun (bootTasks attributes) events) : ListsEveryProcess s := by
  intro few
  have orderly := (Orderly.boot attributes).run (LinksInv.boot attributes) regular ran
  exact (listsEveryProcess_iff ⟨attributes, events, ran⟩ few).mpr orderly.toConnected few

/-- A task with no flags, no state and no name. -/
def plainAttributes : Attributes := ⟨⟨false, false, false, false, false, false⟩, 0, 0, []⟩

/-- A fork of a task that gets its address as its pid. -/
def forkEvent (current task : TaskId) (cloneThread : Bool) : TaskEvent :=
  .fork ⟨current, task, task, cloneThread, false, false, plainAttributes⟩

/-- Init forks a process, which forks another one and exits. -/
def orphanRun : List TaskEvent :=
  [forkEvent 0 1 false, forkEvent 1 2 false, forkEvent 2 3 false, .exitSignals 2, .exitPtrace 2,
    .forgetOriginalParent 2 1 false]

theorem regular_orphanRun : RegularRun (bootTasks plainAttributes) orphanRun := by
  refine ⟨Or.inr (Or.inr rfl), Or.inr (Or.inr rfl), Or.inr (Or.inr rfl), trivial, trivial, ?_, trivial⟩
  constructor
  · intro _ thread listed
    cases listed
  · rintro ⟨⟩

/-- The orphan is listed below init. -/
theorem lists_orphan : ∃ s, runTasks (bootTasks plainAttributes) orphanRun = some s ∧
    RegularRun (bootTasks plainAttributes) orphanRun ∧ ListsEveryProcess s :=
  ⟨_, rfl, regular_orphanRun, lists_every_process rfl regular_orphanRun⟩

/-- Init makes a thread, and the thread forks a process. -/
def threadRun : List TaskEvent := [forkEvent 0 1 false, forkEvent 1 2 true, forkEvent 2 3 false]

/-- The process that a thread has forked is not listed. -/
theorem process_not_listed : ∃ s, runTasks (bootTasks plainAttributes) threadRun = some s ∧
    ¬ListsEveryProcess s := by
  refine ⟨_, rfl, fun lists => ?_⟩
  have connected := (listsEveryProcess_iff ⟨plainAttributes, threadRun, rfl⟩ (by decide)).mp lists
  have parentLeads := connected.leaders 3 (by decide)
  exact absurd parentLeads (by unfold TaskLinks.IsLeader; decide)

end KernelHacking.ProcessTree
