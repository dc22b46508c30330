/-
Module: KernelHacking.Proofs.TaskRuns
Layer: Proofs
Purpose: The invariant of the links in every state that is reached from boot. `find_new_reaper` returns a
  task that may have children and whose rank is below that of the children of the exiting one, so each
  round of `forget_original_parent` is a move that keeps the invariant.
Imports: KernelHacking.Proofs.TaskLinks
Trusted boundary: none (fully proved)
Main exports: LinksInv.copyProcess, LinksInv.findNewReaper, Handing, Handing.step, LinksInv.step, Reachable,
  LinksInv.run, Reachable.links
Open obligations: none
-/
import KernelHacking.Proofs.TaskLinks

namespace KernelHacking.TaskTree

variable {s : TaskState} {rank : TaskId → Nat}

/-! ### `copy_process` -/

/-- The leader of a running task is not `init_task`, unless the task is, and is not dead. -/
theorem LinksInv.leader_of_running (inv : LinksInv s.toTaskLinks rank) {task : TaskId}
    (isRunning : s.stage task = .running) (notInit : task ≠ initTask) :
    s.groupLeader task ≠ initTask ∧ s.stage (s.groupLeader task) ≠ .dead := by
  have isTask : s.Exists task := exists_of_stage isRunning (by decide)
  obtain ⟨leaderExists, isLeader⟩ := inv.groups.leader isTask
  by_cases same : task = s.groupLeader task
  · rw [← same, isRunning]
    exact ⟨notInit, by decide⟩
  · have listed := (inv.groups.mem_threads leaderExists isLeader).mpr ⟨isTask, rfl, same⟩
    constructor
    · intro isInit
      rw [isInit, inv.groups.init.2.2] at listed
      cases listed
    · intro isDead
      rw [inv.groups.dead_alone isLeader isDead] at listed
      cases listed

/-- While there is only `init_task`, it is the one that forks. -/
theorem LinksInv.current_of_boot (inv : LinksInv s.toTaskLinks rank) {task : TaskId}
    (isTask : s.Exists task) (empty : s.tasks = []) : task = initTask := by
  obtain ⟨leaderExists, isLeader⟩ := inv.groups.leader isTask
  have leaderInit : s.groupLeader task = initTask := by
    by_contra other
    have listed := inv.lists.mem_tasks.mpr ⟨leaderExists, isLeader, other⟩
    rw [empty] at listed
    cases listed
  by_contra different
  have listed := (inv.groups.mem_threads leaderExists isLeader).mpr
    ⟨isTask, rfl, fun same => different (same.trans leaderInit)⟩
  rw [leaderInit, inv.groups.init.2.2] at listed
  cases listed

theorem copyProcess_thread {args : ForkArgs} (isThread : args.cloneThread = true) :
    (copyProcess s args).toTaskLinks =
      s.addThread args.task (s.groupLeader args.current) (s.realParent args.current) := by
  simp only [copyProcess, newTask, isThread, if_true, ForkArgs.realParent, or_true, TaskLinks.addThread]

theorem copyProcess_process {args : ForkArgs} (isProcess : args.cloneThread = false) :
    (copyProcess s args).toTaskLinks =
      s.addProcess args.task (args.realParent s)
        (if args.pid = 1 then args.task else s.childReaper) := by
  simp only [copyProcess, newTask, isProcess, linkChild, Bool.false_eq_true, if_false,
    TaskLinks.addProcess]

theorem LinksInv.copyProcess (inv : LinksInv s.toTaskLinks rank) {args : ForkArgs}
    (can : CanFork s args) : ∃ rank, LinksInv (copyProcess s args).toTaskLinks rank := by
  obtain ⟨isRunning, unused, _, _, first, idle, _⟩ := can
  have isTask : s.Exists args.current := exists_of_stage isRunning (by decide)
  cases isThread : args.cloneThread with
  | true =>
      have notInit : args.current ≠ initTask := by
        intro isInit
        have refused := (idle isInit).1
        rw [isThread] at refused
        cases refused
      obtain ⟨leaderExists, isLeader⟩ := inv.groups.leader isTask
      obtain ⟨leaderNotInit, alive⟩ := inv.leader_of_running isRunning notInit
      rw [copyProcess_thread isThread, inv.parents.same isTask]
      exact ⟨_, inv.addThread unused leaderExists isLeader leaderNotInit alive⟩
  | false =>
      rw [copyProcess_process isThread]
      refine ⟨_, inv.addProcess unused ?_ ?_⟩
      · rw [ForkArgs.realParent]
        split
        · rename_i sharesParent
          have notInit : args.current ≠ initTask := by
            intro isInit
            obtain ⟨noThread, noSibling⟩ := idle isInit
            rw [noThread, noSibling] at sharesParent
            simp at sharesParent
          refine inv.parents.parents isTask (inv.attached isTask notInit ?_)
          rw [isRunning]
          decide
        · rw [isRunning]
          rfl
      · by_cases isFirst : args.pid = 1
        · rw [if_pos isFirst]
          have isInit := inv.current_of_boot isTask (first.mpr isFirst)
          obtain ⟨noThread, noSibling⟩ := idle isInit
          refine Or.inr ⟨rfl, ?_⟩
          rw [ForkArgs.realParent, noThread, noSibling, if_neg (by simp)]
          exact isInit
        · rw [if_neg isFirst]
          exact Or.inl rfl

/-! ### `find_new_reaper` -/

theorem mem_members_of_mem_otherThreads {task thread : TaskId} (listed : thread ∈ otherThreads s task) :
    thread ∈ s.members (s.groupLeader task) := by
  rcases List.mem_append.mp listed with behind | before
  · exact (List.dropWhile_sublist _).subset (List.mem_of_mem_drop behind)
  · exact (List.takeWhile_sublist _).subset before

/-- The thread that takes over is another running thread of the group. -/
theorem LinksInv.liveThread (inv : LinksInv s.toTaskLinks rank) {father thread : TaskId}
    (isTask : s.Exists father) (notRunning : s.stage father ≠ .running)
    (found : liveThread s father = some thread) :
    s.stage thread = .running ∧ thread ≠ father ∧ s.SameThreadGroup thread father := by
  have isRunning : s.stage thread = .running := by
    simpa using List.find?_some found
  have listed := mem_members_of_mem_otherThreads (List.mem_of_find?_eq_some found)
  obtain ⟨leaderExists, isLeader⟩ := inv.groups.leader isTask
  have isThread : s.Exists thread := exists_of_stage isRunning (by decide)
  refine ⟨isRunning, ?_, (inv.groups.mem_members leaderExists isLeader isThread).mp listed⟩
  rintro rfl
  exact notRunning isRunning

/-- The loop over the ancestors ends at the child reaper or at an ancestor that may have children. -/
theorem LinksInv.findSubreaper (inv : LinksInv s.toTaskLinks rank) {rounds : Nat}
    {start reaper : TaskId} (parents : (s.stage start).parents = true)
    (found : findSubreaper s rounds start = some reaper) :
    reaper = s.childReaper ∨ (s.stage reaper).parents = true ∧ rank reaper ≤ rank start := by
  induction rounds generalizing start with
  | zero => cases found
  | succ rounds inductionHypothesis =>
      rw [TaskTree.findSubreaper] at found
      split at found
      · exact Or.inl (Option.some.inj found).symm
      · rename_i notInit
        split at found
        · exact Or.inl (Option.some.inj found).symm
        · split at found
          · rw [← Option.some.inj found]
            exact Or.inr ⟨parents, Nat.le_refl _⟩
          · have isTask := exists_of_parents parents
            have notDead : s.stage start ≠ .dead := by
              intro isDead
              rw [isDead] at parents
              cases parents
            have attached := inv.attached isTask notInit notDead
            rcases inductionHypothesis (inv.parents.parents isTask attached) found with
              isReaper | ⟨reaperParents, lower⟩
            · exact Or.inl isReaper
            · refine Or.inr ⟨reaperParents, ?_⟩
              exact Nat.le_trans lower (Nat.le_of_lt (inv.ranked.lt isTask attached))

/-- The new parent may have children, it is another task, and its rank is below those of the
children. -/
theorem LinksInv.findNewReaper (inv : LinksInv s.toTaskLinks rank) {father reaper : TaskId} {rounds : Nat}
    (exiting : s.stage father = .untraced) (found : findNewReaper s rounds father = some reaper) :
    reaper ≠ father ∧ (s.stage reaper).parents = true ∧
      ∀ child ∈ s.children father, rank reaper < rank child := by
  have isTask : s.Exists father := exists_of_stage exiting (by decide)
  have notInit : father ≠ initTask := inv.groups.ne_init exiting (by decide)
  have attached := inv.attached isTask notInit (exiting.trans_ne (by decide))
  have above := inv.ranked.lt isTask attached
  have belowChildren : ∀ child ∈ s.children father, rank father < rank child := by
    intro child listed
    obtain ⟨childExists, _, isFather, childAttached, _⟩ := inv.ofChild listed
    rw [← isFather]
    exact inv.ranked.lt childExists childAttached
  -- a candidate with a lower rank
  have lower : ∀ candidate, rank candidate < rank father → candidate ≠ father ∧
      ∀ child ∈ s.children father, rank candidate < rank child := by
    intro candidate isLower
    refine ⟨?_, fun child listed => Nat.lt_trans isLower (belowChildren child listed)⟩
    rintro rfl
    exact Nat.lt_irrefl _ isLower
  have ofReaper : s.childReaper ≠ father → s.childReaper ≠ father ∧
      (s.stage s.childReaper).parents = true ∧
      ∀ child ∈ s.children father, rank s.childReaper < rank child := by
    intro different
    refine ⟨different, inv.parents.reaper, fun child listed => ?_⟩
    have limit := inv.ranked.reaper
    have deeper := belowChildren child listed
    omega
  rw [TaskTree.findNewReaper] at found
  split at found
  · rename_i thread live
    rw [← Option.some.inj found]
    obtain ⟨isRunning, different, group⟩ := inv.liveThread isTask (exiting.trans_ne (by decide)) live
    have threadExists : s.Exists thread := exists_of_stage isRunning (by decide)
    have sameRank : rank thread = rank father := by
      rw [inv.ranked.same threadExists, group, ← inv.ranked.same isTask]
    refine ⟨different, by rw [isRunning]; rfl, fun child listed => ?_⟩
    rw [sameRank]
    exact belowChildren child listed
  · split at found
    · cases found
    · rename_i notReaper
      split at found
      · rcases inv.findSubreaper (inv.parents.parents isTask attached) found with rfl | ⟨parents, rankLe⟩
        · exact ofReaper notReaper
        · obtain ⟨different, below⟩ := lower reaper (Nat.lt_of_le_of_lt rankLe above)
          exact ⟨different, parents, below⟩
      · rw [← Option.some.inj found]
        exact ofReaper notReaper

/-! ### `forget_original_parent` -/

/-- A task is handing over its children, of which some are left. -/
structure Handing (s : TaskState) (rank : TaskId → Nat) (father reaper : TaskId) (left : List TaskId) :
    Prop where
  inv : LinksInv s.toTaskLinks rank
  children : s.children father = left
  exiting : s.stage father = .untraced
  parents : (s.stage reaper).parents = true
  different : reaper ≠ father
  lower : ∀ child ∈ left, rank reaper < rank child
  reaper_ne : s.childReaper ≠ father

theorem reparentChild_moved {father reaper child : TaskId} {ignoresSigchld : Bool}
    (stays : ¬GoesToDead s father reaper ignoresSigchld child) :
    (reparentChild father reaper ignoresSigchld s child).toTaskLinks = s.move father reaper child := by
  rw [reparentChild, if_neg stays]
  rfl

theorem reparentChild_dead {father reaper child : TaskId} {ignoresSigchld : Bool}
    (goes : GoesToDead s father reaper ignoresSigchld child) :
    (reparentChild father reaper ignoresSigchld s child).toTaskLinks =
      ((s.move father reaper child).setStage child .dead).unlink reaper child := by
  rw [reparentChild, if_pos goes]
  rfl

/-- A zombie is buried: it is dead and on no children list. -/
theorem LinksInv.bury {s : TaskLinks} (inv : LinksInv s rank) {owner child : TaskId}
    (listed : child ∈ s.children owner) (isZombie : s.stage child = .zombie)
    (alone : s.threads child = []) : LinksInv ((s.setStage child .dead).unlink owner child) rank := by
  obtain ⟨isTask, _, linked⟩ := inv.lists.mem_children.mp listed
  have notInit : child ≠ initTask := by
    rintro rfl
    rw [inv.parents.init.2] at linked
    cases linked
  have finished : (s.stage child).parents = false := by
    rw [isZombie]
    rfl
  have buried : LinksInv (s.setStage child .dead) rank := by
    refine inv.setStage isTask (by decide) notInit ?_ (fun _ _ => alone) fun _ => ?_
    · rw [isZombie]
      decide
    · exact ⟨fun isOther attached => inv.realParent_ne finished isOther attached, inv.reaper_ne finished⟩
  exact buried.unlink listed TaskLinks.setStage_self

/-- One round of the loop. -/
theorem Handing.step {father reaper child : TaskId} {rest : List TaskId}
    (handing : Handing s rank father reaper (child :: rest)) (ignoresSigchld : Bool) :
    Handing (reparentChild father reaper ignoresSigchld s child) rank father reaper rest := by
  have listed : child ∈ s.children father := by
    rw [handing.children]
    exact List.mem_cons_self
  have lower := handing.lower child List.mem_cons_self
  have lowerRest : ∀ other ∈ rest, rank reaper < rank other := fun other inRest =>
    handing.lower other (List.mem_cons_of_mem _ inRest)
  have moved := handing.inv.move listed handing.different handing.parents lower
  have left : (s.move father reaper child).children father = rest := by
    rw [move_children_father handing.different, handing.children, List.erase_cons_head]
  by_cases goes : GoesToDead s father reaper ignoresSigchld child
  · have notReaper : reaper ≠ child := by
      rintro rfl
      exact Nat.lt_irrefl _ lower
    have notFather : father ≠ child := by
      rintro rfl
      have isZombie := goes.1
      rw [handing.exiting] at isZombie
      cases isZombie
    have atReaper : child ∈ (s.move father reaper child).children reaper := by
      rw [move_children_reaper handing.different]
      exact List.mem_append_right _ List.mem_cons_self
    have links := reparentChild_dead goes
    refine ⟨?_, ?_, ?_, ?_, handing.different, lowerRest, ?_⟩
    · rw [links]
      exact moved.bury atReaper goes.1 goes.2.2.2.1
    · rw [links]
      exact (Function.update_of_ne (Ne.symm handing.different) _ _).trans left
    · rw [links]
      exact (TaskLinks.setStage_of_ne notFather).trans handing.exiting
    · rw [links, show (((s.move father reaper child).setStage child .dead).unlink reaper child).stage reaper =
        s.stage reaper from TaskLinks.setStage_of_ne notReaper]
      exact handing.parents
    · rw [links]
      exact handing.reaper_ne
  · have links := reparentChild_moved goes
    refine ⟨?_, ?_, ?_, ?_, handing.different, lowerRest, ?_⟩
    · rw [links]
      exact moved
    · rw [links]
      exact left
    · rw [links]
      exact handing.exiting
    · rw [links]
      exact handing.parents
    · rw [links]
      exact handing.reaper_ne

/-- The whole loop. -/
theorem Handing.run {father reaper : TaskId} {left : List TaskId} (ignoresSigchld : Bool)
    (handing : Handing s rank father reaper left) :
    Handing (left.foldl (reparentChild father reaper ignoresSigchld) s) rank father reaper [] := by
  induction left generalizing s with
  | nil => exact handing
  | cons child rest inductionHypothesis => exact inductionHypothesis (handing.step ignoresSigchld)

/-- With no children left, the task is done. -/
theorem Handing.done {father reaper : TaskId} (handing : Handing s rank father reaper []) :
    LinksInv (s.setStage father .forgotten).toTaskLinks rank := by
  have isTask : s.Exists father := exists_of_stage handing.exiting (by decide)
  have notInit : father ≠ initTask := handing.inv.groups.ne_init handing.exiting (by decide)
  refine handing.inv.setStage isTask (by decide) notInit (handing.exiting.trans_ne (by decide))
    (fun _ isDead => by cases isDead) fun _ => ⟨?_, handing.reaper_ne⟩
  -- a task with this real parent would be on the empty list, or its leader would
  intro other isOther attached isFather
  obtain ⟨leaderExists, isLeader⟩ := handing.inv.groups.leader isOther
  obtain ⟨owner, linked⟩ := Option.ne_none_iff_exists'.mp attached
  have isOwner := handing.inv.parents.owner leaderExists isLeader linked
  rw [← handing.inv.parents.same isOther, isFather] at isOwner
  rw [← isOwner] at linked
  have listed := handing.inv.lists.mem_children.mpr ⟨leaderExists, isLeader, linked⟩
  rw [handing.children] at listed
  cases listed

/-- The child reaper before the loop. -/
def chooseReaper (s : TaskState) (father : TaskId) : TaskState :=
  { s with
    childReaper := if s.childReaper = father then (liveThread s father).getD father else s.childReaper }

/-- Before the loop, with the result of `find_new_reaper`. -/
theorem LinksInv.handing (inv : LinksInv s.toTaskLinks rank) {father reaper : TaskId} {rounds : Nat}
    (exiting : s.stage father = .untraced)
    (found : TaskTree.findNewReaper s rounds father = some reaper) :
    Handing (chooseReaper s father) rank father reaper (s.children father) := by
  obtain ⟨different, parents, lower⟩ := inv.findNewReaper exiting found
  by_cases isReaper : s.childReaper = father
  · -- init exits, and another of its threads takes over
    rw [TaskTree.findNewReaper] at found
    split at found
    · rename_i thread live
      have isTask : s.Exists father := exists_of_stage exiting (by decide)
      obtain ⟨isRunning, notFather, group⟩ := inv.liveThread isTask (exiting.trans_ne (by decide)) live
      have chosen : chooseReaper s father = { s with childReaper := thread } := by
        rw [chooseReaper, if_pos isReaper, live, Option.getD_some]
      rw [chosen]
      refine ⟨inv.setReaper ?_ ?_, rfl, exiting, parents, different, lower, notFather⟩
      · rw [isRunning]
        rfl
      · rw [isReaper]
        exact group
    · rw [if_pos isReaper] at found
      cases found
  · have chosen : chooseReaper s father = s := by
      rw [chooseReaper, if_neg isReaper]
    rw [chosen]
    exact ⟨inv, rfl, exiting, parents, different, lower, isReaper⟩

/-- `forget_original_parent` as a loop with something before and after. -/
theorem forgetOriginalParent_eq {after : TaskState} {father : TaskId} {rounds : Nat}
    {ignoresSigchld : Bool}
    (forgotten : forgetOriginalParent s father rounds ignoresSigchld = some after) :
    ∃ reaper, TaskTree.findNewReaper s rounds father = some reaper ∧
      after = ((s.children father).foldl (reparentChild father reaper ignoresSigchld)
        (chooseReaper s father)).setStage father .forgotten := by
  obtain ⟨reaper, found, rfl⟩ := Option.map_eq_some_iff.mp forgotten
  exact ⟨reaper, found, rfl⟩

theorem LinksInv.forgetOriginalParent (inv : LinksInv s.toTaskLinks rank) {after : TaskState}
    {father : TaskId} {rounds : Nat} {ignoresSigchld : Bool} (exiting : s.stage father = .untraced)
    (forgotten : TaskTree.forgetOriginalParent s father rounds ignoresSigchld = some after) :
    LinksInv after.toTaskLinks rank := by
  obtain ⟨reaper, found, rfl⟩ := forgetOriginalParent_eq forgotten
  exact ((inv.handing exiting found).run ignoresSigchld).done

/-! ### `release_task` -/

theorem LinksInv.releaseTask (inv : LinksInv s.toTaskLinks rank) {task : TaskId}
    (isDead : s.stage task = .dead) : LinksInv (releaseTask s task).toTaskLinks rank := by
  have isTask : s.Exists task := exists_of_stage isDead (by decide)
  by_cases isLeader : s.groupLeader task = task
  · cases linked : s.sibling task with
    | none =>
        have links : (TaskTree.releaseTask s task).toTaskLinks = s.removeLeader task := by
          simp only [TaskTree.releaseTask, if_pos isLeader, linked, TaskLinks.removeLeader]
        rw [links]
        exact inv.removeLeader isLeader isDead linked
    | some owner =>
        have links : (TaskTree.releaseTask s task).toTaskLinks =
            (s.unlink owner task).removeLeader task := by
          simp only [TaskTree.releaseTask, if_pos isLeader, linked, unlinkChild, TaskLinks.unlink,
            TaskLinks.removeLeader]
        have listed := inv.lists.mem_children.mpr ⟨isTask, isLeader, linked⟩
        rw [links]
        exact (inv.unlink listed isDead).removeLeader isLeader isDead (Function.update_self _ _ _)
  · have links : (TaskTree.releaseTask s task).toTaskLinks =
        s.removeThread (s.groupLeader task) task := by
      simp only [TaskTree.releaseTask, if_neg isLeader, TaskLinks.removeThread]
    rw [links]
    exact inv.removeThread isLeader isDead

/-! ### Runs -/

/-- What a step is. -/
theorem taskStep_eq_some {after : TaskState} {event : TaskEvent} :
    taskStep s event = some after ↔ Possible s event ∧ effect s event = some after := by
  rw [taskStep]
  by_cases possible : Possible s event
  · rw [if_pos possible, and_iff_right possible]
  · rw [if_neg possible]
    exact ⟨fun stepped => absurd stepped (by simp), fun ⟨isPossible, _⟩ => absurd isPossible possible⟩

/-- A task that has handed over its children goes on to another such stage. -/
theorem LinksInv.setStage_over (inv : LinksInv s.toTaskLinks rank) {task : TaskId} {stage : Stage}
    (finished : (s.stage task).parents = false) (isTask : s.Exists task) (used : stage ≠ .unused)
    (notDead : s.stage task ≠ .dead) (alone : s.IsLeader task → stage = .dead → s.threads task = []) :
    LinksInv (s.setStage task stage).toTaskLinks rank := by
  have notInit : task ≠ initTask := by
    rintro rfl
    rw [inv.groups.init.1] at finished
    cases finished
  exact inv.setStage isTask used notInit notDead alone fun _ =>
    ⟨fun isOther attached => inv.realParent_ne finished isOther attached, inv.reaper_ne finished⟩

theorem LinksInv.step {after : TaskState} {event : TaskEvent} (inv : LinksInv s.toTaskLinks rank)
    (stepped : taskStep s event = some after) : ∃ rank, LinksInv after.toTaskLinks rank := by
  obtain ⟨possible, isEffect⟩ := taskStep_eq_some.mp stepped
  cases event with
  | fork args =>
      cases isEffect
      exact inv.copyProcess possible
  | exitSignals task =>
      cases isEffect
      obtain ⟨isRunning, notInit⟩ := possible
      refine ⟨rank, inv.setStage ?_ (by decide) notInit (isRunning.trans_ne (by decide))
        (fun _ isDead => by cases isDead) fun finished => by cases finished⟩
      exact exists_of_stage isRunning (by decide)
  | exitPtrace task =>
      cases isEffect
      have exiting : s.stage task = .exiting := possible
      have notInit : task ≠ initTask := inv.groups.ne_init exiting (by decide)
      refine ⟨rank, inv.setStage ?_ (by decide) notInit (exiting.trans_ne (by decide))
        (fun _ isDead => by cases isDead) fun finished => by cases finished⟩
      exact exists_of_stage exiting (by decide)
  | forgetOriginalParent task rounds ignoresSigchld =>
      exact ⟨rank, inv.forgetOriginalParent possible isEffect⟩
  | exitNotify task autoreap =>
      cases isEffect
      obtain ⟨forgotten, mayAutoreap⟩ := possible
      refine ⟨rank, inv.setStage_over (by rw [forgotten]; rfl) ?_ ?_ (forgotten.trans_ne (by decide)) ?_⟩
      · exact exists_of_stage forgotten (by decide)
      · cases autoreap <;> decide
      · intro isLeader isDead
        cases autoreap with
        | false => cases isDead
        | true =>
            rw [TaskState.MayAutoreap] at mayAutoreap
            split at mayAutoreap
            · cases mayAutoreap
            · rw [if_pos (show s.groupLeader task = task from isLeader)] at mayAutoreap
              exact mayAutoreap rfl
  | reap task =>
      cases isEffect
      obtain ⟨isZombie, alone⟩ := possible
      refine ⟨rank, inv.setStage_over (by rw [isZombie]; rfl) ?_ (by decide)
        (isZombie.trans_ne (by decide))
        fun isLeader _ => alone isLeader⟩
      exact exists_of_stage isZombie (by decide)
  | releaseTask task =>
      cases isEffect
      exact ⟨rank, inv.releaseTask possible⟩
  | ptraceAttach tracer task | ptraceTraceme task | ptraceDetach task | setChildSubreaper task value
  | setAttributes task attributes =>
      cases isEffect
      exact ⟨rank, inv⟩

/-- The state is reached from boot. -/
def Reachable (s : TaskState) : Prop :=
  ∃ attributes events, runTasks (bootTasks attributes) events = some s

theorem LinksInv.run {after : TaskState} {events : List TaskEvent} (inv : LinksInv s.toTaskLinks rank)
    (ran : runTasks s events = some after) : ∃ rank, LinksInv after.toTaskLinks rank := by
  induction events generalizing s rank with
  | nil =>
      cases ran
      exact ⟨rank, inv⟩
  | cons event rest inductionHypothesis =>
      obtain ⟨middle, stepped, ranRest⟩ := Option.bind_eq_some_iff.mp ran
      obtain ⟨_, invMiddle⟩ := inv.step stepped
      exact inductionHypothesis invMiddle ranRest

/-- The invariant holds in every state that is reached. -/
theorem Reachable.links (reachable : Reachable s) : ∃ rank, LinksInv s.toTaskLinks rank := by
  obtain ⟨attributes, events, ran⟩ := reachable
  exact (LinksInv.boot attributes).run ran

end KernelHacking.TaskTree
