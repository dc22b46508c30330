/-
Module: KernelHacking.Proofs.TaskInvariant
Layer: Proofs
Purpose: What holds in every state of the tasks: thread groups are as their leaders say, the task list
  holds the leaders, a leader stands on the children list of its real parent or has been taken off to be
  released, a task with children has not handed them over yet, and ranks grow from real parents to
  children. A task may go on to another stage.
Imports: Mathlib.Data.List.Nodup, KernelHacking.Model.TaskTree
Trusted boundary: none (fully proved)
Main exports: Groups, Lists, Parents, Ranked, LinksInv, LinksInv.boot, LinksInv.ofChild,
  LinksInv.attached, LinksInv.setStage
Open obligations: none
-/
import Mathlib.Data.List.Nodup
import KernelHacking.Model.TaskTree

namespace KernelHacking.TaskTree

/-! ### The invariant -/

/-- A task that may still have children. -/
def Stage.parents : Stage → Bool
  | .running | .exiting | .untraced => true
  | _ => false

namespace TaskLinks

variable (s : TaskLinks)

/-- There is a task at the address. -/
def Exists (task : TaskId) : Prop := s.stage task ≠ .unused

/-- `thread_group_leader`. -/
def IsLeader (task : TaskId) : Prop := s.groupLeader task = task

/-- The leader of the task stands on a children list. -/
def Attached (task : TaskId) : Prop := s.sibling (s.groupLeader task) ≠ none

end TaskLinks

/-- Thread groups. -/
structure Groups (s : TaskLinks) : Prop where
  init : s.stage initTask = .running ∧ s.IsLeader initTask ∧ s.threads initTask = []
  leader : ∀ {task}, s.Exists task → s.Exists (s.groupLeader task) ∧ s.IsLeader (s.groupLeader task)
  mem_threads : ∀ {leader task}, s.Exists leader → s.IsLeader leader →
    (task ∈ s.threads leader ↔ s.Exists task ∧ s.groupLeader task = leader ∧ task ≠ leader)
  nodup_threads : ∀ {leader}, s.Exists leader → s.IsLeader leader → (s.threads leader).Nodup
  dead_alone : ∀ {leader}, s.IsLeader leader → s.stage leader = .dead → s.threads leader = []

/-- The task list and the children lists. -/
structure Lists (s : TaskLinks) : Prop where
  mem_tasks : ∀ {task}, task ∈ s.tasks ↔ s.Exists task ∧ s.IsLeader task ∧ task ≠ initTask
  nodup_tasks : s.tasks.Nodup
  mem_children : ∀ {owner child},
    child ∈ s.children owner ↔ s.Exists child ∧ s.IsLeader child ∧ s.sibling child = some owner
  nodup_children : ∀ owner, (s.children owner).Nodup

/-- Real parents. -/
structure Parents (s : TaskLinks) : Prop where
  init : s.realParent initTask = initTask ∧ s.sibling initTask = none
  same : ∀ {task}, s.Exists task → s.realParent task = s.realParent (s.groupLeader task)
  owner : ∀ {task owner}, s.Exists task → s.IsLeader task → s.sibling task = some owner →
    s.realParent task = owner
  unlinked : ∀ {task}, s.Exists task → s.IsLeader task → task ≠ initTask → s.sibling task = none →
    s.stage task = .dead
  parents : ∀ {task}, s.Exists task → s.Attached task → (s.stage (s.realParent task)).parents = true
  reaper : (s.stage s.childReaper).parents = true

/-- Ranks: those of a group are equal, they grow from real parents to children, and that of init is at
most 1. -/
structure Ranked (s : TaskLinks) (rank : TaskId → Nat) : Prop where
  init : rank initTask = 0
  same : ∀ {task}, s.Exists task → rank task = rank (s.groupLeader task)
  lt : ∀ {task}, s.Exists task → s.Attached task → rank (s.realParent task) < rank task
  reaper : rank s.childReaper ≤ 1

structure LinksInv (s : TaskLinks) (rank : TaskId → Nat) : Prop where
  groups : Groups s
  lists : Lists s
  parents : Parents s
  ranked : Ranked s rank

theorem LinksInv.boot (attributes : Attributes) :
    LinksInv (bootTasks attributes).toTaskLinks fun _ => 0 := by
  have only : ∀ {task}, (bootTasks attributes).Exists task ↔ task = initTask := by
    intro task
    simp [TaskLinks.Exists, bootTasks]
  refine ⟨⟨⟨rfl, rfl, rfl⟩, ?_, ?_, ?_, ?_⟩, ⟨?_, List.nodup_nil, ?_, fun _ => List.nodup_nil⟩,
    ⟨⟨rfl, rfl⟩, fun _ => rfl, ?_, ?_, ?_, rfl⟩, ⟨rfl, fun _ => rfl, ?_, Nat.zero_le 1⟩⟩
  · intro task _
    exact ⟨only.mpr rfl, rfl⟩
  · intro leader task _ isLeader
    refine ⟨fun listed => absurd listed List.not_mem_nil, fun ⟨isTask, isMember, different⟩ => ?_⟩
    rw [only.mp isTask] at different
    exact absurd isLeader different
  · exact fun _ _ => List.nodup_nil
  · exact fun _ _ => rfl
  · intro task
    refine ⟨fun listed => absurd listed List.not_mem_nil, fun ⟨isTask, _, different⟩ => ?_⟩
    exact absurd (only.mp isTask) different
  · intro owner child
    refine ⟨fun listed => absurd listed List.not_mem_nil, fun ⟨_, _, linked⟩ => ?_⟩
    cases linked
  · rintro task owner _ _ ⟨⟩
  · intro task isTask _ different _
    exact absurd (only.mp isTask) different
  · intro task _ attached
    exact absurd rfl attached
  · intro task _ attached
    exact absurd rfl attached

/-! ### Consequences -/

section

variable {s : TaskLinks} {rank : TaskId → Nat} {task owner child : TaskId}

theorem exists_of_stage {stage : Stage} (isStage : s.stage task = stage) (used : stage ≠ .unused) :
    s.Exists task :=
  isStage.trans_ne used

theorem Groups.exists_init (groups : Groups s) : s.Exists initTask :=
  exists_of_stage groups.init.1 (by decide)

/-- `init_task` runs and does nothing else. -/
theorem Groups.ne_init (groups : Groups s) {stage : Stage} (isStage : s.stage task = stage)
    (notRunning : stage ≠ .running) : task ≠ initTask := by
  rintro rfl
  exact notRunning (isStage.symm.trans groups.init.1)

theorem exists_of_parents (parents : (s.stage task).parents = true) : s.Exists task := by
  intro unused
  rw [unused] at parents
  cases parents

theorem attached_of_sibling (isLeader : s.IsLeader child) (linked : s.sibling child = some owner) :
    s.Attached child := by
  rw [TaskLinks.Attached, isLeader, linked]
  exact Option.some_ne_none owner

/-- A task on a children list, and the owner of the list. -/
theorem LinksInv.ofChild (inv : LinksInv s rank) (listed : child ∈ s.children owner) :
    s.Exists child ∧ s.IsLeader child ∧ s.realParent child = owner ∧ s.Attached child ∧
      (s.stage owner).parents = true := by
  obtain ⟨isTask, isLeader, linked⟩ := inv.lists.mem_children.mp listed
  have isOwner := inv.parents.owner isTask isLeader linked
  have attached := attached_of_sibling isLeader linked
  exact ⟨isTask, isLeader, isOwner, attached, isOwner ▸ inv.parents.parents isTask attached⟩

/-- A task that has handed over its children has none. -/
theorem LinksInv.childless (inv : LinksInv s rank) (finished : (s.stage owner).parents = false) :
    s.children owner = [] := by
  refine List.eq_nil_iff_forall_not_mem.mpr fun child listed => ?_
  obtain ⟨_, _, _, _, parents⟩ := inv.ofChild listed
  rw [finished] at parents
  cases parents

/-- Nobody has such a task as its real parent. -/
theorem LinksInv.realParent_ne (inv : LinksInv s rank) (finished : (s.stage owner).parents = false)
    (isTask : s.Exists task) (attached : s.Attached task) : s.realParent task ≠ owner := by
  rintro rfl
  have parents := inv.parents.parents isTask attached
  rw [finished] at parents
  cases parents

theorem LinksInv.reaper_ne (inv : LinksInv s rank) (finished : (s.stage owner).parents = false) :
    s.childReaper ≠ owner := by
  rintro rfl
  have parents := inv.parents.reaper
  rw [finished] at parents
  cases parents

/-- A task that is neither dead nor `init_task` is attached. -/
theorem LinksInv.attached (inv : LinksInv s rank) (isTask : s.Exists task) (notInit : task ≠ initTask)
    (notDead : s.stage task ≠ .dead) : s.Attached task := by
  intro unlinked
  obtain ⟨leaderExists, isLeader⟩ := inv.groups.leader isTask
  by_cases same : task = s.groupLeader task
  · rw [← same] at unlinked
    exact notDead (inv.parents.unlinked isTask same.symm notInit unlinked)
  · -- the leader has a thread, so it is neither `init_task` nor dead
    have listed := (inv.groups.mem_threads leaderExists isLeader).mpr ⟨isTask, rfl, same⟩
    have leaderNotInit : s.groupLeader task ≠ initTask := by
      intro isInit
      rw [isInit, inv.groups.init.2.2] at listed
      cases listed
    have leaderDead := inv.parents.unlinked leaderExists isLeader leaderNotInit unlinked
    rw [inv.groups.dead_alone isLeader leaderDead] at listed
    cases listed

end

/-! ### A new stage -/

namespace TaskLinks

/-- The links with a new stage of a task. -/
def setStage (s : TaskLinks) (task : TaskId) (stage : Stage) : TaskLinks :=
  { s with stage := Function.update s.stage task stage }

variable {s : TaskLinks} {task other : TaskId} {stage : Stage}

theorem setStage_self : (s.setStage task stage).stage task = stage := Function.update_self _ _ _

theorem setStage_of_ne (different : other ≠ task) : (s.setStage task stage).stage other = s.stage other :=
  Function.update_of_ne different _ _

theorem exists_setStage (isTask : s.Exists task) (used : stage ≠ .unused) :
    (s.setStage task stage).Exists other ↔ s.Exists other := by
  by_cases same : other = task
  · rw [same, Exists, setStage_self]
    exact ⟨fun _ => isTask, fun _ => used⟩
  · rw [Exists, setStage_of_ne same, Exists]

end TaskLinks

theorem TaskState.toTaskLinks_setStage {s : TaskState} {task : TaskId} {stage : Stage} :
    (s.setStage task stage).toTaskLinks = s.toTaskLinks.setStage task stage := rfl

/-- A task gets another stage. If it can have no children from then on, it has none, and it is not the
child reaper. -/
theorem LinksInv.setStage {s : TaskLinks} {rank : TaskId → Nat} (inv : LinksInv s rank) {task : TaskId}
    {stage : Stage} (isTask : s.Exists task) (used : stage ≠ .unused) (notInit : task ≠ initTask)
    (notDead : s.stage task ≠ .dead)
    (alone : s.IsLeader task → stage = .dead → s.threads task = [])
    (finished : stage.parents = false →
      (∀ {other}, s.Exists other → s.Attached other → s.realParent other ≠ task) ∧
        s.childReaper ≠ task) :
    LinksInv (s.setStage task stage) rank := by
  obtain ⟨groups, lists, parents, ranked⟩ := inv
  have same : ∀ {other}, (s.setStage task stage).Exists other ↔ s.Exists other :=
    TaskLinks.exists_setStage isTask used
  have keeps : ∀ {other}, (s.stage other).parents = true → (other = task → stage.parents = true) →
      ((s.setStage task stage).stage other).parents = true := by
    intro other before here
    by_cases isHere : other = task
    · rw [isHere, TaskLinks.setStage_self]
      exact here isHere
    · rw [TaskLinks.setStage_of_ne isHere]
      exact before
  refine ⟨⟨⟨?_, groups.init.2⟩, ?_, ?_, ?_, ?_⟩, ⟨?_, lists.nodup_tasks, ?_, lists.nodup_children⟩,
    ⟨parents.init, ?_, ?_, ?_, ?_, ?_⟩, ⟨ranked.init, ?_, ?_, ranked.reaper⟩⟩
  · rw [TaskLinks.setStage_of_ne (Ne.symm notInit)]
    exact groups.init.1
  · intro other isOther
    obtain ⟨leaderExists, isLeader⟩ := groups.leader (same.mp isOther)
    exact ⟨same.mpr leaderExists, isLeader⟩
  · intro leader other isOther isLeader
    rw [same]
    exact groups.mem_threads (same.mp isOther) isLeader
  · intro leader isOther isLeader
    exact groups.nodup_threads (same.mp isOther) isLeader
  · intro leader isLeader isDead
    by_cases here : leader = task
    · rw [here] at isDead isLeader ⊢
      rw [TaskLinks.setStage_self] at isDead
      exact alone isLeader isDead
    · rw [TaskLinks.setStage_of_ne here] at isDead
      exact groups.dead_alone isLeader isDead
  · intro other
    rw [same]
    exact lists.mem_tasks
  · intro owner child
    rw [same]
    exact lists.mem_children
  · exact fun isOther => parents.same (same.mp isOther)
  · exact fun isOther => parents.owner (same.mp isOther)
  · intro other isOther isLeader different unlinked
    have isDead := parents.unlinked (same.mp isOther) isLeader different unlinked
    have notHere : other ≠ task := by
      rintro rfl
      exact notDead isDead
    rw [TaskLinks.setStage_of_ne notHere]
    exact isDead
  · intro other isOther attached
    refine keeps (parents.parents (same.mp isOther) attached) fun here => ?_
    by_contra stops
    exact (finished (Bool.of_not_eq_true stops)).1 (same.mp isOther) attached here
  · refine keeps parents.reaper fun here => ?_
    by_contra stops
    exact (finished (Bool.of_not_eq_true stops)).2 here
  · exact fun isOther => ranked.same (same.mp isOther)
  · exact fun isOther => ranked.lt (same.mp isOther)

end KernelHacking.TaskTree
