/-
Module: KernelHacking.Proofs.TaskLinks
Layer: Proofs
Purpose: The changes of the links between tasks, and that each keeps the invariant: a new thread of a group,
  a new process, a child that gets another real parent, a dead child that is taken off its list, a dead
  task that is released, and another child reaper.
Imports: KernelHacking.Proofs.TaskInvariant
Trusted boundary: none (fully proved)
Main exports: SameBut, Added, LinksInv.addThread, LinksInv.addProcess, LinksInv.move, LinksInv.unlink,
  Removed, LinksInv.removeLeader, LinksInv.removeThread, LinksInv.setReaper
Open obligations: none
-/
import KernelHacking.Proofs.TaskInvariant

namespace KernelHacking.TaskTree

/-! ### A new task -/

/-- The links differ at one address only, as far as the stage, the group, the real parent and the place
on a children list are concerned. -/
structure SameBut (task : TaskId) (s after : TaskLinks) : Prop where
  stage : ∀ {other}, other ≠ task → after.stage other = s.stage other
  groupLeader : ∀ {other}, other ≠ task → after.groupLeader other = s.groupLeader other
  realParent : ∀ {other}, other ≠ task → after.realParent other = s.realParent other
  sibling : ∀ {other}, other ≠ task → after.sibling other = s.sibling other

namespace SameBut

variable {s after : TaskLinks} {task other : TaskId}

theorem exists_iff (same : SameBut task s after) (different : other ≠ task) :
    after.Exists other ↔ s.Exists other := by
  rw [TaskLinks.Exists, same.stage different, TaskLinks.Exists]

theorem isLeader_iff (same : SameBut task s after) (different : other ≠ task) :
    after.IsLeader other ↔ s.IsLeader other := by
  rw [TaskLinks.IsLeader, same.groupLeader different, TaskLinks.IsLeader]

theorem attached_iff (same : SameBut task s after) (different : other ≠ task)
    (leaderDifferent : s.groupLeader other ≠ task) : after.Attached other ↔ s.Attached other := by
  rw [TaskLinks.Attached, same.groupLeader different, same.sibling leaderDifferent, TaskLinks.Attached]

end SameBut

namespace TaskLinks

/-- The links with a new thread of a group. -/
def addThread (s : TaskLinks) (new leader realParent : TaskId) : TaskLinks :=
  let threads := Function.update s.threads new []
  { s with
    stage := Function.update s.stage new .running
    groupLeader := Function.update s.groupLeader new leader
    threads := Function.update threads leader (threads leader ++ [new])
    realParent := Function.update s.realParent new realParent
    children := Function.update s.children new []
    sibling := Function.update s.sibling new none }

/-- The links with a new leader on the children list of its real parent. -/
def addProcess (s : TaskLinks) (new realParent reaper : TaskId) : TaskLinks :=
  let children := Function.update s.children new []
  { stage := Function.update s.stage new .running
    groupLeader := Function.update s.groupLeader new new
    threads := Function.update s.threads new []
    realParent := Function.update s.realParent new realParent
    children := Function.update children realParent (children realParent ++ [new])
    sibling := Function.update (Function.update s.sibling new none) new (some realParent)
    tasks := s.tasks ++ [new]
    childReaper := reaper }

end TaskLinks

section New

variable {s : TaskLinks} {rank : TaskId → Nat} {new : TaskId}

theorem ne_of_unused (unused : s.stage new = .unused) {task : TaskId} (isTask : s.Exists task) :
    task ≠ new := by
  rintro rfl
  exact isTask unused

/-- An address that is not used owns no children. -/
theorem LinksInv.children_unused (inv : LinksInv s rank) (unused : s.stage new = .unused) :
    Function.update s.children new [] = s.children := by
  refine Function.update_eq_self_iff.mpr (inv.childless ?_).symm
  rw [unused]
  rfl

/-- A task is added at an address that was not used. -/
structure Added (new : TaskId) (s after : TaskLinks) : Prop extends SameBut new s after where
  unused : s.stage new = .unused
  running : after.stage new = .running

namespace Added

variable {after : TaskLinks} {task : TaskId}

theorem cases (added : Added new s after) (isTask : after.Exists task) : task = new ∨ s.Exists task := by
  by_cases isNew : task = new
  · exact Or.inl isNew
  · exact Or.inr ((added.exists_iff isNew).mp isTask)

/-- What a task keeps that was there before. -/
theorem old (added : Added new s after) (groups : Groups s) (isTask : s.Exists task) :
    task ≠ new ∧ after.Exists task ∧ s.groupLeader task ≠ new ∧
      after.groupLeader task = s.groupLeader task ∧ (after.IsLeader task ↔ s.IsLeader task) ∧
      (after.Attached task ↔ s.Attached task) := by
  have different := ne_of_unused added.unused isTask
  have leaderDifferent := ne_of_unused added.unused (groups.leader isTask).1
  exact ⟨different, (added.exists_iff different).mpr isTask, leaderDifferent,
    added.groupLeader different, added.isLeader_iff different,
    added.attached_iff different leaderDifferent⟩

theorem exists_new (added : Added new s after) : after.Exists new :=
  exists_of_stage added.running (by decide)

theorem init (added : Added new s after) (groups : Groups s) : initTask ≠ new :=
  ne_of_unused added.unused groups.exists_init

theorem stage_parents (added : Added new s after) (parents : (s.stage task).parents = true) :
    (after.stage task).parents = true := by
  rw [added.stage (ne_of_unused added.unused (exists_of_parents parents))]
  exact parents

/-- The leaders of the groups. -/
theorem leader (added : Added new s after) (groups : Groups s)
    (newLeader : after.Exists (after.groupLeader new) ∧ after.IsLeader (after.groupLeader new))
    (isTask : after.Exists task) :
    after.Exists (after.groupLeader task) ∧ after.IsLeader (after.groupLeader task) := by
  rcases added.cases isTask with rfl | isOld
  · exact newLeader
  · obtain ⟨_, _, _, sameLeader, _⟩ := added.old groups isOld
    obtain ⟨leaderExists, isLeader⟩ := groups.leader isOld
    obtain ⟨_, stillExists, _, _, stillLeader, _⟩ := added.old groups leaderExists
    rw [sameLeader]
    exact ⟨stillExists, stillLeader.mpr isLeader⟩

theorem parents (added : Added new s after) (groups : Groups s) (parents : Parents s)
    (newSame : after.realParent new = after.realParent (after.groupLeader new))
    (newOwner : after.IsLeader new → after.sibling new = some (after.realParent new))
    (newParent : (after.stage (after.realParent new)).parents = true)
    (reaper : (after.stage after.childReaper).parents = true) : Parents after := by
  have initOld := added.init groups
  refine ⟨?_, ?_, ?_, ?_, ?_, reaper⟩
  · rw [added.realParent initOld, added.sibling initOld]
    exact parents.init
  · intro task isTask
    rcases added.cases isTask with rfl | isOld
    · exact newSame
    · obtain ⟨different, _, leaderDifferent, sameLeader, _⟩ := added.old groups isOld
      rw [sameLeader, added.realParent different, added.realParent leaderDifferent]
      exact parents.same isOld
  · intro task owner isTask isLeader linked
    rcases added.cases isTask with rfl | isOld
    · rw [newOwner isLeader] at linked
      exact Option.some.inj linked
    · obtain ⟨different, _, _, _, sameLeader, _⟩ := added.old groups isOld
      rw [added.sibling different] at linked
      rw [added.realParent different]
      exact parents.owner isOld (sameLeader.mp isLeader) linked
  · intro task isTask isLeader notInit unlinked
    rcases added.cases isTask with rfl | isOld
    · rw [newOwner isLeader] at unlinked
      cases unlinked
    · obtain ⟨different, _, _, _, sameLeader, _⟩ := added.old groups isOld
      rw [added.sibling different] at unlinked
      rw [added.stage different]
      exact parents.unlinked isOld (sameLeader.mp isLeader) notInit unlinked
  · intro task isTask attached
    rcases added.cases isTask with rfl | isOld
    · exact newParent
    · obtain ⟨different, _, _, _, _, sameAttached⟩ := added.old groups isOld
      rw [added.realParent different]
      exact added.stage_parents (parents.parents isOld (sameAttached.mp attached))

theorem ranked (added : Added new s after) (groups : Groups s) (parents : Parents s)
    (ranked : Ranked s rank) (newRank : Nat)
    (newSame : after.groupLeader new ≠ new → newRank = rank (after.groupLeader new))
    (newParent : after.realParent new ≠ new) (newLt : rank (after.realParent new) < newRank)
    (reaper : Function.update rank new newRank after.childReaper ≤ 1) :
    Ranked after (Function.update rank new newRank) := by
  have oldRank : ∀ {task}, s.Exists task → Function.update rank new newRank task = rank task :=
    fun isOld => Function.update_of_ne (ne_of_unused added.unused isOld) _ _
  refine ⟨?_, ?_, ?_, reaper⟩
  · rw [oldRank groups.exists_init]
    exact ranked.init
  · intro task isTask
    rcases added.cases isTask with rfl | isOld
    · by_cases isLeader : after.groupLeader task = task
      · rw [isLeader]
      · rw [Function.update_self, Function.update_of_ne isLeader]
        exact newSame isLeader
    · obtain ⟨_, _, _, sameLeader, _⟩ := added.old groups isOld
      rw [sameLeader, oldRank isOld, oldRank (groups.leader isOld).1]
      exact ranked.same isOld
  · intro task isTask attached
    rcases added.cases isTask with rfl | isOld
    · rw [Function.update_self, Function.update_of_ne newParent]
      exact newLt
    · obtain ⟨different, _, _, _, _, sameAttached⟩ := added.old groups isOld
      have wasAttached := sameAttached.mp attached
      have parentExists := exists_of_parents (parents.parents isOld wasAttached)
      rw [added.realParent different, oldRank isOld, oldRank parentExists]
      exact ranked.lt isOld wasAttached

end Added

theorem added_addThread (unused : s.stage new = .unused) (leader realParent : TaskId) :
    Added new s (s.addThread new leader realParent) where
  stage := fun other => Function.update_of_ne other _ _
  groupLeader := fun other => Function.update_of_ne other _ _
  realParent := fun other => Function.update_of_ne other _ _
  sibling := fun other => Function.update_of_ne other _ _
  unused := unused
  running := Function.update_self _ _ _

theorem added_addProcess (unused : s.stage new = .unused) (realParent reaper : TaskId) :
    Added new s (s.addProcess new realParent reaper) where
  stage := fun other => Function.update_of_ne other _ _
  groupLeader := fun other => Function.update_of_ne other _ _
  realParent := fun other => Function.update_of_ne other _ _
  sibling := fun other =>
    (Function.update_of_ne other _ _).trans (Function.update_of_ne other _ _)
  unused := unused
  running := Function.update_self _ _ _

theorem nodup_concat {list : List TaskId} {task : TaskId} (distinct : list.Nodup) (fresh : task ∉ list) :
    (list ++ [task]).Nodup := by
  rw [← List.concat_eq_append]
  exact distinct.concat fresh

end New

/-! ### A new thread -/

section Thread

variable {s : TaskLinks} {rank : TaskId → Nat} {new leader realParent : TaskId}

theorem addThread_groupLeader : (s.addThread new leader realParent).groupLeader new = leader :=
  Function.update_self _ _ _

theorem addThread_realParent : (s.addThread new leader realParent).realParent new = realParent :=
  Function.update_self _ _ _

theorem addThread_threads_self (different : leader ≠ new) :
    (s.addThread new leader realParent).threads leader = s.threads leader ++ [new] := by
  simp only [TaskLinks.addThread, Function.update_self, Function.update_of_ne different]

theorem addThread_threads_of_ne {other : TaskId} (notNew : other ≠ new) (notHere : other ≠ leader) :
    (s.addThread new leader realParent).threads other = s.threads other := by
  simp only [TaskLinks.addThread, Function.update_of_ne notHere, Function.update_of_ne notNew]

theorem not_isLeader_addThread (different : leader ≠ new) :
    ¬(s.addThread new leader realParent).IsLeader new := by
  rw [TaskLinks.IsLeader, addThread_groupLeader]
  exact different

/-- A leader of the new links is one of the old links. -/
theorem leader_of_addThread (groups : Groups s) (unused : s.stage new = .unused)
    (different : leader ≠ new)
    {other : TaskId} (isOther : (s.addThread new leader realParent).Exists other)
    (isLeader : (s.addThread new leader realParent).IsLeader other) :
    other ≠ new ∧ s.Exists other ∧ s.IsLeader other := by
  have added := added_addThread unused leader realParent
  rcases added.cases isOther with rfl | isOld
  · exact absurd isLeader (not_isLeader_addThread different)
  · obtain ⟨notNew, _, _, _, sameLeader, _⟩ := added.old groups isOld
    exact ⟨notNew, isOld, sameLeader.mp isLeader⟩

theorem Groups.addThread (groups : Groups s) (unused : s.stage new = .unused)
    (isTask : s.Exists leader) (isLeader : s.IsLeader leader) (notInit : leader ≠ initTask)
    (alive : s.stage leader ≠ .dead) : Groups (s.addThread new leader realParent) := by
  have added := added_addThread unused leader realParent
  have initOld := added.init groups
  obtain ⟨leaderOld, leaderExists, _, _, stillLeader, _⟩ := added.old groups isTask
  have notListed : ∀ {other}, s.Exists other → s.IsLeader other → new ∉ s.threads other :=
    fun isOther isLeader listed => ((groups.mem_threads isOther isLeader).mp listed).1 unused
  refine ⟨?_, ?_, ?_, ?_, ?_⟩
  · rw [added.stage initOld, added.isLeader_iff initOld,
      addThread_threads_of_ne initOld (Ne.symm notInit)]
    exact groups.init
  · refine added.leader groups ?_
    rw [addThread_groupLeader]
    exact ⟨leaderExists, stillLeader.mpr isLeader⟩
  · intro other task isOther isLeader'
    obtain ⟨different, isOld, wasLeader⟩ := leader_of_addThread groups unused leaderOld isOther isLeader'
    by_cases here : other = leader
    · rw [here, addThread_threads_self leaderOld, List.mem_append, List.mem_singleton,
        groups.mem_threads isTask isLeader]
      by_cases isNew : task = new
      · rw [isNew, addThread_groupLeader]
        exact ⟨fun _ => ⟨added.exists_new, rfl, Ne.symm leaderOld⟩, fun _ => Or.inr rfl⟩
      · rw [added.exists_iff isNew, added.groupLeader isNew, or_iff_left isNew]
    · rw [addThread_threads_of_ne different here]
      by_cases isNew : task = new
      · rw [isNew, addThread_groupLeader]
        exact ⟨fun listed => absurd listed (notListed isOld wasLeader),
          fun ⟨_, same, _⟩ => absurd same.symm here⟩
      · rw [added.exists_iff isNew, added.groupLeader isNew]
        exact groups.mem_threads isOld wasLeader
  · intro other isOther isLeader'
    obtain ⟨different, isOld, wasLeader⟩ := leader_of_addThread groups unused leaderOld isOther isLeader'
    by_cases here : other = leader
    · rw [here, addThread_threads_self leaderOld]
      exact nodup_concat (groups.nodup_threads isTask isLeader) (notListed isTask isLeader)
    · rw [addThread_threads_of_ne different here]
      exact groups.nodup_threads isOld wasLeader
  · intro other isLeader' isDead
    have isOther : (s.addThread new leader realParent).Exists other := exists_of_stage isDead (by decide)
    obtain ⟨different, _, wasLeader⟩ := leader_of_addThread groups unused leaderOld isOther isLeader'
    rw [added.stage different] at isDead
    have notHere : other ≠ leader := by
      rintro rfl
      exact alive isDead
    rw [addThread_threads_of_ne different notHere]
    exact groups.dead_alone wasLeader isDead

theorem LinksInv.lists_addThread (inv : LinksInv s rank) (unused : s.stage new = .unused)
    (different : leader ≠ new) : Lists (s.addThread new leader realParent) := by
  have added := added_addThread unused leader realParent
  have noLeader : ¬(s.addThread new leader realParent).IsLeader new := not_isLeader_addThread different
  have children : (s.addThread new leader realParent).children = s.children :=
    inv.children_unused unused
  refine ⟨?_, inv.lists.nodup_tasks, ?_, ?_⟩
  · intro task
    by_cases isNew : task = new
    · rw [isNew]
      refine ⟨fun listed => ?_, fun ⟨_, isLeader, _⟩ => absurd isLeader noLeader⟩
      exact absurd unused (inv.lists.mem_tasks.mp listed).1
    · rw [added.exists_iff isNew, added.isLeader_iff isNew]
      exact inv.lists.mem_tasks
  · intro owner child
    rw [children]
    by_cases isNew : child = new
    · rw [isNew]
      refine ⟨fun listed => ?_, fun ⟨_, isLeader, _⟩ => absurd isLeader noLeader⟩
      exact absurd unused (inv.lists.mem_children.mp listed).1
    · rw [added.exists_iff isNew, added.isLeader_iff isNew, added.sibling isNew]
      exact inv.lists.mem_children
  · rw [children]
    exact inv.lists.nodup_children

/-- A new thread in the group of a leader that is not dead. -/
theorem LinksInv.addThread (inv : LinksInv s rank) (unused : s.stage new = .unused)
    (isTask : s.Exists leader) (isLeader : s.IsLeader leader) (notInit : leader ≠ initTask)
    (alive : s.stage leader ≠ .dead) :
    LinksInv (s.addThread new leader (s.realParent leader)) (Function.update rank new (rank leader)) := by
  have added := added_addThread unused leader (s.realParent leader)
  have leaderOld := ne_of_unused unused isTask
  have attached := inv.attached isTask notInit alive
  have parents := inv.parents.parents isTask attached
  have reaperOld := ne_of_unused unused (exists_of_parents inv.parents.reaper)
  refine ⟨inv.groups.addThread unused isTask isLeader notInit alive,
    inv.lists_addThread unused leaderOld, ?_, ?_⟩
  · refine added.parents inv.groups inv.parents ?_ ?_ ?_ ?_
    · rw [addThread_realParent, addThread_groupLeader, added.realParent leaderOld]
    · exact fun isLeader' => absurd isLeader' (not_isLeader_addThread leaderOld)
    · rw [addThread_realParent]
      exact added.stage_parents parents
    · exact added.stage_parents inv.parents.reaper
  · refine added.ranked inv.groups inv.parents inv.ranked (rank leader) ?_ ?_ ?_ ?_
    · intro _
      rw [addThread_groupLeader]
    · rw [addThread_realParent]
      exact ne_of_unused unused (exists_of_parents parents)
    · rw [addThread_realParent]
      exact inv.ranked.lt isTask attached
    · exact Nat.le_trans (Nat.le_of_eq (Function.update_of_ne reaperOld _ _)) inv.ranked.reaper

end Thread

/-! ### A new process -/

section Process

variable {s : TaskLinks} {rank : TaskId → Nat} {new realParent reaper : TaskId}

theorem addProcess_groupLeader : (s.addProcess new realParent reaper).groupLeader new = new :=
  Function.update_self _ _ _

theorem addProcess_realParent : (s.addProcess new realParent reaper).realParent new = realParent :=
  Function.update_self _ _ _

theorem addProcess_sibling : (s.addProcess new realParent reaper).sibling new = some realParent :=
  Function.update_self _ _ _

theorem addProcess_threads_self : (s.addProcess new realParent reaper).threads new = [] :=
  Function.update_self _ _ _

theorem addProcess_threads_of_ne {other : TaskId} (different : other ≠ new) :
    (s.addProcess new realParent reaper).threads other = s.threads other :=
  Function.update_of_ne different _ _

theorem Groups.addProcess (groups : Groups s) (unused : s.stage new = .unused) :
    Groups (s.addProcess new realParent reaper) := by
  have added := added_addProcess unused realParent reaper
  have initOld := added.init groups
  have notMember : ∀ {task}, s.Exists task → s.groupLeader task ≠ new :=
    fun isTask => ne_of_unused unused (groups.leader isTask).1
  refine ⟨?_, ?_, ?_, ?_, ?_⟩
  · rw [added.stage initOld, added.isLeader_iff initOld, addProcess_threads_of_ne initOld]
    exact groups.init
  · refine added.leader groups ?_
    rw [addProcess_groupLeader]
    exact ⟨added.exists_new, addProcess_groupLeader⟩
  · intro leader task isOther isLeader
    by_cases isNew : task = new
    · -- the new task is a thread of nobody
      rw [isNew, addProcess_groupLeader]
      refine ⟨fun listed => ?_, fun ⟨_, same, different⟩ => absurd same different⟩
      rcases added.cases isOther with rfl | isOld
      · rw [addProcess_threads_self] at listed
        cases listed
      · obtain ⟨different, _, _, _, sameLeader, _⟩ := added.old groups isOld
        rw [addProcess_threads_of_ne different] at listed
        exact absurd unused ((groups.mem_threads isOld (sameLeader.mp isLeader)).mp listed).1
    · rw [added.exists_iff isNew, added.groupLeader isNew]
      rcases added.cases isOther with rfl | isOld
      · rw [addProcess_threads_self]
        exact ⟨fun listed => absurd listed List.not_mem_nil,
          fun ⟨isTask, same, _⟩ => absurd same (notMember isTask)⟩
      · obtain ⟨different, _, _, _, sameLeader, _⟩ := added.old groups isOld
        rw [addProcess_threads_of_ne different]
        exact groups.mem_threads isOld (sameLeader.mp isLeader)
  · intro leader isOther isLeader
    rcases added.cases isOther with rfl | isOld
    · rw [addProcess_threads_self]
      exact List.nodup_nil
    · obtain ⟨different, _, _, _, sameLeader, _⟩ := added.old groups isOld
      rw [addProcess_threads_of_ne different]
      exact groups.nodup_threads isOld (sameLeader.mp isLeader)
  · intro leader isLeader isDead
    by_cases isNew : leader = new
    · rw [isNew, addProcess_threads_self]
    · rw [added.stage isNew] at isDead
      rw [addProcess_threads_of_ne isNew]
      exact groups.dead_alone ((added.isLeader_iff isNew).mp isLeader) isDead

theorem LinksInv.lists_addProcess (inv : LinksInv s rank) (unused : s.stage new = .unused)
    (notInit : new ≠ initTask) : Lists (s.addProcess new realParent reaper) := by
  have added := added_addProcess unused realParent reaper
  have notListed : ∀ owner, new ∉ s.children owner := fun owner listed =>
    (inv.lists.mem_children.mp listed).1 unused
  have children : (s.addProcess new realParent reaper).children =
      Function.update s.children realParent (s.children realParent ++ [new]) := by
    simp only [TaskLinks.addProcess, inv.children_unused unused]
  refine ⟨?_, ?_, ?_, ?_⟩
  · intro task
    rw [show (s.addProcess new realParent reaper).tasks = s.tasks ++ [new] from rfl, List.mem_append,
      List.mem_singleton]
    by_cases isNew : task = new
    · rw [isNew]
      exact ⟨fun _ => ⟨added.exists_new, addProcess_groupLeader, notInit⟩, fun _ => Or.inr rfl⟩
    · rw [added.exists_iff isNew, added.isLeader_iff isNew, or_iff_left isNew]
      exact inv.lists.mem_tasks
  · exact nodup_concat inv.lists.nodup_tasks fun listed => (inv.lists.mem_tasks.mp listed).1 unused
  · intro owner child
    rw [children]
    by_cases isNew : child = new
    · rw [isNew, addProcess_sibling, Option.some.injEq]
      by_cases here : owner = realParent
      · rw [here, Function.update_self]
        exact ⟨fun _ => ⟨added.exists_new, addProcess_groupLeader, rfl⟩,
          fun _ => List.mem_append_right _ List.mem_cons_self⟩
      · rw [Function.update_of_ne here]
        exact ⟨fun listed => absurd listed (notListed owner), fun ⟨_, _, same⟩ => absurd same.symm here⟩
    · rw [added.exists_iff isNew, added.isLeader_iff isNew, added.sibling isNew,
        ← inv.lists.mem_children]
      by_cases here : owner = realParent
      · rw [here, Function.update_self, List.mem_append, List.mem_singleton, or_iff_left isNew]
      · rw [Function.update_of_ne here]
  · intro owner
    rw [children]
    by_cases here : owner = realParent
    · rw [here, Function.update_self]
      exact nodup_concat (inv.lists.nodup_children _) (notListed _)
    · rw [Function.update_of_ne here]
      exact inv.lists.nodup_children owner

/-- A new process on the children list of a task that may have children. If it is the first one, it
becomes the child reaper. -/
theorem LinksInv.addProcess (inv : LinksInv s rank) (unused : s.stage new = .unused)
    (parents : (s.stage realParent).parents = true)
    (reaperCases : reaper = s.childReaper ∨ reaper = new ∧ realParent = initTask) :
    LinksInv (s.addProcess new realParent reaper)
      (Function.update rank new (rank realParent + 1)) := by
  have added := added_addProcess unused realParent reaper
  have notInit := Ne.symm (added.init inv.groups)
  have parentOld := ne_of_unused unused (exists_of_parents parents)
  refine ⟨inv.groups.addProcess unused, inv.lists_addProcess unused notInit, ?_, ?_⟩
  · refine added.parents inv.groups inv.parents ?_ (fun _ => ?_) ?_ ?_
    · rw [addProcess_groupLeader]
    · rw [addProcess_sibling, addProcess_realParent]
    · rw [addProcess_realParent]
      exact added.stage_parents parents
    · rcases reaperCases with same | ⟨isNew, _⟩
      · rw [show (s.addProcess new realParent reaper).childReaper = s.childReaper from same]
        exact added.stage_parents inv.parents.reaper
      · rw [show (s.addProcess new realParent reaper).childReaper = new from isNew, added.running]
        rfl
  · refine added.ranked inv.groups inv.parents inv.ranked (rank realParent + 1) ?_ ?_ ?_ ?_
    · exact fun different => absurd addProcess_groupLeader different
    · rw [addProcess_realParent]
      exact parentOld
    · rw [addProcess_realParent]
      exact Nat.lt_succ_self _
    · rcases reaperCases with same | ⟨isNew, isInit⟩
      · have reaperOld := ne_of_unused unused (exists_of_parents inv.parents.reaper)
        rw [show (s.addProcess new realParent reaper).childReaper = s.childReaper from same,
          Function.update_of_ne reaperOld]
        exact inv.ranked.reaper
      · have lowest : rank realParent = 0 := by
          rw [isInit]
          exact inv.ranked.init
        rw [show (s.addProcess new realParent reaper).childReaper = new from isNew, Function.update_self]
        omega

end Process

/-! ### A child gets another real parent -/

namespace TaskLinks

/-- The links with a child moved from one children list to the end of another, and with the new owner as
the real parent of its group. -/
def move (s : TaskLinks) (father reaper child : TaskId) : TaskLinks :=
  let children := Function.update s.children father ((s.children father).erase child)
  { s with
    realParent := fun task => if task ∈ s.members child then reaper else s.realParent task
    children := Function.update children reaper (children reaper ++ [child])
    sibling := Function.update (Function.update s.sibling child none) child (some reaper) }

end TaskLinks

section Move

variable {s : TaskLinks} {rank : TaskId → Nat} {father reaper child : TaskId}

/-- The group of a leader. -/
theorem Groups.mem_members (groups : Groups s) (isTask : s.Exists child) (isLeader : s.IsLeader child)
    {task : TaskId} (present : s.Exists task) : task ∈ s.members child ↔ s.groupLeader task = child := by
  rw [TaskLinks.members, List.mem_cons, groups.mem_threads isTask isLeader]
  by_cases same : task = child
  · rw [same]
    exact ⟨fun _ => isLeader, fun _ => Or.inl rfl⟩
  · rw [or_iff_right same]
    exact ⟨fun ⟨_, isMember, _⟩ => isMember, fun isMember => ⟨present, isMember, same⟩⟩

theorem move_sibling_of_ne {other : TaskId} (different : other ≠ child) :
    (s.move father reaper child).sibling other = s.sibling other :=
  (Function.update_of_ne different _ _).trans (Function.update_of_ne different _ _)

theorem move_sibling_self : (s.move father reaper child).sibling child = some reaper :=
  Function.update_self _ _ _

theorem move_children_father (different : reaper ≠ father) :
    (s.move father reaper child).children father = (s.children father).erase child := by
  simp only [TaskLinks.move, Function.update_of_ne (Ne.symm different), Function.update_self]

theorem move_children_reaper (different : reaper ≠ father) :
    (s.move father reaper child).children reaper = s.children reaper ++ [child] := by
  simp only [TaskLinks.move, Function.update_self, Function.update_of_ne different]

theorem move_children_of_ne {owner : TaskId} (notFather : owner ≠ father) (notReaper : owner ≠ reaper) :
    (s.move father reaper child).children owner = s.children owner := by
  simp only [TaskLinks.move, Function.update_of_ne notReaper, Function.update_of_ne notFather]

/-- The real parent of a task after the move. -/
theorem Groups.move_realParent (groups : Groups s) (isTask : s.Exists child)
    (isLeader : s.IsLeader child) {task : TaskId} (present : s.Exists task) :
    (s.move father reaper child).realParent task =
      if s.groupLeader task = child then reaper else s.realParent task := by
  by_cases isMember : s.groupLeader task = child
  · rw [if_pos isMember]
    exact if_pos ((groups.mem_members isTask isLeader present).mpr isMember)
  · rw [if_neg isMember]
    exact if_neg fun listed => isMember ((groups.mem_members isTask isLeader present).mp listed)

theorem Lists.move (lists : Lists s) (listed : child ∈ s.children father)
    (different : reaper ≠ father) : Lists (s.move father reaper child) := by
  obtain ⟨isTask, isLeader, linked⟩ := lists.mem_children.mp listed
  have onlyFather : ∀ {owner}, child ∈ s.children owner → owner = father := by
    intro owner inOwner
    have linkedThere := (lists.mem_children.mp inOwner).2.2
    rw [linked] at linkedThere
    exact (Option.some.inj linkedThere).symm
  refine ⟨lists.mem_tasks, lists.nodup_tasks, ?_, ?_⟩
  · intro owner other
    by_cases isChild : other = child
    · rw [isChild, move_sibling_self, Option.some.injEq]
      by_cases atReaper : owner = reaper
      · rw [atReaper, move_children_reaper different]
        exact ⟨fun _ => ⟨isTask, isLeader, rfl⟩, fun _ => List.mem_append_right _ List.mem_cons_self⟩
      · refine ⟨fun inOwner => ?_, fun ⟨_, _, same⟩ => absurd same.symm atReaper⟩
        by_cases atFather : owner = father
        · rw [atFather, move_children_father different] at inOwner
          exact absurd inOwner (lists.nodup_children father).not_mem_erase
        · rw [move_children_of_ne atFather atReaper] at inOwner
          exact absurd (onlyFather inOwner) atFather
    · rw [move_sibling_of_ne isChild]
      refine Iff.trans ?_ lists.mem_children
      by_cases atReaper : owner = reaper
      · rw [atReaper, move_children_reaper different, List.mem_append, List.mem_singleton,
          or_iff_left isChild]
      · by_cases atFather : owner = father
        · rw [atFather, move_children_father different, List.mem_erase_of_ne isChild]
        · rw [move_children_of_ne atFather atReaper]
  · intro owner
    by_cases atReaper : owner = reaper
    · rw [atReaper, move_children_reaper different]
      exact nodup_concat (lists.nodup_children reaper) fun there => different (onlyFather there)
    · by_cases atFather : owner = father
      · rw [atFather, move_children_father different]
        exact (lists.nodup_children father).erase child
      · rw [move_children_of_ne atFather atReaper]
        exact lists.nodup_children owner

/-- A child is handed over to a task that may have children and that has a lower rank. -/
theorem LinksInv.move (inv : LinksInv s rank) (listed : child ∈ s.children father)
    (different : reaper ≠ father) (parents : (s.stage reaper).parents = true)
    (lower : rank reaper < rank child) : LinksInv (s.move father reaper child) rank := by
  obtain ⟨isTask, isLeader, linked⟩ := inv.lists.mem_children.mp listed
  have handed : ∀ {task}, s.Exists task → (s.move father reaper child).realParent task =
      if s.groupLeader task = child then reaper else s.realParent task :=
    fun present => inv.groups.move_realParent isTask isLeader present
  have notInit : child ≠ initTask := by
    rintro rfl
    rw [inv.parents.init.2] at linked
    cases linked
  -- a task of another group is attached if it was
  have attached : ∀ {task}, s.groupLeader task ≠ child →
      ((s.move father reaper child).Attached task ↔ s.Attached task) := by
    intro task notMember
    rw [TaskLinks.Attached, TaskLinks.Attached]
    exact iff_of_eq (congrArg (· ≠ none) (move_sibling_of_ne notMember))
  refine ⟨⟨inv.groups.init, inv.groups.leader, inv.groups.mem_threads, inv.groups.nodup_threads,
    inv.groups.dead_alone⟩, inv.lists.move listed different, ⟨⟨?_, ?_⟩, ?_, ?_, ?_, ?_,
    inv.parents.reaper⟩, ⟨inv.ranked.init, inv.ranked.same, ?_, inv.ranked.reaper⟩⟩
  · rw [handed inv.groups.exists_init, inv.groups.init.2.1, if_neg (Ne.symm notInit)]
    exact inv.parents.init.1
  · rw [move_sibling_of_ne (Ne.symm notInit)]
    exact inv.parents.init.2
  · intro task present
    obtain ⟨leaderExists, leaderLeads⟩ := inv.groups.leader present
    rw [handed present, show (s.move father reaper child).groupLeader task = s.groupLeader task from rfl,
      handed leaderExists, leaderLeads, inv.parents.same present]
  · intro task owner present leads linkedThere
    have leadsItself : s.groupLeader task = task := leads
    rw [handed present, leadsItself]
    by_cases same : task = child
    · rw [same, move_sibling_self] at linkedThere
      rw [if_pos same]
      exact Option.some.inj linkedThere
    · rw [move_sibling_of_ne same] at linkedThere
      rw [if_neg same]
      exact inv.parents.owner present leads linkedThere
  · intro task present leads taskNotInit unlinked
    have notChild : task ≠ child := by
      rintro rfl
      rw [move_sibling_self] at unlinked
      cases unlinked
    rw [move_sibling_of_ne notChild] at unlinked
    exact inv.parents.unlinked present leads taskNotInit unlinked
  · intro task present isAttached
    rw [handed present]
    split
    · exact parents
    · rename_i notMember
      exact inv.parents.parents present ((attached notMember).mp isAttached)
  · intro task present isAttached
    rw [handed present]
    split
    · rename_i isMember
      rw [inv.ranked.same present, isMember]
      exact lower
    · rename_i notMember
      exact inv.ranked.lt present ((attached notMember).mp isAttached)

end Move

/-! ### A dead child is taken off its list -/

namespace TaskLinks

/-- The links without a child on a children list. -/
def unlink (s : TaskLinks) (owner child : TaskId) : TaskLinks :=
  { s with
    children := Function.update s.children owner ((s.children owner).erase child)
    sibling := Function.update s.sibling child none }

end TaskLinks

section Unlink

variable {s : TaskLinks} {rank : TaskId → Nat} {owner child : TaskId}

theorem Lists.unlink (lists : Lists s) (listed : child ∈ s.children owner) :
    Lists (s.unlink owner child) := by
  obtain ⟨_, _, linked⟩ := lists.mem_children.mp listed
  have here : (s.unlink owner child).children owner = (s.children owner).erase child :=
    Function.update_self _ _ _
  have elsewhere : ∀ {other}, other ≠ owner → (s.unlink owner child).children other = s.children other :=
    fun different => Function.update_of_ne different _ _
  refine ⟨lists.mem_tasks, lists.nodup_tasks, ?_, ?_⟩
  · intro other task
    by_cases isChild : task = child
    · have noLink : (s.unlink owner child).sibling child = none := Function.update_self _ _ _
      rw [isChild, noLink]
      refine ⟨fun inOther => ?_, fun ⟨_, _, unlinked⟩ => by cases unlinked⟩
      by_cases same : other = owner
      · rw [same, here] at inOther
        exact absurd inOther (lists.nodup_children owner).not_mem_erase
      · rw [elsewhere same] at inOther
        have linkedThere := (lists.mem_children.mp inOther).2.2
        rw [linked] at linkedThere
        exact absurd (Option.some.inj linkedThere).symm same
    · rw [show (s.unlink owner child).sibling task = s.sibling task from
        Function.update_of_ne isChild _ _]
      refine Iff.trans ?_ lists.mem_children
      by_cases same : other = owner
      · rw [same, here, List.mem_erase_of_ne isChild]
      · rw [elsewhere same]
  · intro other
    by_cases same : other = owner
    · rw [same, here]
      exact (lists.nodup_children owner).erase child
    · rw [elsewhere same]
      exact lists.nodup_children other

theorem LinksInv.unlink (inv : LinksInv s rank) (listed : child ∈ s.children owner)
    (isDead : s.stage child = .dead) : LinksInv (s.unlink owner child) rank := by
  obtain ⟨isTask, isLeader, linked⟩ := inv.lists.mem_children.mp listed
  have notInit : child ≠ initTask := by
    rintro rfl
    rw [inv.parents.init.2] at linked
    cases linked
  have noLink : (s.unlink owner child).sibling child = none := Function.update_self _ _ _
  have others : ∀ {task}, task ≠ child → (s.unlink owner child).sibling task = s.sibling task :=
    fun different => Function.update_of_ne different _ _
  have attached : ∀ {task}, (s.unlink owner child).Attached task → s.Attached task := by
    intro task isAttached
    have notMember : s.groupLeader task ≠ child := by
      intro isMember
      refine isAttached ?_
      rw [show (s.unlink owner child).groupLeader task = child from isMember]
      exact noLink
    rw [TaskLinks.Attached, ← others notMember]
    exact isAttached
  refine ⟨⟨inv.groups.init, inv.groups.leader, inv.groups.mem_threads, inv.groups.nodup_threads,
    inv.groups.dead_alone⟩, inv.lists.unlink listed, ⟨⟨inv.parents.init.1, ?_⟩, inv.parents.same, ?_, ?_,
    ?_, inv.parents.reaper⟩, ⟨inv.ranked.init, inv.ranked.same, ?_, inv.ranked.reaper⟩⟩
  · rw [others (Ne.symm notInit)]
    exact inv.parents.init.2
  · intro task other present leads linkedThere
    have notChild : task ≠ child := by
      rintro rfl
      rw [noLink] at linkedThere
      cases linkedThere
    rw [others notChild] at linkedThere
    exact inv.parents.owner present leads linkedThere
  · intro task present leads taskNotInit unlinked
    by_cases same : task = child
    · rw [same]
      exact isDead
    · rw [others same] at unlinked
      exact inv.parents.unlinked present leads taskNotInit unlinked
  · exact fun present isAttached => inv.parents.parents present (attached isAttached)
  · exact fun present isAttached => inv.ranked.lt present (attached isAttached)

end Unlink

/-! ### A dead task is released -/

namespace TaskLinks

/-- The links without a leader that stands on no children list. -/
def removeLeader (s : TaskLinks) (task : TaskId) : TaskLinks :=
  { s with tasks := s.tasks.erase task, stage := Function.update s.stage task .unused }

/-- The links without a thread. -/
def removeThread (s : TaskLinks) (leader task : TaskId) : TaskLinks :=
  { s with
    threads := Function.update s.threads leader ((s.threads leader).erase task)
    stage := Function.update s.stage task .unused }

end TaskLinks

section Remove

variable {s after : TaskLinks} {rank : TaskId → Nat} {task : TaskId}

/-- A leader is not the task that is none. -/
theorem ne_of_isLeader {other : TaskId} (isThread : ¬s.IsLeader task) (leads : s.IsLeader other) :
    other ≠ task := by
  rintro rfl
  exact isThread leads

/-- The links without a dead task. -/
structure Removed (task : TaskId) (s after : TaskLinks) : Prop where
  dead : s.stage task = .dead
  stage : after.stage = Function.update s.stage task .unused
  groupLeader : after.groupLeader = s.groupLeader
  realParent : after.realParent = s.realParent
  sibling : after.sibling = s.sibling
  childReaper : after.childReaper = s.childReaper

namespace Removed

variable {other : TaskId}

theorem stage_of_ne (removed : Removed task s after) (different : other ≠ task) :
    after.stage other = s.stage other := by
  rw [removed.stage, Function.update_of_ne different]

theorem exists_iff (removed : Removed task s after) :
    after.Exists other ↔ other ≠ task ∧ s.Exists other := by
  by_cases same : other = task
  · rw [TaskLinks.Exists, same, removed.stage, Function.update_self]
    exact ⟨fun absurdity => absurd rfl absurdity, fun both => absurd rfl both.1⟩
  · rw [TaskLinks.Exists, removed.stage_of_ne same]
    exact (and_iff_right same).symm

/-- What is said about tasks other than the removed one is said about the same tasks. -/
theorem exists_and_iff (removed : Removed task s after) {fact : Prop} (excludes : fact → other ≠ task) :
    after.Exists other ∧ fact ↔ s.Exists other ∧ fact := by
  rw [removed.exists_iff]
  constructor
  · rintro ⟨⟨_, there⟩, holds⟩
    exact ⟨there, holds⟩
  · rintro ⟨there, holds⟩
    exact ⟨⟨excludes holds, there⟩, holds⟩

theorem isLeader_iff (removed : Removed task s after) : after.IsLeader other ↔ s.IsLeader other := by
  rw [TaskLinks.IsLeader, removed.groupLeader, TaskLinks.IsLeader]

theorem attached_iff (removed : Removed task s after) : after.Attached other ↔ s.Attached other := by
  rw [TaskLinks.Attached, removed.groupLeader, removed.sibling, TaskLinks.Attached]

theorem not_parents (removed : Removed task s after) : (s.stage task).parents = false := by
  rw [removed.dead]
  rfl

theorem parents (removed : Removed task s after) (inv : LinksInv s rank) :
    Parents after ∧ Ranked after rank := by
  have reaperNe := inv.reaper_ne removed.not_parents
  refine ⟨⟨?_, ?_, ?_, ?_, ?_, ?_⟩, ⟨inv.ranked.init, ?_, ?_, ?_⟩⟩
  · rw [removed.realParent, removed.sibling]
    exact inv.parents.init
  · intro other isOther
    rw [removed.realParent, removed.groupLeader]
    exact inv.parents.same (removed.exists_iff.mp isOther).2
  · intro other owner isOther isLeader linked
    rw [removed.sibling] at linked
    rw [removed.realParent]
    exact inv.parents.owner (removed.exists_iff.mp isOther).2 (removed.isLeader_iff.mp isLeader) linked
  · intro other isOther isLeader notInit unlinked
    obtain ⟨different, existed⟩ := removed.exists_iff.mp isOther
    rw [removed.sibling] at unlinked
    rw [removed.stage_of_ne different]
    exact inv.parents.unlinked existed (removed.isLeader_iff.mp isLeader) notInit unlinked
  · intro other isOther attached
    obtain ⟨_, existed⟩ := removed.exists_iff.mp isOther
    have wasAttached := removed.attached_iff.mp attached
    rw [removed.realParent, removed.stage_of_ne
      (inv.realParent_ne removed.not_parents existed wasAttached)]
    exact inv.parents.parents existed wasAttached
  · rw [removed.childReaper, removed.stage_of_ne reaperNe]
    exact inv.parents.reaper
  · intro other isOther
    rw [removed.groupLeader]
    exact inv.ranked.same (removed.exists_iff.mp isOther).2
  · intro other isOther attached
    rw [removed.realParent]
    exact inv.ranked.lt (removed.exists_iff.mp isOther).2 (removed.attached_iff.mp attached)
  · rw [removed.childReaper]
    exact inv.ranked.reaper

end Removed

/-- A dead leader that has been taken off its list. -/
theorem LinksInv.removeLeader (inv : LinksInv s rank) (isLeader : s.IsLeader task)
    (isDead : s.stage task = .dead) (unlinked : s.sibling task = none) :
    LinksInv (s.removeLeader task) rank := by
  have removed : Removed task s (s.removeLeader task) := ⟨isDead, rfl, rfl, rfl, rfl, rfl⟩
  obtain ⟨parents, ranked⟩ := removed.parents inv
  have isTask : s.Exists task := exists_of_stage isDead (by decide)
  have notInit : task ≠ initTask := inv.groups.ne_init isDead (by decide)
  -- the group is empty, so nobody else has this leader
  have notLeader : ∀ {other}, other ≠ task → s.Exists other → s.groupLeader other ≠ task := by
    intro other different isOther isMember
    have listed := (inv.groups.mem_threads isTask isLeader).mpr ⟨isOther, isMember, different⟩
    rw [inv.groups.dead_alone isLeader isDead] at listed
    cases listed
  refine ⟨⟨⟨?_, inv.groups.init.2⟩, ?_, ?_, ?_, ?_⟩, ⟨?_, ?_, ?_, inv.lists.nodup_children⟩, parents,
    ranked⟩
  · rw [removed.stage_of_ne (Ne.symm notInit)]
    exact inv.groups.init.1
  · intro other isOther
    obtain ⟨different, existed⟩ := removed.exists_iff.mp isOther
    obtain ⟨leaderExisted, leads⟩ := inv.groups.leader existed
    exact ⟨removed.exists_iff.mpr ⟨notLeader different existed, leaderExisted⟩, leads⟩
  · intro leader other isOther leads
    obtain ⟨different, existed⟩ := removed.exists_iff.mp isOther
    refine (inv.groups.mem_threads existed leads).trans (removed.exists_and_iff ?_).symm
    rintro ⟨isMember, _⟩ rfl
    exact different (isMember.symm.trans isLeader)
  · intro leader isOther leads
    exact inv.groups.nodup_threads (removed.exists_iff.mp isOther).2 leads
  · intro leader leads leaderDead
    have different : leader ≠ task := by
      rintro rfl
      rw [removed.stage, Function.update_self] at leaderDead
      cases leaderDead
    rw [removed.stage_of_ne different] at leaderDead
    exact inv.groups.dead_alone leads leaderDead
  · intro other
    rw [removed.exists_iff]
    refine (inv.lists.nodup_tasks.mem_erase_iff).trans ?_
    rw [inv.lists.mem_tasks, and_assoc]
    rfl
  · exact inv.lists.nodup_tasks.erase task
  · intro owner child
    refine inv.lists.mem_children.trans (removed.exists_and_iff ?_).symm
    rintro ⟨_, linked⟩ rfl
    rw [unlinked] at linked
    cases linked

/-- The groups without a dead thread. -/
theorem Groups.removeThread (groups : Groups s) (isThread : ¬s.IsLeader task)
    (removed : Removed task s (s.removeThread (s.groupLeader task) task)) :
    Groups (s.removeThread (s.groupLeader task) task) := by
  obtain ⟨leaderExists, isLeader⟩ := groups.leader (exists_of_stage removed.dead (by decide))
  have here : (s.removeThread (s.groupLeader task) task).threads (s.groupLeader task) =
      (s.threads (s.groupLeader task)).erase task := Function.update_self _ _ _
  have elsewhere : ∀ {other}, other ≠ s.groupLeader task →
      (s.removeThread (s.groupLeader task) task).threads other = s.threads other :=
    fun different => Function.update_of_ne different _ _
  -- a list that was empty stays empty
  have stillEmpty : ∀ {leader}, s.threads leader = [] →
      (s.removeThread (s.groupLeader task) task).threads leader = [] := by
    intro leader empty
    by_cases same : leader = s.groupLeader task
    · rw [same] at empty
      rw [same, here, empty]
      rfl
    · rw [elsewhere same]
      exact empty
  refine ⟨⟨?_, groups.init.2.1, stillEmpty groups.init.2.2⟩, ?_, ?_, ?_, ?_⟩
  · rw [removed.stage_of_ne (ne_of_isLeader isThread groups.init.2.1)]
    exact groups.init.1
  · intro other isOther
    obtain ⟨_, existed⟩ := removed.exists_iff.mp isOther
    obtain ⟨leaderExisted, leads⟩ := groups.leader existed
    exact ⟨removed.exists_iff.mpr ⟨ne_of_isLeader isThread leads, leaderExisted⟩, leads⟩
  · intro leader other isOther leads
    obtain ⟨_, existed⟩ := removed.exists_iff.mp isOther
    by_cases same : leader = s.groupLeader task
    · rw [removed.exists_iff, removed.groupLeader, same, here,
        (groups.nodup_threads leaderExists isLeader).mem_erase_iff,
        groups.mem_threads leaderExists isLeader, and_assoc]
    · rw [elsewhere same]
      refine (groups.mem_threads existed leads).trans (removed.exists_and_iff ?_).symm
      rintro ⟨isMember, _⟩ rfl
      exact same isMember.symm
  · intro leader isOther leads
    obtain ⟨_, existed⟩ := removed.exists_iff.mp isOther
    by_cases same : leader = s.groupLeader task
    · rw [same, here]
      exact (groups.nodup_threads leaderExists isLeader).erase task
    · rw [elsewhere same]
      exact groups.nodup_threads existed leads
  · intro leader leads leaderDead
    rw [removed.stage_of_ne (ne_of_isLeader isThread leads)] at leaderDead
    exact stillEmpty (groups.dead_alone leads leaderDead)

/-- A dead thread. -/
theorem LinksInv.removeThread (inv : LinksInv s rank) (isThread : ¬s.IsLeader task)
    (isDead : s.stage task = .dead) : LinksInv (s.removeThread (s.groupLeader task) task) rank := by
  have removed : Removed task s (s.removeThread (s.groupLeader task) task) :=
    ⟨isDead, rfl, rfl, rfl, rfl, rfl⟩
  obtain ⟨parents, ranked⟩ := removed.parents inv
  refine ⟨inv.groups.removeThread isThread removed, ⟨?_, inv.lists.nodup_tasks, ?_,
    inv.lists.nodup_children⟩, parents, ranked⟩
  · intro other
    exact inv.lists.mem_tasks.trans
      (removed.exists_and_iff fun facts => ne_of_isLeader isThread facts.1).symm
  · intro owner child
    exact inv.lists.mem_children.trans
      (removed.exists_and_iff fun facts => ne_of_isLeader isThread facts.1).symm

end Remove

/-! ### Another child reaper -/

/-- Another thread of init takes over. -/
theorem LinksInv.setReaper {s : TaskLinks} {rank : TaskId → Nat} (inv : LinksInv s rank) {thread : TaskId}
    (parents : (s.stage thread).parents = true) (group : s.SameThreadGroup thread s.childReaper) :
    LinksInv { s with childReaper := thread } rank := by
  refine ⟨⟨inv.groups.init, inv.groups.leader, inv.groups.mem_threads, inv.groups.nodup_threads,
    inv.groups.dead_alone⟩, ⟨inv.lists.mem_tasks, inv.lists.nodup_tasks, inv.lists.mem_children,
    inv.lists.nodup_children⟩, ⟨inv.parents.init, inv.parents.same, inv.parents.owner,
    inv.parents.unlinked, inv.parents.parents, parents⟩, ⟨inv.ranked.init, inv.ranked.same,
    inv.ranked.lt, ?_⟩⟩
  rw [inv.ranked.same (exists_of_parents parents), group,
    ← inv.ranked.same (exists_of_parents inv.parents.reaper)]
  exact inv.ranked.reaper

end KernelHacking.TaskTree
