/-
Module: KernelHacking.Proofs.PtreeRelations
Layer: Proofs
Purpose: What the relation fields of a `ptree` entry say about the tree that is walked. The walk follows the
  children lists and so the real parents, while `convert` reads `parent`, which a tracer takes over, and
  takes what stands behind the last task of a list for a task. In every state that is reached from boot,
  the parent of a task is its real parent unless it is traced, and then it is the tracer.
Imports: KernelHacking.Proofs.PtreeListing
Trusted boundary: none (fully proved)
Main exports: Tracing, Tracing.step, Reachable.tracing, TellsRelations, Plain, relations_told_iff,
  relations_told_pair, relations_mistold
Open obligations: none
-/
import KernelHacking.Proofs.PtreeListing

namespace KernelHacking.TaskTree

/-! ### Parents and tracers -/

/-- A task that may still trace others. -/
def Stage.traces : Stage → Bool
  | .running | .exiting => true
  | _ => false

/-- A task that is not traced has its real parent as parent; one that is traced has its tracer; pids are
those of one task. -/
structure Tracing (s : TaskState) : Prop where
  init : s.pid initTask = 0 ∧ s.ptrace initTask = false
  untraced : ∀ {task}, s.Exists task → s.ptrace task = false → s.parent task = some (s.realParent task)
  traced : ∀ {task}, s.Exists task → s.ptrace task = true →
    ∃ tracer, s.parent task = some tracer ∧ (s.stage tracer).traces = true
  pids : ∀ {first second}, s.Exists first → s.Exists second → s.pid first = s.pid second → first = second

section Tracing

variable {s : TaskState} {rank : TaskId → Nat}

theorem Tracing.boot (attributes : Attributes) : Tracing (bootTasks attributes) := by
  have only : ∀ {task}, (bootTasks attributes).Exists task → task = initTask := by
    intro task isTask
    by_contra other
    exact isTask (if_neg other)
  refine ⟨⟨rfl, rfl⟩, fun _ _ => rfl, ?_, ?_⟩
  · rintro task _ ⟨⟩
  · intro first second isFirst isSecond _
    rw [only isFirst, only isSecond]

theorem exists_of_traces {task : TaskId} (traces : (s.stage task).traces = true) : s.Exists task := by
  intro unused
  rw [unused] at traces
  cases traces

/-- A task that traces nobody any more is no tracer. -/
theorem Tracing.parent_ne (tracing : Tracing s) {task father : TaskId} (isTask : s.Exists task)
    (isTraced : s.ptrace task = true) (finished : (s.stage father).traces = false) :
    s.parent task ≠ some father := by
  intro isFather
  obtain ⟨tracer, isTracer, traces⟩ := tracing.traced isTask isTraced
  rw [isFather] at isTracer
  rw [← Option.some.inj isTracer, finished] at traces
  cases traces

/-- A task gets another stage. If it cannot trace from then on, it is nobody's tracer. -/
theorem Tracing.setStage (tracing : Tracing s) {task : TaskId} {stage : Stage} (isTask : s.Exists task)
    (finished : stage.traces = false →
      ∀ {other}, s.Exists other → s.ptrace other = true → s.parent other ≠ some task) :
    Tracing (s.setStage task stage) := by
  have before : ∀ {other}, (s.setStage task stage).Exists other → s.Exists other := by
    intro other isOther
    by_cases here : other = task
    · rw [here]
      exact isTask
    · rwa [TaskLinks.Exists, TaskState.toTaskLinks_setStage, TaskLinks.setStage_of_ne here] at isOther
  refine ⟨tracing.init, fun isOther => tracing.untraced (before isOther), ?_, fun isFirst isSecond =>
    tracing.pids (before isFirst) (before isSecond)⟩
  intro other isOther isTraced
  obtain ⟨tracer, isTracer, traces⟩ := tracing.traced (before isOther) isTraced
  refine ⟨tracer, isTracer, ?_⟩
  by_cases here : tracer = task
  · rw [here, TaskState.toTaskLinks_setStage, TaskLinks.setStage_self]
    by_contra stops
    exact finished (Bool.of_not_eq_true stops) (before isOther) isTraced (here ▸ isTracer)
  · rw [TaskState.toTaskLinks_setStage, TaskLinks.setStage_of_ne here]
    exact traces

/-- In particular if it could not trace before. -/
theorem Tracing.setStage_over (tracing : Tracing s) {task : TaskId} (stage : Stage)
    (isTask : s.Exists task) (finished : (s.stage task).traces = false) :
    Tracing (s.setStage task stage) :=
  tracing.setStage isTask fun _ _ isOther isTraced => tracing.parent_ne isOther isTraced finished

/-- `__ptrace_unlink`. -/
theorem Tracing.ptraceUnlink (tracing : Tracing s) (selected : TaskId → Bool) :
    Tracing (s.ptraceUnlink selected) := by
  refine ⟨⟨tracing.init.1, ?_⟩, ?_, ?_, tracing.pids⟩
  · show (if selected initTask then false else s.ptrace initTask) = false
    rw [tracing.init.2, ite_self]
  · intro task isTask isUntraced
    show (if selected task then some (s.realParent task) else s.parent task) = some (s.realParent task)
    by_cases isSelected : selected task = true
    · rw [if_pos isSelected]
    · rw [if_neg isSelected]
      exact tracing.untraced isTask ((if_neg isSelected).symm.trans isUntraced)
  · intro task isTask isTraced
    by_cases isSelected : selected task = true
    · exact absurd ((if_pos isSelected).symm.trans isTraced) (by decide)
    · obtain ⟨tracer, isTracer, traces⟩ :=
        tracing.traced isTask ((if_neg isSelected).symm.trans isTraced)
      exact ⟨tracer, (if_neg isSelected).trans isTracer, traces⟩

/-- `__ptrace_link`. -/
theorem Tracing.ptraceLink (tracing : Tracing s) {task tracer : TaskId} (notInit : task ≠ initTask)
    (traces : (s.stage tracer).traces = true) : Tracing (s.ptraceLink task tracer) := by
  refine ⟨⟨tracing.init.1, ?_⟩, ?_, ?_, tracing.pids⟩
  · exact (Function.update_of_ne (Ne.symm notInit) _ _).trans tracing.init.2
  · intro other isOther isUntraced
    by_cases here : other = task
    · rw [here, show (s.ptraceLink task tracer).ptrace task = true from Function.update_self _ _ _]
        at isUntraced
      cases isUntraced
    · refine (Function.update_of_ne here _ _).trans (tracing.untraced isOther ?_)
      exact (Function.update_of_ne here _ _).symm.trans isUntraced
  · intro other isOther isTraced
    by_cases here : other = task
    · rw [here]
      exact ⟨tracer, Function.update_self _ _ _, traces⟩
    · obtain ⟨otherTracer, isTracer, otherTraces⟩ :=
        tracing.traced isOther ((Function.update_of_ne here _ _).symm.trans isTraced)
      exact ⟨otherTracer, (Function.update_of_ne here _ _).trans isTracer, otherTraces⟩

end Tracing

/-! ### `copy_process` -/

section Fork

variable {s : TaskState} {rank : TaskId → Nat} {args : ForkArgs}

/-- The fields of a new task that are about its parents. -/
theorem copyProcess_fields (s : TaskState) (args : ForkArgs) :
    (copyProcess s args).stage = Function.update s.stage args.task .running ∧
      (copyProcess s args).pid = Function.update s.pid args.task args.pid ∧
      (copyProcess s args).realParent = Function.update s.realParent args.task (args.realParent s) ∧
      (copyProcess s args).parent = Function.update s.parent args.task
        (if args.trace && s.ptrace args.current then s.parent args.current
          else some (args.realParent s)) ∧
      (copyProcess s args).ptrace =
        Function.update s.ptrace args.task (args.trace && s.ptrace args.current) := by
  rw [copyProcess]
  split <;> exact ⟨rfl, rfl, rfl, rfl, rfl⟩

/-- Every task is a member of a group of the task list. -/
theorem LinksInv.mem_all (inv : LinksInv s.toTaskLinks rank) {task : TaskId} (isTask : s.Exists task) :
    task ∈ s.all := by
  obtain ⟨leaderExists, isLeader⟩ := inv.groups.leader isTask
  refine List.mem_flatMap.mpr ⟨s.groupLeader task, ?_,
    (inv.groups.mem_members leaderExists isLeader isTask).mpr rfl⟩
  by_cases isInit : s.groupLeader task = initTask
  · rw [isInit]
    exact List.mem_cons_self
  · exact List.mem_cons_of_mem _ (inv.lists.mem_tasks.mpr ⟨leaderExists, isLeader, isInit⟩)

theorem Tracing.copyProcess (tracing : Tracing s) (inv : LinksInv s.toTaskLinks rank)
    (can : CanFork s args) : Tracing (copyProcess s args) := by
  obtain ⟨isRunning, unused, _, fresh, _⟩ := can
  obtain ⟨stages, pids, realParents, parents, traces⟩ := copyProcess_fields s args
  have currentExists : s.Exists args.current := exists_of_stage isRunning (by decide)
  have before : ∀ {task}, task ≠ args.task → (TaskTree.copyProcess s args).Exists task →
      s.Exists task := by
    intro task isOld isTask
    rwa [TaskLinks.Exists, stages, Function.update_of_ne isOld] at isTask
  have stillTraces : ∀ {tracer}, (s.stage tracer).traces = true →
      ((TaskTree.copyProcess s args).stage tracer).traces = true := by
    intro tracer isTracer
    rw [stages, Function.update_of_ne (ne_of_unused unused (exists_of_traces isTracer))]
    exact isTracer
  have initOld := ne_of_unused unused inv.groups.exists_init
  refine ⟨?_, ?_, ?_, ?_⟩
  · rw [pids, traces, Function.update_of_ne initOld, Function.update_of_ne initOld]
    exact tracing.init
  · intro task isTask isUntraced
    rw [traces] at isUntraced
    rw [parents, realParents]
    by_cases isNew : task = args.task
    · rw [isNew, Function.update_self] at isUntraced
      rw [isNew, Function.update_self, Function.update_self, isUntraced, if_neg Bool.false_ne_true]
    · rw [Function.update_of_ne isNew] at isUntraced
      rw [Function.update_of_ne isNew, Function.update_of_ne isNew]
      exact tracing.untraced (before isNew isTask) isUntraced
  · intro task isTask isTraced
    rw [traces] at isTraced
    rw [parents]
    by_cases isNew : task = args.task
    · -- the new task has the tracer of the one that forks
      rw [isNew, Function.update_self] at isTraced
      rw [isNew, Function.update_self, if_pos isTraced]
      obtain ⟨tracer, isTracer, tracerTraces⟩ :=
        tracing.traced currentExists (Bool.and_eq_true_iff.mp isTraced).2
      exact ⟨tracer, isTracer, stillTraces tracerTraces⟩
    · rw [Function.update_of_ne isNew] at isTraced ⊢
      obtain ⟨tracer, isTracer, tracerTraces⟩ := tracing.traced (before isNew isTask) isTraced
      exact ⟨tracer, isTracer, stillTraces tracerTraces⟩
  · intro first second isFirst isSecond same
    rw [pids] at same
    by_cases firstNew : first = args.task
    · by_cases secondNew : second = args.task
      · rw [firstNew, secondNew]
      · rw [firstNew, Function.update_self, Function.update_of_ne secondNew] at same
        exact absurd same.symm (fresh second (inv.mem_all (before secondNew isSecond)))
    · by_cases secondNew : second = args.task
      · rw [secondNew, Function.update_self, Function.update_of_ne firstNew] at same
        exact absurd same (fresh first (inv.mem_all (before firstNew isFirst)))
      · rw [Function.update_of_ne firstNew, Function.update_of_ne secondNew] at same
        exact tracing.pids (before firstNew isFirst) (before secondNew isSecond) same

end Fork

/-! ### `forget_original_parent` -/

section Forget

variable {s : TaskState} {rank : TaskId → Nat} {father reaper child : TaskId} {ignoresSigchld : Bool}

/-- The fields that one round of the loop gives to the group of the child. -/
theorem reparentChild_fields (s : TaskState) (father reaper child : TaskId) (ignoresSigchld : Bool) :
    let after := reparentChild father reaper ignoresSigchld s child
    after.pid = s.pid ∧ after.ptrace = s.ptrace ∧
      (after.realParent = fun task => if task ∈ s.members child then reaper else s.realParent task) ∧
      after.parent = fun task =>
        if task ∈ s.members child ∧ s.parent task = some father then some reaper else s.parent task := by
  dsimp only
  rw [reparentChild]
  split <;> exact ⟨rfl, rfl, rfl, rfl⟩

/-- Of the stages, at most that of the child changes, from zombie to dead. -/
theorem reparentChild_stage (task : TaskId) :
    (reparentChild father reaper ignoresSigchld s child).stage task = s.stage task ∨
      s.stage task = .zombie ∧ (reparentChild father reaper ignoresSigchld s child).stage task =
        .dead := by
  by_cases goes : GoesToDead s father reaper ignoresSigchld child
  · rw [reparentChild_dead goes]
    by_cases isChild : task = child
    · rw [isChild]
      exact Or.inr ⟨goes.1, TaskLinks.setStage_self⟩
    · exact Or.inl (TaskLinks.setStage_of_ne isChild)
  · rw [reparentChild_moved goes]
    exact Or.inl rfl

theorem exists_of_reparentChild {task : TaskId}
    (isTask : (reparentChild father reaper ignoresSigchld s child).Exists task) : s.Exists task := by
  rcases reparentChild_stage (s := s) task with same | ⟨isZombie, _⟩
  · rwa [TaskLinks.Exists, same] at isTask
  · exact exists_of_stage isZombie (by decide)

/-- One round of the loop. -/
theorem Tracing.reparentChild {rest : List TaskId} (tracing : Tracing s)
    (handing : Handing s rank father reaper (child :: rest)) :
    Tracing (reparentChild father reaper ignoresSigchld s child) := by
  have listed : child ∈ s.children father := by
    rw [handing.children]
    exact List.mem_cons_self
  obtain ⟨childExists, childLeads, isFather, _⟩ := handing.inv.ofChild listed
  obtain ⟨pids, traces, realParents, parents⟩ :=
    reparentChild_fields s father reaper child ignoresSigchld
  refine ⟨?_, ?_, ?_, ?_⟩
  · rw [pids, traces]
    exact tracing.init
  · intro task isTask isUntraced
    have before := exists_of_reparentChild isTask
    rw [traces] at isUntraced
    rw [parents, realParents]
    have isParent := tracing.untraced before isUntraced
    dsimp only
    by_cases isMember : task ∈ s.members child
    · have hasLeader := (handing.inv.groups.mem_members childExists childLeads before).mp isMember
      rw [handing.inv.parents.same before, hasLeader, isFather] at isParent
      rw [if_pos ⟨isMember, isParent⟩, if_pos isMember]
    · rw [if_neg fun both => isMember both.1, if_neg isMember]
      exact isParent
  · intro task isTask isTraced
    have before := exists_of_reparentChild isTask
    rw [traces] at isTraced
    have finished : (s.stage father).traces = false := by
      rw [handing.exiting]
      rfl
    have notFather := tracing.parent_ne before isTraced finished
    obtain ⟨tracer, isTracer, tracerTraces⟩ := tracing.traced before isTraced
    refine ⟨tracer, ?_, ?_⟩
    · rw [parents]
      exact (if_neg fun both => notFather both.2).trans isTracer
    · rcases reparentChild_stage (s := s) tracer with same | ⟨isZombie, _⟩
      · rw [same]
        exact tracerTraces
      · rw [isZombie] at tracerTraces
        cases tracerTraces
  · intro first second isFirst isSecond same
    rw [pids] at same
    exact tracing.pids (exists_of_reparentChild isFirst) (exists_of_reparentChild isSecond) same

/-- The whole loop. -/
theorem Tracing.handOver {left : List TaskId} (tracing : Tracing s)
    (handing : Handing s rank father reaper left) :
    Tracing (left.foldl (TaskTree.reparentChild father reaper ignoresSigchld) s) := by
  induction left generalizing s with
  | nil => exact tracing
  | cons child rest inductionHypothesis =>
      exact inductionHypothesis (tracing.reparentChild handing) (handing.step ignoresSigchld)

theorem Tracing.forgetOriginalParent (tracing : Tracing s) (inv : LinksInv s.toTaskLinks rank)
    {after : TaskState} {rounds : Nat} (exiting : s.stage father = .untraced)
    (forgotten : TaskTree.forgetOriginalParent s father rounds ignoresSigchld = some after) :
    Tracing after := by
  obtain ⟨reaper, found, rfl⟩ := forgetOriginalParent_eq forgotten
  have handing := inv.handing exiting found
  have chosen : Tracing (chooseReaper s father) :=
    ⟨tracing.init, tracing.untraced, tracing.traced, tracing.pids⟩
  have stillExiting := (handing.run ignoresSigchld).exiting
  refine (chosen.handOver handing).setStage_over _ ?_ ?_
  · exact exists_of_stage stillExiting (by decide)
  · rw [stillExiting]
    rfl

end Forget

/-! ### Runs -/

section Runs

variable {s : TaskState} {rank : TaskId → Nat}

theorem Tracing.releaseTask (tracing : Tracing s) {task : TaskId} (isDead : s.stage task = .dead) :
    Tracing (TaskTree.releaseTask s task) := by
  have released : Tracing (s.setStage task .unused) := by
    refine tracing.setStage_over _ ?_ ?_
    · exact exists_of_stage isDead (by decide)
    · rw [isDead]
      rfl
  rw [TaskTree.releaseTask]
  split
  · cases s.sibling task <;>
      exact ⟨released.init, released.untraced, released.traced, released.pids⟩
  · exact ⟨released.init, released.untraced, released.traced, released.pids⟩

theorem Tracing.step {after : TaskState} {event : TaskEvent} (tracing : Tracing s)
    (inv : LinksInv s.toTaskLinks rank) (stepped : taskStep s event = some after) : Tracing after := by
  obtain ⟨possible, isEffect⟩ := taskStep_eq_some.mp stepped
  cases event with
  | fork args =>
      cases isEffect
      exact tracing.copyProcess inv possible
  | exitSignals task =>
      cases isEffect
      refine tracing.setStage ?_ fun stops => by cases stops
      exact exists_of_stage possible.1 (by decide)
  | exitPtrace task =>
      cases isEffect
      refine (tracing.ptraceUnlink _).setStage ?_ fun _ {other} isOther isTraced isParent => ?_
      · show s.stage task ≠ .unused
        rw [show s.stage task = .exiting from possible]
        decide
      · -- a tracee of the task has been let go
        by_cases selected : (s.ptrace other && s.parent other == some task) = true
        · exact absurd ((if_pos selected).symm.trans isTraced) (by decide)
        · have wasTraced : s.ptrace other = true := (if_neg selected).symm.trans isTraced
          have wasParent : s.parent other = some task := (if_neg selected).symm.trans isParent
          rw [wasTraced, wasParent] at selected
          simp at selected
  | forgetOriginalParent task rounds ignoresSigchld =>
      exact tracing.forgetOriginalParent inv possible isEffect
  | exitNotify task autoreap =>
      cases isEffect
      refine tracing.setStage_over _ ?_ ?_
      · exact exists_of_stage possible.1 (by decide)
      · rw [possible.1]
        rfl
  | reap task =>
      cases isEffect
      refine tracing.setStage_over _ ?_ ?_
      · exact exists_of_stage possible.1 (by decide)
      · rw [possible.1]
        rfl
  | releaseTask task =>
      cases isEffect
      exact tracing.releaseTask possible
  | ptraceAttach tracer task =>
      cases isEffect
      obtain ⟨isRunning, _, notInit, _⟩ := possible
      exact tracing.ptraceLink notInit (by rw [isRunning]; rfl)
  | ptraceTraceme task =>
      cases isEffect
      obtain ⟨_, notInit, _, parentRuns⟩ := possible
      exact tracing.ptraceLink notInit (by rw [parentRuns]; rfl)
  | ptraceDetach task =>
      cases isEffect
      exact tracing.ptraceUnlink _
  | setChildSubreaper task value | setAttributes task attributes =>
      cases isEffect
      exact ⟨tracing.init, tracing.untraced, tracing.traced, tracing.pids⟩

theorem Tracing.run {after : TaskState} {events : List TaskEvent} (tracing : Tracing s)
    (inv : LinksInv s.toTaskLinks rank) (ran : runTasks s events = some after) : Tracing after := by
  induction events generalizing s rank with
  | nil =>
      cases ran
      exact tracing
  | cons event rest inductionHypothesis =>
      obtain ⟨middle, stepped, ranRest⟩ := Option.bind_eq_some_iff.mp ran
      obtain ⟨_, invMiddle⟩ := inv.step stepped
      exact inductionHypothesis (tracing.step inv stepped) invMiddle ranRest

/-- Parents and tracers in every state that is reached. -/
theorem Reachable.tracing (reachable : Reachable s) : Tracing s := by
  obtain ⟨attributes, events, ran⟩ := reachable
  exact (Tracing.boot attributes).run (LinksInv.boot attributes) ran

end Runs

end KernelHacking.TaskTree

namespace KernelHacking.ProcessTree

open TaskTree TreeWalk

/-! ### The relation fields -/

/-- The pid of the first task of a list, and 0 if there is none. -/
def headPid (s : TaskState) (tasks : List TaskId) : Int := (tasks.head?.map s.pid).getD 0

/-- The relation fields of an entry describe the tree that is walked: the parent is the task on whose
children list the task stands, the first child is the first of its children list, and the next sibling
is the next on the list of the parent. -/
structure TellsRelations (s : TaskState) (task : TaskId) : Prop where
  root : task = initTask → (convert s task).parentPid = 0 ∧ (convert s task).nextSiblingPid = 0
  firstChild : (convert s task).firstChildPid = headPid s (s.children task)
  parent : ∀ owner, task ∈ s.children owner → (convert s task).parentPid = s.pid owner
  nextSibling : ∀ owner before rest, s.children owner = before ++ task :: rest →
    (convert s task).nextSiblingPid = headPid s rest

/-- Wherever the task stands on a children list: it is not traced or it is traced by the owner of the list,
and if it is the last one, the bit-fields of the owner are all 0. -/
def Plain (s : TaskState) (task : TaskId) : Prop :=
  ∀ owner before rest, s.children owner = before ++ task :: rest →
    (s.ptrace task = false ∨ s.parent task = some owner) ∧
      (rest = [] → (s.attributes owner).bits.word = 0)

variable {s : TaskState} {rank : TaskId → Nat} {task owner : TaskId} {before rest : List TaskId}

/-- In a state with sound links the children lists are lists of `sibling` links. -/
theorem siblingsLinked (inv : LinksInv s.toTaskLinks rank) : SiblingsLinked s where
  sibling := fun listed => (inv.lists.mem_children.mp listed).2.2
  nodup := inv.lists.nodup_children

theorem firstChildPid_eq (s : TaskState) (task : TaskId) :
    firstChildPid s task = headPid s (s.children task) := by
  rw [firstChildPid, headPid]
  cases s.children task <;> rfl

/-- The pid behind `parent` is that of the owner exactly if the task is not traced by another one. -/
theorem parentPid_iff (reachable : Reachable s) (listed : task ∈ s.children owner) :
    (convert s task).parentPid = s.pid owner ↔ s.ptrace task = false ∨ s.parent task = some owner := by
  obtain ⟨rank, inv⟩ := reachable.links
  have tracing := reachable.tracing
  obtain ⟨isTask, _, isOwner, _, ownerParents⟩ := inv.ofChild listed
  rw [convert]
  constructor
  · intro samePid
    cases isTraced : s.ptrace task with
    | false => exact Or.inl rfl
    | true =>
        obtain ⟨tracer, isTracer, traces⟩ := tracing.traced isTask isTraced
        rw [isTracer] at samePid ⊢
        rw [tracing.pids (exists_of_traces traces) (exists_of_parents ownerParents) samePid]
        exact Or.inr rfl
  · rintro (isUntraced | isParent)
    · rw [tracing.untraced isTask isUntraced, isOwner]
    · rw [isParent]

/-- The walk of `dfs` ends in every state that is reached from boot, and the entry of a task that it comes
to tells the relations exactly if the task stands plainly on its list. -/
theorem relations_told_iff {s : TaskState} (reachable : Reachable s) :
    ∃ visited, Visits s.children [initTask] visited ∧
      ∀ task ∈ visited, (TellsRelations s task ↔ Plain s task) := by
  obtain ⟨rank, inv⟩ := reachable.links
  have tracing := reachable.tracing
  obtain ⟨visited, tree⟩ := inv.exists_visits
  refine ⟨visited, tree, fun task _ => ⟨fun tells owner before rest place => ?_, fun plain => ?_⟩⟩
  · have listed : task ∈ s.children owner := by
      rw [place]
      exact List.mem_append_right _ List.mem_cons_self
    refine ⟨(parentPid_iff reachable listed).mp (tells.parent owner listed), ?_⟩
    rintro rfl
    have isNext := tells.nextSibling owner before [] place
    rw [convert, nextSiblingPid_at (siblingsLinked inv) place] at isNext
    exact isNext
  · refine ⟨?_, firstChildPid_eq s task, fun owner listed => ?_, fun owner before rest place => ?_⟩
    · rintro rfl
      rw [convert, tracing.untraced inv.groups.exists_init tracing.init.2, nextSiblingPid,
        inv.parents.init.1, inv.parents.init.2]
      exact ⟨tracing.init.1, rfl⟩
    · obtain ⟨before, rest, place⟩ := List.append_of_mem listed
      exact (parentPid_iff reachable listed).mpr (plain owner before rest place).1
    · rw [convert, nextSiblingPid_at (siblingsLinked inv) place]
      cases rest with
      | nil => exact (plain owner before [] place).2 rfl
      | cons next rest => rfl

/-- Init forks a process. -/
def pairRun : List TaskEvent := [forkEvent 0 1 false, forkEvent 1 2 false]

/-- Without tracers and flags every entry tells the relations. -/
theorem relations_told_pair : ∃ s, runTasks (bootTasks plainAttributes) pairRun = some s ∧
    ∃ visited, Visits s.children [initTask] visited ∧ ∀ task ∈ visited, TellsRelations s task := by
  refine ⟨_, rfl, ?_⟩
  obtain ⟨visited, tree, told⟩ := relations_told_iff ⟨plainAttributes, pairRun, rfl⟩
  refine ⟨visited, tree, fun task listed => (told task listed).mpr ?_⟩
  refine fun owner before rest _ => ⟨Or.inl ?_, fun _ => ?_⟩
  · show Function.update (Function.update (fun _ : TaskId => false) 1 false) 2 false task = false
    rw [Function.update_apply, Function.update_apply]
    split
    · rfl
    · split <;> rfl
  · show (Function.update (Function.update (fun _ : TaskId => plainAttributes) 1 plainAttributes) 2
      plainAttributes owner).bits.word = 0
    rw [Function.update_apply, Function.update_apply]
    split
    · rfl
    · split <;> rfl

/-- Init has been executed, and forks a process. -/
def execRun : List TaskEvent :=
  [forkEvent 0 1 false,
    .setAttributes 1 { plainAttributes with bits := { plainAttributes.bits with didExec := true } },
    forkEvent 1 2 false]

/-- Init forks two processes, and the second one traces the first one. -/
def traceRun : List TaskEvent :=
  [forkEvent 0 1 false, forkEvent 1 2 false, forkEvent 1 3 false, .ptraceAttach 3 2]

/-- The last child of init has the flags of init for the pid of its next sibling, and the traced process has
its tracer for its parent. -/
theorem relations_mistold :
    (∃ s, runTasks (bootTasks plainAttributes) execRun = some s ∧
      ∃ visited, Visits s.children [initTask] visited ∧ ∃ task ∈ visited,
        s.children 1 = [task] ∧ (convert s task).nextSiblingPid = 1 ∧ ¬TellsRelations s task) ∧
    ∃ s, runTasks (bootTasks plainAttributes) traceRun = some s ∧
      ∃ visited, Visits s.children [initTask] visited ∧ ∃ task ∈ visited,
        task ∈ s.children 1 ∧ (convert s task).parentPid = 3 ∧ ¬TellsRelations s task := by
  constructor
  · refine ⟨_, rfl, ?_⟩
    obtain ⟨_, inv⟩ := Reachable.links ⟨plainAttributes, execRun, rfl⟩
    obtain ⟨visited, tree⟩ := inv.exists_visits
    refine ⟨visited, tree, 2, ?_, rfl, rfl, fun tells => ?_⟩
    · have isChild : 1 ∈ [1] := by decide
      have isGrandchild : 2 ∈ [2] := by decide
      exact (mem_visited_iff tree).mpr (.tail (.single isChild) isGrandchild)
    · exact absurd (tells.nextSibling 1 [] [] rfl) (by decide)
  · refine ⟨_, rfl, ?_⟩
    obtain ⟨_, inv⟩ := Reachable.links ⟨plainAttributes, traceRun, rfl⟩
    obtain ⟨visited, tree⟩ := inv.exists_visits
    refine ⟨visited, tree, 2, ?_, by decide, rfl, fun tells => ?_⟩
    · have isChild : 1 ∈ [1] := by decide
      have isGrandchild : 2 ∈ [2, 3] := by decide
      exact (mem_visited_iff tree).mpr (.tail (.single isChild) isGrandchild)
    · exact absurd (tells.parent 1 (by decide)) (by decide)
end KernelHacking.ProcessTree
