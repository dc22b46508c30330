/-
Module: KernelHacking.Model.TaskTree
Layer: Model
Purpose: The tasks of the kernel and the links between them: thread groups, the task list, the children
  lists, the real parent and the parent that a tracer takes over. A state changes by `copy_process`, by
  the phases of `do_exit`, by `release_task` and by the calls of `ptrace`. Each field of `task_struct`
  is one function of the state.
Imports: Mathlib.Logic.Function.Basic
Trusted boundary: human-reviewed model of copy_process, exit_signals, exit_ptrace,
  forget_original_parent, find_new_reaper, reparent_leader, exit_notify, release_task and of the links
  that ptrace makes. The events are what these functions do under one hold of `tasklist_lock`; what a
  signal handler or a credential decides is a parameter of the event. There is one pid namespace, and
  `execve` by a thread that is not the leader is left out
Main exports: TaskId, Stage, TaskBits, Attributes, TaskLinks, TaskState, bootTasks, ForkArgs, copyProcess,
  findNewReaper, reparentChild, forgetOriginalParent, releaseTask, TaskEvent, taskStep, runTasks
Open obligations: none
-/
import Mathlib.Logic.Function.Basic

namespace KernelHacking.TaskTree

/-! ### Tasks -/

/-- The address of a `task_struct`. -/
abbrev TaskId := Nat

/-- `init_task`, the idle task. -/
def initTask : TaskId := 0

/-- How far a task has come. -/
inductive Stage where
  /-- There is no task at the address. -/
  | unused
  | running
  /-- `PF_EXITING` is set. -/
  | exiting
  /-- `exit_ptrace` has been called. -/
  | untraced
  /-- The children have been handed over. -/
  | forgotten
  /-- `EXIT_ZOMBIE`. -/
  | zombie
  /-- `EXIT_DEAD`. -/
  | dead
deriving DecidableEq, Repr

/-- The word of bit-fields in front of `atomic_flags` and `pid`. -/
structure TaskBits where
  didExec : Bool
  inExecve : Bool
  inIowait : Bool
  schedResetOnFork : Bool
  schedContributesToLoad : Bool
  irqThread : Bool
deriving DecidableEq, Repr

/-- The word as a number, the first field in the lowest bit. -/
def TaskBits.word (bits : TaskBits) : Int :=
  bits.didExec.toInt + 2 * bits.inExecve.toInt + 4 * bits.inIowait.toInt +
    8 * bits.schedResetOnFork.toInt + 16 * bits.schedContributesToLoad.toInt + 32 * bits.irqThread.toInt

/-- What a task carries besides its links. -/
structure Attributes where
  bits : TaskBits
  state : Int
  uid : Int
  comm : List Char
deriving DecidableEq, Repr

/-- The links between the tasks. The fields of a thread group are those of its leader. -/
structure TaskLinks where
  stage : TaskId → Stage
  groupLeader : TaskId → TaskId
  /-- The other threads of a leader, in the order of the `thread_group` list. -/
  threads : TaskId → List TaskId
  realParent : TaskId → TaskId
  children : TaskId → List TaskId
  /-- The task on whose children list this one is linked; `none` if its `sibling` list is empty. -/
  sibling : TaskId → Option TaskId
  /-- The `tasks` list behind `init_task`. -/
  tasks : List TaskId
  /-- `init_pid_ns.child_reaper`. -/
  childReaper : TaskId

/-- The tasks. -/
structure TaskState extends TaskLinks where
  pid : TaskId → Int
  parent : TaskId → Option TaskId
  ptrace : TaskId → Bool
  isChildSubreaper : TaskId → Bool
  hasChildSubreaper : TaskId → Bool
  attributes : TaskId → Attributes

/-- The state at boot: `init_task` and nothing else. -/
def bootTasks (attributes : Attributes) : TaskState where
  stage := fun task => if task = initTask then .running else .unused
  pid := fun _ => 0
  groupLeader := fun _ => initTask
  threads := fun _ => []
  realParent := fun _ => initTask
  parent := fun _ => some initTask
  ptrace := fun _ => false
  children := fun _ => []
  sibling := fun _ => none
  isChildSubreaper := fun _ => false
  hasChildSubreaper := fun _ => false
  attributes := fun _ => attributes
  tasks := []
  childReaper := initTask

namespace TaskLinks

variable (s : TaskLinks)

/-- The tasks of a thread group, given by its leader. -/
def members (leader : TaskId) : List TaskId := leader :: s.threads leader

/-- All tasks. -/
def all : List TaskId := (initTask :: s.tasks).flatMap s.members

/-- `same_thread_group`. -/
def SameThreadGroup (first second : TaskId) : Prop := s.groupLeader first = s.groupLeader second

instance (first second : TaskId) : Decidable (s.SameThreadGroup first second) :=
  inferInstanceAs (Decidable (_ = _))

end TaskLinks

/-! ### `copy_process` -/

/-- A call of `copy_process` by `current`, for a new task at a free address. `trace` is set with
`CLONE_PTRACE` and when the tracer follows forks. -/
structure ForkArgs where
  current : TaskId
  task : TaskId
  pid : Int
  cloneThread : Bool
  cloneParent : Bool
  trace : Bool
  attributes : Attributes

/-- When the call succeeds. Pid 1 is given to the first task and to no other; the idle task makes no
threads and no siblings, and `CLONE_PARENT` is refused for the group of init. -/
def CanFork (s : TaskState) (args : ForkArgs) : Prop :=
  s.stage args.current = .running ∧ s.stage args.task = .unused ∧ 0 < args.pid ∧
    (∀ task ∈ s.all, s.pid task ≠ args.pid) ∧ (s.tasks = [] ↔ args.pid = 1) ∧
    (args.current = initTask → args.cloneThread = false ∧ args.cloneParent = false) ∧
    (args.cloneParent = true → ¬s.SameThreadGroup args.current s.childReaper)

instance (s : TaskState) (args : ForkArgs) : Decidable (CanFork s args) :=
  inferInstanceAs (Decidable (_ ∧ _ ∧ _ ∧ _ ∧ _ ∧ _ ∧ _))

/-- The real parent of a new task. -/
def ForkArgs.realParent (s : TaskState) (args : ForkArgs) : TaskId :=
  if args.cloneParent = true ∨ args.cloneThread = true then s.realParent args.current else args.current

/-- The new task before it is linked. With `trace`, `ptrace_init_task` gives it the tracer of
`current`. -/
def newTask (s : TaskState) (args : ForkArgs) : TaskState :=
  let realParent := args.realParent s
  let leader := s.groupLeader args.current
  let traced := args.trace && s.ptrace args.current
  { s with
    stage := Function.update s.stage args.task .running
    pid := Function.update s.pid args.task args.pid
    groupLeader := Function.update s.groupLeader args.task
      (if args.cloneThread then leader else args.task)
    threads := Function.update s.threads args.task []
    realParent := Function.update s.realParent args.task realParent
    parent := Function.update s.parent args.task
      (if traced then s.parent args.current else some realParent)
    ptrace := Function.update s.ptrace args.task traced
    children := Function.update s.children args.task []
    sibling := Function.update s.sibling args.task none
    isChildSubreaper := Function.update s.isChildSubreaper args.task false
    hasChildSubreaper := Function.update s.hasChildSubreaper args.task
      (s.hasChildSubreaper leader || s.isChildSubreaper leader)
    attributes := Function.update s.attributes args.task args.attributes }

/-- Put a task at the end of a children list. -/
def linkChild (s : TaskState) (owner child : TaskId) : TaskState :=
  { s with
    children := Function.update s.children owner (s.children owner ++ [child])
    sibling := Function.update s.sibling child (some owner) }

/-- `copy_process`: a thread is linked into its group, a leader into the children list of its real
parent and into the task list. -/
def copyProcess (s : TaskState) (args : ForkArgs) : TaskState :=
  let made := newTask s args
  if args.cloneThread then
    let leader := s.groupLeader args.current
    { made with threads := Function.update made.threads leader (made.threads leader ++ [args.task]) }
  else
    { linkChild made (args.realParent s) args.task with
      tasks := s.tasks ++ [args.task]
      childReaper := if args.pid = 1 then args.task else s.childReaper }

/-! ### `do_exit` -/

/-- The other threads of a group in the order of `while_each_thread`, from the one behind the task. -/
def otherThreads (s : TaskState) (task : TaskId) : List TaskId :=
  let members := s.members (s.groupLeader task)
  (members.dropWhile (· ≠ task)).drop 1 ++ members.takeWhile (· ≠ task)

/-- The thread that takes over from an exiting one. -/
def liveThread (s : TaskState) (father : TaskId) : Option TaskId :=
  (otherThreads s father).find? fun thread => s.stage thread = .running

/-- The loop of `find_new_reaper` over the ancestors, with the number of its rounds. -/
def findSubreaper (s : TaskState) : Nat → TaskId → Option TaskId
  | 0, _ => none
  | rounds + 1, reaper =>
      let leader := s.groupLeader reaper
      if reaper = initTask then some s.childReaper
      else if s.SameThreadGroup reaper s.childReaper then some s.childReaper
      else if s.isChildSubreaper leader = true ∧
          ∃ thread ∈ s.members leader, s.stage thread = .running then
        some reaper
      else findSubreaper s rounds (s.realParent reaper)

/-- `find_new_reaper`. There is no result if the last thread of init exits, which is a panic. -/
def findNewReaper (s : TaskState) (rounds : Nat) (father : TaskId) : Option TaskId :=
  match liveThread s father with
  | some thread => some thread
  | none =>
      if s.childReaper = father then none
      else if s.hasChildSubreaper (s.groupLeader father) then
        findSubreaper s rounds (s.realParent father)
      else some s.childReaper

/-- Take a task off a children list. -/
def unlinkChild (s : TaskState) (owner child : TaskId) : TaskState :=
  { s with
    children := Function.update s.children owner ((s.children owner).erase child)
    sibling := Function.update s.sibling child none }

/-- The child is a zombie that `reparent_leader` takes off the children list to release it: its new parent
belongs to another group and ignores `SIGCHLD`. -/
def GoesToDead (s : TaskState) (father reaper : TaskId) (ignoresSigchld : Bool) (child : TaskId) : Prop :=
  s.stage child = .zombie ∧ ¬s.SameThreadGroup reaper father ∧ s.ptrace child = false ∧
    s.threads child = [] ∧ ignoresSigchld = true

instance (s : TaskState) (father reaper : TaskId) (ignoresSigchld : Bool) (child : TaskId) :
    Decidable (GoesToDead s father reaper ignoresSigchld child) :=
  inferInstanceAs (Decidable (_ ∧ _ ∧ _ ∧ _ ∧ _))

/-- One round of the loop of `forget_original_parent`: every thread of the child gets the new real
parent, and `reparent_leader` moves the child to its children list or to the local list of the dead. -/
def reparentChild (father reaper : TaskId) (ignoresSigchld : Bool) (s : TaskState) (child : TaskId) :
    TaskState :=
  let group := s.members child
  let handed := { s with
    realParent := fun task => if task ∈ group then reaper else s.realParent task
    parent := fun task =>
      if task ∈ group ∧ s.parent task = some father then some reaper else s.parent task }
  let moved := linkChild (unlinkChild handed father child) reaper child
  if GoesToDead s father reaper ignoresSigchld child then
    { unlinkChild moved reaper child with stage := Function.update s.stage child .dead }
  else moved

/-- `forget_original_parent`. -/
def forgetOriginalParent (s : TaskState) (father : TaskId) (rounds : Nat) (ignoresSigchld : Bool) :
    Option TaskState :=
  (findNewReaper s rounds father).map fun reaper =>
    let chosen := { s with
      childReaper := if s.childReaper = father then (liveThread s father).getD father else s.childReaper }
    let handed := (s.children father).foldl (reparentChild father reaper ignoresSigchld) chosen
    { handed with stage := Function.update handed.stage father .forgotten }

/-- `release_task`. -/
def releaseTask (s : TaskState) (task : TaskId) : TaskState :=
  let stage := Function.update s.stage task .unused
  let leader := s.groupLeader task
  if leader = task then
    let unlinked := match s.sibling task with
      | none => s
      | some owner => unlinkChild s owner task
    { unlinked with tasks := s.tasks.erase task, stage := stage }
  else
    { s with threads := Function.update s.threads leader ((s.threads leader).erase task), stage := stage }

/-! ### Events -/

inductive TaskEvent where
  | fork (args : ForkArgs)
  | exitSignals (task : TaskId)
  | exitPtrace (task : TaskId)
  | forgetOriginalParent (task : TaskId) (rounds : Nat) (ignoresSigchld : Bool)
  | exitNotify (task : TaskId) (autoreap : Bool)
  /-- A zombie is reaped by `wait`, by its last thread or by a tracer that lets it go. -/
  | reap (task : TaskId)
  | releaseTask (task : TaskId)
  | ptraceAttach (tracer task : TaskId)
  | ptraceTraceme (task : TaskId)
  | ptraceDetach (task : TaskId)
  | setChildSubreaper (task : TaskId) (value : Bool)
  | setAttributes (task : TaskId) (attributes : Attributes)

namespace TaskState

variable (s : TaskState)

def setStage (task : TaskId) (stage : Stage) : TaskState :=
  { s with stage := Function.update s.stage task stage }

/-- `__ptrace_link`. -/
def ptraceLink (task tracer : TaskId) : TaskState :=
  { s with
    ptrace := Function.update s.ptrace task true
    parent := Function.update s.parent task (some tracer) }

/-- `__ptrace_unlink` of every task that the condition selects. -/
def ptraceUnlink (selected : TaskId → Bool) : TaskState :=
  { s with
    ptrace := fun task => if selected task then false else s.ptrace task
    parent := fun task => if selected task then some (s.realParent task) else s.parent task }

/-- Whether a task that exits may be released without a `wait`: never if it is traced, always if it is a
thread, and else if the group is empty and the parent ignores `SIGCHLD`. -/
def MayAutoreap (task : TaskId) (autoreap : Bool) : Prop :=
  if s.ptrace task = true then autoreap = false
  else if s.groupLeader task = task then autoreap = true → s.threads task = []
  else autoreap = true

instance (task : TaskId) (autoreap : Bool) : Decidable (s.MayAutoreap task autoreap) := by
  unfold MayAutoreap
  infer_instance

end TaskState

/-- When an event is possible. -/
def Possible (s : TaskState) : TaskEvent → Prop
  | .fork args => CanFork s args
  | .exitSignals task => s.stage task = .running ∧ task ≠ initTask
  | .exitPtrace task => s.stage task = .exiting
  | .forgetOriginalParent task _ _ => s.stage task = .untraced
  | .exitNotify task autoreap => s.stage task = .forgotten ∧ s.MayAutoreap task autoreap
  | .reap task => s.stage task = .zombie ∧ (s.groupLeader task = task → s.threads task = [])
  | .releaseTask task => s.stage task = .dead
  | .ptraceAttach tracer task =>
      s.stage tracer = .running ∧ tracer ≠ initTask ∧ task ≠ initTask ∧ s.ptrace task = false ∧
        s.stage task ∈ [.running, .exiting, .untraced, .forgotten] ∧ ¬s.SameThreadGroup task tracer
  | .ptraceTraceme task =>
      s.stage task = .running ∧ task ≠ initTask ∧ s.ptrace task = false ∧
        s.stage (s.realParent task) = .running
  | .ptraceDetach task => s.stage task ≠ .unused ∧ s.ptrace task = true
  | .setChildSubreaper task _ => s.stage task = .running
  | .setAttributes task _ => s.stage task ≠ .unused

instance (s : TaskState) (event : TaskEvent) : Decidable (Possible s event) := by
  cases event <;> (unfold Possible; infer_instance)

/-- What an event does. -/
def effect (s : TaskState) : TaskEvent → Option TaskState
  | .fork args => some (copyProcess s args)
  | .exitSignals task => some (s.setStage task .exiting)
  | .exitPtrace task =>
      some ((s.ptraceUnlink fun other => s.ptrace other && s.parent other == some task).setStage task
        .untraced)
  | .forgetOriginalParent task rounds ignoresSigchld => forgetOriginalParent s task rounds ignoresSigchld
  | .exitNotify task autoreap => some (s.setStage task (if autoreap then .dead else .zombie))
  | .reap task => some (s.setStage task .dead)
  | .releaseTask task => some (releaseTask s task)
  | .ptraceAttach tracer task => some (s.ptraceLink task tracer)
  | .ptraceTraceme task => some (s.ptraceLink task (s.realParent task))
  | .ptraceDetach task => some (s.ptraceUnlink fun other => other == task)
  | .setChildSubreaper task value =>
      some { s with isChildSubreaper := Function.update s.isChildSubreaper (s.groupLeader task) value }
  | .setAttributes task attributes =>
      some { s with attributes := Function.update s.attributes task attributes }

/-- One event, if it is possible. -/
def taskStep (s : TaskState) (event : TaskEvent) : Option TaskState :=
  if Possible s event then effect s event else none

/-- The state after a sequence of events. -/
def runTasks (s : TaskState) : List TaskEvent → Option TaskState
  | [] => some s
  | event :: rest => (taskStep s event).bind fun after => runTasks after rest

end KernelHacking.TaskTree
