/-
Module: KernelHacking.Proofs.CallResources
Layer: Proofs
Purpose: What the two system calls keep. Both calls end as the models without resources say
  (`ptreeIn_run`, `exposeIn_run`). Their locks are free again at every return. But `expose_page_table`
  keeps its references to the `struct pid` and to the task at every return behind `find_get_pid`, and
  both calls keep their block of memory when a copy to the caller fails (`calls_release_iff`). Over a run
  of calls what is kept adds up (`calls_accumulate`).
Imports: KernelHacking.Model.CallResources, KernelHacking.Proofs.CallSafety
Trusted boundary: none (fully proved)
Main exports: Held.addBlock, Held.addReferences, ptreeIn_run, exposeIn_run, Releases, ReleasingRun, Clean,
  CleanRun, calls_release_iff, calls_accumulate, calls_leak
Open obligations: none
-/
import KernelHacking.Model.CallResources
import KernelHacking.Proofs.CallSafety

namespace KernelHacking.Resources

open TaskTree ProcessTree PageTable

/-! ### What is kept -/

/-- One more block. -/
def Held.addBlock (held : Held) : Held := { held with blocks := held.blocks + 1 }

/-- One more reference to the `struct pid` of a number, and one to its task. -/
def Held.addReferences (held : Held) (number : Int) (task : TaskId) : Held :=
  { held with
    pidCount := Function.update held.pidCount number (held.pidCount number + 1)
    usage := Function.update held.usage task (held.usage task + 1) }

theorem Held.addBlock_ne (held : Held) : held.addBlock ≠ held := by
  intro same
  have blocks := congrArg Held.blocks same
  exact absurd blocks (Nat.succ_ne_self _)

/-! ### The statements -/

/-- Behind a statement that returns, the rest of the function runs. -/
theorem run_bind {α β : Type} {statement : CallM α} {rest : α → CallM β} {held after : Held} {value : α}
    (returns : statement.run held = .ok (value, after)) :
    (statement >>= rest).run held = (rest value).run after := by
  rw [StateT.run_bind, returns]
  rfl

/-- Behind a statement that stops, nothing runs. -/
theorem run_bind_error {α β : Type} {statement : CallM α} {rest : α → CallM β} {held : Held} {stop : Stop}
    (stops : statement.run held = .error stop) : (statement >>= rest).run held = .error stop := by
  rw [StateT.run_bind, stops]
  rfl

section Statements

variable (held : Held)

theorem kmalloc_run (available : Bool) :
    (kmalloc available).run held = .ok (available, if available then held.addBlock else held) := by
  cases available <;> rfl

theorem kfree_run : kfree.run held.addBlock = .ok ((), held) := rfl

/-- The sections of `find_get_pid` and `get_pid_task` are left. -/
theorem findGetPid_run (pids : Int → PidState) (nr : Int) :
    (findGetPid pids nr).run held =
      .ok (if pids nr = .unused then (false, held)
        else (true, { held with
          pidCount := Function.update held.pidCount nr (held.pidCount nr + 1) })) := by
  by_cases unused : pids nr = .unused
  · simp [findGetPid, unused, rcuReadLock, rcuReadUnlock]
    rfl
  · simp [findGetPid, unused, rcuReadLock, rcuReadUnlock, getPid]
    rfl

theorem getPidTask_run (pids : Int → PidState) (taskOf : Int → TaskId) (nr : Int) :
    (getPidTask pids taskOf nr).run held =
      .ok (pidTask pids taskOf nr, match pidTask pids taskOf nr with
        | none => held
        | some task => { held with
            usage := Function.update held.usage task (held.usage task + 1) }) := by
  cases found : pidTask pids taskOf nr with
  | none =>
      simp [getPidTask, found, rcuReadLock, rcuReadUnlock]
      rfl
  | some task =>
      simp [getPidTask, found, rcuReadLock, rcuReadUnlock, getTaskStruct]
      rfl

theorem readLock_run :
    readLock.run held =
      if held.tasklistLock.writer then .error .blocked
      else .ok ((), { held with tasklistLock.readers := held.tasklistLock.readers + 1 }) := by
  cases taken : held.tasklistLock.writer with
  | true =>
      simp [readLock, taken]
      rfl
  | false =>
      simp [readLock, taken]
      rfl

theorem readUnlock_run :
    readUnlock.run { held with tasklistLock.readers := held.tasklistLock.readers + 1 } =
      .ok ((), held) := rfl

theorem downWrite_run (mm : Nat) :
    (downWrite mm).run held =
      if held.mmapSem mm = .free then
        .ok ((), { held with mmapSem := Function.update held.mmapSem mm ⟨0, true⟩ })
      else .error .blocked := by
  by_cases free : held.mmapSem mm = .free
  · simp [downWrite, free]
    rfl
  · simp [downWrite, free]
    rfl

/-- A lock that was free is free again. -/
theorem upWrite_run (mm : Nat) (free : held.mmapSem mm = .free) :
    (upWrite mm).run { held with mmapSem := Function.update held.mmapSem mm ⟨0, true⟩ } =
      .ok ((), held) := by
  have same : Function.update held.mmapSem mm .free = held.mmapSem := by
    rw [← free, Function.update_eq_self]
  simp only [upWrite, modify, modifyGet, MonadStateOf.modifyGet, StateT.modifyGet, StateT.run,
    Function.update_idem, same]
  rfl

end Statements

/-! ### `ptree` -/

/-- `ptree` ends as its model without resources says. When it returns an error it has kept its buffer,
    and everything else is as before. -/
theorem ptreeIn_run (s : TaskState) (depth : Nat) (services : PtreeServices) (held : Held) :
    (ptreeIn s depth services).run held =
      if held.tasklistLock.writer then .error .blocked
      else match ptree s depth services with
        | none => .error .hangs
        | some .oops => .error .oops
        | some (.returned code _ _ _) => .ok (code, if code = 0 then held else held.addBlock) := by
  rw [ptreeIn, run_bind (kmalloc_run held services.kmalloc)]
  by_cases taken : held.tasklistLock.writer = true
  · rw [if_pos taken]
    apply run_bind_error
    rw [readLock_run]
    cases services.kmalloc <;> exact if_pos taken
  · rw [if_neg taken]
    cases memory : services.kmalloc with
    | false =>
        simp only [ptree, memory, Bool.false_eq_true, if_false, not_false_eq_true, if_true]
        rw [run_bind ((readLock_run held).trans (if_neg taken))]
        rfl
    | true =>
        simp only [ptree, memory, if_true, not_true_eq_false, if_false]
        rw [run_bind ((readLock_run held.addBlock).trans (if_neg taken))]
        cases dfs s depth ⟨services.contents, 0, []⟩ initTask with
        | none => rfl
        | some filled =>
            dsimp only [Option.map_some]
            rw [run_bind (readUnlock_run held.addBlock)]
            by_cases bufShort : services.bufAccepts < PRINFO_SIZE * MAXBUFFERSIZE
            · simp only [if_pos bufShort]
              rfl
            · by_cases nrShort : services.nrAccepts < (wordBytes filled.nr).length
              · simp only [if_neg bufShort, if_pos nrShort]
                rfl
              · simp only [if_neg bufShort, if_neg nrShort]
                rw [run_bind (kfree_run held)]
                rfl

/-! ### `expose_page_table` -/

/-- Once the target is known, `expose_page_table` ends as its model without resources says. When it
    returns an error behind `kmalloc` it has kept its block, and everything else is as before. -/
theorem exposeTarget_run {kernel : Kernel} {system : System} {args : ExposeArgs} {mm : Nat}
    (nonempty : ¬args.endVaddr ≤ args.beginVaddr) (process : system.pids args.pid = .process mm)
    (current : Nat) (held : Held) :
    (exposeTarget kernel system current args mm).run held =
      if held.mmapSem mm = .free then
        match exposeCall kernel system current args with
        | .oops => .error .oops
        | .hangs => .error .hangs
        | .returned code after _ _ =>
            .ok ((code, after), if kernel.kmalloc ∧ code ≠ 0 then held.addBlock else held)
      else .error .blocked := by
  rw [exposeTarget]
  by_cases free : held.mmapSem mm = .free
  case neg =>
    rw [if_neg free]
    exact run_bind_error ((downWrite_run held mm).trans (if_neg free))
  rw [if_pos free, run_bind ((downWrite_run held mm).trans (if_pos free)),
    run_bind (upWrite_run held mm free), run_bind (kmalloc_run held kernel.kmalloc)]
  simp only [exposeCall, if_neg nonempty, process]
  cases memory : kernel.kmalloc with
  | false => rfl
  | true =>
      simp only [if_true, not_true_eq_false, if_false]
      by_cases null : args.pageTableAddr = 0
      · simp only [if_pos null]
        rfl
      · simp only [if_neg null]
        rw [run_bind ((downWrite_run held.addBlock mm).trans (if_pos free))]
        cases walkPageRangeIn (walkedSpace system current mm) (forPmdEntryIn kernel) args.beginVaddr
            args.endVaddr (Live.start system current args.pageTableAddr) with
        | none => rfl
        | some reply =>
            cases reply with
            | oops live => rfl
            | finished err live =>
                dsimp only
                rw [run_bind (upWrite_run held.addBlock mm free)]
                cases copied : kernel.copyToUser args.fakePgd with
                | false => rfl
                | true =>
                    simp only [not_true_eq_false, if_false]
                    rw [run_bind (kfree_run held)]
                    rfl

/-- What `find_get_pid` and `get_pid_task` find decides how `expose_page_table` goes on. -/
theorem exposeIn_lookup (kernel : Kernel) (system : System) (taskOf : Int → TaskId) (current : Nat)
    (args : ExposeArgs) (held : Held) :
    (exposeIn kernel system taskOf current args).run held =
      if args.endVaddr ≤ args.beginVaddr then .ok ((-EINVAL, system), held)
      else match system.pids args.pid with
        | .unused => .ok ((-EINVAL, system), held)
        | .groupOnly | .zombie | .kernelThread => .error .oops
        | .process mm => (exposeTarget kernel system current args mm).run
            (held.addReferences args.pid (taskOf args.pid)) := by
  rw [exposeIn]
  by_cases empty : args.endVaddr ≤ args.beginVaddr
  · rw [if_pos empty, if_pos empty]
    rfl
  · rw [if_neg empty, if_neg empty]
    by_cases unused : system.pids args.pid = .unused
    · rw [run_bind ((findGetPid_run held system.pids args.pid).trans (by rw [if_pos unused]))]
      simp only [unused]
      rfl
    · rw [run_bind ((findGetPid_run held system.pids args.pid).trans (by rw [if_neg unused]))]
      simp only [not_true_eq_false, if_false]
      rw [run_bind (getPidTask_run _ system.pids taskOf args.pid)]
      cases found : system.pids args.pid with
      | unused => exact absurd found unused
      | groupOnly | zombie | kernelThread =>
          simp only [pidTask, found]
          rfl
      | process mm =>
          simp only [pidTask, found]
          rfl

/-- The call ends before it has taken anything: the range is empty, or there is no `struct pid`. -/
def EndsEarly (pids : Int → PidState) (args : ExposeArgs) : Prop :=
  args.endVaddr ≤ args.beginVaddr ∨ pids args.pid = .unused

instance (pids : Int → PidState) (args : ExposeArgs) : Decidable (EndsEarly pids args) :=
  inferInstanceAs (Decidable (_ ∨ _))

/-- What a call that returns has kept. -/
def keptBy (kernel : Kernel) (system : System) (taskOf : Int → TaskId) (args : ExposeArgs) (code : Int)
    (held : Held) : Held :=
  if EndsEarly system.pids args then held
  else
    let referenced := held.addReferences args.pid (taskOf args.pid)
    if kernel.kmalloc ∧ code ≠ 0 then referenced.addBlock else referenced

/-- The call waits for the `mmap_sem` of its target. -/
def Waits (system : System) (args : ExposeArgs) (held : Held) : Prop :=
  args.beginVaddr < args.endVaddr ∧ ∃ mm, system.pids args.pid = .process mm ∧ held.mmapSem mm ≠ .free

/-- `expose_page_table` ends as its model without resources says, and keeps its references unless it ends
    early. -/
theorem exposeIn_run {kernel : Kernel} {system : System} {args : ExposeArgs} {held : Held}
    (proceeds : ¬Waits system args held) (taskOf : Int → TaskId) (current : Nat) :
    (exposeIn kernel system taskOf current args).run held =
      match exposeCall kernel system current args with
      | .oops => .error .oops
      | .hangs => .error .hangs
      | .returned code after _ _ => .ok ((code, after), keptBy kernel system taskOf args code held) := by
  rw [exposeIn_lookup]
  by_cases empty : args.endVaddr ≤ args.beginVaddr
  · simp only [exposeCall, keptBy, EndsEarly, empty, true_or, if_true]
  · have nonempty : args.beginVaddr < args.endVaddr := by bv_omega
    rw [if_neg empty]
    cases found : system.pids args.pid with
    | unused => simp only [exposeCall, if_neg empty, found, keptBy, EndsEarly, or_true, if_true]
    | groupOnly | zombie | kernelThread => simp only [exposeCall, if_neg empty, found]
    | process mm =>
        have free : held.mmapSem mm = .free := by
          by_contra taken
          exact proceeds ⟨nonempty, mm, found, taken⟩
        have late : ¬EndsEarly system.pids args := by
          rintro (isEmpty | unused)
          · exact empty isEmpty
          · rw [found] at unused
            cases unused
        simp only [exposeTarget_run empty found, keptBy, if_neg late]
        rw [if_pos (show (held.addReferences args.pid (taskOf args.pid)).mmapSem mm = .free from free)]

theorem exposeIn_waits {kernel : Kernel} {system : System} {args : ExposeArgs} {held : Held}
    (waits : Waits system args held) (taskOf : Int → TaskId) (current : Nat) :
    (exposeIn kernel system taskOf current args).run held = .error .blocked := by
  rcases waits with ⟨nonempty, mm, process, taken⟩
  have notEmpty : ¬args.endVaddr ≤ args.beginVaddr := by bv_omega
  rw [exposeIn_lookup, if_neg notEmpty, process]
  dsimp only
  rw [exposeTarget_run notEmpty process]
  exact if_neg taken

/-! ### Single calls -/

/-- The copies to the caller succeed. -/
def Delivers (services : PtreeServices) : Prop :=
  PRINFO_SIZE * MAXBUFFERSIZE ≤ services.bufAccepts ∧ 4 ≤ services.nrAccepts

theorem ptree_zero_iff {s : TaskState} {depth : Nat} {services : PtreeServices} {code : Int}
    {written : List Nat} {copied nrCopied : List Byte}
    (returned : ptree s depth services = some (.returned code written copied nrCopied)) :
    code = 0 ↔ Delivers services := by
  rw [ptree] at returned
  split at returned
  · rcases Option.map_eq_some_iff.mp returned with ⟨filled, _, isEnd⟩
    have isLength : (wordBytes (filled.nr : Int)).length = 4 := rfl
    rw [Delivers]
    dsimp only at isEnd
    rw [isLength] at isEnd
    split at isEnd
    · rename_i short
      cases isEnd
      simp only [Int.reduceEq, false_iff]
      omega
    · rename_i long
      split at isEnd
      · rename_i short
        cases isEnd
        simp only [Int.reduceEq, false_iff]
        omega
      · rename_i enough
        cases isEnd
        simp only [true_iff]
        omega
  · cases returned

section Calls

variable {machine after : Machine} {code : Int}

/-- A call of `ptree` that returns keeps its buffer, unless both copies succeed. -/
theorem call_ptree {depth : Nat} {services : PtreeServices}
    (returned : machine.call (.ptree depth services) = .ok (code, after)) :
    (code = 0 ↔ Delivers services) ∧
      after = { machine with held := if code = 0 then machine.held else machine.held.addBlock } := by
  rw [Machine.call, ptreeIn_run] at returned
  by_cases taken : machine.held.tasklistLock.writer = true
  · rw [if_pos taken] at returned
    cases returned
  · rw [if_neg taken] at returned
    cases ends : ptree machine.tasks depth services with
    | none =>
        rw [ends] at returned
        cases returned
    | some callEnd =>
        rw [ends] at returned
        cases callEnd with
        | oops => cases returned
        | returned result written copied nrCopied =>
            cases returned
            exact ⟨ptree_zero_iff ends, rfl⟩

/-- A call of `expose_page_table` that returns leaves the address spaces that its model without resources
    leaves, and keeps its references unless it ends early. -/
theorem call_expose {kernel : Kernel} {current : Nat} {args : ExposeArgs}
    (returned : machine.call (.expose kernel current args) = .ok (code, after)) :
    ∃ system directory remaps,
      exposeCall kernel machine.system current args = .returned code system directory remaps ∧
        after = { machine with
          system := system
          held := keptBy kernel machine.system machine.taskOf args code machine.held } := by
  rw [Machine.call] at returned
  by_cases waits : Waits machine.system args machine.held
  · rw [exposeIn_waits waits] at returned
    cases returned
  · rw [exposeIn_run waits] at returned
    cases ends : exposeCall kernel machine.system current args with
    | oops =>
        rw [ends] at returned
        cases returned
    | hangs =>
        rw [ends] at returned
        cases returned
    | returned result system directory remaps =>
        rw [ends] at returned
        cases returned
        exact ⟨system, directory, remaps, rfl, rfl⟩

end Calls

/-- The references to the `struct pid` that a call of `expose_page_table` keeps. -/
theorem keptBy_pidCount (kernel : Kernel) (system : System) (taskOf : Int → TaskId) (args : ExposeArgs)
    (code : Int) (held : Held) (number : Int) :
    (keptBy kernel system taskOf args code held).pidCount number =
      held.pidCount number + if args.pid = number ∧ ¬EndsEarly system.pids args then 1 else 0 := by
  have referenced : (held.addReferences args.pid (taskOf args.pid)).pidCount number =
      held.pidCount number + if args.pid = number then 1 else 0 := by
    by_cases same : args.pid = number
    · subst same
      simp [Held.addReferences]
    · rw [if_neg same]
      exact Function.update_of_ne (Ne.symm same) _ _
  by_cases early : EndsEarly system.pids args
  · simp [keptBy, early]
  · simp only [keptBy, early, if_false, not_false_eq_true, and_true]
    by_cases failed : kernel.kmalloc = true ∧ code ≠ 0
    · rw [if_pos failed]
      exact referenced
    · rw [if_neg failed]
      exact referenced

/-- A call keeps nothing exactly if it ends early. -/
theorem keptBy_eq_iff {kernel : Kernel} {system : System} {taskOf : Int → TaskId} {args : ExposeArgs}
    {code : Int} {held : Held} :
    keptBy kernel system taskOf args code held = held ↔ EndsEarly system.pids args := by
  constructor
  · intro same
    by_contra late
    have count := keptBy_pidCount kernel system taskOf args code held args.pid
    rw [same, if_pos ⟨rfl, late⟩] at count
    omega
  · intro early
    exact if_pos early

/-- A call that returns leaves everything held as it was. -/
def Releases (machine : Machine) (call : SystemCall) : Prop :=
  ∀ code after, machine.call call = .ok (code, after) → after.held = machine.held

/-- A call of `ptree` whose copies succeed, or one of `expose_page_table` that ends early. -/
def Clean (machine : Machine) : SystemCall → Prop
  | .ptree _ services => Delivers services
  | .expose _ _ args => EndsEarly machine.system.pids args

/-- The call returns. -/
def Returns (machine : Machine) (call : SystemCall) : Prop :=
  ∃ code after, machine.call call = .ok (code, after)

theorem held_eq_iff {machine after : Machine} {call : SystemCall} {code : Int}
    (returned : machine.call call = .ok (code, after)) :
    after.held = machine.held ↔ Clean machine call := by
  cases call with
  | ptree depth services =>
      rcases call_ptree returned with ⟨isZero, rfl⟩
      rw [Clean, ← isZero]
      by_cases zero : code = 0
      · simp only [zero, if_true]
      · simp only [zero, if_false, iff_false]
        exact machine.held.addBlock_ne
  | expose kernel current args =>
      rcases call_expose returned with ⟨_, _, _, _, rfl⟩
      exact keptBy_eq_iff

theorem releases_iff (machine : Machine) (call : SystemCall) :
    Releases machine call ↔ (Returns machine call → Clean machine call) := by
  constructor
  · rintro releases ⟨code, after, returned⟩
    exact (held_eq_iff returned).mp (releases code after returned)
  · intro clean code after returned
    exact (held_eq_iff returned).mpr (clean ⟨code, after, returned⟩)

/-! ### Runs -/

/-- After each return in a run, what is held is what it was before the call. A call that does not return
    ends the run. -/
def ReleasingRun : Machine → List MachineEvent → Prop
  | _, [] => True
  | _, .other after :: rest => ReleasingRun after rest
  | machine, .call call :: rest =>
      Releases machine call ∧
        match machine.call call with
        | .ok (_, after) => ReleasingRun after rest
        | .error _ => True

/-- Each call of a run that returns is a clean one. -/
def CleanRun : Machine → List MachineEvent → Prop
  | _, [] => True
  | _, .other after :: rest => CleanRun after rest
  | machine, .call call :: rest =>
      (Returns machine call → Clean machine call) ∧
        match machine.call call with
        | .ok (_, after) => CleanRun after rest
        | .error _ => True

/-- The calls of a run release what they take exactly if each call of `ptree` that returns could copy its
    results, and each call of `expose_page_table` that returns had ended before it found a process. -/
theorem calls_release_iff (machine : Machine) (events : List MachineEvent) :
    ReleasingRun machine events ↔ CleanRun machine events := by
  induction events generalizing machine with
  | nil => exact Iff.rfl
  | cons event rest inductionHypothesis =>
      cases event with
      | other after => exact inductionHypothesis after
      | call call =>
          rw [ReleasingRun, CleanRun, releases_iff]
          cases machine.call call with
          | error stop => exact Iff.rfl
          | ok result => exact and_congr Iff.rfl (inductionHypothesis result.2)

/-- The calls of a run one after another, if they all return. -/
def Machine.calls (machine : Machine) : List SystemCall → Except Stop Machine
  | [] => .ok machine
  | call :: rest =>
      match machine.call call with
      | .ok (_, after) => after.calls rest
      | .error stop => .error stop

theorem exposeCall_pids {kernel : Kernel} {system after : System} {current : Nat} {args : ExposeArgs}
    {code : Int} {directory : Option (Nat → ULong)} {remaps : List (PageTable.Frame × Bool)}
    (returned : exposeCall kernel system current args = .returned code after directory remaps) :
    after.pids = system.pids := by
  rcases exposeCall_returned returned with ⟨_, rfl⟩ | ⟨_, _, _, _, live, _, _, _, rfl, _⟩
  · rfl
  · rfl

/-- What a number stands for is not changed by the calls. -/
theorem call_pids {machine after : Machine} {call : SystemCall} {code : Int}
    (returned : machine.call call = .ok (code, after)) : after.system.pids = machine.system.pids := by
  cases call with
  | ptree depth services =>
      rcases call_ptree returned with ⟨_, rfl⟩
      rfl
  | expose kernel current args =>
      rcases call_expose returned with ⟨system, _, _, ends, rfl⟩
      exact exposeCall_pids ends

/-- The locks are given back by every call that returns. -/
theorem call_locks {machine after : Machine} {call : SystemCall} {code : Int}
    (returned : machine.call call = .ok (code, after)) :
    after.held.rcuNesting = machine.held.rcuNesting ∧
      after.held.tasklistLock = machine.held.tasklistLock ∧
        after.held.mmapSem = machine.held.mmapSem := by
  cases call with
  | ptree depth services =>
      rcases call_ptree returned with ⟨_, rfl⟩
      by_cases zero : code = 0
      · simp [zero]
      · simp [zero, Held.addBlock]
  | expose kernel current args =>
      rcases call_expose returned with ⟨_, _, _, _, rfl⟩
      dsimp only [keptBy]
      split
      · simp
      · split
        · simp [Held.addBlock, Held.addReferences]
        · simp [Held.addReferences]

/-- The call takes a reference to the `struct pid` of the number. -/
def takesPid (pids : Int → PidState) (number : Int) : SystemCall → Bool
  | .ptree _ _ => false
  | .expose _ _ args => args.pid = number ∧ ¬EndsEarly pids args

theorem call_pidCount {machine after : Machine} {call : SystemCall} {code : Int}
    (returned : machine.call call = .ok (code, after)) (number : Int) :
    after.held.pidCount number =
      machine.held.pidCount number + if takesPid machine.system.pids number call then 1 else 0 := by
  cases call with
  | ptree depth services =>
      rcases call_ptree returned with ⟨_, rfl⟩
      by_cases zero : code = 0
      · simp [zero, takesPid]
      · simp [zero, takesPid, Held.addBlock]
  | expose kernel current args =>
      rcases call_expose returned with ⟨_, _, _, _, rfl⟩
      simp only [keptBy_pidCount, takesPid, decide_eq_true_eq]

/-- Over a run of calls the references to a `struct pid` add up: one for each call of `expose_page_table`
    that has found it. The locks are as they were. -/
theorem calls_accumulate {machine after : Machine} {calls : List SystemCall}
    (returned : machine.calls calls = .ok after) :
    (∀ number, after.held.pidCount number =
      machine.held.pidCount number + calls.countP (takesPid machine.system.pids number)) ∧
      after.held.rcuNesting = machine.held.rcuNesting ∧
      after.held.tasklistLock = machine.held.tasklistLock ∧
        after.held.mmapSem = machine.held.mmapSem := by
  induction calls generalizing machine with
  | nil =>
      cases returned
      exact ⟨fun number => rfl, rfl, rfl, rfl⟩
  | cons call rest inductionHypothesis =>
      rw [Machine.calls] at returned
      cases ended : machine.call call with
      | error stop =>
          rw [ended] at returned
          cases returned
      | ok result =>
          rcases result with ⟨code, middle⟩
          rw [ended] at returned
          rcases inductionHypothesis returned with ⟨counts, nesting, tasklist, sems⟩
          rcases call_locks ended with ⟨nestingHere, tasklistHere, semsHere⟩
          refine ⟨fun number => ?_, nesting.trans nestingHere, tasklist.trans tasklistHere,
            sems.trans semsHere⟩
          rw [counts number, call_pids ended, call_pidCount ended, List.countP_cons]
          omega

/-- A machine just after boot, with the address spaces of `smallSystem`. -/
def smallMachine : Machine where
  tasks := bootTasks ⟨⟨false, false, false, false, false, false⟩, 0, 0, []⟩
  system := smallSystem
  taskOf := Int.toNat
  held := ⟨0, fun _ => 1, fun _ => 1, 0, .free, fun _ => .free⟩

/-- There is memory, and the caller has given addresses that cannot be written. -/
def unwritable : PtreeServices := ⟨true, fun _ => 0, 0, 0⟩

/-- A request that succeeds keeps its two references, and a listing that cannot be copied keeps its
    buffer. -/
theorem calls_leak :
    (∃ after, smallMachine.call (.expose obliging 1 (firstSlot 2)) = .ok (0, after) ∧
      after.held.pidCount 2 = 2 ∧ after.held.usage 2 = 2 ∧
      ¬ReleasingRun smallMachine [.call (.expose obliging 1 (firstSlot 2))]) ∧
    ∃ after, smallMachine.call (.ptree 1 unwritable) = .ok (1, after) ∧ after.held.blocks = 1 ∧
      ¬ReleasingRun smallMachine [.call (.ptree 1 unwritable)] := by
  constructor
  · rcases requestAt_opens smallSystem 0x50000000 0x40000000 rfl rfl (by decide) (by decide) with
      ⟨system, directory, remaps, exposed, _⟩
    have proceeds : ¬Waits smallSystem (firstSlot 2) smallMachine.held := by
      rintro ⟨_, mm, _, taken⟩
      exact taken rfl
    have returned : smallMachine.call (.expose obliging 1 (firstSlot 2)) = .ok (0, { smallMachine with
        system := system
        held := keptBy obliging smallSystem Int.toNat (firstSlot 2) 0 smallMachine.held }) := by
      rw [Machine.call]
      rw [show smallMachine.system = smallSystem from rfl, exposeIn_run proceeds,
        show exposeCall obliging smallSystem 1 (firstSlot 2) = _ from exposed]
      rfl
    refine ⟨_, returned, rfl, rfl, fun releasing => ?_⟩
    have kept : keptBy obliging smallSystem Int.toNat (firstSlot 2) 0 smallMachine.held =
        smallMachine.held := releasing.1 _ _ returned
    exact absurd (keptBy_eq_iff.mp kept) (by decide)
  · have returned : smallMachine.call (.ptree 1 unwritable) =
        .ok (1, { smallMachine with held := smallMachine.held.addBlock }) := by
      rw [Machine.call, ptreeIn_run]
      rfl
    refine ⟨_, returned, rfl, fun releasing => ?_⟩
    exact smallMachine.held.addBlock_ne (releasing.1 _ _ returned)

end KernelHacking.Resources
