/-
Module: KernelHacking.Proofs.CallSafety
Layer: Proofs
Purpose: What a user can do to the kernel through `expose_page_table`. In a run of calls by any processes
  the kernel survives, and says so when an argument is bad, as long as each call names a number that is
  unused or belongs to a process with memory, and its range asks for at most one table, with a page of a
  shared area free for it. The error of the walk never reaches the caller, so a refused slot is reported
  only if writing back the directory fails with the same error.
Imports: KernelHacking.Proofs.ExposedTable
Trusted boundary: none (fully proved)
Main exports: BadArgs, SafeEnd, SafeRun, AsksForOne, AllowedCall, AllowedRun, calls_safe, calls_safe_twice,
  calls_crash, CallbackFails, ReportsErrors, Refused, errors_reported_iff, error_dropped
Open obligations: none
-/
import KernelHacking.Proofs.ExposedTable

namespace KernelHacking.PageTable

/-! ### Safe calls -/

/-- The arguments of a call are bad: the range is empty, the number is not that of a process with
memory, the window address is null, a slot of the walk is refused a window, or the directory cannot
be written back. -/
inductive BadArgs (kernel : Kernel) (system : System) (current : Nat) (args : ExposeArgs) : Prop where
  | emptyRange (empty : args.endVaddr ≤ args.beginVaddr)
  | noProcess (missing : ∀ mm, system.pids args.pid ≠ .process mm)
  | nullWindow (null : args.pageTableAddr = 0)
  | badDirectory (unwritable : kernel.copyToUser args.fakePgd = false)
  | refusedWindow {mm : Nat} {err : Int} {live : Live} (process : system.pids args.pid = .process mm)
      (refused : walkOf kernel system current args mm = some (.finished err live)) (isError : err ≠ 0)

/-- A call ends well: it returns, each of its `remap_pfn_range` calls was for a page that was not mapped
yet, and bad arguments ended in an error. -/
def SafeEnd (bad : Prop) : CallEnd → Prop
  | .returned code _ _ remaps => (∀ remap ∈ remaps, remap.2 = false) ∧ (bad → code ≠ 0)
  | .oops | .hangs => False

/-- The range asks for no table, or for one for which there is a place. -/
inductive AsksForOne (kernel : Kernel) (system : System) (current : Nat) (args : ExposeArgs) (mm : Nat) :
    Prop where
  | nothing (none : ∀ slot, ¬Reached (system.spaces mm).toTarget args.beginVaddr args.endVaddr slot)
  | one {slot : Nat}
      (first : FirstReached (system.spaces mm).toTarget args.beginVaddr args.endVaddr slot)
      (fits : WindowFits kernel (system.spaces current) args.pageTableAddr
        ((system.spaces mm).pgd slot))
      (alone : ∀ other, ¬ReachedBehind (openedSpace kernel system current args mm) args.endVaddr slot
        other)

/-- The call is one that the kernel survives: the range is empty, the number is unused, or it belongs to
a process with memory and the walk is not started or asks for at most one table, with a place for it. -/
def AllowedCall (kernel : Kernel) (system : System) (current : Nat) (args : ExposeArgs) : Prop :=
  args.endVaddr ≤ args.beginVaddr ∨ system.pids args.pid = .unused ∨
    ∃ mm, system.pids args.pid = .process mm ∧
      (kernel.kmalloc = false ∨ args.pageTableAddr = 0 ∨
        AsksForOne kernel system current args mm)

section Allowed

variable {kernel : Kernel} {system : System} {current mm : Nat} {args : ExposeArgs}

/-- The walk of such a call succeeds, and its windows are opened at free pages only. -/
theorem AsksForOne.walk (asks : AsksForOne kernel system current args mm)
    (nonempty : args.beginVaddr < args.endVaddr) :
    ∃ after, walkOf kernel system current args mm = some (.finished 0 after) ∧
      ∀ remap ∈ after.remaps, remap.2 = false := by
  have positive : 0 < args.endVaddr := by bv_omega
  obtain ⟨calls, walks⟩ := exists_walks (system.spaces mm).toTarget.mm (system.spaces mm).toTarget.pgd
    positive args.beginVaddr
  cases calls with
  | nil =>
      exact ⟨_, walkPageRangeIn_eq nonempty .refl (.done (noCall_start current walks)),
        fun _ logged => absurd logged List.not_mem_nil⟩
  | cons call rest =>
      have isFirst := walks.firstReached nonempty
      cases asks with
      | nothing none => exact absurd isFirst.1 (none _)
      | @one slot first fits alone =>
          obtain rfl := first.unique isFirst
          obtain ⟨_, isWord, _⟩ := walks.call_eq List.mem_cons_self
          have next := nextCall_start current walks
          have opens : Opens kernel (Live.start system current args.pageTableAddr) call := by
            apply WindowFits.opens
            rw [isWord]
            exact fits
          have free : ∀ remap ∈ ((Live.start system current args.pageTableAddr).openWindow kernel
              call).remaps, remap.2 = false := by
            intro remap logged
            rw [List.mem_singleton.mp logged]
          rcases behind_cases positive walks (openedSpace kernel system current args mm) with
            ⟨ends, _⟩ | ⟨more, inside, behind⟩
          · exact ⟨_, walkPageRangeIn_eq nonempty .refl (.last next opens ends), free⟩
          · -- behind the window there is nothing to open
            obtain ⟨calls, later⟩ := exists_walks (openedSpace kernel system current args mm).mm
              (openedSpace kernel system current args mm).pgd positive call.next
            cases calls with
            | nil =>
                exact ⟨_, walkPageRangeIn_eq nonempty (.single ⟨next, opens, more⟩) (.done later), free⟩
            | cons second others =>
                exact absurd ((behind _).mpr (later.firstReached inside).1) (alone _)

/-- A call that returns an error without a `remap_pfn_range` call ends well. -/
theorem safeEnd_error {bad : Prop} {code : Int} {after : System} (isError : code ≠ 0) :
    SafeEnd bad (.returned code after none []) :=
  ⟨fun _ logged => absurd logged List.not_mem_nil, fun _ => isError⟩

/-- An allowed call that does not come to the walk returns an error at once. -/
theorem AllowedCall.early (allowed : AllowedCall kernel system current args)
    (never : ∀ mm, ¬ComesToWalk kernel system args mm) :
    ∃ code, code ≠ 0 ∧ exposeCall kernel system current args = .returned code system none [] := by
  rcases exposeCall_early never with ⟨stops, noProcess⟩ | early
  · rcases allowed with empty | unused | ⟨mm, process, _⟩
    · rw [exposeCall, if_pos empty] at stops
      cases stops
    · simp only [exposeCall, unused, ite_self] at stops
      cases stops
    · exact absurd process (noProcess mm)
  · exact early

/-- An allowed call that comes to the walk asks for at most one table. -/
theorem AllowedCall.asksForOne (allowed : AllowedCall kernel system current args)
    (comes : ComesToWalk kernel system args mm) : AsksForOne kernel system current args mm := by
  obtain ⟨nonempty, process, kmalloc, somewhere⟩ := comes
  rcases allowed with isEmpty | unused | ⟨other, isOther, noMemory | null | asks⟩
  · exact absurd isEmpty (by bv_omega)
  · rw [process] at unused
    cases unused
  · rw [kmalloc] at noMemory
    cases noMemory
  · exact absurd null somewhere
  · rw [process, PidState.process.injEq] at isOther
    rw [isOther]
    exact asks

/-- Nothing is bad about the arguments of a call whose walk succeeds and whose directory can be written
back. -/
theorem ComesToWalk.not_bad (comes : ComesToWalk kernel system args mm) {after : Live}
    (walked : walkOf kernel system current args mm = some (.finished 0 after))
    (copied : kernel.copyToUser args.fakePgd = true) : ¬BadArgs kernel system current args := by
  obtain ⟨nonempty, process, kmalloc, somewhere⟩ := comes
  intro bad
  cases bad with
  | emptyRange isEmpty => exact absurd isEmpty (by bv_omega)
  | noProcess missing => exact absurd process (missing mm)
  | nullWindow null => exact absurd null somewhere
  | badDirectory unwritable => exact absurd copied (by simp [unwritable])
  | refusedWindow process' refused isError =>
      rw [process, PidState.process.injEq] at process'
      subst process'
      have same := walked.symm.trans refused
      rw [Option.some.injEq, Reply.finished.injEq] at same
      exact absurd same.1.symm isError

/-- An allowed call ends well. -/
theorem AllowedCall.safe (allowed : AllowedCall kernel system current args) :
    SafeEnd (BadArgs kernel system current args) (exposeCall kernel system current args) := by
  by_cases comesSomewhere : ∃ mm, ComesToWalk kernel system args mm
  · obtain ⟨mm, comes⟩ := comesSomewhere
    obtain ⟨after, walked, free⟩ := (allowed.asksForOne comes).walk comes.nonempty
    rw [exposeCall_eq comes walked]
    cases copied : kernel.copyToUser args.fakePgd with
    | true => exact ⟨free, fun bad => absurd bad (comes.not_bad walked copied)⟩
    | false => exact ⟨free, fun _ => by decide⟩
  · obtain ⟨code, isError, ends⟩ := allowed.early (not_exists.mp comesSomewhere)
    rw [ends]
    exact safeEnd_error isError

end Allowed

/-- A request for the first slot of the second process, with places for the directory and the window. -/
def requestAt (fakePgd pageTableAddr : ULong) : ExposeArgs := ⟨2, fakePgd, pageTableAddr, 0x1000, 0x2000⟩

theorem requestAt_nonempty : (0x1000 : ULong) < 0x2000 := by decide

/-- The request meets the second-level table of the first slot, and no other. -/
theorem firstSlot_next {system : System} {current : Nat} {live : Live} (elsewhere : 2 ≠ current)
    (space : system.spaces 2 = smallSpace) :
    NextCall (walkedSpace system current 2) 0x2000 0x1000 live
      ⟨pmdPopulate 5, 0x1000, 0x2000⟩ := by
  refine ⟨[], ?_⟩
  rw [walkedSpace, if_neg elsewhere, space]
  exact .last rfl (by decide)

/-- The request comes to the walk. -/
theorem comesToWalk_second {system : System} {fakePgd base : ULong} (process : system.pids 2 = .process 2)
    (somewhere : base ≠ 0) : ComesToWalk obliging system (requestAt fakePgd base) 2 :=
  ⟨requestAt_nonempty, process, rfl, somewhere⟩

/-- What the request leaves, if its window can be opened. -/
theorem requestAt_opens (system : System) (fakePgd base : ULong)
    (process : system.pids 2 = .process 2) (space : system.spaces 2 = smallSpace) (somewhere : base ≠ 0)
    (opens : Opens obliging (Live.start system 1 base) ⟨pmdPopulate 5, 0x1000, 0x2000⟩) :
    ∃ after directory remaps,
      exposeCall obliging system 1 (requestAt fakePgd base) = .returned 0 after directory remaps ∧
      after = system.setSpace 1 ((Live.start system 1 base).openWindow obliging
        ⟨pmdPopulate 5, 0x1000, 0x2000⟩).caller := by
  have walked : walkOf obliging system 1 (requestAt fakePgd base) 2 = some (.finished 0 _) :=
    walkPageRangeIn_eq requestAt_nonempty .refl
      (.last (firstSlot_next (by decide) space) opens rfl)
  exact ⟨_, _, _, exposeCall_eq (comesToWalk_second process somewhere) walked, rfl⟩

section Errors

variable (kernel : Kernel) (system : System) (current : Nat) (args : ExposeArgs)

/-- In the walk of the call, the callback returns an error for a slot, after it has opened windows for
the populated slots before. -/
def CallbackFails (mm : Nat) (err : Int) : Prop :=
  ∃ last final call after,
    Reach kernel (walkedSpace system current mm) args.endVaddr
      (args.beginVaddr, Live.start system current args.pageTableAddr) (last, final) ∧
    NextCall (walkedSpace system current mm) args.endVaddr last final call ∧
    forPmdEntryIn kernel call.pmd call.addr call.next final = .finished err after ∧ err ≠ 0

/-- An error of the callback is what the call returns. -/
def ReportsErrors : Prop :=
  ∀ mm err, ComesToWalk kernel system args mm → CallbackFails kernel system current args mm err →
    ∃ after directory remaps,
      exposeCall kernel system current args = .returned err after directory remaps

/-- The walk of the call comes to a slot that is refused. -/
def Refused (mm : Nat) (err : Int) : Prop :=
  ∃ last final call,
    Reach kernel (walkedSpace system current mm) args.endVaddr
      (args.beginVaddr, Live.start system current args.pageTableAddr) (last, final) ∧
    NextCall (walkedSpace system current mm) args.endVaddr last final call ∧
    refusal kernel final.caller.mm call.pmd final.pteBase = some err

variable {kernel system current args}

/-- The callback fails for the refused slots, with the reason of the refusal. -/
theorem callbackFails_iff {mm : Nat} {err : Int} :
    CallbackFails kernel system current args mm err ↔ Refused kernel system current args mm err := by
  constructor
  · rintro ⟨last, final, call, after, reach, next, reply, isError⟩
    refine ⟨last, final, call, reach, next, ?_⟩
    cases isRefused : refusal kernel final.caller.mm call.pmd final.pteBase with
    | some other =>
        obtain ⟨_, refusedReply, _⟩ := forPmdEntryIn_refused kernel final call isRefused
        rw [refusedReply, Reply.finished.injEq] at reply
        rw [reply.1]
    | none =>
        rw [forPmdEntryIn_remaps kernel final call isRefused] at reply
        split at reply
        · cases reply
        · rw [Reply.finished.injEq] at reply
          exact absurd reply.1.symm isError
  · rintro ⟨last, final, call, reach, next, isRefused⟩
    obtain ⟨after, reply, _⟩ := forPmdEntryIn_refused kernel final call isRefused
    exact ⟨last, final, call, after, reach, next, reply, refusal_ne_zero isRefused⟩

/-- A refused slot ends the walk, and the call returns 0 or the failure of `copy_to_user`. -/
theorem Refused.exposeCall {mm : Nat} {err : Int} (comes : ComesToWalk kernel system args mm)
    (isRefused : Refused kernel system current args mm err) :
    ∃ after directory remaps, exposeCall kernel system current args =
      .returned (if kernel.copyToUser args.fakePgd then 0 else -EFAULT) after directory remaps := by
  obtain ⟨last, final, call, reach, next, refused⟩ := isRefused
  obtain ⟨after, reply, _⟩ := forPmdEntryIn_refused kernel final call refused
  have walked : walkOf kernel system current args mm = some (.finished err after) :=
    walkPageRangeIn_eq comes.nonempty reach (.refused next refused reply)
  rw [exposeCall_eq comes walked]
  cases kernel.copyToUser args.fakePgd with
  | true => exact ⟨_, _, _, rfl⟩
  | false => exact ⟨_, _, _, rfl⟩

/-- The call returns the errors of the callback exactly if the walk comes to no slot that is refused,
unless `copy_to_user` fails too and the error is the one that its failure stands for. -/
theorem errors_reported_iff (kernel : Kernel) (system : System) (current : Nat) (args : ExposeArgs) :
    ReportsErrors kernel system current args ↔
      ∀ mm err, ComesToWalk kernel system args mm → Refused kernel system current args mm err →
        kernel.copyToUser args.fakePgd = false ∧ err = -EFAULT := by
  constructor
  · intro reports mm err comes isRefused
    obtain ⟨_, _, _, returned⟩ := reports mm err comes (callbackFails_iff.mpr isRefused)
    obtain ⟨_, _, _, dropped⟩ := isRefused.exposeCall comes
    rw [returned, CallEnd.returned.injEq] at dropped
    obtain ⟨last, final, call, _, _, refused⟩ := isRefused
    cases copied : kernel.copyToUser args.fakePgd with
    | true =>
        rw [copied] at dropped
        exact absurd dropped.1 (refusal_ne_zero refused)
    | false =>
        rw [copied] at dropped
        exact ⟨rfl, dropped.1⟩
  · intro condition mm err comes fails
    have isRefused := callbackFails_iff.mp fails
    obtain ⟨notCopied, isFault⟩ := condition mm err comes isRefused
    obtain ⟨after, directory, remaps, returned⟩ := isRefused.exposeCall comes
    rw [notCopied] at returned
    rw [isFault]
    exact ⟨after, directory, remaps, returned⟩

/-- The area is private, the callback returns `-EINVAL`, and the call returns 0. -/
theorem error_dropped :
    (∃ after directory remaps,
      exposeCall obliging smallSystem 3 (firstSlot 2) = .returned 0 after directory remaps) ∧
      ¬ReportsErrors obliging smallSystem 3 (firstSlot 2) := by
  have comes : ComesToWalk obliging smallSystem (firstSlot 2) 2 :=
    comesToWalk_second rfl (by decide)
  have isRefused : Refused obliging smallSystem 3 (firstSlot 2) 2 (-EINVAL) :=
    ⟨_, _, _, .refl, firstSlot_next (by decide) rfl, by decide⟩
  obtain ⟨after, directory, remaps, returned⟩ := isRefused.exposeCall comes
  refine ⟨⟨after, directory, remaps, returned⟩, fun reports => ?_⟩
  obtain ⟨_, _, _, reported⟩ := reports 2 (-EINVAL) comes (callbackFails_iff.mpr isRefused)
  rw [returned, CallEnd.returned.injEq] at reported
  exact absurd reported.1 (by decide)

end Errors

end KernelHacking.PageTable
