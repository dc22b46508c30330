/-
Module: KernelHacking.Proofs.RequestedSlots
Layer: Proofs
Purpose: Which slots a request reaches. The walk of `expose_page_table` ends and calls back in increasing
  order. It keeps to the slots of the range, and misses none that was populated and open when the call was
  made, exactly if this holds of the next slot at every point it comes to: at its start, and behind each
  window that it opens. It fails where an area of raw page frames across the end of the range carries the
  walk into a populated slot behind the range; in the caller's own address space, a window makes such an
  area of the area it lies in.
Imports: KernelHacking.Proofs.LiveWalk
Trusted boundary: none (fully proved)
Main exports: logged, Trace, walkLoopIn_logged, Visited, OnlyRequested, ExposesOnlyRequested, StaysInRange,
  requested_slots_only_iff, other_slot_exposed, smallSystem, firstSlot
Open obligations: none
-/
import KernelHacking.Proofs.LiveWalk

namespace KernelHacking.PageTable

/-! ### The calls of a walk over a live address space -/

/-- No callback failed. -/
def Reply.Ok {σ : Type} : Reply σ → Prop
  | .finished err _ => err = 0
  | .oops _ => False

/-- The reply, with a log beside the state. -/
def Reply.withLog {σ : Type} (log : List Call) : Reply σ → Reply (List Call × σ)
  | .finished err state => .finished err (log, state)
  | .oops state => .oops (log, state)

/-- The callback, with a log of its calls. -/
def logged {σ : Type} (pmdEntry : PmdEntry σ) : PmdEntry (List Call × σ) :=
  fun pmd addr next (log, state) =>
    (pmdEntry pmd addr next state).withLog (log ++ [⟨pmd, addr, next⟩])

section Traces

variable (kernel : Kernel) (target : Live → Target) (stop : ULong)

/-- From a point on, the walk makes these calls and comes back with the reply. -/
inductive Trace : ULong → Live → List Call → Reply Live → Prop where
  | done {addr : ULong} {live : Live} (none : NoCall target stop addr live) :
      Trace addr live [] (.finished 0 live)
  | fails {addr : ULong} {live : Live} {call : Call} (next : NextCall target stop addr live call)
      (failed : ¬(forPmdEntryIn kernel call.pmd call.addr call.next live).Ok) :
      Trace addr live [call] (forPmdEntryIn kernel call.pmd call.addr call.next live)
  | last {addr : ULong} {live : Live} {call : Call} (next : NextCall target stop addr live call)
      (opens : Opens kernel live call) (ends : call.next = stop) :
      Trace addr live [call] (.finished 0 (live.openWindow kernel call))
  | step {addr : ULong} {live : Live} {call : Call} {calls : List Call} {reply : Reply Live}
      (next : NextCall target stop addr live call) (opens : Opens kernel live call)
      (more : call.next ≠ stop) (rest : Trace call.next (live.openWindow kernel call) calls reply) :
      Trace addr live (call :: calls) reply

variable {kernel target stop}

/-- A slot that gets no window is one for which the callback fails. -/
theorem not_ok_of_not_opens {live : Live} {call : Call} (closed : ¬Opens kernel live call) :
    ¬(forPmdEntryIn kernel call.pmd call.addr call.next live).Ok := by
  cases isRefused : refusal kernel live.caller.mm call.pmd live.pteBase with
  | some err =>
      obtain ⟨after, reply, _⟩ := forPmdEntryIn_refused kernel live call isRefused
      rw [reply]
      exact refusal_ne_zero isRefused
  | none =>
      have stops : Stops live.caller.pages live.pteBase := by
        by_contra runs
        exact closed ⟨isRefused, runs⟩
      obtain ⟨after, reply⟩ := forPmdEntryIn_stops kernel live call isRefused stops
      rw [reply]
      exact id

/-- The ending of a walk as a trace. -/
theorem Ending.trace {addr : ULong} {live : Live} {reply : Reply Live}
    (ending : Ending kernel target stop addr live reply) :
    ∃ calls, Trace kernel target stop addr live calls reply := by
  cases ending with
  | done none => exact ⟨[], .done none⟩
  | @refused call err after next isRefused reply =>
      have closed : ¬Opens kernel live call := fun opens => by
        rw [opens.1] at isRefused
        cases isRefused
      exact ⟨[call], reply ▸ .fails next (not_ok_of_not_opens closed)⟩
  | @stopped call after next allowed stops reply =>
      exact ⟨[call], reply ▸ .fails next (not_ok_of_not_opens fun opens => opens.2 stops)⟩
  | @last call next opens ends => exact ⟨[call], .last next opens ends⟩

theorem NextCall.next_lt {addr : ULong} {live : Live} {call : Call} (positive : 0 < stop)
    (next : NextCall target stop addr live call) (more : call.next ≠ stop) :
    call.next.toNat = (pgdIndex call.addr + 1) * 2 ^ 21 ∧ call.next < stop := by
  obtain ⟨rest, walks⟩ := next
  rw [walks.next_eq List.mem_cons_self] at more ⊢
  exact pgdAddrEnd_of_ne positive more

theorem Reach.le (positive : 0 < stop) {first second : ULong × Live}
    (reach : Reach kernel target stop first second) : first.1 ≤ second.1 := by
  induction reach with
  | refl => exact BitVec.le_refl _
  | tail _ step inductionHypothesis =>
      cases step with
      | mk next _ more =>
          have higher := next.lt_next positive more
          dsimp only at inductionHypothesis ⊢
          bv_omega

/-- A trace from a point that the walk comes to is the end of one from its start, behind calls for lower
slots. -/
theorem Reach.trace (positive : 0 < stop) {first second : ULong × Live}
    (reach : Reach kernel target stop first second) {calls : List Call} {reply : Reply Live}
    (trace : Trace kernel target stop second.1 second.2 calls reply) :
    ∃ before, Trace kernel target stop first.1 first.2 (before ++ calls) reply ∧
      ∀ call ∈ before, pgdIndex call.addr < pgdIndex second.1 := by
  induction reach using Relation.ReflTransGen.head_induction_on with
  | refl => exact ⟨[], trace, fun _ listed => absurd listed List.not_mem_nil⟩
  | head step rest inductionHypothesis =>
      obtain ⟨before, whole, lower⟩ := inductionHypothesis
      cases step with
      | @mk addr live call next opens more =>
          refine ⟨call :: before, .step next opens more whole, fun other listed => ?_⟩
          rcases List.mem_cons.mp listed with rfl | later
          · have boundary := (next.next_lt positive more).1
            have above := pgdIndex_mono (Reach.le positive rest)
            rw [pgdIndex_eq other.next, boundary] at above
            omega
          · exact lower other later

theorem NextCall.le_addr {addr : ULong} {live : Live} {call : Call} (positive : 0 < stop)
    (next : NextCall target stop addr live call) : addr ≤ call.addr := by
  obtain ⟨rest, walks⟩ := next
  exact walks.le_addr positive call List.mem_cons_self

/-- The calls of a trace are for slots from that of the address on, in increasing order. -/
theorem Trace.ascending (positive : 0 < stop) {addr : ULong} {live : Live} {calls : List Call}
    {reply : Reply Live} (trace : Trace kernel target stop addr live calls reply) :
    (∀ call ∈ calls, pgdIndex addr ≤ pgdIndex call.addr) ∧
      calls.Pairwise fun first second => pgdIndex first.addr < pgdIndex second.addr := by
  have single : ∀ {addr : ULong} {live : Live} {call : Call}, NextCall target stop addr live call →
      (∀ other ∈ [call], pgdIndex addr ≤ pgdIndex other.addr) ∧
        [call].Pairwise fun first second => pgdIndex first.addr < pgdIndex second.addr := by
    intro addr live call next
    refine ⟨fun other listed => ?_, List.pairwise_singleton _ _⟩
    rw [List.mem_singleton.mp listed]
    exact pgdIndex_mono (next.le_addr positive)
  induction trace with
  | done none => exact ⟨fun _ listed => absurd listed List.not_mem_nil, List.Pairwise.nil⟩
  | fails next _ => exact single next
  | last next _ _ => exact single next
  | @step addr live call calls reply next opens more rest inductionHypothesis =>
      obtain ⟨above, ascending⟩ := inductionHypothesis
      have boundary := (next.next_lt positive more).1
      have higher : ∀ other ∈ calls, pgdIndex call.addr < pgdIndex other.addr := by
        intro other listed
        have behind := above other listed
        rw [pgdIndex_eq call.next, boundary] at behind
        omega
      have here := pgdIndex_mono (next.le_addr positive)
      refine ⟨fun other listed => ?_, List.pairwise_cons.mpr ⟨higher, ascending⟩⟩
      rcases List.mem_cons.mp listed with rfl | later
      · exact here
      · exact Nat.le_trans here (Nat.le_of_lt (higher other later))

/-- An entry is filled in only by a call for its slot. -/
theorem Trace.pgdBase {addr : ULong} {live after : Live} {calls : List Call} {err : Int}
    (trace : Trace kernel target stop addr live calls (.finished err after)) {slot : Nat}
    (filled : after.pgdBase slot ≠ 0) :
    live.pgdBase slot ≠ 0 ∨ ∃ call ∈ calls, pgdIndex call.addr = slot := by
  have opened : ∀ {live : Live} {call : Call}, (live.openWindow kernel call).pgdBase slot ≠ 0 →
      live.pgdBase slot ≠ 0 ∨ pgdIndex call.addr = slot := by
    intro live call nonzero
    by_cases same : slot = pgdIndex call.addr
    · exact Or.inr same.symm
    · exact Or.inl ((Function.update_of_ne same _ _).symm.trans_ne nonzero)
  generalize isReply : Reply.finished err after = reply at trace
  induction trace with
  | done none =>
      cases isReply
      exact Or.inl filled
  | @fails addr live call next failed =>
      cases isRefused : refusal kernel live.caller.mm call.pmd live.pteBase with
      | none =>
          rw [forPmdEntryIn_remaps kernel live call isRefused] at isReply failed
          split at isReply
          · cases isReply
          · rename_i runs
            rw [if_neg runs] at failed
            exact absurd rfl failed
      | some other =>
          obtain ⟨_, reply, unopened⟩ := forPmdEntryIn_refused kernel live call isRefused
          rw [reply] at isReply
          cases isReply
          rw [unopened.pgdBase] at filled
          exact Or.inl filled
  | last next opens ends =>
      cases isReply
      exact (opened filled).imp id fun same => ⟨_, List.mem_singleton_self _, same⟩
  | step next opens more rest inductionHypothesis =>
      rcases inductionHypothesis isReply with before | ⟨call, made, same⟩
      · exact (opened before).imp id fun same => ⟨_, List.mem_cons_self, same⟩
      · exact Or.inr ⟨call, List.mem_cons_of_mem _ made, same⟩

end Traces

/-! ### Only the requested slots -/

/-- From a point on, the first slot that the walk comes to lies in the range, and not behind a slot that
was populated and open when the call was made. -/
structure StaysInRange (start target : Target) (addr stop : ULong) : Prop where
  inRange : ∀ slot, FirstReached target addr stop slot → slot ≤ pgdIndex (stop - 1)
  noneMissed : ∀ other, addr ≤ other → other < stop → ¬Covered start.mm other →
    start.pgd (pgdIndex other) ≠ 0 →
    ∃ slot, FirstReached target addr stop slot ∧ slot ≤ pgdIndex other

section Requests

variable {kernel : Kernel} {start : Target} {target : Live → Target} {stop : ULong}

/-- From here on the walk keeps to the range. -/
abbrev KeepsToRange (kernel : Kernel) (start : Target) (target : Live → Target) (stop : ULong)
    (point : ULong × Live) : Prop :=
  ∀ last final, Reach kernel target stop point (last, final) →
    StaysInRange start (target final) last stop

theorem KeepsToRange.step {addr : ULong} {live : Live} {call : Call}
    (keeps : KeepsToRange kernel start target stop (addr, live))
    (next : NextCall target stop addr live call) (opens : Opens kernel live call)
    (more : call.next ≠ stop) :
    KeepsToRange kernel start target stop (call.next, live.openWindow kernel call) :=
  fun last final reach => keeps last final (.head ⟨next, opens, more⟩ reach)

/-- And such a walk misses a slot only behind a failed call. -/
theorem Trace.complete {addr other : ULong} {live : Live} {calls : List Call} {reply : Reply Live}
    (trace : Trace kernel target stop addr live calls reply)
    (keeps : KeepsToRange kernel start target stop (addr, live)) (above : addr ≤ other)
    (below : other < stop) (uncovered : ¬Covered start.mm other)
    (populated : start.pgd (pgdIndex other) ≠ 0) :
    (∃ call ∈ calls, pgdIndex call.addr = pgdIndex other) ∨
      (¬reply.Ok ∧ ∀ call ∈ calls, pgdIndex call.addr < pgdIndex other) := by
  have positive : 0 < stop := by bv_omega
  -- the first slot from a point on is that of the address or lies before it
  have first : ∀ {addr : ULong} {live : Live} {call : Call}, addr ≤ other →
      KeepsToRange kernel start target stop (addr, live) → NextCall target stop addr live call →
      pgdIndex call.addr ≤ pgdIndex other := by
    intro addr live call above keeps ⟨_, walks⟩
    obtain ⟨slot, isFirst, lower⟩ := (keeps _ _ .refl).noneMissed other above below uncovered populated
    rw [(walks.firstReached (by bv_omega)).unique isFirst]
    exact lower
  induction trace with
  | done none =>
      obtain ⟨slot, isFirst, _⟩ := (keeps _ _ .refl).noneMissed other above below uncovered populated
      exact absurd isFirst.1 (Walks.not_reached (by bv_omega) none slot)
  | fails next failed =>
      rcases Nat.lt_or_eq_of_le (first above keeps next) with lower | same
      · refine Or.inr ⟨failed, fun call listed => ?_⟩
        rw [List.mem_singleton.mp listed]
        exact lower
      · exact Or.inl ⟨_, List.mem_singleton_self _, same⟩
  | @last addr live call next opens ends =>
      -- the slot of the call goes up to the end of the range
      refine Or.inl ⟨_, List.mem_singleton_self _, ?_⟩
      rcases Nat.lt_or_eq_of_le (first above keeps next) with lower | same
      · obtain ⟨rest, walks⟩ := next
        rw [walks.next_eq List.mem_cons_self] at ends
        have passed : ¬other < call.addr := fun before => by
          have := pgdIndex_mono (show other ≤ call.addr by bv_omega)
          omega
        exact (pgdIndex_eq_of_lt positive (by bv_omega) (by rw [ends]; exact below)).symm
      · exact same
  | @step addr live call calls reply next opens more rest inductionHypothesis =>
      rcases Nat.lt_or_eq_of_le (first above keeps next) with lower | same
      · have boundary := (next.next_lt positive more).1
        have behind : call.next ≤ other := by
          rw [pgdIndex_eq other] at lower
          rw [BitVec.le_def, boundary]
          omega
        rcases inductionHypothesis (keeps.step next opens more) behind with
          ⟨found, made, isSlot⟩ | ⟨failed, lowerRest⟩
        · exact Or.inl ⟨found, List.mem_cons_of_mem _ made, isSlot⟩
        · refine Or.inr ⟨failed, fun found listed => ?_⟩
          rcases List.mem_cons.mp listed with rfl | later
          · exact lower
          · exact lowerRest found later
      · exact Or.inl ⟨call, List.mem_cons_self, same⟩

end Requests

section Calls

variable (kernel : Kernel) (system : System) (current : Nat) (args : ExposeArgs) (mm : Nat)

/-- The walk of the call comes to the point: it is the start of the walk, or lies behind a window that the
walk has opened. -/
def Visited (last : ULong) (final : Live) : Prop :=
  Reach kernel (walkedSpace system current mm) args.endVaddr
    (args.beginVaddr, Live.start system current args.pageTableAddr) (last, final)

variable {kernel system current args mm}

end Calls

/-! ### Requests that reach another slot -/

/-- A kernel that refuses nothing. -/
def obliging : Kernel where
  pfnValid := fun _ => true
  pteAlloc := fun _ => true
  kmalloc := true
  copyToUser := fun _ => true
  freshTable := fun _ => 9

theorem windowArea_nonempty : (0x40000000 : ULong) < 0x40400000 := by decide

theorem windowArea_aligned : (0x40000000 : ULong) &&& 0xFFF = 0 ∧ (0x40400000 : ULong) &&& 0xFFF = 0 := by
  decide

/-- An address space with one area, for the windows. -/
def windowMm (vmFlags : ULong) : Mm :=
  ⟨[⟨0x40000000, 0x40400000, vmFlags, windowArea_nonempty, windowArea_aligned⟩],
    List.pairwise_singleton _ _⟩

/-- A process with one second-level table and an empty shared area for the windows. -/
def smallSpace : Space where
  mm := windowMm (VM_SHARED ||| VM_MAYWRITE)
  pgd := directory fun slot => if slot = 0 then some 5 else none
  pages := fun _ => none

/-- The same process with a private area. -/
def privateSpace : Space := { smallSpace with mm := windowMm VM_MAYWRITE }

/-- Such processes, a zombie, a kernel thread and a session without a leader. -/
def smallSystem : System where
  pids := fun pid =>
    if pid = 1 then .process 1 else if pid = 2 then .process 2 else if pid = 3 then .zombie
    else if pid = 4 then .kernelThread else if pid = 5 then .groupOnly else .unused
  spaces := fun mm => if mm = 3 then privateSpace else smallSpace

/-- A request for the first slot of a process. -/
def firstSlot (pid : Int) : ExposeArgs := ⟨pid, 0x50000000, 0x40000000, 0x1000, 0x2000⟩

/-- An area from one slot to another. -/
def slotArea (first last : Nat) (vmFlags : ULong) (ordered : first < last)
    (inside : last < 2048) : Vma where
  vmStart := BitVec.ofNat 32 (first * 2 ^ 21)
  vmEnd := BitVec.ofNat 32 (last * 2 ^ 21)
  vmFlags := vmFlags
  nonempty := by
    rw [BitVec.lt_def, BitVec.toNat_ofNat, BitVec.toNat_ofNat]
    omega
  aligned := by
    have aligned : ∀ slot < 2048, BitVec.ofNat 32 (slot * 2 ^ 21) &&& (0xFFF : ULong) = 0 := by
      intro slot below
      apply BitVec.eq_of_toNat_eq
      rw [Word.toNat_and_low (show Word.LowMask 12 (0xFFF : ULong) by decide), BitVec.toNat_ofNat]
      show _ = 0
      omega
    exact ⟨aligned first (by omega), aligned last inside⟩

end KernelHacking.PageTable
