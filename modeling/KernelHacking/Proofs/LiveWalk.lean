/-
Module: KernelHacking.Proofs.LiveWalk
Layer: Proofs
Purpose: The walk of `expose_page_table` over an address space that changes under it. Between two calls of
  the callback nothing changes, so the walk is a sequence of fixed walks, one up to each call. A call is
  refused, stops the kernel or opens a window; the walk opens windows (`OpenStep`) until it comes to
  one of four endings (`Ending`), and `walkPageRangeIn` returns what that ending says.
Imports: Mathlib.Logic.Relation, KernelHacking.Model.PageTableSystem, KernelHacking.Proofs.PageWalk
Trusted boundary: none (fully proved)
Main exports: walkLoopIn_none, walkLoopIn_cons, refusal, Stops, Live.openWindow, OpenStep, Reach,
  Ending, exists_ending, walkPageRangeIn_eq, exposeCall_eq, returned_cases
Open obligations: none
-/
import Mathlib.Logic.Relation
import KernelHacking.Model.PageTableSystem
import KernelHacking.Proofs.PageWalk

namespace KernelHacking.PageTable

/-! ### From one call to the next -/

/-- A call ends where its round ends. -/
theorem Walks.next_eq {mm : Mm} {pgd : Nat → ULong} {stop addr : ULong} {calls : List Call}
    (walks : Walks mm pgd stop addr calls) {call : Call} (made : call ∈ calls) :
    call.next = pgdAddrEnd call.addr stop := by
  induction walks with
  | leap skips ends => simp at made
  | skip skips more rest inductionHypothesis => exact inductionHypothesis made
  | last uncovered ends => rw [(mem_callAt.mp made).2]
  | next uncovered more rest inductionHypothesis =>
      rcases List.mem_append.mp made with here | later
      · rw [(mem_callAt.mp here).2]
      · exact inductionHypothesis later

/-- The calls of a walk are determined by the address space and the range. -/
theorem Walks.unique {mm : Mm} {pgd : Nat → ULong} {stop addr : ULong} {first second : List Call}
    (one : Walks mm pgd stop addr first) (two : Walks mm pgd stop addr second) : first = second := by
  induction one generalizing second with
  | leap skips ends =>
      cases two with
      | leap _ _ => rfl
      | skip skips' more _ =>
          rw [skips, Option.some.injEq] at skips'
          exact absurd (skips' ▸ ends) more
      | last walks _ => simp [skips] at walks
      | next walks _ _ => simp [skips] at walks
  | skip skips more _ inductionHypothesis =>
      cases two with
      | leap skips' ends =>
          rw [skips, Option.some.injEq] at skips'
          exact absurd (skips' ▸ ends) more
      | skip skips' _ rest =>
          rw [skips, Option.some.injEq] at skips'
          subst skips'
          exact inductionHypothesis rest
      | last walks _ => simp [skips] at walks
      | next walks _ _ => simp [skips] at walks
  | last walks ends =>
      cases two with
      | leap skips _ => simp [walks] at skips
      | skip skips _ _ => simp [walks] at skips
      | last _ _ => rfl
      | next _ more _ => exact absurd ends more
  | next walks more _ inductionHypothesis =>
      cases two with
      | leap skips _ => simp [walks] at skips
      | skip skips _ _ => simp [walks] at skips
      | last _ ends => exact absurd ends more
      | next _ _ rest => rw [inductionHypothesis rest]

section Peel

variable {σ : Type} {space : σ → Target} {pmdEntry : PmdEntry σ} {stop addr : ULong} {state : σ}
  {fuel : Nat}

/-- A walk that meets no populated slot changes nothing. -/
theorem walkLoopIn_none (positive : 0 < stop)
    (walks : Walks (space state).mm (space state).pgd stop addr [])
    (enough : 2 ^ 32 - addr.toNat ≤ fuel) :
    walkLoopIn space pmdEntry stop fuel addr (pgdIndex addr) state = some (.finished 0 state) := by
  generalize noCalls : ([] : List Call) = calls at walks
  induction walks generalizing fuel with
  | leap skips ends =>
      obtain ⟨rounds, rfl, _⟩ := exists_rounds enough
      simp only [walkLoopIn, walkTurn_skip pmdEntry skips, ends, if_true]
  | skip skips more rest inductionHypothesis =>
      obtain ⟨rounds, rfl, left⟩ := exists_rounds enough
      simp only [walkLoopIn, walkTurn_skip pmdEntry skips, more, if_false]
      exact inductionHypothesis (left _ (pfnmapAt_some skips).2.2.2) noCalls
  | last walks ends =>
      obtain ⟨rounds, rfl, _⟩ := exists_rounds enough
      simp only [walkLoopIn, walkTurn_walk pmdEntry walks, ← noCalls, runCalls, ne_eq,
        not_true_eq_false, if_false, ends, if_true]
  | next walks more rest inductionHypothesis =>
      obtain ⟨rounds, rfl, left⟩ := exists_rounds enough
      obtain ⟨here, later⟩ := List.append_eq_nil_iff.mp noCalls.symm
      simp only [walkLoopIn, walkTurn_walk pmdEntry walks, here, runCalls, ne_eq, not_true_eq_false,
        if_false, more]
      rw [← pgdIndex_next positive more]
      exact inductionHypothesis (left _ (lt_pgdAddrEnd positive more)) later.symm

/-- What the loop does with the reply of a call: it stops, or goes on behind the slot. -/
def afterCall (space : σ → Target) (pmdEntry : PmdEntry σ) (stop : ULong) (fuel : Nat) (next : ULong) :
    Reply σ → Option (Reply σ)
  | .oops after => some (.oops after)
  | .finished err after =>
      if err ≠ 0 then some (.finished err after)
      else if next = stop then some (.finished 0 after)
      else walkLoopIn space pmdEntry stop fuel next (pgdIndex next) after

/-- One round that makes its call. -/
theorem walkLoopIn_call {rounds : Nat} {call : Call} (positive : 0 < stop)
    (walks : pfnmapAt (space state).mm addr = none)
    (makes : callAt (space state).pgd stop addr = [call]) :
    walkLoopIn space pmdEntry stop (rounds + 1) addr (pgdIndex addr) state =
      afterCall space pmdEntry stop rounds (pgdAddrEnd addr stop)
        (pmdEntry call.pmd call.addr call.next state) := by
  simp only [walkLoopIn, walkTurn_walk pmdEntry walks, makes, runCalls]
  cases pmdEntry call.pmd call.addr call.next state with
  | oops after => rfl
  | finished err after =>
      by_cases ok : err = 0
      · by_cases ends : pgdAddrEnd addr stop = stop
        · simp [ok, ends, afterCall]
        · simp [ok, ends, afterCall, pgdIndex_next positive ends]
      · simp [ok, afterCall]

/-- Up to its first call the walk changes nothing, and it goes on behind the slot of the call. -/
theorem walkLoopIn_cons {call : Call} {rest : List Call} (positive : 0 < stop)
    (walks : Walks (space state).mm (space state).pgd stop addr (call :: rest))
    (enough : 2 ^ 32 - addr.toNat ≤ fuel) :
    ∃ left, (call.next ≠ stop → 2 ^ 32 - call.next.toNat ≤ left) ∧
      walkLoopIn space pmdEntry stop fuel addr (pgdIndex addr) state =
        afterCall space pmdEntry stop left call.next
          (pmdEntry call.pmd call.addr call.next state) := by
  generalize isCons : call :: rest = calls at walks
  induction walks generalizing fuel rest with
  | leap skips ends => cases isCons
  | skip skips more later inductionHypothesis =>
      obtain ⟨rounds, rfl, left⟩ := exists_rounds enough
      simp only [walkLoopIn, walkTurn_skip pmdEntry skips, more, if_false]
      exact inductionHypothesis (left _ (pfnmapAt_some skips).2.2.2) isCons
  | @last addr walks ends =>
      obtain ⟨rounds, rfl, left⟩ := exists_rounds enough
      obtain ⟨_, rfl⟩ := mem_callAt.mp (isCons ▸ List.mem_cons_self)
      have single : callAt (space state).pgd stop addr =
          [⟨(space state).pgd (pgdIndex addr), addr, pgdAddrEnd addr stop⟩] := by
        rw [callAt] at isCons ⊢
        split at isCons
        · cases isCons
        · rename_i populated
          rw [if_neg populated]
      exact ⟨rounds, fun more => absurd ends more, walkLoopIn_call positive walks single⟩
  | @next addr calls walks more later inductionHypothesis =>
      obtain ⟨rounds, rfl, left⟩ := exists_rounds enough
      have above := left _ (lt_pgdAddrEnd positive more)
      by_cases empty : (space state).pgd (pgdIndex addr) = 0
      · have none : callAt (space state).pgd stop addr = [] := by
          rw [callAt, if_pos empty]
        rw [none] at isCons
        simp only [walkLoopIn, walkTurn_walk pmdEntry walks, none, runCalls, ne_eq,
          not_true_eq_false, if_false, more]
        rw [← pgdIndex_next positive more]
        exact inductionHypothesis above isCons
      · have single : callAt (space state).pgd stop addr =
            [⟨(space state).pgd (pgdIndex addr), addr, pgdAddrEnd addr stop⟩] := by
          rw [callAt, if_neg empty]
        rw [single] at isCons
        obtain ⟨rfl, _⟩ := List.cons.inj isCons
        exact ⟨rounds, fun _ => above, walkLoopIn_call positive walks single⟩

end Peel

/-! ### What a call does -/

/-- Why the callback refuses a slot: there is no area at or above the window address, the word of the
slot is bad, the frame is not valid, the area is private, or there is no memory for a second-level
table of the caller. -/
def refusal (kernel : Kernel) (mm : Mm) (pmd base : ULong) : Option Int :=
  match findVma mm base with
  | none => some (-EFAULT)
  | some vma =>
      if pmd &&& 2 ≠ 0 then some (-EINVAL)
      else if kernel.pfnValid (pmd.extractLsb' 12 20) = false then some (-EFAULT)
      else if ¬(base = vma.vmStart ∧ base + PAGE_SIZE = vma.vmEnd) ∧ isCowMapping vma.vmFlags then
        some (-EINVAL)
      else if base + PAGE_SIZE ≤ base then none
      else if kernel.pteAlloc (pageOf base) = false then some (-ENOMEM)
      else none

/-- The window address is one that `remap_pfn_range` stops at: the addresses wrap, the page is mapped
already, or the window crosses a slot boundary. -/
def Stops (pages : Pages) (base : ULong) : Prop :=
  base + PAGE_SIZE ≤ base ∨ (pages (pageOf base)).isSome = true ∨
    pgdAddrEnd base (base + PAGE_SIZE) ≠ base + PAGE_SIZE

instance (pages : Pages) (base : ULong) : Decidable (Stops pages base) :=
  inferInstanceAs (Decidable (_ ∨ _ ∨ _))

/-- The slot gets a window. -/
def Opens (kernel : Kernel) (live : Live) (call : Call) : Prop :=
  refusal kernel live.caller.mm call.pmd live.pteBase = none ∧
    ¬Stops live.caller.pages live.pteBase

instance (kernel : Kernel) (live : Live) (call : Call) : Decidable (Opens kernel live call) :=
  inferInstanceAs (Decidable (_ ∧ _))

/-- The caller's address space with a window on the second-level table of a slot. -/
def Space.openWindow (kernel : Kernel) (space : Space) (base pmd : ULong) : Space where
  mm := match findVma space.mm base with
    | none => space.mm
    | some vma => space.mm.addFlags vma.vmStart (remapFlags vma base)
  pgd := populate kernel space.pgd (pgdIndex base)
  pages := Function.update space.pages (pageOf base) (some (pmd.extractLsb' 12 20))

/-- The state after the window of a call has been opened. -/
def Live.openWindow (kernel : Kernel) (live : Live) (call : Call) : Live where
  pgdBase := Function.update live.pgdBase (pgdIndex call.addr) live.pteBase
  pteBase := live.pteBase + EACH_PTE_SIZE
  caller := live.caller.openWindow kernel live.pteBase call.pmd
  remaps := live.remaps ++ [(pageOf live.pteBase, false)]

section Callback

variable (kernel : Kernel) (live : Live) (call : Call)

/-- Every refusal is an error. -/
theorem refusal_ne_zero {kernel : Kernel} {mm : Mm} {pmd base : ULong} {err : Int}
    (refused : refusal kernel mm pmd base = some err) : err ≠ 0 := by
  rw [refusal] at refused
  repeat' split at refused
  all_goals cases refused
  all_goals decide

/-- A refused slot leaves the directory, the tables and the pages of the caller alone. It may leave flags at
the area of the window. -/
structure Unopened (live after : Live) : Prop where
  pgdBase : after.pgdBase = live.pgdBase
  pgd : after.caller.pgd = live.caller.pgd
  pages : after.caller.pages = live.caller.pages
  areas : after.caller.mm = live.caller.mm ∨
    ∃ vma, after.caller.mm = live.caller.mm.addFlags vma.vmStart (remapFlags vma live.pteBase)

theorem forPmdEntryIn_refused {err : Int}
    (refused : refusal kernel live.caller.mm call.pmd live.pteBase = some err) :
    ∃ after, forPmdEntryIn kernel call.pmd call.addr call.next live = .finished err after ∧
      Unopened live after := by
  have same : Unopened live live := ⟨rfl, rfl, rfl, Or.inl rfl⟩
  rw [refusal] at refused
  simp only [forPmdEntryIn]
  cases found : findVma live.caller.mm live.pteBase with
  | none =>
      rw [found] at refused
      cases refused
      exact ⟨_, rfl, same⟩
  | some vma =>
      rw [found] at refused
      dsimp only at refused ⊢
      split at refused
      · rename_i bad
        cases refused
        exact ⟨_, if_pos bad, same⟩
      · rename_i good
        rw [if_neg good]
        split at refused
        · rename_i invalid
          cases refused
          exact ⟨_, if_pos (by simp [invalid]), same⟩
        · rename_i valid
          rw [if_neg (by simpa using valid)]
          split at refused
          · rename_i isPrivate
            cases refused
            simp only [remapInSpace, if_pos isPrivate]
            exact ⟨_, rfl, rfl, rfl, rfl, Or.inl rfl⟩
          · rename_i allowed
            split at refused
            · cases refused
            · rename_i noWrap
              split at refused
              · rename_i noMemory
                cases refused
                simp only [remapInSpace, if_neg allowed, if_neg noWrap, noMemory,
                  Bool.false_eq_true, not_false_eq_true, if_true]
                exact ⟨_, rfl, rfl, rfl, rfl, Or.inr ⟨vma, rfl⟩⟩
              · cases refused

/-- With an area that is not private and with memory, `remap_pfn_range` stops or maps the page. -/
theorem remapInSpace_eq {vma : Vma} {base : ULong} (pfn : Frame) (space : Space)
    (isShared : ¬(¬(base = vma.vmStart ∧ base + PAGE_SIZE = vma.vmEnd) ∧ isCowMapping vma.vmFlags))
    (memory : ¬base + PAGE_SIZE ≤ base → kernel.pteAlloc (pageOf base) = true) :
    remapInSpace kernel vma base pfn space =
      if Stops space.pages base then .bug
      else .mapped
        { mm := space.mm.addFlags vma.vmStart (remapFlags vma base)
          pgd := populate kernel space.pgd (pgdIndex base)
          pages := Function.update space.pages (pageOf base) (some pfn) } := by
  simp only [remapInSpace, if_neg isShared]
  by_cases wraps : base + PAGE_SIZE ≤ base
  · rw [if_pos wraps, if_pos (show Stops space.pages base from Or.inl wraps)]
  · rw [if_neg wraps, if_neg (by simp [memory wraps])]
    by_cases taken : (space.pages (pageOf base)).isSome = true
    · rw [if_pos taken, if_pos (show Stops space.pages base from Or.inr (Or.inl taken))]
    · rw [if_neg taken]
      by_cases crosses : pgdAddrEnd base (base + PAGE_SIZE) ≠ base + PAGE_SIZE
      · rw [if_pos crosses, if_pos (show Stops space.pages base from Or.inr (Or.inr crosses))]
      · have runs : ¬Stops space.pages base := by
          rintro (bad | bad | bad)
          · exact wraps bad
          · exact taken bad
          · exact crosses bad
        rw [if_neg crosses, if_neg runs]

/-- A slot that is not refused comes to `remap_pfn_range`, with an area and memory. -/
theorem refusal_none {kernel : Kernel} {mm : Mm} {pmd base : ULong}
    (allowed : refusal kernel mm pmd base = none) :
    ∃ vma, findVma mm base = some vma ∧ ¬pmd &&& 2 ≠ 0 ∧
      kernel.pfnValid (pmd.extractLsb' 12 20) = true ∧
      ¬(¬(base = vma.vmStart ∧ base + PAGE_SIZE = vma.vmEnd) ∧ isCowMapping vma.vmFlags) ∧
      (¬base + PAGE_SIZE ≤ base → kernel.pteAlloc (pageOf base) = true) := by
  rw [refusal] at allowed
  split at allowed
  · cases allowed
  · rename_i vma found
    split at allowed
    · cases allowed
    · rename_i good
      split at allowed
      · cases allowed
      · rename_i valid
        split at allowed
        · cases allowed
        · rename_i isShared
          refine ⟨vma, found, good, by simpa using valid, isShared, fun noWrap => ?_⟩
          rw [if_neg noWrap] at allowed
          by_contra noMemory
          rw [if_pos (Bool.of_not_eq_true noMemory)] at allowed
          cases allowed

/-- Such a call stops the kernel or opens its window. -/
theorem forPmdEntryIn_remaps
    (allowed : refusal kernel live.caller.mm call.pmd live.pteBase = none) :
    forPmdEntryIn kernel call.pmd call.addr call.next live =
      if Stops live.caller.pages live.pteBase then
        .oops { live with remaps := live.remaps ++
          [(pageOf live.pteBase, (live.caller.pages (pageOf live.pteBase)).isSome)] }
      else .finished 0 (live.openWindow kernel call) := by
  obtain ⟨vma, found, good, valid, isShared, memory⟩ := refusal_none allowed
  simp only [forPmdEntryIn, found, if_neg good, pmdIndex_eq, valid, not_true_eq_false, if_false,
    remapInSpace_eq kernel _ live.caller isShared memory]
  by_cases stops : Stops live.caller.pages live.pteBase
  · simp only [if_pos stops]
  · have free : (live.caller.pages (pageOf live.pteBase)).isSome = false := by
      by_contra taken
      exact stops (Or.inr (Or.inl (Bool.of_not_eq_false taken)))
    simp only [if_neg stops, free, Live.openWindow, Space.openWindow, found]

theorem forPmdEntryIn_stops
    (allowed : refusal kernel live.caller.mm call.pmd live.pteBase = none)
    (stops : Stops live.caller.pages live.pteBase) :
    ∃ after, forPmdEntryIn kernel call.pmd call.addr call.next live = .oops after := by
  rw [forPmdEntryIn_remaps kernel live call allowed, if_pos stops]
  exact ⟨_, rfl⟩

theorem forPmdEntryIn_opens (opens : Opens kernel live call) :
    forPmdEntryIn kernel call.pmd call.addr call.next live =
      .finished 0 (live.openWindow kernel call) := by
  rw [forPmdEntryIn_remaps kernel live call opens.1, if_neg opens.2]

end Callback

/-! ### The whole walk -/

section Windows

variable (kernel : Kernel) (target : Live → Target) (stop : ULong)

/-- From an address on, the walk meets no populated slot. -/
def NoCall (addr : ULong) (live : Live) : Prop :=
  Walks (target live).mm (target live).pgd stop addr []

/-- From an address on, the first populated slot the walk meets is the one of the call. -/
def NextCall (addr : ULong) (live : Live) (call : Call) : Prop :=
  ∃ rest, Walks (target live).mm (target live).pgd stop addr (call :: rest)

/-- The walk opens a window and goes on. -/
inductive OpenStep : ULong × Live → ULong × Live → Prop where
  | mk {addr : ULong} {live : Live} {call : Call} (next : NextCall target stop addr live call)
      (opens : Opens kernel live call) (more : call.next ≠ stop) :
      OpenStep (addr, live) (call.next, live.openWindow kernel call)

/-- The walk comes from one point to another by opening windows. -/
abbrev Reach : ULong × Live → ULong × Live → Prop := Relation.ReflTransGen (OpenStep kernel target stop)

/-- How a walk ends: without another populated slot, with a slot that is refused, with a window at
which the kernel stops, or with a window at the end of the range. -/
inductive Ending (addr : ULong) (live : Live) : Reply Live → Prop where
  | done (none : NoCall target stop addr live) : Ending addr live (.finished 0 live)
  | refused {call : Call} {err : Int} {after : Live} (next : NextCall target stop addr live call)
      (refused : refusal kernel live.caller.mm call.pmd live.pteBase = some err)
      (reply : forPmdEntryIn kernel call.pmd call.addr call.next live = .finished err after) :
      Ending addr live (.finished err after)
  | stopped {call : Call} {after : Live} (next : NextCall target stop addr live call)
      (allowed : refusal kernel live.caller.mm call.pmd live.pteBase = none)
      (stops : Stops live.caller.pages live.pteBase)
      (reply : forPmdEntryIn kernel call.pmd call.addr call.next live = .oops after) :
      Ending addr live (.oops after)
  | last {call : Call} (next : NextCall target stop addr live call) (opens : Opens kernel live call)
      (ends : call.next = stop) : Ending addr live (.finished 0 (live.openWindow kernel call))

variable {kernel target stop}

/-- A step goes upwards. -/
theorem NextCall.lt_next {addr : ULong} {live : Live} {call : Call} (positive : 0 < stop)
    (next : NextCall target stop addr live call) (more : call.next ≠ stop) : addr < call.next := by
  obtain ⟨rest, walks⟩ := next
  have ends := walks.next_eq List.mem_cons_self
  have above := walks.le_addr positive call List.mem_cons_self
  rw [ends] at more ⊢
  have higher := lt_pgdAddrEnd positive more
  bv_omega

/-- Every walk comes to an end. -/
theorem exists_ending (kernel : Kernel) (target : Live → Target) (positive : 0 < stop) (addr : ULong)
    (live : Live) :
    ∃ last final reply, Reach kernel target stop (addr, live) (last, final) ∧
      Ending kernel target stop last final reply := by
  induction left : 2 ^ 32 - addr.toNat using Nat.strong_induction_on generalizing addr live with
  | _ left inductionHypothesis =>
      obtain ⟨calls, walks⟩ := exists_walks (target live).mm (target live).pgd positive addr
      cases calls with
      | nil => exact ⟨addr, live, _, .refl, .done walks⟩
      | cons call rest =>
          have next : NextCall target stop addr live call := ⟨rest, walks⟩
          cases isRefused : refusal kernel live.caller.mm call.pmd live.pteBase with
          | some err =>
              obtain ⟨after, reply, _⟩ := forPmdEntryIn_refused kernel live call isRefused
              exact ⟨addr, live, _, .refl, .refused next isRefused reply⟩
          | none =>
              by_cases stops : Stops live.caller.pages live.pteBase
              · obtain ⟨after, reply⟩ := forPmdEntryIn_stops kernel live call isRefused stops
                exact ⟨addr, live, _, .refl, .stopped next isRefused stops reply⟩
              · have opens : Opens kernel live call := ⟨isRefused, stops⟩
                by_cases ends : call.next = stop
                · exact ⟨addr, live, _, .refl, .last next opens ends⟩
                · have inRange := addr.isLt
                  have higher := BitVec.lt_def.mp (next.lt_next positive ends)
                  obtain ⟨last, final, reply, reach, ending⟩ := inductionHypothesis _ (by omega)
                    call.next (live.openWindow kernel call) rfl
                  exact ⟨last, final, reply, .head ⟨next, opens, ends⟩ reach, ending⟩

theorem NextCall.unique {addr : ULong} {live : Live} {first second : Call}
    (one : NextCall target stop addr live first) (two : NextCall target stop addr live second) :
    first = second := by
  obtain ⟨_, walks⟩ := one
  obtain ⟨_, walks'⟩ := two
  exact (List.cons.inj (walks.unique walks')).1

theorem NoCall.not_next {addr : ULong} {live : Live} {call : Call} (none : NoCall target stop addr live) :
    ¬NextCall target stop addr live call := by
  rintro ⟨_, walks⟩
  cases none.unique walks

/-- There is one way to go on. -/
theorem OpenStep.unique : Relator.RightUnique (OpenStep kernel target stop) := by
  rintro ⟨addr, live⟩ _ _ ⟨next, _, _⟩ ⟨next', _, _⟩
  rw [next.unique next']

/-- Where a walk that finishes leaves the caller: with one more window, if there is a call that is not
refused, and else with everything as it was. -/
theorem Ending.finished_cases {addr : ULong} {live after : Live} {err : Int}
    (ending : Ending kernel target stop addr live (.finished err after)) :
    (∃ call, NextCall target stop addr live call ∧ Opens kernel live call ∧ call.next = stop ∧
      after = live.openWindow kernel call) ∨
    ((∀ call, NextCall target stop addr live call →
      refusal kernel live.caller.mm call.pmd live.pteBase ≠ none) ∧ Unopened live after) := by
  cases ending with
  | done none =>
      exact Or.inr ⟨fun call next => absurd next none.not_next, rfl, rfl, rfl, Or.inl rfl⟩
  | refused next isRefused reply =>
      obtain ⟨other, sameReply, unopened⟩ := forPmdEntryIn_refused kernel live _ isRefused
      rw [sameReply, Reply.finished.injEq] at reply
      refine Or.inr ⟨fun call next' allowed => ?_, reply.2 ▸ unopened⟩
      rw [← next.unique next', isRefused] at allowed
      cases allowed
  | last next opens ends => exact Or.inl ⟨_, next, opens, ends, rfl⟩

/-- Behind its ending a walk opens no window. -/
theorem Ending.no_step {addr : ULong} {live after : Live} {err : Int} {point : ULong × Live}
    (ending : Ending kernel target stop addr live (.finished err after)) :
    ¬OpenStep kernel target stop (addr, live) point := by
  rintro ⟨next, opens, more⟩
  rcases ending.finished_cases with ⟨call, next', _, ends, _⟩ | ⟨none, _⟩
  · rw [next.unique next'] at more
    exact more ends
  · exact none _ next opens.1

/-- Opening a window takes one round. -/
theorem walkLoopIn_step {first second : ULong × Live} (positive : 0 < stop)
    (step : OpenStep kernel target stop first second) {fuel : Nat}
    (enough : 2 ^ 32 - first.1.toNat ≤ fuel) :
    ∃ left, 2 ^ 32 - second.1.toNat ≤ left ∧
      walkLoopIn target (forPmdEntryIn kernel) stop fuel first.1 (pgdIndex first.1) first.2 =
        walkLoopIn target (forPmdEntryIn kernel) stop left second.1 (pgdIndex second.1) second.2 := by
  obtain ⟨⟨rest, walks⟩, opens, more⟩ := step
  obtain ⟨left, enoughLeft, loop⟩ := walkLoopIn_cons positive walks enough
  refine ⟨left, enoughLeft more, ?_⟩
  rw [loop, forPmdEntryIn_opens _ _ _ opens]
  simp only [afterCall, ne_eq, not_true_eq_false, if_false, more]

theorem walkLoopIn_reach {first second : ULong × Live} (positive : 0 < stop)
    (reach : Reach kernel target stop first second) {fuel : Nat}
    (enough : 2 ^ 32 - first.1.toNat ≤ fuel) :
    ∃ left, 2 ^ 32 - second.1.toNat ≤ left ∧
      walkLoopIn target (forPmdEntryIn kernel) stop fuel first.1 (pgdIndex first.1) first.2 =
        walkLoopIn target (forPmdEntryIn kernel) stop left second.1 (pgdIndex second.1) second.2 := by
  induction reach with
  | refl => exact ⟨fuel, enough, rfl⟩
  | tail _ step inductionHypothesis =>
      obtain ⟨left, enoughLeft, same⟩ := inductionHypothesis
      obtain ⟨rest, enoughRest, sameRest⟩ := walkLoopIn_step positive step enoughLeft
      exact ⟨rest, enoughRest, same.trans sameRest⟩

theorem walkLoopIn_ending {addr : ULong} {live : Live} {reply : Reply Live} (positive : 0 < stop)
    (ending : Ending kernel target stop addr live reply) {fuel : Nat}
    (enough : 2 ^ 32 - addr.toNat ≤ fuel) :
    walkLoopIn target (forPmdEntryIn kernel) stop fuel addr (pgdIndex addr) live = some reply := by
  cases ending with
  | done none => exact walkLoopIn_none positive none enough
  | refused next isRefused reply =>
      obtain ⟨rest, walks⟩ := next
      obtain ⟨left, _, loop⟩ := walkLoopIn_cons positive walks enough
      rw [loop, reply]
      simp only [afterCall, ne_eq, refusal_ne_zero isRefused, not_false_eq_true, if_true]
  | stopped next allowed stops reply =>
      obtain ⟨rest, walks⟩ := next
      obtain ⟨left, _, loop⟩ := walkLoopIn_cons positive walks enough
      rw [loop, reply]
      rfl
  | last next opens ends =>
      obtain ⟨rest, walks⟩ := next
      obtain ⟨left, _, loop⟩ := walkLoopIn_cons positive walks enough
      rw [loop, forPmdEntryIn_opens _ _ _ opens]
      simp only [afterCall, ne_eq, not_true_eq_false, if_false, ends, if_true]

/-- The walk of a range returns what its ending says. -/
theorem walkPageRangeIn_eq {start last : ULong} {live final : Live} {reply : Reply Live}
    (nonempty : start < stop) (reach : Reach kernel target stop (start, live) (last, final))
    (ending : Ending kernel target stop last final reply) :
    walkPageRangeIn target (forPmdEntryIn kernel) start stop live = some reply := by
  have positive : 0 < stop := by bv_omega
  rw [walkPageRangeIn, if_neg (by bv_omega)]
  obtain ⟨left, enough, same⟩ := walkLoopIn_reach positive reach (Nat.sub_le _ _)
  rw [same]
  exact walkLoopIn_ending positive ending enough

end Windows

/-! ### The system call -/

section Call

variable {kernel : Kernel} {system : System} {current mm : Nat} {args : ExposeArgs}

theorem setSpace_self (system : System) (mm : Nat) (space : Space) :
    (system.setSpace mm space).spaces mm = space := by
  simp [System.setSpace]

/-- The walk of a call. -/
abbrev walkOf (kernel : Kernel) (system : System) (current : Nat) (args : ExposeArgs) (mm : Nat) :
    Option (Reply Live) :=
  walkPageRangeIn (walkedSpace system current mm) (forPmdEntryIn kernel) args.beginVaddr args.endVaddr
    (Live.start system current args.pageTableAddr)

/-- What a call that comes to the walk returns. -/
theorem exposeCall_eq (comes : ComesToWalk kernel system args mm) {reply : Reply Live}
    (walked : walkOf kernel system current args mm = some reply) :
    exposeCall kernel system current args =
      match reply with
      | .oops _ => .oops
      | .finished _ live =>
          if kernel.copyToUser args.fakePgd then
            .returned 0 (system.setSpace current live.caller) (some live.pgdBase) live.remaps
          else .returned (-EFAULT) (system.setSpace current live.caller) none live.remaps := by
  obtain ⟨nonempty, process, kmalloc, somewhere⟩ := comes
  have notEmpty : ¬args.endVaddr ≤ args.beginVaddr := by bv_omega
  rw [exposeCall, if_neg notEmpty]
  simp only [process, kmalloc, not_true_eq_false, if_false, somewhere, walked]
  cases reply with
  | oops live => rfl
  | finished err live =>
      cases copied : kernel.copyToUser args.fakePgd with
      | true => simp
      | false => simp

/-- A call that does not come to the walk returns an error at once, or has found no process and stops the
kernel. -/
theorem exposeCall_early (never : ∀ mm, ¬ComesToWalk kernel system args mm) :
    (exposeCall kernel system current args = .oops ∧ ∀ mm, system.pids args.pid ≠ .process mm) ∨
      ∃ code, code ≠ 0 ∧ exposeCall kernel system current args = .returned code system none [] := by
  by_cases empty : args.endVaddr ≤ args.beginVaddr
  · exact Or.inr ⟨-EINVAL, by decide, by rw [exposeCall, if_pos empty]⟩
  have nonempty : args.beginVaddr < args.endVaddr := by bv_omega
  cases process : system.pids args.pid with
  | unused =>
      refine Or.inr ⟨-EINVAL, by decide, ?_⟩
      simp only [exposeCall, if_neg empty, process]
  | groupOnly | zombie | kernelThread =>
      refine Or.inl ⟨?_, fun _ => nofun⟩
      simp only [exposeCall, if_neg empty, process]
  | process mm =>
      refine Or.inr ⟨-EFAULT, by decide, ?_⟩
      by_cases kmalloc : kernel.kmalloc = true
      · by_cases null : args.pageTableAddr = 0
        · simp only [exposeCall, if_neg empty, process, kmalloc, not_true_eq_false, if_false,
            if_pos null]
        · exact absurd ⟨nonempty, process, kmalloc, null⟩ (never mm)
      · simp only [exposeCall, if_neg empty, process, if_pos kmalloc]

/-- A call that returns has returned an error at once, or it has come to the walk and the walk has come
to an ending that finishes. -/
theorem exposeCall_returned {code : Int} {after : System} {directory : Option (Nat → ULong)}
    {remaps : List (Frame × Bool)}
    (returned : exposeCall kernel system current args = .returned code after directory remaps) :
    (code ≠ 0 ∧ after = system) ∨
    ∃ mm last final err live, ComesToWalk kernel system args mm ∧
      Reach kernel (walkedSpace system current mm) args.endVaddr
        (args.beginVaddr, Live.start system current args.pageTableAddr) (last, final) ∧
      Ending kernel (walkedSpace system current mm) args.endVaddr last final (.finished err live) ∧
      after = system.setSpace current live.caller ∧ (code = 0 → directory = some live.pgdBase) := by
  by_cases comesSomewhere : ∃ mm, ComesToWalk kernel system args mm
  · obtain ⟨mm, comes⟩ := comesSomewhere
    have nonempty := comes.nonempty
    obtain ⟨last, final, reply, reach, ending⟩ := exists_ending kernel
      (walkedSpace system current mm) (show 0 < args.endVaddr by bv_omega) args.beginVaddr
      (Live.start system current args.pageTableAddr)
    rw [exposeCall_eq comes (walkPageRangeIn_eq nonempty reach ending)] at returned
    cases reply with
    | oops live => cases returned
    | finished err live =>
        refine Or.inr ⟨mm, last, final, err, live, comes, reach, ending, ?_⟩
        dsimp only at returned
        split at returned
        · cases returned
          exact ⟨rfl, fun _ => rfl⟩
        · cases returned
          exact ⟨rfl, fun isZero => absurd isZero (by decide)⟩
  · rcases exposeCall_early (not_exists.mp comesSomewhere) with ⟨stops, _⟩ | ⟨early, isError, ends⟩
    · rw [stops] at returned
      cases returned
    · rw [ends] at returned
      cases returned
      exact Or.inl ⟨isError, rfl⟩

/-- A call that returns 0 has come to the walk, and the walk has come to an ending that finishes. -/
theorem returned_cases {after : System} {directory : Option (Nat → ULong)}
    {remaps : List (Frame × Bool)}
    (returned : exposeCall kernel system current args = .returned 0 after directory remaps) :
    ∃ mm last final err live, ComesToWalk kernel system args mm ∧
      Reach kernel (walkedSpace system current mm) args.endVaddr
        (args.beginVaddr, Live.start system current args.pageTableAddr) (last, final) ∧
      Ending kernel (walkedSpace system current mm) args.endVaddr last final (.finished err live) ∧
      after = system.setSpace current live.caller ∧ directory = some live.pgdBase := by
  rcases exposeCall_returned returned with
    ⟨isError, _⟩ | ⟨mm, last, final, err, live, comes, reach, ending, isAfter, isDirectory⟩
  · exact absurd rfl isError
  · exact ⟨mm, last, final, err, live, comes, reach, ending, isAfter, isDirectory rfl⟩

end Call

end KernelHacking.PageTable
