/-
Module: KernelHacking.Proofs.PageWalk
Layer: Proofs
Purpose: The calls of the page walk over an address space that does not change. `Walks` is the walk as the
  list of calls it makes if none fails. The calls go upwards, at most one to a slot, and reach every
  populated slot with an address of the range outside the areas of raw page frames. Where the walk leaves
  the range, it does so through such an area, and it makes one more call. So the slots of the calls are
  those that are `Reached`, a condition on the areas, the directory and the range.
Imports: KernelHacking.Foundations.Word, KernelHacking.Model.PageTable
Trusted boundary: none (fully proved)
Main exports: Covered, Walks, exists_walks, runCalls, Walks.ascending, Walks.visits, EscapesTo,
  Walks.escapesTo, Walks.call_of_escapesTo, Reached, Walks.reached_iff, FirstReached, ReachedBehind
Open obligations: none
-/
import KernelHacking.Foundations.Word
import KernelHacking.Model.PageTable

namespace KernelHacking.PageTable

/-! ### Addresses and areas -/

theorem pgdIndex_eq (addr : ULong) : pgdIndex addr = addr.toNat / 2 ^ 21 :=
  Word.toNat_shift addr 21

theorem pmdIndex_eq (addr : ULong) : ((addr >>> 21) &&& 0x7FF).toNat = pgdIndex addr := by
  have inRange := addr.isLt
  rw [Word.toNat_field (show Word.LowMask 11 (0x7FF : ULong) by decide), pgdIndex_eq]
  omega

/-- The next slot boundary, which wraps to 0 at the end of the address space. -/
theorem toNat_boundary (addr : ULong) :
    ((addr + PGDIR_SIZE) &&& PGDIR_MASK).toNat = (pgdIndex addr + 1) * 2 ^ 21 % 2 ^ 32 := by
  have inRange := addr.isLt
  rw [Word.toNat_and_high (show Word.HighMask 21 PGDIR_MASK by decide), BitVec.toNat_add,
    show PGDIR_SIZE.toNat = 2 ^ 21 from rfl, pgdIndex_eq]
  omega

/-- The address after a round is the end of the range, or the start of the next slot below it. -/
theorem pgdAddrEnd_cases (addr : ULong) {stop : ULong} (positive : 0 < stop) :
    (pgdAddrEnd addr stop = stop ∧ stop.toNat ≤ (pgdIndex addr + 1) * 2 ^ 21) ∨
      ((pgdAddrEnd addr stop).toNat = (pgdIndex addr + 1) * 2 ^ 21 ∧ pgdAddrEnd addr stop < stop) := by
  have slotInRange : pgdIndex addr < 2 ^ 11 := by
    have inRange := addr.isLt
    rw [pgdIndex_eq]
    omega
  have boundaryIs := toNat_boundary addr
  rw [pgdAddrEnd]
  generalize (addr + PGDIR_SIZE) &&& PGDIR_MASK = boundary at boundaryIs
  split
  · rename_i below
    have exact : boundary.toNat = (pgdIndex addr + 1) * 2 ^ 21 := by bv_omega
    exact Or.inr ⟨exact, by bv_omega⟩
  · rename_i notBelow
    exact Or.inl ⟨rfl, by bv_omega⟩

/-- The address lies in an area of raw page frames. -/
def Covered (mm : Mm) (addr : ULong) : Prop :=
  ∃ vma ∈ mm.mmap, vma.vmFlags &&& VM_PFNMAP ≠ 0 ∧ vma.vmStart ≤ addr ∧ addr < vma.vmEnd

/-- An area that contains the address is the one the search finds. -/
theorem findVma_eq {mm : Mm} {vma : Vma} {addr : ULong} (listed : vma ∈ mm.mmap)
    (above : vma.vmStart ≤ addr) (below : addr < vma.vmEnd) : findVma mm addr = some vma := by
  obtain ⟨areas, sorted⟩ := mm
  rw [findVma]
  dsimp only at listed ⊢
  induction sorted with
  | nil => simp at listed
  | cons ordered _ inductionHypothesis =>
      rcases List.mem_cons.mp listed with rfl | later
      · rw [List.find?_cons_of_pos (by simpa using below)]
      · have earlier := ordered vma later
        rw [List.find?_cons_of_neg]
        · exact inductionHypothesis later
        · simp only [decide_eq_true_eq]
          bv_omega

theorem findVma_some {mm : Mm} {vma : Vma} {addr : ULong} (found : findVma mm addr = some vma) :
    vma ∈ mm.mmap ∧ addr < vma.vmEnd :=
  ⟨List.mem_of_find?_eq_some found, by simpa using List.find?_some found⟩

/-- The area of raw page frames that the walk skips at an address. -/
def pfnmapAt (mm : Mm) (addr : ULong) : Option Vma :=
  (findVma mm addr).filter fun vma => vma.vmStart ≤ addr && vma.vmFlags &&& VM_PFNMAP ≠ 0

theorem pfnmapAt_some {mm : Mm} {vma : Vma} {addr : ULong} (found : pfnmapAt mm addr = some vma) :
    vma ∈ mm.mmap ∧ vma.vmFlags &&& VM_PFNMAP ≠ 0 ∧ vma.vmStart ≤ addr ∧ addr < vma.vmEnd := by
  rw [pfnmapAt, Option.filter_eq_some_iff] at found
  obtain ⟨isFound, isPfnmap⟩ := found
  rw [findVma] at isFound
  have below := List.find?_some isFound
  simp only [Bool.and_eq_true, decide_eq_true_eq] at below isPfnmap
  exact ⟨List.mem_of_find?_eq_some isFound, isPfnmap.2, isPfnmap.1, below⟩

theorem pfnmapAt_none {mm : Mm} {addr : ULong} : pfnmapAt mm addr = none ↔ ¬Covered mm addr := by
  constructor
  · rintro missing ⟨vma, listed, isPfnmap, above, below⟩
    rw [pfnmapAt, findVma_eq listed above below] at missing
    have isNone : vma.vmFlags &&& VM_PFNMAP = 0 := by simpa [above] using missing
    exact isPfnmap isNone
  · intro uncovered
    cases found : pfnmapAt mm addr with
    | none => rfl
    | some vma => exact absurd ⟨vma, pfnmapAt_some found⟩ uncovered

/-! ### The walk as a list of calls -/

/-- One call of the callback. -/
structure Call where
  pmd : ULong
  addr : ULong
  next : ULong

section Walk

variable (mm : Mm) (pgd : Nat → ULong) (stop : ULong)

/-- The call for the slot of an address, if the slot is populated. -/
def callAt (addr : ULong) : List Call :=
  if pgd (pgdIndex addr) = 0 then [] else [⟨pgd (pgdIndex addr), addr, pgdAddrEnd addr stop⟩]

/-- From an address on, the walk makes these calls if none of them fails. -/
inductive Walks : ULong → List Call → Prop where
  | leap {addr : ULong} {vma : Vma} (skips : pfnmapAt mm addr = some vma) (ends : vma.vmEnd = stop) :
      Walks addr []
  | skip {addr : ULong} {vma : Vma} {calls : List Call} (skips : pfnmapAt mm addr = some vma)
      (more : vma.vmEnd ≠ stop) (rest : Walks vma.vmEnd calls) : Walks addr calls
  | last {addr : ULong} (walks : pfnmapAt mm addr = none) (ends : pgdAddrEnd addr stop = stop) :
      Walks addr (callAt pgd stop addr)
  | next {addr : ULong} {calls : List Call} (walks : pfnmapAt mm addr = none)
      (more : pgdAddrEnd addr stop ≠ stop) (rest : Walks (pgdAddrEnd addr stop) calls) :
      Walks addr (callAt pgd stop addr ++ calls)

variable {mm pgd stop}

/-- A round that does not end the walk ends at the next slot, inside the range. -/
theorem pgdAddrEnd_of_ne {addr : ULong} (positive : 0 < stop) (more : pgdAddrEnd addr stop ≠ stop) :
    (pgdAddrEnd addr stop).toNat = (pgdIndex addr + 1) * 2 ^ 21 ∧ pgdAddrEnd addr stop < stop :=
  (pgdAddrEnd_cases addr positive).resolve_left fun ends => more ends.1

/-- A round that does not end the walk goes upwards. -/
theorem lt_pgdAddrEnd {addr : ULong} (positive : 0 < stop) (more : pgdAddrEnd addr stop ≠ stop) :
    addr < pgdAddrEnd addr stop := by
  obtain ⟨boundary, _⟩ := pgdAddrEnd_of_ne positive more
  rw [pgdIndex_eq] at boundary
  rw [BitVec.lt_def]
  omega

/-- The walk ends, from every address. -/
theorem exists_walks (mm : Mm) (pgd : Nat → ULong) (positive : 0 < stop) (addr : ULong) :
    ∃ calls, Walks mm pgd stop addr calls := by
  -- what is left of the address space shrinks with every round
  induction left : 2 ^ 32 - addr.toNat using Nat.strong_induction_on generalizing addr with
  | _ left inductionHypothesis =>
      have inRange := addr.isLt
      cases found : pfnmapAt mm addr with
      | some vma =>
          by_cases ends : vma.vmEnd = stop
          · exact ⟨[], .leap found ends⟩
          · have higher := BitVec.lt_def.mp (pfnmapAt_some found).2.2.2
            obtain ⟨calls, rest⟩ := inductionHypothesis _ (by omega) vma.vmEnd rfl
            exact ⟨calls, .skip found ends rest⟩
      | none =>
          by_cases ends : pgdAddrEnd addr stop = stop
          · exact ⟨_, .last found ends⟩
          · have higher := BitVec.lt_def.mp (lt_pgdAddrEnd positive ends)
            obtain ⟨calls, rest⟩ := inductionHypothesis _ (by omega) (pgdAddrEnd addr stop) rfl
            exact ⟨_, .next found ends rest⟩

/-- Make calls one after the other, up to the first that fails. -/
def runCalls {σ : Type} (pmdEntry : PmdEntry σ) : List Call → σ → Reply σ
  | [], state => .finished 0 state
  | call :: calls, state =>
      match pmdEntry call.pmd call.addr call.next state with
      | .finished err after => if err ≠ 0 then .finished err after else runCalls pmdEntry calls after
      | .oops after => .oops after

/-- The range part of a round makes the call for the slot of the address. -/
theorem walkPudRange_eq {σ : Type} (pmdEntry : PmdEntry σ) (addr : ULong) (state : σ) :
    walkPudRange pmdEntry (pgd (pgdIndex addr)) addr (pgdAddrEnd addr stop) state =
      runCalls pmdEntry (callAt pgd stop addr) state := by
  rw [walkPudRange, walkPmdRange, callAt]
  split
  · rfl
  · simp only [runCalls]
    cases pmdEntry (pgd (pgdIndex addr)) addr (pgdAddrEnd addr stop) state with
    | oops after => rfl
    | finished err after =>
        by_cases ok : err = 0
        · simp [ok]
        · simp [ok]

/-- The entry of the directory that the walk keeps is the one of the address. -/
theorem pgdIndex_next {addr : ULong} (positive : 0 < stop) (more : pgdAddrEnd addr stop ≠ stop) :
    pgdIndex (pgdAddrEnd addr stop) = pgdIndex addr + 1 := by
  rw [pgdIndex_eq (pgdAddrEnd addr stop), (pgdAddrEnd_of_ne positive more).1]
  omega

theorem walkTurn_skip {σ : Type} (pmdEntry : PmdEntry σ) {addr : ULong} {vma : Vma}
    (skips : pfnmapAt mm addr = some vma) (slot : Nat) (state : σ) :
    walkTurn mm pgd pmdEntry stop addr slot state = .go vma.vmEnd (pgdIndex vma.vmEnd) state := by
  rw [pfnmapAt] at skips
  simp only [walkTurn, skips]

theorem walkTurn_walk {σ : Type} (pmdEntry : PmdEntry σ) {addr : ULong}
    (walks : pfnmapAt mm addr = none) (state : σ) :
    walkTurn mm pgd pmdEntry stop addr (pgdIndex addr) state =
      match runCalls pmdEntry (callAt pgd stop addr) state with
      | .finished err after =>
          if err ≠ 0 then .stop (.finished err after)
          else .go (pgdAddrEnd addr stop) (pgdIndex addr + 1) after
      | .oops after => .stop (.oops after) := by
  rw [pfnmapAt] at walks
  cases reply : runCalls pmdEntry (callAt pgd stop addr) state with
  | finished err after => simp only [walkTurn, walks, walkPudRange_eq, reply]
  | oops after => simp only [walkTurn, walks, walkPudRange_eq, reply]

/-- Rounds enough for the addresses above one leave rounds enough for the addresses above the next. -/
theorem exists_rounds {addr : ULong} {fuel : Nat} (enough : 2 ^ 32 - addr.toNat ≤ fuel) :
    ∃ rounds, fuel = rounds + 1 ∧ ∀ next : ULong, addr < next → 2 ^ 32 - next.toNat ≤ rounds := by
  have inRange := addr.isLt
  refine ⟨fuel - 1, by omega, fun next higher => ?_⟩
  rw [BitVec.lt_def] at higher
  omega

/-! ### Which calls are made -/

theorem mem_callAt {addr : ULong} {call : Call} :
    call ∈ callAt pgd stop addr ↔ pgd (pgdIndex addr) ≠ 0 ∧
      call = ⟨pgd (pgdIndex addr), addr, pgdAddrEnd addr stop⟩ := by
  rw [callAt]
  split
  · rename_i empty
    simp [empty]
  · rename_i populated
    rw [List.mem_singleton, and_iff_right populated]

/-- Each call is for an address outside the areas of raw frames, with the word of its slot. -/
theorem Walks.call_eq {addr : ULong} {calls : List Call} (walks : Walks mm pgd stop addr calls)
    {call : Call} (made : call ∈ calls) :
    ¬Covered mm call.addr ∧ call.pmd = pgd (pgdIndex call.addr) ∧ call.pmd ≠ 0 := by
  have atOpen : ∀ {addr : ULong}, pfnmapAt mm addr = none → call ∈ callAt pgd stop addr →
      ¬Covered mm call.addr ∧ call.pmd = pgd (pgdIndex call.addr) ∧ call.pmd ≠ 0 := by
    intro addr uncovered here
    obtain ⟨populated, rfl⟩ := mem_callAt.mp here
    exact ⟨pfnmapAt_none.mp uncovered, rfl, populated⟩
  induction walks with
  | leap skips ends => simp at made
  | skip skips more rest inductionHypothesis => exact inductionHypothesis made
  | last uncovered ends => exact atOpen uncovered made
  | next uncovered more rest inductionHypothesis =>
      rcases List.mem_append.mp made with here | later
      · exact atOpen uncovered here
      · exact inductionHypothesis later

/-- The calls are for addresses from the start of the walk on. -/
theorem Walks.le_addr (positive : 0 < stop) {addr : ULong} {calls : List Call}
    (walks : Walks mm pgd stop addr calls) : ∀ call ∈ calls, addr ≤ call.addr := by
  induction walks with
  | leap skips ends => simp
  | skip skips more rest inductionHypothesis =>
      intro call made
      have := inductionHypothesis call made
      have := (pfnmapAt_some skips).2.2.2
      bv_omega
  | last uncovered ends =>
      intro call made
      rw [(mem_callAt.mp made).2]
      exact BitVec.le_refl _
  | next uncovered more rest inductionHypothesis =>
      intro call made
      rcases List.mem_append.mp made with here | later
      · rw [(mem_callAt.mp here).2]
        exact BitVec.le_refl _
      · have := inductionHypothesis call later
        have := lt_pgdAddrEnd positive more
        bv_omega

theorem pgdIndex_mono {low high : ULong} (below : low ≤ high) : pgdIndex low ≤ pgdIndex high := by
  rw [pgdIndex_eq, pgdIndex_eq]
  exact Nat.div_le_div_right (BitVec.le_def.mp below)

/-- The calls go from slot to higher slot. -/
theorem Walks.ascending (positive : 0 < stop) {addr : ULong} {calls : List Call}
    (walks : Walks mm pgd stop addr calls) :
    calls.Pairwise fun first second => pgdIndex first.addr < pgdIndex second.addr := by
  have single : ∀ addr : ULong, (callAt pgd stop addr).Pairwise
      fun first second => pgdIndex first.addr < pgdIndex second.addr := by
    intro addr
    rw [callAt]
    split
    · exact List.Pairwise.nil
    · exact List.pairwise_singleton _ _
  induction walks with
  | leap skips ends => exact List.Pairwise.nil
  | skip skips more rest inductionHypothesis => exact inductionHypothesis
  | last uncovered ends => exact single _
  | next uncovered more rest inductionHypothesis =>
      refine List.pairwise_append.mpr ⟨single _, inductionHypothesis, ?_⟩
      intro first here second later
      have nextSlot := pgdIndex_next positive more
      have above := pgdIndex_mono (rest.le_addr positive second later)
      rw [nextSlot] at above
      rw [(mem_callAt.mp here).2]
      exact above

/-- Addresses of one slot, from the address of a round up to where the round ends. -/
theorem pgdIndex_eq_of_lt {addr other : ULong} (positive : 0 < stop) (above : addr ≤ other)
    (below : other < pgdAddrEnd addr stop) : pgdIndex other = pgdIndex addr := by
  rw [BitVec.le_def] at above
  rw [BitVec.lt_def] at below
  have inSlot : other.toNat < (pgdIndex addr + 1) * 2 ^ 21 := by
    rcases pgdAddrEnd_cases addr positive with ⟨ends, inside⟩ | ⟨boundary, _⟩
    · rw [ends] at below
      exact Nat.lt_of_lt_of_le below inside
    · rw [← boundary]
      exact below
  rw [pgdIndex_eq] at inSlot ⊢
  rw [pgdIndex_eq]
  omega

/-- Every populated slot with an address of the range outside the areas of raw frames is visited. -/
theorem Walks.visits (positive : 0 < stop) {addr other : ULong} {calls : List Call}
    (walks : Walks mm pgd stop addr calls) (above : addr ≤ other) (below : other < stop)
    (uncovered : ¬Covered mm other) (populated : pgd (pgdIndex other) ≠ 0) :
    ∃ call ∈ calls, pgdIndex call.addr = pgdIndex other := by
  have here : ∀ {addr : ULong}, addr ≤ other → other < pgdAddrEnd addr stop →
      ∃ call ∈ callAt pgd stop addr, pgdIndex call.addr = pgdIndex other := by
    intro addr above below
    have sameSlot := pgdIndex_eq_of_lt positive above below
    rw [sameSlot] at populated
    exact ⟨_, mem_callAt.mpr ⟨populated, rfl⟩, sameSlot.symm⟩
  induction walks with
  | leap skips ends =>
      obtain ⟨listed, isPfnmap, start, _⟩ := pfnmapAt_some skips
      exact absurd ⟨_, listed, isPfnmap, by bv_omega, by rw [ends]; exact below⟩ uncovered
  | @skip addr vma calls skips more rest inductionHypothesis =>
      obtain ⟨listed, isPfnmap, start, _⟩ := pfnmapAt_some skips
      by_cases inside : other < vma.vmEnd
      · exact absurd ⟨_, listed, isPfnmap, by bv_omega, inside⟩ uncovered
      · exact inductionHypothesis (by bv_omega)
  | last openHere ends => exact here above (by rw [ends]; exact below)
  | @next addr calls openHere more rest inductionHypothesis =>
      by_cases inside : other < pgdAddrEnd addr stop
      · obtain ⟨call, made, sameSlot⟩ := here above inside
        exact ⟨call, List.mem_append_left _ made, sameSlot⟩
      · obtain ⟨call, made, sameSlot⟩ := inductionHypothesis (by bv_omega)
        exact ⟨call, List.mem_append_right _ made, sameSlot⟩

/-! ### Leaving the range -/

/-- The first address from `addr` on outside the areas of raw frames. -/
structure FirstOpen (mm : Mm) (addr landing : ULong) : Prop where
  above : addr ≤ landing
  uncovered : ¬Covered mm landing
  covered : ∀ other, addr ≤ other → other < landing → Covered mm other

theorem FirstOpen.unique {addr first second : ULong} (one : FirstOpen mm addr first)
    (two : FirstOpen mm addr second) : first = second := by
  have notLess : ¬first < second := fun less => one.uncovered (two.covered first one.above less)
  have notGreater : ¬second < first := fun less => two.uncovered (one.covered second two.above less)
  bv_omega

/-- Skipping an area does not change where the open addresses begin. -/
theorem FirstOpen.skip {addr landing : ULong} {vma : Vma} (listed : vma ∈ mm.mmap)
    (isPfnmap : vma.vmFlags &&& VM_PFNMAP ≠ 0) (start : vma.vmStart ≤ addr) (inside : addr < vma.vmEnd) :
    FirstOpen mm vma.vmEnd landing ↔ FirstOpen mm addr landing := by
  have coveredBelow : ∀ other, addr ≤ other → other < vma.vmEnd → Covered mm other :=
    fun other above below => ⟨vma, listed, isPfnmap, by bv_omega, below⟩
  constructor
  · rintro ⟨above, uncovered, covered⟩
    refine ⟨by bv_omega, uncovered, fun other higher lower => ?_⟩
    by_cases below : other < vma.vmEnd
    · exact coveredBelow other higher below
    · exact covered other (by bv_omega) lower
  · rintro ⟨above, uncovered, covered⟩
    refine ⟨?_, uncovered, fun other higher lower => covered other (by bv_omega) lower⟩
    have notBelow : ¬landing < vma.vmEnd := fun below => uncovered (coveredBelow landing above below)
    bv_omega

/-- Above the end of the range, the walk makes one call, for the first open address. -/
theorem Walks.overrun (positive : 0 < stop) {addr : ULong} {calls : List Call}
    (walks : Walks mm pgd stop addr calls) (past : stop < addr) :
    ∃ landing, FirstOpen mm addr landing ∧ calls = callAt pgd stop landing := by
  induction walks with
  | leap skips ends =>
      have := (pfnmapAt_some skips).2.2.2
      bv_omega
  | skip skips more rest inductionHypothesis =>
      obtain ⟨listed, isPfnmap, start, inside⟩ := pfnmapAt_some skips
      obtain ⟨landing, first, same⟩ := inductionHypothesis (by bv_omega)
      exact ⟨landing, (FirstOpen.skip listed isPfnmap start inside).mp first, same⟩
  | @last addr uncovered ends =>
      refine ⟨addr, ⟨BitVec.le_refl _, pfnmapAt_none.mp uncovered, ?_⟩, rfl⟩
      intro other above below
      bv_omega
  | @next addr calls uncovered more rest inductionHypothesis =>
      have higher := lt_pgdAddrEnd positive more
      have lower := (pgdAddrEnd_of_ne positive more).2
      bv_omega

/-- The walk from `addr` leaves the range and lands at `landing`: the end of the range lies inside an
area of raw frames, the last slot of the range has no open address from `addr` on, and `landing` is
the first open address behind the range. -/
structure EscapesTo (mm : Mm) (addr stop landing : ULong) : Prop where
  straddles : ∃ vma ∈ mm.mmap, vma.vmFlags &&& VM_PFNMAP ≠ 0 ∧ vma.vmStart < stop ∧ stop < vma.vmEnd
  lastCovered : ∀ other, addr ≤ other → other < stop → pgdIndex other = pgdIndex (stop - 1) →
    Covered mm other
  first : FirstOpen mm stop landing

/-- A walk that makes a call behind the range has escaped. -/
theorem Walks.escapesTo (positive : 0 < stop) {addr : ULong} {calls : List Call}
    (walks : Walks mm pgd stop addr calls) (inRange : addr < stop) {call : Call} (made : call ∈ calls)
    (outside : ¬call.addr < stop) : EscapesTo mm addr stop call.addr := by
  induction walks with
  | leap skips ends => simp at made
  | @skip addr vma calls skips more rest inductionHypothesis =>
      obtain ⟨listed, isPfnmap, start, inside⟩ := pfnmapAt_some skips
      by_cases below : vma.vmEnd < stop
      · obtain ⟨straddles, lastCovered, first⟩ := inductionHypothesis below made
        refine ⟨straddles, fun other above lower sameSlot => ?_, first⟩
        by_cases skipped : other < vma.vmEnd
        · exact ⟨vma, listed, isPfnmap, by bv_omega, skipped⟩
        · exact lastCovered other (by bv_omega) lower sameSlot
      · have past : stop < vma.vmEnd := by bv_omega
        obtain ⟨landing, first, rfl⟩ := rest.overrun positive past
        obtain ⟨_, rfl⟩ := mem_callAt.mp made
        refine ⟨⟨vma, listed, isPfnmap, by bv_omega, past⟩, fun other above lower _ => ?_, ?_⟩
        · exact ⟨vma, listed, isPfnmap, by bv_omega, by bv_omega⟩
        · exact (FirstOpen.skip listed isPfnmap (by bv_omega) past).mp first
  | last openHere ends =>
      rw [(mem_callAt.mp made).2] at outside
      exact absurd inRange outside
  | @next addr calls openHere more rest inductionHypothesis =>
      rcases List.mem_append.mp made with here | later
      · rw [(mem_callAt.mp here).2] at outside
        exact absurd inRange outside
      · have lower := (pgdAddrEnd_of_ne positive more).2
        obtain ⟨straddles, lastCovered, first⟩ := inductionHypothesis lower later
        refine ⟨straddles, fun other above below sameSlot => ?_, first⟩
        by_cases passed : other < pgdAddrEnd addr stop
        · -- the slot that has just been walked is not the last one
          have here := pgdIndex_eq_of_lt positive above passed
          have nextSlot := pgdIndex_next positive more
          have := pgdIndex_mono (show pgdAddrEnd addr stop ≤ stop - 1 by bv_omega)
          omega
        · exact lastCovered other (by bv_omega) below sameSlot

/-- A walk that escapes makes the call for the slot it lands in. -/
theorem Walks.call_of_escapesTo (positive : 0 < stop) {addr landing : ULong} {calls : List Call}
    (walks : Walks mm pgd stop addr calls) (inRange : addr < stop)
    (escapes : EscapesTo mm addr stop landing) (populated : pgd (pgdIndex landing) ≠ 0) :
    ∃ call ∈ calls, call.addr = landing := by
  induction walks with
  | @leap addr vma skips ends =>
      -- the area that ends the walk and the one across its end both contain the last address
      obtain ⟨listed, isPfnmap, start, inside⟩ := pfnmapAt_some skips
      obtain ⟨other, otherListed, _, otherStart, otherEnd⟩ := escapes.straddles
      have one : findVma mm (stop - 1) = some vma := findVma_eq listed (by bv_omega) (by bv_omega)
      have two : findVma mm (stop - 1) = some other :=
        findVma_eq otherListed (by bv_omega) (by bv_omega)
      rw [one, Option.some.injEq] at two
      subst two
      bv_omega
  | @skip addr vma calls skips more rest inductionHypothesis =>
      obtain ⟨listed, isPfnmap, start, inside⟩ := pfnmapAt_some skips
      by_cases below : vma.vmEnd < stop
      · refine inductionHypothesis below ⟨escapes.straddles, fun other above => ?_, escapes.first⟩
        exact escapes.lastCovered other (by bv_omega)
      · have past : stop < vma.vmEnd := by bv_omega
        obtain ⟨found, first, rfl⟩ := rest.overrun positive past
        have same := ((FirstOpen.skip listed isPfnmap (by bv_omega) past).mp first).unique
          escapes.first
        subst same
        exact ⟨_, mem_callAt.mpr ⟨populated, rfl⟩, rfl⟩
  | @last addr openHere ends =>
      have lastSlot : pgdIndex (stop - 1) = pgdIndex addr :=
        pgdIndex_eq_of_lt positive (by bv_omega) (by rw [ends]; bv_omega)
      exact absurd (escapes.lastCovered addr (BitVec.le_refl _) inRange lastSlot.symm)
        (pfnmapAt_none.mp openHere)
  | @next addr calls openHere more rest inductionHypothesis =>
      have higher := lt_pgdAddrEnd positive more
      obtain ⟨call, made, lands⟩ := inductionHypothesis (pgdAddrEnd_of_ne positive more).2
        ⟨escapes.straddles, fun other above => escapes.lastCovered other (by bv_omega),
          escapes.first⟩
      exact ⟨call, List.mem_append_right _ made, lands⟩

/-! ### The slots that are reached -/

/-- From `addr` on, the walk comes to the slot: it is populated, and it has an address of the range
outside the areas of raw page frames, or the walk lands in it behind the range. -/
def Reached (target : Target) (addr stop : ULong) (slot : Nat) : Prop :=
  target.pgd slot ≠ 0 ∧
    ((∃ other, addr ≤ other ∧ other < stop ∧ ¬Covered target.mm other ∧ pgdIndex other = slot) ∨
      ∃ landing, EscapesTo target.mm addr stop landing ∧ pgdIndex landing = slot)

/-- The slots of the calls are the reached ones. -/
theorem Walks.reached_iff {target : Target} {addr : ULong} {calls : List Call} (nonempty : addr < stop)
    (walks : Walks target.mm target.pgd stop addr calls) (slot : Nat) :
    (∃ call ∈ calls, pgdIndex call.addr = slot) ↔ Reached target addr stop slot := by
  have positive : 0 < stop := by bv_omega
  constructor
  · rintro ⟨call, made, rfl⟩
    obtain ⟨uncovered, isWord, populated⟩ := walks.call_eq made
    rw [isWord] at populated
    refine ⟨populated, ?_⟩
    by_cases inside : call.addr < stop
    · exact Or.inl ⟨call.addr, walks.le_addr positive call made, inside, uncovered, rfl⟩
    · exact Or.inr ⟨call.addr, walks.escapesTo positive nonempty made inside, rfl⟩
  · rintro ⟨populated, ⟨other, above, below, uncovered, rfl⟩ | ⟨landing, escapes, rfl⟩⟩
    · exact walks.visits positive above below uncovered populated
    · obtain ⟨call, made, lands⟩ := walks.call_of_escapesTo positive nonempty escapes populated
      exact ⟨call, made, by rw [lands]⟩

/-- The slot is the first one that the walk from `addr` on comes to. -/
def FirstReached (target : Target) (addr stop : ULong) (slot : Nat) : Prop :=
  Reached target addr stop slot ∧ ∀ other, Reached target addr stop other → slot ≤ other

theorem FirstReached.unique {target : Target} {addr : ULong} {first second : Nat}
    (one : FirstReached target addr stop first) (two : FirstReached target addr stop second) :
    first = second :=
  Nat.le_antisymm (one.2 second two.1) (two.2 first one.1)

/-- Behind a slot of the range, the walk comes to another one. -/
def ReachedBehind (target : Target) (stop : ULong) (slot other : Nat) : Prop :=
  (slot + 1) * 2 ^ 21 < stop.toNat ∧ Reached target (BitVec.ofNat 32 ((slot + 1) * 2 ^ 21)) stop other

/-- The slot of the first call is the first one that is reached. -/
theorem Walks.firstReached {target : Target} {addr : ULong} {call : Call} {rest : List Call}
    (nonempty : addr < stop) (walks : Walks target.mm target.pgd stop addr (call :: rest)) :
    FirstReached target addr stop (pgdIndex call.addr) := by
  have positive : 0 < stop := by bv_omega
  refine ⟨(walks.reached_iff nonempty _).mp ⟨call, List.mem_cons_self, rfl⟩, fun other reached => ?_⟩
  obtain ⟨later, made, rfl⟩ := (walks.reached_iff nonempty other).mpr reached
  rcases List.mem_cons.mp made with rfl | behind
  · exact Nat.le_refl _
  · exact Nat.le_of_lt (List.rel_of_pairwise_cons (walks.ascending positive) behind)

/-- A walk without calls reaches nothing. -/
theorem Walks.not_reached {target : Target} {addr : ULong} (nonempty : addr < stop)
    (walks : Walks target.mm target.pgd stop addr []) (slot : Nat) : ¬Reached target addr stop slot := by
  rw [← walks.reached_iff nonempty]
  simp

end Walk

end KernelHacking.PageTable
