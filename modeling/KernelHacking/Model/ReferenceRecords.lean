/-
Module: KernelHacking.Model.ReferenceRecords
Layer: Model
Purpose: The readers of the old flag `PG_referenced` beside the writers of the new counter of that
  name: `smaps_pte_entry`, which adds a mapped page to the sums of /proc/PID/smaps, and the loop body of
  `clear_refs_pte_range`, which resets the reference records of a mapped page. A history interleaves
  the two with the replacement code and with changes of the page-table entry.
Imports: KernelHacking.Model.PageReplacement
Trusted boundary: human-reviewed model of fs/proc/task_mmu.c
Main exports: Pte, MemSizeStats, smapsPteEntry, clearRefsPte, Mapped, RecordEvent, RecordEvent.apply,
  runRecords
Open obligations: none
-/
import KernelHacking.Model.PageReplacement

namespace KernelHacking.PageReplacement

/-- A page-table entry, as far as the two functions tell entries apart. -/
inductive Pte where
  /-- `pte_none`. -/
  | none
  /-- A present entry; `normal` tells whether `vm_normal_page` finds a `struct page` for it. -/
  | present (young dirty normal : Bool)
  /-- An entry of a nonlinear file mapping. -/
  | file
  /-- A swap entry, with the value of `swp_swapcount`. -/
  | swap (swapcount : Nat)
  /-- A migration entry, with what `pte_dirty` reads in it. The bit of `pte_young` is zero there. -/
  | migration (dirty : Bool)
  /-- A special entry that is neither a swap nor a migration entry. -/
  | special
deriving DecidableEq, Repr

/-- `pte_young(ptent)`. -/
def Pte.young : Pte → Bool
  | .present young _ _ => young
  | _ => false

/-- `pte_dirty(ptent)`. -/
def Pte.dirty : Pte → Bool
  | .present _ dirty _ => dirty
  | .migration dirty => dirty
  | _ => false

/-- `smaps_pte_entry` finds a `struct page` behind the entry. -/
def Pte.findsPage : Pte → Bool
  | .present _ _ normal => normal
  | .migration _ => true
  | _ => false

/-- `clear_refs_pte_range` finds a `struct page` behind the entry. -/
def Pte.clearable : Pte → Bool
  | .present _ _ normal => normal
  | _ => false

def PAGE_SIZE : ULong := 4096
def PSS_SHIFT : Nat := 12

/-- The sums of `struct mem_size_stats` that `smaps_pte_entry` adds to. -/
structure MemSizeStats where
  resident : ULong
  sharedClean : ULong
  sharedDirty : ULong
  privateClean : ULong
  privateDirty : ULong
  referenced : ULong
  anonymous : ULong
  swap : ULong
  pss : BitVec 64
  swapPss : BitVec 64
deriving DecidableEq, Repr

/-- The sums for an entry that is not present: only swap entries count. -/
def smapsSwap (entry : Pte) (mss : MemSizeStats) : MemSizeStats :=
  match entry with
  | .swap swapcount =>
      let mss := { mss with swap := mss.swap + PAGE_SIZE }
      let pssDelta := PAGE_SIZE.setWidth 64 <<< PSS_SHIFT
      if 2 ≤ swapcount then { mss with swapPss := mss.swapPss + pssDelta / BitVec.ofNat 64 swapcount }
      else { mss with swapPss := mss.swapPss + pssDelta }
  | _ => mss

/-- `smaps_pte_entry(ptent, addr, ptent_size, walk)`. -/
def smapsPteEntry (entry : Pte) (page : Page) (ptentSize : ULong) (mss : MemSizeStats) :
    MemSizeStats :=
  let mss := smapsSwap entry mss
  if !entry.findsPage then mss
  else
    let mss :=
      if page.mapping = .anon then { mss with anonymous := mss.anonymous + ptentSize } else mss
    let mss := { mss with resident := mss.resident + ptentSize }
    -- Accumulate the size in pages that have been accessed.
    let mss :=
      if entry.young || page.flags .referenced then
        { mss with referenced := mss.referenced + ptentSize }
      else mss
    let dirty := entry.dirty || page.flags .dirty
    let share := ptentSize <<< PSS_SHIFT
    if page.mapcount ≥ 2 then
      let mss :=
        if dirty then { mss with sharedDirty := mss.sharedDirty + ptentSize }
        else { mss with sharedClean := mss.sharedClean + ptentSize }
      { mss with pss := mss.pss + (share / BitVec.ofInt 32 page.mapcount).setWidth 64 }
    else
      let mss :=
        if dirty then { mss with privateDirty := mss.privateDirty + ptentSize }
        else { mss with privateClean := mss.privateClean + ptentSize }
      { mss with pss := mss.pss + share.setWidth 64 }

/-- One round of the loop of `clear_refs_pte_range`: the entry is made old and the flag of the page is
    cleared. -/
def clearRefsPte (entry : Pte) (page : Page) : Pte × Page :=
  match entry with
  | .present _ dirty true => (.present false dirty true, page.setFlag .referenced false)
  | _ => (entry, page)

/-- A page and an entry that maps it. -/
structure Mapped where
  page : Page
  entry : Pte

/-- An event of the replacement code, or of other code that writes flags of the page. No other code
    writes the flag `referenced`: the setters left in the tree are page migration, which copies it, and
    `get_user_pages_fast` of other architectures. -/
abbrev ReplacementEvent := { event : Event // ∀ value, event ≠ .setFlag .referenced value }

/-- One event in the history of a mapped page. -/
inductive RecordEvent where
  /-- An event of the replacement code. -/
  | replacement (event : ReplacementEvent)
  /-- `clear_refs_pte_range` comes by the entry. -/
  | clearRefs
  /-- `smaps_pte_entry` comes by the entry. -/
  | smaps
  /-- The entry changes: an access makes it young, `page_referenced` makes it old, the page is
      unmapped or mapped again. -/
  | setEntry (entry : Pte)
deriving DecidableEq

/-- The event `mark_page_accessed`. -/
def RecordEvent.access : RecordEvent :=
  .replacement ⟨.access, fun _ same => Event.noConfusion same⟩

/-- The event of a visit by `shrink_active_list`. -/
def RecordEvent.visit (referenced : Int) (vmFlags : ULong) : RecordEvent :=
  .replacement ⟨.visit referenced vmFlags, fun _ same => Event.noConfusion same⟩

/-- The event `page_check_references`. -/
def RecordEvent.check (reclaimMode : ULong) (referencedPtes : Int) (vmFlags : ULong) : RecordEvent :=
  .replacement ⟨.check reclaimMode referencedPtes vmFlags, fun _ same => Event.noConfusion same⟩

/-- The page and its entry after an event. -/
def RecordEvent.apply (state : Mapped) : RecordEvent → Mapped
  | .replacement event => { state with page := event.val.apply state.page }
  | .clearRefs =>
      let (entry, page) := clearRefsPte state.entry state.page
      { page := page, entry := entry }
  | .smaps => state
  | .setEntry entry => { state with entry := entry }

/-- The page and its entry after a history. -/
def runRecords (start : Mapped) (events : List RecordEvent) : Mapped :=
  events.foldl RecordEvent.apply start

end KernelHacking.PageReplacement
