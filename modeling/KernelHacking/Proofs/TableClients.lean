/-
Module: KernelHacking.Proofs.TableClients
Layer: Proofs
Purpose: What the two clients make of an exposed table. `VATranslate` takes an entry for valid if it has
  frame bits, `vm_inspector` if it has the present bit, so the two agree with the table and with each
  other exactly where these bits go together. `vm_inspector` counts the page of the end address as
  part of the range, which shows exactly if the end is page-aligned.
Imports: KernelHacking.Proofs.ExposedTable, KernelHacking.Model.PageTableClients
Trusted boundary: none (fully proved)
Main exports: View.Shows, Translates, translates_iff, swapped_page_translated, ListsRange,
  inspectPages_append, lists_range_iff, end_page_listed
Open obligations: none
-/
import KernelHacking.Proofs.ExposedTable
import KernelHacking.Model.PageTableClients

namespace KernelHacking.PageTable

/-! ### Reading an exposed table -/

/-- The Linux entries of a target, by slot and entry. -/
abbrev Entries := Nat → Nat → ULong

/-- The window of the slot shows its entries. -/
def View.Shows (view : View) (entries : Entries) (slot : Nat) : Prop :=
  ∀ j < 512, view.read (view.fakePgd slot + BitVec.ofNat 32 (4 * j)) = some (entries slot j)

/-- The entry of a page. -/
def entryOf (entries : Entries) (page : ULong) : ULong :=
  entries (page >>> 9).toNat (page &&& 0x1FF).toNat

theorem four_mul (entry : ULong) : 4 * entry = BitVec.ofNat 32 (4 * entry.toNat) := by
  apply BitVec.eq_of_toNat_eq
  rw [BitVec.toNat_mul, BitVec.toNat_ofNat]
  rfl

theorem View.Shows.word {view : View} {entries : Entries} {slot : Nat}
    (shows_ : view.Shows entries slot) {entry : ULong} (inside : entry.toNat < 512) :
    view.word slot entry = some (entries slot entry.toNat) := by
  rw [View.word, four_mul]
  exact shows_ _ inside

theorem toNat_entry (page : ULong) : (page &&& 0x1FF).toNat = page.toNat % 2 ^ 9 :=
  Word.toNat_and_low (show Word.LowMask 9 (0x1FF : ULong) by decide) page

/-- The word that both clients read for a page of a shown slot. -/
theorem View.Shows.word_page {view : View} {entries : Entries} {page : ULong}
    (shows_ : view.Shows entries (page >>> 9).toNat) :
    view.word (page >>> 9).toNat (page &&& 0x1FF) = some (entryOf entries page) := by
  refine shows_.word ?_
  rw [toNat_entry]
  exact Nat.mod_lt _ (by decide)

/-- The page number of an address. -/
theorem toNat_page (addr : ULong) :
    ((addr >>> PAGE_SHIFT) &&& 0xFFFFF).toNat = addr.toNat / 2 ^ 12 := by
  have inRange := addr.isLt
  rw [Word.toNat_field (show Word.LowMask 20 (0xFFFFF : ULong) by decide), PAGE_SHIFT]
  omega

theorem page_eq (addr : ULong) : (addr >>> PAGE_SHIFT) &&& 0xFFFFF = addr >>> PAGE_SHIFT := by
  apply BitVec.eq_of_toNat_eq
  rw [toNat_page, Word.toNat_shift]
  rfl

theorem slot_of_page (addr : ULong) : ((addr >>> PAGE_SHIFT) >>> 9).toNat = pgdIndex addr := by
  rw [Word.toNat_shift, Word.toNat_shift, pgdIndex_eq, PAGE_SHIFT]
  omega

/-- The entry of the page of an address, by slot and entry. -/
theorem entryOf_page (entries : Entries) (addr : ULong) :
    entryOf entries (addr >>> PAGE_SHIFT) = entries (addr.toNat / 2 ^ 21)
      (addr.toNat / 2 ^ 12 % 512) := by
  rw [entryOf, slot_of_page, pgdIndex_eq, toNat_entry, Word.toNat_shift]
  rfl

/-! ### The loop of `vm_inspector` -/

/-- The row of a page, if the page is present. -/
def rowOf (entries : Entries) (page : ULong) : Option (ULong × ULong) :=
  if entryOf entries page &&& L_PTE_PRESENT ≠ 0 then some (page, entryOf entries page >>> PAGE_SHIFT)
  else none

/-- Pages of shown slots give the rows of the present ones. -/
theorem inspectPages_append {view : View} {entries : Entries} {pages : List ULong}
    (shown : ∀ page ∈ pages, view.Shows entries (page >>> 9).toNat) (rest : List ULong) :
    inspectPages view (pages ++ rest) =
      ⟨pages.filterMap (rowOf entries) ++ (inspectPages view rest).rows,
        (inspectPages view rest).crashed⟩ := by
  induction pages with
  | nil => rfl
  | cons page pages inductionHypothesis =>
      have here := shown page List.mem_cons_self
      have later := inductionHypothesis fun other listed => shown other (List.mem_cons_of_mem _ listed)
      rw [List.cons_append, inspectPages, here.word_page]
      simp only [later, List.filterMap_cons, rowOf]
      split
      · rfl
      · rfl

/-- One page of a shown slot. -/
theorem inspectPages_one {view : View} {entries : Entries} {page : ULong}
    (shown : view.Shows entries (page >>> 9).toNat) (rest : List ULong) :
    inspectPages view (page :: rest) =
      ⟨(rowOf entries page).toList ++ (inspectPages view rest).rows,
        (inspectPages view rest).crashed⟩ := by
  have split := inspectPages_append (fun other listed => by
    rw [List.mem_singleton.mp listed]
    exact shown) rest
  rw [List.singleton_append] at split
  rw [split]
  cases row : rowOf entries page with
  | none => rw [List.filterMap_cons_none row]; rfl
  | some isRow => rw [List.filterMap_cons_some row]; rfl

theorem mem_pagesFrom {first last page : ULong} :
    page ∈ pagesFrom first last ↔ first ≤ page ∧ page ≤ last := by
  rw [pagesFrom, List.mem_map, BitVec.le_def, BitVec.le_def]
  constructor
  · rintro ⟨k, listed, rfl⟩
    rw [List.mem_range'_1] at listed
    have := last.isLt
    rw [BitVec.toNat_ofNat]
    omega
  · rintro ⟨above, below⟩
    refine ⟨page.toNat, List.mem_range'_1.mpr (by omega), BitVec.ofNat_toNat _ _⟩

/-- Every row is for one of the pages. -/
theorem page_of_row {view : View} {pages : List ULong} {row : ULong × ULong}
    (listed : row ∈ (inspectPages view pages).rows) : row.1 ∈ pages := by
  induction pages with
  | nil => simp [inspectPages] at listed
  | cons page pages inductionHypothesis =>
      rw [inspectPages] at listed
      split at listed
      · simp at listed
      · dsimp only at listed
        split at listed
        · rcases List.mem_cons.mp listed with here | later
          · rw [here]
            exact List.mem_cons_self
          · exact List.mem_cons_of_mem _ (inductionHypothesis later)
        · exact List.mem_cons_of_mem _ (inductionHypothesis listed)

/-- The pages of a range that is not empty start with the first one. -/
theorem pagesFrom_cons {first last : ULong} (nonempty : first ≤ last) :
    ∃ rest, pagesFrom first last = first :: rest ∧ first ∉ rest := by
  rw [BitVec.le_def] at nonempty
  obtain ⟨count, countIs⟩ : ∃ count, last.toNat + 1 - first.toNat = count + 1 :=
    ⟨last.toNat - first.toNat, by omega⟩
  have bound := last.isLt
  refine ⟨(List.range' (first.toNat + 1) count).map (BitVec.ofNat 32), ?_, ?_⟩
  · rw [pagesFrom, countIs, List.range'_succ, List.map_cons, BitVec.ofNat_toNat]
    rfl
  · rw [List.mem_map]
    rintro ⟨k, listed, same⟩
    rw [List.mem_range'_1] at listed
    have value := congrArg BitVec.toNat same
    rw [BitVec.toNat_ofNat] at value
    omega

/-! ### Translating one address -/

/-- `VATranslate` reports a physical address exactly for a present page, the right one, and the frame
that `vm_inspector` lists for the page. -/
def Translates (view : View) (entries : Entries) (va : ULong) : Prop :=
  let pte := entries (va.toNat / 2 ^ 21) (va.toNat / 2 ^ 12 % 512)
  ∃ result, vaTranslate view va = some result ∧
    (result.invalid = false ↔ pte &&& L_PTE_PRESENT ≠ 0) ∧
    (result.invalid = false → result.physicalAddr = (pte &&& 0xFFFFF000) + (va &&& 0xFFF)) ∧
    ∀ frame, (result.invalid = false ∧ result.pageFrame >>> PAGE_SHIFT = frame) ↔
      (va >>> PAGE_SHIFT, frame) ∈ (vmInspector view va (va + 1)).rows

/-- `vm_inspector` on one address lists its page exactly if it is present. -/
theorem vmInspector_one {view : View} {entries : Entries} {va : ULong} (small : va.toNat < 2 ^ 32 - 1)
    (shown : view.Shows entries (pgdIndex va)) (frame : ULong) :
    (va >>> PAGE_SHIFT, frame) ∈ (vmInspector view va (va + 1)).rows ↔
      rowOf entries (va >>> PAGE_SHIFT) = some (va >>> PAGE_SHIFT, frame) := by
  have ordered : (va >>> PAGE_SHIFT) ≤ ((va + 1) >>> PAGE_SHIFT) &&& 0xFFFFF := by
    rw [BitVec.le_def, toNat_page, Word.toNat_shift, BitVec.toNat_add, PAGE_SHIFT,
      show (1 : ULong).toNat = 1 from rfl]
    omega
  obtain ⟨rest, pages, other⟩ := pagesFrom_cons ordered
  rw [← slot_of_page] at shown
  rw [vmInspector, page_eq, pages, inspectPages_one shown, List.mem_append, Option.mem_toList]
  constructor
  · rintro (here | later)
    · exact here
    · exact absurd (page_of_row later) other
  · exact Or.inl

/-- What `VATranslate` computes for a shown slot. -/
theorem vaTranslate_eq {view : View} {entries : Entries} {va : ULong}
    (shown : view.Shows entries (pgdIndex va)) :
    ∃ result, vaTranslate view va = some result ∧
      result.pageFrame = entryOf entries (va >>> PAGE_SHIFT) &&& 0xFFFFF000 ∧
      result.physicalAddr = result.pageFrame + (va &&& 0xFFF) ∧
      (result.invalid = false ↔ result.pageFrame ≠ 0) := by
  rw [← slot_of_page] at shown
  have word := shown.word_page
  rw [slot_of_page] at word
  have translated : vaTranslate view va = some
      { virtualAddr := va
        vPgd := (va >>> 21) &&& 0x7FF
        vPte := (va >>> PAGE_SHIFT) &&& 0x1FF
        vOffset := va &&& 0xFFF
        p := view.fakePgd (pgdIndex va)
        pageFrame := entryOf entries (va >>> PAGE_SHIFT) &&& 0xFFFFF000
        physicalAddr := (entryOf entries (va >>> PAGE_SHIFT) &&& 0xFFFFF000) + (va &&& 0xFFF)
        invalid := decide (entryOf entries (va >>> PAGE_SHIFT) &&& 0xFFFFF000 = 0) } := by
    simp only [vaTranslate, pmdIndex_eq, word, Option.bind_eq_bind, Option.bind_some]
  exact ⟨_, translated, rfl, rfl, decide_eq_false_iff_not⟩

/-- Dropping the low bits does not change the frame number. -/
theorem frame_of_entry (pte : ULong) : (pte &&& 0xFFFFF000) >>> PAGE_SHIFT = pte >>> PAGE_SHIFT := by
  apply BitVec.eq_of_toNat_eq
  rw [Word.toNat_shift, Word.toNat_shift, PAGE_SHIFT,
    Word.toNat_and_high (show Word.HighMask 12 (0xFFFFF000 : ULong) by decide)]
  omega

/-- The translation is right exactly if the entry has frame bits when it is present and no others. -/
theorem translates_iff (view : View) (entries : Entries) (va : ULong) (small : va.toNat < 2 ^ 32 - 1)
    (shown : view.Shows entries (va.toNat / 2 ^ 21)) :
    Translates view entries va ↔
      (entries (va.toNat / 2 ^ 21) (va.toNat / 2 ^ 12 % 512) &&& L_PTE_PRESENT ≠ 0 ↔
        entries (va.toNat / 2 ^ 21) (va.toNat / 2 ^ 12 % 512) &&& 0xFFFFF000 ≠ 0) := by
  rw [← pgdIndex_eq] at shown
  obtain ⟨result, translated, frameIs, physical, valid⟩ := vaTranslate_eq shown
  have inspected := vmInspector_one small shown
  rw [entryOf_page] at frameIs
  simp only [rowOf, entryOf_page] at inspected
  simp only [Translates, translated, Option.some.injEq, exists_eq_left']
  generalize entries (va.toNat / 2 ^ 21) (va.toNat / 2 ^ 12 % 512) = pte at *
  rw [valid, frameIs]
  constructor
  · intro right
    exact right.1.symm
  · intro same
    refine ⟨same.symm, fun _ => by rw [physical, frameIs], fun frame => ?_⟩
    rw [inspected, ← same, frame_of_entry]
    simp

/-- A view on entries that are all alike. -/
def uniformView (pte : ULong) : View := ⟨fun _ => 0x40000000, fun _ => some pte⟩

theorem present_page_translated : Translates (uniformView 0x12003) (fun _ _ => 0x12003) 0x40123 :=
  (translates_iff (uniformView 0x12003) (fun _ _ => 0x12003) 0x40123 (by decide)
    (fun _ _ => rfl)).mpr (by decide)

/-- `__swp_entry_to_pte (__swp_entry (type, offset))`. -/
def swapEntry (type offset : ULong) : ULong := (type <<< 3) ||| (offset <<< 8)

/-- A page in the swap area is not present, and `VATranslate` reports a physical address for it. -/
theorem swapped_page_translated :
    swapEntry 0 0x120 &&& L_PTE_PRESENT = 0 ∧
      (∃ result, vaTranslate (uniformView (swapEntry 0 0x120)) 0x40123 = some result ∧
        result.invalid = false ∧ result.physicalAddr = 0x12123) ∧
      ¬Translates (uniformView (swapEntry 0 0x120)) (fun _ _ => swapEntry 0 0x120) 0x40123 := by
  have reported : ∃ result, vaTranslate (uniformView (swapEntry 0 0x120)) 0x40123 = some result ∧
      result.invalid = false ∧ result.physicalAddr = 0x12123 := ⟨_, rfl, by decide, by decide⟩
  refine ⟨by decide, reported, ?_⟩
  rintro ⟨result, translated, present, _⟩
  obtain ⟨printed, computed, valid, _⟩ := reported
  rw [computed, Option.some.injEq] at translated
  subst translated
  exact absurd (present.mp valid) (by decide)

/-! ### Listing a range -/

/-- The page has an address in the range. -/
def Intersects (start stop page : ULong) : Prop :=
  ∃ addr : ULong, addr >>> PAGE_SHIFT = page ∧ start ≤ addr ∧ addr < stop

/-- The rows are one row, in increasing order, for every present page of the range, and no other. -/
structure ListsRange (entries : Entries) (start stop : ULong) (rows : List (ULong × ULong)) : Prop where
  increasing : rows.Pairwise fun first second => first.1 < second.1
  exactly : ∀ page frame, (page, frame) ∈ rows ↔ Intersects start stop page ∧
    entryOf entries page &&& L_PTE_PRESENT ≠ 0 ∧ frame = entryOf entries page >>> PAGE_SHIFT

/-- The last address of a range that is not empty. -/
theorem toNat_last {start stop : ULong} (nonempty : start < stop) :
    (stop - 1).toNat = stop.toNat - 1 := by
  rw [BitVec.lt_def] at nonempty
  bv_omega

/-- The pages of a range are those from the page of its first to the page of its last address. -/
theorem intersects_iff {start stop page : ULong} (nonempty : start < stop) :
    Intersects start stop page ↔ page ∈ pagesFrom (start >>> PAGE_SHIFT) ((stop - 1) >>> PAGE_SHIFT) := by
  rw [mem_pagesFrom, BitVec.le_def, BitVec.le_def, Word.toNat_shift, Word.toNat_shift,
    toNat_last nonempty, PAGE_SHIFT]
  rw [BitVec.lt_def] at nonempty
  constructor
  · rintro ⟨addr, rfl, above, below⟩
    rw [BitVec.le_def] at above
    rw [BitVec.lt_def] at below
    rw [Word.toNat_shift, PAGE_SHIFT]
    omega
  · rintro ⟨above, below⟩
    have stopInRange := stop.isLt
    -- the start of the range if it lies in the page, else the first address of the page
    refine ⟨BitVec.ofNat 32 (max start.toNat (page.toNat * 2 ^ 12)), ?_, ?_, ?_⟩
    · apply BitVec.eq_of_toNat_eq
      rw [Word.toNat_shift, BitVec.toNat_ofNat, PAGE_SHIFT]
      omega
    · rw [BitVec.le_def, BitVec.toNat_ofNat]
      omega
    · rw [BitVec.lt_def, BitVec.toNat_ofNat]
      omega

theorem pagesFrom_increasing (first last : ULong) : (pagesFrom first last).Pairwise (· < ·) := by
  rw [pagesFrom, List.pairwise_map]
  have bound := last.isLt
  refine List.Pairwise.imp_of_mem ?_ List.pairwise_lt_range'
  intro low high lowListed highListed less
  rw [List.mem_range'_1] at lowListed highListed
  rw [BitVec.lt_def, BitVec.toNat_ofNat, BitVec.toNat_ofNat]
  omega

theorem rowOf_eq_some {entries : Entries} {page : ULong} {row : ULong × ULong} :
    rowOf entries page = some row ↔ entryOf entries page &&& L_PTE_PRESENT ≠ 0 ∧
      row = (page, entryOf entries page >>> PAGE_SHIFT) := by
  rw [rowOf]
  split
  · rename_i present
    rw [Option.some.injEq, and_iff_right present, eq_comm]
  · rename_i absent
    simp only [reduceCtorEq, absent, false_and]

/-- The rows of the pages of the range list the range. -/
theorem rows_listsRange (entries : Entries) {start stop : ULong} (nonempty : start < stop) :
    ListsRange entries start stop
      ((pagesFrom (start >>> PAGE_SHIFT) ((stop - 1) >>> PAGE_SHIFT)).filterMap (rowOf entries)) := by
  constructor
  · rw [List.pairwise_filterMap]
    refine (pagesFrom_increasing _ _).imp fun less row isRow other isOther => ?_
    rw [(rowOf_eq_some.mp isRow).2, (rowOf_eq_some.mp isOther).2]
    exact less
  · intro page frame
    rw [intersects_iff nonempty, List.mem_filterMap]
    constructor
    · rintro ⟨other, listed, isRow⟩
      obtain ⟨present, same⟩ := rowOf_eq_some.mp isRow
      rw [Prod.mk.injEq] at same
      obtain ⟨rfl, isFrame⟩ := same
      exact ⟨listed, present, isFrame⟩
    · rintro ⟨listed, present, isFrame⟩
      exact ⟨page, listed, rowOf_eq_some.mpr ⟨present, by rw [isFrame]⟩⟩

/-- The loop of `vm_inspector` goes through the pages of the range, and through the page of the end
address if that is page-aligned. -/
theorem vmInspector_pages {start stop : ULong} (nonempty : start < stop) :
    pagesFrom ((start >>> PAGE_SHIFT) &&& 0xFFFFF) ((stop >>> PAGE_SHIFT) &&& 0xFFFFF) =
      pagesFrom (start >>> PAGE_SHIFT) ((stop - 1) >>> PAGE_SHIFT) ++
        if stop &&& 0xFFF = 0 then [stop >>> PAGE_SHIFT] else [] := by
  have aligned : stop &&& 0xFFF = 0 ↔ stop.toNat % 2 ^ 12 = 0 := by
    constructor
    · exact toNat_of_aligned
    · intro remainder
      apply BitVec.eq_of_toNat_eq
      rw [Word.toNat_and_low (show Word.LowMask 12 (0xFFF : ULong) by decide), remainder]
      rfl
  rw [page_eq, page_eq, pagesFrom, pagesFrom, Word.toNat_shift, Word.toNat_shift, Word.toNat_shift,
    toNat_last nonempty, PAGE_SHIFT]
  rw [BitVec.lt_def] at nonempty
  by_cases isAligned : stop &&& 0xFFF = 0
  · rw [if_pos isAligned]
    rw [aligned] at isAligned
    obtain ⟨count, countIs⟩ : ∃ count, stop.toNat / 2 ^ 12 = start.toNat / 2 ^ 12 + count :=
      ⟨stop.toNat / 2 ^ 12 - start.toNat / 2 ^ 12, by omega⟩
    have countBefore : (stop.toNat - 1) / 2 ^ 12 + 1 - start.toNat / 2 ^ 12 = count := by omega
    have countAll : stop.toNat / 2 ^ 12 + 1 - start.toNat / 2 ^ 12 = count + 1 := by omega
    rw [countBefore, countAll, List.range'_1_concat, List.map_append, ← countIs]
    congr 1
    rw [List.map_singleton, ← Word.toNat_shift, BitVec.ofNat_toNat]
    rfl
  · rw [if_neg isAligned, List.append_nil]
    rw [aligned] at isAligned
    have samePage : (stop.toNat - 1) / 2 ^ 12 = stop.toNat / 2 ^ 12 := by omega
    rw [samePage]

/-- The rows of the range, followed by what the loop does at the page of an aligned end. -/
theorem vmInspector_eq {view : View} {entries : Entries} {start stop : ULong} (nonempty : start < stop)
    (shown : ∀ slot, pgdIndex start ≤ slot → slot ≤ pgdIndex (stop - 1) → view.Shows entries slot) :
    vmInspector view start stop =
      ⟨(pagesFrom (start >>> PAGE_SHIFT) ((stop - 1) >>> PAGE_SHIFT)).filterMap (rowOf entries) ++
          (inspectPages view (if stop &&& 0xFFF = 0 then [stop >>> PAGE_SHIFT] else [])).rows,
        (inspectPages view (if stop &&& 0xFFF = 0 then [stop >>> PAGE_SHIFT] else [])).crashed⟩ := by
  rw [vmInspector, vmInspector_pages nonempty]
  refine inspectPages_append (fun page listed => ?_) _
  obtain ⟨addr, rfl, above, below⟩ := (intersects_iff nonempty).mpr listed
  rw [slot_of_page]
  exact shown _ (pgdIndex_mono above) (pgdIndex_mono (by bv_omega))

/-- The page of an aligned end does not belong to the range. -/
theorem not_intersects_end {start stop : ULong} (aligned : stop &&& 0xFFF = 0) :
    ¬Intersects start stop (stop >>> PAGE_SHIFT) := by
  rintro ⟨addr, samePage, _, below⟩
  have alignedNat := toNat_of_aligned aligned
  have pages := congrArg BitVec.toNat samePage
  rw [Word.toNat_shift, Word.toNat_shift, PAGE_SHIFT] at pages
  rw [BitVec.lt_def] at below
  omega

/-- A read through a null entry ends the program. -/
theorem inspectPages_null {view : View} {page : ULong}
    (null : ∀ j < 512, view.read (BitVec.ofNat 32 (4 * j)) = none)
    (missing : view.fakePgd (page >>> 9).toNat = 0) : inspectPages view [page] = ⟨[], true⟩ := by
  have inside : (page &&& 0x1FF).toNat < 512 := by
    rw [toNat_entry]
    exact Nat.mod_lt _ (by decide)
  have address : (0 : ULong) + 4 * (page &&& 0x1FF) = BitVec.ofNat 32 (4 * (page &&& 0x1FF).toNat) :=
    (BitVec.zero_add _).trans (four_mul _)
  rw [inspectPages, View.word, missing, address, null _ inside]

/-- `vm_inspector` lists the range exactly if the page of its end does not show: the end is not
page-aligned, or its slot is not exposed, or its page is not present. In the second case the program
ends with a bad read after the last row. -/
theorem lists_range_iff (view : View) (entries : Entries) {start stop : ULong} (nonempty : start < stop)
    (shown : ∀ slot, pgdIndex start ≤ slot → slot ≤ pgdIndex (stop - 1) → view.Shows entries slot)
    (others : ∀ slot, view.fakePgd slot = 0 ∨ view.Shows entries slot)
    (null : ∀ j < 512, view.read (BitVec.ofNat 32 (4 * j)) = none) :
    (ListsRange entries start stop (vmInspector view start stop).rows ↔
      stop &&& 0xFFF ≠ 0 ∨ view.fakePgd (pgdIndex stop) = 0 ∨
        entryOf entries (stop >>> PAGE_SHIFT) &&& L_PTE_PRESENT = 0) ∧
      ((vmInspector view start stop).crashed = true ↔
        stop &&& 0xFFF = 0 ∧ view.fakePgd (pgdIndex stop) = 0) := by
  have inRange := rows_listsRange entries nonempty
  rw [vmInspector_eq nonempty shown]
  by_cases aligned : stop &&& 0xFFF = 0
  · rw [if_pos aligned]
    by_cases missing : view.fakePgd (pgdIndex stop) = 0
    · rw [inspectPages_null null (by rw [slot_of_page]; exact missing), List.append_nil]
      exact ⟨iff_of_true inRange (Or.inr (Or.inl missing)), iff_of_true rfl ⟨aligned, missing⟩⟩
    · have endShown : view.Shows entries ((stop >>> PAGE_SHIFT) >>> 9).toNat := by
        rw [slot_of_page]
        exact (others _).resolve_left missing
      rw [inspectPages_one endShown, inspectPages, List.append_nil]
      refine ⟨?_, iff_of_false Bool.false_ne_true fun both => missing both.2⟩
      cases row : rowOf entries (stop >>> PAGE_SHIFT) with
      | none =>
          have absent : entryOf entries (stop >>> PAGE_SHIFT) &&& L_PTE_PRESENT = 0 := by
            by_contra present
            rw [rowOf_eq_some.mpr ⟨present, rfl⟩] at row
            cases row
          rw [Option.toList_none, List.append_nil]
          exact iff_of_true inRange (Or.inr (Or.inr absent))
      | some extra =>
          obtain ⟨present, rfl⟩ := rowOf_eq_some.mp row
          refine iff_of_false (fun lists => ?_) ?_
          · have listed := (lists.exactly _ _).mp (List.mem_append_right _ List.mem_cons_self)
            exact not_intersects_end aligned listed.1
          · rintro (unaligned | null | absent)
            · exact unaligned aligned
            · exact missing null
            · exact present absent
  · rw [if_neg aligned, inspectPages, List.append_nil]
    exact ⟨iff_of_true inRange (Or.inl aligned), iff_of_false (by simp) fun both => aligned both.1⟩

/-- A view on one slot, with entries that are all alike, and nothing below the first half page. -/
def oneSlotView (pte : ULong) : View :=
  ⟨fun slot => if slot = 0 then 0x40000000 else 0, fun addr => if addr < 0x800 then none else some pte⟩

theorem oneSlotView_shows (pte : ULong) : (oneSlotView pte).Shows (fun _ _ => pte) 0 := by
  intro j inside
  have above : ¬(0x40000000 + BitVec.ofNat 32 (4 * j) : ULong) < 0x800 := by
    rw [BitVec.lt_def, BitVec.toNat_add, BitVec.toNat_ofNat, show (0x40000000 : ULong).toNat =
      0x40000000 from rfl, show (0x800 : ULong).toNat = 0x800 from rfl]
    omega
  simp only [oneSlotView, if_true, above, if_false]

theorem oneSlotView_null (pte : ULong) :
    ∀ j < 512, (oneSlotView pte).read (BitVec.ofNat 32 (4 * j)) = none := by
  intro j inside
  have below : (BitVec.ofNat 32 (4 * j) : ULong) < 0x800 := by
    rw [BitVec.lt_def, BitVec.toNat_ofNat, show (0x800 : ULong).toNat = 0x800 from rfl]
    omega
  simp only [oneSlotView, below, if_true]

theorem unaligned_range_listed : ListsRange (fun _ _ => 0x12003) 0x1000 0x1FFF
    (vmInspector (oneSlotView 0x12003) 0x1000 0x1FFF).rows := by
  refine (lists_range_iff (oneSlotView 0x12003) (fun _ _ => 0x12003) (by decide) ?_ ?_
    (oneSlotView_null _)).1.mpr (Or.inl (by decide))
  · intro slot _ below
    rw [Nat.le_zero.mp below]
    exact oneSlotView_shows _
  · intro slot
    by_cases first : slot = 0
    · rw [first]
      exact Or.inr (oneSlotView_shows _)
    · exact Or.inl (if_neg first)

/-- For one page up to a page boundary, the page behind the boundary is listed too. -/
theorem end_page_listed :
    (∀ slot, pgdIndex 0x1000 ≤ slot → slot ≤ pgdIndex (0x2000 - 1) →
      (oneSlotView 0x12003).Shows (fun _ _ => 0x12003) slot) ∧
    (vmInspector (oneSlotView 0x12003) 0x1000 0x2000).rows = [(1, 0x12), (2, 0x12)] ∧
    ¬ListsRange (fun _ _ => 0x12003) 0x1000 0x2000
      (vmInspector (oneSlotView 0x12003) 0x1000 0x2000).rows := by
  have printed : (vmInspector (oneSlotView 0x12003) 0x1000 0x2000).rows = [(1, 0x12), (2, 0x12)] := by
    decide
  refine ⟨fun slot _ below => ?_, printed, fun lists => ?_⟩
  · rw [Nat.le_zero.mp below]
    exact oneSlotView_shows _
  · rw [printed] at lists
    have outside : ¬Intersects 0x1000 0x2000 2 := not_intersects_end (by decide)
    exact outside ((lists.exactly 2 0x12).mp (by decide)).1

end KernelHacking.PageTable
