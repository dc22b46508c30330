/-
Module: KernelHacking.Proofs.BuddySystem
Layer: Proofs
Purpose: What the free lists of a zone stand for: a set of blocks without pairs of buddies. Every function
  that works on them keeps this, with one block held outside while it is merged or split
  (`Regrouped`). So `__free_one_page` adds the frames of a block and `__rmqueue` takes out a block of the
  order asked for, and only fails if no block of this order or a larger one is free.
Imports: Mathlib (sums), KernelHacking.Model.FramePool
Trusted boundary: none (fully proved)
Main exports: Zone.Sound, Custody, Regrouped, freeOnePage_spec, Shuffled, moveFreepagesBlock_spec,
  rmqueue_spec, rmqueue_none
Open obligations: none
-/
import Mathlib.Algebra.BigOperators.Group.Finset.Piecewise
import KernelHacking.Model.FramePool

namespace KernelHacking.PageAllocator

open Buddy

/-! ### The lists -/

/-- The sum over the migrate types. -/
def overTypes (value : MigrateType → Nat) : Nat :=
  value .unmovable + value .reclaimable + value .movable + value .reserve + value .isolate

theorem overTypes_add (value other : MigrateType → Nat) :
    overTypes (fun type => value type + other type) = overTypes value + overTypes other := by
  simp only [overTypes]
  omega

theorem overTypes_ite (type : MigrateType) (number : Nat) :
    overTypes (fun t => if t = type then number else 0) = number := by
  cases type <;> simp [overTypes]

theorem le_overTypes (value : MigrateType → Nat) (type : MigrateType) : value type ≤ overTypes value := by
  cases type <;> simp only [overTypes] <;> omega

namespace Zone

variable {zone after : Zone} {page other order o : Nat} {type : MigrateType} {b c : Block}

/-- How often the page is on the lists of the order. -/
def listings (zone : Zone) (page order : Nat) : Nat :=
  overTypes fun type => (zone.freeList order type).count page

/-- How many pages are on the lists of the order. -/
def listed (zone : Zone) (order : Nat) : Nat := overTypes fun type => (zone.freeList order type).length

/-- A page is added at one of the ends of a list. -/
def push (zone : Zone) (page order : Nat) (type : MigrateType) (tail : Bool) : Zone :=
  if tail then zone.listAddTail page order type else zone.listAdd page order type

theorem listings_listDel : (zone.listDel page).listings other o =
    if other = page then 0 else zone.listings other o := by
  by_cases same : other = page
  · have none : ∀ list : List Nat, (list.filter fun q => decide (q ≠ page)).count other = 0 := by
      intro list
      rw [List.count_eq_zero, same]
      simp
    simp only [listings, listDel, none, if_pos same]
    rfl
  · have kept : ∀ list : List Nat,
        (list.filter fun q => decide (q ≠ page)).count other = list.count other :=
      fun list => List.count_filter (by simpa using same)
    simp only [listings, listDel, kept, if_neg same]

theorem listed_listDel (zone : Zone) (page o : Nat) :
    (zone.listDel page).listed o + zone.listings page o = zone.listed o := by
  have split : ∀ list : List Nat,
      (list.filter fun q => decide (q ≠ page)).length + list.count page = list.length := by
    intro list
    induction list with
    | nil => rfl
    | cons head rest inductionHypothesis =>
        by_cases same : head = page
        · rw [same, List.filter_cons_of_neg (by simp), List.count_cons_self, List.length_cons]
          omega
        · rw [List.filter_cons_of_pos (by simpa using same), List.count_cons_of_ne same]
          simp only [List.length_cons]
          omega
  rw [listed, listings, ← overTypes_add, listed]
  simp only [listDel, split]

theorem listings_push (tail : Bool) : (zone.push page order type tail).listings other o =
    zone.listings other o + if other = page ∧ o = order then 1 else 0 := by
  have added : ∀ t, ((zone.push page order type tail).freeList o t).count other =
      (zone.freeList o t).count other +
        if t = type then (if other = page ∧ o = order then 1 else 0) else 0 := by
    intro t
    cases tail <;> by_cases place : o = order ∧ t = type <;> by_cases same : other = page <;>
      simp [push, listAdd, listAddTail, List.count_cons, List.count_append, *] <;> grind
  rw [listings, listings]
  simp only [added, overTypes_add, overTypes_ite]

theorem listed_push (tail : Bool) : (zone.push page order type tail).listed o =
    zone.listed o + if o = order then 1 else 0 := by
  have added : ∀ t, ((zone.push page order type tail).freeList o t).length =
      (zone.freeList o t).length + if t = type then (if o = order then 1 else 0) else 0 := by
    intro t
    cases tail <;> by_cases place : o = order ∧ t = type <;>
      simp [push, listAdd, listAddTail, *] <;> grind
  rw [listed, listed]
  simp only [added, overTypes_add, overTypes_ite]

/-! ### The free blocks -/

@[simp] theorem pageBuddy_setPageOrder :
    (zone.setPageOrder page order).pageBuddy = Function.update zone.pageBuddy page true := rfl

@[simp] theorem pagePrivate_setPageOrder :
    (zone.setPageOrder page order).pagePrivate = Function.update zone.pagePrivate page order := rfl

@[simp] theorem pageBuddy_rmvPageOrder :
    (zone.rmvPageOrder page).pageBuddy = Function.update zone.pageBuddy page false := rfl

@[simp] theorem pagePrivate_rmvPageOrder :
    (zone.rmvPageOrder page).pagePrivate = Function.update zone.pagePrivate page 0 := rfl

@[simp] theorem spans_setPageOrder : (zone.setPageOrder page order).spans other = zone.spans other := rfl

@[simp] theorem spans_rmvPageOrder : (zone.rmvPageOrder page).spans other = zone.spans other := rfl

theorem freeOrder_setPageOrder (inside : zone.spans page = true) :
    (zone.setPageOrder page order).freeOrder other =
      if other = page then some order else zone.freeOrder other := by
  simp only [freeOrder, spans_setPageOrder, pageBuddy_setPageOrder, pagePrivate_setPageOrder]
  by_cases same : other = page
  · subst same
    simp [inside]
  · simp only [Function.update_of_ne same, if_neg same]

theorem freeOrder_rmvPageOrder : (zone.rmvPageOrder page).freeOrder other =
    if other = page then none else zone.freeOrder other := by
  simp only [freeOrder, spans_rmvPageOrder, pageBuddy_rmvPageOrder, pagePrivate_rmvPageOrder]
  by_cases same : other = page
  · subst same
    simp
  · simp only [Function.update_of_ne same, if_neg same]

theorem mem_freeBlocks : b ∈ zone.freeBlocks ↔ zone.freeOrder b.start = some b.order := Iff.rfl

theorem eq_of_mem_freeBlocks (memberB : b ∈ zone.freeBlocks) (memberC : c ∈ zone.freeBlocks)
    (starts : b.start = c.start) : b = c := by
  refine Block.eq_of_start ?_ starts
  rw [mem_freeBlocks, starts, mem_freeBlocks.mp memberC] at memberB
  exact (Option.some.inj memberB).symm

theorem freeBlocks_rmvPageOrder (member : b ∈ zone.freeBlocks) :
    (zone.rmvPageOrder b.start).freeBlocks = zone.freeBlocks \ {b} := by
  ext c
  rw [mem_freeBlocks, freeOrder_rmvPageOrder, Set.mem_sdiff, Set.mem_singleton_iff]
  by_cases starts : c.start = b.start
  · rw [if_pos starts]
    exact ⟨fun impossible => (nomatch impossible), fun ⟨memberC, different⟩ =>
      absurd (eq_of_mem_freeBlocks memberC member starts) different⟩
  · rw [if_neg starts]
    exact ⟨fun memberC => ⟨memberC, fun same => starts (congrArg Block.start same)⟩, And.left⟩

theorem freeBlocks_setPageOrder (inside : zone.spans b.start = true) (apart : Apart zone.freeBlocks b) :
    (zone.setPageOrder b.start b.order).freeBlocks = insert b zone.freeBlocks := by
  ext c
  rw [mem_freeBlocks, freeOrder_setPageOrder inside, Set.mem_insert_iff]
  by_cases starts : c.start = b.start
  · rw [if_pos starts]
    constructor
    · intro orders
      exact .inl (Block.eq_of_start (Option.some.inj orders).symm starts)
    · rintro (same | member)
      · rw [same]
      · exact absurd starts (apart.start_ne member)
  · rw [if_neg starts]
    exact ⟨.inr, fun cases => cases.resolve_left fun same => starts (congrArg Block.start same)⟩

/-- The pages with an order are on one list of this order, and no list of `MIGRATE_ISOLATE` is in use. -/
structure Listed (zone : Zone) : Prop where
  listings_eq : ∀ page order, zone.listings page order = if zone.freeOrder page = some order then 1 else 0
  isolate_nil : ∀ order, zone.freeList order .isolate = []

/-- The lists, the counters and the pages describe one set of blocks without pairs of buddies. -/
structure Sound (zone : Zone) : Prop extends zone.Listed where
  nrFree_eq : ∀ order, zone.nrFree order = zone.listed order
  aligned : ∀ {page order}, zone.freeOrder page = some order → 2 ^ order ∣ page
  admits : ∀ {b}, b ∈ zone.freeBlocks → zone.Admits b
  coalesced : Coalesced (MAX_ORDER - 1) zone.freeBlocks
  flags_ne : ∀ number, zone.pageblockFlags number ≠ .isolate

theorem Listed.freeOrder_of_mem (listed : zone.Listed) (member : page ∈ zone.freeList order type) :
    zone.freeOrder page = some order := by
  have occurs : 0 < (zone.freeList order type).count page := List.count_pos_iff.mpr member
  have bound := le_overTypes (fun t => (zone.freeList order t).count page) type
  have total := listed.listings_eq page order
  rw [listings] at total
  by_contra different
  rw [if_neg different] at total
  omega

/-- A page with an order is the first page of a free block. -/
theorem Sound.mem_of_freeOrder (sound : zone.Sound) (free : zone.freeOrder page = some order) :
    Block.ofFrame order page ∈ zone.freeBlocks ∧ (Block.ofFrame order page).start = page := by
  have start := Block.start_ofFrame (sound.aligned free)
  exact ⟨by rwa [mem_freeBlocks, start, Block.order_ofFrame], start⟩

theorem Sound.mem_of_listed (sound : zone.Sound) (member : page ∈ zone.freeList order type) :
    Block.ofFrame order page ∈ zone.freeBlocks ∧ (Block.ofFrame order page).start = page :=
  sound.mem_of_freeOrder (sound.freeOrder_of_mem member)

theorem Sound.nrFree_pos (sound : zone.Sound)
    (member : b ∈ zone.freeBlocks) : 0 < zone.nrFree b.order := by
  have once := sound.listings_eq b.start b.order
  rw [if_pos (mem_freeBlocks.mp member)] at once
  have split := listed_listDel zone b.start b.order
  rw [sound.nrFree_eq]
  omega

/-! ### Counting pages -/

/-- The pages on the lists, by the counters. -/
def freePages (zone : Zone) : Nat := ∑ order ∈ Finset.range MAX_ORDER, zone.nrFree order * 2 ^ order

@[simp] theorem nrFree_incNrFree :
    (zone.incNrFree order).nrFree = Function.update zone.nrFree order (zone.nrFree order + 1) := rfl

theorem freePages_congr (counters : after.nrFree = zone.nrFree) : after.freePages = zone.freePages := by
  rw [freePages, counters, freePages]

theorem freePages_incNrFree (small : order < MAX_ORDER) :
    (zone.incNrFree order).freePages = zone.freePages + 2 ^ order := by
  have added : ∀ o, (zone.incNrFree order).nrFree o * 2 ^ o =
      zone.nrFree o * 2 ^ o + if o = order then 2 ^ order else 0 := by
    intro o
    by_cases same : o = order
    · rw [same, if_pos rfl, nrFree_incNrFree, Function.update_self, Nat.add_mul, Nat.one_mul]
    · rw [if_neg same, nrFree_incNrFree, Function.update_of_ne same, Nat.add_zero]
  rw [freePages, Finset.sum_congr rfl fun o _ => added o, Finset.sum_add_distrib, Finset.sum_ite_eq',
    if_pos (Finset.mem_range.mpr small), freePages]

theorem incNrFree_decNrFree (positive : 0 < zone.nrFree order) :
    (zone.decNrFree order).incNrFree order = zone := by
  have counted : zone.nrFree order - 1 + 1 = zone.nrFree order := by omega
  simp [decNrFree, incNrFree, counted]

theorem freePages_decNrFree (small : order < MAX_ORDER) (positive : 0 < zone.nrFree order) :
    (zone.decNrFree order).freePages + 2 ^ order = zone.freePages := by
  rw [← freePages_incNrFree small, incNrFree_decNrFree positive]

/-! ### Taking a block from its list and putting one on a list -/

theorem freeBlocks_takeBuddy (member : b ∈ zone.freeBlocks) :
    (zone.takeBuddy b.start b.order).freeBlocks = zone.freeBlocks \ {b} :=
  freeBlocks_rmvPageOrder member

theorem freeOrder_takeBuddy : (zone.takeBuddy page order).freeOrder other =
    if other = page then none else zone.freeOrder other :=
  freeOrder_rmvPageOrder

theorem Sound.takeBuddy (sound : zone.Sound) (member : b ∈ zone.freeBlocks) :
    (zone.takeBuddy b.start b.order).Sound where
  listings_eq other o := by
    have lists : (zone.takeBuddy b.start b.order).listings other o =
        if other = b.start then 0 else zone.listings other o := listings_listDel
    rw [lists, freeOrder_takeBuddy, sound.listings_eq]
    by_cases same : other = b.start
    · simp [same]
    · simp only [if_neg same]
  isolate_nil o := by
    show ((zone.freeList o .isolate).filter _) = []
    rw [sound.isolate_nil, List.filter_nil]
  nrFree_eq o := by
    have lengths : (zone.takeBuddy b.start b.order).listed o + zone.listings b.start o = zone.listed o :=
      listed_listDel zone b.start o
    have counter : (zone.takeBuddy b.start b.order).nrFree o =
        Function.update zone.nrFree b.order (zone.nrFree b.order - 1) o := rfl
    rw [sound.listings_eq, mem_freeBlocks.mp member, ← sound.nrFree_eq] at lengths
    rw [counter]
    by_cases same : o = b.order
    · subst same
      rw [if_pos rfl] at lengths
      rw [Function.update_self]
      omega
    · rw [if_neg fun orders => same (Option.some.inj orders).symm] at lengths
      rw [Function.update_of_ne same]
      omega
  aligned := by
    intro other o free
    rw [freeOrder_takeBuddy] at free
    split at free
    · exact nomatch free
    · exact sound.aligned free
  admits := by
    intro c memberC
    rw [freeBlocks_takeBuddy member] at memberC
    exact ⟨(sound.admits memberC.1).order_lt, (sound.admits memberC.1).inside⟩
  coalesced := by
    rw [freeBlocks_takeBuddy member]
    exact sound.coalesced.mono Set.sdiff_subset
  flags_ne := sound.flags_ne

/-- A block is put on a list. -/
def putBlock (zone : Zone) (page order : Nat) (type : MigrateType) (tail : Bool) : Zone :=
  ((zone.push page order type tail).incNrFree order).setPageOrder page order

/-- The list that `push` changes does not matter for the other fields. -/
theorem push_eq (zone : Zone) (page order : Nat) (type : MigrateType) (tail : Bool) :
    ∃ lists, zone.push page order type tail = { zone with freeList := lists } := by
  cases tail
  · exact ⟨_, rfl⟩
  · exact ⟨_, rfl⟩

theorem freeOrder_putBlock (tail : Bool) (inside : zone.spans page = true) :
    (zone.putBlock page order type tail).freeOrder other =
      if other = page then some order else zone.freeOrder other := by
  obtain ⟨lists, pushed⟩ := push_eq zone page order type tail
  rw [putBlock, pushed]
  exact freeOrder_setPageOrder inside

theorem freeBlocks_putBlock (type : MigrateType) (tail : Bool) (inside : zone.spans b.start = true)
    (apart : Apart zone.freeBlocks b) :
    (zone.putBlock b.start b.order type tail).freeBlocks = insert b zone.freeBlocks := by
  rw [← freeBlocks_setPageOrder inside apart]
  ext c
  rw [mem_freeBlocks, mem_freeBlocks, freeOrder_putBlock tail inside, freeOrder_setPageOrder inside]

theorem spans_putBlock (tail : Bool) : (zone.putBlock page order type tail).spans other =
    zone.spans other := by
  cases tail <;> rfl

theorem Sound.putBlock (sound : zone.Sound) (tail : Bool) (apart : Apart zone.freeBlocks b)
    (admits : zone.Admits b) (noBuddy : b.order < MAX_ORDER - 1 → b.buddy ∉ zone.freeBlocks)
    (notIsolate : type ≠ .isolate) : (zone.putBlock b.start b.order type tail).Sound where
  listings_eq other o := by
    have lists : (zone.putBlock b.start b.order type tail).listings other o =
        zone.listings other o + if other = b.start ∧ o = b.order then 1 else 0 := listings_push tail
    rw [lists, freeOrder_putBlock tail (admits.inside b.covers_start), sound.listings_eq]
    by_cases same : other = b.start
    · -- the page was the first page of no free block before
      have unlisted : zone.freeOrder other ≠ some o := by
        intro free
        obtain ⟨member, start⟩ := sound.mem_of_freeOrder free
        exact apart.start_ne member (start.trans same)
      rw [if_neg unlisted, if_pos same, Nat.zero_add]
      by_cases orders : o = b.order
      · rw [if_pos ⟨same, orders⟩, if_pos (congrArg some orders.symm)]
      · rw [if_neg fun both => orders both.2, if_neg fun equal => orders (Option.some.inj equal).symm]
    · have elsewhere : ¬(other = b.start ∧ o = b.order) := fun both => same both.1
      rw [if_neg elsewhere, if_neg same, Nat.add_zero]
  isolate_nil o := by
    have unchanged : (zone.push b.start b.order type tail).freeList o .isolate =
        zone.freeList o .isolate := by
      have other : ¬(o = b.order ∧ MigrateType.isolate = type) := fun both => notIsolate both.2.symm
      cases tail
      · exact if_neg other
      · exact if_neg other
    exact unchanged.trans (sound.isolate_nil o)
  nrFree_eq o := by
    have lengths : (zone.putBlock b.start b.order type tail).listed o =
        zone.listed o + if o = b.order then 1 else 0 := listed_push tail
    have counter : (zone.putBlock b.start b.order type tail).nrFree o =
        Function.update zone.nrFree b.order (zone.nrFree b.order + 1) o := by
      cases tail <;> rfl
    rw [lengths, counter, ← sound.nrFree_eq]
    by_cases same : o = b.order
    · rw [same, Function.update_self, if_pos rfl]
    · rw [Function.update_of_ne same, if_neg same, Nat.add_zero]
  aligned := by
    intro other o free
    rw [freeOrder_putBlock tail (admits.inside b.covers_start)] at free
    split at free
    · next same =>
        rw [same, ← Option.some.inj free]
        exact b.dvd_start
    · exact sound.aligned free
  admits := by
    intro c member
    rw [freeBlocks_putBlock type tail (admits.inside b.covers_start) apart] at member
    have before : zone.Admits c := by
      rcases member with rfl | member
      · exact admits
      · exact sound.admits member
    exact ⟨before.order_lt, fun covers => (spans_putBlock tail).trans (before.inside covers)⟩
  coalesced := by
    rw [freeBlocks_putBlock type tail (admits.inside b.covers_start) apart]
    have order : b.order ≤ MAX_ORDER - 1 := Nat.le_sub_one_of_lt admits.order_lt
    exact sound.coalesced.insert_of_apart apart order noBuddy
  flags_ne number := by
    obtain ⟨lists, pushed⟩ := push_eq zone b.start b.order type tail
    rw [Zone.putBlock, pushed]
    exact sound.flags_ne number

end Zone

/-! ### Regrouping -/

/-- The fields that the work on the free lists does not touch. -/
structure SameZone (zone after : Zone) : Prop where
  zoneStartPfn : after.zoneStartPfn = zone.zoneStartPfn
  spannedPages : after.spannedPages = zone.spannedPages
  nrFreePages : after.nrFreePages = zone.nrFreePages
  pcp : after.pcp = zone.pcp

theorem SameZone.refl (zone : Zone) : SameZone zone zone := ⟨rfl, rfl, rfl, rfl⟩

theorem SameZone.trans {first second third : Zone} (one : SameZone first second)
    (two : SameZone second third) : SameZone first third :=
  ⟨two.1.trans one.1, two.2.trans one.2, two.3.trans one.3, two.4.trans one.4⟩

theorem SameZone.spans {zone after : Zone} (same : SameZone zone after) (page : Nat) :
    after.spans page = zone.spans page := by
  rw [Zone.spans, Zone.spans, same.zoneStartPfn, same.spannedPages]

theorem SameZone.admits {zone after : Zone} {b : Block} (same : SameZone zone after)
    (admits : zone.Admits b) :
    after.Admits b :=
  ⟨admits.order_lt, fun covers => (same.spans _).trans (admits.inside covers)⟩

/-- The frame lies in a free block or in the block that is held. -/
def Zone.Has (zone : Zone) (held : Option Block) (frame : Nat) : Prop :=
  (∃ b ∈ held, b.Covers frame) ∨ Covered zone.freeBlocks frame

def heldPages : Option Block → Nat
  | none => 0
  | some b => 2 ^ b.order

/-- The lists are in order, and what is held is a block of the zone apart from them. -/
structure Custody (zone : Zone) (held : Option Block) : Prop where
  sound : zone.Sound
  apart : ∀ {b}, held = some b → Apart zone.freeBlocks b
  admits : ∀ {b}, held = some b → zone.Admits b

/-- The same frames are free or held, in other blocks. Only the pages of these frames are written to. -/
structure Regrouped (zone : Zone) (held : Option Block) (after : Zone)
    (heldAfter : Option Block) : Prop where
  custody : Custody after heldAfter
  has_iff : ∀ frame, after.Has heldAfter frame ↔ zone.Has held frame
  pages : after.freePages + heldPages heldAfter = zone.freePages + heldPages held
  private_eq : ∀ {page}, ¬zone.Has held page → after.pagePrivate page = zone.pagePrivate page
  same : SameZone zone after

theorem Custody.regrouped {zone : Zone} {held : Option Block} (custody : Custody zone held) :
    Regrouped zone held zone held :=
  ⟨custody, fun _ => Iff.rfl, rfl, fun _ => rfl, .refl zone⟩

theorem Regrouped.trans {first second third : Zone} {heldFirst heldSecond heldThird : Option Block}
    (one : Regrouped first heldFirst second heldSecond)
    (two : Regrouped second heldSecond third heldThird) : Regrouped first heldFirst third heldThird where
  custody := two.custody
  has_iff frame := (two.has_iff frame).trans (one.has_iff frame)
  pages := two.pages.trans one.pages
  private_eq outside :=
    (two.private_eq fun has => outside ((one.has_iff _).mp has)).trans (one.private_eq outside)
  same := one.same.trans two.same

section Held

variable {zone : Zone} {b c : Block} {frame : Nat}

@[simp] theorem has_none : zone.Has none frame ↔ Covered zone.freeBlocks frame := by
  simp [Zone.Has]

@[simp] theorem has_some : zone.Has (some b) frame ↔ b.Covers frame ∨ Covered zone.freeBlocks frame := by
  simp [Zone.Has]

theorem Custody.of_sound (sound : zone.Sound) : Custody zone none :=
  ⟨sound, fun impossible => (nomatch impossible), fun impossible => (nomatch impossible)⟩

theorem Custody.hold (sound : zone.Sound) (apart : Apart zone.freeBlocks b) (admits : zone.Admits b) :
    Custody zone (some b) :=
  ⟨sound, fun held => Option.some.inj held ▸ apart, fun held => Option.some.inj held ▸ admits⟩

/-- A free block is taken from its list. -/
theorem regrouped_take (sound : zone.Sound) (member : b ∈ zone.freeBlocks) :
    Regrouped zone none (zone.takeBuddy b.start b.order) (some b) where
  custody := by
    have same : SameZone zone (zone.takeBuddy b.start b.order) := ⟨rfl, rfl, rfl, rfl⟩
    refine Custody.hold (sound.takeBuddy member) ?_ (same.admits (sound.admits member))
    rw [Zone.freeBlocks_takeBuddy member]
    exact sound.coalesced.apart_diff member
  has_iff frame := by
    rw [has_some, has_none, Zone.freeBlocks_takeBuddy member, sound.coalesced.covered_diff member]
    constructor
    · rintro (covers | ⟨covered, _⟩)
      · exact ⟨b, member, covers⟩
      · exact covered
    · intro covered
      by_cases covers : b.Covers frame
      · exact .inl covers
      · exact .inr ⟨covered, covers⟩
  pages := by
    have counters : (zone.takeBuddy b.start b.order).nrFree = (zone.decNrFree b.order).nrFree := rfl
    rw [Zone.freePages_congr counters, heldPages, heldPages, Nat.add_zero]
    exact Zone.freePages_decNrFree (sound.admits member).order_lt (sound.nrFree_pos member)
  private_eq := by
    intro page outside
    refine Function.update_of_ne ?_ _ _
    rintro rfl
    exact outside (has_none.mpr ⟨b, member, b.covers_start⟩)
  same := ⟨rfl, rfl, rfl, rfl⟩

/-- The held block takes its buddy from the list and becomes their parent. -/
theorem regrouped_merge (custody : Custody zone (some b)) (buddy : b.buddy ∈ zone.freeBlocks)
    (small : b.order < MAX_ORDER - 1) :
    Regrouped zone (some b) (zone.takeBuddy b.buddy.start b.buddy.order) (some b.parent) where
  custody := by
    refine Custody.hold (custody.sound.takeBuddy buddy) ?_ ⟨?_, ?_⟩
    · rw [Zone.freeBlocks_takeBuddy buddy]
      exact (custody.apart rfl).merge custody.sound.coalesced buddy
    · rw [Block.order_parent]
      omega
    · intro frame covers
      rcases Block.covers_parent_iff.mp covers with covers | covers
      · exact (custody.admits rfl).inside covers
      · exact (custody.sound.admits buddy).inside covers
  has_iff frame := by
    have removed : Covered (zone.freeBlocks \ {b.buddy}) frame ↔ _ :=
      custody.sound.coalesced.covered_diff buddy
    rw [has_some, has_some, Zone.freeBlocks_takeBuddy buddy, Block.covers_parent_iff, removed]
    constructor
    · rintro ((covers | covers) | ⟨covered, _⟩)
      · exact .inl covers
      · exact .inr ⟨_, buddy, covers⟩
      · exact .inr covered
    · rintro (covers | covered)
      · exact .inl (.inl covers)
      · by_cases covers : b.buddy.Covers frame
        · exact .inl (.inr covers)
        · exact .inr ⟨covered, covers⟩
  pages := by
    have removed := (regrouped_take custody.sound buddy).pages
    simp only [heldPages, Block.order_parent, Nat.pow_succ, Block.order_buddy] at removed ⊢
    omega
  private_eq := by
    intro page outside
    refine Function.update_of_ne ?_ _ _
    rintro rfl
    exact outside (has_some.mpr (.inr ⟨_, buddy, b.buddy.covers_start⟩))
  same := ⟨rfl, rfl, rfl, rfl⟩

theorem freePages_putBlock {type : MigrateType} (tail : Bool) (small : b.order < MAX_ORDER) :
    (zone.putBlock b.start b.order type tail).freePages = zone.freePages + 2 ^ b.order := by
  have counters : (zone.putBlock b.start b.order type tail).nrFree = (zone.incNrFree b.order).nrFree := by
    cases tail <;> rfl
  rw [Zone.freePages_congr counters, Zone.freePages_incNrFree small]

theorem pagePrivate_putBlock {type : MigrateType}
    (tail : Bool) : (zone.putBlock b.start b.order type tail).pagePrivate =
    Function.update zone.pagePrivate b.start b.order := by
  cases tail <;> rfl

theorem sameZone_putBlock (zone : Zone) (b : Block) (type : MigrateType) (tail : Bool) :
    SameZone zone (zone.putBlock b.start b.order type tail) := by
  cases tail <;> exact ⟨rfl, rfl, rfl, rfl⟩

/-- The held block is put on a list. -/
theorem regrouped_put {type : MigrateType} (custody : Custody zone (some b)) (tail : Bool)
    (noBuddy : b.order < MAX_ORDER - 1 → b.buddy ∉ zone.freeBlocks) (notIsolate : type ≠ .isolate) :
    Regrouped zone (some b) (zone.putBlock b.start b.order type tail) none where
  custody := .of_sound (custody.sound.putBlock tail (custody.apart rfl)
    (custody.admits rfl) noBuddy notIsolate)
  has_iff frame := by
    rw [has_none, has_some, Zone.freeBlocks_putBlock type tail
      ((custody.admits rfl).inside b.covers_start)
      (custody.apart rfl), covered_insert]
  pages := by
    rw [heldPages, heldPages, Nat.add_zero]
    exact freePages_putBlock tail (custody.admits rfl).order_lt
  private_eq := by
    intro page outside
    rw [pagePrivate_putBlock]
    refine Function.update_of_ne ?_ _ _
    rintro rfl
    exact outside (has_some.mpr (.inl b.covers_start))
  same := sameZone_putBlock zone b type tail

/-- The second half of the held block is put on a list. -/
theorem regrouped_split {type : MigrateType} (custody : Custody zone (some b)) (positive : 0 < b.order)
    (notIsolate : type ≠ .isolate) :
    Regrouped zone (some b) (zone.putBlock b.upper.start b.upper.order type false) (some b.lower) := by
  have apart := custody.apart rfl
  have admits := custody.admits rfl
  have halves := @Block.covers_iff_halves b
  have small : b.upper.order < MAX_ORDER := by
    have := admits.order_lt
    rw [Block.order_upper]
    omega
  have apartUpper : Apart zone.freeBlocks b.upper :=
    fun _ covers => apart ((halves positive).mpr (.inr covers))
  have admitsUpper : zone.Admits b.upper :=
    ⟨small, fun covers => admits.inside ((halves positive).mpr (.inr covers))⟩
  have noBuddy : b.upper.buddy ∉ zone.freeBlocks := by
    rw [← Block.buddy_lower, Block.buddy_buddy]
    exact fun member =>
      apart ((halves positive).mpr (.inl b.lower.covers_start)) ⟨_, member, b.lower.covers_start⟩
  have blocks := Zone.freeBlocks_putBlock type false
    (admitsUpper.inside b.upper.covers_start) apartUpper
  have same := sameZone_putBlock zone b.upper type false
  refine ⟨Custody.hold (custody.sound.putBlock false apartUpper admitsUpper (fun _ => noBuddy) notIsolate)
    ?_ (same.admits ⟨small, fun covers => admits.inside ((halves positive).mpr (.inl covers))⟩),
    ?_, ?_, ?_, same⟩
  · rw [blocks]
    exact apart.split positive
  · intro frame
    rw [has_some, has_some, blocks, covered_insert, halves positive, or_assoc]
  · have power : 2 ^ b.order = 2 ^ (b.order - 1) * 2 := by
      rw [← Nat.pow_succ, Nat.succ_eq_add_one, Nat.sub_add_cancel positive]
    rw [freePages_putBlock false small]
    simp only [heldPages, Block.order_upper, Block.order_lower, power]
    omega
  · intro page outside
    rw [pagePrivate_putBlock]
    refine Function.update_of_ne ?_ _ _
    rintro rfl
    exact outside (has_some.mpr (.inl ((halves positive).mpr (.inr b.upper.covers_start))))

end Held

/-! ### `__free_one_page` -/

section Free

variable {zone : Zone} {b : Block} {type : MigrateType}

theorem pageIsBuddy_iff {page : Nat} (inside : zone.spans page = true) :
    zone.pageIsBuddy page b.start b.order = true ↔ b ∈ zone.freeBlocks := by
  rw [Zone.mem_freeBlocks, Zone.freeOrder, Zone.pageIsBuddy, inside]
  cases zone.spans b.start <;> cases zone.pageBuddy b.start <;> simp

/-- The loop stops with a block whose buddy is not free, or with a block of the largest order. -/
theorem mergeLoop_spec (left : Nat) (custody : Custody zone (some b))
    (levels : b.order + left = MAX_ORDER - 1) :
    ∃ after c, Zone.mergeLoop left zone b.start (b.start % 2 ^ MAX_ORDER) b.order =
        (after, c.start, c.start % 2 ^ MAX_ORDER, c.order) ∧
      Regrouped zone (some b) after (some c) ∧
        (c.order < MAX_ORDER - 1 → c.buddy ∉ after.freeBlocks) := by
  induction left generalizing zone b with
  | zero => exact ⟨zone, b, rfl, custody.regrouped, fun small => by omega⟩
  | succ left inductionHypothesis =>
      have small : b.order < MAX_ORDER - 1 := by omega
      have bits : b.order < MAX_ORDER := by omega
      simp only [Zone.mergeLoop, Zone.findBuddyIndex, Nat.one_shiftLeft, Block.add_sub_buddy bits,
        Block.and_mod_buddy bits, Block.add_sub_parent bits]
      have isBuddy : zone.pageIsBuddy b.start b.buddy.start b.order = true ↔ b.buddy ∈ zone.freeBlocks :=
        pageIsBuddy_iff ((custody.admits rfl).inside b.covers_start)
      by_cases buddy : b.buddy ∈ zone.freeBlocks
      · have merged := regrouped_merge custody buddy small
        obtain ⟨after, c, result, regrouped, noBuddy⟩ := inductionHypothesis merged.custody
          (show b.order + 1 + left = MAX_ORDER - 1 by omega)
        refine ⟨after, c, ?_, merged.trans regrouped, noBuddy⟩
        rw [if_pos (isBuddy.mpr buddy)]
        exact result
      · refine ⟨zone, b, ?_, custody.regrouped, fun _ => buddy⟩
        rw [if_neg fun found => buddy (isBuddy.mp found)]

theorem freeOnePage_spec (custody : Custody zone (some b)) (notIsolate : type ≠ .isolate) :
    Regrouped zone (some b) (zone.freeOnePage b.start b.order type) none := by
  have small := (custody.admits rfl).order_lt
  obtain ⟨after, c, result, regrouped, noBuddy⟩ := mergeLoop_spec
    (MAX_ORDER - 1 - b.order) custody (by omega)
  have put : zone.freeOnePage b.start b.order type = after.putBlock c.start c.order type
      ((after.setPageOrder c.start c.order).higherBuddyFree c.start
      (c.start % 2 ^ MAX_ORDER) c.order) := by
    rw [Zone.freeOnePage, Nat.and_two_pow_sub_one_eq_mod, result]
    cases tail : (after.setPageOrder c.start c.order).higherBuddyFree c.start (c.start % 2 ^ MAX_ORDER)
      c.order
    · simp only [tail, Bool.false_eq_true, if_false]
      rfl
    · simp only [tail, if_true]
      rfl
  rw [put]
  exact regrouped.trans (regrouped_put regrouped.custody _ noBuddy notIsolate)

end Free

/-! ### Moving pages between the types -/

/-- The same blocks are free, and the lists of each order hold the same pages. -/
structure Alike (zone after : Zone) : Prop where
  spans : ∀ page, after.spans page = zone.spans page
  freeOrder : ∀ page, after.freeOrder page = zone.freeOrder page
  listings : ∀ page order, after.listings page order = zone.listings page order
  listed : ∀ order, after.listed order = zone.listed order
  isolate : ∀ order, after.freeList order .isolate = zone.freeList order .isolate
  nrFree : after.nrFree = zone.nrFree
  flags_ne : (∀ number, zone.pageblockFlags number ≠ .isolate) → ∀ number,
    after.pageblockFlags number ≠ .isolate

/-- Pages are moved between the lists of an order, and page blocks change their type. -/
structure Shuffled (zone after : Zone) : Prop extends Alike zone after where
  pagePrivate : after.pagePrivate = zone.pagePrivate
  same : SameZone zone after

section Shuffle

variable {zone after : Zone} {type : MigrateType} {disabled : Bool} {page : Nat}

theorem Alike.freeBlocks (alike : Alike zone after) : after.freeBlocks = zone.freeBlocks := by
  ext b
  rw [Zone.mem_freeBlocks, Zone.mem_freeBlocks, alike.freeOrder]

theorem Alike.keeps_listed (alike : Alike zone after) (listed : zone.Listed) : after.Listed where
  listings_eq page order := by
    rw [alike.listings, alike.freeOrder, listed.listings_eq]
  isolate_nil order := (alike.isolate order).trans (listed.isolate_nil order)

theorem Alike.keeps_sound (alike : Alike zone after) (sound : zone.Sound) : after.Sound where
  toListed := alike.keeps_listed sound.toListed
  nrFree_eq order := by
    rw [alike.nrFree, alike.listed, sound.nrFree_eq]
  aligned free := sound.aligned ((alike.freeOrder _).symm.trans free)
  admits member := by
    have admits := sound.admits (alike.freeBlocks ▸ member)
    exact ⟨admits.order_lt, fun covers => (alike.spans _).trans (admits.inside covers)⟩
  coalesced := alike.freeBlocks ▸ sound.coalesced
  flags_ne := alike.flags_ne sound.flags_ne

theorem Shuffled.refl (zone : Zone) : Shuffled zone zone :=
  ⟨⟨fun _ => rfl, fun _ => rfl, fun _ _ => rfl, fun _ => rfl, fun _ => rfl, rfl, id⟩, rfl, .refl zone⟩

theorem Shuffled.trans {last : Zone} (one : Shuffled zone after) (two : Shuffled after last) :
    Shuffled zone last where
  spans page := (two.spans page).trans (one.spans page)
  freeOrder page := (two.freeOrder page).trans (one.freeOrder page)
  listings page order := (two.listings page order).trans (one.listings page order)
  listed order := (two.listed order).trans (one.listed order)
  isolate order := (two.isolate order).trans (one.isolate order)
  nrFree := two.nrFree.trans one.nrFree
  flags_ne flags := two.flags_ne (one.flags_ne flags)
  pagePrivate := two.pagePrivate.trans one.pagePrivate
  same := one.same.trans two.same

theorem Shuffled.regrouped {held : Option Block} (shuffled : Shuffled zone after)
    (custody : Custody zone held) :
    Regrouped zone held after held where
  custody :=
    { sound := shuffled.keeps_sound custody.sound
      apart := fun isHeld => shuffled.freeBlocks ▸ custody.apart isHeld
      admits := fun isHeld => shuffled.same.admits (custody.admits isHeld) }
  has_iff frame := by rw [Zone.Has, Zone.Has, shuffled.freeBlocks]
  pages := by rw [Zone.freePages_congr shuffled.nrFree]
  private_eq _ := congrFun shuffled.pagePrivate _
  same := shuffled.same

/-- `list_move` to the list of another type. -/
theorem shuffled_move {order : Nat} (listed : zone.Listed) (free : zone.freeOrder page = some order)
    (notIsolate : type ≠ .isolate) : Shuffled zone ((zone.listDel page).listAdd page order type) where
  listings other o := by
    have added : ((zone.listDel page).listAdd page order type).listings other o =
        (zone.listDel page).listings other o + if other = page ∧ o = order then 1 else 0 :=
      Zone.listings_push false
    rw [added, Zone.listings_listDel]
    by_cases same : other = page
    · rw [if_pos same, same, listed.listings_eq, free]
      simp [eq_comm]
    · rw [if_neg same, if_neg fun both => same both.1, Nat.add_zero]
  listed o := by
    have added : ((zone.listDel page).listAdd page order type).listed o =
        (zone.listDel page).listed o + if o = order then 1 else 0 := Zone.listed_push false
    have removed := Zone.listed_listDel zone page o
    rw [listed.listings_eq, free] at removed
    rw [added, ← removed]
    simp [eq_comm]
  isolate o := by
    have other : ¬(o = order ∧ MigrateType.isolate = type) := fun both => notIsolate both.2.symm
    refine (if_neg other).trans ?_
    show ((zone.freeList o .isolate).filter _) = _
    rw [listed.isolate_nil, List.filter_nil]
  spans _ := rfl
  freeOrder _ := rfl
  nrFree := rfl
  pagePrivate := rfl
  flags_ne := id
  same := ⟨rfl, rfl, rfl, rfl⟩

theorem shuffled_setPageblockMigratetype (zone : Zone) (disabled : Bool) (page : Nat)
    (notIsolate : type ≠ .isolate) :
    Shuffled zone (zone.setPageblockMigratetype disabled page type) := by
  refine ⟨⟨fun _ => rfl, fun _ => rfl, fun _ _ => rfl, fun _ => rfl, fun _ => rfl, rfl, ?_⟩, rfl,
    ⟨rfl, rfl, rfl, rfl⟩⟩
  intro flags number
  show Function.update zone.pageblockFlags (zone.pageblock page) _ number ≠ .isolate
  rw [Function.update_apply]
  split
  · split
    · exact MigrateType.noConfusion
    · exact notIsolate
  · exact flags number

theorem moveFreepages_spec {last rounds first moved : Nat} (listed : zone.Listed)
    (inside : ∀ page, first ≤ page → page ≤ last → zone.spans page = true)
    (notIsolate : type ≠ .isolate) :
    Shuffled zone (moveFreepages type last rounds zone first moved).1 := by
  induction rounds generalizing zone first moved with
  | zero => exact .refl zone
  | succ rounds inductionHypothesis =>
      rw [moveFreepages]
      by_cases more : first ≤ last
      · rw [if_pos more]
        by_cases buddy : zone.pageBuddy first = true
        · rw [if_pos buddy]
          have free : zone.freeOrder first = some (zone.pagePrivate first) :=
            if_pos ⟨inside first (Nat.le_refl _) more, buddy⟩
          have moved := shuffled_move listed free notIsolate
          refine moved.trans (inductionHypothesis (moved.keeps_listed listed) fun page after upTo => ?_)
          rw [moved.same.spans]
          exact inside page (Nat.le_trans (Nat.le_add_right _ _) after) upTo
        · rw [if_neg buddy]
          exact inductionHypothesis listed fun page after upTo => inside page (by omega) upTo
      · rw [if_neg more]
        exact .refl zone

/-- The range stays inside the zone, so only pages of the zone are moved. -/
theorem moveFreepagesBlock_spec (listed : zone.Listed) (inside : zone.spans page = true)
    (notIsolate : type ≠ .isolate) : Shuffled zone (moveFreepagesBlock zone page type).1 := by
  rw [Zone.spans, decide_eq_true_eq] at inside
  simp only [moveFreepagesBlock]
  split
  · exact .refl zone
  · refine moveFreepages_spec listed (fun other after upTo => ?_) notIsolate
    rw [Zone.spans, decide_eq_true_eq]
    split at after <;> omega

theorem changePageblockRange_spec {nrPageblocks : Nat} (notIsolate : type ≠ .isolate) :
    Shuffled zone (changePageblockRange disabled type nrPageblocks zone page) := by
  induction nrPageblocks generalizing zone page with
  | zero => exact .refl zone
  | succ nrPageblocks inductionHypothesis =>
      exact (shuffled_setPageblockMigratetype zone disabled page notIsolate).trans inductionHypothesis

theorem claimPageblock_spec (disabled : Bool) (currentOrder : Nat) {startType : MigrateType}
    (listed : zone.Listed)
    (inside : zone.spans page = true) (startNotIsolate : startType ≠ .isolate)
    (notIsolate : type ≠ .isolate) :
    Shuffled zone (claimPageblock disabled zone page currentOrder startType type).1 ∧
      (claimPageblock disabled zone page currentOrder startType type).2 ≠ .isolate := by
  have moved := moveFreepagesBlock_spec listed inside startNotIsolate
  rw [claimPageblock]
  split
  · split
    next zoneMoved pages result =>
      rw [result] at moved
      split
      · exact ⟨moved.trans (shuffled_setPageblockMigratetype zoneMoved disabled page startNotIsolate),
          startNotIsolate⟩
      · exact ⟨moved, startNotIsolate⟩
  · exact ⟨.refl zone, notIsolate⟩

end Shuffle

/-! ### `__rmqueue` -/

section Take

variable {zone after : Zone} {b : Block} {type startType : MigrateType} {disabled : Bool}
  {order page : Nat}

/-- The second halves go to the lists, and the first block of the low order stays held. -/
theorem expand_spec {low above : Nat} (custody : Custody zone (some b)) (orders : b.order = low + above)
    (notIsolate : type ≠ .isolate) :
    Regrouped zone (some b) (expand zone b.start low type above) (some (Block.ofFrame low b.start)) := by
  induction above generalizing zone b with
  | zero =>
      rw [show low = b.order from orders.symm, Block.ofFrame_start]
      exact custody.regrouped
  | succ above inductionHypothesis =>
      have positive : 0 < b.order := by omega
      have half : b.order - 1 = low + above := by omega
      have split := regrouped_split custody positive notIsolate
      have rest := inductionHypothesis split.custody half
      rw [Block.start_lower positive] at rest
      rw [Block.start_upper positive, Block.order_upper, half] at split rest
      exact split.trans rest

/-- What a block of the order becomes when it is taken. -/
def Taken (zone : Zone) (order : Nat) (after : Zone) (page : Nat) : Prop :=
  2 ^ order ∣ page ∧ Regrouped zone none after (some (Block.ofFrame order page))

theorem taken_of_regrouped (small : order ≤ b.order) (regrouped : Regrouped zone none after (some b))
    (notIsolate : type ≠ .isolate) :
    Taken zone order (expand after b.start order type (b.order - order)) b.start :=
  ⟨Nat.dvd_trans (Nat.pow_dvd_pow 2 small) b.dvd_start,
    regrouped.trans (expand_spec regrouped.custody (by omega) notIsolate)⟩

theorem mem_ordersFrom {o : Nat} : o ∈ ordersFrom order ↔ order ≤ o ∧ o < MAX_ORDER := by
  rw [ordersFrom, List.mem_range'_1]
  omega

theorem smallestFrom_spec {orders : List Nat} (sound : zone.Sound) (large : ∀ o ∈ orders, order ≤ o)
    (notIsolate : type ≠ .isolate) (result : smallestFrom zone order type orders = some (after, page)) :
    Taken zone order after page := by
  induction orders with
  | nil => exact nomatch result
  | cons current rest inductionHypothesis =>
      rw [smallestFrom] at result
      cases list : zone.freeList current type with
      | nil =>
          rw [list] at result
          exact inductionHypothesis (fun o member => large o (List.mem_cons_of_mem _ member)) result
      | cons first others =>
          rw [list] at result
          obtain ⟨member, start⟩ := sound.mem_of_listed (list ▸ List.mem_cons_self)
          have taken := taken_of_regrouped (large current List.mem_cons_self)
              (regrouped_take sound member)
            notIsolate
          rw [start] at taken
          cases result
          exact taken

theorem smallestFrom_none {orders : List Nat} (result : smallestFrom zone order type orders = none) :
    ∀ o ∈ orders, zone.freeList o type = [] := by
  induction orders with
  | nil => exact fun _ member => nomatch member
  | cons current rest inductionHypothesis =>
      rw [smallestFrom] at result
      cases list : zone.freeList current type with
      | cons first others =>
          rw [list] at result
          exact nomatch result
      | nil =>
          rw [list] at result
          intro o member
          rcases List.mem_cons.mp member with rfl | member
          · exact list
          · exact inductionHypothesis result o member

/-- The counter is changed before the pages are moved; the result is the same as if it were changed when
    the block is taken from its list. -/
theorem stealBlock_spec {current : Nat} (sound : zone.Sound) (member : page ∈ zone.freeList current type)
    (large : order ≤ current) (startNotIsolate : startType ≠ .isolate) (notIsolate : type ≠ .isolate) :
    Taken zone order (stealBlock disabled zone page order current startType type) page := by
  obtain ⟨block, start⟩ := sound.mem_of_listed member
  have inside : zone.spans page = true := (sound.admits block).inside (Block.covers_ofFrame current page)
  have listed : (zone.decNrFree current).Listed := ⟨sound.listings_eq, sound.isolate_nil⟩
  have claimed := claimPageblock_spec disabled current listed inside startNotIsolate notIsolate
  rw [stealBlock]
  cases result : claimPageblock disabled (zone.decNrFree current) page current startType type with
  | mk moved restType =>
      rw [result] at claimed
      obtain ⟨shuffled, restNotIsolate⟩ := claimed
      -- the zone with the counter put back
      have restored : Shuffled zone { moved with nrFree := zone.nrFree } :=
        ⟨⟨shuffled.spans, shuffled.freeOrder, shuffled.listings, shuffled.listed, shuffled.isolate, rfl,
          shuffled.flags_ne⟩, shuffled.pagePrivate,
          ⟨shuffled.same.1, shuffled.same.2, shuffled.same.3, shuffled.same.4⟩⟩
      have removed : (moved.listDel page).rmvPageOrder page =
          Zone.takeBuddy { moved with nrFree := zone.nrFree } page current := by
        have counters : moved.nrFree = Function.update zone.nrFree current (zone.nrFree current - 1) :=
          shuffled.nrFree
        simp only [Zone.takeBuddy, Zone.decNrFree, Zone.listDel, ← counters]
      have took := regrouped_take (restored.keeps_sound sound) (restored.freeBlocks ▸ block)
      rw [start, Block.order_ofFrame, ← removed] at took
      have regrouped := (restored.regrouped (Custody.of_sound sound)).trans took
      have owned : Regrouped zone none
          (if pageblockOrder ≤ current then
            changePageblockRange disabled startType (2 ^ (current - pageblockOrder))
              ((moved.listDel page).rmvPageOrder page) page
          else (moved.listDel page).rmvPageOrder page) (some (Block.ofFrame current page)) := by
        split
        · exact regrouped.trans ((changePageblockRange_spec startNotIsolate).regrouped regrouped.custody)
        · exact regrouped
      have taken := taken_of_regrouped large owned restNotIsolate
      rw [start] at taken
      exact taken

theorem fallbackFrom_spec {pairs : List (Nat × MigrateType)} (sound : zone.Sound)
    (large : ∀ pair ∈ pairs, order ≤ pair.1) (startNotIsolate : startType ≠ .isolate)
    (result : fallbackFrom disabled zone order startType pairs = some (after, page)) :
    Taken zone order after page := by
  induction pairs with
  | nil => exact nomatch result
  | cons pair rest inductionHypothesis =>
      obtain ⟨current, type⟩ := pair
      have further := inductionHypothesis fun pair member => large pair (List.mem_cons_of_mem _ member)
      rw [fallbackFrom] at result
      by_cases reserve : type = .reserve
      · rw [if_pos reserve] at result
        exact further result
      rw [if_neg reserve] at result
      cases list : zone.freeList current type with
      | nil =>
          rw [list] at result
          exact further result
      | cons first others =>
          rw [list] at result
          cases result
          have notIsolate : type ≠ .isolate := by
            rintro rfl
            rw [sound.isolate_nil] at list
            exact nomatch list
          exact stealBlock_spec sound (list ▸ List.mem_cons_self) (large _ List.mem_cons_self)
            startNotIsolate notIsolate

theorem fallbackFrom_none {pairs : List (Nat × MigrateType)}
    (result : fallbackFrom disabled zone order startType pairs = none) :
    ∀ pair ∈ pairs, pair.2 ≠ .reserve → zone.freeList pair.1 pair.2 = [] := by
  induction pairs with
  | nil => exact fun _ member => nomatch member
  | cons pair rest inductionHypothesis =>
      obtain ⟨current, type⟩ := pair
      rw [fallbackFrom] at result
      by_cases reserve : type = .reserve
      · rw [if_pos reserve] at result
        intro other member notReserve
        rcases List.mem_cons.mp member with rfl | member
        · exact absurd reserve notReserve
        · exact inductionHypothesis result other member notReserve
      rw [if_neg reserve] at result
      cases list : zone.freeList current type with
      | cons first others =>
          rw [list] at result
          exact nomatch result
      | nil =>
          rw [list] at result
          intro other member notReserve
          rcases List.mem_cons.mp member with rfl | member
          · exact list
          · exact inductionHypothesis result other member notReserve

theorem mem_fallbackPairs {o : Nat} (between : order ≤ o ∧ o < MAX_ORDER)
    (fallback : type ∈ fallbacks startType) :
    (o, type) ∈ (ordersFrom order).reverse.flatMap fun currentOrder =>
      (fallbacks startType).map fun type => (currentOrder, type) := by
  simp only [List.mem_flatMap, List.mem_reverse, List.mem_map]
  exact ⟨o, mem_ordersFrom.mpr between, type, fallback, rfl⟩

theorem rmqueueFallback_spec (sound : zone.Sound) (startNotIsolate : startType ≠ .isolate)
    (result : rmqueueFallback disabled zone order startType = some (after, page)) :
    Taken zone order after page := by
  refine fallbackFrom_spec sound (fun pair member => ?_) startNotIsolate result
  simp only [List.mem_flatMap, List.mem_reverse, List.mem_map] at member
  obtain ⟨o, ordered, _, _, rfl⟩ := member
  exact (mem_ordersFrom.mp ordered).1

theorem rmqueueSmallest_spec (sound : zone.Sound) (notIsolate : type ≠ .isolate)
    (result : rmqueueSmallest zone order type = some (after, page)) : Taken zone order after page :=
  smallestFrom_spec sound (fun _ member => (mem_ordersFrom.mp member).1) notIsolate result

/-- A block of the order is taken out of the free frames. -/
theorem rmqueue_spec (sound : zone.Sound) (notIsolate : type ≠ .isolate)
    (result : rmqueue disabled zone order type = some (after, page)) : Taken zone order after page := by
  rw [rmqueue] at result
  cases smallest : rmqueueSmallest zone order type with
  | some taken =>
      rw [smallest] at result
      cases result
      exact rmqueueSmallest_spec sound notIsolate smallest
  | none =>
      rw [smallest] at result
      by_cases reserve : type = .reserve
      · rw [if_pos reserve] at result
        exact nomatch result
      rw [if_neg reserve] at result
      cases fallback : rmqueueFallback disabled zone order type with
      | some taken =>
          rw [fallback] at result
          cases result
          exact rmqueueFallback_spec sound notIsolate fallback
      | none =>
          rw [fallback] at result
          exact rmqueueSmallest_spec sound MigrateType.noConfusion result

/-- The types that a request looks at are all but `MIGRATE_ISOLATE`. -/
theorem lists_of_rmqueue_none {pcpType : PcpType} {o : Nat}
    (result : rmqueue disabled zone order pcpType.type = none) (between : order ≤ o ∧ o < MAX_ORDER)
    (notIsolate : type ≠ .isolate) : zone.freeList o type = [] := by
  have notReserve : pcpType.type ≠ .reserve := by cases pcpType <;> exact MigrateType.noConfusion
  rw [rmqueue] at result
  cases smallest : rmqueueSmallest zone order pcpType.type with
  | some taken =>
      rw [smallest] at result
      exact nomatch result
  | none =>
      rw [smallest, if_neg notReserve] at result
      cases fallback : rmqueueFallback disabled zone order pcpType.type with
      | some taken =>
          rw [fallback] at result
          exact nomatch result
      | none =>
          rw [fallback] at result
          have own := smallestFrom_none smallest o (mem_ordersFrom.mpr between)
          have reserve := smallestFrom_none result o (mem_ordersFrom.mpr between)
          have others : ∀ t ∈ fallbacks pcpType.type, t ≠ .reserve → zone.freeList o t = [] :=
            fun t member => fallbackFrom_none fallback (o, t) (mem_fallbackPairs between member)
          by_cases isReserve : type = .reserve
          · rw [isReserve]
            exact reserve
          by_cases isOwn : type = pcpType.type
          · rw [isOwn]
            exact own
          · refine others type ?_ isReserve
            cases pcpType <;> cases type <;> simp_all [fallbacks, PcpType.type]

/-- If no block is found, all free blocks are too small. -/
theorem rmqueue_none {pcpType : PcpType} (sound : zone.Sound)
    (result : rmqueue disabled zone order pcpType.type = none) (member : b ∈ zone.freeBlocks) :
    b.order < order := by
  by_contra large
  have empty : ∀ type, zone.freeList b.order type = [] := by
    intro type
    by_cases isolate : type = .isolate
    · rw [isolate]
      exact sound.isolate_nil _
    · exact lists_of_rmqueue_none result ⟨by omega, (sound.admits member).order_lt⟩ isolate
  have once := sound.listings_eq b.start b.order
  rw [if_pos (Zone.mem_freeBlocks.mp member), Zone.listings] at once
  simp only [empty, List.count_nil, overTypes] at once
  omega

end Take

end KernelHacking.PageAllocator
