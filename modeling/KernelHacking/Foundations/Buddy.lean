/-
Module: KernelHacking.Foundations.Buddy
Layer: Foundations
Purpose: Blocks of `2 ^ order` frames, numbered from frame zero, and sets of such blocks in which no two
  buddies stand side by side. Two blocks are nested or apart, and a block with all its frames in such a
  set lies in one block of the set (`Coalesced.exists_mem`). So the set is determined by the frames in it
  (`Coalesced.ext`). Merging with a buddy, splitting in halves, taking a block out and putting one in
  keep the set in this form; these are the steps of a buddy system, with the block that is worked on
  held apart from the set.
Imports: Mathlib (sets, intervals of numbers)
Trusted boundary: none (fully proved)
Main exports: Block, Covered, Coalesced, Apart, Coalesced.exists_mem, Coalesced.mem_iff, Coalesced.ext,
  Coalesced.insert_of_apart, Coalesced.mono, Apart.merge, Apart.split
Open obligations: none
-/
import Mathlib.Algebra.Group.Nat.Defs
import Mathlib.Data.Nat.Bitwise
import Mathlib.Data.Set.Insert
import Mathlib.Order.Interval.Finset.Nat

namespace KernelHacking.Buddy

/-! ### Blocks -/

/-- The block of `2 ^ order` frames with the given number among the blocks of its order. -/
@[ext] structure Block where
  index : Nat
  order : Nat
deriving DecidableEq, Repr

namespace Block

variable {b c : Block} {frame other : Nat}

/-- The first frame. -/
def start (b : Block) : Nat := b.index * 2 ^ b.order

/-- The frame lies in the block. -/
def Covers (b : Block) (frame : Nat) : Prop := frame / 2 ^ b.order = b.index

def frames (b : Block) : Finset Nat := Finset.Ico b.start (b.start + 2 ^ b.order)

/-- The other half of the block of the next order. -/
def buddy (b : Block) : Block := ⟨b.index ^^^ 1, b.order⟩

/-- The block of the next order. -/
def parent (b : Block) : Block := ⟨b.index / 2, b.order + 1⟩

/-- The first half of a block with a positive order. -/
def lower (b : Block) : Block := ⟨2 * b.index, b.order - 1⟩

/-- The second half of a block with a positive order. -/
def upper (b : Block) : Block := ⟨2 * b.index + 1, b.order - 1⟩

@[simp] theorem order_buddy (b : Block) : b.buddy.order = b.order := rfl

@[simp] theorem order_parent (b : Block) : b.parent.order = b.order + 1 := rfl

@[simp] theorem order_lower (b : Block) : b.lower.order = b.order - 1 := rfl

@[simp] theorem order_upper (b : Block) : b.upper.order = b.order - 1 := rfl

theorem covers_start (b : Block) : b.Covers b.start :=
  Nat.mul_div_cancel _ (Nat.two_pow_pos b.order)

theorem covers_iff : b.Covers frame ↔ b.start ≤ frame ∧ frame < b.start + 2 ^ b.order := by
  have positive := Nat.two_pow_pos b.order
  rw [Covers, Nat.div_eq_iff positive, start]
  omega

theorem mem_frames : frame ∈ b.frames ↔ b.Covers frame := by
  rw [frames, Finset.mem_Ico, covers_iff]

@[simp] theorem card_frames (b : Block) : b.frames.card = 2 ^ b.order := by
  rw [frames, Nat.card_Ico, Nat.add_sub_cancel_left]

/-- Blocks of one order that share a frame are one block. -/
theorem eq_of_covers (orders : b.order = c.order) (coversB : b.Covers frame)
    (coversC : c.Covers frame) : b = c := by
  refine Block.ext ?_ orders
  rw [← coversB, ← coversC, orders]

theorem eq_of_start (orders : b.order = c.order) (starts : b.start = c.start) : b = c :=
  eq_of_covers orders b.covers_start (starts ▸ c.covers_start)

/-- Of two blocks that share a frame the smaller one lies in the other. -/
theorem Covers.of_le (orders : b.order ≤ c.order) (coversB : b.Covers frame)
    (coversC : c.Covers frame) (covers : b.Covers other) : c.Covers other := by
  obtain ⟨above, order⟩ := Nat.exists_eq_add_of_le orders
  rw [Covers] at coversB covers
  rw [Covers, order, Nat.pow_add, ← Nat.div_div_eq_div_mul] at coversC ⊢
  rw [covers, ← coversB, coversC]

theorem covers_succ (index order frame : Nat) :
    Covers ⟨index, order + 1⟩ frame ↔ frame / 2 ^ order / 2 = index := by
  rw [Covers, Nat.pow_succ, Nat.div_div_eq_div_mul]

/-- The two numbers of a pair. -/
theorem div_two_eq_iff (number index : Nat) :
    number / 2 = index / 2 ↔ number = index ∨ number = index ^^^ 1 := by
  have half : (index ^^^ 1) / 2 = index / 2 := by
    rw [Nat.xor_div_two, Nat.div_eq_of_lt (by decide : 1 < 2), Nat.xor_zero]
  have parity : (index ^^^ 1) % 2 = (index + 1) % 2 := Nat.xor_mod_two_eq
  omega

theorem covers_parent_iff : b.parent.Covers frame ↔ b.Covers frame ∨ b.buddy.Covers frame := by
  rw [parent, covers_succ, div_two_eq_iff]
  rfl

@[simp] theorem buddy_buddy (b : Block) : b.buddy.buddy = b := by
  rw [buddy, buddy, Nat.xor_assoc, Nat.xor_self, Nat.xor_zero]

theorem buddy_ne (b : Block) : b.buddy ≠ b := by
  intro same
  have parity : (b.index ^^^ 1) % 2 = (b.index + 1) % 2 := Nat.xor_mod_two_eq
  rw [show b.index ^^^ 1 = b.index from congrArg index same] at parity
  omega

theorem buddy_lower (b : Block) : b.lower.buddy = b.upper := by
  refine Block.ext ?_ rfl
  show (2 * b.index) ^^^ 1 = 2 * b.index + 1
  have half : ((2 * b.index) ^^^ 1) / 2 = b.index := by
    rw [Nat.xor_div_two, Nat.div_eq_of_lt (by decide : 1 < 2), Nat.xor_zero]
    omega
  have parity : ((2 * b.index) ^^^ 1) % 2 = (2 * b.index + 1) % 2 := Nat.xor_mod_two_eq
  omega

section Halves

variable (positive : 0 < b.order)
include positive

theorem parent_lower : b.lower.parent = b := by
  refine Block.ext ?_ ?_
  · show 2 * b.index / 2 = b.index
    omega
  · show b.order - 1 + 1 = b.order
    omega

theorem covers_iff_halves : b.Covers frame ↔ b.lower.Covers frame ∨ b.upper.Covers frame := by
  rw [← buddy_lower, ← covers_parent_iff, parent_lower positive]

theorem start_lower : b.lower.start = b.start := by
  obtain ⟨index, order⟩ := b
  obtain ⟨half, rfl⟩ := Nat.exists_eq_succ_of_ne_zero (Nat.pos_iff_ne_zero.mp positive)
  show 2 * index * 2 ^ half = index * 2 ^ (half + 1)
  rw [Nat.pow_succ, Nat.mul_comm 2 index, Nat.mul_assoc, Nat.mul_comm 2]

theorem start_upper : b.upper.start = b.start + 2 ^ (b.order - 1) := by
  rw [← start_lower positive, start, start, upper, lower, Nat.add_mul, Nat.one_mul]

end Halves

/-! ### Blocks by address -/

/-- The block of the order that the frame lies in. -/
def ofFrame (order frame : Nat) : Block := ⟨frame / 2 ^ order, order⟩

@[simp] theorem order_ofFrame (order frame : Nat) : (ofFrame order frame).order = order := rfl

theorem covers_ofFrame (order frame : Nat) : (ofFrame order frame).Covers frame := rfl

theorem start_ofFrame {order frame : Nat} (aligned : 2 ^ order ∣ frame) :
    (ofFrame order frame).start = frame :=
  Nat.div_mul_cancel aligned

theorem ofFrame_start (b : Block) : ofFrame b.order b.start = b :=
  Block.ext b.covers_start rfl

theorem dvd_start (b : Block) : 2 ^ b.order ∣ b.start := Dvd.intro_left b.index rfl

/-- The address of the buddy differs in one bit. -/
theorem start_buddy (b : Block) : b.buddy.start = b.start ^^^ 2 ^ b.order := by
  rw [start, start, buddy, ← Nat.shiftLeft_eq, ← Nat.shiftLeft_eq, Nat.shiftLeft_xor_distrib,
    Nat.one_shiftLeft]

theorem xor_one_and_self (number : Nat) : (number ^^^ 1) &&& number = number / 2 * 2 := by
  have half : ((number ^^^ 1) &&& number) / 2 = number / 2 := by
    rw [Nat.and_div_two, Nat.xor_div_two, Nat.div_eq_of_lt (by decide : 1 < 2), Nat.xor_zero,
      Nat.and_self]
  have parity : ((number ^^^ 1) &&& number) % 2 = 0 := by
    have bits : ((number ^^^ 1) &&& number) % 2 = (number ^^^ 1) % 2 &&& number % 2 :=
      @Nat.and_mod_two_pow _ _ 1
    have flipped : (number ^^^ 1) % 2 = (number + 1) % 2 := Nat.xor_mod_two_eq
    rcases Nat.mod_two_eq_zero_or_one number with even | odd
    · rw [bits, even, Nat.and_zero]
    · rw [bits, flipped, odd, show (number + 1) % 2 = 0 by omega, Nat.zero_and]
  omega

/-- The address of the parent has the bits that a block and its buddy share. -/
theorem start_parent (b : Block) : b.parent.start = b.buddy.start &&& b.start := by
  rw [start, start, start, buddy, parent, ← Nat.shiftLeft_eq (b.index ^^^ 1),
    ← Nat.shiftLeft_eq b.index, ← Nat.shiftLeft_and_distrib, xor_one_and_self, Nat.shiftLeft_eq,
    Nat.pow_succ, Nat.mul_assoc, Nat.mul_comm 2]

/-- A block that lies in the parent has the quotient of the block by a larger power of two. -/
theorem div_eq_of_parent {bits : Nat} (small : b.order < bits) (covers : b.parent.Covers frame) :
    frame / 2 ^ bits = b.start / 2 ^ bits :=
  Covers.of_le (show b.parent.order ≤ bits from small) (covers_parent_iff.mpr (.inl b.covers_start))
    (covers_ofFrame bits b.start) covers

/-- The buddy, by the distance of the two addresses modulo a larger power of two. -/
theorem add_sub_buddy {bits : Nat} (small : b.order < bits) :
    b.start + (b.start % 2 ^ bits ^^^ 2 ^ b.order) - b.start % 2 ^ bits = b.buddy.start := by
  have quotient : b.buddy.start / 2 ^ bits = b.start / 2 ^ bits :=
    div_eq_of_parent small (covers_parent_iff.mpr (.inr b.buddy.covers_start))
  have index : b.start % 2 ^ bits ^^^ 2 ^ b.order = b.buddy.start % 2 ^ bits := by
    rw [start_buddy, Nat.xor_mod_two_pow,
      Nat.mod_eq_of_lt (Nat.pow_lt_pow_right (by decide) small)]
  have whole := Nat.div_add_mod b.start (2 ^ bits)
  have wholeBuddy := Nat.div_add_mod b.buddy.start (2 ^ bits)
  rw [quotient] at wholeBuddy
  omega

/-- The bits that the two addresses modulo a larger power of two share. -/
theorem and_mod_buddy {bits : Nat} (small : b.order < bits) :
    (b.start % 2 ^ bits ^^^ 2 ^ b.order) &&& b.start % 2 ^ bits = b.parent.start % 2 ^ bits := by
  have index : b.start % 2 ^ bits ^^^ 2 ^ b.order = b.buddy.start % 2 ^ bits := by
    rw [start_buddy, Nat.xor_mod_two_pow,
      Nat.mod_eq_of_lt (Nat.pow_lt_pow_right (by decide) small)]
  rw [index, start_parent, Nat.and_mod_two_pow]

theorem add_sub_parent {bits : Nat} (small : b.order < bits) :
    b.start + b.parent.start % 2 ^ bits - b.start % 2 ^ bits = b.parent.start := by
  have quotient : b.parent.start / 2 ^ bits = b.start / 2 ^ bits :=
    div_eq_of_parent small b.parent.covers_start
  have whole := Nat.div_add_mod b.start (2 ^ bits)
  have wholeParent := Nat.div_add_mod b.parent.start (2 ^ bits)
  rw [quotient] at wholeParent
  omega

end Block

/-! ### Sets without pairs of buddies -/

/-- The frame lies in a block of the set. -/
def Covered (blocks : Set Block) (frame : Nat) : Prop := ∃ b ∈ blocks, b.Covers frame

/-- No block of the set shares a frame with the block. -/
def Apart (blocks : Set Block) (b : Block) : Prop := ∀ ⦃frame⦄, b.Covers frame → ¬Covered blocks frame

/-- Blocks of limited order without a frame in common, of which no two can be merged. -/
structure Coalesced (top : Nat) (blocks : Set Block) : Prop where
  order_le : ∀ {b}, b ∈ blocks → b.order ≤ top
  eq_of_covers : ∀ {b c frame}, b ∈ blocks → c ∈ blocks → b.Covers frame → c.Covers frame → b = c
  buddy_notMem : ∀ {b}, b ∈ blocks → b.order < top → b.buddy ∉ blocks

variable {top : Nat} {blocks others : Set Block} {b c : Block} {frame : Nat}

@[simp] theorem covered_insert : Covered (insert b blocks) frame ↔
    b.Covers frame ∨ Covered blocks frame := by
  simp [Covered]

theorem Coalesced.covered_diff (coalesced : Coalesced top blocks) (member : b ∈ blocks) :
    Covered (blocks \ {b}) frame ↔ Covered blocks frame ∧ ¬b.Covers frame := by
  constructor
  · rintro ⟨c, ⟨memberC, different⟩, coversC⟩
    exact ⟨⟨c, memberC, coversC⟩, fun coversB =>
      different (coalesced.eq_of_covers memberC member coversC coversB)⟩
  · rintro ⟨⟨c, memberC, coversC⟩, notB⟩
    exact ⟨c, ⟨memberC, fun same => notB (same ▸ coversC)⟩, coversC⟩

/-- A block with all its frames in the set lies in one block of the set: the two blocks that the halves
    lie in would be buddies otherwise. -/
theorem Coalesced.exists_mem (coalesced : Coalesced top blocks) (order : b.order ≤ top)
    (covered : ∀ {frame}, b.Covers frame → Covered blocks frame) :
    ∃ c ∈ blocks, b.order ≤ c.order ∧ c.Covers b.start := by
  induction size : b.order generalizing b with
  | zero =>
      obtain ⟨c, member, covers⟩ := covered b.covers_start
      exact ⟨c, member, Nat.zero_le _, covers⟩
  | succ half inductionHypothesis =>
      have positive : 0 < b.order := by omega
      have sizeLower : b.lower.order = half := by
        rw [Block.order_lower]
        omega
      have sizeUpper : b.upper.order = half := sizeLower
      obtain ⟨c, memberC, orderC, coversC⟩ := inductionHypothesis (by omega)
        (fun covers => covered ((Block.covers_iff_halves positive).mpr (.inl covers))) sizeLower
      obtain ⟨d, memberD, orderD, coversD⟩ := inductionHypothesis (by omega)
        (fun covers => covered ((Block.covers_iff_halves positive).mpr (.inr covers))) sizeUpper
      have startIn : b.Covers b.upper.start :=
        (Block.covers_iff_halves positive).mpr (.inr b.upper.covers_start)
      rcases Nat.lt_or_ge half c.order with largeC | smallC
      · exact ⟨c, memberC, largeC, Block.start_lower positive ▸ coversC⟩
      rcases Nat.lt_or_ge half d.order with largeD | smallD
      · exact ⟨d, memberD, largeD,
          Block.Covers.of_le (by omega) startIn coversD b.covers_start⟩
      have lower : b.lower = c := Block.eq_of_covers (by omega) b.lower.covers_start coversC
      have upper : b.upper = d := Block.eq_of_covers (by omega) b.upper.covers_start coversD
      rw [← lower] at memberC
      rw [← upper, ← Block.buddy_lower] at memberD
      exact absurd memberD (coalesced.buddy_notMem memberC (by omega))

/-- The blocks of the set are the blocks of its frames that do not lie in a larger one. -/
theorem Coalesced.mem_iff (coalesced : Coalesced top blocks) :
    b ∈ blocks ↔ b.order ≤ top ∧ (∀ {frame}, b.Covers frame → Covered blocks frame) ∧
      (b.order < top → ∃ frame, b.parent.Covers frame ∧ ¬Covered blocks frame) := by
  constructor
  · intro member
    refine ⟨coalesced.order_le member, fun covers => ⟨b, member, covers⟩, fun small => ?_⟩
    by_contra none
    obtain ⟨c, memberC, orderC, coversC⟩ := coalesced.exists_mem (b := b.parent) small
      (fun {frame} covers => by_contra fun uncovered => none ⟨frame, covers, uncovered⟩)
    have inParent : b.parent.Covers b.start := Block.covers_parent_iff.mpr (.inl b.covers_start)
    have same := coalesced.eq_of_covers member memberC b.covers_start
      (Block.Covers.of_le orderC b.parent.covers_start coversC inParent)
    rw [← same, Block.order_parent] at orderC
    omega
  · rintro ⟨order, covered, parentOpen⟩
    obtain ⟨c, memberC, orderC, coversC⟩ := coalesced.exists_mem order covered
    rcases Nat.eq_or_lt_of_le orderC with same | larger
    · rwa [Block.eq_of_covers same b.covers_start coversC]
    · -- a larger block of the set covers the parent as well
      obtain ⟨frame, inParent, uncovered⟩ := parentOpen
        (Nat.lt_of_lt_of_le larger (coalesced.order_le memberC))
      have startIn : b.parent.Covers b.start := Block.covers_parent_iff.mpr (.inl b.covers_start)
      have orderParent : b.parent.order ≤ c.order := larger
      exact absurd ⟨c, memberC, Block.Covers.of_le orderParent startIn coversC inParent⟩ uncovered

/-- The frames determine the blocks. -/
theorem Coalesced.ext (coalesced : Coalesced top blocks) (coalescedOthers : Coalesced top others)
    (same : ∀ frame, Covered blocks frame ↔ Covered others frame) : blocks = others := by
  ext b
  simp only [coalesced.mem_iff, coalescedOthers.mem_iff, same]

/-! ### Steps -/

theorem Coalesced.empty (top : Nat) : Coalesced top ∅ where
  order_le member := absurd member (Set.notMem_empty _)
  eq_of_covers member := absurd member (Set.notMem_empty _)
  buddy_notMem member := absurd member (Set.notMem_empty _)

theorem Coalesced.mono (coalesced : Coalesced top blocks) (subset : others ⊆ blocks) :
    Coalesced top others where
  order_le member := coalesced.order_le (subset member)
  eq_of_covers memberB memberC := coalesced.eq_of_covers (subset memberB) (subset memberC)
  buddy_notMem member small buddy := coalesced.buddy_notMem (subset member) small (subset buddy)

/-- A block that is apart can be put in if its buddy is not there. -/
theorem Coalesced.insert_of_apart (coalesced : Coalesced top blocks) (apart : Apart blocks b)
    (order : b.order ≤ top) (noBuddy : b.order < top → b.buddy ∉ blocks) :
    Coalesced top (insert b blocks) where
  order_le := by
    rintro c (rfl | member)
    · exact order
    · exact coalesced.order_le member
  eq_of_covers := by
    rintro c d frame (rfl | memberC) (rfl | memberD) coversC coversD
    · rfl
    · exact absurd ⟨d, memberD, coversD⟩ (apart coversC)
    · exact absurd ⟨c, memberC, coversC⟩ (apart coversD)
    · exact coalesced.eq_of_covers memberC memberD coversC coversD
  buddy_notMem := by
    rintro c (rfl | member) small (same | buddy)
    · exact c.buddy_ne same
    · exact noBuddy small buddy
    · refine noBuddy ?_ ?_
      · rwa [← same]
      · rwa [← same, Block.buddy_buddy]
    · exact coalesced.buddy_notMem member small buddy

theorem Coalesced.apart_diff (coalesced : Coalesced top blocks) (member : b ∈ blocks) :
    Apart (blocks \ {b}) b :=
  fun _ covers covered => ((coalesced.covered_diff member).mp covered).2 covers

theorem Apart.start_ne (apart : Apart blocks b) (member : c ∈ blocks) : c.start ≠ b.start :=
  fun same => apart b.covers_start ⟨c, member, same ▸ c.covers_start⟩

/-- A block takes its buddy out of the set and becomes their parent. -/
theorem Apart.merge (apart : Apart blocks b) (coalesced : Coalesced top blocks)
    (buddy : b.buddy ∈ blocks) : Apart (blocks \ {b.buddy}) b.parent := by
  intro frame covers covered
  have outside := (coalesced.covered_diff buddy).mp covered
  rcases Block.covers_parent_iff.mp covers with covers | covers
  · exact apart covers outside.1
  · exact outside.2 covers

/-- A block puts its second half in the set and becomes the first half. -/
theorem Apart.split (apart : Apart blocks b) (positive : 0 < b.order) :
    Apart (insert b.upper blocks) b.lower := by
  intro frame covers covered
  rcases covered_insert.mp covered with upper | covered
  · have same : b.upper = b.lower := Block.eq_of_covers rfl upper covers
    rw [← Block.buddy_lower] at same
    exact b.lower.buddy_ne same
  · exact apart ((Block.covers_iff_halves positive).mpr (.inl covers)) covered

end KernelHacking.Buddy
