/-
Module: KernelHacking.Foundations.RingBuffer
Layer: Foundations
Purpose: A circular buffer over integer indices as a list. `Represents` ties the head, the tail (the
  last occupied cell, or -1 before the first push) and the cells to the list of queued elements. One
  cell always stays free, so the head and the tail tell an empty buffer from a full one. Indices never
  pass the end more than once, so every remainder below is the one-wrap formula `wrap`.
Imports: Mathlib.Logic.Function.Basic
Trusted boundary: none (fully proved)
Main exports: wrap, tmod_eq_wrap, Represents, Represents.push, Represents.pop, Represents.length_eq,
  Represents.head_ne_iff
Open obligations: none
-/
import Mathlib.Logic.Function.Basic

namespace KernelHacking.RingBuffer

/-- An index that has passed the end of the buffer at most once, brought back. -/
def wrap (size index : Int) : Int := if index < size then index else index - size

/-- The remainder of C is the one-wrap formula below twice the size. -/
theorem tmod_eq_wrap {size index : Int} (nonneg : 0 ≤ index) (bound : index < 2 * size) :
    index.tmod size = wrap size index := by
  rw [Int.tmod_eq_emod_of_nonneg nonneg, wrap]
  split
  · rename_i small
    exact Int.emod_eq_of_lt nonneg small
  · rw [← Int.sub_emod_right]
    exact Int.emod_eq_of_lt (by omega) (by omega)

/-- The buffer of `size` cells holds the elements of `content`, oldest first, from `head` on. -/
structure Represents {α : Type} (size head tail : Int) (cells : Int → α) (content : List α) :
    Prop where
  head_nonneg : 0 ≤ head
  head_lt : head < size
  tail_ge : -1 ≤ tail
  tail_lt : tail < size
  fits : content.length < size
  link : wrap size (tail + 1) = wrap size (head + content.length)
  cell : ∀ offset (inside : offset < content.length),
    cells (wrap size (head + offset)) = content[offset]

variable {α : Type} {size head tail : Int} {cells : Int → α} {content : List α}

/-- A fresh buffer is empty. -/
theorem Represents.empty (cells : Int → α) (positive : 0 < size) :
    Represents size 0 (-1) cells [] where
  head_nonneg := Int.le_refl 0
  head_lt := positive
  tail_ge := Int.le_refl (-1)
  tail_lt := by omega
  fits := positive
  link := by simp
  cell := by
    intro offset inside
    simp at inside

/-- The distance from the head to the tail is the number of elements. -/
theorem Represents.length_eq (represents : Represents size head tail cells content) :
    (tail + 1 - head + size).tmod size = content.length := by
  obtain ⟨headNonneg, headLt, tailGe, tailLt, fits, link, _⟩ := represents
  by_cases twice : tail + 1 - head + size = 2 * size
  · -- the head is at the first cell and the tail at the last one, with nothing between them
    have empty : (content.length : Int) = 0 := by
      simp only [wrap] at link
      split at link <;> split at link <;> omega
    rw [empty, twice, Int.mul_tmod_left]
  · rw [tmod_eq_wrap (by omega) (by omega)]
    simp only [wrap] at link ⊢
    split at link <;> split at link <;> split <;> omega

/-- The head has caught up with the tail exactly if the buffer is empty. -/
theorem Represents.head_ne_iff (represents : Represents size head tail cells content) :
    head ≠ (tail + 1).tmod size ↔ content ≠ [] := by
  obtain ⟨headNonneg, headLt, tailGe, tailLt, fits, link, _⟩ := represents
  rw [tmod_eq_wrap (by omega) (by omega), link]
  have lengthZero : content ≠ [] ↔ (content.length : Int) ≠ 0 := by simp
  rw [lengthZero, wrap]
  split <;> omega

/-- Writing behind the tail appends. -/
theorem Represents.push (represents : Represents size head tail cells content)
    (room : (content.length : Int) + 1 < size) (element : α) :
    Represents size head ((tail + 1).tmod size)
      (Function.update cells ((tail + 1).tmod size) element) (content ++ [element]) := by
  obtain ⟨headNonneg, headLt, tailGe, tailLt, fits, link, cell⟩ := represents
  have slot : (tail + 1).tmod size = wrap size (head + content.length) :=
    (tmod_eq_wrap (by omega) (by omega)).trans link
  have slotNonneg : 0 ≤ wrap size (head + content.length) := by rw [wrap]; split <;> omega
  have slotLt : wrap size (head + content.length) < size := by rw [wrap]; split <;> omega
  rw [slot]
  refine ⟨headNonneg, headLt, by omega, slotLt, by simpa using room, ?_, ?_⟩
  · simp only [wrap, List.length_append, List.length_singleton]
    split <;> split <;> split <;> omega
  · intro offset inside
    by_cases last : offset = content.length
    · subst last
      simp
    · have earlier : offset < content.length := by
        simp at inside
        omega
      have different : wrap size (head + offset) ≠ wrap size (head + content.length) := by
        simp only [wrap]
        split <;> split <;> omega
      rw [Function.update_of_ne different, cell offset earlier, List.getElem_append_left earlier]

/-- The cell at the head holds the oldest element, and moving the head past it drops that element. -/
theorem Represents.pop {element : α} {rest : List α}
    (represents : Represents size head tail cells (element :: rest)) :
    cells head = element ∧ Represents size ((head + 1).tmod size) tail cells rest := by
  obtain ⟨headNonneg, headLt, tailGe, tailLt, fits, link, cell⟩ := represents
  simp only [List.length_cons] at fits link cell
  have first := cell 0 (Nat.succ_pos _)
  have atHead : wrap size (head + (0 : Nat)) = head := by
    simp only [wrap]
    split <;> omega
  rw [atHead] at first
  refine ⟨first, ?_⟩
  rw [tmod_eq_wrap (by omega) (by omega)]
  refine ⟨by rw [wrap]; split <;> omega, by rw [wrap]; split <;> omega, tailGe, tailLt,
    by omega, ?_, ?_⟩
  · rw [link]
    simp only [wrap]
    split <;> split <;> split <;> omega
  · intro offset inside
    have shifted := cell (offset + 1) (by omega)
    have sameSlot : wrap size (wrap size (head + 1) + offset) =
        wrap size (head + (offset + 1 : Nat)) := by
      simp only [wrap]
      split <;> split <;> split <;> omega
    rw [sameSlot, shifted, List.getElem_cons_succ]

end KernelHacking.RingBuffer
