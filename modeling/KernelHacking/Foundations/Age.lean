/-
Module: KernelHacking.Foundations.Age
Layer: Foundations
Purpose: Ages. An object is refreshed, ticks, or is passed over; its age is the number of ticks since
  it was last refreshed. `Follows` says when a machine word keeps track of the age: it is the age modulo
  the word size, and the age itself as long as that fits (`Follows.toNat_eq`).
Imports: Mathlib.Algebra.Group.Nat.Defs
Trusted boundary: none (fully proved)
Main exports: Mark, advance, age, age_concat, age_append_bounds, Follows, Tracks, Follows.step,
  Follows.toNat_eq, Follows.eq_zero_iff
Open obligations: none
-/
import Mathlib.Algebra.Group.Nat.Defs

namespace KernelHacking.Age

/-- What one event does to the age of an object. -/
inductive Mark where
  | refresh
  | tick
  | pass
deriving DecidableEq, Repr

/-- The age after one more event. -/
def advance (age : Nat) : Mark → Nat
  | .refresh => 0
  | .tick => age + 1
  | .pass => age

/-- The number of ticks since the last refresh. The history starts with one. -/
def age (marks : List Mark) : Nat := marks.foldl advance 0

theorem age_concat (marks : List Mark) (mark : Mark) :
    age (marks ++ [mark]) = advance (age marks) mark := by
  rw [age, List.foldl_append]
  rfl

/-- Without a refresh the age only grows, and by at most one per event. -/
theorem age_append_bounds (earlier later : List Mark) (stale : .refresh ∉ later) :
    age earlier ≤ age (earlier ++ later) ∧
      age (earlier ++ later) ≤ age earlier + later.length := by
  induction later generalizing earlier with
  | nil => simp
  | cons mark rest inductionHypothesis =>
      have notRefresh : mark ≠ .refresh := fun isRefresh => stale (isRefresh ▸ List.mem_cons_self)
      have restStale : .refresh ∉ rest := fun member => stale (List.mem_cons_of_mem mark member)
      have bounds := inductionHypothesis (earlier ++ [mark]) restStale
      rw [age_concat, List.append_assoc, List.singleton_append] at bounds
      cases mark with
      | refresh => exact absurd rfl notRefresh
      | tick =>
          simp only [advance, List.length_cons] at bounds ⊢
          omega
      | pass =>
          simp only [advance, List.length_cons] at bounds ⊢
          omega

/-- A word keeps track of an age: it counts the ticks and starts again at zero. -/
def Follows {width : Nat} (word : BitVec width) (age : Nat) : Prop := word = BitVec.ofNat width age

/-- What an event has to do to the word. -/
def Tracks {width : Nat} (before after : BitVec width) : Mark → Prop
  | .refresh => after = 0
  | .tick => after = before + 1
  | .pass => after = before

theorem Follows.step {width : Nat} {before after : BitVec width} {age : Nat} {mark : Mark}
    (follows : Follows before age) (tracks : Tracks before after mark) :
    Follows after (advance age mark) := by
  cases mark with
  | refresh => exact tracks
  | tick =>
      rw [Follows, tracks, follows, advance, BitVec.ofNat_add]
      rfl
  | pass => exact tracks.trans follows

/-- As long as the age fits into the word, the word is the age. -/
theorem Follows.toNat_eq {width : Nat} {word : BitVec width} {age : Nat} (follows : Follows word age)
    (fits : age < 2 ^ width) : word.toNat = age := by
  rw [follows, BitVec.toNat_ofNat, Nat.mod_eq_of_lt fits]

/-- The word is zero right after a refresh, and again each time it wraps. -/
theorem Follows.eq_zero_iff {width : Nat} {word : BitVec width} {age : Nat}
    (follows : Follows word age) : word = 0 ↔ age % 2 ^ width = 0 := by
  rw [follows, BitVec.toNat_eq, BitVec.toNat_ofNat]
  rfl

end KernelHacking.Age
