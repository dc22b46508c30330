/-
Module: KernelHacking.Foundations.Overlay
Layer: Foundations
Purpose: Tables with entries that are replaced and put back. A layer is a list of entries that are written
  over a table; `saved` is what it covers. Layers lie on each other, and writing back what the topmost one
  covers uncovers the table below it.
Imports: Mathlib.Logic.Function.Basic
Trusted boundary: none (fully proved)
Main exports: install, saved, stacked, install_cases, install_eq, install_saved,
  stacked_cases
Open obligations: none
-/
import Mathlib.Logic.Function.Basic

namespace KernelHacking.Overlay

variable {ι α : Type} [DecidableEq ι]

/-- Write the entries over a table, one after the other. -/
def install (entries : List (ι × α)) (table : ι → α) : ι → α :=
  entries.foldl (fun written entry => Function.update written entry.1 entry.2) table

/-- What a table contains at the places of the entries. -/
def saved (entries : List (ι × α)) (table : ι → α) : List (ι × α) :=
  entries.map fun entry => (entry.1, table entry.1)

/-- A table under layers, the topmost first. -/
def stacked (bottom : ι → α) : List (List (ι × α)) → ι → α
  | [] => bottom
  | layer :: below => install layer (stacked bottom below)

theorem install_of_ne {entries : List (ι × α)} {table : ι → α} {place : ι}
    (elsewhere : ∀ entry ∈ entries, entry.1 ≠ place) : install entries table place = table place := by
  induction entries generalizing table with
  | nil => rfl
  | cons entry rest inductionHypothesis =>
      refine (inductionHypothesis fun other listed =>
        elsewhere other (List.mem_cons_of_mem _ listed)).trans
        ?_
      exact Function.update_of_ne (elsewhere entry List.mem_cons_self).symm _ _

/-- After a layer is written, a place holds what it held or an entry of the layer. -/
theorem install_cases (entries : List (ι × α)) (table : ι → α) (place : ι) :
    install entries table place = table place ∨ (place, install entries table place) ∈ entries := by
  induction entries generalizing table with
  | nil => exact Or.inl rfl
  | cons entry rest inductionHypothesis =>
      rcases inductionHypothesis (Function.update table entry.1 entry.2) with same | listed
      · by_cases here : place = entry.1
        · right
          have written : install (entry :: rest) table place = entry.2 := by
            rw [here] at same ⊢
            exact same.trans (Function.update_self _ _ _)
          rw [written, here]
          exact List.mem_cons_self
        · left
          exact same.trans (Function.update_of_ne here _ _)
      · exact Or.inr (List.mem_cons_of_mem _ listed)

/-- A place holds what the entries for it say, if they agree. -/
theorem install_eq {entries : List (ι × α)} {table : ι → α} {place : ι} {value : α}
    (covered : ∃ entry ∈ entries, entry.1 = place)
    (agree : ∀ entry ∈ entries, entry.1 = place → entry.2 = value) :
    install entries table place = value := by
  induction entries generalizing table with
  | nil =>
      obtain ⟨_, listed, _⟩ := covered
      cases listed
  | cons entry rest inductionHypothesis =>
      by_cases later : ∃ other ∈ rest, other.1 = place
      · exact inductionHypothesis later fun other listed => agree other (List.mem_cons_of_mem _ listed)
      · -- the first entry is the only one for the place
        have isHead : entry.1 = place := by
          obtain ⟨other, listed, isPlace⟩ := covered
          rcases List.mem_cons.mp listed with rfl | inRest
          · exact isPlace
          · exact absurd ⟨other, inRest, isPlace⟩ later
        refine (install_of_ne fun other listed same => later ⟨other, listed, same⟩).trans ?_
        dsimp only
        rw [isHead, Function.update_self]
        exact agree entry List.mem_cons_self isHead

/-- Putting back what a layer covers uncovers the table. -/
theorem install_saved (entries : List (ι × α)) (table : ι → α) :
    install (saved entries table) (install entries table) = table := by
  funext place
  have isSaved : ∀ entry ∈ saved entries table, ∃ original ∈ entries,
      entry = (original.1, table original.1) := fun entry listed => by
    obtain ⟨original, inEntries, rfl⟩ := List.mem_map.mp listed
    exact ⟨original, inEntries, rfl⟩
  by_cases covered : ∃ entry ∈ entries, entry.1 = place
  · obtain ⟨entry, listed, isPlace⟩ := covered
    refine install_eq ⟨_, List.mem_map.mpr ⟨entry, listed, rfl⟩, isPlace⟩ fun other isOther same => ?_
    obtain ⟨original, _, rfl⟩ := isSaved other isOther
    exact congrArg table same
  · have untouched : ∀ entry ∈ entries, entry.1 ≠ place := fun entry listed same =>
      covered ⟨entry, listed, same⟩
    refine (install_of_ne fun other isOther => ?_).trans (install_of_ne untouched)
    obtain ⟨original, inEntries, rfl⟩ := isSaved other isOther
    exact untouched original inEntries

/-- A place of a table under layers holds what the bottom holds, or an entry of a layer. -/
theorem stacked_cases (bottom : ι → α) (layers : List (List (ι × α))) (place : ι) :
    stacked bottom layers place = bottom place ∨
      ∃ layer ∈ layers, (place, stacked bottom layers place) ∈ layer := by
  induction layers with
  | nil => exact Or.inl rfl
  | cons layer below inductionHypothesis =>
      rcases install_cases layer (stacked bottom below) place with same | listed
      · rw [stacked, same]
        rcases inductionHypothesis with isBottom | ⟨other, inBelow, listed⟩
        · exact Or.inl isBottom
        · exact Or.inr ⟨other, List.mem_cons_of_mem _ inBelow, listed⟩
      · exact Or.inr ⟨layer, List.mem_cons_self, listed⟩

end KernelHacking.Overlay
