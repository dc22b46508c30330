/-
Module: KernelHacking.Foundations.Forest
Layer: Foundations
Purpose: Ordered forests in the first-child, next-sibling form. `labels` lists a forest in preorder and
  `depths` gives the depth of each listed node. The two lists together determine the forest: the
  children of a node are the longest run of deeper nodes behind it.
Imports: Mathlib.Data.List.TakeWhile
Trusted boundary: none (fully proved)
Main exports: Forest, Forest.size, Forest.head, Forest.roots, Forest.Linked, Forest.labels,
  Forest.depths, Forest.eq_of_depths
Open obligations: none
-/
import Mathlib.Data.List.TakeWhile

namespace KernelHacking

/-- An ordered forest: a first node with its children, followed by its siblings. -/
inductive Forest (α : Type) where
  | nil
  | node (label : α) (children siblings : Forest α)
deriving DecidableEq, Repr

namespace Forest

variable {α : Type}

/-- The number of nodes. -/
def size : Forest α → Nat
  | nil => 0
  | node _ children siblings => 1 + children.size + siblings.size

/-- The label of the first root. -/
def head : Forest α → Option α
  | nil => none
  | node label _ _ => some label

/-- The labels of the roots. -/
def roots : Forest α → List α
  | nil => []
  | node label _ siblings => label :: siblings.roots

/-- The child list of every node of the forest is the list of its children. -/
def Linked (children : α → List α) : Forest α → Prop
  | nil => True
  | node label below siblings =>
      children label = below.roots ∧ below.Linked children ∧ siblings.Linked children

/-- The labels in preorder: a node, then its children, then its siblings. -/
def labels : Forest α → List α
  | nil => []
  | node label children siblings => label :: (children.labels ++ siblings.labels)

/-- The depths of the nodes in preorder, the roots being at `depth`. -/
def depths (depth : Nat) : Forest α → List Nat
  | nil => []
  | node _ children siblings => depth :: (children.depths (depth + 1) ++ siblings.depths depth)

@[simp]
theorem length_labels (forest : Forest α) : forest.labels.length = forest.size := by
  induction forest with
  | nil => rfl
  | node label children siblings ofChildren ofSiblings =>
      simp only [labels, size, List.length_cons, List.length_append, ofChildren, ofSiblings]
      omega

@[simp]
theorem length_depths (depth : Nat) (forest : Forest α) :
    (forest.depths depth).length = forest.size := by
  induction forest generalizing depth with
  | nil => rfl
  | node label children siblings ofChildren ofSiblings =>
      simp only [depths, size, List.length_cons, List.length_append, ofChildren, ofSiblings]
      omega

/-- The forest with other labels. -/
def map {β : Type} (relabel : α → β) : Forest α → Forest β
  | nil => nil
  | node label children siblings => node (relabel label) (children.map relabel) (siblings.map relabel)

section Map

variable {β : Type} (relabel : α → β)

@[simp]
theorem labels_map (forest : Forest α) : (forest.map relabel).labels = forest.labels.map relabel := by
  induction forest with
  | nil => rfl
  | node label children siblings ofChildren ofSiblings =>
      simp only [map, labels, ofChildren, ofSiblings, List.map_cons, List.map_append]

@[simp]
theorem depths_map (depth : Nat) (forest : Forest α) :
    (forest.map relabel).depths depth = forest.depths depth := by
  induction forest generalizing depth with
  | nil => rfl
  | node label children siblings ofChildren ofSiblings =>
      simp only [map, depths, ofChildren, ofSiblings]

@[simp]
theorem size_map (forest : Forest α) : (forest.map relabel).size = forest.size := by
  rw [← length_labels, labels_map, List.length_map, length_labels]

@[simp]
theorem head_map (forest : Forest α) : (forest.map relabel).head = forest.head.map relabel := by
  cases forest <;> rfl

end Map

theorem head_eq_roots_head? (forest : Forest α) : forest.head = forest.roots.head? := by
  cases forest <;> rfl

/-- No node lies above the roots. -/
theorem le_of_mem_depths {depth level : Nat} {forest : Forest α}
    (listed : level ∈ forest.depths depth) : depth ≤ level := by
  induction forest generalizing depth with
  | nil => simp [depths] at listed
  | node label children siblings ofChildren ofSiblings =>
      rw [depths, List.mem_cons, List.mem_append] at listed
      rcases listed with same | inChildren | inSiblings
      · exact Nat.le_of_eq same.symm
      · exact Nat.le_of_succ_le (ofChildren inChildren)
      · exact ofSiblings inSiblings

/-- Behind a node, the run of deeper nodes is the listing of its children. -/
theorem takeWhile_depths (depth : Nat) (children siblings : Forest α) :
    (children.depths (depth + 1) ++ siblings.depths depth).takeWhile (depth < ·) =
      children.depths (depth + 1) := by
  have deeper : ∀ level ∈ children.depths (depth + 1), decide (depth < level) = true := by
    intro level listed
    exact decide_eq_true (le_of_mem_depths listed)
  rw [List.takeWhile_append_of_pos deeper]
  cases siblings with
  | nil => simp [depths]
  | node label inner rest => simp [depths]

/-- The preorder listing with the depths determines the forest. -/
theorem eq_of_depths {depth : Nat} {first second : Forest α}
    (sameLabels : first.labels = second.labels)
    (sameDepths : first.depths depth = second.depths depth) : first = second := by
  induction first generalizing second depth with
  | nil =>
      cases second with
      | nil => rfl
      | node label children siblings => simp [labels] at sameLabels
  | node label children siblings ofChildren ofSiblings =>
      cases second with
      | nil => simp [labels] at sameLabels
      | node label' children' siblings' =>
          simp only [labels, List.cons.injEq] at sameLabels
          simp only [depths, List.cons.injEq, true_and] at sameDepths
          obtain ⟨sameLabel, sameRest⟩ := sameLabels
          have childDepths : children.depths (depth + 1) = children'.depths (depth + 1) := by
            rw [← takeWhile_depths depth children siblings, sameDepths, takeWhile_depths]
          have sameSize : children.labels.length = children'.labels.length := by
            have lengths := congrArg List.length childDepths
            simpa using lengths
          obtain ⟨childLabels, siblingLabels⟩ := List.append_inj sameRest sameSize
          rw [childDepths] at sameDepths
          have siblingDepths := List.append_cancel_left sameDepths
          rw [sameLabel, ofChildren childLabels childDepths, ofSiblings siblingLabels siblingDepths]

end Forest

end KernelHacking
