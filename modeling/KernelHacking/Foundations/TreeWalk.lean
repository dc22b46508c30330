/-
Module: KernelHacking.Foundations.TreeWalk
Layer: Foundations
Purpose: Walks in preorder over child lists. `visit` is the recursive walk with a bound on its depth;
  `Visits` says which nodes it comes to, in which order. The walk comes to the descendants of its start;
  it comes to each of them once if every node stands on one child list and ranks grow downwards; and it
  ends if the ranks are bounded.
Imports: Mathlib.Logic.Relation, Mathlib.Data.List.Nodup, KernelHacking.Foundations.Forest
Trusted boundary: none (fully proved)
Main exports: visit, Visits, Descends, Visits.mem_iff, Visits.behind, visits_labels, Tidy,
  Visits.nodup, exists_visits, exists_bound, Visits.unique, visits_of_visit, exists_visit
Open obligations: none
-/
import Mathlib.Logic.Relation
import Mathlib.Data.List.Nodup
import KernelHacking.Foundations.Forest

namespace KernelHacking.TreeWalk

variable {α σ : Type}

/-- Act on a node, then walk through its children one after the other. -/
def visit (children : α → List α) (act : σ → α → σ) : Nat → σ → α → Option σ
  | 0, _, _ => none
  | depth + 1, state, node => (children node).foldlM (visit children act depth) (act state node)

/-- Walking through the nodes of the first list comes to the nodes of the second list, in this order. -/
inductive Visits (children : α → List α) : List α → List α → Prop where
  | nil : Visits children [] []
  | cons {node : α} {rest inner outer : List α} (below : Visits children (children node) inner)
      (behind : Visits children rest outer) : Visits children (node :: rest) (node :: (inner ++ outer))

/-- The second node stands on the child list of the first. -/
def Child (children : α → List α) (owner child : α) : Prop := child ∈ children owner

/-- The second node is the first one or lies below it. -/
abbrev Descends (children : α → List α) : α → α → Prop := Relation.ReflTransGen (Child children)

variable {children : α → List α}

/-! ### The nodes of a walk -/

/-- A walk comes to the nodes it starts with and to those below them. -/
theorem Visits.mem_iff {nodes visited : List α} (visits : Visits children nodes visited) {node : α} :
    node ∈ visited ↔ ∃ start ∈ nodes, Descends children start node := by
  induction visits with
  | nil => simp
  | @cons first rest inner outer _ _ ofInner ofOuter =>
      rw [List.mem_cons, List.mem_append, ofInner, ofOuter]
      constructor
      · rintro (rfl | ⟨child, isChild, descends⟩ | ⟨start, listed, descends⟩)
        · exact ⟨node, List.mem_cons_self, .refl⟩
        · exact ⟨first, List.mem_cons_self, .head isChild descends⟩
        · exact ⟨start, List.mem_cons_of_mem _ listed, descends⟩
      · rintro ⟨start, listed, descends⟩
        rcases List.mem_cons.mp listed with rfl | inRest
        · rcases descends.cases_head with rfl | ⟨child, isChild, below⟩
          · exact Or.inl rfl
          · exact Or.inr (Or.inl ⟨child, isChild, below⟩)
        · exact Or.inr (Or.inr ⟨start, inRest, descends⟩)

/-- There is one walk. -/
theorem Visits.unique {nodes first second : List α} (one : Visits children nodes first)
    (two : Visits children nodes second) : first = second := by
  induction one generalizing second with
  | nil =>
      cases two
      rfl
  | cons _ _ ofInner ofOuter =>
      cases two with
      | cons below behind => rw [ofInner below, ofOuter behind]

/-- Behind a node come the nodes below it, from those below its first child to those below its last. -/
theorem Visits.behind {nodes visited : List α} (visits : Visits children nodes visited) {node : α}
    (listed : node ∈ visited) :
    ∃ before inner after, visited = before ++ node :: (inner ++ after) ∧
      Visits children (children node) inner := by
  induction visits with
  | nil => cases listed
  | @cons first rest inner outer below _ ofInner ofOuter =>
      rcases List.mem_cons.mp listed with rfl | later
      · exact ⟨[], inner, outer, rfl, below⟩
      · rcases List.mem_append.mp later with inside | outside
        · obtain ⟨before, found, after, rfl, walks⟩ := ofInner inside
          exact ⟨first :: before, found, after ++ outer, by simp, walks⟩
        · obtain ⟨before, found, after, rfl, walks⟩ := ofOuter outside
          exact ⟨first :: (inner ++ before), found, after, by simp, walks⟩

/-- Every walk is the walk through a forest. -/
theorem Visits.exists_forest {nodes visited : List α} (visits : Visits children nodes visited) :
    ∃ forest : Forest α, forest.Linked children ∧ forest.roots = nodes ∧ forest.labels = visited := by
  induction visits with
  | nil => exact ⟨.nil, trivial, rfl, rfl⟩
  | @cons node rest inner outer _ _ ofInner ofOuter =>
      obtain ⟨below, linkedBelow, isBelow, innerLabels⟩ := ofInner
      obtain ⟨siblings, linkedSiblings, isSiblings, outerLabels⟩ := ofOuter
      refine ⟨.node node below siblings, ⟨isBelow.symm, linkedBelow, linkedSiblings⟩, ?_, ?_⟩
      · rw [Forest.roots, isSiblings]
      · rw [Forest.labels, innerLabels, outerLabels]

/-! ### Tidy child lists -/

/-- Every node stands on at most one child list, and there once, and ranks grow downwards. -/
structure Tidy (children : α → List α) (rank : α → Nat) : Prop where
  owner_unique : ∀ {first second child}, child ∈ children first → child ∈ children second → first = second
  nodup : ∀ owner, (children owner).Nodup
  lt_rank : ∀ {owner child}, child ∈ children owner → rank owner < rank child

variable {rank : α → Nat}

theorem Tidy.le_rank (tidy : Tidy children rank) {above below : α}
    (descends : Descends children above below) : rank above ≤ rank below := by
  induction descends with
  | refl => exact Nat.le_refl _
  | tail _ step inductionHypothesis =>
      exact Nat.le_trans inductionHypothesis (Nat.le_of_lt (tidy.lt_rank step))

/-- Of two nodes above the same node, one lies above the other. -/
theorem Tidy.comparable (tidy : Tidy children rank) {first second node : α}
    (one : Descends children first node) (two : Descends children second node) :
    Descends children first second ∨ Descends children second first := by
  induction one with
  | refl => exact Or.inr two
  | @tail owner child above step inductionHypothesis =>
      rcases two.cases_tail with rfl | ⟨other, twoAbove, stepTwo⟩
      · exact Or.inl (above.tail step)
      · rw [tidy.owner_unique stepTwo step] at twoAbove
        exact inductionHypothesis twoAbove

/-- None of the nodes lies below another. -/
def Apart (children : α → List α) (nodes : List α) : Prop :=
  ∀ first ∈ nodes, ∀ second ∈ nodes, Descends children first second → first = second

/-- The children of a node do not lie below each other. -/
theorem Tidy.apart_children (tidy : Tidy children rank) (owner : α) :
    Apart children (children owner) := by
  intro first isFirst second isSecond descends
  rcases descends.cases_tail with same | ⟨other, above, step⟩
  · exact same.symm
  · rw [tidy.owner_unique step isSecond] at above
    exact absurd (tidy.lt_rank isFirst) (Nat.not_lt.mpr (tidy.le_rank above))

/-- A walk over tidy child lists comes to no node twice. -/
theorem Visits.nodup (tidy : Tidy children rank) {nodes visited : List α}
    (visits : Visits children nodes visited) (distinct : nodes.Nodup) (apart : Apart children nodes) :
    visited.Nodup := by
  induction visits with
  | nil => exact List.nodup_nil
  | @cons first rest inner outer below behind ofInner ofOuter =>
      obtain ⟨notInRest, distinctRest⟩ := List.nodup_cons.mp distinct
      have nodupInner := ofInner (tidy.nodup first) (tidy.apart_children first)
      have nodupOuter := ofOuter distinctRest fun one isOne two isTwo =>
        apart one (List.mem_cons_of_mem _ isOne) two (List.mem_cons_of_mem _ isTwo)
      -- a node that is reached from the first start and from a later one makes them comparable
      have separate : ∀ node, Descends children first node → node ∉ outer := by
        intro node descends inOuter
        obtain ⟨start, inRest, fromStart⟩ := behind.mem_iff.mp inOuter
        have isStart : start ∈ first :: rest := List.mem_cons_of_mem _ inRest
        rcases tidy.comparable descends fromStart with down | up
        · rw [apart first List.mem_cons_self start isStart down] at notInRest
          exact notInRest inRest
        · rw [← apart start isStart first List.mem_cons_self up] at notInRest
          exact notInRest inRest
      have notInner : first ∉ inner := by
        intro inInner
        obtain ⟨child, isChild, descends⟩ := below.mem_iff.mp inInner
        exact absurd (tidy.lt_rank isChild) (Nat.not_lt.mpr (tidy.le_rank descends))
      refine List.nodup_cons.mpr ⟨fun listed => ?_, List.nodup_append'.mpr ⟨nodupInner, nodupOuter, ?_⟩⟩
      · rcases List.mem_append.mp listed with inInner | inOuter
        · exact notInner inInner
        · exact separate first .refl inOuter
      · intro node inInner inOuter
        obtain ⟨child, isChild, descends⟩ := below.mem_iff.mp inInner
        exact separate node (.head isChild descends) inOuter

/-- The walk through a list ends if the walk below each of its nodes does. -/
theorem exists_visits_of_children (nodes : List α)
    (ends : ∀ node ∈ nodes, ∃ inner, Visits children (children node) inner) :
    ∃ visited, Visits children nodes visited := by
  induction nodes with
  | nil => exact ⟨[], .nil⟩
  | cons node rest inductionHypothesis =>
      obtain ⟨inner, below⟩ := ends node List.mem_cons_self
      obtain ⟨outer, behind⟩ := inductionHypothesis fun other listed =>
        ends other (List.mem_cons_of_mem _ listed)
      exact ⟨_, .cons below behind⟩

/-- If the ranks are bounded, the walk ends. -/
theorem exists_visits (tidy : Tidy children rank) {bound : Nat}
    (bounded : ∀ {owner child}, child ∈ children owner → rank child ≤ bound) (nodes : List α) :
    ∃ visited, Visits children nodes visited := by
  refine exists_visits_of_children nodes fun node listed => ?_
  clear listed
  induction left : bound - rank node using Nat.strongRecOn generalizing node with
  | _ left inductionHypothesis =>
      refine exists_visits_of_children (children node) fun child isChild => ?_
      have higher := tidy.lt_rank isChild
      have limited := bounded isChild
      exact inductionHypothesis (bound - rank child) (by omega) child rfl

/-- The ranks of finitely many nodes are bounded. -/
theorem exists_bound (rank : α → Nat) (nodes : List α) : ∃ bound, ∀ node ∈ nodes, rank node ≤ bound := by
  induction nodes with
  | nil => exact ⟨0, fun node listed => absurd listed List.not_mem_nil⟩
  | cons first rest inductionHypothesis =>
      obtain ⟨bound, bounded⟩ := inductionHypothesis
      refine ⟨max (rank first) bound, fun node listed => ?_⟩
      rcases List.mem_cons.mp listed with rfl | inRest
      · exact Nat.le_max_left _ _
      · exact Nat.le_trans (bounded node inRest) (Nat.le_max_right _ _)

/-! ### The recursive walk -/

variable {act : σ → α → σ}

/-- What the recursive walk does: it acts on the nodes it comes to, in order. -/
theorem visits_of_visit {depth : Nat} {node : α} {state after : σ}
    (walked : visit children act depth state node = some after) :
    ∃ visited, Visits children [node] visited ∧ after = visited.foldl act state := by
  induction depth generalizing node state after with
  | zero => cases walked
  | succ depth inductionHypothesis =>
      have ofList : ∀ (nodes : List α) (state : σ),
          nodes.foldlM (visit children act depth) state = some after →
            ∃ visited, Visits children nodes visited ∧ after = visited.foldl act state := by
        intro nodes
        induction nodes with
        | nil =>
            intro state walkedAll
            cases walkedAll
            exact ⟨[], .nil, rfl⟩
        | cons first rest ofRest =>
            intro state walkedAll
            rw [List.foldlM_cons] at walkedAll
            obtain ⟨middle, walkedFirst, walkedRest⟩ := Option.bind_eq_some_iff.mp walkedAll
            obtain ⟨_, visitsFirst, rfl⟩ := inductionHypothesis walkedFirst
            obtain ⟨outer, behind, rfl⟩ := ofRest _ walkedRest
            cases visitsFirst with
            | @cons _ _ inner empty below none =>
                cases none
                refine ⟨_, .cons below behind, ?_⟩
                rw [List.append_nil, List.foldl_cons, List.foldl_cons, List.foldl_append]
      obtain ⟨inner, below, rfl⟩ := ofList _ _ walked
      exact ⟨_, .cons below .nil, by rw [List.append_nil, List.foldl_cons]⟩

/-- A deeper bound changes nothing. -/
theorem visit_mono {depth deeper : Nat} (more : depth ≤ deeper) {nodes : List α} {state after : σ}
    (walked : nodes.foldlM (visit children act depth) state = some after) :
    nodes.foldlM (visit children act deeper) state = some after := by
  induction depth generalizing deeper nodes state after with
  | zero =>
      cases nodes with
      | nil => exact walked
      | cons node rest => cases walked
  | succ depth inductionHypothesis =>
      obtain ⟨deeper, rfl⟩ := Nat.exists_eq_add_of_lt more
      induction nodes generalizing state with
      | nil => exact walked
      | cons node rest ofRest =>
          rw [List.foldlM_cons] at walked ⊢
          obtain ⟨middle, walkedNode, walkedRest⟩ := Option.bind_eq_some_iff.mp walked
          refine Option.bind_eq_some_iff.mpr ⟨middle, ?_, ofRest walkedRest⟩
          exact inductionHypothesis (Nat.le_add_right _ _) walkedNode

/-- With enough depth the recursive walk comes to the end. -/
theorem exists_visit (act : σ → α → σ) {nodes visited : List α}
    (visits : Visits children nodes visited) :
    ∃ depth, ∀ state, nodes.foldlM (visit children act depth) state = some (visited.foldl act state) := by
  induction visits with
  | nil => exact ⟨0, fun _ => rfl⟩
  | @cons node rest inner outer _ _ ofInner ofOuter =>
      obtain ⟨inside, walkedInner⟩ := ofInner
      obtain ⟨outside, walkedOuter⟩ := ofOuter
      refine ⟨max (inside + 1) outside, fun state => ?_⟩
      have first : [node].foldlM (visit children act (inside + 1)) state =
          some (inner.foldl act (act state node)) := by
        rw [List.foldlM_cons, visit, walkedInner]
        rfl
      have here := visit_mono (Nat.le_max_left (inside + 1) outside) first
      have later := visit_mono (Nat.le_max_right (inside + 1) outside)
        (walkedOuter (inner.foldl act (act state node)))
      rw [List.foldl_cons, List.foldl_append, ← List.singleton_append, List.foldlM_append, here]
      exact later

end KernelHacking.TreeWalk
