/-
Module: KernelHacking.Proofs.SiblingRepair
Layer: Proofs
Purpose: The sibling links that `display` prints. A link that leads to an ancestor is cleared when its
  process is taken off the stack, or by the check of the next entry. The processes still on the stack at
  the end are those on the path to the process listed last, and what their links hold is printed
  (`links_repaired_iff`).
Imports: Mathlib.Data.List.Nodup, KernelHacking.Proofs.DisplayTree
Trusted boundary: none (fully proved)
Main exports: popToSibling_popped, displayStep_relinks, Forest.nextSiblings, Forest.lastPath,
  printedLinks, forest_relinked, ListsFrom, links_repaired_iff
Open obligations: none
-/
import Mathlib.Data.List.Nodup
import KernelHacking.Proofs.DisplayTree

namespace KernelHacking.ProcessTree

/-! ### The links that a round clears -/

/-- The levels from `depth` to `top` have been taken off the stack and their links cleared. -/
structure Popped (stack : Nat → Nat) (depth top : Nat) (before after : Nat → Prinfo) : Prop where
  cleared : ∀ level, depth ≤ level → level < top → (after (stack level)).nextSiblingPid = 0
  others : ∀ k, (∀ level, depth ≤ level → level < top → k ≠ stack level) → after k = before k

/-- The `while` loop sets no link but to 0. -/
theorem popToSibling_zero {cells : Nat} {pid : Int} {stack : Nat → Nat} {top depth : Nat}
    {before after : Nat → Prinfo} (popped : popToSibling cells pid stack top before = some (after, depth))
    {k : Nat} (isZero : (before k).nextSiblingPid = 0) : (after k).nextSiblingPid = 0 := by
  induction top generalizing before with
  | zero => cases popped
  | succ top inductionHypothesis =>
      rw [popToSibling] at popped
      obtain ⟨index, _, rest⟩ := Option.bind_eq_some_iff.mp popped
      obtain ⟨entry, _, decides⟩ := Option.bind_eq_some_iff.mp rest
      split at decides
      · refine inductionHypothesis decides ?_
        by_cases same : k = index
        · rw [same, clearSibling, Function.update_self]
        · rw [clearSibling, Function.update_of_ne same]
          exact isZero
      · cases decides
        exact isZero

/-- What the `while` loop does. -/
theorem popToSibling_popped {cells : Nat} {pid : Int} {stack : Nat → Nat} {top depth : Nat}
    {before after : Nat → Prinfo}
    (popped : popToSibling cells pid stack top before = some (after, depth)) :
    depth ≤ top ∧ Popped stack depth top before after := by
  induction top generalizing before with
  | zero => cases popped
  | succ top inductionHypothesis =>
      rw [popToSibling] at popped
      obtain ⟨index, readStack, rest⟩ := Option.bind_eq_some_iff.mp popped
      obtain ⟨entry, _, decides⟩ := Option.bind_eq_some_iff.mp rest
      have isIndex : stack top = index := by
        rw [read] at readStack
        split at readStack
        · exact Option.some.inj readStack
        · cases readStack
      split at decides
      · obtain ⟨depth_le, cleared, others⟩ := inductionHypothesis decides
        refine ⟨Nat.le_succ_of_le depth_le, fun level higher lower => ?_, fun k notPopped => ?_⟩
        · by_cases last : level = top
          · refine popToSibling_zero decides ?_
            rw [last, isIndex, clearSibling, Function.update_self]
          · exact cleared level higher (by omega)
        · rw [others k fun level higher lower => notPopped level higher (by omega)]
          refine Function.update_of_ne ?_ _ _
          rw [← isIndex]
          exact notPopped top depth_le (Nat.lt_succ_self top)
      · cases decides
        exact ⟨Nat.le_refl _, fun level higher lower => absurd lower (by omega), fun k _ => rfl⟩

/-- Putting a process on the stack takes the levels above its place off it. -/
theorem place_popped {cells i : Nat} {frame placed : Frame} (done : place cells frame i = some placed) :
    Popped frame.stack placed.top frame.top frame.buf placed.buf := by
  rw [place] at done
  obtain ⟨firstChild, _, branch⟩ := Option.bind_eq_some_iff.mp done
  split at branch
  · obtain ⟨stack, _, isPlaced⟩ := Option.bind_eq_some_iff.mp branch
    cases isPlaced
    exact ⟨fun level higher lower => absurd lower (by dsimp only at higher; omega), fun k _ => rfl⟩
  · obtain ⟨entry, _, pops⟩ := Option.bind_eq_some_iff.mp branch
    obtain ⟨⟨buf, top⟩, popped, writes⟩ := Option.bind_eq_some_iff.mp pops
    obtain ⟨stack, _, isPlaced⟩ := Option.bind_eq_some_iff.mp writes
    cases isPlaced
    exact (popToSibling_popped popped).2

/-- The link of entry `i` once it is on the stack. -/
def pendingLink (nr : Nat) (source : Nat → Prinfo) (i : Nat) : Int :=
  if NextRelated nr source i then (source i).nextSiblingPid else 0

/-- What one round does to the links. -/
structure Relinks (source : Nat → Prinfo) (nr i depth : Nat) (before after : Frame) : Prop where
  popped : Popped before.stack (depth + 1) before.top (checked nr source before.buf i) after.buf
  here : (after.buf i).nextSiblingPid = pendingLink nr source i

theorem displayStep_relinks {source : Nat → Prinfo} {cells nr i depth : Nat} {frame after : Frame}
    (consistent : Consistent source i frame) (waiting : Waiting source i depth frame)
    (small : nr ≤ MAXPROCESSNUMBER) (room : nr ≤ cells) (listed : i < nr)
    (done : displayStep cells nr frame i = some after) : Relinks source nr i depth frame after := by
  obtain ⟨sound, fresh⟩ := consistent
  obtain ⟨buf, placed, _⟩ := place_eq sound.checked (waiting.checked sound)
    (Nat.lt_of_lt_of_le listed small) (Nat.lt_of_lt_of_le listed room)
  have isAfter := (displayStep_eq fresh small room listed placed).symm.trans done
  cases isAfter
  have popped : Popped frame.stack (depth + 1) frame.top (checked nr source frame.buf i) buf :=
    place_popped placed
  refine ⟨popped, ?_⟩
  have later : ∀ level, depth + 1 ≤ level → level < frame.top → i ≠ frame.stack level :=
    fun level _ lower => Nat.ne_of_gt (sound.below level lower)
  dsimp only
  rw [popped.others i later, checked_link, fresh i (Nat.le_refl i), pendingLink]

/-! ### The links that are printed -/

end KernelHacking.ProcessTree

namespace KernelHacking.Forest

variable {α : Type}

/-- For each node, in preorder, the label of its next sibling. -/
def nextSiblings : Forest α → List (Option α)
  | nil => []
  | node _ children siblings => siblings.head :: (children.nextSiblings ++ siblings.nextSiblings)

/-- The places, in preorder from `i` on, of the last root, of its last child and so on. -/
def lastPath (i : Nat) : Forest α → List Nat
  | nil => []
  | node _ children nil => i :: children.lastPath (i + 1)
  | node _ children (node label nephews others) =>
      (node label nephews others).lastPath (i + 1 + children.size)

theorem lastPath_bounds {i k : Nat} {forest : Forest α} (onPath : k ∈ forest.lastPath i) :
    i ≤ k ∧ k < i + forest.size := by
  induction forest generalizing i with
  | nil => cases onPath
  | node label children siblings ofChildren ofSiblings =>
      cases siblings with
      | nil =>
          rw [lastPath] at onPath
          rcases List.mem_cons.mp onPath with rfl | below
          · simp only [size]
            omega
          · have bounds := ofChildren below
            simp only [size]
            omega
      | node sibling nephews others =>
          rw [lastPath] at onPath
          have bounds := ofSiblings onPath
          simp only [size] at bounds ⊢
          omega

end KernelHacking.Forest

namespace KernelHacking.ProcessTree

/-- The links of a listed forest after its rounds. Those on its last path are as they were put on the
    stack if nothing has followed (`last`), and are cleared otherwise. -/
def printedLinks (nr : Nat) (source : Nat → Prinfo) : Bool → Nat → Forest Int → List Int
  | _, _, .nil => []
  | last, i, .node _ children .nil =>
      (if last then pendingLink nr source i else 0) :: printedLinks nr source last (i + 1) children
  | last, i, .node _ children (.node sibling nephews others) =>
      sibling :: (printedLinks nr source false (i + 1) children ++
        printedLinks nr source last (i + 1 + children.size) (.node sibling nephews others))

theorem length_printedLinks (nr : Nat) (source : Nat → Prinfo) (last : Bool) (i : Nat)
    (forest : Forest Int) : (printedLinks nr source last i forest).length = forest.size := by
  induction forest generalizing last i with
  | nil => rfl
  | node pid children siblings ofChildren ofSiblings =>
      cases siblings with
      | nil =>
          rw [printedLinks, List.length_cons, ofChildren]
          simp only [Forest.size]
          omega
      | node sibling nephews others =>
          rw [printedLinks, List.length_cons, List.length_append, ofChildren, ofSiblings]
          simp only [Forest.size]
          omega

/-- The links once the last path is off the stack are right. -/
theorem printedLinks_false (nr : Nat) (source : Nat → Prinfo) (i : Nat) (forest : Forest Int) :
    printedLinks nr source false i forest = forest.nextSiblings.map fun sibling => sibling.getD 0 := by
  induction forest generalizing i with
  | nil => rfl
  | node pid children siblings ofChildren ofSiblings =>
      cases siblings with
      | nil => simp [printedLinks, Forest.nextSiblings, ofChildren, Forest.head]
      | node sibling nephews others =>
          rw [printedLinks, ofChildren, ofSiblings]
          simp [Forest.nextSiblings, Forest.head]

/-- The links are right exactly if those on the last path are. -/
theorem printedLinks_true_iff (nr : Nat) (source : Nat → Prinfo) (i : Nat) (forest : Forest Int) :
    printedLinks nr source true i forest = printedLinks nr source false i forest ↔
      ∀ k ∈ forest.lastPath i, pendingLink nr source k = 0 := by
  induction forest generalizing i with
  | nil => simp [printedLinks, Forest.lastPath]
  | node pid children siblings ofChildren ofSiblings =>
      cases siblings with
      | nil => simp [printedLinks, Forest.lastPath, ofChildren]
      | node sibling nephews others =>
          rw [printedLinks, printedLinks, List.cons.injEq, List.append_right_inj, Forest.lastPath,
            ofSiblings]
          simp

/-- Clearing the links of the last path makes all links right. -/
theorem printedLinks_cleared {nr : Nat} {source : Nat → Prinfo} {i : Nat} {forest : Forest Int}
    {before after : Nat → Int}
    (links : (List.range' i forest.size).map before = printedLinks nr source true i forest)
    (cleared : ∀ k ∈ forest.lastPath i, after k = 0)
    (others : ∀ k, i ≤ k → k < i + forest.size → k ∉ forest.lastPath i → after k = before k) :
    (List.range' i forest.size).map after = printedLinks nr source false i forest := by
  induction forest generalizing i with
  | nil => rfl
  | node pid children siblings ofChildren ofSiblings =>
      have sizeIs : (Forest.node pid children siblings).size = 1 + children.size + siblings.size := rfl
      cases siblings with
      | nil =>
          rw [range'_node, Forest.size, List.range'_zero, List.append_nil, List.map_cons] at links ⊢
          rw [printedLinks, List.cons.injEq] at links
          rw [printedLinks, List.cons.injEq]
          refine ⟨cleared i List.mem_cons_self, ofChildren links.2 ?_ ?_⟩
          · exact fun k onPath => cleared k (List.mem_cons_of_mem _ onPath)
          · intro k lower upper notOnPath
            refine others k (by omega) (by rw [sizeIs]; omega) ?_
            rw [Forest.lastPath, List.mem_cons]
            rintro (rfl | onPath)
            · omega
            · exact notOnPath onPath
      | node sibling nephews others' =>
          have pathBounds : ∀ k ∈ (Forest.node pid children (.node sibling nephews others')).lastPath i,
              i + 1 + children.size ≤ k := by
            intro k onPath
            rw [Forest.lastPath] at onPath
            exact (Forest.lastPath_bounds onPath).1
          have same : ∀ k, i ≤ k → k < i + 1 + children.size → after k = before k := by
            intro k lower upper
            refine others k lower (by rw [sizeIs]; omega) fun onPath => ?_
            have bound := pathBounds k onPath
            omega
          rw [range'_node, List.map_cons, List.map_append, printedLinks, List.cons.injEq] at links ⊢
          obtain ⟨linkHere, linksBehind⟩ := links
          obtain ⟨inChildren, inSiblings⟩ := List.append_inj linksBehind
            (by rw [length_printedLinks, List.length_map, List.length_range'])
          refine ⟨(same i (Nat.le_refl i) (by omega)).trans linkHere, ?_⟩
          have sameChildren : (List.range' (i + 1) children.size).map after =
              (List.range' (i + 1) children.size).map before := by
            refine List.map_congr_left fun k inside => ?_
            rw [List.mem_range'_1] at inside
            exact same k (by omega) inside.2
          rw [sameChildren, inChildren, ofSiblings inSiblings]
          · exact fun k onPath => cleared k onPath
          · intro k lower upper notOnPath
            exact others k (by omega) (by rw [sizeIs]; omega) notOnPath

/-! ### The whole loop -/

/-- What the rounds of a forest do to the links and the stack. From `depth` on, the stack is the last path
    of the forest. -/
structure Relinked (source : Nat → Prinfo) (nr i depth : Nat) (forest : Forest Int)
    (before after : Frame) : Prop where
  stack : forest ≠ .nil →
    (List.range' depth (after.top - depth)).map after.stack = forest.lastPath i
  links : (List.range' i forest.size).map (fun k => (after.buf k).nextSiblingPid) =
    printedLinks nr source true i forest
  cleared : forest ≠ .nil → ∀ level, depth + 1 ≤ level → level < before.top →
    (after.buf (before.stack level)).nextSiblingPid = 0
  others : ∀ k, k < i → (∀ level, depth + 1 ≤ level → level < before.top → k ≠ before.stack level) →
    after.buf k = before.buf k

section Rounds

variable {source : Nat → Prinfo} {nr i depth : Nat} {forest : Forest Int} {before after : Frame}

/-- The stack and the last path have the same entries. -/
theorem Relinked.mem_lastPath_iff (relinked : Relinked source nr i depth forest before after)
    (nonempty : forest ≠ .nil) {k : Nat} :
    k ∈ forest.lastPath i ↔ ∃ level, depth ≤ level ∧ level < after.top ∧ after.stack level = k := by
  rw [← relinked.stack nonempty, List.mem_map]
  constructor
  · rintro ⟨level, inside, isEntry⟩
    rw [List.mem_range'_1] at inside
    exact ⟨level, inside.1, by omega, isEntry⟩
  · rintro ⟨level, higher, lower, isEntry⟩
    exact ⟨level, List.mem_range'_1.mpr ⟨higher, by omega⟩, isEntry⟩

variable {frame entered inner : Frame} {pid : Int} {children siblings : Forest Int}

/-- Above the process itself the stack holds the last path of its children. -/
theorem Relinked.above (innerDone : Relinked source nr (i + 1) (depth + 1) children entered inner)
    (enters : Enters source nr i depth frame entered) (childless : children = .nil → inner = entered)
    {k : Nat} : k ∈ children.lastPath (i + 1) ↔
      ∃ level, depth + 1 ≤ level ∧ level < inner.top ∧ inner.stack level = k := by
  cases children with
  | nil =>
      rw [childless rfl, enters.top_eq, Forest.lastPath]
      constructor
      · intro onPath
        cases onPath
      · rintro ⟨level, higher, lower, _⟩
        omega
  | node child grandchildren others => exact innerDone.mem_lastPath_iff (by simp)

/-- The links of the children of a process, once its next sibling has been placed. -/
theorem Relinked.children_cleared
    (innerDone : Relinked source nr (i + 1) (depth + 1) children entered inner)
    (enters : Enters source nr i depth frame entered) (childless : children = .nil → inner = entered)
    (restDone : Relinked source nr (i + 1 + children.size) depth siblings inner after)
    (more : siblings ≠ .nil) :
    (List.range' (i + 1) children.size).map (fun k => (after.buf k).nextSiblingPid) =
      printedLinks nr source false (i + 1) children := by
  refine printedLinks_cleared innerDone.links (fun k onPath => ?_) fun k _ upper notOnPath => ?_
  · obtain ⟨level, higher, lower, rfl⟩ := (innerDone.above enters childless).mp onPath
    exact restDone.cleared more level higher lower
  · rw [restDone.others k upper]
    rintro level higher lower rfl
    exact notOnPath ((innerDone.above enters childless).mpr ⟨level, higher, lower, rfl⟩)

/-- The round of a process, those of its children and those of its siblings, taken together. -/
theorem Relinks.relinked (relinks : Relinks source nr i depth frame entered)
    (enters : Enters source nr i depth frame entered) (consistent : Consistent source i frame)
    (lists : Lists nr source i (.node pid children siblings))
    (listed : i + 1 + children.size + siblings.size ≤ nr)
    (innerDisplayed : Displayed source nr (i + 1) (depth + 1) children entered inner)
    (innerDone : Relinked source nr (i + 1) (depth + 1) children entered inner)
    (childless : children = .nil → inner = entered)
    (restDone : Relinked source nr (i + 1 + children.size) depth siblings inner after)
    (alone : siblings = .nil → after = inner) :
    Relinked source nr i depth (.node pid children siblings) frame after := by
  -- the later rounds clear links of later entries only
  have stays : ∀ k, k ≤ i → after.buf k = entered.buf k := by
    intro k upTo
    have inRest : after.buf k = inner.buf k := by
      refine restDone.others k (by omega) ?_
      rintro level higher lower rfl
      have onPath := (innerDone.above enters childless).mpr ⟨level, higher, lower, rfl⟩
      have bounds := Forest.lastPath_bounds onPath
      omega
    have inChildren : inner.buf k = entered.buf k := by
      refine innerDone.others k (by omega) fun level higher lower => ?_
      rw [enters.top_eq] at lower
      omega
    exact inRest.trans inChildren
  have here : (after.buf i).nextSiblingPid = pendingLink nr source i := by
    rw [stays i (Nat.le_refl i), relinks.here]
  constructor
  case stack =>
    intro _
    cases siblings with
    | nil =>
        obtain ⟨sameStack, _⟩ := innerDisplayed.path depth (Nat.lt_succ_self depth)
        have top_le := innerDisplayed.closed.depth_le
        rw [alone rfl, Forest.lastPath]
        have levels : inner.top - depth = inner.top - (depth + 1) + 1 := by omega
        rw [levels, List.range'_succ, List.map_cons, sameStack, enters.placed]
        congr 1
        cases children with
        | nil =>
            rw [childless rfl, enters.top_eq, Nat.sub_self]
            rfl
        | node child grandchildren others => exact innerDone.stack (by simp)
    | node sibling nephews others => exact restDone.stack (by simp)
  case links =>
    rw [range'_node, List.map_cons, List.map_append, here]
    cases siblings with
    | nil =>
        rw [alone rfl, innerDone.links, printedLinks]
        simp [Forest.size]
    | node sibling nephews others =>
        have inside : i + 1 + children.size < nr := by
          simp only [Forest.size] at listed
          omega
        have related := lists.nextRelated (by simp) inside
        have link : pendingLink nr source i = sibling := by
          rw [pendingLink, if_pos related]
          exact lists.2.2.1
        rw [innerDone.children_cleared enters childless restDone (by simp), restDone.links, link,
          printedLinks]
  case cleared =>
    intro _ level higher lower
    rw [stays _ (Nat.le_of_lt (consistent.below level lower))]
    exact relinks.popped.cleared level higher lower
  case others =>
    intro k earlier notPopped
    rw [stays k (Nat.le_of_lt earlier), relinks.popped.others k notPopped]
    exact checked_of_ne (Nat.ne_of_lt earlier)

end Rounds

/-- The rounds of a listed forest leave the links as described. -/
theorem forest_relinked {source : Nat → Prinfo} {cells nr : Nat} (small : nr ≤ MAXPROCESSNUMBER)
    (room : nr ≤ cells) (nonzero : ∀ k, 0 < k → k < nr → (source k).pid ≠ 0)
    (forest : Forest Int) {i depth : Nat} {frame after : Frame} (lists : Lists nr source i forest)
    (listed : i + forest.size ≤ nr) (ready : Ready source nr i depth frame forest)
    (done : rounds cells nr frame i forest.size = some after) :
    Relinked source nr i depth forest frame after := by
  induction forest generalizing i depth frame after with
  | nil =>
      cases done
      exact ⟨fun nonempty => absurd rfl nonempty, rfl, fun nonempty => absurd rfl nonempty,
        fun _ _ _ => rfl⟩
  | node pid children siblings ofChildren ofSiblings =>
      simp only [Forest.size] at listed
      obtain ⟨entered, step, enters⟩ :=
        displayStep_enters ready.1 ready.2 small room (by omega)
      have readyChildren := enters.ready_children lists
      obtain ⟨inner, innerRounds, innerDisplayed⟩ := forest_displayed small room nonzero children
        lists.2.2.2.1 (by omega) readyChildren
      have readySiblings := enters.ready_siblings lists nonzero (by omega) innerDisplayed
      have restRounds : rounds cells nr inner (i + 1 + children.size) siblings.size = some after := by
        rw [← done, Forest.size, Nat.add_assoc 1, rounds_add (rounds_one step), rounds_add innerRounds]
      have relinks := displayStep_relinks ready.1 ready.2 small room (by omega) step
      refine relinks.relinked enters ready.1 lists (by omega) innerDisplayed
        (ofChildren lists.2.2.2.1 (by omega) readyChildren innerRounds) ?_
        (ofSiblings lists.2.2.2.2 (by omega) readySiblings restRounds) ?_
      · rintro rfl
        exact (Option.some.inj innerRounds).symm
      · rintro rfl
        exact (Option.some.inj restRounds).symm

/-! ### Listings with links to ancestors -/

/-- The sibling link: the pid of the next sibling, and behind the last sibling 0 or the pid of an
    ancestor. -/
def AncestorLink (ancestors : List Int) (link : Int) : Option Int → Prop
  | some pid => link = pid
  | none => link = 0 ∨ link ∈ ancestors

instance (ancestors : List Int) (link : Int) : ∀ sibling, Decidable (AncestorLink ancestors link sibling)
  | some pid => inferInstanceAs (Decidable (link = pid))
  | none => inferInstanceAs (Decidable (link = 0 ∨ link ∈ ancestors))

/-- From entry `i` on, the buffer lists a forest below the ancestors, in preorder. -/
def ListsFrom (buf : Nat → Prinfo) : List Int → Nat → Forest Int → Prop
  | _, _, .nil => True
  | ancestors, i, .node pid children siblings =>
      (buf i).pid = pid ∧ (buf i).firstChildPid = children.head.getD 0 ∧
        AncestorLink ancestors (buf i).nextSiblingPid siblings.head ∧
          ListsFrom buf (pid :: ancestors) (i + 1) children ∧
            ListsFrom buf ancestors (i + 1 + children.size) siblings

instance ListsFrom.decidable (buf : Nat → Prinfo) :
    ∀ ancestors i forest, Decidable (ListsFrom buf ancestors i forest)
  | _, _, .nil => isTrue trivial
  | ancestors, i, .node pid children siblings =>
      have := ListsFrom.decidable buf (pid :: ancestors) (i + 1) children
      have := ListsFrom.decidable buf ancestors (i + 1 + children.size) siblings
      inferInstanceAs (Decidable (_ ∧ _ ∧ _ ∧ _ ∧ _))

/-- The pids of a listed forest are those of the entries, in order. -/
theorem ListsFrom.pids {i : Nat} {buf : Nat → Prinfo} {ancestors : List Int} {forest : Forest Int}
    (lists : ListsFrom buf ancestors i forest) :
    (List.range' i forest.size).map (fun k => (buf k).pid) = forest.labels := by
  induction forest generalizing i ancestors with
  | nil => rfl
  | node pid children siblings ofChildren ofSiblings =>
      obtain ⟨here, _, _, inner, rest⟩ := lists
      rw [range'_node, List.map_cons, List.map_append, ofChildren inner, ofSiblings rest, here,
        Forest.labels]

/-- A link to an ancestor leads to no process listed later. -/
theorem ListsFrom.lists {nr i : Nat} {buf : Nat → Prinfo} {ancestors : List Int} {forest : Forest Int}
    (lists : ListsFrom buf ancestors i forest)
    (distinct : ∀ j k, j < k → k < nr → (buf j).pid ≠ (buf k).pid)
    (nonzero : ∀ k, 0 < k → k < nr → (buf k).pid ≠ 0)
    (earlier : ∀ pid ∈ ancestors, ∃ j, j < i ∧ (buf j).pid = pid) : Lists nr buf i forest := by
  induction forest generalizing i ancestors with
  | nil => trivial
  | node pid children siblings ofChildren ofSiblings =>
      obtain ⟨here, firstChild, link, inner, rest⟩ := lists
      refine ⟨here, firstChild, ?_, ofChildren inner fun ancestor above => ?_,
        ofSiblings rest fun ancestor above => ?_⟩
      · cases siblings with
        | nil =>
            intro k inside later
            rcases link with isZero | above
            · rw [isZero]
              exact (nonzero k (by omega) inside).symm
            · obtain ⟨j, before, isAncestor⟩ := earlier _ above
              rw [← isAncestor]
              exact distinct j k (by omega) inside
        | node sibling nephews others => exact link
      · rcases List.mem_cons.mp above with rfl | higher
        · exact ⟨i, Nat.lt_succ_self i, here⟩
        · obtain ⟨j, before, isAncestor⟩ := earlier ancestor higher
          exact ⟨j, by omega, isAncestor⟩
      · obtain ⟨j, before, isAncestor⟩ := earlier ancestor above
        exact ⟨j, by omega, isAncestor⟩

/-- A process tree: the pids are pairwise distinct, and only the root may have pid 0, the number that
    stands for no process in a link. -/
structure ProcessForest where
  root : Int
  children : Forest Int
  distinct : (root :: children.labels).Nodup
  nonzero : 0 ∉ children.labels

/-- The tree as a forest of one root. -/
def ProcessForest.forest (tree : ProcessForest) : Forest Int := .node tree.root tree.children .nil

section Listing

variable {tree : ProcessForest} {buf : Nat → Prinfo}

theorem ProcessForest.labels_eq (tree : ProcessForest) :
    tree.forest.labels = tree.root :: tree.children.labels := by
  simp [ProcessForest.forest, Forest.labels]

theorem ProcessForest.pid_ne_pid (lists : ListsFrom buf [] 0 tree.forest) (j k : Nat) (less : j < k)
    (inside : k < tree.forest.size) : (buf j).pid ≠ (buf k).pid := by
  have nodup : ((List.range' 0 tree.forest.size).map fun k => (buf k).pid).Nodup := by
    rw [lists.pids, tree.labels_eq]
    exact tree.distinct
  rw [← List.range_eq_range'] at nodup
  intro same
  exact absurd (List.inj_on_of_nodup_map nodup (List.mem_range.mpr (Nat.lt_trans less inside))
    (List.mem_range.mpr inside) same) (Nat.ne_of_lt less)

theorem ProcessForest.pid_ne_zero (lists : ListsFrom buf [] 0 tree.forest) (k : Nat) (positive : 0 < k)
    (inside : k < tree.forest.size) : (buf k).pid ≠ 0 := by
  intro isZero
  have below := pid_mem_of_pids (lists.pids.trans tree.labels_eq) positive inside
  rw [isZero] at below
  exact tree.nonzero below

end Listing

/-- On the last path of a listed forest that ends the listing, every process but the one listed last is
    followed by its first child. -/
theorem Lists.lastPath_related {nr i : Nat} {buf : Nat → Prinfo} {forest : Forest Int}
    (lists : Lists nr buf i forest) (ends : i + forest.size = nr) {k : Nat}
    (onPath : k ∈ forest.lastPath i) (notLast : k + 1 < nr) : NextRelated nr buf k := by
  induction forest generalizing i with
  | nil => cases onPath
  | node pid children siblings ofChildren ofSiblings =>
      obtain ⟨_, firstChild, _, inner, rest⟩ := lists
      simp only [Forest.size] at ends
      cases siblings with
      | nil =>
          simp only [Forest.size] at ends
          rcases List.mem_cons.mp onPath with rfl | below
          · cases children with
            | nil =>
                simp only [Forest.size] at ends
                omega
            | node child grandchildren others =>
                refine ⟨notLast, Or.inr ?_⟩
                rw [firstChild, inner.1]
                rfl
          · exact ofChildren inner (by omega) below
      | node sibling nephews others => exact ofSiblings rest (by omega) onPath

/-- The links that `display` prints are right exactly if those of the processes on the path to the
    process listed last are 0 in the listing, that process itself apart. -/
theorem links_repaired_iff (tree : ProcessForest) (cells : Nat) (buf : Nat → Prinfo)
    (garbage : Nat → Nat) (small : tree.forest.size ≤ MAXPROCESSNUMBER)
    (room : tree.forest.size ≤ cells) (lists : ListsFrom buf [] 0 tree.forest) :
    ∃ lines, display cells buf tree.forest.size garbage = some lines ∧
      (lines.map (fun line => line.entry.nextSiblingPid) =
          tree.forest.nextSiblings.map (fun sibling => sibling.getD 0) ↔
        ∀ k ∈ tree.forest.lastPath 0, k + 1 < tree.forest.size → (buf k).nextSiblingPid = 0) := by
  have distinct := ProcessForest.pid_ne_pid lists
  have nonzero := ProcessForest.pid_ne_zero lists
  have listed := lists.lists distinct nonzero (by simp)
  have ready := ready_initial tree.forest.size buf garbage tree.root tree.children .nil
  have whole : 0 + tree.forest.size = tree.forest.size := Nat.zero_add _
  obtain ⟨after, done, _⟩ := forest_displayed small room nonzero tree.forest listed (Nat.le_of_eq whole)
    ready
  have relinked := forest_relinked small room nonzero tree.forest listed (Nat.le_of_eq whole) ready done
  refine ⟨_, display_of_rounds small room done, ?_⟩
  rw [List.map_map, List.range_eq_range']
  have printed := relinked.links
  rw [← printedLinks_false tree.forest.size buf 0 tree.forest]
  refine Iff.trans (Eq.congr_left printed) ((printedLinks_true_iff _ _ _ _).trans ?_)
  refine forall₂_congr fun k onPath => ?_
  rw [pendingLink]
  constructor
  · intro isZero notLast
    rwa [if_pos (listed.lastPath_related whole onPath notLast)] at isZero
  · intro isZero
    split
    · rename_i related
      exact isZero related.1
    · rfl

/-- The tree of the four processes of `fourProcesses`. -/
def fourForest : ProcessForest where
  root := 0
  children := fourTree.children
  distinct := fourTree.distinct
  nonzero := (List.nodup_cons.mp fourTree.distinct).1

/-- The link of process 7 to its parent is repaired. -/
theorem links_repaired_four :
    ListsFrom fourProcesses [] 0 fourForest.forest ∧
      ∃ lines, display MAXBUFFERSIZE fourProcesses 4 (fun _ => 0) = some lines ∧
        lines.map (fun line => line.entry.nextSiblingPid) = [0, 2, 0, 0] := by
  have lists : ListsFrom fourProcesses [] 0 fourForest.forest := by decide
  obtain ⟨lines, printed, repaired⟩ := links_repaired_iff fourForest MAXBUFFERSIZE fourProcesses
    (fun _ => 0) (by decide) (by decide) lists
  exact ⟨lists, lines, printed, repaired.mpr (by decide)⟩

/-- Processes 0 to 3, each the only child of the one before. Processes 2 and 3 name their parents as
    siblings. -/
def chainListing : Nat → Prinfo
  | 0 => ⟨0, 0, 1, 0, 0, 0, "swapper".toList⟩
  | 1 => ⟨0, 1, 2, 0, 1, 0, "init".toList⟩
  | 2 => ⟨1, 2, 3, 1, 1, 0, "sh".toList⟩
  | _ => ⟨2, 3, 0, 2, 1, 0, "ptree".toList⟩

theorem chain_distinct :
    (0 :: (Forest.node (1 : Int) (.node 2 (.node 3 .nil .nil) .nil) .nil).labels).Nodup := by
  decide

/-- The tree of those four processes. -/
def chainForest : ProcessForest where
  root := 0
  children := .node 1 (.node 2 (.node 3 .nil .nil) .nil) .nil
  distinct := chain_distinct
  nonzero := (List.nodup_cons.mp chain_distinct).1

/-- The link of process 2 to its parent is printed. -/
theorem link_not_repaired :
    ¬ ∀ (tree : ProcessForest) (cells : Nat) (buf : Nat → Prinfo) (garbage : Nat → Nat),
      tree.forest.size ≤ MAXPROCESSNUMBER → tree.forest.size ≤ cells →
      ListsFrom buf [] 0 tree.forest →
      ∀ lines, display cells buf tree.forest.size garbage = some lines →
        lines.map (fun line => line.entry.nextSiblingPid) =
          tree.forest.nextSiblings.map (fun sibling => sibling.getD 0) := by
  intro repaired
  have printed : (display MAXBUFFERSIZE chainListing 4 (fun _ => 0)).map
      (fun lines => lines.map fun line => line.entry.nextSiblingPid) = some [0, 0, 1, 0] := by decide
  obtain ⟨lines, displayed, links⟩ := Option.map_eq_some_iff.mp printed
  have right := repaired chainForest MAXBUFFERSIZE chainListing (fun _ => 0) (by decide) (by decide)
    (by decide) lines displayed
  rw [links] at right
  revert right
  decide

end KernelHacking.ProcessTree
