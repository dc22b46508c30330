/-
Module: KernelHacking.Proofs.DisplayTree
Layer: Proofs
Purpose: `display` prints the process tree. Between two rounds of its loop the stack is the path from the
  root to the process listed last, the sibling link of every process on the path that still has a
  sibling to come is intact, and no link above the place of the next process leads to a process still
  to come. The loop is followed subtree by subtree, along the forest that the buffer lists.
Imports: KernelHacking.Foundations.Forest, KernelHacking.Model.ProcessTree, Mathlib.Data.List.Range
Trusted boundary: none (fully proved)
Main exports: Lists, Consistent, Waiting, Closed, displayStep_enters, forest_displayed,
  display_prints_tree
Open obligations: none
-/
import KernelHacking.Foundations.Forest
import KernelHacking.Model.ProcessTree
import Mathlib.Data.List.Range

namespace KernelHacking.ProcessTree

/-! ### Listings -/

/-- The sibling link of entry `i`: the pid of the next sibling, and behind the last sibling any number
that is not the pid of a process listed later. -/
def SiblingLink (nr : Nat) (buf : Nat → Prinfo) (i : Nat) : Option Int → Prop
  | some pid => (buf i).nextSiblingPid = pid
  | none => ∀ k < nr, i < k → (buf i).nextSiblingPid ≠ (buf k).pid

instance (nr : Nat) (buf : Nat → Prinfo) (i : Nat) :
    ∀ sibling, Decidable (SiblingLink nr buf i sibling)
  | some pid => inferInstanceAs (Decidable ((buf i).nextSiblingPid = pid))
  | none => inferInstanceAs (Decidable (∀ k < nr, i < k → (buf i).nextSiblingPid ≠ (buf k).pid))

/-- From entry `i` on, the buffer lists the forest in preorder. -/
def Lists (nr : Nat) (buf : Nat → Prinfo) : Nat → Forest Int → Prop
  | _, .nil => True
  | i, .node pid children siblings =>
      (buf i).pid = pid ∧ (buf i).firstChildPid = children.head.getD 0 ∧
        SiblingLink nr buf i siblings.head ∧ Lists nr buf (i + 1) children ∧
          Lists nr buf (i + 1 + children.size) siblings

instance Lists.decidable (nr : Nat) (buf : Nat → Prinfo) :
    ∀ i forest, Decidable (Lists nr buf i forest)
  | _, .nil => isTrue trivial
  | i, .node _ children siblings =>
      have := Lists.decidable nr buf (i + 1) children
      have := Lists.decidable nr buf (i + 1 + children.size) siblings
      inferInstanceAs (Decidable (_ ∧ _ ∧ _ ∧ _ ∧ _))

/-- A process tree: the root is process 0, and the pids are pairwise distinct. -/
structure Tree where
  children : Forest Int
  distinct : (0 :: children.labels).Nodup

/-- The tree as a forest of one root. -/
def Tree.forest (tree : Tree) : Forest Int := .node 0 tree.children .nil

/-- The entries of a forest are its first root, then those of the children, then those of the
siblings. -/
theorem range'_node (i : Nat) (pid : Int) (children siblings : Forest Int) :
    List.range' i (Forest.node pid children siblings).size =
      i :: (List.range' (i + 1) children.size ++
        List.range' (i + 1 + children.size) siblings.size) := by
  rw [List.range'_append_1, ← List.range'_succ]
  congr 1
  simp only [Forest.size]
  omega

/-- The pids of a listed forest are those of the entries, in order. -/
theorem Lists.pids {nr i : Nat} {buf : Nat → Prinfo} {forest : Forest Int}
    (lists : Lists nr buf i forest) :
    (List.range' i forest.size).map (fun k => (buf k).pid) = forest.labels := by
  induction forest generalizing i with
  | nil => rfl
  | node pid children siblings ofChildren ofSiblings =>
      obtain ⟨here, _, _, inner, rest⟩ := lists
      rw [range'_node, List.map_cons, List.map_append, ofChildren inner, ofSiblings rest, here,
        Forest.labels]

/-- The first root of a listed forest is the entry the listing starts with. -/
theorem Lists.head {nr i : Nat} {buf : Nat → Prinfo} {forest : Forest Int}
    (lists : Lists nr buf i forest) (nonempty : forest ≠ .nil) :
    forest.head = some (buf i).pid := by
  cases forest with
  | nil => exact absurd rfl nonempty
  | node pid children siblings => rw [Forest.head, lists.1]

/-! ### One round of the loop -/

/-- Of the entries only sibling links have changed, and the stack ascends through entries before
`i`. -/
structure Sound (source : Nat → Prinfo) (i : Nat) (frame : Frame) : Prop where
  fields : ∀ k, frame.buf k = { source k with nextSiblingPid := (frame.buf k).nextSiblingPid }
  top_le : frame.top ≤ i
  below : ∀ level, level < frame.top → frame.stack level < i
  ascending : ∀ low high, low < high → high < frame.top → frame.stack low < frame.stack high

/-- What holds before the round of entry `i`: the frame is sound, and the entries from `i` on are
untouched. -/
structure Consistent (source : Nat → Prinfo) (i : Nat) (frame : Frame) : Prop
    extends Sound source i frame where
  fresh : ∀ k, i ≤ k → frame.buf k = source k

/-- Process `i` belongs at `depth`: it is the first child of the process on top of the stack, or the
next sibling of the process at `depth`, and of no process above it. -/
inductive Waiting (source : Nat → Prinfo) (i depth : Nat) (frame : Frame) : Prop where
  | child (level : frame.top = depth)
      (parent : 0 < depth →
        (source (frame.stack (depth - 1))).firstChildPid = (source i).pid)
  | sibling (deeper : depth < frame.top)
      (notChild : (source (frame.stack (frame.top - 1))).firstChildPid ≠ (source i).pid)
      (link : (frame.buf (frame.stack depth)).nextSiblingPid = (source i).pid)
      (closed : ∀ level, depth < level → level < frame.top →
        (frame.buf (frame.stack level)).nextSiblingPid ≠ (source i).pid)

/-- The buffers differ in the sibling links of the processes above `depth` on the stack only. -/
structure Cleared (stack : Nat → Nat) (depth top : Nat) (before after : Nat → Prinfo) : Prop where
  outside : ∀ k, (∀ level, depth < level → level < top → k ≠ stack level) → after k = before k
  fields : ∀ k, after k = { before k with nextSiblingPid := (after k).nextSiblingPid }

/-- The `while` loop stops at the process whose sibling link names `pid`. -/
theorem popToSibling_stops {cells : Nat} {pid : Int} {stack : Nat → Nat} {depth top : Nat}
    (buf : Nat → Prinfo) (deeper : depth < top) (fits : top ≤ MAXPROCESSNUMBER)
    (inside : ∀ level, level < top → stack level < cells)
    (ascending : ∀ low high, low < high → high < top → stack low < stack high)
    (link : (buf (stack depth)).nextSiblingPid = pid)
    (closed : ∀ level, depth < level → level < top → (buf (stack level)).nextSiblingPid ≠ pid) :
    ∃ after, popToSibling cells pid stack top buf = some (after, depth + 1) ∧
      Cleared stack depth top buf after := by
  induction top generalizing buf with
  | zero => exact absurd deeper (Nat.not_lt_zero depth)
  | succ top inductionHypothesis =>
      have readStack : read MAXPROCESSNUMBER stack top = some (stack top) := read_of_lt fits
      have readBuf : read cells buf (stack top) = some (buf (stack top)) :=
        read_of_lt (inside top (Nat.lt_succ_self top))
      by_cases reached : depth = top
      · subst reached
        refine ⟨buf, ?_, ⟨fun k _ => rfl, fun k => rfl⟩⟩
        simp [popToSibling, readStack, readBuf, link]
      · have above : depth < top := by omega
        have differs := closed top above (Nat.lt_succ_self top)
        -- the entry on top is cleared, the ones below it are other entries
        have untouched : ∀ level, level < top →
            clearSibling buf (stack top) (stack level) = buf (stack level) := by
          intro level lower
          exact Function.update_of_ne (Nat.ne_of_lt (ascending level top lower (by omega))) _ _
        obtain ⟨after, popped, cleared⟩ := inductionHypothesis
          (clearSibling buf (stack top)) above (by omega)
          (fun level lower => inside level (by omega))
          (fun low high less lower => ascending low high less (by omega))
          (by rw [untouched depth above]; exact link)
          (fun level higher lower => by
            rw [untouched level lower]
            exact closed level higher (by omega))
        refine ⟨after, ?_, ?_, ?_⟩
        · simp [popToSibling, readStack, readBuf, Ne.symm differs, popped]
        · intro k other
          rw [cleared.outside k fun level higher lower => other level higher (by omega)]
          exact Function.update_of_ne (other top above (by omega)) _ _
        · intro k
          rw [cleared.fields k, clearSibling]
          by_cases top_k : k = stack top
          · subst top_k
            rw [Function.update_self]
          · rw [Function.update_of_ne top_k]

/-- Whether process `i` is a first child is read off the entry on top of the stack. -/
theorem isFirstChild_eq {source : Nat → Prinfo} {cells i : Nat} {frame : Frame}
    (sound : Sound source i frame) (fits : i < MAXPROCESSNUMBER) (room : i < cells) :
    isFirstChild cells frame i = some (decide (frame.top = 0 ∨
      (source i).pid = (source (frame.stack (frame.top - 1))).firstChildPid)) := by
  obtain ⟨fields, top_le, below, _⟩ := sound
  by_cases empty : frame.top = 0
  · simp [isFirstChild, empty]
  · have lower := below (frame.top - 1) (by omega)
    have readStack : read MAXPROCESSNUMBER frame.stack (frame.top - 1) =
        some (frame.stack (frame.top - 1)) := read_of_lt (by omega)
    have readTop : read cells frame.buf (frame.stack (frame.top - 1)) =
        some (frame.buf (frame.stack (frame.top - 1))) := read_of_lt (by omega)
    have samePid : (frame.buf i).pid = (source i).pid := by rw [fields i]
    have sameChild : (frame.buf (frame.stack (frame.top - 1))).firstChildPid =
        (source (frame.stack (frame.top - 1))).firstChildPid := by
      rw [fields (frame.stack (frame.top - 1))]
    simp [isFirstChild, empty, read_of_lt room, readStack, readTop, samePid, sameChild]

/-- The process goes to its place on the stack, and only links above that place are cleared. -/
theorem place_eq {source : Nat → Prinfo} {cells i depth : Nat} {frame : Frame}
    (sound : Sound source i frame) (waiting : Waiting source i depth frame)
    (fits : i < MAXPROCESSNUMBER) (room : i < cells) :
    ∃ after, place cells frame i = some
        { frame with buf := after, stack := Function.update frame.stack depth i, top := depth + 1 } ∧
      Cleared frame.stack depth frame.top frame.buf after := by
  have first := isFirstChild_eq sound fits room
  obtain ⟨fields, top_le, below, ascending⟩ := sound
  cases waiting with
  | child level parent =>
      subst level
      refine ⟨frame.buf, ?_, ⟨fun k _ => rfl, fun k => rfl⟩⟩
      have isFirst : frame.top = 0 ∨
          (source i).pid = (source (frame.stack (frame.top - 1))).firstChildPid :=
        (Nat.eq_zero_or_pos frame.top).imp id fun positive => (parent positive).symm
      have push : write MAXPROCESSNUMBER frame.stack frame.top i =
          some (Function.update frame.stack frame.top i) := write_of_lt (by omega)
      simp [place, first, isFirst, push]
  | sibling deeper notChild link closed =>
      have notFirst : ¬(frame.top = 0 ∨
          (source i).pid = (source (frame.stack (frame.top - 1))).firstChildPid) := by
        rintro (empty | same)
        · omega
        · exact notChild same.symm
      have samePid : (frame.buf i).pid = (source i).pid := by rw [fields i]
      obtain ⟨after, popped, cleared⟩ := popToSibling_stops frame.buf deeper (by omega)
        (fun level lower => Nat.lt_trans (below level lower) room) ascending link closed
      have replace : write MAXPROCESSNUMBER frame.stack depth i =
          some (Function.update frame.stack depth i) := write_of_lt (by omega)
      refine ⟨after, ?_, cleared⟩
      simp [place, first, notFirst, read_of_lt room, samePid, popped, replace]

/-- The sibling link of entry `i` names the next entry, or that entry is a child of entry `i`. -/
def NextRelated (nr : Nat) (source : Nat → Prinfo) (i : Nat) : Prop :=
  i + 1 < nr ∧ ((source i).nextSiblingPid = (source (i + 1)).pid ∨
    (source i).firstChildPid = (source (i + 1)).pid)

instance (nr : Nat) (source : Nat → Prinfo) (i : Nat) : Decidable (NextRelated nr source i) :=
  inferInstanceAs (Decidable (_ ∧ _))

/-- The check of the next entry, on entries that are still untouched. -/
theorem isStale_eq {source buf : Nat → Prinfo} {cells nr i : Nat} (room : nr ≤ cells) (listed : i < nr)
    (here : buf i = source i) (next : buf (i + 1) = source (i + 1)) :
    isStale cells nr buf i = some (decide (¬NextRelated nr source i)) := by
  by_cases last : i + 1 = nr
  · simp [isStale, NextRelated, last]
  · have more : i + 1 < nr := by omega
    have inside : i + 1 < cells := Nat.lt_of_lt_of_le more room
    simp [isStale, NextRelated, last, more, here, next, read_of_lt inside,
      read_of_lt (Nat.lt_of_succ_lt inside)]

/-- The path up to `depth` and its sibling links are as before. -/
def SamePath (depth : Nat) (before after : Frame) : Prop :=
  ∀ level, level < depth → after.stack level = before.stack level ∧
    after.buf (before.stack level) = before.buf (before.stack level)

theorem SamePath.trans {depth : Nat} {first second third : Frame}
    (before : SamePath depth first second) (after : SamePath depth second third) :
    SamePath depth first third := by
  intro level lower
  obtain ⟨sameStack, sameBuf⟩ := before level lower
  obtain ⟨sameStack', sameBuf'⟩ := after level lower
  rw [sameStack] at sameStack' sameBuf'
  exact ⟨sameStack', sameBuf'.trans sameBuf⟩

theorem SamePath.mono {depth deeper : Nat} {before after : Frame} (less : depth ≤ deeper)
    (same : SamePath deeper before after) : SamePath depth before after :=
  fun level lower => same level (Nat.lt_of_lt_of_le lower less)

/-- What one round does to the frame: process `i` is at `depth` on the stack, and the path above it and
the links of that path are as before. -/
structure Enters (source : Nat → Prinfo) (nr i depth : Nat) (before after : Frame) : Prop where
  consistent : Consistent source (i + 1) after
  top_eq : after.top = depth + 1
  placed : after.stack depth = i
  path : SamePath depth before after
  link : (after.buf i).nextSiblingPid = 0 ∨
    (after.buf i).nextSiblingPid = (source i).nextSiblingPid
  kept : NextRelated nr source i → (after.buf i).nextSiblingPid = (source i).nextSiblingPid
  tabs : after.tabcnt = Function.update before.tabcnt i depth

/-- The buffer as the stale-link check leaves it. -/
def checked (nr : Nat) (source buf : Nat → Prinfo) (i : Nat) : Nat → Prinfo :=
  if NextRelated nr source i then buf else clearSibling buf i

theorem checked_of_ne {nr i k : Nat} {source buf : Nat → Prinfo} (other : k ≠ i) :
    checked nr source buf i k = buf k := by
  rw [checked]
  split
  · rfl
  · exact Function.update_of_ne other _ _

theorem checked_fields {nr i : Nat} {source buf : Nat → Prinfo} (k : Nat) :
    checked nr source buf i k =
      { buf k with nextSiblingPid := (checked nr source buf i k).nextSiblingPid } := by
  by_cases here : k = i
  · subst here
    rw [checked]
    split
    · rfl
    · simp [clearSibling]
  · rw [checked_of_ne here]

theorem checked_link {nr i : Nat} {source buf : Nat → Prinfo} :
    (checked nr source buf i i).nextSiblingPid =
      if NextRelated nr source i then (buf i).nextSiblingPid else 0 := by
  rw [checked]
  split
  · rfl
  · simp [clearSibling]

/-- Putting entry `i` on the stack, anywhere up to its top, keeps the frame sound. -/
theorem Sound.push {source : Nat → Prinfo} {i depth : Nat} {frame : Frame}
    (sound : Sound source i frame) (depth_le : depth ≤ frame.top) {buf : Nat → Prinfo}
    {tabcnt : Nat → Nat}
    (fields : ∀ k, buf k = { source k with nextSiblingPid := (buf k).nextSiblingPid }) :
    Sound source (i + 1) ⟨buf, Function.update frame.stack depth i, tabcnt, depth + 1⟩ := by
  obtain ⟨_, top_le, below, ascending⟩ := sound
  refine ⟨fields, Nat.succ_le_succ (Nat.le_trans depth_le top_le), ?_, ?_⟩
  · intro level (lower : level < depth + 1)
    dsimp only
    by_cases here : level = depth
    · rw [here, Function.update_self]
      exact Nat.lt_succ_self i
    · rw [Function.update_of_ne here]
      exact Nat.lt_succ_of_lt (below level (by omega))
  · intro low high less (lower : high < depth + 1)
    have lowNe : low ≠ depth := by omega
    dsimp only
    rw [Function.update_of_ne lowNe]
    by_cases here : high = depth
    · rw [here, Function.update_self]
      exact below low (by omega)
    · rw [Function.update_of_ne here]
      exact ascending low high less (by omega)

theorem Sound.checked {source : Nat → Prinfo} {nr i : Nat} {frame : Frame}
    (sound : Sound source i frame) :
    Sound source i { frame with buf := checked nr source frame.buf i } := by
  refine ⟨fun k => ?_, sound.top_le, sound.below, sound.ascending⟩
  exact (checked_fields k).trans (by rw [sound.fields k])

theorem Waiting.checked {source : Nat → Prinfo} {nr i depth : Nat} {frame : Frame}
    (sound : Sound source i frame) (waiting : Waiting source i depth frame) :
    Waiting source i depth { frame with buf := checked nr source frame.buf i } := by
  have onStack : ∀ level, level < frame.top →
      ProcessTree.checked nr source frame.buf i (frame.stack level) =
        frame.buf (frame.stack level) := by
    intro level lower
    exact checked_of_ne (Nat.ne_of_lt (sound.below level lower))
  cases waiting with
  | child level parent => exact .child level parent
  | sibling deeper notChild link closed =>
      refine .sibling deeper notChild ?_ fun level higher lower => ?_
      · dsimp only
        rw [onStack depth deeper, link]
      · dsimp only
        rw [onStack level lower]
        exact closed level higher lower

theorem Waiting.depth_le {source : Nat → Prinfo} {i depth : Nat} {frame : Frame}
    (waiting : Waiting source i depth frame) : depth ≤ frame.top := by
  cases waiting with
  | child level parent => exact Nat.le_of_eq level.symm
  | sibling deeper notChild link closed => exact Nat.le_of_lt deeper

/-- The rounds of the loop in terms of `checked`. -/
theorem displayStep_eq {source : Nat → Prinfo} {cells nr i : Nat} {frame placed : Frame}
    (fresh : ∀ k, i ≤ k → frame.buf k = source k) (small : nr ≤ MAXPROCESSNUMBER)
    (room : nr ≤ cells) (listed : i < nr)
    (done : place cells { frame with buf := checked nr source frame.buf i } i = some placed) :
    displayStep cells nr frame i =
      some { placed with tabcnt := Function.update placed.tabcnt i (placed.top - 1) } := by
  have stale := isStale_eq room listed (fresh i (Nat.le_refl i)) (fresh (i + 1) (Nat.le_succ i))
  have readEntry : read cells frame.buf i = some (frame.buf i) := read_of_lt (by omega)
  have writeTabs : write MAXPROCESSNUMBER placed.tabcnt i (placed.top - 1) =
      some (Function.update placed.tabcnt i (placed.top - 1)) := write_of_lt (by omega)
  by_cases related : NextRelated nr source i
  · rw [checked, if_pos related] at done
    simp [displayStep, stale, related, done, writeTabs]
  · rw [checked, if_neg related] at done
    simp [displayStep, stale, related, readEntry, done, writeTabs]

/-- One round of the loop, for a process that belongs at `depth`. -/
theorem displayStep_enters {source : Nat → Prinfo} {cells nr i depth : Nat} {frame : Frame}
    (consistent : Consistent source i frame) (waiting : Waiting source i depth frame)
    (small : nr ≤ MAXPROCESSNUMBER) (room : nr ≤ cells) (listed : i < nr) :
    ∃ after, displayStep cells nr frame i = some after ∧ Enters source nr i depth frame after := by
  obtain ⟨sound, fresh⟩ := consistent
  obtain ⟨buf, placed, outside, fields⟩ := place_eq sound.checked (waiting.checked sound)
    (Nat.lt_of_lt_of_le listed small) (Nat.lt_of_lt_of_le listed room)
  refine ⟨_, displayStep_eq fresh small room listed placed, ?_⟩
  have depth_le := waiting.depth_le
  -- the entries from `i` on are not on the stack, and those up to `depth` are not above it
  have later : ∀ k, i ≤ k → buf k = checked nr source frame.buf i k := by
    intro k above
    exact outside k fun level _ lower =>
      Nat.ne_of_gt (Nat.lt_of_lt_of_le (sound.below level lower) above)
  have earlier : ∀ level, level < depth → buf (frame.stack level) = frame.buf (frame.stack level) := by
    intro level lower
    rw [outside _ fun higher above inside =>
      Nat.ne_of_lt (sound.ascending level higher (by omega) inside)]
    exact checked_of_ne (Nat.ne_of_lt (sound.below level (by omega)))
  have link : (buf i).nextSiblingPid =
      if NextRelated nr source i then (source i).nextSiblingPid else 0 := by
    rw [later i (Nat.le_refl i), checked_link, fresh i (Nat.le_refl i)]
  constructor
  case consistent =>
    refine ⟨sound.push waiting.depth_le fun k => ?_, ?_⟩
    · exact (fields k).trans (by rw [sound.checked.fields k])
    · intro k above
      have other : k ≠ i := Nat.ne_of_gt above
      exact (later k (Nat.le_of_lt above)).trans
        ((checked_of_ne other).trans (fresh k (Nat.le_of_lt above)))
  case top_eq => rfl
  case placed => exact Function.update_self _ _ _
  case path =>
    intro level lower
    exact ⟨Function.update_of_ne (Nat.ne_of_lt lower) _ _, earlier level lower⟩
  case link =>
    dsimp only
    rw [link]
    split
    · exact Or.inr rfl
    · exact Or.inl rfl
  case kept =>
    intro related
    exact link.trans (if_pos related)
  case tabs => rfl

/-! ### The whole loop -/

/-- What the rounds of a subtree or of several siblings leave behind, `i` being the next entry: nothing
from `depth` on on the stack has a sibling to come, and the process listed last has no children. -/
structure Closed (source : Nat → Prinfo) (nr i depth : Nat) (frame : Frame) : Prop where
  consistent : Consistent source i frame
  depth_le : depth ≤ frame.top
  noSibling : ∀ level, depth ≤ level → level < frame.top → ∀ k, i ≤ k → k < nr →
    (frame.buf (frame.stack level)).nextSiblingPid ≠ (source k).pid
  noChild : (source (frame.stack (frame.top - 1))).firstChildPid = 0

/-- The frame is ready for the rounds of a forest whose roots belong at `depth`. -/
def Ready (source : Nat → Prinfo) (nr i depth : Nat) (frame : Frame) : Forest Int → Prop
  | .nil => Closed source nr i depth frame
  | .node _ _ _ => Consistent source i frame ∧ Waiting source i depth frame

/-- The rounds of the loop for `count` entries from `i` on. -/
def rounds (cells nr : Nat) (frame : Frame) (i count : Nat) : Option Frame :=
  (List.range' i count).foldlM (displayStep cells nr) frame

theorem rounds_add {cells nr i first second : Nat} {frame middle : Frame}
    (done : rounds cells nr frame i first = some middle) :
    rounds cells nr frame i (first + second) = rounds cells nr middle (i + first) second := by
  rw [rounds, ← List.range'_append_1, List.foldlM_append]
  rw [rounds] at done
  rw [done]
  rfl

theorem rounds_one {cells nr i : Nat} {frame after : Frame}
    (done : displayStep cells nr frame i = some after) :
    rounds cells nr frame i 1 = some after := by
  simp [rounds, done]

/-- What the rounds of a forest do. -/
structure Displayed (source : Nat → Prinfo) (nr i depth : Nat) (forest : Forest Int)
    (before after : Frame) : Prop where
  closed : Closed source nr (i + forest.size) depth after
  path : SamePath depth before after
  tabs : (List.range' i forest.size).map after.tabcnt = forest.depths depth
  others : ∀ k, k < i → after.tabcnt k = before.tabcnt k

section Loop

variable {source : Nat → Prinfo} {cells nr i depth : Nat} {frame entered : Frame} {pid : Int}
  {children siblings : Forest Int}

/-- Behind a process come its children. -/
theorem Enters.ready_children (enters : Enters source nr i depth frame entered)
    (lists : Lists nr source i (.node pid children siblings)) :
    Ready source nr (i + 1) (depth + 1) entered children := by
  obtain ⟨_, firstChild, _, inner, _⟩ := lists
  have topIs : entered.stack (entered.top - 1) = i := by rw [enters.top_eq]; exact enters.placed
  cases children with
  | nil =>
      refine ⟨enters.consistent, Nat.le_of_eq enters.top_eq.symm, ?_, ?_⟩
      · intro level higher lower
        rw [enters.top_eq] at lower
        omega
      · rw [topIs, firstChild]
        rfl
  | node child grandchildren others =>
      refine ⟨enters.consistent, .child enters.top_eq fun _ => ?_⟩
      rw [Nat.add_sub_cancel, enters.placed, firstChild, inner.1]
      rfl

/-- The entry behind a process with a sibling to come is a child or that sibling. -/
theorem Lists.nextRelated (lists : Lists nr source i (.node pid children siblings))
    (more : siblings ≠ .nil) (listed : i + 1 + children.size < nr) : NextRelated nr source i := by
  obtain ⟨_, firstChild, link, inner, rest⟩ := lists
  refine ⟨by omega, ?_⟩
  cases children with
  | nil =>
      rw [rest.head more] at link
      exact Or.inl link
  | node child grandchildren others =>
      refine Or.inr ?_
      rw [firstChild, inner.1]
      rfl

/-- Behind the children of a process come its siblings. -/
theorem Enters.ready_siblings {after : Frame} (enters : Enters source nr i depth frame entered)
    (lists : Lists nr source i (.node pid children siblings))
    (nonzero : ∀ k, 0 < k → k < nr → (source k).pid ≠ 0)
    (listed : i + 1 + children.size + siblings.size ≤ nr)
    (displayed : Displayed source nr (i + 1) (depth + 1) children entered after) :
    Ready source nr (i + 1 + children.size) depth after siblings := by
  obtain ⟨closed, path, _, _⟩ := displayed
  obtain ⟨sameStack, sameBuf⟩ := path depth (Nat.lt_succ_self depth)
  rw [enters.placed] at sameStack sameBuf
  cases siblings with
  | nil =>
      refine ⟨closed.consistent, Nat.le_of_succ_le closed.depth_le, ?_, closed.noChild⟩
      intro level higher lower k later inside
      by_cases here : level = depth
      · rw [here, sameStack, sameBuf]
        rcases enters.link with cleared | kept
        · rw [cleared]
          exact (nonzero k (by omega) inside).symm
        · rw [kept]
          exact lists.2.2.1 k inside (by omega)
      · exact closed.noSibling level (by omega) lower k later inside
  | node sibling nephews others =>
      have inside : i + 1 + children.size < nr := by
        simp only [Forest.size] at listed
        omega
      have related := lists.nextRelated (by simp) inside
      refine ⟨closed.consistent, .sibling closed.depth_le ?_ ?_ ?_⟩
      · rw [closed.noChild]
        exact (nonzero _ (by omega) inside).symm
      · rw [sameStack, sameBuf, enters.kept related, lists.2.2.2.2.1]
        exact lists.2.2.1
      · intro level higher lower
        exact closed.noSibling level higher lower _ (Nat.le_refl _) inside

/-- The round of a process, those of its children and those of its siblings, taken together. -/
theorem Enters.displayed {inner after : Frame} (enters : Enters source nr i depth frame entered)
    (innerDone : Displayed source nr (i + 1) (depth + 1) children entered inner)
    (restDone : Displayed source nr (i + 1 + children.size) depth siblings inner after) :
    Displayed source nr i depth (.node pid children siblings) frame after := by
  obtain ⟨_, innerPath, innerTabs, innerOthers⟩ := innerDone
  obtain ⟨closed, path, tabs, others⟩ := restDone
  have sizeIs : i + (Forest.node pid children siblings).size =
      i + 1 + children.size + siblings.size := by
    simp only [Forest.size]
    omega
  refine ⟨?_, ?_, ?_, ?_⟩
  · rw [sizeIs]
    exact closed
  · exact (enters.path.trans (innerPath.mono (Nat.le_succ depth))).trans path
  · -- later rounds leave the tabs of earlier lines alone
    have here : after.tabcnt i = depth := by
      rw [others i (by omega), innerOthers i (Nat.lt_succ_self i), enters.tabs, Function.update_self]
    have inChildren : (List.range' (i + 1) children.size).map after.tabcnt =
        (List.range' (i + 1) children.size).map inner.tabcnt := by
      refine List.map_congr_left fun k listed => others k ?_
      rw [List.mem_range'_1] at listed
      exact listed.2
    rw [range'_node, List.map_cons, List.map_append, here, inChildren, innerTabs, tabs, Forest.depths]
  · intro k lower
    rw [others k (by omega), innerOthers k (by omega), enters.tabs,
      Function.update_of_ne (Nat.ne_of_lt lower)]

end Loop

/-- The rounds of a listed forest print every process at its depth. -/
theorem forest_displayed {source : Nat → Prinfo} {cells nr : Nat} (small : nr ≤ MAXPROCESSNUMBER)
    (room : nr ≤ cells) (nonzero : ∀ k, 0 < k → k < nr → (source k).pid ≠ 0)
    (forest : Forest Int) {i depth : Nat} {frame : Frame} (lists : Lists nr source i forest)
    (listed : i + forest.size ≤ nr) (ready : Ready source nr i depth frame forest) :
    ∃ after, rounds cells nr frame i forest.size = some after ∧
      Displayed source nr i depth forest frame after := by
  induction forest generalizing i depth frame with
  | nil => exact ⟨frame, rfl, ready, fun level _ => ⟨rfl, rfl⟩, rfl, fun k _ => rfl⟩
  | node pid children siblings ofChildren ofSiblings =>
      simp only [Forest.size] at listed
      obtain ⟨entered, step, enters⟩ :=
        displayStep_enters ready.1 ready.2 small room (by omega)
      obtain ⟨inner, innerRounds, innerDone⟩ := ofChildren lists.2.2.2.1 (by omega)
        (enters.ready_children lists)
      obtain ⟨after, restRounds, restDone⟩ := ofSiblings lists.2.2.2.2 (by omega)
        (enters.ready_siblings lists nonzero (by omega) innerDone)
      refine ⟨after, ?_, ?_⟩
      · rw [Forest.size, Nat.add_assoc, rounds_add (rounds_one step), rounds_add innerRounds,
          restRounds]
      · exact enters.displayed innerDone restDone

/-! ### The printed lines -/

theorem mapM_eq_some_map {α β : Type} {action : α → Option β} {value : α → β} {list : List α}
    (succeeds : ∀ element ∈ list, action element = some (value element)) :
    list.mapM action = some (list.map value) := by
  induction list with
  | nil => rfl
  | cons element rest inductionHypothesis =>
      simp only [List.mem_cons, forall_eq_or_imp] at succeeds
      simp [succeeds.1, inductionHypothesis succeeds.2]

/-- The printing loop prints the tab counts and the entries. -/
theorem printLines_eq {cells nr : Nat} {frame : Frame} (small : nr ≤ MAXPROCESSNUMBER)
    (room : nr ≤ cells) : printLines cells nr frame =
      some ((List.range nr).map fun i => ⟨frame.tabcnt i, frame.buf i⟩) := by
  refine mapM_eq_some_map fun i listed => ?_
  have inside := List.mem_range.mp listed
  simp [read_of_lt (Nat.lt_of_lt_of_le inside small), read_of_lt (Nat.lt_of_lt_of_le inside room)]

/-- What `display` prints is what the rounds of the loop leave. -/
theorem display_of_rounds {cells nr : Nat} {buf : Nat → Prinfo} {garbage : Nat → Nat} {after : Frame}
    (small : nr ≤ MAXPROCESSNUMBER) (room : nr ≤ cells)
    (done : rounds cells nr ⟨buf, garbage, fun _ => 0, 0⟩ 0 nr = some after) :
    display cells buf nr garbage =
      some ((List.range nr).map fun i => ⟨after.tabcnt i, after.buf i⟩) := by
  rw [rounds, ← List.range_eq_range'] at done
  rw [display, done]
  exact printLines_eq small room

/-- The loop starts with an empty stack. -/
theorem ready_initial (nr : Nat) (buf : Nat → Prinfo) (garbage : Nat → Nat) (pid : Int)
    (children siblings : Forest Int) :
    Ready buf nr 0 0 ⟨buf, garbage, fun _ => 0, 0⟩ (.node pid children siblings) := by
  refine ⟨⟨⟨fun k => rfl, Nat.le_refl 0, ?_, ?_⟩, fun k _ => rfl⟩, .child rfl ?_⟩
  · intro level lower
    exact absurd lower (Nat.not_lt_zero level)
  · intro low high _ lower
    exact absurd lower (Nat.not_lt_zero high)
  · intro positive
    exact absurd positive (Nat.lt_irrefl 0)

/-- Behind the root come the processes below it. -/
theorem pid_mem_of_pids {buf : Nat → Prinfo} {root : Int} {labels : List Int} {size k : Nat}
    (pids : (List.range' 0 size).map (fun k => (buf k).pid) = root :: labels) (positive : 0 < k)
    (inside : k < size) : (buf k).pid ∈ labels := by
  obtain ⟨rest, rfl⟩ : ∃ rest, size = rest + 1 := ⟨size - 1, by omega⟩
  rw [List.range'_succ, List.map_cons, List.cons.injEq] at pids
  rw [← pids.2, List.mem_map]
  exact ⟨k, List.mem_range'_1.mpr (by omega), rfl⟩

/-- In the listing of a tree only the root has pid 0. -/
theorem Tree.pid_ne_zero {tree : Tree} {nr : Nat} {buf : Nat → Prinfo}
    (lists : Lists nr buf 0 tree.forest) :
    ∀ k, 0 < k → k < tree.forest.size → (buf k).pid ≠ 0 := by
  intro k positive inside isZero
  have labels : tree.forest.labels = 0 :: tree.children.labels := by
    simp [Tree.forest, Forest.labels]
  have later := pid_mem_of_pids (lists.pids.trans labels) positive inside
  rw [isZero] at later
  exact (List.nodup_cons.mp tree.distinct).1 later

/-- `display` prints every process of the tree at its depth, and the printed lines determine the
tree. -/
theorem display_prints_tree (tree : Tree) (cells : Nat) (buf : Nat → Prinfo) (garbage : Nat → Nat)
    (small : tree.forest.size ≤ MAXPROCESSNUMBER) (room : tree.forest.size ≤ cells)
    (lists : Lists tree.forest.size buf 0 tree.forest) :
    ∃ lines, display cells buf tree.forest.size garbage = some lines ∧
      lines.map (fun line => line.tabs) = tree.forest.depths 0 ∧
      lines.map (fun line => line.entry.pid) = tree.forest.labels ∧
      ∀ other : Tree, other.forest.depths 0 = lines.map (fun line => line.tabs) →
        other.forest.labels = lines.map (fun line => line.entry.pid) →
        other.forest = tree.forest := by
  obtain ⟨after, done, displayed⟩ := forest_displayed small room (Tree.pid_ne_zero lists) tree.forest
    lists (Nat.le_of_eq (Nat.zero_add _)) (ready_initial _ buf garbage 0 tree.children .nil)
  have samePids : (List.range tree.forest.size).map (fun i => (after.buf i).pid) =
      tree.forest.labels := by
    rw [← lists.pids, List.range_eq_range']
    refine List.map_congr_left fun k _ => ?_
    rw [displayed.closed.consistent.fields k]
  have tabs : (List.range tree.forest.size).map after.tabcnt = tree.forest.depths 0 := by
    rw [← displayed.tabs, List.range_eq_range']
  refine ⟨_, display_of_rounds small room done, ?_, ?_, ?_⟩
  · rw [List.map_map]
    exact tabs
  · rw [List.map_map]
    exact samePids
  · intro other sameDepths sameLabels
    rw [List.map_map] at sameDepths sameLabels
    exact Forest.eq_of_depths (sameLabels.trans samePids) (sameDepths.trans tabs)

/-- A listing of four processes, the root with two children and one grandchild. The last siblings name
the root or a process that does not exist. -/
def fourProcesses : Nat → Prinfo
  | 0 => ⟨0, 0, 1, 0, 0, 0, "swapper".toList⟩
  | 1 => ⟨0, 1, 7, 2, 1, 0, "init".toList⟩
  | 2 => ⟨1, 7, 0, 1, 1, 1000, "sh".toList⟩
  | _ => ⟨0, 2, 0, 0, 1, 0, "kthreadd".toList⟩

/-- The tree of those four processes. -/
def fourTree : Tree where
  children := .node 1 (.node 7 .nil .nil) (.node 2 .nil .nil)
  distinct := by decide

theorem display_prints_four :
    ∃ lines, display MAXBUFFERSIZE fourProcesses 4 (fun _ => 0) = some lines ∧
      lines.map (fun line => line.tabs) = [0, 1, 2, 1] := by
  obtain ⟨lines, printed, tabs, _⟩ := display_prints_tree fourTree MAXBUFFERSIZE fourProcesses
    (fun _ => 0) (by decide) (by decide) (by decide)
  exact ⟨lines, printed, tabs⟩

end KernelHacking.ProcessTree
