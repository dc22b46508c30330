/-
Module: KernelHacking.Foundations.Census
Layer: Foundations
Purpose: Counting threads and steps. `census` adds up a weight over the program counters of a family
  of threads; one step changes one summand (`census_step`) or none (`census_step_of_ne`). Together with
  the number of times a statement was executed, read off the trace, such sums give the conservation
  laws of a run: posts and waits of a semaphore (`Run.semaphore`) and threads that entered and left a
  stretch of code (`Run.flow`).
Imports: Mathlib.Algebra.BigOperators.Group.Finset.Basic, Mathlib.Data.Fintype.BigOperators,
  Mathlib.Algebra.Order.BigOperators.Group.Finset, KernelHacking.Foundations.Threads
Trusted boundary: none (fully proved)
Main exports: sum_change, sum_le_card, eq_one_of_sum_eq_card, census, census_step, census_step_of_ne,
  countP_le_sum, sum_le_countP, waitsOn, postsTo, Run.semaphore, Run.flow
Open obligations: none
-/
import Mathlib.Algebra.BigOperators.Group.Finset.Basic
import Mathlib.Algebra.Order.BigOperators.Group.Finset
import Mathlib.Data.Fintype.BigOperators
import KernelHacking.Foundations.Threads

namespace KernelHacking.Threads

section Sums

variable {Index : Type} [Fintype Index]

/-- Two sums that differ in one summand differ by what that summand differs. -/
theorem sum_change (old new : Index → Nat) (index : Index)
    (same : ∀ other, other ≠ index → new other = old other) :
    (∑ i, new i) + old index = (∑ i, old i) + new index := by
  classical
  have rest : ∑ i ∈ Finset.univ.erase index, new i = ∑ i ∈ Finset.univ.erase index, old i :=
    Finset.sum_congr rfl fun other member => same other (Finset.ne_of_mem_erase member)
  have splitNew := Finset.add_sum_erase Finset.univ new (Finset.mem_univ index)
  have splitOld := Finset.add_sum_erase Finset.univ old (Finset.mem_univ index)
  omega

/-- A sum of summands that are at most one is at most the number of summands. -/
theorem sum_le_card {weight : Index → Nat} (atMostOne : ∀ index, weight index ≤ 1) :
    ∑ index, weight index ≤ Fintype.card Index := by
  calc ∑ index, weight index
      ≤ ∑ _ : Index, 1 := Finset.sum_le_sum fun index _ => atMostOne index
    _ = Fintype.card Index := (Finset.card_eq_sum_ones Finset.univ).symm

/-- If such a sum reaches the number of summands, every summand is one. -/
theorem eq_one_of_sum_eq_card {weight : Index → Nat} (atMostOne : ∀ index, weight index ≤ 1)
    (full : Fintype.card Index ≤ ∑ index, weight index) (index : Index) : weight index = 1 := by
  by_contra notOne
  have below : weight index < 1 := Nat.lt_of_le_of_ne (atMostOne index) notOne
  have strict : ∑ other, weight other < ∑ _ : Index, 1 :=
    Finset.sum_lt_sum (fun other _ => atMostOne other) ⟨index, Finset.mem_univ index, below⟩
  rw [← Finset.card_eq_sum_ones, Finset.card_univ] at strict
  omega

end Sums

variable {Thread Mutex Semaphore Shared Index : Type} {Pc : Thread → Type}
variable [DecidableEq Thread] [DecidableEq Mutex] [DecidableEq Semaphore] [Fintype Index]

/-- The total weight of a family of threads, each weighed by where it stands. -/
def census (member : Index → Thread) (weight : (index : Index) → Pc (member index) → Nat)
    (state : State Thread Mutex Semaphore Shared Pc) : Nat :=
  ∑ index, weight index (state.pc (member index))

variable {program : Program Thread Mutex Semaphore Shared Pc}
variable {before after : State Thread Mutex Semaphore Shared Pc}
variable {member : Index → Thread} {weight : (index : Index) → Pc (member index) → Nat}

/-- A step of a member changes the total by what its own weight changes. -/
theorem census_step (distinct : Function.Injective member) {index : Index}
    (moved : next program before (member index) = some after) :
    census member weight after + weight index (before.pc (member index)) =
      census member weight before + weight index (after.pc (member index)) := by
  apply sum_change _ _ index
  intro other different
  rw [next_pc_of_ne moved fun same => different (distinct same)]

omit [DecidableEq Thread] [DecidableEq Mutex] [DecidableEq Semaphore] in
/-- The total depends only on where the members stand. -/
theorem census_congr {first second : State Thread Mutex Semaphore Shared Pc}
    (same : ∀ index, second.pc (member index) = first.pc (member index)) :
    census member weight second = census member weight first := by
  apply Finset.sum_congr rfl
  intro index _
  rw [same index]

/-- A step of a thread outside the family leaves the total alone. -/
theorem census_step_of_ne {thread : Thread} (outside : ∀ index, member index ≠ thread)
    (moved : next program before thread = some after) :
    census member weight after = census member weight before :=
  census_congr fun index => next_pc_of_ne moved (outside index)

omit [DecidableEq Thread] [DecidableEq Mutex] [DecidableEq Semaphore] in
/-- Without a thread that weighs anything the total is zero. -/
theorem census_eq_zero {state : State Thread Mutex Semaphore Shared Pc}
    (empty : ∀ index, weight index (state.pc (member index)) = 0) :
    census member weight state = 0 :=
  Finset.sum_eq_zero fun index _ => empty index

omit [DecidableEq Thread] [DecidableEq Mutex] [DecidableEq Semaphore] in
/-- A smaller weight gives a smaller total. -/
theorem census_mono {heavier : (index : Index) → Pc (member index) → Nat}
    (pointwise : ∀ index pc, weight index pc ≤ heavier index pc)
    (state : State Thread Mutex Semaphore Shared Pc) :
    census member weight state ≤ census member heavier state :=
  Finset.sum_le_sum fun index _ => pointwise index _

omit [DecidableEq Thread] [DecidableEq Mutex] [DecidableEq Semaphore] in
/-- With weights of at most one the total counts threads. -/
theorem census_le_card (atMostOne : ∀ index pc, weight index pc ≤ 1)
    (state : State Thread Mutex Semaphore Shared Pc) :
    census member weight state ≤ Fintype.card Index :=
  sum_le_card fun index => atMostOne index _

/-! ### Conservation laws of runs -/

/-- Counting one more label. -/
theorem countP_concat {α : Type} (counted : α → Bool) (labels : List α) (label : α) :
    (labels ++ [label]).countP counted = labels.countP counted + (counted label).toNat := by
  rw [List.countP_append, List.countP_singleton]
  cases counted label <;> rfl

/-- A count is at most the sum of the counts that cover it. -/
theorem countP_le_sum {α : Type} {whole : α → Bool} {part : Index → α → Bool}
    (covered : ∀ label, whole label = true → ∃ index, part index label = true) (labels : List α) :
    labels.countP whole ≤ ∑ index, labels.countP (part index) := by
  induction labels with
  | nil => simp
  | cons label rest inductionHypothesis =>
      simp only [List.countP_cons, Finset.sum_add_distrib]
      have head : (if whole label = true then 1 else 0) ≤
          ∑ index, if part index label = true then 1 else 0 := by
        by_cases counted : whole label = true
        · obtain ⟨index, isPart⟩ := covered label counted
          have single := Finset.single_le_sum
            (f := fun other => if part other label = true then 1 else 0)
            (fun _ _ => Nat.zero_le _) (Finset.mem_univ index)
          rw [if_pos counted]
          rw [if_pos isPart] at single
          exact single
        · rw [if_neg counted]
          exact Nat.zero_le _
      omega

/-- The sum of the counts of disjoint parts is at most the count of the whole. -/
theorem sum_le_countP {α : Type} {whole : α → Bool} {part : Index → α → Bool}
    (inside : ∀ index label, part index label = true → whole label = true)
    (disjoint : ∀ first second label, part first label = true → part second label = true →
      first = second) (labels : List α) :
    ∑ index, labels.countP (part index) ≤ labels.countP whole := by
  induction labels with
  | nil => simp
  | cons label rest inductionHypothesis =>
      simp only [List.countP_cons, Finset.sum_add_distrib]
      have head : (∑ index, if part index label = true then 1 else 0) ≤
          if whole label = true then 1 else 0 := by
        by_cases some : ∃ index, part index label = true
        · obtain ⟨index, isPart⟩ := some
          rw [if_pos (inside index label isPart), Finset.sum_eq_single index]
          · split <;> decide
          · intro other _ different
            exact if_neg fun isOther => different (disjoint other index label isOther isPart)
          · intro absent
            exact absurd (Finset.mem_univ index) absent
        · rw [Finset.sum_eq_zero]
          · exact Nat.zero_le _
          · intro index _
            exact if_neg fun isPart => some ⟨index, isPart⟩
      omega

/-- The statement waits on the semaphore. -/
def waitsOn (program : Program Thread Mutex Semaphore Shared Pc) (semaphore : Semaphore)
    (label : Label Pc) : Bool :=
  match program label.1 label.2 with
  | .wait target _ => decide (target = semaphore)
  | _ => false

/-- The statement posts the semaphore. -/
def postsTo (program : Program Thread Mutex Semaphore Shared Pc) (semaphore : Semaphore)
    (label : Label Pc) : Bool :=
  match program label.1 label.2 with
  | .post target _ => decide (target = semaphore)
  | _ => false

variable {start state : State Thread Mutex Semaphore Shared Pc} {trace : List (Label Pc)}

/-- A semaphore's value is what it started with, plus the posts, minus the waits. -/
theorem Run.semaphore (run : Run program start trace state) (semaphore : Semaphore) :
    state.value semaphore + trace.countP (waitsOn program semaphore) =
      start.value semaphore + trace.countP (postsTo program semaphore) := by
  induction run with
  | start => rfl
  | @step trace before after thread _ moved inductionHypothesis =>
      rw [countP_concat, countP_concat]
      rcases next_cases moved with ⟨_, _, command, _, rfl⟩ | ⟨_, _, command, rfl⟩ |
        ⟨target, _, command, positive, rfl⟩ | ⟨target, _, command, rfl⟩ | ⟨_, _, command, rfl⟩
      · simpa [waitsOn, postsTo, command] using inductionHypothesis
      · simpa [waitsOn, postsTo, command] using inductionHypothesis
      · by_cases same : target = semaphore
        · subst same
          simp only [waitsOn, postsTo, command, Function.update_self, decide_true, Bool.toNat_true,
            Bool.toNat_false]
          omega
        · simpa [waitsOn, postsTo, command, same, Ne.symm same] using inductionHypothesis
      · by_cases same : target = semaphore
        · subst same
          simp only [waitsOn, postsTo, command, Function.update_self, decide_true, Bool.toNat_true,
            Bool.toNat_false]
          omega
        · simpa [waitsOn, postsTo, command, same, Ne.symm same] using inductionHypothesis
      · simpa [waitsOn, postsTo, command] using inductionHypothesis

/-- Flow rule. If every statement of a member that takes it into the weighed region is counted by
    `entered`, every statement that takes it out by `left`, and no other thread's statements are
    counted, then the members inside are those that entered and have not left. -/
theorem Run.flow {entered left : Label Pc → Bool} (distinct : Function.Injective member)
    (outside : ∀ label : Label Pc, (∀ index, member index ≠ label.1) →
      entered label = false ∧ left label = false)
    (inside : ∀ index pc shared target,
      (program (member index) pc).target shared = some target →
      weight index target + (left ⟨member index, pc⟩).toNat =
        weight index pc + (entered ⟨member index, pc⟩).toNat)
    (initially : census member weight start = 0) (run : Run program start trace state) :
    census member weight state + trace.countP left = trace.countP entered := by
  induction run with
  | start => rw [initially]; rfl
  | @step trace before after thread _ moved inductionHypothesis =>
      rw [countP_concat, countP_concat]
      by_cases isMember : ∃ index, member index = thread
      · obtain ⟨index, rfl⟩ := isMember
        have change : census member weight after + weight index (before.pc (member index)) =
            census member weight before + weight index (after.pc (member index)) :=
          census_step distinct moved
        have balance := inside index _ _ _ (next_fields moved).2.1
        omega
      · have notMember : ∀ index, member index ≠ thread := fun index same => isMember ⟨index, same⟩
        obtain ⟨notEntered, notLeft⟩ := outside ⟨thread, before.pc thread⟩ notMember
        rw [census_step_of_ne notMember moved, notEntered, notLeft]
        simpa using inductionHypothesis

end KernelHacking.Threads
