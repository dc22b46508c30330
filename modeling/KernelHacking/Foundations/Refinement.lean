/-
Module: KernelHacking.Foundations.Refinement
Layer: Foundations
Purpose: Two levels of one design. A system is a labelled step relation; an execution is a sequence of
  steps with their labels. A forward simulation maps every step of the lower system to one step of the
  upper system or, if its label is not visible there, to none. So every execution below shows an
  execution above (`Simulates.exec`), and what every step above keeps holds where that one ends
  (`Exec.invariant`).
Imports: none (Mathlib-free)
Trusted boundary: none (fully proved)
Main exports: Exec, Exec.invariant, Exec.split, Exec.single, Matched, Simulates, Simulates.exec
Open obligations: none
-/

namespace KernelHacking.Refinement

/-- The executions of a labelled step relation, with the labels in order. -/
inductive Exec {State Label : Type} (step : State → Label → State → Prop) (start : State) :
    List Label → State → Prop where
  | start : Exec step start [] start
  | step {labels : List Label} {before after : State} {label : Label}
      (exec : Exec step start labels before) (moved : step before label after) :
      Exec step start (labels ++ [label]) after

/-- What every step keeps holds wherever an execution ends. -/
theorem Exec.invariant {State Label : Type} {step : State → Label → State → Prop} {start : State}
    {Holds : State → Prop} (initial : Holds start)
    (kept : ∀ {before label after}, Holds before → step before label after → Holds after)
    {labels : List Label} {state : State} (exec : Exec step start labels state) : Holds state := by
  induction exec with
  | start => exact initial
  | step _ moved inductionHypothesis => exact kept inductionHypothesis moved

section Parts

variable {State Label : Type} {step : State → Label → State → Prop} {start last : State}

/-- An execution can be stopped and continued. -/
theorem Exec.split {first second : List Label} (exec : Exec step start (first ++ second) last) :
    ∃ middle, Exec step start first middle ∧ Exec step middle second last := by
  generalize shape : first ++ second = labels at exec
  induction exec generalizing second with
  | start =>
      obtain ⟨rfl, rfl⟩ := List.append_eq_nil_iff.mp shape
      exact ⟨start, .start, .start⟩
  | @step labels before after label exec moved inductionHypothesis =>
      rcases List.eq_nil_or_concat second with rfl | ⟨front, final, rfl⟩
      · rw [List.append_nil] at shape
        rw [shape]
        exact ⟨after, exec.step moved, .start⟩
      · rw [List.concat_eq_append, ← List.append_assoc] at shape
        obtain ⟨rfl, same⟩ := List.append_inj' shape rfl
        rw [List.concat_eq_append, List.singleton_inj.mp same]
        obtain ⟨middle, until_, rest⟩ := inductionHypothesis rfl
        exact ⟨middle, until_, rest.step moved⟩

theorem Exec.append {middle : State} {first second : List Label} (exec : Exec step start first middle)
    (rest : Exec step middle second last) : Exec step start (first ++ second) last := by
  induction rest with
  | start =>
      rw [List.append_nil]
      exact exec
  | step _ moved inductionHypothesis =>
      rw [← List.append_assoc]
      exact inductionHypothesis.step moved

theorem Exec.nil (exec : Exec step start [] last) : last = start := by
  generalize shape : ([] : List Label) = labels at exec
  cases exec with
  | start => rfl
  | step => exact absurd shape (by simp)

theorem Exec.single {label : Label} (exec : Exec step start [label] last) : step start label last := by
  generalize shape : [label] = labels at exec
  cases exec with
  | start => exact nomatch shape
  | step exec moved =>
      obtain ⟨rfl, same⟩ := List.append_inj' (show [] ++ [label] = _ from shape) rfl
      rw [List.singleton_inj.mp same, ← exec.nil]
      exact moved

end Parts

section Simulation

variable {Lower Upper Label Event : Type}

/-- What answers a step below that ends in `after`: a step above with the event that is seen, or none if
    nothing is seen. -/
def Matched (upper : Upper → Event → Upper → Prop) (related : Lower → Upper → Prop) (after : Lower)
    (above : Upper) : Option Event → Prop
  | none => related after above
  | some event => ∃ next, upper above event next ∧ related after next

/-- A forward simulation: every step below from related states is matched above. -/
def Simulates (lower : Lower → Label → Lower → Prop) (upper : Upper → Event → Upper → Prop)
    (visible : Label → Option Event) (related : Lower → Upper → Prop) : Prop :=
  ∀ {before after : Lower} {label : Label} {above : Upper}, related before above →
    lower before label after → Matched upper related after above (visible label)

variable {lower : Lower → Label → Lower → Prop} {upper : Upper → Event → Upper → Prop}
  {visible : Label → Option Event} {related : Lower → Upper → Prop} {start : Lower} {above : Upper}

/-- Every execution below shows an execution above, with the visible labels as its events. -/
theorem Simulates.exec (simulates : Simulates lower upper visible related)
    (initial : related start above) {labels : List Label} {state : Lower}
    (exec : Exec lower start labels state) :
    ∃ last, Exec upper above (labels.filterMap visible) last ∧ related state last := by
  induction exec with
  | start => exact ⟨above, .start, initial⟩
  | @step labels before after label _ moved inductionHypothesis =>
      rcases inductionHypothesis with ⟨last, shows, relates⟩
      have matched := simulates relates moved
      rw [List.filterMap_append]
      cases seen : visible label with
      | none =>
          rw [seen] at matched
          rw [List.filterMap_cons_none seen, List.filterMap_nil, List.append_nil]
          exact ⟨last, shows, matched⟩
      | some event =>
          rw [seen] at matched
          rcases matched with ⟨next, movesAbove, relatesNext⟩
          rw [List.filterMap_cons_some seen, List.filterMap_nil]
          exact ⟨next, shows.step movesAbove, relatesNext⟩

end Simulation

end KernelHacking.Refinement
