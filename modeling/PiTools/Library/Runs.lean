import Mathlib.Data.List.Induction

/-
This file composes the steps of a labelled transition system into runs.
-/

namespace Library

variable {State Label : Type}

/-- A run lists the labels on the way from its first state to its last state. -/
inductive Run (step : State → Label → State → Prop) (start : State) :
    List Label → State → Prop
  | refl : Run step start [] start
  | snoc {labels : List Label} {middle finish : State} {label : Label}
      (earlier : Run step start labels middle) (last : step middle label finish) :
      Run step start (labels ++ [label]) finish

variable {step : State → Label → State → Prop} {start middle finish : State}

theorem Run.single {label : Label} (only : step start label finish) :
    Run step start [label] finish := by
  simpa using Run.snoc Run.refl only

/-- Two consecutive runs give one run. -/
theorem Run.append {first second : List Label} (before : Run step start first middle)
    (after : Run step middle second finish) : Run step start (first ++ second) finish := by
  induction after with
  | refl => simpa using before
  | snoc _ last ih =>
      rw [← List.append_assoc]
      exact ih.snoc last

theorem Run.cons {label : Label} {rest : List Label} (first : step start label middle)
    (after : Run step middle rest finish) : Run step start (label :: rest) finish :=
  (Run.single first).append after

@[simp] theorem Run.nil_iff : Run step start [] finish ↔ finish = start := by
  constructor
  · intro run
    generalize empty : ([] : List Label) = labels at run
    cases run with
    | refl => rfl
    | snoc => simp at empty
  · rintro rfl
    exact .refl

/-- The last label of a run is its last step. -/
theorem Run.snoc_iff {labels : List Label} {label : Label} :
    Run step start (labels ++ [label]) finish ↔
      ∃ middle, Run step start labels middle ∧ step middle label finish := by
  constructor
  · intro run
    generalize same : labels ++ [label] = all at run
    cases run with
    | refl => simp at same
    | snoc earlier last =>
        obtain ⟨rfl, rfl⟩ := List.append_inj' same rfl |>.imp id (by simpa using ·)
        exact ⟨_, earlier, last⟩
  · rintro ⟨middle, earlier, last⟩
    exact earlier.snoc last

/-- A run stops at every prefix of its labels. -/
theorem Run.split {first second : List Label} (run : Run step start (first ++ second) finish) :
    ∃ middle, Run step start first middle ∧ Run step middle second finish := by
  induction second using List.reverseRecOn generalizing finish with
  | nil => exact ⟨finish, by simpa using run, .refl⟩
  | append_singleton second label ih =>
      rw [← List.append_assoc, Run.snoc_iff] at run
      obtain ⟨before, earlier, last⟩ := run
      obtain ⟨middle, left, right⟩ := ih earlier
      exact ⟨middle, left, right.snoc last⟩

/-- A predicate that every step preserves holds after the run. -/
theorem Run.invariant {labels : List Label} (run : Run step start labels finish)
    (holds : State → Prop) (initially : holds start)
    (preserved : ∀ state label next, holds state → step state label next → holds next) :
    holds finish := by
  induction run with
  | refl => exact initially
  | snoc _ last ih => exact preserved _ _ _ ih last

/-- A predicate on the history and the state may use the run that led to it. -/
theorem Run.history {labels : List Label} (run : Run step start labels finish)
    (holds : List Label → State → Prop) (initially : holds [] start)
    (preserved : ∀ past state label next, Run step start past state → holds past state →
      step state label next → holds (past ++ [label]) next) :
    holds labels finish := by
  induction run with
  | refl => exact initially
  | snoc earlier last ih => exact preserved _ _ _ _ earlier ih last

/-- A stricter step relation gives fewer runs. -/
theorem Run.mono {wider : State → Label → State → Prop} {labels : List Label}
    (run : Run step start labels finish)
    (wide : ∀ state label next, step state label next → wider state label next) :
    Run wider start labels finish := by
  induction run with
  | refl => exact .refl
  | snoc _ last ih => exact ih.snoc (wide _ _ _ last)

/-- A map between two systems that keeps every reachable step keeps every run. -/
theorem Run.map {State' Label' : Type} {step' : State' → Label' → State' → Prop}
    {labels : List Label} (run : Run step start labels finish) (project : State → State')
    (relabel : Label → Label')
    (simulates : ∀ past state label next, Run step start past state → step state label next →
      step' (project state) (relabel label) (project next)) :
    Run step' (project start) (labels.map relabel) (project finish) := by
  induction run with
  | refl => exact .refl
  | snoc earlier last ih =>
      rw [List.map_append]
      exact ih.snoc (simulates _ _ _ _ earlier last)

/-- A map that answers each step with one step or with none keeps every run. -/
theorem Run.filterMap {State' Label' : Type} {step' : State' → Label' → State' → Prop}
    {labels : List Label} (run : Run step start labels finish) (project : State → State')
    (relabel : Label → Option Label')
    (simulates : ∀ past state label next, Run step start past state → step state label next →
      (relabel label = none ∧ project next = project state) ∨
        ∃ label', relabel label = some label' ∧ step' (project state) label' (project next)) :
    Run step' (project start) (labels.filterMap relabel) (project finish) := by
  induction run with
  | refl => exact .refl
  | snoc earlier last ih =>
      rw [List.filterMap_append]
      rcases simulates _ _ _ _ earlier last with ⟨silent, same⟩ | ⟨label', answered, next⟩
      · simpa [silent, same] using ih
      · simpa [answered] using ih.snoc next

/-- An occurrence of a label is a step of the run. -/
theorem Run.step_of_mem {labels : List Label} {label : Label}
    (run : Run step start labels finish) (member : label ∈ labels) :
    ∃ past future before after, labels = past ++ label :: future ∧
      Run step start past before ∧ step before label after ∧ Run step after future finish := by
  obtain ⟨past, future, rfl⟩ := List.append_of_mem member
  obtain ⟨before, left, right⟩ := run.split
  rw [← List.singleton_append] at right
  obtain ⟨after, only, rest⟩ := right.split
  rw [← List.nil_append [label], Run.snoc_iff] at only
  obtain ⟨same, empty, last⟩ := only
  rw [Run.nil_iff] at empty
  subst empty
  exact ⟨past, future, same, after, rfl, left, last, rest⟩

/-- Every step of the run starts in a state that allows it. -/
def Always (step : State → Label → State → Prop) (allowed : State → Label → Prop) (start : State)
    (labels : List Label) : Prop :=
  ∀ past label future before after, labels = past ++ label :: future →
    Run step start past before → step before label after → allowed before label

/-- A run whose steps are all allowed is a run of the restricted relation. -/
theorem Run.restrict {allowed : State → Label → Prop} {labels : List Label}
    (run : Run step start labels finish) (always : Always step allowed start labels) :
    Run (fun state label next => step state label next ∧ allowed state label) start labels
      finish := by
  induction run with
  | refl => exact .refl
  | @snoc labels middle finish final earlier last ih =>
      have shorter : Always step allowed start labels := by
        intro past label future before after same run only
        exact always past label (future ++ [final]) before after (by simp [same]) run only
      exact (ih shorter).snoc ⟨last, always labels final [] middle finish rfl earlier last⟩

end Library
