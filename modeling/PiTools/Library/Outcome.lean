import Mathlib.Data.List.Forall2

/-
This file gives the steps of a fallible computation and says when a chain of
them succeeds.
-/

namespace Library

variable {Failure Answer Result : Type}

/-- The value of an option, or the failure that stands for its absence. -/
def okOr (value : Option Answer) (failure : Failure) : Except Failure Answer :=
  match value with
  | some answer => .ok answer
  | none => .error failure

/-- The computation continues only under the condition. -/
def ensure (condition : Prop) [Decidable condition] (failure : Failure) : Except Failure Unit :=
  if condition then .ok () else .error failure

@[simp] theorem okOr_eq_ok {value : Option Answer} {failure : Failure} {answer : Answer} :
    okOr value failure = .ok answer ↔ value = some answer := by
  cases value <;> simp [okOr]

@[simp] theorem ensure_eq_ok {condition : Prop} [Decidable condition] {failure : Failure}
    {nothing : Unit} : ensure condition failure = .ok nothing ↔ condition := by
  unfold ensure
  split <;> simp_all

/-- A chain succeeds when its first step succeeds and the rest succeeds with its answer. -/
@[simp] theorem bind_eq_ok {first : Except Failure Answer}
    {rest : Answer → Except Failure Result} {result : Result} :
    (first >>= rest) = .ok result ↔ ∃ answer, first = .ok answer ∧ rest answer = .ok result := by
  unfold bind Monad.toBind
  cases first <;> simp [Except.instMonad, Except.bind]

@[simp] theorem pure_eq_ok {answer result : Answer} :
    (pure answer : Except Failure Answer) = .ok result ↔ answer = result := by
  simp [pure, Except.pure]

/-- A chain fails in its first step or after it. -/
theorem bind_eq_error {first : Except Failure Answer} {rest : Answer → Except Failure Result}
    {failure : Failure} : (first >>= rest) = .error failure ↔
      first = .error failure ∨ ∃ answer, first = .ok answer ∧ rest answer = .error failure := by
  unfold bind Monad.toBind
  cases first <;> simp [Except.instMonad, Except.bind]

theorem okOr_eq_error {value : Option Answer} {failure other : Failure} :
    okOr value failure = .error other ↔ value = none ∧ failure = other := by
  cases value <;> simp [okOr]

theorem ensure_eq_error {condition : Prop} [Decidable condition] {failure other : Failure} :
    ensure condition failure = .error other ↔ ¬ condition ∧ failure = other := by
  unfold ensure
  split <;> simp_all

theorem mapped_eq_error {outcome : Except Failure Answer} {image : Answer → Result} {failure : Failure} :
    image <$> outcome = .error failure ↔ outcome = .error failure := by
  cases outcome <;> simp [Functor.map, Except.map]

theorem pure_ne_error {answer : Answer} {failure : Failure} :
    (pure answer : Except Failure Answer) ≠ .error failure := by
  simp [pure, Except.pure]

/-- No step of a loop fails so. -/
theorem foldlM_ne_error {Item : Type} {step : Answer → Item → Except Failure Answer}
    {failure : Failure} (steps : ∀ answer item, step answer item ≠ .error failure)
    (items : List Item) (start : Answer) : items.foldlM step start ≠ .error failure := by
  induction items generalizing start with
  | nil => exact pure_ne_error
  | cons item rest ih =>
      rw [List.foldlM_cons, Ne, bind_eq_error, not_or]
      exact ⟨steps start item, fun ⟨next, _, failed⟩ => ih next failed⟩

theorem mapM_ne_error {compute : Answer → Except Failure Result} {failure : Failure}
    (steps : ∀ answer, compute answer ≠ .error failure) (answers : List Answer) :
    answers.mapM compute ≠ .error failure := by
  induction answers with
  | nil => exact pure_ne_error
  | cons answer rest ih =>
      rw [List.mapM_cons, Ne, bind_eq_error, not_or]
      refine ⟨steps answer, fun ⟨result, _, failed⟩ => ?_⟩
      rcases bind_eq_error.mp failed with failed | ⟨results, _, failed⟩
      · exact ih failed
      · exact pure_ne_error failed

theorem map_eq_ok {outcome : Except Failure Answer} {image : Answer → Result} {result : Result} :
    outcome.map image = .ok result ↔ ∃ answer, outcome = .ok answer ∧ image answer = result := by
  cases outcome <;> simp [Except.map]

/-- A list of computations succeeds when each of them succeeds. -/
theorem mapM_eq_ok {compute : Answer → Except Failure Result} {answers : List Answer}
    {results : List Result} :
    answers.mapM compute = .ok results ↔
      List.Forall₂ (fun answer result => compute answer = .ok result) answers results := by
  induction answers generalizing results with
  | nil => cases results <;> simp [List.mapM_nil]
  | cons answer rest ih =>
      rw [List.mapM_cons]
      simp only [bind_eq_ok, pure_eq_ok, ih]
      constructor
      · rintro ⟨result, computed, later, others, rfl⟩
        exact .cons computed others
      · rintro (_ | ⟨computed, others⟩)
        exact ⟨_, computed, _, others, rfl⟩

/-- Two outcomes fail in the same way or succeed with related answers. -/
def SameOutcome (related : Answer → Result → Prop) :
    Except Failure Answer → Except Failure Result → Prop
  | .ok answer, .ok result => related answer result
  | .error failure, .error other => failure = other
  | _, _ => False

theorem SameOutcome.imp {related wider : Answer → Result → Prop} {first : Except Failure Answer}
    {second : Except Failure Result} (same : SameOutcome related first second)
    (wide : ∀ answer result, related answer result → wider answer result) :
    SameOutcome wider first second := by
  cases first with
  | error => cases second with
    | error => exact same
    | ok => exact same.elim
  | ok answer => cases second with
    | error => exact same.elim
    | ok result => exact wide answer result same

theorem SameOutcome.of_eq {related : Answer → Answer → Prop} (reflexive : ∀ answer, related answer answer)
    {first second : Except Failure Answer} (same : first = second) :
    SameOutcome related first second := by
  subst same
  cases first with
  | error => rfl
  | ok answer => exact reflexive answer

/-! ### Computations with loops -/

/-- A computation whose loops are bounded gives no answer when a loop exceeds its bound. -/
abbrev Bounded (Failure : Type) := ExceptT Failure Option

def settled (outcome : Except Failure Answer) : Bounded Failure Answer := ExceptT.mk (some outcome)

def within (answer : Option Answer) : Bounded Failure Answer := ExceptT.mk (answer.map .ok)

@[simp] theorem settled_run {outcome : Except Failure Answer} :
    (settled outcome).run = some outcome := rfl

@[simp] theorem within_run {answer : Option Answer} :
    (within answer : Bounded Failure Answer).run = answer.map .ok := rfl

theorem within_eq_ok {answer : Option Answer} {result : Answer} :
    (within answer : Bounded Failure Answer).run = some (.ok result) ↔ answer = some result := by
  cases answer <;> simp

theorem Bounded.pure_eq_ok {answer result : Answer} :
    (pure answer : Bounded Failure Answer).run = some (.ok result) ↔ answer = result := by
  simp [pure, ExceptT.pure, ExceptT.mk, ExceptT.run]

theorem Bounded.bind_eq_ok {first : Bounded Failure Answer} {rest : Answer → Bounded Failure Result}
    {result : Result} : (first >>= rest).run = some (.ok result) ↔
      ∃ answer, first.run = some (.ok answer) ∧ (rest answer).run = some (.ok result) := by
  rw [ExceptT.run_bind]
  cases first.run with
  | none => simp
  | some outcome => cases outcome <;> simp [pure]

/-- A chain exceeds a bound only in one of its steps. -/
theorem Bounded.bind_ne_none {first : Bounded Failure Answer}
    {rest : Answer → Bounded Failure Result} (ends : first.run ≠ none)
    (later : ∀ answer, first.run = some (.ok answer) → (rest answer).run ≠ none) :
    (first >>= rest).run ≠ none := by
  rw [ExceptT.run_bind]
  cases found : first.run with
  | none => exact absurd found ends
  | some outcome =>
      cases outcome with
      | error => simp [pure]
      | ok answer => exact later answer found

end Library
