import PiTools.Library.Runs

/-
This file studies work that is claimed in a ledger before it is performed. A key
that can be claimed only once is performed at most once.
-/

namespace Library.Ledger

variable {Key : Type}

/-- The taken keys, and the number of claims of each key whose work is not done yet. -/
structure State (Key : Type) where
  taken : Key → Prop
  pending : Key → Nat

inductive Act (Key : Type)
  | claim (key : Key)
  | perform (key : Key)
  | other
  deriving DecidableEq

/-- Taken keys stay taken, and no claim appears. -/
structure Settles (state next : State Key) : Prop where
  taken : ∀ key, state.taken key → next.taken key
  pending : ∀ key, next.pending key ≤ state.pending key

inductive Step (state : State Key) : Act Key → State Key → Prop
  | claim {next : State Key} (key : Key) (vacant : ¬ state.taken key) (takes : next.taken key)
      (taken : ∀ other, state.taken other → next.taken other)
      (pending : ∀ other, other ≠ key → next.pending other ≤ state.pending other)
      (claimed : next.pending key ≤ state.pending key + 1) : Step state (.claim key) next
  | perform {next : State Key} (key : Key) (settles : Settles state next)
      (released : next.pending key < state.pending key) : Step state (.perform key) next
  | other {next : State Key} (settles : Settles state next) : Step state .other next

variable {start finish before after : State Key} {acts : List (Act Key)} {act : Act Key}

theorem Step.taken (step : Step before act after) {key : Key} (held : before.taken key) :
    after.taken key := by
  cases step with
  | claim _ _ _ taken => exact taken key held
  | perform _ settles | other settles => exact settles.taken key held

/-- A step pays for its work with a pending claim, or it takes the key. -/
theorem Step.credit [DecidableEq Key] (step : Step before act after) (key : Key) :
    [act].count (.perform key) + after.pending key ≤ before.pending key ∨
      (¬ before.taken key ∧ after.taken key ∧
        [act].count (.perform key) + after.pending key ≤ before.pending key + 1) := by
  cases step with
  | claim other vacant takes taken pending claimed =>
      rw [List.count_eq_zero_of_not_mem (by simp), Nat.zero_add]
      by_cases same : key = other
      · subst same
        exact .inr ⟨vacant, takes, claimed⟩
      · exact .inl (pending key same)
  | perform other settles released =>
      refine .inl ?_
      by_cases same : other = key
      · subst same
        rw [List.count_singleton_self]
        omega
      · rw [List.count_eq_zero_of_not_mem (by simpa using Ne.symm same), Nat.zero_add]
        exact settles.pending key
  | other settles =>
      rw [List.count_eq_zero_of_not_mem (by simp), Nat.zero_add]
      exact .inl (settles.pending key)

/-- A key was performed or is pending at most once, and only when it is taken. -/
theorem performed_once [DecidableEq Key] (run : Run Step start acts finish)
    (idle : ∀ key, start.pending key = 0) (key : Key) :
    acts.count (.perform key) + finish.pending key ≤ 1 ∧
      (¬ finish.taken key → acts.count (.perform key) + finish.pending key = 0) := by
  induction run with
  | refl => simp [idle key]
  | @snoc past before after act earlier last ih =>
      obtain ⟨once, untaken⟩ := ih
      rw [List.count_append]
      rcases last.credit key with paid | ⟨vacant, takes, paid⟩
      · refine ⟨by omega, fun free => ?_⟩
        have none := untaken fun held => free (last.taken held)
        omega
      · have none := untaken vacant
        exact ⟨by omega, fun free => absurd takes free⟩

end Library.Ledger
