import PiTools.Library.Outcome

/-
This file handles the items of a list one after another. When a run was cut
short and is repeated, it ends like one run over all items.
-/

namespace Library

variable {Item State Failure : Type}

/-- The items are handled until one fails. The items before it stay handled. -/
def handleAll (handle : Nat → Item → State → Except Failure State) :
    Nat → List Item → State → State × Option Failure
  | _, [], state => (state, none)
  | index, item :: rest, state =>
      match handle index item state with
      | .error failure => (state, some failure)
      | .ok next => handleAll handle (index + 1) rest next

section Related

variable {first second : Nat → Item → State → Except Failure State} {related : State → State → Prop}

/-- Two ways to handle the items that agree on every item agree on the list. -/
theorem handleAll_related
    (agree : ∀ index item state state', related state state' →
      SameOutcome related (first index item state) (second index item state'))
    (items : List Item) (index : Nat) {state state' : State} (start : related state state') :
    related (handleAll first index items state).1 (handleAll second index items state').1 := by
  induction items generalizing index state state' with
  | nil => exact start
  | cons item rest ih =>
      have step := agree index item state state' start
      simp only [handleAll]
      cases one : first index item state with
      | error failure =>
          cases two : second index item state' with
          | error => exact start
          | ok next' =>
              rw [one, two] at step
              exact step.elim
      | ok next =>
          cases two : second index item state' with
          | error =>
              rw [one, two] at step
              exact step.elim
          | ok next' =>
              rw [one, two] at step
              exact ih (index + 1) step

/-- A fact that every handled item keeps holds after the list. -/
theorem handleAll_keeps {holds : State → Prop}
    (keeps : ∀ index item state next, holds state → first index item state = .ok next → holds next)
    (items : List Item) (index : Nat) {state : State} (start : holds state) :
    holds (handleAll first index items state).1 := by
  induction items generalizing index state with
  | nil => exact start
  | cons item rest ih =>
      simp only [handleAll]
      cases one : first index item state with
      | error => exact start
      | ok next => exact ih (index + 1) (keeps index item state next start one)

end Related

section Repeated

variable {cut again once : Nat → Item → State → Except Failure State}
  {related : State → State → Prop} {done : Item → State → Prop}

/-- The rules under which a run can be repeated: a handled item stays done, and an item that is
done is passed over. -/
structure Repeatable (cut again once : Nat → Item → State → Except Failure State)
    (related : State → State → Prop) (done : Item → State → Prop) : Prop where
  agree : ∀ index item state state', related state state' →
    SameOutcome related (again index item state) (once index item state')
  handled : ∀ index item state next state', related state state' →
    cut index item state = .ok next →
      done item next ∧ ∃ next', once index item state' = .ok next' ∧ related next next'
  kept : ∀ index item other state next, done item state → cut index other state = .ok next →
    done item next
  passed : ∀ index item state, done item state → again index item state = .ok state

/-- A run that was cut short and repeated ends like one run. -/
theorem handleAll_again (rules : Repeatable cut again once related done) (items : List Item)
    (index : Nat) {state state' : State} (start : related state state') :
    related (handleAll again index items (handleAll cut index items state).1).1
      (handleAll once index items state').1 := by
  induction items generalizing index state state' with
  | nil => exact start
  | cons item rest ih =>
      cases one : cut index item state with
      | error failure =>
          have stopped : (handleAll cut index (item :: rest) state).1 = state := by
            rw [handleAll, one]
          rw [stopped]
          exact handleAll_related rules.agree (item :: rest) index start
      | ok next =>
          obtain ⟨finished, next', two, joined⟩ := rules.handled index item state next state' start one
          have later : (handleAll cut index (item :: rest) state).1 =
              (handleAll cut (index + 1) rest next).1 := by
            rw [handleAll, one]
          -- The rest of the cut run keeps the item done, so the repeated run passes over it.
          have still : done item (handleAll cut (index + 1) rest next).1 :=
            handleAll_keeps (fun at_ other before after held handled =>
              rules.kept at_ item other before after held handled) rest (index + 1) finished
          rw [later, handleAll, rules.passed index item _ still, handleAll, two]
          exact ih (index + 1) joined

end Repeated

end Library
