import Mathlib.Data.List.Basic

/-
This file serves calls one after another. Calls that are not admitted leave no
trace in what the admitted calls see, and learn nothing from them.
-/

namespace Library

variable {State Call Reply View : Type}

/-- The state after all calls, with the reply to each call. -/
def serveAll (serve : State → Call → State × Reply) : State → List Call → State × List Reply
  | state, [] => (state, [])
  | state, call :: rest =>
      let (next, reply) := serve state call
      let (final, replies) := serveAll serve next rest
      (final, reply :: replies)

/-- The replies to the calls that meet a condition. -/
def repliesTo (chosen : Call → Bool) (calls : List Call) (replies : List Reply) : List Reply :=
  ((calls.zip replies).filter fun pair => chosen pair.1).map Prod.snd

section Serving

variable (serve : State → Call → State × Reply)

@[simp] theorem serveAll_nil (state : State) : serveAll serve state [] = (state, []) := rfl

@[simp] theorem serveAll_cons (state : State) (call : Call) (rest : List Call) :
    serveAll serve state (call :: rest) =
      ((serveAll serve (serve state call).1 rest).1,
        (serve state call).2 :: (serveAll serve (serve state call).1 rest).2) := rfl

@[simp] theorem repliesTo_nil (chosen : Call → Bool) (replies : List Reply) :
    repliesTo chosen [] replies = [] := rfl

theorem repliesTo_cons (chosen : Call → Bool) (call : Call) (calls : List Call) (reply : Reply)
    (replies : List Reply) : repliesTo chosen (call :: calls) (reply :: replies) =
      if chosen call then reply :: repliesTo chosen calls replies else repliesTo chosen calls replies := by
  cases met : chosen call <;> simp [repliesTo, met]

/-- Without the calls that are not admitted, the admitted ones see the same states and get the same replies. -/
theorem serveAll_purge (view : State → View) (admitted : Call → Bool)
    (quiet : ∀ state call, admitted call = false → view (serve state call).1 = view state)
    (agree : ∀ state state' call, admitted call = true → view state = view state' →
      view (serve state call).1 = view (serve state' call).1 ∧ (serve state call).2 = (serve state' call).2)
    (calls : List Call) {state state' : State} (same : view state = view state') :
    view (serveAll serve state calls).1 = view (serveAll serve state' (calls.filter admitted)).1 ∧
      repliesTo admitted calls (serveAll serve state calls).2 =
        (serveAll serve state' (calls.filter admitted)).2 := by
  induction calls generalizing state state' with
  | nil => exact ⟨same, rfl⟩
  | cons call rest ih =>
      cases met : admitted call with
      | false =>
          obtain ⟨final, replies⟩ := ih ((quiet state call met).trans same)
          rw [List.filter_cons_of_neg (by simp [met]), serveAll_cons, repliesTo_cons, met]
          exact ⟨final, replies⟩
      | true =>
          obtain ⟨next, reply⟩ := agree state state' call met same
          obtain ⟨final, replies⟩ := ih next
          rw [List.filter_cons_of_pos met, serveAll_cons, serveAll_cons, repliesTo_cons, met]
          exact ⟨final, by rw [if_pos rfl, reply, replies]⟩

/-- Calls whose reply does not depend on the state learn nothing from the other calls. -/
theorem serveAll_blind (outside : Call → Bool) (fixed : Call → Reply)
    (blind : ∀ state call, outside call = true → (serve state call).2 = fixed call)
    (calls : List Call) (state : State) :
    repliesTo outside calls (serveAll serve state calls).2 = (calls.filter outside).map fixed := by
  induction calls generalizing state with
  | nil => rfl
  | cons call rest ih =>
      rw [serveAll_cons, repliesTo_cons, ih]
      cases met : outside call with
      | false => rw [List.filter_cons_of_neg (by simp [met])]; rfl
      | true => rw [List.filter_cons_of_pos met, List.map_cons, blind state call met]; rfl

end Serving

end Library
