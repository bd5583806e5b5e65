import PiTools.Library.Logged

/-
This file gives rules for programs that remember the answers of their calls,
under conditions that only entries of some kinds change.
-/

namespace Library

variable {Entry Failure Other Answer Result : Type} {allowed : List Entry → Entry → Prop}
  {before holds also : List Entry → Prop} {after : Answer → List Entry → Prop}
  {program : Logged Entry Failure Answer} {quiet : Entry → Prop}

/-! ### Assumptions -/

/-- A part of the condition that does not read the log is an assumption. -/
theorem Keeps.assuming {fact : Prop} (keeps : fact → Keeps allowed before program after) :
    Keeps allowed (fun log => before log ∧ fact) program after :=
  fun log guarded both => keeps both.2 log guarded both.1

/-- What follows a settled outcome may use its success. -/
theorem Keeps.bind_settled {outcome : Except Failure Answer}
    {rest : Answer → Logged Entry Failure Result} {after : Result → List Entry → Prop}
    (later : ∀ answer, outcome = .ok answer → Keeps allowed before (rest answer) after) :
    Keeps allowed before (Logged.settled outcome >>= rest) after := by
  have known : Keeps allowed before (Logged.settled outcome)
      fun answer log => before log ∧ outcome = .ok answer :=
    Keeps.settled fun _ _ initially same => ⟨initially, same⟩
  exact known.bind fun answer => Keeps.assuming (later answer)

/-- A program that only reads the log keeps the condition. -/
theorem Keeps.reading (read : List Entry → Answer) :
    Keeps allowed before (fun log => (.ok (read log), log) : Logged Entry Failure Answer) fun _ => before :=
  fun _ guarded initially => ⟨List.prefix_rfl, guarded, fun _ _ => initially⟩

/-- The rule for a call that knows the answer itself. -/
theorem Keeps.answered_call {entry : Except Failure Answer → Entry}
    {answer : List Entry → Except Failure Answer}
    (step : ∀ log, before log → allowed log (entry (answer log)) ∧
      ∀ value, answer log = .ok value → after value (log ++ [entry (answer log)])) :
    Keeps allowed before (Logged.call entry answer) after := by
  intro log guarded initially
  obtain ⟨new, succeeds⟩ := step log initially
  exact ⟨List.prefix_append log _, guarded.snoc new, succeeds⟩

/-- A call under `attempt` leaves its answer, whatever it is. -/
theorem Keeps.attempt_call {entry : Except Failure Answer → Entry}
    {answer : List Entry → Except Failure Answer} {after : Except Failure Answer → List Entry → Prop}
    (step : ∀ log, before log → allowed log (entry (answer log)) ∧
      after (answer log) (log ++ [entry (answer log)])) :
    Keeps allowed before (Logged.attempt (Logged.call entry answer) : Logged Entry Other _) after := by
  intro log guarded initially
  obtain ⟨new, finally_⟩ := step log initially
  refine ⟨List.prefix_append log _, guarded.snoc new, fun outcome same => ?_⟩
  cases same
  exact finally_

/-! ### Chosen entries -/

/-- Where an entry is chosen only as the first one, one is chosen at most. -/
theorem Guarded.filter_length {log : List Entry} {chosen : Entry → Bool}
    (guarded : Guarded allowed log) (first : ∀ past entry, allowed past entry →
      chosen entry = true → ∀ other ∈ past, chosen other = false) :
    (log.filter chosen).length ≤ 1 := by
  induction log using List.reverseRecOn with
  | nil => exact Nat.zero_le 1
  | append_singleton log entry ih =>
      have earlier : Guarded allowed log := fun past other future same =>
        guarded past other (future ++ [entry]) (by simp [same])
      rw [List.filter_append, List.length_append]
      cases last : chosen entry with
      | false => simpa [last] using ih earlier
      | true =>
          have unchosen : log.filter chosen = [] := by
            rw [List.filter_eq_nil_iff]
            intro other member
            simp [first log entry (guarded log entry [] rfl) last other member]
          simp [unchosen, last]

/-! ### Kept conditions -/

/-- A quiet entry does not change the condition. -/
def KeptBy (quiet : Entry → Prop) (holds : List Entry → Prop) : Prop :=
  ∀ log entry, quiet entry → holds log → holds (log ++ [entry])

theorem KeptBy.and (first : KeptBy quiet holds) (second : KeptBy quiet also) :
    KeptBy quiet fun log => holds log ∧ also log :=
  fun log entry silent both => ⟨first log entry silent both.1, second log entry silent both.2⟩

theorem KeptBy.member (entry : Entry) : KeptBy quiet fun log => entry ∈ log :=
  fun _ _ _ member => List.mem_append_left _ member

theorem KeptBy.mono {wider : Entry → Prop} (kept : KeptBy wider holds)
    (wide : ∀ entry, quiet entry → wider entry) : KeptBy quiet holds :=
  fun log entry silent => kept log entry (wide entry silent)

/-- A quiet call keeps the condition, and a success is remembered. -/
theorem Keeps.ask (kept : KeptBy quiet holds) {entry : Except Failure Answer → Entry}
    {answer : List Entry → Except Failure Answer} (silent : ∀ outcome, quiet (entry outcome))
    (permitted : ∀ log outcome, holds log → allowed log (entry outcome)) :
    Keeps allowed holds (Logged.call entry answer)
      fun value log => holds log ∧ entry (.ok value) ∈ log := by
  apply Keeps.call
  intro log outcome held
  refine ⟨permitted log outcome held, fun value same => ⟨kept log _ (silent outcome) held, ?_⟩⟩
  rw [same]
  exact List.mem_append_right _ (List.mem_singleton_self _)

end Library
