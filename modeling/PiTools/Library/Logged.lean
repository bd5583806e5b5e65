import Mathlib.Data.List.Infix

/-
This file defines computations that log their calls, and rules for what is
logged before each call.
-/

namespace Library

/-- A computation answers or fails, and leaves the log with its own calls. -/
def Logged (Entry Failure Answer : Type) : Type := List Entry → Except Failure Answer × List Entry

namespace Logged

variable {Entry Failure Other Answer Result : Type}

instance : Monad (Logged Entry Failure) where
  pure answer := fun log => (.ok answer, log)
  bind first rest := fun log =>
    match first log with
    | (.ok answer, log) => rest answer log
    | (.error failure, log) => (.error failure, log)

def settled (outcome : Except Failure Answer) : Logged Entry Failure Answer :=
  fun log => (outcome, log)

def note (entry : Entry) : Logged Entry Failure Unit := fun log => (.ok (), log ++ [entry])

/-- The world answers a call in the knowledge of all calls before it. -/
def call (entry : Except Failure Answer → Entry) (answer : List Entry → Except Failure Answer) :
    Logged Entry Failure Answer := fun log => (answer log, log ++ [entry (answer log)])

/-- A failure becomes a value, and the log keeps the calls up to it. -/
def attempt (program : Logged Entry Failure Answer) : Logged Entry Other (Except Failure Answer) :=
  fun log => (.ok (program log).1, (program log).2)

/-- The failures of one layer are failures of the next one. -/
def failingWith (wrap : Failure → Other) (program : Logged Entry Failure Answer) :
    Logged Entry Other Answer := fun log => ((program log).1.mapError wrap, (program log).2)

section Runs

variable {program : Logged Entry Failure Answer} {rest : Answer → Logged Entry Failure Result}
  {log log' : List Entry}

theorem bind_ok {answer : Answer} (ran : program log = (.ok answer, log')) :
    (program >>= rest) log = rest answer log' := by
  show (match program log with
    | (.ok answer, log) => rest answer log
    | (.error failure, log) => (.error failure, log)) = _
  rw [ran]

theorem bind_error {failure : Failure} (ran : program log = (.error failure, log')) :
    (program >>= rest) log = (.error failure, log') := by
  show (match program log with
    | (.ok answer, log) => rest answer log
    | (.error failure, log) => (.error failure, log)) = _
  rw [ran]

/-- A success has gone through both parts. -/
theorem ok_of_bind {result : Result} (ran : ((program >>= rest) log).1 = .ok result) :
    ∃ answer log', program log = (.ok answer, log') ∧ (rest answer log').1 = .ok result := by
  cases first : program log with
  | mk outcome log' =>
      cases outcome with
      | error failure =>
          rw [bind_error first] at ran
          cases ran
      | ok answer =>
          rw [bind_ok first] at ran
          exact ⟨answer, log', rfl, ran⟩

end Runs

end Logged

/-! ### Guarded logs -/

section Guarded

variable {Entry : Type} {allowed wider : List Entry → Entry → Prop} {log : List Entry}
  {entry : Entry}

/-- Every entry of the log is allowed after the entries before it. -/
def Guarded (allowed : List Entry → Entry → Prop) (log : List Entry) : Prop :=
  ∀ past entry future, log = past ++ entry :: future → allowed past entry

theorem Guarded.nil : Guarded allowed [] := by
  intro past entry future same
  simp at same

theorem Guarded.snoc (guarded : Guarded allowed log) (new : allowed log entry) :
    Guarded allowed (log ++ [entry]) := by
  intro past other future same
  cases future using List.reverseRecOn with
  | nil =>
      obtain ⟨rfl, last⟩ := List.append_inj' same rfl
      cases last
      exact new
  | append_singleton future last =>
      rw [← List.cons_append, ← List.append_assoc] at same
      exact guarded past other future (List.append_inj' same rfl).1

theorem Guarded.mono (guarded : Guarded allowed log)
    (wide : ∀ past entry, allowed past entry → wider past entry) : Guarded wider log :=
  fun past entry future same => wide past entry (guarded past entry future same)

theorem Guarded.of_mem (guarded : Guarded allowed log) (member : entry ∈ log) :
    ∃ past future, log = past ++ entry :: future ∧ allowed past entry := by
  obtain ⟨past, future, same⟩ := List.append_of_mem member
  exact ⟨past, future, same, guarded past entry future same⟩

/-- A longer log keeps the condition. -/
def Lasting (holds : List Entry → Prop) : Prop :=
  ∀ log longer, log <+: longer → holds log → holds longer

theorem Lasting.snoc {holds : List Entry → Prop} (lasting : Lasting holds) (held : holds log)
    (entry : Entry) : holds (log ++ [entry]) := lasting log _ (List.prefix_append log _) held

theorem Lasting.and {holds also : List Entry → Prop} (first : Lasting holds)
    (second : Lasting also) : Lasting fun log => holds log ∧ also log :=
  fun log longer grows both => ⟨first log longer grows both.1, second log longer grows both.2⟩

end Guarded

/-! ### Programs -/

section Programs

variable {Entry Failure Other Answer Result : Type} {allowed : List Entry → Entry → Prop}
  {before : List Entry → Prop} {after : Answer → List Entry → Prop}
  {program : Logged Entry Failure Answer}

/-- The program logs only allowed calls, and a success makes the second condition true. -/
def Keeps (allowed : List Entry → Entry → Prop) (before : List Entry → Prop)
    (program : Logged Entry Failure Answer) (after : Answer → List Entry → Prop) : Prop :=
  ∀ log, Guarded allowed log → before log → log <+: (program log).2 ∧
    Guarded allowed (program log).2 ∧
    ∀ answer, (program log).1 = .ok answer → after answer (program log).2

theorem Keeps.pure {answer : Answer} (holds : ∀ log, before log → after answer log) :
    Keeps allowed before (pure answer : Logged Entry Failure Answer) after := by
  intro log guarded initially
  refine ⟨List.prefix_rfl, guarded, fun other same => ?_⟩
  cases same
  exact holds log initially

theorem Keeps.settled {outcome : Except Failure Answer}
    (holds : ∀ log answer, before log → outcome = .ok answer → after answer log) :
    Keeps allowed before (Logged.settled outcome) after := by
  intro log guarded initially
  exact ⟨List.prefix_rfl, guarded, fun answer same => holds log answer initially same⟩

theorem Keeps.note {entry : Entry} {after : Unit → List Entry → Prop}
    (holds : ∀ log, before log → allowed log entry ∧ after () (log ++ [entry])) :
    Keeps allowed before (Logged.note entry : Logged Entry Failure Unit) after := by
  intro log guarded initially
  obtain ⟨new, finally_⟩ := holds log initially
  exact ⟨List.prefix_append log [entry], guarded.snoc new, fun _ _ => finally_⟩

theorem Keeps.call {entry : Except Failure Answer → Entry}
    {answer : List Entry → Except Failure Answer}
    (holds : ∀ log outcome, before log → allowed log (entry outcome) ∧
      ∀ value, outcome = .ok value → after value (log ++ [entry outcome])) :
    Keeps allowed before (Logged.call entry answer) after := by
  intro log guarded initially
  obtain ⟨new, succeeds⟩ := holds log (answer log) initially
  exact ⟨List.prefix_append log _, guarded.snoc new, succeeds⟩

theorem Keeps.bind {middle : Answer → List Entry → Prop}
    {rest : Answer → Logged Entry Failure Result} {after : Result → List Entry → Prop}
    (first : Keeps allowed before program middle)
    (later : ∀ answer, Keeps allowed (middle answer) (rest answer) after) :
    Keeps allowed before (program >>= rest) after := by
  intro log guarded initially
  obtain ⟨grows, kept, succeeds⟩ := first log guarded initially
  cases ran : program log with
  | mk outcome log' =>
      rw [ran] at grows kept succeeds
      cases outcome with
      | error failure =>
          rw [Logged.bind_error ran]
          exact ⟨grows, kept, fun _ same => by cases same⟩
      | ok answer =>
          rw [Logged.bind_ok ran]
          obtain ⟨grows', kept', succeeds'⟩ := later answer log' kept (succeeds answer rfl)
          exact ⟨grows.trans grows', kept', succeeds'⟩

theorem Keeps.attempt (keeps : Keeps allowed before program after) :
    Keeps allowed before (Logged.attempt program : Logged Entry Other _)
      fun outcome log => ∀ answer, outcome = .ok answer → after answer log := by
  intro log guarded initially
  obtain ⟨grows, kept, succeeds⟩ := keeps log guarded initially
  refine ⟨grows, kept, fun outcome same answer success => ?_⟩
  cases same
  exact succeeds answer success

theorem Keeps.failingWith {wrap : Failure → Other} (keeps : Keeps allowed before program after) :
    Keeps allowed before (Logged.failingWith wrap program) after := by
  intro log guarded initially
  obtain ⟨grows, kept, succeeds⟩ := keeps log guarded initially
  refine ⟨grows, kept, fun answer same => succeeds answer ?_⟩
  unfold Logged.failingWith at same
  cases outcome : (program log).1 with
  | error failure => simp [outcome, Except.mapError] at same
  | ok value => simpa [outcome, Except.mapError] using same

theorem Keeps.imp {weaker : Answer → List Entry → Prop} {stronger : List Entry → Prop}
    (keeps : Keeps allowed before program after)
    (given : ∀ log, stronger log → before log)
    (gives : ∀ answer log, after answer log → weaker answer log) :
    Keeps allowed stronger program weaker := by
  intro log guarded initially
  obtain ⟨grows, kept, succeeds⟩ := keeps log guarded (given log initially)
  exact ⟨grows, kept, fun answer same => gives answer _ (succeeds answer same)⟩

/-- What a longer log cannot make false holds after the program as before it. -/
theorem Keeps.frame {holds : List Entry → Prop} (lasting : Lasting holds)
    (keeps : Keeps allowed before program after) :
    Keeps allowed (fun log => before log ∧ holds log) program
      fun answer log => after answer log ∧ holds log := by
  intro log guarded initially
  obtain ⟨grows, kept, succeeds⟩ := keeps log guarded initially.1
  exact ⟨grows, kept, fun answer same => ⟨succeeds answer same, lasting _ _ grows initially.2⟩⟩

end Programs

/-! ### Steady programs -/

section Steady

variable {Entry Failure Other Answer Result : Type} {allowed : List Entry → Entry → Prop}
  {holds : List Entry → Prop} {program : Logged Entry Failure Answer}

/-- The program keeps a condition under which all of its calls are allowed. -/
def Steady (allowed : List Entry → Entry → Prop) (holds : List Entry → Prop)
    (program : Logged Entry Failure Answer) : Prop :=
  Keeps allowed holds program fun _ => holds

theorem Steady.pure (answer : Answer) :
    Steady allowed holds (pure answer : Logged Entry Failure Answer) := Keeps.pure fun _ held => held

theorem Steady.settled (outcome : Except Failure Answer) :
    Steady allowed holds (Logged.settled outcome : Logged Entry Failure Answer) :=
  Keeps.settled fun _ _ held _ => held

theorem Steady.call (lasting : Lasting holds) {entry : Except Failure Answer → Entry}
    (permitted : ∀ log outcome, holds log → allowed log (entry outcome))
    (answer : List Entry → Except Failure Answer) :
    Steady allowed holds (Logged.call entry answer) :=
  Keeps.call fun log outcome held => ⟨permitted log outcome held, fun _ _ => lasting.snoc held _⟩

theorem Steady.bind {rest : Answer → Logged Entry Failure Result}
    (first : Steady allowed holds program) (later : ∀ answer, Steady allowed holds (rest answer)) :
    Steady allowed holds (program >>= rest) := Keeps.bind first later

theorem Steady.attempt (lasting : Lasting holds) (steady : Steady allowed holds program) :
    Steady allowed holds (Logged.attempt program : Logged Entry Other _) := by
  intro log guarded held
  obtain ⟨grows, kept, _⟩ := steady log guarded held
  exact ⟨grows, kept, fun _ _ => lasting log _ grows held⟩

theorem Steady.failingWith {wrap : Failure → Other} (steady : Steady allowed holds program) :
    Steady allowed holds (Logged.failingWith wrap program) := Keeps.failingWith steady

end Steady

/-! ### Answers -/

section Answers

variable {Entry Failure Other Answer Result : Type} {good : Answer → Prop}
  {program : Logged Entry Failure Answer}

/-- Every answer of the program is good, whatever the log before it. -/
def Yields (good : Answer → Prop) (program : Logged Entry Failure Answer) : Prop :=
  ∀ log answer, (program log).1 = .ok answer → good answer

theorem Yields.any (program : Logged Entry Failure Answer) : Yields (fun _ => True) program :=
  fun _ _ _ => trivial

theorem Yields.pure {answer : Answer} (holds : good answer) :
    Yields good (pure answer : Logged Entry Failure Answer) := by
  intro log other same
  cases same
  exact holds

theorem Yields.settled {outcome : Except Failure Answer}
    (holds : ∀ answer, outcome = .ok answer → good answer) :
    Yields good (Logged.settled outcome : Logged Entry Failure Answer) :=
  fun _ answer same => holds answer same

theorem Yields.bind {middle : Answer → Prop} {rest : Answer → Logged Entry Failure Result}
    {good : Result → Prop} (first : Yields middle program)
    (later : ∀ answer, middle answer → Yields good (rest answer)) :
    Yields good (program >>= rest) := by
  intro log result same
  cases ran : program log with
  | mk outcome log' =>
      cases outcome with
      | error failure =>
          rw [Logged.bind_error ran] at same
          cases same
      | ok answer =>
          rw [Logged.bind_ok ran] at same
          exact later answer (first log answer (by rw [ran])) log' result same

end Answers

end Library
