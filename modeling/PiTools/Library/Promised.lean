import PiTools.Library.Logged

/-
This file proves what a program does while the world that answers its calls
keeps its promises.
-/

namespace Library

variable {Entry Failure Other Answer Result : Type} {promised allowed : List Entry → Entry → Prop}
  {before stronger : List Entry → Prop} {after weaker : Answer → List Entry → Prop}
  {program : Logged Entry Failure Answer}

theorem Guarded.of_prefix {log longer : List Entry} (guarded : Guarded promised longer) (grows : log <+: longer) :
    Guarded promised log := by
  obtain ⟨more, rfl⟩ := grows
  intro past entry future same
  exact guarded past entry (future ++ more) (by rw [same, List.append_assoc, List.cons_append])

theorem Guarded.last {log : List Entry} {entry : Entry} (guarded : Guarded promised (log ++ [entry])) :
    promised log entry := guarded log entry [] rfl

/-- As long as every answer is as promised, the program logs only allowed calls, and a success makes
the second condition true. -/
def Serves (promised allowed : List Entry → Entry → Prop) (before : List Entry → Prop)
    (program : Logged Entry Failure Answer) (after : Answer → List Entry → Prop) : Prop :=
  Keeps (fun past entry => Guarded promised (past ++ [entry]) → allowed past entry)
    (fun log => Guarded promised log → before log) program fun answer log => Guarded promised log → after answer log

theorem Serves.pure {answer : Answer} (holds : ∀ log, before log → after answer log) :
    Serves promised allowed before (pure answer : Logged Entry Failure Answer) after :=
  Keeps.pure fun log initially kept => holds log (initially kept)

theorem Serves.settled {outcome : Except Failure Answer}
    (holds : ∀ log answer, before log → outcome = .ok answer → after answer log) :
    Serves promised allowed before (Logged.settled outcome) after :=
  Keeps.settled fun log answer initially same kept => holds log answer (initially kept) same

theorem Serves.note {entry : Entry} {after : Unit → List Entry → Prop}
    (holds : ∀ log, before log → allowed log entry ∧ after () (log ++ [entry])) :
    Serves promised allowed before (Logged.note entry : Logged Entry Failure Unit) after := by
  apply Keeps.note
  intro log initially
  have known (kept : Guarded promised (log ++ [entry])) :=
    holds log (initially (kept.of_prefix (List.prefix_append log [entry])))
  exact ⟨fun kept => (known kept).1, fun kept => (known kept).2⟩

/-- The answer of a call is as promised. -/
theorem Serves.call {entry : Except Failure Answer → Entry} {answer : List Entry → Except Failure Answer}
    (holds : ∀ log outcome, before log → promised log (entry outcome) → allowed log (entry outcome) ∧
      ∀ value, outcome = .ok value → after value (log ++ [entry outcome])) :
    Serves promised allowed before (Logged.call entry answer) after := by
  apply Keeps.call
  intro log outcome initially
  have known (kept : Guarded promised (log ++ [entry outcome])) :=
    holds log outcome (initially (kept.of_prefix (List.prefix_append log [entry outcome]))) kept.last
  exact ⟨fun kept => (known kept).1, fun value same kept => (known kept).2 value same⟩

theorem Serves.bind {middle : Answer → List Entry → Prop} {rest : Answer → Logged Entry Failure Result}
    {after : Result → List Entry → Prop} (first : Serves promised allowed before program middle)
    (later : ∀ answer, Serves promised allowed (middle answer) (rest answer) after) :
    Serves promised allowed before (program >>= rest) after := Keeps.bind first later

/-- A program goes on after a check only with its answer. -/
theorem Serves.check {outcome : Except Failure Answer} {rest : Answer → Logged Entry Failure Result}
    {after : Result → List Entry → Prop}
    (later : ∀ answer, outcome = .ok answer → Serves promised allowed before (rest answer) after) :
    Serves promised allowed before (Logged.settled outcome >>= rest) after := by
  cases outcome with
  | error failure =>
      intro log guarded _
      exact ⟨List.prefix_rfl, guarded, fun _ same => by cases same⟩
  | ok answer => exact later answer rfl

theorem Serves.attempt (serves : Serves promised allowed before program after) :
    Serves promised allowed before (Logged.attempt program : Logged Entry Other _)
      fun outcome log => ∀ answer, outcome = .ok answer → after answer log :=
  (Keeps.attempt serves).imp (fun _ initially => initially) fun _ _ finished kept answer same =>
    finished answer same kept

theorem Serves.failingWith {wrap : Failure → Other} (serves : Serves promised allowed before program after) :
    Serves promised allowed before (Logged.failingWith wrap program) after := Keeps.failingWith serves

theorem Serves.imp (serves : Serves promised allowed before program after)
    (given : ∀ log, stronger log → before log) (gives : ∀ answer log, after answer log → weaker answer log) :
    Serves promised allowed stronger program weaker :=
  Keeps.imp serves (fun log initially kept => given log (initially kept)) fun answer log finished kept =>
    gives answer log (finished kept)

/-- What holds anyway holds after the program as before it. -/
theorem Serves.frame {fact : Prop} (serves : Serves promised allowed before program after) :
    Serves promised allowed (fun log => before log ∧ fact) program fun answer log => after answer log ∧ fact := by
  have lasting : Lasting fun log => Guarded promised log → fact :=
    fun log longer grows known kept => known (kept.of_prefix grows)
  refine (Keeps.frame lasting serves).imp (fun log initially => ?_) fun answer log finished kept => ?_
  · exact ⟨fun kept => (initially kept).1, fun kept => (initially kept).2⟩
  · exact ⟨finished.1 kept, finished.2 kept⟩

/-- The calls and the answer of a run that starts with an empty log. -/
theorem Serves.run (serves : Serves promised allowed before program after) (initially : before [])
    (kept : Guarded promised (program []).2) : Guarded allowed (program []).2 ∧
      ∀ answer, (program []).1 = .ok answer → after answer (program []).2 := by
  obtain ⟨-, guarded, succeeds⟩ := serves [] .nil fun _ => initially
  refine ⟨fun past entry future same => ?_, fun answer same => succeeds answer same kept⟩
  refine guarded past entry future same (kept.of_prefix ⟨future, ?_⟩)
  rw [same, List.append_assoc, List.singleton_append]

end Library
