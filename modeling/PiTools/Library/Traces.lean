import Mathlib.Data.List.Forall2
import PiTools.Library.Logged

/-
This file describes the calls of a program as a trace, and the traces of loops
that stop at a failure or go on after it.
-/

namespace Library

namespace Logged

variable {Entry Failure Other Item : Type}

/-- The first failure ends the loop. -/
def forEach (body : Item → Logged Entry Failure Unit) : List Item → Logged Entry Failure Unit
  | [] => pure ()
  | item :: rest => do
      body item
      forEach body rest

/-- A failure is noted. -/
def tried (failed : Item → Failure → Entry) (body : Item → Logged Entry Failure Unit) (item : Item) :
    Logged Entry Other Unit := do
  match ← attempt (body item) with
  | .ok () => pure ()
  | .error failure => note (failed item failure)

/-- The loop goes on after a failure with the next item. -/
def sweep (failed : Item → Failure → Entry) (body : Item → Logged Entry Failure Unit) :
    List Item → Logged Entry Other Unit := forEach (tried failed body)

end Logged

variable {Entry Failure Other Item Answer Result : Type} {program : Logged Entry Failure Answer}
  {trace wider : Except Failure Answer → List Entry → Prop}

/-- The program logs calls behind those before it, and the relation holds for its outcome and them. -/
def Leaves (trace : Except Failure Answer → List Entry → Prop) (program : Logged Entry Failure Answer) : Prop :=
  ∀ log, ∃ made, (program log).2 = log ++ made ∧ trace (program log).1 made

theorem Leaves.mono (leaves : Leaves trace program) (wide : ∀ outcome made, trace outcome made → wider outcome made) :
    Leaves wider program := by
  intro log
  obtain ⟨made, same, holds⟩ := leaves log
  exact ⟨made, same, wide _ _ holds⟩

theorem Leaves.pure {answer : Answer} (holds : trace (.ok answer) []) :
    Leaves trace (pure answer : Logged Entry Failure Answer) :=
  fun log => ⟨[], (List.append_nil log).symm, holds⟩

theorem Leaves.note {trace : Except Failure Unit → List Entry → Prop} {entry : Entry}
    (holds : trace (.ok ()) [entry]) : Leaves trace (Logged.note entry) :=
  fun _ => ⟨[entry], rfl, holds⟩

theorem Leaves.call {entry : Except Failure Answer → Entry} {answer : List Entry → Except Failure Answer}
    (holds : ∀ outcome, trace outcome [entry outcome]) : Leaves trace (Logged.call entry answer) :=
  fun log => ⟨[entry (answer log)], rfl, holds (answer log)⟩

/-- A failure of the first part is the trace, and a success goes on with the second part. -/
theorem Leaves.bind {rest : Answer → Logged Entry Failure Result} {whole : Except Failure Result → List Entry → Prop}
    (first : Leaves trace program) (fails : ∀ failure made, trace (.error failure) made → whole (.error failure) made)
    (later : ∀ answer made, trace (.ok answer) made → Leaves (fun outcome more => whole outcome (made ++ more)) (rest answer)) :
    Leaves whole (program >>= rest) := by
  intro log
  obtain ⟨made, same, holds⟩ := first log
  cases ran : program log with
  | mk outcome log' =>
      rw [ran] at same holds
      dsimp only at same holds
      subst same
      cases outcome with
      | error failure =>
          rw [Logged.bind_error ran]
          exact ⟨made, rfl, fails failure made holds⟩
      | ok answer =>
          rw [Logged.bind_ok ran]
          obtain ⟨more, same, holds⟩ := later answer made holds (log ++ made)
          exact ⟨made ++ more, by rw [same, List.append_assoc], holds⟩

theorem Leaves.attempt (leaves : Leaves trace program) :
    Leaves (fun (outcome : Except Other (Except Failure Answer)) made => ∃ inner, outcome = .ok inner ∧ trace inner made)
      (Logged.attempt program) := by
  intro log
  obtain ⟨made, same, traced⟩ := leaves log
  exact ⟨made, same, _, rfl, traced⟩

section Loops

variable {body : Item → Logged Entry Failure Unit} {each : Item → Except Failure Unit → List Entry → Prop}

/-- What a loop leaves: each item of a success in its turn, and up to the failing item otherwise. -/
inductive ForEachTrace (each : Item → Except Failure Unit → List Entry → Prop) :
    List Item → Except Failure Unit → List Entry → Prop
  | done : ForEachTrace each [] (.ok ()) []
  | failed {item : Item} {rest : List Item} {failure : Failure} {made : List Entry}
      (stops : each item (.error failure) made) : ForEachTrace each (item :: rest) (.error failure) made
  | next {item : Item} {rest : List Item} {outcome : Except Failure Unit} {made more : List Entry}
      (first : each item (.ok ()) made) (later : ForEachTrace each rest outcome more) :
      ForEachTrace each (item :: rest) outcome (made ++ more)

theorem Leaves.forEach (leaves : ∀ item, Leaves (each item) (body item)) (items : List Item) :
    Leaves (ForEachTrace each items) (Logged.forEach body items) := by
  induction items with
  | nil => exact Leaves.pure .done
  | cons item rest ih =>
      apply Leaves.bind (leaves item)
      · exact fun _ _ stops => .failed stops
      · intro _ made first
        exact ih.mono fun _ _ later => .next first later

/-- A loop that succeeds has gone through each item. -/
theorem ForEachTrace.parts {items : List Item} {made : List Entry} (trace : ForEachTrace each items (.ok ()) made) :
    ∃ parts, made = parts.flatten ∧ List.Forall₂ (fun item part => each item (.ok ()) part) items parts := by
  induction items generalizing made with
  | nil =>
      cases trace with
      | done => exact ⟨[], rfl, .nil⟩
  | cons item rest ih =>
      cases trace with
      | next first later =>
          obtain ⟨parts, rfl, covered⟩ := ih later
          exact ⟨_ :: parts, rfl, .cons first covered⟩

theorem ForEachTrace.unfailing {items : List Item} {outcome : Except Failure Unit} {made : List Entry}
    (trace : ForEachTrace each items outcome made) (never : ∀ item failure made, ¬ each item (.error failure) made) :
    outcome = .ok () := by
  induction trace with
  | done => rfl
  | failed stops => exact absurd stops (never _ _ _)
  | next _ _ ih => exact ih

/-- Whatever has its turn is the turn of an item. -/
theorem turn_of_mem {relation : Item → List Entry → Prop} {items : List Item} {parts : List (List Entry)}
    (covered : List.Forall₂ relation items parts) {part : List Entry} (member : part ∈ parts) :
    ∃ item ∈ items, relation item part := by
  obtain ⟨index, bound, rfl⟩ := List.getElem_of_mem member
  have inside : index < items.length := covered.length_eq ▸ bound
  exact ⟨items[index], List.getElem_mem inside, covered.get inside bound⟩

/-- Each turn keeps what its own calls give. -/
theorem turns_imp {relation other : Item → List Entry → Prop} {items : List Item} {parts : List (List Entry)}
    (covered : List.Forall₂ relation items parts)
    (gives : ∀ item part, part ⊆ parts.flatten → relation item part → other item part) :
    List.Forall₂ other items parts := by
  induction covered with
  | nil => exact .nil
  | cons first _ ih =>
      refine .cons (gives _ _ (List.subset_append_left _ _) first) (ih fun item part inside => ?_)
      exact gives item part (List.Subset.trans inside (List.subset_append_right _ _))

/-- What holds for the calls of each item holds for the calls of the loop. -/
theorem ForEachTrace.forall {items : List Item} {outcome : Except Failure Unit} {made : List Entry}
    {holds : Entry → Prop} (trace : ForEachTrace each items outcome made)
    (all : ∀ item ∈ items, ∀ outcome made, each item outcome made → ∀ entry ∈ made, holds entry) :
    ∀ entry ∈ made, holds entry := by
  induction trace with
  | done => exact fun _ member => absurd member List.not_mem_nil
  | failed stops => exact all _ List.mem_cons_self _ _ stops
  | next first later ih =>
      intro entry member
      rcases List.mem_append.mp member with here | there
      · exact all _ List.mem_cons_self _ _ first entry here
      · exact ih (fun item inside => all item (List.mem_cons_of_mem _ inside)) entry there

/-- What one turn of a sweep leaves. -/
inductive SweepTurn (each : Item → Except Failure Unit → List Entry → Prop) (failed : Item → Failure → Entry)
    (item : Item) : List Entry → Prop
  | succeeded {made : List Entry} (done : each item (.ok ()) made) : SweepTurn each failed item made
  | failed {failure : Failure} {made : List Entry} (stops : each item (.error failure) made) :
      SweepTurn each failed item (made ++ [failed item failure])

theorem Leaves.tried {failed : Item → Failure → Entry} (leaves : ∀ item, Leaves (each item) (body item)) (item : Item) :
    Leaves (fun (outcome : Except Other Unit) made => outcome = .ok () ∧ SweepTurn each failed item made)
      (Logged.tried failed body item) := by
  apply Leaves.bind (leaves item).attempt
  · rintro _ _ ⟨_, same, _⟩
    cases same
  · rintro outcome made ⟨_, same, traced⟩
    cases same
    cases outcome with
    | ok => exact Leaves.pure ⟨rfl, by simpa using SweepTurn.succeeded traced⟩
    | error failure => exact Leaves.note ⟨rfl, .failed traced⟩

/-- A sweep never fails, and each item has its turn. -/
theorem Leaves.sweep {failed : Item → Failure → Entry} (leaves : ∀ item, Leaves (each item) (body item))
    (items : List Item) : Leaves (fun (outcome : Except Other Unit) made => outcome = .ok () ∧
      ∃ parts, made = parts.flatten ∧ List.Forall₂ (SweepTurn each failed) items parts)
        (Logged.sweep failed body items) := by
  refine (Leaves.forEach (Leaves.tried leaves) items).mono fun outcome made trace => ?_
  obtain rfl := trace.unfailing fun _ _ _ tried => by cases tried.1
  obtain ⟨parts, same, covered⟩ := trace.parts
  exact ⟨rfl, parts, same, covered.imp fun _ _ tried => tried.2⟩

end Loops

end Library
