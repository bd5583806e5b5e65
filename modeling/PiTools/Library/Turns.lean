import PiTools.Library.Rows

/-
This file studies holders of one resource that follow one another. A holder is
exposed while the work of another holder could clash with its own, and it only
becomes exposed while the resource accepts it.
-/

namespace Library

variable {Holder Key : Type} {key : Holder → Key} {exposed accepted accepted' : Holder → Prop}
  {holders holders' : List Holder} {holder new other : Holder}

/-- A holder that another one of its key has followed is neither exposed nor accepted. -/
def TakeTurns (key : Holder → Key) (exposed accepted : Holder → Prop) (holders : List Holder) :
    Prop :=
  holders.Pairwise fun earlier later =>
    key earlier = key later → ¬ exposed earlier ∧ ¬ accepted earlier

/-- The resource may stop to accept holders. -/
theorem TakeTurns.mono (turns : TakeTurns key exposed accepted holders)
    (fewer : ∀ holder ∈ holders, accepted' holder → accepted holder) :
    TakeTurns key exposed accepted' holders := by
  refine List.Pairwise.imp_of_mem ?_ turns
  intro earlier later inside _ apart same
  exact ⟨(apart same).1, fun still => (apart same).2 (fewer earlier inside still)⟩

/-- A new holder follows those of its key that are closed and no longer accepted. -/
theorem TakeTurns.snoc (turns : TakeTurns key exposed accepted holders)
    (follows : ∀ holder ∈ holders, key holder = key new → ¬ exposed holder ∧ ¬ accepted holder) :
    TakeTurns key exposed accepted (holders ++ [new]) := by
  refine List.pairwise_append.mpr ⟨turns, List.pairwise_singleton _ _, ?_⟩
  intro earlier inside later single
  rw [List.mem_singleton] at single
  subst single
  exact follows earlier inside

/-- A holder that is exposed or accepted has no open holder of its key beside it. -/
theorem TakeTurns.alone (turns : TakeTurns key exposed accepted holders)
    (next : Replaces holders holder [new] holders') (busy : exposed holder ∨ accepted holder)
    (member : other ∈ holders') :
    other = new ∨ (other ∈ holders ∧ (key other = key holder → ¬ exposed other ∧ ¬ accepted other)) := by
  obtain ⟨front, back, rfl, rfl⟩ := next
  obtain ⟨_, fromHolder, across⟩ := List.pairwise_append.mp turns
  rw [List.append_assoc, List.singleton_append, List.mem_append, List.mem_cons] at member
  rcases member with inFront | rfl | inBack
  · exact .inr ⟨List.mem_append_left _ inFront, across other inFront holder (.head _)⟩
  · exact .inl rfl
  · refine .inr ⟨List.mem_append_right _ (.tail _ inBack), fun same => ?_⟩
    have followed := (List.pairwise_cons.mp fromHolder).1 other inBack same.symm
    exact (busy.elim followed.1 followed.2).elim

/-- Beside a holder that is exposed or accepted every other one of its key is closed. -/
theorem TakeTurns.closed {replacement : List Holder} (turns : TakeTurns key exposed accepted holders)
    (next : Replaces holders holder replacement holders') (busy : exposed holder ∨ accepted holder)
    (member : other ∈ holders) (same : key other = key holder) (apart : other ≠ holder) :
    ¬ exposed other ∧ ¬ accepted other := by
  obtain ⟨front, back, split, _⟩ := next
  have stays : Replaces holders holder [holder] holders := ⟨front, back, split, by simp [split]⟩
  rcases turns.alone stays busy member with equal | ⟨_, closed⟩
  · exact absurd equal apart
  · exact closed same

/-- A holder moves on when it opens only under the resource. -/
theorem TakeTurns.replace (turns : TakeTurns key exposed accepted holders)
    (next : Replaces holders holder [new] holders') (same : key new = key holder)
    (opens : exposed new → exposed holder ∨ accepted holder)
    (accepts : accepted new → accepted holder) : TakeTurns key exposed accepted holders' := by
  obtain ⟨front, back, rfl, rfl⟩ := next
  obtain ⟨inFront, fromHolder, across⟩ := List.pairwise_append.mp turns
  obtain ⟨followed, inBack⟩ := List.pairwise_cons.mp fromHolder
  rw [List.append_assoc, List.singleton_append]
  refine List.pairwise_append.mpr ⟨inFront, List.pairwise_cons.mpr ⟨?_, inBack⟩, ?_⟩
  · intro later inside equal
    have closed := followed later inside (same.symm.trans equal)
    exact ⟨fun exposed => (opens exposed).elim closed.1 closed.2,
      fun accepted => closed.2 (accepts accepted)⟩
  · intro earlier inside later member
    rcases List.mem_cons.mp member with rfl | later
    · rw [same]
      exact across earlier inside holder (.head _)
    · exact across earlier inside _ (.tail _ later)

end Library
