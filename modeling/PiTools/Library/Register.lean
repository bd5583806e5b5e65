import Mathlib.Order.Lattice

/-
This file compares a register, in which the latest stamp wins, with the versions
that were written to it.
-/

namespace Library

/-! ### Writes -/

section Writes

variable {Row Stamp : Type} [LinearOrder Stamp]

/-- A row with an earlier stamp leaves the register as it is. -/
def writeLater (stamp : Row → Stamp) (stored : Option Row) (new : Row) : Option Row :=
  match stored with
  | none => some new
  | some old => if stamp old ≤ stamp new then some new else some old

variable {stamp : Row → Stamp} {old new : Row}

@[simp] theorem writeLater_none : writeLater stamp none new = some new := rfl

theorem writeLater_later (later : stamp old ≤ stamp new) :
    writeLater stamp (some old) new = some new := if_pos later

theorem writeLater_earlier (earlier : stamp new < stamp old) :
    writeLater stamp (some old) new = some old := if_neg (not_le_of_gt earlier)

end Writes

/-! ### Versions -/

section Versions

variable {Version Rank Content : Type} [LinearOrder Rank]

/-- What is stored shows a newest one of the versions. -/
def Newest (rank : Version → Rank) (view : Version → Content) (versions : List Version)
    (stored : Option Content) : Prop :=
  match stored with
  | none => versions = []
  | some content => ∃ newest ∈ versions, view newest = content ∧
      ∀ version ∈ versions, rank version ≤ rank newest

variable {Row Stamp : Type} [LinearOrder Stamp]

/-- The stamps of the stored and of the new row have the order of their versions. -/
structure StampsFollow (rank : Version → Rank) (stamp : Row → Stamp) (versions : List Version)
    (stored : Option Row) (version : Version) (new : Stamp) : Prop where
  newer : ∀ old, stored = some old → (∀ other ∈ versions, rank other < rank version) →
    stamp old ≤ new
  older : ∀ old, stored = some old → ∀ other ∈ versions, rank version < rank other →
    new < stamp old

variable {rank : Version → Rank} {view : Version → Content} {stamp : Row → Stamp}
  {content : Row → Content} {versions : List Version} {stored : Option Row} {version : Version}
  {new : Row}

/-- Stamps that follow the versions keep a newest version in the register. -/
theorem Newest.write (newest : Newest rank view versions (stored.map content))
    (shown : view version = content new)
    (follow : StampsFollow rank stamp versions stored version (stamp new)) :
    Newest rank view (versions ++ [version]) ((writeLater stamp stored new).map content) := by
  cases stored with
  | none =>
      have empty : versions = [] := newest
      subst empty
      exact ⟨version, List.mem_singleton_self _, shown, by simp⟩
  | some old =>
      obtain ⟨best, member, same, above⟩ := newest
      have replaced (latest : rank best ≤ rank version) :
          Newest rank view (versions ++ [version]) (some (content new)) := by
        refine ⟨version, by simp, shown, fun other inside => ?_⟩
        rcases List.mem_append.mp inside with before | now
        · exact (above other before).trans latest
        · rw [List.mem_singleton.mp now]
      have kept (latest : rank version ≤ rank best) :
          Newest rank view (versions ++ [version]) (some (content old)) := by
        refine ⟨best, List.mem_append_left _ member, same, fun other inside => ?_⟩
        rcases List.mem_append.mp inside with before | now
        · exact above other before
        · rwa [List.mem_singleton.mp now]
      -- Two versions of one rank may replace each other.
      rcases lt_trichotomy (rank best) (rank version) with below | equal | beyond
      · rw [writeLater_later (follow.newer old rfl fun other inside => (above other inside).trans_lt below)]
        exact replaced below.le
      · by_cases later : stamp old ≤ stamp new
        · rw [writeLater_later later]
          exact replaced equal.le
        · rw [writeLater_earlier (lt_of_not_ge later)]
          exact kept equal.ge
      · rw [writeLater_earlier (follow.older old rfl best member beyond)]
        exact kept beyond.le

end Versions

end Library
