import Mathlib.Data.List.Induction
import Mathlib.Data.List.ReduceOption

/-
This file compares what a column with a fallback stores with the last value that
was supplied for it.
-/

namespace Library

variable {Value : Type}

/-- An event lists optional values, and it is written when it is accepted. -/
structure Listing (Value : Type) where
  values : List (Option Value)
  accepted : Bool

/-- The last listed value is written, or the fallback in its place. -/
def Listing.write (fallback : Value) (listing : Listing Value) (before : Option Value) :
    Option Value :=
  if listing.accepted then
    (listing.values.getLast?.map fun value => value.getD fallback).or before
  else before

def stored (fallback : Value) (listings : List (Listing Value)) : Option Value :=
  listings.foldl (fun before listing => listing.write fallback before) none

def lastSupplied (listings : List (Listing Value)) : Option Value :=
  (listings.flatMap Listing.values).reduceOption.getLast?

/-- The column holds the last supplied value, and the fallback where there is none. -/
def Faithful (fallback : Value) (listings : List (Listing Value)) : Prop :=
  ∀ value ∈ stored fallback listings, value = (lastSupplied listings).getD fallback

/-- The event supplies what it writes, and what it does not write is known. -/
structure Supplies (fallback : Value) (past : List (Listing Value)) (listing : Listing Value) :
    Prop where
  written : listing.accepted = true → listing.values.getLast? = some none →
    ∀ value ∈ lastSupplied (past ++ [listing]), value = fallback
  unwritten : listing.accepted = false → (stored fallback past).isSome = true →
    ∀ value ∈ lastSupplied [listing], value = (lastSupplied past).getD fallback

section Snoc

variable {fallback : Value} {past : List (Listing Value)} {listing : Listing Value}

theorem stored_snoc :
    stored fallback (past ++ [listing]) = listing.write fallback (stored fallback past) := by
  simp [stored]

theorem lastSupplied_snoc :
    lastSupplied (past ++ [listing]) = (lastSupplied [listing]).or (lastSupplied past) := by
  simp [lastSupplied, List.reduceOption_append, List.getLast?_append]

theorem lastSupplied_last {value : Value} (last : listing.values.getLast? = some (some value)) :
    lastSupplied [listing] = some value := by
  obtain ⟨initial, same⟩ := List.getLast?_eq_some_iff.mp last
  simp [lastSupplied, same, List.reduceOption_append]

/-- An event keeps the column faithful exactly if it supplies it. -/
theorem faithful_snoc (faithful : Faithful fallback past) :
    Faithful fallback (past ++ [listing]) ↔ Supplies fallback past listing := by
  cases accepted : listing.accepted with
  | true =>
      have unwritten : listing.accepted = false → (stored fallback past).isSome = true →
          ∀ value ∈ lastSupplied [listing], value = (lastSupplied past).getD fallback := by
        simp [accepted]
      cases last : listing.values.getLast? with
      | none =>
          have nothing : lastSupplied [listing] = none := by
            simp [lastSupplied, List.getLast?_eq_none_iff.mp last]
          refine iff_of_true ?_ ⟨by simp [last], unwritten⟩
          rw [Faithful, stored_snoc, lastSupplied_snoc, nothing]
          simpa [Faithful, Listing.write, accepted, last] using faithful
      | some final =>
          cases final with
          | none =>
              rw [Faithful, stored_snoc]
              simp only [Listing.write, accepted, if_true, last, Option.map_some, Option.getD_none,
                Option.some_or, Option.mem_some_iff, forall_eq']
              constructor
              · intro same
                refine ⟨fun _ _ value supplied => ?_, unwritten⟩
                rw [Option.mem_def.mp supplied] at same
                exact same.symm
              · intro supplies
                cases supplied : lastSupplied (past ++ [listing]) with
                | none => rfl
                | some value => exact (supplies.written accepted last value supplied).symm
          | some value =>
              refine iff_of_true ?_ ⟨by simp [last], unwritten⟩
              rw [Faithful, stored_snoc, lastSupplied_snoc, lastSupplied_last last]
              simp [Listing.write, accepted, last]
  | false =>
      rw [Faithful, stored_snoc, lastSupplied_snoc]
      simp only [Listing.write, accepted, Bool.false_eq_true, if_false]
      constructor
      · intro same
        refine ⟨by simp [accepted], fun _ present value supplied => ?_⟩
        obtain ⟨old, found⟩ := Option.isSome_iff_exists.mp present
        rw [← faithful old found, same old found, Option.mem_def.mp supplied]
        rfl
      · intro supplies old found
        cases supplied : lastSupplied [listing] with
        | none => exact faithful old found
        | some value =>
            rw [faithful old found]
            exact (supplies.unwritten accepted (by rw [Option.mem_def.mp found]; rfl) value
              supplied).symm

end Snoc

end Library
