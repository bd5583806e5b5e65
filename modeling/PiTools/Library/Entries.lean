import Mathlib.Data.List.Induction
import Mathlib.Data.List.Nodup
import Mathlib.Data.List.Sort
import Mathlib.Order.Defs.LinearOrder

/-
This file models ordered maps as lists of entries with increasing keys.
-/

namespace Library

abbrev Entries (Key Value : Type) := List (Key × Value)

namespace Entries

variable {Key Value : Type} [LinearOrder Key]

def lookup (key : Key) : Entries Key Value → Option Value
  | [] => none
  | (other, value) :: rest => if key = other then some value else lookup key rest

/-- An insertion replaces the value of a key that is present. -/
def insert (key : Key) (value : Value) : Entries Key Value → Entries Key Value
  | [] => [(key, value)]
  | (other, old) :: rest =>
      if key = other then (key, value) :: rest
      else if key < other then (key, value) :: (other, old) :: rest
      else (other, old) :: insert key value rest

/-- The entries one after another, where a later entry replaces an earlier one. -/
def collect (pairs : List (Key × Value)) : Entries Key Value :=
  pairs.foldl (fun entries pair => insert pair.1 pair.2 entries) []

/-- The keys increase. -/
def Ordered (entries : Entries Key Value) : Prop :=
  entries.Pairwise fun first second => first.1 < second.1

theorem mem_insert {key : Key} {value : Value} {entry : Key × Value} {entries : Entries Key Value}
    (member : entry ∈ insert key value entries) : entry = (key, value) ∨ entry ∈ entries := by
  induction entries with
  | nil => exact .inl (List.mem_singleton.mp member)
  | cons first rest ih =>
      simp only [insert] at member
      split at member
      · exact (List.mem_cons.mp member).imp_right (List.mem_cons_of_mem _)
      · split at member
        · exact List.mem_cons.mp member
        · rcases List.mem_cons.mp member with rfl | later
          · exact .inr List.mem_cons_self
          · exact (ih later).imp_right (List.mem_cons_of_mem _)

theorem mem_keys_insert {key other : Key} {value : Value} {entries : Entries Key Value} :
    key ∈ (insert other value entries).map Prod.fst ↔
      key = other ∨ key ∈ entries.map Prod.fst := by
  induction entries with
  | nil => simp [insert]
  | cons first rest ih =>
      simp only [insert]
      split
      · rename_i same
        simp [same]
      · split
        · simp
        · simp only [List.map_cons, List.mem_cons, ih]
          tauto

theorem Ordered.insert {entries : Entries Key Value} (ordered : Ordered entries) (key : Key)
    (value : Value) : Ordered (entries.insert key value) := by
  induction entries with
  | nil => exact List.pairwise_singleton _ _
  | cons first rest ih =>
      obtain ⟨below, later⟩ := List.pairwise_cons.mp ordered
      simp only [Entries.insert]
      split
      · rename_i same
        exact List.pairwise_cons.mpr ⟨fun entry member => same ▸ below entry member, later⟩
      · rename_i different
        split
        · rename_i less
          refine List.pairwise_cons.mpr ⟨fun entry member => ?_, ordered⟩
          rcases List.mem_cons.mp member with rfl | inRest
          · exact less
          · exact less.trans (below entry inRest)
        · rename_i notLess
          refine List.pairwise_cons.mpr ⟨fun entry member => ?_, ih later⟩
          rcases mem_insert member with rfl | old
          · exact lt_of_le_of_ne (not_lt.mp notLess) (Ne.symm different)
          · exact below entry old

@[simp] theorem lookup_insert (key other : Key) (value : Value) (entries : Entries Key Value) :
    lookup key (insert other value entries) =
      if key = other then some value else lookup key entries := by
  induction entries with
  | nil => simp [insert, lookup]
  | cons first rest ih =>
      simp only [insert]
      split
      · rename_i same
        subst same
        simp only [lookup]
        split <;> rfl
      · rename_i different
        split
        · simp only [lookup]
        · simp only [lookup, ih]
          split
          · rename_i here
            rw [if_neg fun same => different (same.symm.trans here)]
          · rfl

theorem mem_of_lookup {key : Key} {value : Value} {entries : Entries Key Value}
    (found : lookup key entries = some value) : (key, value) ∈ entries := by
  induction entries with
  | nil => cases found
  | cons first rest ih =>
      simp only [lookup] at found
      split at found
      · rename_i same
        cases found
        rw [same]
        exact List.mem_cons_self
      · exact List.mem_cons_of_mem _ (ih found)

/-- The entries of an ordered map are what its lookups find. -/
theorem Ordered.mem_iff {entries : Entries Key Value} (ordered : Ordered entries) {key : Key}
    {value : Value} : (key, value) ∈ entries ↔ lookup key entries = some value := by
  refine ⟨fun member => ?_, mem_of_lookup⟩
  induction entries with
  | nil => cases member
  | cons first rest ih =>
      obtain ⟨below, later⟩ := List.pairwise_cons.mp ordered
      simp only [lookup]
      rcases List.mem_cons.mp member with rfl | inRest
      · rw [if_pos rfl]
      · rw [if_neg (below _ inRest).ne', ih later inRest]

/-- Ordered maps with the same lookups are equal. -/
theorem Ordered.ext {first second : Entries Key Value} (inFirst : Ordered first)
    (inSecond : Ordered second) (same : ∀ key, lookup key first = lookup key second) :
    first = second := by
  have irreflexive : ∀ entries : Entries Key Value, Ordered entries → entries.Nodup :=
    fun entries ordered => ordered.imp fun less equal => less.ne (congrArg Prod.fst equal)
  refine List.Perm.eq_of_pairwise (fun left right _ _ less greater => ?_) inFirst inSecond ?_
  · exact absurd less greater.asymm
  · rw [List.perm_ext_iff_of_nodup (irreflexive first inFirst) (irreflexive second inSecond)]
    rintro ⟨key, value⟩
    rw [inFirst.mem_iff, inSecond.mem_iff, same]

theorem Ordered.keys_nodup {entries : Entries Key Value} (ordered : Ordered entries) :
    (entries.map Prod.fst).Nodup :=
  List.pairwise_map.mpr (ordered.imp fun less => less.ne)

theorem foldl_insert_ordered {pairs : List (Key × Value)} {entries : Entries Key Value}
    (ordered : Ordered entries) :
    Ordered (pairs.foldl (fun entries pair => insert pair.1 pair.2 entries) entries) := by
  induction pairs generalizing entries with
  | nil => exact ordered
  | cons pair rest ih => exact ih (ordered.insert pair.1 pair.2)

theorem collect_ordered (pairs : List (Key × Value)) : Ordered (collect pairs) :=
  foldl_insert_ordered List.Pairwise.nil

/-- One more pair is inserted last. -/
theorem collect_append_singleton (pairs : List (Key × Value)) (pair : Key × Value) :
    collect (pairs ++ [pair]) = insert pair.1 pair.2 (collect pairs) := by
  rw [collect, List.foldl_append]
  rfl

/-- A lookup finds the last pair of the key. -/
theorem lookup_collect (key : Key) (pairs : List (Key × Value)) :
    lookup key (collect pairs) = (pairs.reverse.find? fun pair => key = pair.1).map Prod.snd := by
  induction pairs using List.reverseRecOn with
  | nil => rfl
  | append_singleton pairs last ih =>
      rw [collect_append_singleton, lookup_insert, ih, List.reverse_append, List.reverse_singleton,
        List.singleton_append, List.find?_cons]
      split
      · rename_i same
        simp [same]
      · rename_i different
        simp [different]

/-- Among distinct keys a lookup finds exactly the given pairs. -/
theorem lookup_collect_of_nodup {pairs : List (Key × Value)} (distinct : (pairs.map Prod.fst).Nodup)
    {key : Key} {value : Value} :
    lookup key (collect pairs) = some value ↔ (key, value) ∈ pairs := by
  rw [lookup_collect, Option.map_eq_some_iff]
  constructor
  · rintro ⟨pair, found, rfl⟩
    have member := List.mem_reverse.mp (List.mem_of_find?_eq_some found)
    have same := List.find?_some found
    rw [decide_eq_true_eq] at same
    rwa [same]
  · intro member
    cases found : pairs.reverse.find? fun pair => key = pair.1 with
    | none =>
        have missed := List.find?_eq_none.mp found _ (List.mem_reverse.mpr member)
        simp at missed
    | some pair =>
        have inside := List.mem_reverse.mp (List.mem_of_find?_eq_some found)
        have same := List.find?_some found
        rw [decide_eq_true_eq] at same
        exact ⟨pair, rfl, congrArg Prod.snd (List.inj_on_of_nodup_map distinct inside member same.symm)⟩

/-! ### Changed values -/

variable {Other : Type}

/-- An insertion into changed values is a change of the inserted value. -/
theorem insert_map (change : Value → Other) (key : Key) (value : Value)
    (entries : Entries Key Value) :
    insert key (change value) (entries.map fun entry => (entry.1, change entry.2)) =
      (insert key value entries).map fun entry => (entry.1, change entry.2) := by
  induction entries with
  | nil => rfl
  | cons first rest ih =>
      simp only [List.map_cons, insert]
      split
      · rfl
      · split
        · rfl
        · rw [List.map_cons, ih]

theorem collect_map (change : Value → Other) (pairs : List (Key × Value)) :
    collect (pairs.map fun pair => (pair.1, change pair.2)) =
      (collect pairs).map fun entry => (entry.1, change entry.2) := by
  induction pairs using List.reverseRecOn with
  | nil => rfl
  | append_singleton rest pair ih =>
      rw [List.map_append, List.map_singleton, collect_append_singleton, collect_append_singleton, ih]
      exact insert_map change pair.1 pair.2 (collect rest)

theorem lookup_map (change : Value → Other) (key : Key) (entries : Entries Key Value) :
    lookup key (entries.map fun entry => (entry.1, change entry.2)) =
      (lookup key entries).map change := by
  induction entries with
  | nil => rfl
  | cons first rest ih =>
      simp only [List.map_cons, lookup, ih]
      split <;> rfl

end Entries

end Library
