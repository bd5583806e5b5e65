import Mathlib.Data.List.Destutter
import Mathlib.Data.List.Sort
import Mathlib.Data.List.TakeWhile
import Mathlib.Order.Defs.LinearOrder

/-
This file finds the latest items of a list by sorting it, and shows when a sorted
list depends on its members only.
-/

namespace Library

/-! ### The latest item -/

section Latest

variable {Item : Type} (before : Item → Item → Prop) [DecidableRel before]

/-- The last wanted item of the sorted items. -/
def latest (wanted : Item → Bool) (items : List Item) : Option Item :=
  (items.insertionSort before).reverse.find? wanted

/-- The item is wanted, no wanted item is behind it, and of those beside it it is the last one. -/
def IsLatest (wanted : Item → Bool) (items : List Item) (item : Item) : Prop :=
  ∃ earlier later, items = earlier ++ item :: later ∧ wanted item = true ∧
    (∀ other ∈ earlier, wanted other = true → before other item) ∧
      ∀ other ∈ later, wanted other = true → ¬ before item other

variable {before} {wanted : Item → Bool} {items : List Item} {item : Item}

theorem latest_mem (found : latest before wanted items = some item) :
    item ∈ items ∧ wanted item = true := by
  refine ⟨?_, List.find?_some found⟩
  have member := List.mem_reverse.mp (List.mem_of_find?_eq_some found)
  exact (List.mem_insertionSort before).mp member

theorem latest_eq_none : latest before wanted items = none ↔
    ∀ other ∈ items, wanted other ≠ true := by
  simp only [latest, List.find?_eq_none, List.mem_reverse, List.mem_insertionSort]

omit [DecidableRel before] in
theorem isLatest_cons (first : Item) (rest : List Item) :
    IsLatest before wanted (first :: rest) item ↔
      (item = first ∧ wanted first = true ∧
        ∀ other ∈ rest, wanted other = true → ¬ before first other) ∨
      (IsLatest before wanted rest item ∧ (wanted first = true → before first item)) := by
  constructor
  · rintro ⟨earlier, later, split, wants, inFront, behind⟩
    cases earlier with
    | nil =>
        obtain ⟨rfl, rfl⟩ := List.cons.inj split
        exact .inl ⟨rfl, wants, behind⟩
    | cons head earlier =>
        obtain ⟨rfl, rfl⟩ := List.cons.inj split
        refine .inr ⟨⟨earlier, later, rfl, wants, ?_, behind⟩, inFront first List.mem_cons_self⟩
        exact fun other member => inFront other (List.mem_cons_of_mem _ member)
  · rintro (⟨rfl, wants, behind⟩ | ⟨⟨earlier, later, rfl, wants, inFront, behind⟩, head⟩)
    · exact ⟨[], rest, rfl, wants, by simp, behind⟩
    · exact ⟨first :: earlier, later, rfl, wants, List.forall_mem_cons.mpr ⟨head, inFront⟩, behind⟩

variable [Std.Total before]

omit [DecidableRel before] in
/-- The latest item is wanted, and no wanted item is behind it. -/
theorem IsLatest.spec (given : IsLatest before wanted items item) :
    item ∈ items ∧ wanted item = true ∧ ∀ other ∈ items, wanted other = true → before other item := by
  obtain ⟨earlier, later, rfl, wants, inFront, behind⟩ := given
  refine ⟨by simp, wants, fun other member wanted_ => ?_⟩
  rcases List.mem_append.mp member with inEarlier | inRest
  · exact inFront other inEarlier wanted_
  · rcases List.mem_cons.mp inRest with rfl | inLater
    · exact refl_of before other
    · exact (total_of before other item).resolve_right (behind other inLater wanted_)

variable [IsTrans Item before]

/-- An item in front is the latest one when no later item is at or behind it. -/
theorem latest_cons (first : Item) (rest : List Item) :
    latest before wanted (first :: rest) =
      if wanted first = true then
        match latest before wanted rest with
        | some found => if before first found then some found else some first
        | none => some first
      else latest before wanted rest := by
  have sorted : (rest.insertionSort before).Pairwise before := List.pairwise_insertionSort before rest
  simp only [latest, List.insertionSort_cons_eq_take_drop, List.reverse_append, List.reverse_cons,
    List.find?_append, List.append_assoc, List.find?_singleton]
  generalize rest.insertionSort before = ordered at sorted
  have split := List.takeWhile_append_dropWhile (p := fun other => ¬ before first other) (l := ordered)
  have behind : ∀ other ∈ ordered.dropWhile fun other => ¬ before first other, before first other := by
    intro other member
    cases known : ordered.dropWhile fun other => ¬ before first other with
    | nil =>
        rw [known] at member
        cases member
    | cons head tail =>
        have starts : before first head := by
          have stop := List.head?_dropWhile_not (fun other => decide ¬ before first other) ordered
          rw [known] at stop
          simpa using stop
        rw [← split, known] at sorted
        rw [known] at member
        rcases List.mem_cons.mp member with rfl | inTail
        · exact starts
        · exact trans_of before starts
            ((List.pairwise_cons.mp (List.pairwise_append.mp sorted).2.1).1 other inTail)
  have ahead : ∀ other ∈ ordered.takeWhile fun other => ¬ before first other,
      ¬ before first other := by
    intro other member
    simpa using List.mem_takeWhile_imp member
  have whole : ordered.reverse.find? wanted =
      ((ordered.dropWhile fun other => ¬ before first other).reverse.find? wanted).or
        ((ordered.takeWhile fun other => ¬ before first other).reverse.find? wanted) := by
    rw [← List.find?_append, ← List.reverse_append, split]
  rw [whole]
  cases found : (ordered.dropWhile fun other => ¬ before first other).reverse.find? wanted with
  | some other =>
      have member := List.mem_reverse.mp (List.mem_of_find?_eq_some found)
      simp [behind other member]
  | none =>
      cases inFront : (ordered.takeWhile fun other => ¬ before first other).reverse.find? wanted with
      | none => simp
      | some other =>
          have member := List.mem_reverse.mp (List.mem_of_find?_eq_some inFront)
          split <;> simp [ahead other member, *]

/-- No wanted item is behind the latest one. -/
theorem before_latest (found : latest before wanted items = some item) :
    ∀ other ∈ items, wanted other = true → before other item := by
  induction items generalizing item with
  | nil => cases found
  | cons first rest ih =>
      rw [latest_cons] at found
      intro other member wants
      split at found
      · cases known : latest before wanted rest with
        | none =>
            rw [known] at found
            cases found
            rcases List.mem_cons.mp member with rfl | inRest
            · exact refl_of before _
            · exact absurd wants (latest_eq_none.mp known other inRest)
        | some behind =>
            rw [known] at found
            dsimp only at found
            split at found
            · cases found
              rcases List.mem_cons.mp member with rfl | inRest
              · assumption
              · exact ih known other inRest wants
            · rename_i notBefore
              cases found
              rcases List.mem_cons.mp member with rfl | inRest
              · exact refl_of before _
              · have under := ih known other inRest wants
                have above := (total_of before first behind).resolve_left notBefore
                exact trans_of before under above
      · rename_i unwanted
        rcases List.mem_cons.mp member with rfl | inRest
        · exact absurd wants unwanted
        · exact ih found other inRest wants

/-- The search in the sorted items finds the latest item. -/
theorem latest_eq_some : latest before wanted items = some item ↔
    IsLatest before wanted items item := by
  induction items with
  | nil =>
      constructor
      · intro found
        cases found
      · rintro ⟨earlier, later, split, -⟩
        simp at split
  | cons first rest ih =>
      rw [latest_cons, isLatest_cons, ← ih]
      by_cases wants : wanted first = true
      · rw [if_pos wants]
        cases known : latest before wanted rest with
        | none =>
            have none_ : ∀ other ∈ rest, wanted other = true → ¬ before first other :=
              fun other member wanted_ => absurd wanted_ (latest_eq_none.mp known other member)
            constructor
            · rintro ⟨⟩
              exact .inl ⟨rfl, wants, none_⟩
            · rintro (⟨rfl, -, -⟩ | ⟨absent, -⟩)
              · rfl
              · cases absent
        | some behind =>
            obtain ⟨inRest, wantsBehind⟩ := latest_mem known
            dsimp only
            by_cases beside : before first behind
            · rw [if_pos beside]
              constructor
              · rintro ⟨⟩
                exact .inr ⟨rfl, fun _ => beside⟩
              · rintro (⟨-, -, noneBehind⟩ | ⟨same, -⟩)
                · exact absurd beside (noneBehind behind inRest wantsBehind)
                · exact same
            · rw [if_neg beside]
              constructor
              · rintro ⟨⟩
                refine .inl ⟨rfl, wants, fun other member wanted_ later => beside ?_⟩
                exact trans_of before later (before_latest known other member wanted_)
              · rintro (⟨rfl, -, -⟩ | ⟨same, head⟩)
                · rfl
                · cases same
                  exact absurd (head wants) beside
      · rw [if_neg wants]
        simp [wants]

variable (before wanted) in
/-- Among items that the order tells apart, the latest one depends on the members only. -/
theorem latest_congr {first second : List Item} (same : ∀ item, item ∈ first ↔ item ∈ second)
    (apart : ∀ left ∈ first, ∀ right ∈ first, before left right → before right left → left = right) :
    latest before wanted first = latest before wanted second := by
  cases found : latest before wanted first with
  | none =>
      symm
      rw [latest_eq_none] at found ⊢
      exact fun other member => found other ((same other).mpr member)
  | some item =>
      cases found' : latest before wanted second with
      | none =>
          obtain ⟨member, wants⟩ := latest_mem found
          exact absurd wants (latest_eq_none.mp found' item ((same item).mp member))
      | some item' =>
          obtain ⟨member, wants⟩ := latest_mem found
          obtain ⟨member', wants'⟩ := latest_mem found'
          rw [apart item member item' ((same item').mpr member')
            (before_latest found' item ((same item).mp member) wants)
            (before_latest found item' ((same item').mpr member') wants')]

end Latest

/-! ### One item of each key -/

section Keys

variable {Item Key : Type} [LinearOrder Key] {key : Item → Key}

/-- The items in the order of their keys, with the first one of each key. -/
def distinctByKey (key : Item → Key) (items : List Item) : List Item :=
  (items.insertionSort fun left right => key left ≤ key right).destutter
    fun left right => key left ≠ key right

theorem mem_destutter'_key {first : Item} {rest : List Item}
    (apart : ∀ left ∈ first :: rest, ∀ right ∈ first :: rest, key left = key right → left = right)
    (item : Item) :
    item ∈ List.destutter' (fun left right => key left ≠ key right) first rest ↔
      item ∈ first :: rest := by
  induction rest generalizing first with
  | nil => simp
  | cons second rest ih =>
      rw [List.destutter'_cons]
      split
      · rw [List.mem_cons, ih fun left inLeft right inRight => apart left (List.mem_cons_of_mem _ inLeft)
          right (List.mem_cons_of_mem _ inRight), List.mem_cons (a := item) (b := first)]
      · rename_i same
        have equal : first = second :=
          apart first (by simp) second (by simp) (not_not.mp same)
        subst equal
        rw [ih fun left inLeft right inRight => apart left (List.mem_cons_of_mem _ inLeft)
          right (List.mem_cons_of_mem _ inRight)]
        simp

theorem mem_distinctByKey {items : List Item}
    (apart : ∀ left ∈ items, ∀ right ∈ items, key left = key right → left = right) (item : Item) :
    item ∈ distinctByKey key items ↔ item ∈ items := by
  rw [distinctByKey, ← List.mem_insertionSort (fun left right => key left ≤ key right) (l := items)]
  have members : ∀ other ∈ items.insertionSort fun left right => key left ≤ key right,
      other ∈ items := fun other => (List.mem_insertionSort _).mp
  cases known : items.insertionSort fun left right => key left ≤ key right with
  | nil => rfl
  | cons first rest =>
      rw [known] at members
      rw [List.destutter_cons']
      exact mem_destutter'_key (fun left inLeft right inRight =>
        apart left (members left inLeft) right (members right inRight)) item

theorem distinctByKey_increasing (items : List Item) :
    (distinctByKey key items).Pairwise fun left right => key left < key right := by
  have sorted : (distinctByKey key items).Pairwise fun left right => key left ≤ key right :=
    (List.pairwise_insertionSort (fun left right => key left ≤ key right) items).sublist
      (List.destutter_sublist _ _)
  have chain : (distinctByKey key items).IsChain fun left right => key left ≠ key right :=
    List.isChain_destutter _ _
  rw [← List.isChain_iff_pairwise, List.isChain_iff_forall_rel_of_append_cons_cons]
  intro left right front behind split
  have below := List.isChain_iff_forall_rel_of_append_cons_cons.mp sorted.isChain split
  have other := List.isChain_iff_forall_rel_of_append_cons_cons.mp chain split
  exact lt_of_le_of_ne below other

/-- When the keys tell the items apart, the list depends on the members only. -/
theorem distinctByKey_congr {first second : List Item}
    (same : ∀ item, item ∈ first ↔ item ∈ second)
    (apart : ∀ left ∈ first, ∀ right ∈ first, key left = key right → left = right) :
    distinctByKey key first = distinctByKey key second := by
  have apart' : ∀ left ∈ second, ∀ right ∈ second, key left = key right → left = right :=
    fun left inLeft right inRight => apart left ((same left).mpr inLeft) right ((same right).mpr inRight)
  have nodup : ∀ items : List Item, (distinctByKey key items).Nodup :=
    fun items => (distinctByKey_increasing items).imp fun less equal => less.ne (congrArg key equal)
  refine List.Perm.eq_of_pairwise (fun left right _ _ less greater => ?_)
    (distinctByKey_increasing first) (distinctByKey_increasing second) ?_
  · exact absurd less greater.asymm
  · rw [List.perm_ext_iff_of_nodup (nodup first) (nodup second)]
    intro item
    rw [mem_distinctByKey apart, mem_distinctByKey apart', same]

end Keys

end Library
