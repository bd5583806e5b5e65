import Mathlib.Algebra.GroupWithZero.Nat
import Mathlib.Data.List.Forall2
import Mathlib.Data.List.Nodup

/-
This file gives the meaning of a guarded update and of an ordered selection
over the rows of a table.
-/

namespace Library

variable {Row Key Failure : Type}

/-- The statement changes each row that meets the guard and counts these rows. -/
def updateRows (guard : Row → Bool) (change : Row → Except Failure Row) :
    List Row → Except Failure (List Row × Nat)
  | [] => .ok ([], 0)
  | row :: rest =>
      match updateRows guard change rest with
      | .error failure => .error failure
      | .ok (rows, count) =>
          if guard row then
            match change row with
            | .error failure => .error failure
            | .ok changed => .ok (changed :: rows, count + 1)
          else .ok (row :: rows, count)

/-- One row before and after a guarded update. -/
def Updated (guard : Row → Bool) (change : Row → Except Failure Row) (row row' : Row) : Prop :=
  (guard row = true ∧ change row = .ok row') ∨ (guard row = false ∧ row' = row)

/-- A successful update treats each row on its own. -/
theorem updateRows_spec {guard : Row → Bool} {change : Row → Except Failure Row}
    {rows rows' : List Row} {count : Nat} (updated : updateRows guard change rows = .ok (rows', count)) :
    List.Forall₂ (Updated guard change) rows rows' ∧ count = rows.countP guard := by
  induction rows generalizing rows' count with
  | nil =>
      simp only [updateRows, Except.ok.injEq, Prod.mk.injEq] at updated
      obtain ⟨rfl, rfl⟩ := updated
      exact ⟨.nil, rfl⟩
  | cons row rest ih =>
      simp only [updateRows] at updated
      split at updated
      · cases updated
      · rename_i tail tailCount tailUpdated
        obtain ⟨pointwise, counted⟩ := ih tailUpdated
        split at updated
        · rename_i met
          split at updated
          · cases updated
          · rename_i changed changedRow
            simp only [Except.ok.injEq, Prod.mk.injEq] at updated
            obtain ⟨rfl, rfl⟩ := updated
            exact ⟨.cons (.inl ⟨met, changedRow⟩) pointwise, by simp [met, counted]⟩
        · rename_i missed
          simp only [Except.ok.injEq, Prod.mk.injEq] at updated
          obtain ⟨rfl, rfl⟩ := updated
          exact ⟨.cons (.inr ⟨by simpa using missed, rfl⟩) pointwise, by simp [missed, counted]⟩

/-- An update whose changes cannot fail maps the rows that meet the guard. -/
theorem updateRows_map {guard : Row → Bool} {change : Row → Except Failure Row}
    {changed : Row → Row} (succeeds : ∀ row, guard row = true → change row = .ok (changed row))
    (rows : List Row) : updateRows guard change rows =
      .ok (rows.map fun row => if guard row then changed row else row, rows.countP guard) := by
  induction rows with
  | nil => rfl
  | cons row rest ih =>
      cases met : guard row with
      | true => simp [updateRows, ih, met, succeeds row met]
      | false => simp [updateRows, ih, met]

/-- An update that fails fails on a row that meets the guard. -/
theorem updateRows_error {guard : Row → Bool} {change : Row → Except Failure Row}
    {rows : List Row} {failure : Failure} (failed : updateRows guard change rows = .error failure) :
    ∃ row ∈ rows, guard row = true ∧ change row = .error failure := by
  induction rows with
  | nil => cases failed
  | cons row rest ih =>
      simp only [updateRows] at failed
      split at failed
      · rename_i other inner
        cases failed
        obtain ⟨row, member, met, refused⟩ := ih inner
        exact ⟨row, .tail _ member, met, refused⟩
      · split at failed
        · rename_i met
          split at failed
          · rename_i refused
            cases failed
            exact ⟨row, .head _, met, refused⟩
          · cases failed
        · cases failed

/-- A pointwise relation reaches every new row from an old row. -/
theorem forall₂_old {relation : Row → Row → Prop} {rows rows' : List Row} {row' : Row}
    (pointwise : List.Forall₂ relation rows rows') (member : row' ∈ rows') :
    ∃ row ∈ rows, relation row row' := by
  induction pointwise with
  | nil => cases member
  | cons related _ ih =>
      rcases List.mem_cons.mp member with rfl | member
      · exact ⟨_, .head _, related⟩
      · obtain ⟨row, old, related⟩ := ih member
        exact ⟨row, .tail _ old, related⟩

/-- A pointwise relation leads from every old row to a new row. -/
theorem forall₂_new {relation : Row → Row → Prop} {rows rows' : List Row} {row : Row}
    (pointwise : List.Forall₂ relation rows rows') (member : row ∈ rows) :
    ∃ row' ∈ rows', relation row row' := by
  obtain ⟨row', new, related⟩ := forall₂_old pointwise.flip member
  exact ⟨row', new, related⟩

/-- A pointwise relation that keeps a condition keeps the number of rows that meet it. -/
theorem forall₂_countP {relation : Row → Row → Prop} {rows rows' : List Row} {holds : Row → Bool}
    (pointwise : List.Forall₂ relation rows rows')
    (keeps : ∀ row row', relation row row' → holds row' = holds row) :
    rows'.countP holds = rows.countP holds := by
  induction pointwise with
  | nil => rfl
  | cons related _ ih => rw [List.countP_cons, List.countP_cons, ih, keeps _ _ related]

/-- A column that a pointwise relation keeps is the same in both tables. -/
theorem forall₂_map_eq {relation : Row → Row → Prop} {rows rows' : List Row} (column : Row → Key)
    (pointwise : List.Forall₂ relation rows rows')
    (keeps : ∀ row row', relation row row' → column row' = column row) :
    rows'.map column = rows.map column := by
  induction pointwise with
  | nil => rfl
  | cons related _ ih => rw [List.map_cons, List.map_cons, ih, keeps _ _ related]

/-- Two pointwise relations compose through the rows in between. -/
theorem forall₂_compose {first second : Row → Row → Prop} {rows middle rows' : List Row}
    (before : List.Forall₂ first rows middle) (after : List.Forall₂ second middle rows') :
    List.Forall₂ (fun row row' => ∃ between ∈ middle, first row between ∧ second between row')
      rows rows' := by
  induction before generalizing rows' with
  | nil =>
      cases after
      exact .nil
  | cons left _ ih =>
      cases after with
      | cons right rest =>
          refine .cons ⟨_, .head _, left, right⟩ ((ih rest).imp ?_)
          rintro row row' ⟨between, member, steps⟩
          exact ⟨between, .tail _ member, steps⟩

/-- A pointwise relation also knows where its old rows come from. -/
theorem forall₂_members {relation : Row → Row → Prop} {rows rows' : List Row}
    (pointwise : List.Forall₂ relation rows rows') :
    List.Forall₂ (fun row row' => row ∈ rows ∧ relation row row') rows rows' :=
  List.forall₂_iff_zip.mpr ⟨pointwise.length_eq, fun member =>
    ⟨(List.of_mem_zip member).1, (List.forall₂_iff_zip.mp pointwise).2 member⟩⟩

/-- Rows that keep their key and are never selected anew keep distinct selected keys. -/
theorem forall₂_selected_nodup {relation : Row → Row → Prop} {rows rows' : List Row}
    (key : Row → Key) (selected : Row → Bool) (pointwise : List.Forall₂ relation rows rows')
    (kept : ∀ row row', relation row row' → key row' = key row)
    (before : ∀ row row', relation row row' → selected row' = true → selected row = true)
    (distinct : ((rows.filter selected).map key).Nodup) :
    ((rows'.filter selected).map key).Nodup := by
  refine distinct.sublist ?_
  clear distinct
  induction pointwise with
  | nil => exact .slnil
  | @cons row row' rest rest' related _ ih =>
      by_cases new : selected row' = true
      · have old := before row row' related new
        rw [List.filter_cons_of_pos new, List.filter_cons_of_pos old, List.map_cons, List.map_cons,
          kept row row' related]
        exact ih.cons_cons _
      · rw [List.filter_cons_of_neg new]
        by_cases old : selected row = true
        · rw [List.filter_cons_of_pos old, List.map_cons]
          exact ih.cons _
        · rwa [List.filter_cons_of_neg old]

/-- Distinct keys make the row of a key unique. -/
theorem row_unique {rows : List Row} (key : Row → Key) (distinct : (rows.map key).Nodup)
    {first second : Row} (inFirst : first ∈ rows) (inSecond : second ∈ rows)
    (same : key first = key second) : first = second :=
  List.inj_on_of_nodup_map distinct inFirst inSecond same

/-- Distinct partial keys make the row of a key unique. -/
theorem row_unique_of_filterMap {rows : List Row} (key : Row → Option Key)
    (distinct : (rows.filterMap key).Nodup) {first second : Row} {chosen : Key}
    (inFirst : first ∈ rows) (inSecond : second ∈ rows) (ofFirst : key first = some chosen)
    (ofSecond : key second = some chosen) : first = second := by
  have apart := List.pairwise_filterMap.mp distinct
  have equal : rows.Pairwise fun row other =>
      key row = some chosen → key other = some chosen → row = other :=
    apart.imp fun apart mine theirs => absurd rfl (apart _ mine _ theirs)
  have flipped : rows.Pairwise fun other row =>
      key row = some chosen → key other = some chosen → row = other :=
    apart.imp fun apart theirs mine => absurd rfl (apart _ mine _ theirs)
  exact equal.forall_of_forall_of_flip (fun _ _ _ _ => rfl) flipped inFirst inSecond ofFirst ofSecond

/-- A guard that fixes the key counts at most one row. -/
theorem countP_le_one {rows : List Row} (key : Row → Key) (guard : Row → Bool) (chosen : Key)
    (distinct : (rows.map key).Nodup) (fixed : ∀ row, guard row = true → key row = chosen) :
    rows.countP guard ≤ 1 := by
  induction rows with
  | nil => simp
  | cons row rest ih =>
      rw [List.map_cons, List.nodup_cons] at distinct
      by_cases met : guard row = true
      · have none : rest.countP guard = 0 := by
          rw [List.countP_eq_zero]
          intro other member otherMet
          exact distinct.1 (fixed row met ▸ fixed other otherMet ▸ List.mem_map_of_mem member)
        simp [met, none]
      · simpa [met] using ih distinct.2

theorem countP_or_le (items : List Row) (left right : Row → Bool) :
    items.countP (fun item => left item || right item) ≤ items.countP left + items.countP right := by
  induction items with
  | nil => exact Nat.zero_le _
  | cons item rest ih =>
      simp only [List.countP_cons]
      cases left item <;> cases right item <;> simp <;> omega

/-- Items that each match one of the keys are at most the matches of all keys. -/
theorem countP_le_sum {items : List Row} {keys : List Key} {holds : Row → Bool} {matching : Key → Row → Bool}
    (covered : ∀ item ∈ items, holds item = true → ∃ key ∈ keys, matching key item = true) :
    items.countP holds ≤ (keys.map fun key => items.countP (matching key)).sum := by
  have any : items.countP holds ≤ items.countP fun item => keys.any (matching · item) :=
    List.countP_mono_left fun item member met => List.any_eq_true.mpr (covered item member met)
  refine Nat.le_trans any ?_
  clear any covered
  induction keys with
  | nil => simp
  | cons key rest ih =>
      simp only [List.any_cons, List.map_cons, List.sum_cons]
      exact Nat.le_trans (countP_or_le items _ _) (Nat.add_le_add_left ih _)

/-- The operator `AND` over conditions that may be `NULL`. -/
def sqlAnd (conditions : List (Option Bool)) : Option Bool :=
  if some false ∈ conditions then some false
  else if none ∈ conditions then none
  else some true

/-- A row passes `WHERE` exactly when every condition is true. -/
theorem sqlAnd_eq_true {conditions : List (Option Bool)} :
    sqlAnd conditions = some true ↔ ∀ condition ∈ conditions, condition = some true := by
  constructor
  · intro passed condition member
    simp only [sqlAnd] at passed
    split at passed
    · simp at passed
    · rename_i noFalse
      split at passed
      · simp at passed
      · rename_i noNull
        match condition with
        | some true => rfl
        | some false => exact absurd member noFalse
        | none => exact absurd member noNull
  · intro all
    have noFalse : some false ∉ conditions := fun member => by simpa using all _ member
    have noNull : none ∉ conditions := fun member => by simpa using all _ member
    simp [sqlAnd, noFalse, noNull]

/-- The first row under a strict order, as `ORDER BY ... LIMIT 1` selects it. -/
def selectFirst (before : Row → Row → Bool) : List Row → Option Row
  | [] => none
  | row :: rest =>
      match selectFirst before rest with
      | none => some row
      | some best => if before best row then some best else some row

theorem selectFirst_mem {before : Row → Row → Bool} {rows : List Row} {chosen : Row}
    (selected : selectFirst before rows = some chosen) : chosen ∈ rows := by
  induction rows with
  | nil => cases selected
  | cons row rest ih =>
      simp only [selectFirst] at selected
      split at selected
      · cases selected
        exact .head _
      · rename_i best inner
        split at selected
        · cases selected
          exact .tail _ (ih inner)
        · cases selected
          exact .head _

theorem selectFirst_eq_none {before : Row → Row → Bool} {rows : List Row} :
    selectFirst before rows = none ↔ rows = [] := by
  cases rows with
  | nil => simp [selectFirst]
  | cons row rest =>
      simp only [selectFirst, reduceCtorEq, iff_false]
      split
      · simp
      · split <;> simp

/-- No row comes before the selected one. -/
theorem selectFirst_first {before : Row → Row → Bool} {rows : List Row} {chosen : Row}
    (irrefl : ∀ row, before row row = false)
    (trans : ∀ first second third, before second first = false → before third second = false →
      before third first = false)
    (asymm : ∀ first second, before first second = true → before second first = false)
    (selected : selectFirst before rows = some chosen) : ∀ row ∈ rows, before row chosen = false := by
  induction rows generalizing chosen with
  | nil => cases selected
  | cons row rest ih =>
      simp only [selectFirst] at selected
      cases inner : selectFirst before rest with
      | none =>
          rw [inner] at selected
          cases selected
          obtain rfl := selectFirst_eq_none.mp inner
          intro other member
          rw [List.mem_singleton.mp member, irrefl]
      | some best =>
          simp only [inner] at selected
          intro other member
          cases earlier : before best row with
          | true =>
              rw [if_pos earlier] at selected
              cases selected
              rcases List.mem_cons.mp member with rfl | later
              · exact asymm _ other earlier
              · exact ih inner other later
          | false =>
              rw [if_neg (by simp [earlier])] at selected
              cases selected
              rcases List.mem_cons.mp member with rfl | later
              · exact irrefl other
              · exact trans _ _ other earlier (ih inner other later)

/-- Rows that are related one by one and ordered alike have related first rows. -/
theorem selectFirst_related {relation : Row → Row → Prop} {before : Row → Row → Bool}
    {rows rows' : List Row} (pointwise : List.Forall₂ relation rows rows')
    (ordered : ∀ first first' second second', relation first first' → relation second second' →
      before first' second' = before first second) :
    Option.Rel relation (selectFirst before rows) (selectFirst before rows') := by
  induction pointwise with
  | nil => exact .none
  | @cons row row' rest rest' related _ ih =>
      simp only [selectFirst]
      generalize selectFirst before rest = best at ih
      generalize selectFirst before rest' = best' at ih
      cases ih with
      | none => exact .some related
      | some better =>
          simp only [ordered _ _ _ _ better related]
          split
          · exact .some better
          · exact .some related

/-! ### Replacement -/

/-- One item is replaced and all others stay. -/
def Replaces {Item : Type} (items : List Item) (item : Item) (replacement items' : List Item) :
    Prop :=
  ∃ front back, items = front ++ item :: back ∧ items' = front ++ replacement ++ back

section Replacement

variable {Item : Type} {items items' replacement : List Item} {item other : Item}

theorem Replaces.old (next : Replaces items item replacement items') : item ∈ items := by
  obtain ⟨front, back, rfl, _⟩ := next
  simp

/-- An item after a replacement is an old one or belongs to the replacement. -/
theorem Replaces.mem (next : Replaces items item replacement items') (member : other ∈ items') :
    other ∈ items ∨ other ∈ replacement := by
  obtain ⟨front, back, rfl, rfl⟩ := next
  simp only [List.mem_append, List.mem_cons] at member ⊢
  tauto

/-- The items that stay differ in their key from the item that went. -/
theorem Replaces.mem_other (key : Item → Key) (next : Replaces items item replacement items')
    (distinct : (items.map key).Nodup) (member : other ∈ items') :
    (other ∈ items ∧ key other ≠ key item) ∨ other ∈ replacement := by
  obtain ⟨front, back, rfl, rfl⟩ := next
  rw [List.map_append, List.map_cons, List.nodup_append, List.nodup_cons] at distinct
  obtain ⟨_, ⟨inBack, _⟩, apart⟩ := distinct
  simp only [List.mem_append] at member
  rcases member with (inFront | new) | later
  · exact .inl ⟨List.mem_append_left _ inFront, fun same =>
      apart _ (List.mem_map_of_mem inFront) _ (.head _) same⟩
  · exact .inr new
  · exact .inl ⟨List.mem_append_right _ (.tail _ later), fun same =>
      inBack (same ▸ List.mem_map_of_mem later)⟩

/-- A replacement with the same keys keeps the keys. -/
theorem Replaces.map_key (key : Item → Key) (next : Replaces items item replacement items')
    (same : replacement.map key = [key item]) : items'.map key = items.map key := by
  obtain ⟨front, back, rfl, rfl⟩ := next
  simp [same]

theorem Replaces.countP (next : Replaces items item replacement items') (counts : Item → Bool) :
    items'.countP counts + [item].countP counts =
      items.countP counts + replacement.countP counts := by
  obtain ⟨front, back, rfl, rfl⟩ := next
  simp only [List.countP_append, List.countP_cons, List.countP_nil]
  omega

end Replacement

end Library
