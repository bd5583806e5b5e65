import PiTools.Delivery.Tables

/-
This file defines the writers of `feedback_items` and shows that a resolution
mark outlives every later call.
-/

namespace PiTools

open Library

/-! ### Statements -/

/-- The statement outside of a delivery. -/
def upsertFeedback (repositoryId pullRequestNumber : Int) (feedback : Reconcile.FeedbackRecord)
    (tables : Tables) : Except StorageError Tables :=
  upsertFeedbackOn repositoryId pullRequestNumber feedback tables

/-- The time of the first application stays. -/
def FeedbackItem.resolve (now : Timestamp) (item : FeedbackItem) : FeedbackItem :=
  { item with
    resolved := true
    repairState := .applied
    repairAppliedAt := item.repairAppliedAt.or (some now)
    resolutionEligible := true }

def FeedbackItem.reject (item : FeedbackItem) : FeedbackItem :=
  { item with resolved := true, repairState := .rejected, resolutionEligible := false }

def updateFeedback (feedbackId : String) (change : FeedbackItem → FeedbackItem) (tables : Tables) :
    Tables :=
  { tables with
    feedbackItems := tables.feedbackItems.map fun item =>
      if item.id = feedbackId then change item else item }

def markFeedbackResolved (feedbackId : String) (now : Timestamp) (tables : Tables) : Tables :=
  updateFeedback feedbackId (FeedbackItem.resolve now) tables

def markFeedbackRejected (feedbackId : String) (tables : Tables) : Tables :=
  updateFeedback feedbackId FeedbackItem.reject tables

/-- The row with the primary key. -/
def Tables.feedbackItem (tables : Tables) (feedbackId : String) : Option FeedbackItem :=
  tables.feedbackItems.find? fun item => item.id = feedbackId

/-- An unknown item is not eligible. -/
def feedbackResolutionEligible (feedbackId : String) (tables : Tables) : Bool :=
  ((tables.feedbackItem feedbackId).map fun item =>
    item.resolutionEligible || item.repairState = .rejected).getD false

/-- The check `feedback_items_resolution_eligibility_check`. -/
def FeedbackItem.eligibilityCheck (item : FeedbackItem) : Bool :=
  !item.resolutionEligible || (item.repairState = .applied && item.repairAppliedAt.isSome)

/-! ### Calls -/

/-- The calls that write feedback, and every change of the registry between them. -/
inductive FeedbackCall
  | upsertFeedback (repositoryId pullRequestNumber : Int) (feedback : Reconcile.FeedbackRecord)
  | upsertFeedbackOn (repositoryId pullRequestNumber : Int) (feedback : Reconcile.FeedbackRecord)
  | markFeedbackResolved (feedbackId : String) (now : Timestamp)
  | markFeedbackRejected (feedbackId : String)
  | register (registry : Registry)

/-- A statement that fails changes nothing. -/
def orUnchanged (tables : Tables) (outcome : Except StorageError Tables) : Tables :=
  match outcome with
  | .ok next => next
  | .error _ => tables

def FeedbackCall.perform (tables : Tables) : FeedbackCall → Tables
  | .upsertFeedback repositoryId pullRequestNumber feedback =>
      orUnchanged tables (PiTools.upsertFeedback repositoryId pullRequestNumber feedback tables)
  | .upsertFeedbackOn repositoryId pullRequestNumber feedback =>
      orUnchanged tables (PiTools.upsertFeedbackOn repositoryId pullRequestNumber feedback tables)
  | .markFeedbackResolved feedbackId now => PiTools.markFeedbackResolved feedbackId now tables
  | .markFeedbackRejected feedbackId => PiTools.markFeedbackRejected feedbackId tables
  | .register registry => { tables with toRegistry := registry }

def performFeedback (calls : List FeedbackCall) (tables : Tables) : Tables :=
  calls.foldl FeedbackCall.perform tables

/-- The record that an upsert carries. -/
def FeedbackCall.record : FeedbackCall → Option Reconcile.FeedbackRecord
  | .upsertFeedback _ _ feedback | .upsertFeedbackOn _ _ feedback => some feedback
  | _ => none

/-- The item that a mark names. -/
def FeedbackCall.marked : FeedbackCall → Option String
  | .markFeedbackResolved feedbackId _ | .markFeedbackRejected feedbackId => some feedbackId
  | _ => none

/-- The existing item was marked on the way. -/
def Marked (start : Tables) (calls : List FeedbackCall) (feedbackId : String) : Prop :=
  ∃ past call future, calls = past ++ call :: future ∧ call.marked = some feedbackId ∧
    ((performFeedback past start).feedbackItem feedbackId).isSome = true

/-- What the last upsert of the item said. -/
def lastUpserted (calls : List FeedbackCall) (feedbackId : String) : Option Bool :=
  (((calls.filterMap FeedbackCall.record).filter fun record => record.id = feedbackId).getLast?).map
    fun record => record.resolved

/-! ### One item -/

section Item

variable {start tables : Tables} {calls : List FeedbackCall} {call : FeedbackCall}
  {feedbackId : String} {item : FeedbackItem}

/-- What a call does to the item of an id. -/
inductive ItemStep (call : FeedbackCall) (feedbackId : String) :
    Option FeedbackItem → Option FeedbackItem → Prop
  | still (before : Option FeedbackItem) (unmarked : call.marked ≠ some feedbackId)
      (absent : ∀ record, call.record = some record → record.id = feedbackId → before = none) :
      ItemStep call feedbackId before before
  | inserted (record : Reconcile.FeedbackRecord) (item : FeedbackItem)
      (carried : call.record = some record) (mine : record.id = feedbackId)
      (said : item.resolved = record.resolved) (state : item.repairState = .unreviewed)
      (unapplied : item.repairAppliedAt = none) (ineligible : item.resolutionEligible = false) :
      ItemStep call feedbackId none (some item)
  | updated (record : Reconcile.FeedbackRecord) (item : FeedbackItem)
      (carried : call.record = some record) (mine : record.id = feedbackId) :
      ItemStep call feedbackId (some item) (some (item.update record))
  | resolved (before : Option FeedbackItem) (now : Timestamp)
      (marked : call = .markFeedbackResolved feedbackId now) :
      ItemStep call feedbackId before (before.map (FeedbackItem.resolve now))
  | rejected (before : Option FeedbackItem) (marked : call = .markFeedbackRejected feedbackId) :
      ItemStep call feedbackId before (before.map FeedbackItem.reject)

/-- A change of rows that keeps their ids is seen at the row of the id. -/
theorem feedbackItem_map {change : FeedbackItem → FeedbackItem}
    (keeps : ∀ item, (change item).id = item.id) :
    ({ tables with feedbackItems := tables.feedbackItems.map change } : Tables).feedbackItem
        feedbackId = (tables.feedbackItem feedbackId).map change := by
  simp only [Tables.feedbackItem, List.find?_map]
  congr 2
  funext item
  simp only [Function.comp_apply, keeps]

theorem feedbackItem_id (found : tables.feedbackItem feedbackId = some item) :
    item.id = feedbackId := by
  simpa using List.find?_some found

/-- A mark changes the row that it names. -/
theorem updateFeedback_item (change : FeedbackItem → FeedbackItem)
    (keeps : ∀ item, (change item).id = item.id) (chosen : String) :
    (updateFeedback chosen change tables).feedbackItem feedbackId =
      if chosen = feedbackId then (tables.feedbackItem feedbackId).map change
      else tables.feedbackItem feedbackId := by
  have kept (item : FeedbackItem) : (if item.id = chosen then change item else item).id = item.id := by
    split
    · exact keeps item
    · rfl
  rw [updateFeedback, feedbackItem_map kept]
  cases found : tables.feedbackItem feedbackId with
  | none => simp
  | some item =>
      rw [Option.map_some, feedbackItem_id found]
      by_cases same : chosen = feedbackId
      · simp [same]
      · simp [same, Ne.symm same]

/-- An upsert inserts or updates the row of its record. -/
theorem upsertFeedbackOn_item (repositoryId pullRequestNumber : Int)
    (record : Reconcile.FeedbackRecord) (carried : call.record = some record) :
    ItemStep call feedbackId (tables.feedbackItem feedbackId)
      ((orUnchanged tables (upsertFeedbackOn repositoryId pullRequestNumber record
        tables)).feedbackItem feedbackId) := by
  have unmarked : call.marked ≠ some feedbackId := by
    cases call <;> simp_all [FeedbackCall.record, FeedbackCall.marked]
  have other (before : Option FeedbackItem) (apart : record.id ≠ feedbackId) :
      ItemStep call feedbackId before before := by
    refine .still before unmarked fun found same mine => ?_
    rw [carried, Option.some.injEq] at same
    exact absurd (same ▸ mine) apart
  unfold upsertFeedbackOn
  split
  · rename_i present
    have kept (item : FeedbackItem) :
        (if item.id = record.id then item.update record else item).id = item.id := by
      split <;> rfl
    simp only [orUnchanged]
    rw [feedbackItem_map kept]
    cases found : tables.feedbackItem feedbackId with
    | none =>
        refine other none fun same => ?_
        obtain ⟨item, member, mine⟩ := List.any_eq_true.mp present
        have missed := List.find?_eq_none.mp found item member
        simp_all
    | some item =>
        rw [Option.map_some, feedbackItem_id found]
        by_cases mine : feedbackId = record.id
        · rw [if_pos mine]
          exact .updated record item carried mine.symm
        · rw [if_neg mine]
          exact other (some item) (Ne.symm mine)
  · rename_i absent
    have missing : tables.feedbackItem record.id = none := by
      refine List.find?_eq_none.mpr fun item member mine => absent ?_
      exact List.any_eq_true.mpr ⟨item, member, mine⟩
    split
    · simp only [orUnchanged, Tables.feedbackItem, List.find?_append]
      by_cases mine : record.id = feedbackId
      · subst mine
        simp only [Tables.feedbackItem] at missing
        rw [missing]
        simp only [Option.none_or, List.find?_singleton, decide_true, if_true]
        exact .inserted record _ carried rfl rfl rfl rfl rfl
      · simp only [List.find?_singleton, mine, decide_false, Bool.false_eq_true, if_false,
          Option.or_none]
        exact other _ mine
    · simp only [orUnchanged]
      refine .still _ unmarked fun found same mine => ?_
      rw [carried, Option.some.injEq] at same
      subst same
      rw [← mine]
      exact missing

/-- Every call steps the item of every id. -/
theorem FeedbackCall.perform_item (call : FeedbackCall) (tables : Tables) (feedbackId : String) :
    ItemStep call feedbackId (tables.feedbackItem feedbackId)
      ((call.perform tables).feedbackItem feedbackId) := by
  cases call with
  | upsertFeedback repositoryId number record =>
      exact upsertFeedbackOn_item repositoryId number record rfl
  | upsertFeedbackOn repositoryId number record =>
      exact upsertFeedbackOn_item repositoryId number record rfl
  | markFeedbackResolved chosen now =>
      simp only [FeedbackCall.perform, PiTools.markFeedbackResolved,
        updateFeedback_item (FeedbackItem.resolve now) fun _ => rfl]
      split
      · rename_i mine
        exact .resolved _ now (by rw [mine])
      · rename_i other
        exact .still _ (by simpa [FeedbackCall.marked] using other) (by simp [FeedbackCall.record])
  | markFeedbackRejected chosen =>
      simp only [FeedbackCall.perform, PiTools.markFeedbackRejected,
        updateFeedback_item FeedbackItem.reject fun _ => rfl]
      split
      · rename_i mine
        exact .rejected _ (by rw [mine])
      · rename_i other
        exact .still _ (by simpa [FeedbackCall.marked] using other) (by simp [FeedbackCall.record])
  | register registry =>
      exact .still _ (by simp [FeedbackCall.marked]) (by simp [FeedbackCall.record])

end Item

/-! ### Runs -/

section Runs

variable {start : Tables} {calls : List FeedbackCall} {call : FeedbackCall} {feedbackId : String}

theorem performFeedback_snoc (calls : List FeedbackCall) (call : FeedbackCall) (start : Tables) :
    performFeedback (calls ++ [call]) start = call.perform (performFeedback calls start) := by
  simp [performFeedback]

theorem performFeedback_append (past future : List FeedbackCall) (start : Tables) :
    performFeedback (past ++ future) start =
      performFeedback future (performFeedback past start) := by
  simp [performFeedback]

/-- The last call marks the item, or the item was marked before. -/
theorem marked_snoc : Marked start (calls ++ [call]) feedbackId ↔
    Marked start calls feedbackId ∨ (call.marked = some feedbackId ∧
      ((performFeedback calls start).feedbackItem feedbackId).isSome = true) := by
  constructor
  · rintro ⟨past, mark, future, same, names, present⟩
    rcases List.eq_nil_or_concat future with rfl | ⟨earlier, last, rfl⟩
    · obtain ⟨rfl, only⟩ := List.append_inj' same rfl
      cases only
      exact .inr ⟨names, present⟩
    · rw [List.concat_eq_append, ← List.cons_append, ← List.append_assoc] at same
      obtain ⟨rfl, _⟩ := List.append_inj' same rfl
      exact .inl ⟨past, mark, earlier, rfl, names, present⟩
  · rintro (⟨past, mark, future, rfl, names, present⟩ | ⟨names, present⟩)
    · exact ⟨past, mark, future ++ [call], by simp, names, present⟩
    · exact ⟨calls, call, [], rfl, names, present⟩

theorem lastUpserted_snoc : lastUpserted (calls ++ [call]) feedbackId =
    match call.record with
    | some record => if record.id = feedbackId then some record.resolved
        else lastUpserted calls feedbackId
    | none => lastUpserted calls feedbackId := by
  simp only [lastUpserted, List.filterMap_append]
  cases carried : call.record with
  | none => simp [carried]
  | some record =>
      by_cases mine : record.id = feedbackId <;> simp [carried, mine]

/-- The marks and the upserts of the past account for the columns of the item. -/
structure Accounted (start : Tables) (calls : List FeedbackCall) (feedbackId : String)
    (item : FeedbackItem) : Prop where
  marked : Marked start calls feedbackId → item.resolved = true ∧ (item.repairState = .rejected ∨
    (item.repairState = .applied ∧ item.resolutionEligible = true))
  unmarked : ¬ Marked start calls feedbackId → item.repairState = .unreviewed ∧
    lastUpserted calls feedbackId = some item.resolved
  eligible : item.resolutionEligible = true → item.repairState = .applied ∧
    item.repairAppliedAt.isSome = true

/-- No mark has reached an item that does not exist. -/
def ItemAccounted (start : Tables) (calls : List FeedbackCall) (feedbackId : String) :
    Option FeedbackItem → Prop
  | none => ¬ Marked start calls feedbackId
  | some item => Accounted start calls feedbackId item

/-- Every call keeps the account of every item. -/
theorem ItemStep.accounted {before after : Option FeedbackItem}
    (step : ItemStep call feedbackId before after)
    (same : (performFeedback calls start).feedbackItem feedbackId = before)
    (held : ItemAccounted start calls feedbackId before) :
    ItemAccounted start (calls ++ [call]) feedbackId after := by
  have unchanged (quiet : call.marked ≠ some feedbackId) :
      Marked start (calls ++ [call]) feedbackId ↔ Marked start calls feedbackId := by
    rw [marked_snoc]
    simp [quiet]
  have quiet {record : Reconcile.FeedbackRecord} (carried : call.record = some record) :
      call.marked ≠ some feedbackId := by
    cases call <;> simp_all [FeedbackCall.record, FeedbackCall.marked]
  cases step with
  | still _ unmarked absent =>
      cases before with
      | none => exact fun marked => held ((unchanged unmarked).mp marked)
      | some item =>
          have last : lastUpserted (calls ++ [call]) feedbackId = lastUpserted calls feedbackId := by
            rw [lastUpserted_snoc]
            split
            · rename_i record carried
              exact if_neg fun mine => by simpa using absent record carried mine
            · rfl
          refine ⟨fun marked => held.marked ((unchanged unmarked).mp marked), ?_, held.eligible⟩
          rw [unchanged unmarked, last]
          exact held.unmarked
  | inserted record item carried mine said state unapplied ineligible =>
      refine ⟨fun marked => absurd ((unchanged (quiet carried)).mp marked) held, fun _ => ?_,
        fun eligible => ?_⟩
      · rw [lastUpserted_snoc, carried]
        simp [mine, said, state]
      · rw [ineligible] at eligible
        cases eligible
  | updated record item carried mine =>
      refine ⟨fun marked => ?_, fun unmarked => ?_, held.eligible⟩
      · -- The upsert keeps the flag because a mark has left its state.
        obtain ⟨resolved, state⟩ := held.marked ((unchanged (quiet carried)).mp marked)
        refine ⟨?_, state⟩
        rcases state with rejected | ⟨applied, _⟩
        · simp [FeedbackItem.update, resolved, rejected]
        · simp [FeedbackItem.update, resolved, applied]
      · have before := held.unmarked fun marked => unmarked ((unchanged (quiet carried)).mpr marked)
        refine ⟨before.1, ?_⟩
        rw [lastUpserted_snoc, carried]
        simp [mine, FeedbackItem.update, before.1]
  | resolved _ now marks =>
      subst marks
      cases before with
      | none =>
          rw [Option.map_none]
          intro marked
          rcases marked_snoc.mp marked with earlier | ⟨_, present⟩
          · exact held earlier
          · simp [same] at present
      | some item =>
          have marked : Marked start (calls ++ [.markFeedbackResolved feedbackId now]) feedbackId :=
            marked_snoc.mpr (.inr ⟨rfl, by simp [same]⟩)
          refine ⟨fun _ => ⟨rfl, .inr ⟨rfl, rfl⟩⟩, fun unmarked => absurd marked unmarked,
            fun _ => ⟨rfl, ?_⟩⟩
          cases applied : item.repairAppliedAt <;> simp [FeedbackItem.resolve, applied]
  | rejected _ marks =>
      subst marks
      cases before with
      | none =>
          rw [Option.map_none]
          intro marked
          rcases marked_snoc.mp marked with earlier | ⟨_, present⟩
          · exact held earlier
          · simp [same] at present
      | some item =>
          have marked : Marked start (calls ++ [.markFeedbackRejected feedbackId]) feedbackId :=
            marked_snoc.mpr (.inr ⟨rfl, by simp [same]⟩)
          exact ⟨fun _ => ⟨rfl, .inl rfl⟩, fun unmarked => absurd marked unmarked,
            fun eligible => by simp [FeedbackItem.reject] at eligible⟩

/-- Every item is accounted for after every sequence of calls. -/
theorem performFeedback_accounted (empty : start.feedbackItems = []) (calls : List FeedbackCall)
    (feedbackId : String) : ItemAccounted start calls feedbackId
      ((performFeedback calls start).feedbackItem feedbackId) := by
  induction calls using List.reverseRecOn with
  | nil =>
      have missing : (performFeedback [] start).feedbackItem feedbackId = none := by
        simp [performFeedback, Tables.feedbackItem, empty]
      rw [missing]
      rintro ⟨past, call, future, same, _⟩
      simp at same
  | append_singleton calls call ih =>
      rw [performFeedback_snoc]
      exact (call.perform_item _ feedbackId).accounted rfl ih

/-- An item stays, and so does the time of its application. -/
theorem ItemStep.kept {before after : Option FeedbackItem}
    (step : ItemStep call feedbackId before after) {item : FeedbackItem}
    (stored : before = some item) : ∃ item', after = some item' ∧
      (item.repairAppliedAt.isSome = true → item'.repairAppliedAt = item.repairAppliedAt) := by
  cases step with
  | still => exact ⟨item, stored, fun _ => rfl⟩
  | inserted => cases stored
  | updated record =>
      cases stored
      exact ⟨_, rfl, fun _ => rfl⟩
  | resolved _ now =>
      subst stored
      refine ⟨_, rfl, fun applied => ?_⟩
      obtain ⟨time, at_⟩ := Option.isSome_iff_exists.mp applied
      simp [FeedbackItem.resolve, at_]
  | rejected =>
      subst stored
      exact ⟨_, rfl, fun _ => rfl⟩

theorem performFeedback_kept (calls : List FeedbackCall) {tables : Tables} {item : FeedbackItem}
    (stored : tables.feedbackItem feedbackId = some item) :
    ∃ item', (performFeedback calls tables).feedbackItem feedbackId = some item' ∧
      (item.repairAppliedAt.isSome = true → item'.repairAppliedAt = item.repairAppliedAt) := by
  induction calls using List.reverseRecOn with
  | nil => exact ⟨item, stored, fun _ => rfl⟩
  | append_singleton calls call ih =>
      obtain ⟨middle, found, kept⟩ := ih
      rw [performFeedback_snoc]
      obtain ⟨item', after, keeps⟩ := (call.perform_item _ feedbackId).kept found
      refine ⟨item', after, fun applied => ?_⟩
      have still := kept applied
      rw [← still]
      exact keeps (by rw [still]; exact applied)

/-- The key `id` stays unique. -/
theorem FeedbackCall.perform_ids (call : FeedbackCall) {tables : Tables}
    (distinct : (tables.feedbackItems.map FeedbackItem.id).Nodup) :
    ((call.perform tables).feedbackItems.map FeedbackItem.id).Nodup := by
  have kept (change : FeedbackItem → FeedbackItem) (keeps : ∀ item, (change item).id = item.id) :
      ((tables.feedbackItems.map change).map FeedbackItem.id).Nodup := by
    rw [List.map_map, show FeedbackItem.id ∘ change = FeedbackItem.id from funext keeps]
    exact distinct
  have upserted (repositoryId number : Int) (record : Reconcile.FeedbackRecord) :
      ((orUnchanged tables (PiTools.upsertFeedbackOn repositoryId number record
        tables)).feedbackItems.map FeedbackItem.id).Nodup := by
    unfold PiTools.upsertFeedbackOn
    split
    · exact kept _ fun item => by split <;> rfl
    · rename_i absent
      split
      · simp only [orUnchanged, List.map_append, List.map_cons, List.map_nil]
        refine List.nodup_append.mpr ⟨distinct, List.nodup_singleton _, ?_⟩
        rintro old member new isNew rfl
        obtain ⟨item, inside, rfl⟩ := List.mem_map.mp member
        exact absent (List.any_eq_true.mpr
          ⟨item, inside, decide_eq_true (List.mem_singleton.mp isNew)⟩)
      · exact distinct
  cases call with
  | upsertFeedback repositoryId number record => exact upserted repositoryId number record
  | upsertFeedbackOn repositoryId number record => exact upserted repositoryId number record
  | markFeedbackResolved chosen now => exact kept _ fun item => by split <;> rfl
  | markFeedbackRejected chosen => exact kept _ fun item => by split <;> rfl
  | register => exact distinct

theorem performFeedback_found (empty : start.feedbackItems = []) (calls : List FeedbackCall)
    {item : FeedbackItem} (member : item ∈ (performFeedback calls start).feedbackItems) :
    (performFeedback calls start).feedbackItem item.id = some item := by
  have distinct : ((performFeedback calls start).feedbackItems.map FeedbackItem.id).Nodup := by
    clear member
    induction calls using List.reverseRecOn with
    | nil => simp [performFeedback, empty]
    | append_singleton calls call ih =>
        rw [performFeedback_snoc]
        exact call.perform_ids ih
  cases found : (performFeedback calls start).feedbackItem item.id with
  | none => simpa using List.find?_eq_none.mp found item member
  | some other =>
      rw [row_unique FeedbackItem.id distinct (List.mem_of_find?_eq_some found) member
        (feedbackItem_id found)]

/-- What every sequence of upserts and marks leaves of the marks. -/
structure MarksKept (start : Tables) (calls : List FeedbackCall) (finish : Tables) : Prop where
  sticky : ∀ feedbackId, Marked start calls feedbackId →
    ∃ item, finish.feedbackItem feedbackId = some item ∧ item.resolved = true
  checked : ∀ item ∈ finish.feedbackItems, item.eligibilityCheck = true
  fixed : ∀ past future, calls = past ++ future → ∀ feedbackId item,
    (performFeedback past start).feedbackItem feedbackId = some item →
      item.repairAppliedAt.isSome = true → ∃ item', finish.feedbackItem feedbackId = some item' ∧
        item'.repairAppliedAt = item.repairAppliedAt
  eligible : ∀ feedbackId,
    feedbackResolutionEligible feedbackId finish = true ↔ Marked start calls feedbackId
  unmarked : ∀ item ∈ finish.feedbackItems, ¬ Marked start calls item.id →
    lastUpserted calls item.id = some item.resolved

/-- Marks are sticky, eligibility follows them, and unmarked items follow their upserts. -/
theorem feedback_marks_kept (empty : start.feedbackItems = []) (calls : List FeedbackCall) :
    MarksKept start calls (performFeedback calls start) := by
  have accounted := performFeedback_accounted empty calls
  have stored (item : FeedbackItem) (member : item ∈ (performFeedback calls start).feedbackItems) :
      Accounted start calls item.id item := by
    have held := accounted item.id
    rw [performFeedback_found empty calls member] at held
    exact held
  constructor
  case sticky =>
    intro feedbackId marked
    have held := accounted feedbackId
    cases found : (performFeedback calls start).feedbackItem feedbackId with
    | none =>
        rw [found] at held
        exact absurd marked held
    | some item =>
        rw [found] at held
        exact ⟨item, rfl, (held.marked marked).1⟩
  case checked =>
    intro item member
    cases eligible : item.resolutionEligible with
    | false => simp [FeedbackItem.eligibilityCheck, eligible]
    | true =>
        obtain ⟨applied, time⟩ := (stored item member).eligible eligible
        simp [FeedbackItem.eligibilityCheck, applied, time]
  case fixed =>
    rintro past future rfl feedbackId item before applied
    obtain ⟨item', after, kept⟩ := performFeedback_kept future before
    rw [performFeedback_append]
    exact ⟨item', after, kept applied⟩
  case eligible =>
    intro feedbackId
    have held := accounted feedbackId
    rw [feedbackResolutionEligible]
    cases found : (performFeedback calls start).feedbackItem feedbackId with
    | none =>
        rw [found] at held
        exact iff_of_false (by simp) held
    | some item =>
        rw [found] at held
        simp only [Option.map_some, Option.getD_some, Bool.or_eq_true, decide_eq_true_eq]
        constructor
        · intro marks
          by_contra unmarked
          have plain := (held.unmarked unmarked).1
          rcases marks with eligible | rejected
          · rw [(held.eligible eligible).1] at plain
            cases plain
          · rw [rejected] at plain
            cases plain
        · intro marked
          rcases (held.marked marked).2 with rejected | ⟨_, eligible⟩
          · exact .inr rejected
          · exact .inl eligible
  case unmarked =>
    intro item member unmarked
    exact ((stored item member).unmarked unmarked).2

end Runs

/-- A reply of an automation. -/
def suggestionRecord (resolved : Bool) : Reconcile.FeedbackRecord :=
  ⟨"review_comment:5", "bot", "Bot", "body", resolved, true, none, none, none⟩

def oneRepositoryTables : Tables :=
  ⟨⟨[⟨1, "o", "Organization", false⟩], [⟨1, 1, "o", "r", "main", true, ""⟩], []⟩, [], [], []⟩

def markedCalls : List FeedbackCall :=
  [.upsertFeedbackOn 1 7 (suggestionRecord false), .markFeedbackResolved "review_comment:5" 10,
    .upsertFeedback 1 7 (suggestionRecord false)]

theorem feedback_marks_kept_once :
    MarksKept oneRepositoryTables markedCalls (performFeedback markedCalls oneRepositoryTables) :=
  feedback_marks_kept rfl markedCalls

end PiTools
