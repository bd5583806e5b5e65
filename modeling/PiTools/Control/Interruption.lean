import PiTools.Control.Receive

/-
This file shows that a repeated delivery makes up for a storage call of
`process_delivery` that failed.
-/

namespace PiTools

open Library

variable {packages : Packages} {failing : Option CallSite} {store store' : WebhookStore}
  {delivery : WebhookEnvelope}

/-! ### Likeness -/

/-- The rows differ at most in the time of the processing. -/
structure SameDelivery (row row' : DeliveryRow) : Prop where
  payloadHash : row.payloadHash = row'.payloadHash
  processed : row.processedAt.isSome = row'.processedAt.isSome
  processingError : row.processingError = row'.processingError

/-- The stores differ at most in times and in the audit entries. -/
structure Alike (store store' : WebhookStore) : Prop where
  tables : store.tables.Agree store'.tables
  controls : store.controls = store'.controls
  deliveries : ∀ deliveryId,
    Option.Rel SameDelivery (store.deliveries.rows deliveryId) (store'.deliveries.rows deliveryId)

/-- The time passes. -/
def WebhookStore.later (elapsed : Nat) (store : WebhookStore) : WebhookStore :=
  { store with deliveries := { store.deliveries with now := store.deliveries.now + elapsed } }

theorem SameDelivery.refl (row : DeliveryRow) : SameDelivery row row := ⟨rfl, rfl, rfl⟩

theorem sameRows_refl (row : Option DeliveryRow) : Option.Rel SameDelivery row row := by
  cases row with
  | none => exact .none
  | some row => exact .some (.refl row)

theorem SameDelivery.symm {row row' : DeliveryRow} (same : SameDelivery row row') :
    SameDelivery row' row :=
  ⟨same.payloadHash.symm, same.processed.symm, same.processingError.symm⟩

theorem SameDelivery.trans {row row' row'' : DeliveryRow} (same : SameDelivery row row')
    (later : SameDelivery row' row'') : SameDelivery row row'' :=
  ⟨same.payloadHash.trans later.payloadHash, same.processed.trans later.processed,
    same.processingError.trans later.processingError⟩

theorem sameRows_symm {row row' : Option DeliveryRow} (same : Option.Rel SameDelivery row row') :
    Option.Rel SameDelivery row' row := by
  cases same with
  | none => exact .none
  | some same => exact .some same.symm

theorem sameRows_trans {row row' row'' : Option DeliveryRow}
    (same : Option.Rel SameDelivery row row') (later : Option.Rel SameDelivery row' row'') :
    Option.Rel SameDelivery row row'' := by
  cases same with
  | none => exact later
  | some same => cases later with
    | some later => exact .some (same.trans later)

theorem Alike.of_parts (tables : store.tables = store'.tables)
    (controls : store.controls = store'.controls)
    (rows : store.deliveries.rows = store'.deliveries.rows) : Alike store store' where
  tables := tables ▸ .refl _
  controls := controls
  deliveries _ := rows ▸ sameRows_refl _

theorem Alike.refl (store : WebhookStore) : Alike store store := .of_parts rfl rfl rfl

theorem Alike.symm (alike : Alike store store') : Alike store' store :=
  ⟨alike.tables.symm, alike.controls.symm, fun deliveryId => sameRows_symm (alike.deliveries deliveryId)⟩

theorem Alike.trans {store'' : WebhookStore} (alike : Alike store store')
    (later : Alike store' store'') : Alike store store'' :=
  ⟨alike.tables.trans later.tables, alike.controls.trans later.controls, fun deliveryId =>
    sameRows_trans (alike.deliveries deliveryId) (later.deliveries deliveryId)⟩

theorem Alike.later (elapsed : Nat) (store : WebhookStore) : Alike (store.later elapsed) store :=
  .of_parts rfl rfl rfl

/-- Stores that are alike have the same jobs. -/
theorem Alike.jobs (alike : Alike store store') : store'.tables.jobs = store.tables.jobs := by
  obtain ⟨pullRequests, same, _⟩ := alike.tables
  rw [same]

/-! ### The transaction of the delivery -/

/-- The delivery is new, or it is recorded with the same hash and not processed yet. -/
def Unprocessed (packages : Packages) (store : WebhookStore) (delivery : WebhookEnvelope) : Prop :=
  ∀ row, store.row delivery = some row →
    row.payloadHash = delivery.recordedHash packages ∧ row.processedAt = none

/-- The store as `apply_delivery` leaves it. -/
def settledStore (packages : Packages) (store : WebhookStore) (delivery : WebhookEnvelope) :
    Except RepositoryError Tables → WebhookStore
  | .ok tables =>
      { store with
        tables
        deliveries :=
          { store.deliveries with
            rows := Function.update store.deliveries.rows delivery.deliveryId
              (some ⟨delivery.recordedHash packages, some store.deliveries.now, none⟩)
            applied := store.deliveries.applied ++ [delivery.toDeliveryEnvelope] } }
  | .error reason =>
      { store with
        deliveries :=
          { store.deliveries with
            rows := Function.update store.deliveries.rows delivery.deliveryId
              (some ⟨delivery.recordedHash packages, none, some (reason.text packages)⟩) } }

/-- A call of `process_delivery` failed: the delivery is unprocessed and no table has changed. -/
structure Interrupted (packages : Packages) (store : WebhookStore) (delivery : WebhookEnvelope)
    (cut : WebhookStore) : Prop where
  tables : cut.tables = store.tables
  controls : cut.controls = store.controls
  rows : cut.deliveries.rows = store.deliveries.rows ∨
    (Unprocessed packages store delivery ∧ ∃ reason, cut.deliveries.rows =
      Function.update store.deliveries.rows delivery.deliveryId
        (some ⟨delivery.recordedHash packages, none, reason⟩))

theorem Interrupted.untouched (store : WebhookStore) :
    Interrupted packages store delivery store := ⟨rfl, rfl, .inl rfl⟩

/-- A recorded delivery is compared with its hash. -/
theorem recordDelivery_recorded (failing : Option CallSite) {row : DeliveryRow}
    (recorded : store.row delivery = some row) :
    recordDelivery packages failing store delivery = (store, .error (.database .unavailable)) ∨
      recordDelivery packages failing store delivery = (store, .ok
        (if row.payloadHash = delivery.recordedHash packages then .duplicate else .conflict)) := by
  simp only [WebhookStore.row] at recorded
  simp only [recordDelivery, insertDelivery, existingOutcome, recorded]
  split
  · exact .inl rfl
  · split
    · exact .inl rfl
    · exact .inr rfl

/-- A recorded delivery with another hash is a conflict. -/
theorem processDelivery_conflict {row : DeliveryRow} (recorded : store.row delivery = some row)
    (other : row.payloadHash ≠ delivery.recordedHash packages) :
    processDelivery packages none store delivery = (store, .ok .conflict) := by
  simp only [WebhookStore.row] at recorded
  simp [processDelivery, recordDelivery, insertDelivery, existingOutcome, recorded, other]

/-- A processed delivery is a duplicate. -/
theorem processDelivery_processed {row : DeliveryRow} (recorded : store.row delivery = some row)
    (same : row.payloadHash = delivery.recordedHash packages) (processed : row.processedAt ≠ none) :
    processDelivery packages none store delivery = (store, .ok .duplicate) := by
  simp only [WebhookStore.row] at recorded
  obtain ⟨time, at_⟩ := Option.ne_none_iff_exists'.mp processed
  simp [processDelivery, recordDelivery, insertDelivery, existingOutcome, WebhookStore.row, recorded,
    same, at_]

/-- The outcome of `apply_delivery` at the time of the store. -/
def appliedTables (packages : Packages) (store : WebhookStore) (delivery : WebhookEnvelope) :
    Except RepositoryError Tables :=
  applyDelivery packages none store.deliveries.now store.tables delivery

/-- The store with the row of a delivery that is to be applied. -/
def WebhookStore.withRow (store : WebhookStore) (delivery : WebhookEnvelope) (row : DeliveryRow) :
    WebhookStore :=
  { store with
    deliveries :=
      { store.deliveries with
        rows := Function.update store.deliveries.rows delivery.deliveryId (some row) } }

theorem WebhookStore.row_withRow (row : DeliveryRow) :
    (store.withRow delivery row).row delivery = some row := by
  simp [withRow, WebhookStore.row]

/-- The insertion leaves an unprocessed row with the hash of the delivery. -/
theorem recordDelivery_unprocessed (unprocessed : Unprocessed packages store delivery) :
    ∃ outcome reason, outcome ≠ .conflict ∧
      (∀ failing, recordDelivery packages failing store delivery =
          (store, .error (.database .unavailable)) ∨
        recordDelivery packages failing store delivery =
          (store.withRow delivery ⟨delivery.recordedHash packages, none, reason⟩, .ok outcome)) ∧
      recordDelivery packages none store delivery =
        (store.withRow delivery ⟨delivery.recordedHash packages, none, reason⟩, .ok outcome) := by
  cases found : store.row delivery with
  | none =>
      simp only [WebhookStore.row] at found
      refine ⟨.inserted, none, by simp, fun failing => ?_, ?_⟩
      · simp only [recordDelivery, insertDelivery, found]
        split
        · exact .inl rfl
        · exact .inr rfl
      · simp [recordDelivery, insertDelivery, found, WebhookStore.withRow]
  | some row =>
      obtain ⟨same, waiting⟩ := unprocessed row found
      simp only [WebhookStore.row] at found
      have kept : store.withRow delivery ⟨delivery.recordedHash packages, none, row.processingError⟩ =
          store := by
        have row_eq : (⟨delivery.recordedHash packages, none, row.processingError⟩ : DeliveryRow) =
            row := by rw [← same, ← waiting]
        rw [row_eq, WebhookStore.withRow, ← found, Function.update_eq_self]
      refine ⟨.duplicate, row.processingError, by simp, fun failing => ?_, ?_⟩
      · rw [kept]
        simp only [recordDelivery, insertDelivery, existingOutcome, found]
        split
        · exact .inl rfl
        · split
          · exact .inl rfl
          · simp [same]
      · rw [kept]
        simp [recordDelivery, insertDelivery, existingOutcome, found, same]

theorem Interrupted.withRow (unprocessed : Unprocessed packages store delivery)
    (reason : Option String) : Interrupted packages store delivery
      (store.withRow delivery ⟨delivery.recordedHash packages, none, reason⟩) :=
  ⟨rfl, rfl, .inr ⟨unprocessed, reason, rfl⟩⟩

/-- The transaction without a failing call. -/
theorem applyInTransaction_none (reason : Option String) (outcome : DeliveryOutcome) :
    applyInTransaction packages none
        (store.withRow delivery ⟨delivery.recordedHash packages, none, reason⟩) delivery
        ⟨delivery.recordedHash packages, none, reason⟩ outcome =
      (settledStore packages store delivery (appliedTables packages store delivery),
        (appliedTables packages store delivery).map fun _ => outcome) := by
  have applied : applyDelivery packages none
      (store.withRow delivery ⟨delivery.recordedHash packages, none, reason⟩).deliveries.now
      (store.withRow delivery ⟨delivery.recordedHash packages, none, reason⟩).tables delivery =
      appliedTables packages store delivery := rfl
  rw [applyInTransaction, applied]
  cases appliedTables packages store delivery with
  | ok tables =>
      simp [settledStore, WebhookStore.withRow, DeliveryRow.markProcessed, Except.map]
  | error failure =>
      simp [settledStore, WebhookStore.withRow, DeliveryRow.markProcessed, markDeliveryProcessed,
        Except.map]

/-- A failing call in the transaction leaves an unprocessed row, or nothing has failed. -/
theorem applyInTransaction_failing (failing : Option CallSite)
    (unprocessed : Unprocessed packages store delivery) (reason : Option String)
    (outcome : DeliveryOutcome) :
    (∃ tables, appliedTables packages store delivery = .ok tables ∧
      applyInTransaction packages failing
          (store.withRow delivery ⟨delivery.recordedHash packages, none, reason⟩) delivery
          ⟨delivery.recordedHash packages, none, reason⟩ outcome =
        (settledStore packages store delivery (.ok tables), .ok outcome)) ∨
    ∃ cut failure, Interrupted packages store delivery cut ∧
      applyInTransaction packages failing
          (store.withRow delivery ⟨delivery.recordedHash packages, none, reason⟩) delivery
          ⟨delivery.recordedHash packages, none, reason⟩ outcome = (cut, .error failure) := by
  have applied := runSteps_failing failing store.deliveries.now 0 (delivery.applySteps packages)
    store.tables
  generalize same : store.withRow delivery ⟨delivery.recordedHash packages, none, reason⟩ = recorded
  have tables_eq : recorded.tables = store.tables := by rw [← same]; rfl
  have now_eq : recorded.deliveries.now = store.deliveries.now := by rw [← same]; rfl
  have interrupted : Interrupted packages store delivery recorded :=
    same ▸ Interrupted.withRow unprocessed reason
  rw [applyInTransaction, applyDelivery, tables_eq, now_eq]
  cases run : runSteps failing store.deliveries.now 0 (delivery.applySteps packages) store.tables with
  | ok tables =>
      have undisturbed : appliedTables packages store delivery = .ok tables := by
        rcases applied with equal | ⟨failure, failed⟩
        · rw [appliedTables, applyDelivery, ← equal, run]
        · rw [run] at failed
          cases failed
      simp only
      split
      · exact .inr ⟨recorded, _, interrupted, rfl⟩
      · refine .inl ⟨tables, undisturbed, ?_⟩
        subst same
        simp [settledStore, WebhookStore.withRow, DeliveryRow.markProcessed]
  | error failure =>
      simp only
      split
      · exact .inr ⟨recorded, _, interrupted, rfl⟩
      · split
        · exact .inr ⟨recorded, _, interrupted, rfl⟩
        · refine .inr ⟨_, _, ?_, rfl⟩
          refine ⟨rfl, interrupted.controls, .inr ⟨unprocessed, some (failure.text packages), ?_⟩⟩
          subst same
          simp [WebhookStore.withRow, markDeliveryProcessed, DeliveryRow.markProcessed]

/-- An unprocessed delivery is applied, or its error is marked. -/
theorem processDelivery_unprocessed (unprocessed : Unprocessed packages store delivery) :
    ∃ outcome, outcome ≠ .conflict ∧ processDelivery packages none store delivery =
      (settledStore packages store delivery (appliedTables packages store delivery),
        (appliedTables packages store delivery).map fun _ => outcome) := by
  obtain ⟨outcome, reason, settles, _, recorded⟩ := recordDelivery_unprocessed unprocessed
  refine ⟨outcome, settles, ?_⟩
  rw [processDelivery, recorded]
  cases outcome with
  | conflict => exact absurd rfl settles
  | inserted | duplicate =>
      simp only [reduceCtorEq, or_self, if_false, WebhookStore.row_withRow]
      exact applyInTransaction_none reason _

/-- A delivery is a conflict, a duplicate of a processed delivery, or unprocessed. -/
theorem delivery_cases (packages : Packages) (store : WebhookStore) (delivery : WebhookEnvelope) :
    (∃ row, store.row delivery = some row ∧ row.payloadHash ≠ delivery.recordedHash packages) ∨
      (∃ row, store.row delivery = some row ∧ row.payloadHash = delivery.recordedHash packages ∧
        row.processedAt ≠ none) ∨ Unprocessed packages store delivery := by
  cases found : store.row delivery with
  | none =>
      refine .inr (.inr fun row recorded => ?_)
      rw [found] at recorded
      cases recorded
  | some row =>
      by_cases same : row.payloadHash = delivery.recordedHash packages
      · by_cases processed : row.processedAt = none
        · refine .inr (.inr fun other recorded => ?_)
          rw [found] at recorded
          cases recorded
          exact ⟨same, processed⟩
        · exact .inr (.inl ⟨row, rfl, same, processed⟩)
      · exact .inl ⟨row, rfl, same⟩

/-- A failing call interrupts the delivery, or the delivery goes as if no call had failed. -/
theorem processDelivery_failing (packages : Packages) (failing : Option CallSite)
    (store : WebhookStore) (delivery : WebhookEnvelope) :
    (∃ after outcome, processDelivery packages failing store delivery = (after, .ok outcome) ∧
        processDelivery packages none store delivery = (after, .ok outcome)) ∨
      ∃ cut reason, processDelivery packages failing store delivery = (cut, .error reason) ∧
        Interrupted packages store delivery cut := by
  rcases delivery_cases packages store delivery with ⟨row, recorded, other⟩ |
    ⟨row, recorded, same, processed⟩ | unprocessed
  · rw [processDelivery_conflict recorded other, processDelivery]
    rcases recordDelivery_recorded failing recorded with failed | answered
    · rw [failed]
      exact .inr ⟨store, _, rfl, .untouched store⟩
    · rw [answered, if_neg other]
      exact .inl ⟨store, .conflict, rfl, rfl⟩
  · rw [processDelivery_processed recorded same processed, processDelivery]
    obtain ⟨time, at_⟩ := Option.ne_none_iff_exists'.mp processed
    rcases recordDelivery_recorded failing recorded with failed | answered
    · rw [failed]
      exact .inr ⟨store, _, rfl, .untouched store⟩
    · rw [answered, if_pos same]
      simp only [recorded, at_]
      split
      · exact .inr ⟨store, _, rfl, .untouched store⟩
      · split
        · exact .inr ⟨store, _, rfl, .untouched store⟩
        · exact .inl ⟨store, .duplicate, rfl, rfl⟩
  · obtain ⟨outcome, reason, settles, either, undisturbed⟩ := recordDelivery_unprocessed unprocessed
    have cases_ := applyInTransaction_failing failing unprocessed reason outcome
    rw [processDelivery, processDelivery, undisturbed]
    rcases either failing with failed | answered
    · rw [failed]
      exact .inr ⟨store, _, rfl, .untouched store⟩
    · rw [answered]
      cases outcome with
      | conflict => exact absurd rfl settles
      | inserted | duplicate =>
          simp only [reduceCtorEq, or_self, if_false, WebhookStore.row_withRow]
          split
          · exact .inr ⟨_, _, rfl, .withRow unprocessed reason⟩
          · rcases cases_ with ⟨tables, applied, equal⟩ | ⟨cut, failure, interrupted, equal⟩
            · refine .inl ⟨_, _, equal, ?_⟩
              rw [applyInTransaction_none, applied]
              rfl
            · exact .inr ⟨cut, failure, equal, interrupted⟩

/-- Two deliveries go on or stop together. -/
def BothProceed (outcome outcome' : DeliveryOutcome) : Prop :=
  outcome = .conflict ↔ outcome' = .conflict

theorem Interrupted.later {cut : WebhookStore} (interrupted : Interrupted packages store delivery cut)
    (elapsed : Nat) : Interrupted packages store delivery (cut.later elapsed) :=
  ⟨interrupted.tables, interrupted.controls, interrupted.rows⟩

/-- An interruption changes no row of a delivery that is recorded otherwise. -/
theorem Interrupted.recorded {cut : WebhookStore} (interrupted : Interrupted packages store delivery cut)
    {row : DeliveryRow} (recorded : store.row delivery = some row)
    (settled : row.payloadHash ≠ delivery.recordedHash packages ∨ row.processedAt ≠ none) :
    cut.deliveries.rows = store.deliveries.rows := by
  rcases interrupted.rows with same | ⟨unprocessed, _⟩
  · exact same
  · obtain ⟨same, waiting⟩ := unprocessed row recorded
    rcases settled with other | processed
    · exact absurd same other
    · exact absurd waiting processed

theorem Interrupted.unprocessed {cut : WebhookStore}
    (interrupted : Interrupted packages store delivery cut)
    (unprocessed : Unprocessed packages store delivery) : Unprocessed packages cut delivery := by
  rcases interrupted.rows with same | ⟨_, reason, updated⟩
  · intro row found
    rw [WebhookStore.row, same] at found
    exact unprocessed row found
  · intro row found
    rw [WebhookStore.row, updated, Function.update_self, Option.some.injEq] at found
    rw [← found]
    exact ⟨rfl, rfl⟩

/-- An interruption changes no other delivery. -/
theorem Interrupted.other {cut : WebhookStore} (interrupted : Interrupted packages store delivery cut)
    {deliveryId : String} (other : deliveryId ≠ delivery.deliveryId) :
    cut.deliveries.rows deliveryId = store.deliveries.rows deliveryId := by
  rcases interrupted.rows with same | ⟨_, reason, updated⟩
  · rw [same]
  · rw [updated, Function.update_of_ne other]

theorem alike_of_rows {cut : WebhookStore} (interrupted : Interrupted packages store delivery cut)
    (rows : cut.deliveries.rows = store.deliveries.rows) : Alike cut store where
  tables := interrupted.tables ▸ .refl _
  controls := interrupted.controls
  deliveries deliveryId := by
    rw [rows]
    exact sameRows_refl _

/-- Two outcomes of `apply_delivery` that agree settle the delivery alike. -/
theorem settledStore_alike {cut : WebhookStore}
    (interrupted : Interrupted packages store delivery cut) {first second : Except RepositoryError Tables}
    (agree : SameOutcome Tables.Agree first second) :
    Alike (settledStore packages cut delivery first) (settledStore packages store delivery second) := by
  have rows (row row' : DeliveryRow) (same : SameDelivery row row') (deliveryId : String) :
      Option.Rel SameDelivery
        (Function.update cut.deliveries.rows delivery.deliveryId (some row) deliveryId)
        (Function.update store.deliveries.rows delivery.deliveryId (some row') deliveryId) := by
    by_cases mine : deliveryId = delivery.deliveryId
    · subst mine
      rw [Function.update_self, Function.update_self]
      exact .some same
    · rw [Function.update_of_ne mine, Function.update_of_ne mine, interrupted.other mine]
      exact sameRows_refl _
  cases first with
  | ok tables =>
      cases second with
      | ok tables' => exact ⟨agree, interrupted.controls, rows _ _ ⟨rfl, rfl, rfl⟩⟩
      | error => exact agree.elim
  | error reason =>
      cases second with
      | ok => exact agree.elim
      | error reason' =>
          obtain rfl : reason = reason' := agree
          refine ⟨?_, interrupted.controls, rows _ _ ⟨rfl, rfl, rfl⟩⟩
          exact interrupted.tables ▸ .refl _

/-- A repeated delivery makes up for an interruption. -/
theorem processDelivery_again {cut : WebhookStore}
    (interrupted : Interrupted packages store delivery cut) :
    Alike (processDelivery packages none cut delivery).1 (processDelivery packages none store delivery).1 ∧
      SameOutcome BothProceed (processDelivery packages none cut delivery).2
        (processDelivery packages none store delivery).2 := by
  rcases delivery_cases packages store delivery with ⟨row, recorded, other⟩ |
    ⟨row, recorded, same, processed⟩ | unprocessed
  · have rows := interrupted.recorded recorded (.inl other)
    have found : cut.row delivery = some row := by rw [← recorded, WebhookStore.row, rows]; rfl
    rw [processDelivery_conflict recorded other, processDelivery_conflict found other]
    exact ⟨alike_of_rows interrupted rows, Iff.rfl⟩
  · have rows := interrupted.recorded recorded (.inr processed)
    have found : cut.row delivery = some row := by rw [← recorded, WebhookStore.row, rows]; rfl
    rw [processDelivery_processed recorded same processed,
      processDelivery_processed found same processed]
    exact ⟨alike_of_rows interrupted rows, Iff.rfl⟩
  · obtain ⟨first, firstSettles, once⟩ := processDelivery_unprocessed unprocessed
    obtain ⟨second, secondSettles, again⟩ :=
      processDelivery_unprocessed (interrupted.unprocessed unprocessed)
    have agree : SameOutcome Tables.Agree (appliedTables packages cut delivery)
        (appliedTables packages store delivery) := by
      rw [appliedTables, interrupted.tables]
      exact applyDelivery_agree packages delivery store.tables _ _
    rw [once, again]
    refine ⟨settledStore_alike interrupted agree, ?_⟩
    cases one : appliedTables packages cut delivery with
    | ok tables =>
        cases two : appliedTables packages store delivery with
        | ok tables' => exact iff_of_false secondSettles firstSettles
        | error =>
            rw [one, two] at agree
            exact agree.elim
    | error reason =>
        cases two : appliedTables packages store delivery with
        | ok =>
            rw [one, two] at agree
            exact agree.elim
        | error =>
            rw [one, two] at agree
            exact agree

/-- A delivery that went through is only recognized again. -/
theorem processDelivery_repeated {after : WebhookStore} {outcome : DeliveryOutcome}
    (processed : processDelivery packages none store delivery = (after, .ok outcome))
    {next : WebhookStore} (rows : next.deliveries.rows = after.deliveries.rows) :
    ∃ outcome', processDelivery packages none next delivery = (next, .ok outcome') ∧
      BothProceed outcome' outcome := by
  have found (row : DeliveryRow) (recorded : after.row delivery = some row) :
      next.row delivery = some row := by
    rw [← recorded, WebhookStore.row, rows]
    rfl
  rcases delivery_cases packages store delivery with ⟨row, recorded, other⟩ |
    ⟨row, recorded, same, done⟩ | unprocessed
  · rw [processDelivery_conflict recorded other] at processed
    cases processed
    exact ⟨_, processDelivery_conflict (found row recorded) other, Iff.rfl⟩
  · rw [processDelivery_processed recorded same done] at processed
    cases processed
    exact ⟨_, processDelivery_processed (found row recorded) same done, Iff.rfl⟩
  · obtain ⟨settled, settles, once⟩ := processDelivery_unprocessed unprocessed
    rw [once] at processed
    cases applied : appliedTables packages store delivery with
    | error reason =>
        rw [applied] at processed
        cases processed
    | ok tables =>
        rw [applied] at processed
        cases processed
        have recorded := found ⟨delivery.recordedHash packages, some store.deliveries.now, none⟩
          (by simp [settledStore, WebhookStore.row])
        exact ⟨_, processDelivery_processed recorded rfl (by simp), iff_of_false (by simp) settles⟩

end PiTools
