import PiTools.Control.Requests
import Mathlib.Data.List.Find

/-
This file shows when a repeated delivery makes up for a failing storage call of
`receive`, and which control it loses.
-/

namespace PiTools

open Library

/-! ### The context of a control delivery -/

/-- The foreign keys of the jobs and of the repositories. -/
structure ForeignKeys (tables : Tables) : Prop where
  jobs : ∀ job ∈ tables.jobs, tables.hasRepository job.repositoryId = true
  repositories : ∀ repository ∈ tables.repositories,
    tables.hasInstallation repository.installationId = true

/-- The jobs stay as they are and so do the contexts of their controls. -/
structure SameContexts (tables next : Tables) : Prop where
  jobs : next.jobs = tables.jobs
  keys : ForeignKeys next
  contexts : ∀ job ∈ tables.jobs, next.toRegistry.context job = tables.toRegistry.context job

section Contexts

variable {packages : Packages} {delivery : WebhookEnvelope} {tables next : Tables}

theorem SameContexts.trans {last : Tables} (first : SameContexts tables next)
    (second : SameContexts next last) : SameContexts tables last where
  jobs := second.jobs.trans first.jobs
  keys := second.keys
  contexts job member :=
    (second.contexts job (first.jobs ▸ member)).trans (first.contexts job member)

/-- The context of a job reads its pull request and the policy of its repository. -/
theorem context_of_policy {registry registry' : Registry} {job : Job}
    (pullRequests : registry'.pullRequests = registry.pullRequests)
    (policy : (registry'.repository job.repositoryId).map RepositoryRecord.policyYaml =
      (registry.repository job.repositoryId).map RepositoryRecord.policyYaml) :
    registry'.context job = registry.context job := by
  simp only [Registry.context, pullRequests, Option.bind_eq_bind, Option.pure_def]
  generalize registry'.repository job.repositoryId = found' at policy ⊢
  generalize registry.repository job.repositoryId = found at policy ⊢
  cases found' with
  | none => cases found with
    | none => rfl
    | some => cases policy
  | some repository' => cases found with
    | none => cases policy
    | some repository =>
        simp only [Option.map_some, Option.some.injEq] at policy
        simp only [Option.bind_some, policy]

/-- A new installation is that of no repository in the table. -/
theorem upsertInstallation_contexts (keys : ForeignKeys tables) (id : Int)
    (accountLogin accountType : String) :
    SameContexts tables (upsertInstallation id accountLogin accountType tables) := by
  unfold upsertInstallation
  by_cases known : tables.hasInstallation id = true
  · rw [if_pos known]
    have anyInstallation (holds : Int → Bool → Bool) :
        ((tables.installations.map fun installation =>
          if installation.id = id then { installation with accountLogin, accountType }
          else installation).any fun installation => holds installation.id installation.suspended) =
        tables.installations.any fun installation => holds installation.id installation.suspended := by
      rw [List.any_map]
      refine List.any_congr rfl fun installation => ?_
      simp only [Function.comp_apply]
      split <;> rfl
    refine ⟨rfl, ⟨keys.jobs, fun repository member => ?_⟩, fun job _ => context_of_policy rfl ?_⟩
    · rw [← keys.repositories repository member]
      exact anyInstallation fun found _ => found = repository.installationId
    · simp only [Registry.repository]
      congr 1
      refine List.find?_congr fun repository _ => ?_
      congr 1
      exact anyInstallation fun found suspended =>
        found = repository.installationId && suspended = false
  · rw [if_neg known]
    refine ⟨rfl, ⟨keys.jobs, fun repository member => ?_⟩, fun job _ => context_of_policy rfl ?_⟩
    · have old := keys.repositories repository member
      simp only [Registry.hasInstallation] at old ⊢
      rw [List.any_append, old, Bool.true_or]
    · simp only [Registry.repository]
      congr 1
      refine List.find?_congr fun repository member => ?_
      have other : id ≠ repository.installationId := fun same =>
        known (same ▸ keys.repositories repository member)
      simp [List.any_append, other]

/-- A listed repository keeps its policy, and a new one has no jobs. -/
theorem upsertRepositoryRow_contexts (keys : ForeignKeys tables) {input : RepositoryInput}
    (kept : input.reactivate = false) (wrote : upsertRepositoryRow input tables = .ok next) :
    SameContexts tables next := by
  unfold upsertRepositoryRow storeRepositories at wrote
  split at wrote
  · split at wrote
    · cases wrote
      have update_eq (repository : RepositoryRecord) :
          (input.update repository).id = repository.id ∧
            (input.update repository).installationId = repository.installationId ∧
            (input.update repository).active = repository.active ∧
            (input.update repository).policyYaml = repository.policyYaml := by
        unfold RepositoryInput.update
        split <;> simp [kept]
      refine ⟨rfl, ⟨fun job member => ?_, fun repository member => ?_⟩, fun job _ =>
        context_of_policy rfl ?_⟩
      · have old := keys.jobs job member
        simp only [Registry.hasRepository, List.any_map] at old ⊢
        rw [← old]
        refine List.any_congr rfl fun repository => ?_
        simp only [Function.comp_apply, (update_eq repository).1]
      · obtain ⟨old, inside, rfl⟩ := List.mem_map.mp member
        have installed := keys.repositories old inside
        rw [← (update_eq old).2.1] at installed
        exact installed
      · simp only [Registry.repository, List.find?_map, Option.map_map]
        have policy : RepositoryRecord.policyYaml ∘ input.update = RepositoryRecord.policyYaml :=
          funext fun repository => (update_eq repository).2.2.2
        rw [policy]
        congr 1
        refine List.find?_congr fun repository _ => ?_
        obtain ⟨sameId, sameInstallation, sameActive, _⟩ := update_eq repository
        simp only [Function.comp_apply, sameId, sameInstallation, sameActive]
    · cases wrote
  · rename_i unknown
    split at wrote
    · rename_i installed
      split at wrote
      · cases wrote
        refine ⟨rfl, ⟨fun job member => ?_, fun repository member => ?_⟩, fun job member =>
          context_of_policy rfl ?_⟩
        · have old := keys.jobs job member
          simp only [Registry.hasRepository] at old ⊢
          rw [List.any_append, old, Bool.true_or]
        · rcases List.mem_append.mp member with old | new
          · exact keys.repositories repository old
          · rw [List.mem_singleton.mp new]
            exact installed
        · have other : input.id ≠ job.repositoryId := fun same =>
            unknown (same ▸ keys.jobs job member)
          simp [Registry.repository, List.find?_append, RepositoryInput.row, other]
      · cases wrote
    · cases wrote

/-- A statement of a control delivery leaves the contexts alone. -/
theorem Written.contexts {run : Timestamp → Tables → Except StorageError Tables}
    (written : Written delivery run) (control : delivery.isControl = true) (keys : ForeignKeys tables)
    {now : Timestamp} (wrote : run now tables = .ok next) : SameContexts tables next := by
  simp only [WebhookEnvelope.isControl, Bool.and_eq_true, decide_eq_true_eq] at control
  have unchanged : delivery.accessLifecycle = none := by
    simp [WebhookEnvelope.accessLifecycle, control.1]
  have kept (jobs : next.jobs = tables.jobs) (registry : next.toRegistry = tables.toRegistry) :
      SameContexts tables next := by
    refine ⟨jobs, ⟨?_, ?_⟩, fun job _ => by rw [registry]⟩
    · rw [jobs, registry]
      exact keys.jobs
    · rw [registry]
      exact keys.repositories
  cases written with
  | installation id login kind =>
      cases wrote
      exact upsertInstallation_contexts keys id login kind
  | repository input listed =>
      refine upsertRepositoryRow_contexts keys ?_ wrote
      simp [listed, WebhookEnvelope.reactivates, unchanged, control.1]
  | suspension access | deactivation access | unwatching access | cancellation access =>
      exact absurd unchanged access
  | snapshot event => simp [control.1] at event
  | feedback =>
      simp only [upsertFeedbackOn] at wrote
      split at wrote
      · cases wrote
        exact kept rfl rfl
      · split at wrote <;> cases wrote
        exact kept rfl rfl
  | check =>
      simp only [upsertCheckOn] at wrote
      split at wrote
      · cases wrote
        exact kept rfl rfl
      · split at wrote <;> cases wrote
        exact kept rfl rfl

theorem runSteps_contexts {now : Timestamp} {steps : List ApplyStep}
    (written : ∀ run, .statement run ∈ steps → Written delivery run)
    (control : delivery.isControl = true) (index : Nat) (keys : ForeignKeys tables)
    (ran : runSteps none now index steps tables = .ok next) : SameContexts tables next := by
  induction steps generalizing index tables with
  | nil =>
      cases ran
      exact ⟨rfl, keys, fun _ _ => rfl⟩
  | cons step rest ih =>
      cases step with
      | reject reason => cases ran
      | statement run =>
          simp only [runSteps, reduceCtorEq, if_false] at ran
          split at ran
          · cases ran
          · rename_i between wrote
            have first := (written run (.head _)).contexts control keys wrote
            exact first.trans (ih (fun other member => written other (.tail _ member)) (index + 1)
              first.keys ran)

/-- The context of a control does not depend on whether its delivery was applied. -/
theorem SameContexts.context (same : SameContexts tables next) (now now' : Timestamp)
    (checkRunId : Int) :
    controlContext (next.database now') next.toRegistry checkRunId =
      controlContext (tables.database now) tables.toRegistry checkRunId := by
  have rows : (tables.jobs.filter fun job => job.checkRunId = some checkRunId &&
        (next.toRegistry.context job).isSome) =
      tables.jobs.filter fun job => job.checkRunId = some checkRunId &&
        (tables.toRegistry.context job).isSome :=
    List.filter_congr fun job member => by rw [same.contexts job member]
  simp only [controlContext, Tables.database, same.jobs, rows]
  cases selected : selectFirst (fun first second => decide (second.createdAt < first.createdAt))
      (tables.jobs.filter fun job => job.checkRunId = some checkRunId &&
        (tables.toRegistry.context job).isSome) with
  | none => rfl
  | some job => exact same.contexts job (List.mem_of_mem_filter (selectFirst_mem selected))

end Contexts

/-! ### The delivery before its control -/

section Settled

variable {packages : Packages} {store after : WebhookStore} {delivery : WebhookEnvelope}
  {outcome : DeliveryOutcome}

/-- The delivery is processed already, or it is no conflict and its effects apply. -/
def Accepts (packages : Packages) (store : WebhookStore) (delivery : WebhookEnvelope) : Prop :=
  (∃ row, store.row delivery = some row ∧ row.payloadHash = delivery.recordedHash packages ∧
      row.processedAt ≠ none) ∨
    (Unprocessed packages store delivery ∧ ∃ tables, appliedTables packages store delivery = .ok tables)

/-- An accepted delivery is recognized or applied. -/
theorem processDelivery_accepted (accepts : Accepts packages store delivery) :
    ∃ after outcome, processDelivery packages none store delivery = (after, .ok outcome) ∧
      outcome ≠ .conflict := by
  rcases accepts with ⟨row, recorded, same, processed⟩ | ⟨unprocessed, tables, applied⟩
  · exact ⟨store, .duplicate, processDelivery_processed recorded same processed, by simp⟩
  · obtain ⟨outcome, settles, once⟩ := processDelivery_unprocessed unprocessed
    rw [applied] at once
    exact ⟨_, outcome, once, settles⟩

/-- Only an accepted delivery is followed up, and its tables are the old or the applied ones. -/
theorem processDelivery_followed
    (processed : processDelivery packages none store delivery = (after, .ok outcome))
    (settles : outcome ≠ .conflict) :
    Accepts packages store delivery ∧ after.controls = store.controls ∧
      (after.tables = store.tables ∨ appliedTables packages store delivery = .ok after.tables) := by
  rcases delivery_cases packages store delivery with ⟨row, recorded, other⟩ |
    ⟨row, recorded, same, done⟩ | unprocessed
  · rw [processDelivery_conflict recorded other] at processed
    cases processed
    exact absurd rfl settles
  · rw [processDelivery_processed recorded same done] at processed
    cases processed
    exact ⟨.inl ⟨row, recorded, same, done⟩, rfl, .inl rfl⟩
  · obtain ⟨settled, _, once⟩ := processDelivery_unprocessed unprocessed
    rw [once] at processed
    cases applied : appliedTables packages store delivery with
    | error reason =>
        rw [applied] at processed
        cases processed
    | ok tables =>
        rw [applied] at processed
        cases processed
        exact ⟨.inr ⟨unprocessed, tables, applied⟩, rfl, .inr rfl⟩

/-- The delivery keeps the constraints and the ids of the jobs, whatever becomes of it. -/
theorem processDelivery_jobs (packages : Packages) (delivery : WebhookEnvelope)
    (constrained : Constrained store.tables.jobs) :
    Constrained (processDelivery packages none store delivery).1.tables.jobs ∧
      (processDelivery packages none store delivery).1.tables.jobs.map Job.id =
        store.tables.jobs.map Job.id := by
  rcases delivery_cases packages store delivery with ⟨row, recorded, other⟩ |
    ⟨row, recorded, same, done⟩ | unprocessed
  · rw [processDelivery_conflict recorded other]
    exact ⟨constrained, rfl⟩
  · rw [processDelivery_processed recorded same done]
    exact ⟨constrained, rfl⟩
  · obtain ⟨settled, _, once⟩ := processDelivery_unprocessed unprocessed
    rw [once]
    cases applied : appliedTables packages store delivery with
    | error reason => exact ⟨constrained, rfl⟩
    | ok tables => exact applyDelivery_jobs applied constrained

/-- A delivery without a control has no decision. -/
theorem storedDecision_other (other : delivery.isControl = false) :
    storedDecision packages store delivery = none := by
  simp [storedDecision, WebhookEnvelope.checkRunControl, other]

/-- A control is decided alike before and after its delivery was applied. -/
theorem newControl_applied (keys : ForeignKeys store.tables)
    (processed : processDelivery packages none store delivery = (after, .ok outcome))
    (settles : outcome ≠ .conflict) (control : CheckRunControl) (context : ControlContext)
    (action : ControlAction) :
    (NewControl packages after delivery control context action ∧
        Applicable action context.jobId after.tables.jobs) ↔
      NewControl packages store delivery control context action ∧
        Applicable action context.jobId store.tables.jobs := by
  obtain ⟨_, controls, tables⟩ := processDelivery_followed processed settles
  by_cases isControl : delivery.isControl = true
  · have same : SameContexts store.tables after.tables := by
      rcases tables with kept | applied
      · rw [kept]
        exact ⟨rfl, keys, fun _ _ => rfl⟩
      · exact runSteps_contexts (fun _ member => written_applySteps member) isControl 0 keys applied
    have decided : storedDecision packages after delivery =
        storedDecision packages store delivery := by
      have found (checkRunId : Int) :
          controlContext after.database after.tables.toRegistry checkRunId =
            controlContext store.database store.tables.toRegistry checkRunId :=
        same.context store.deliveries.now after.deliveries.now checkRunId
      simp only [storedDecision, found]
    have new : NewControl packages after delivery control context action ↔
        NewControl packages store delivery control context action :=
      ⟨fun new => ⟨decided.symm.trans new.decided, controls ▸ new.vacant⟩,
        fun new => ⟨decided.trans new.decided, controls ▸ new.vacant⟩⟩
    rw [new, same.jobs]
  · have other : delivery.isControl = false := by simpa using isControl
    have none_ (here : WebhookStore) : ¬ NewControl packages here delivery control context action := by
      intro new
      have decided := new.decided
      rw [storedDecision_other other] at decided
      cases decided
    exact iff_of_false (fun new => none_ after new.1) (fun new => none_ store new.1)

end Settled

/-! ### What follows the delivery -/

section FollowUp

variable {packages : Packages} {failing : Option CallSite} {store store' : WebhookStore}
  {delivery : WebhookEnvelope} {drawId first second undisturbed : List Uuid → Uuid}
  {known : List Uuid} {outcome outcome' : DeliveryOutcome}

theorem followUp_unread {reason : EventParseError} (unread : delivery.checkRunControl = .error reason) :
    (followUp packages failing drawId store delivery outcome).1 = store := by
  rw [followUp, unread]

theorem followUp_plain (plain : delivery.checkRunControl = .ok none) :
    (followUp packages failing drawId store delivery outcome).1 =
      if delivery.isSupported = true then
        (enqueueReconciliations failing drawId store delivery outcome).1
      else store := by
  rw [followUp, plain]
  simp only [processCheckRunControl, plain, true_and]
  split <;> rfl

theorem followUp_control {control : CheckRunControl}
    (read : delivery.checkRunControl = .ok (some control)) :
    (followUp packages failing drawId store delivery outcome).1 =
      (processCheckRunControl packages failing store delivery).1 := by
  rw [followUp, read]
  obtain ⟨after, disposition⟩ := processCheckRunControl packages failing store delivery
  cases disposition with
  | error => rfl
  | ok => simp

/-- Only a control delivery carries a control. -/
theorem NewControl.read {control : CheckRunControl} {context : ControlContext}
    {action : ControlAction} (new : NewControl packages store delivery control context action) :
    delivery.checkRunControl = .ok (some control) := by
  have decided := new.decided
  unfold storedDecision at decided
  split at decided
  · rename_i read
    split at decided
    · cases decided
    · split at decided
      · cases decided
      · cases decided
        exact read
  · cases decided

/-- Stores that are alike are followed up alike. -/
theorem followUp_alike (alike : Alike store store') (fresh : Fresh second)
    (fresh' : Fresh undisturbed) (constrained : Constrained store.tables.jobs)
    (present : known ⊆ store.tables.jobs.map Job.id) :
    Recovered known (followUp packages none second store delivery outcome).1
      (followUp packages none undisturbed store' delivery outcome').1 := by
  cases read : delivery.checkRunControl with
  | error reason =>
      rw [followUp_unread read, followUp_unread read]
      exact alike.recovered known
  | ok found =>
      cases found with
      | none =>
          rw [followUp_plain read, followUp_plain read]
          split
          · exact enqueueReconciliations_alike alike fresh fresh' constrained present
          · exact alike.recovered known
      | some control =>
          rw [followUp_control read, followUp_control read]
          have left := processCheckRunControl_none packages store delivery
          have right := processCheckRunControl_none packages store' delivery
          have between := controlledStore_alike packages delivery alike
          exact ((left.trans between).trans right.symm).recovered known

/-- A failing call after the delivery is made up for, unless it loses a control. -/
theorem followUp_again
    (carried : failing = some .queueUpdate → ∀ control context action,
      ¬ NewControl packages store delivery control context action)
    (fresh : Fresh first) (fresh' : Fresh second) (fresh'' : Fresh undisturbed)
    (constrained : Constrained store.tables.jobs) (present : known ⊆ store.tables.jobs.map Job.id)
    (elapsed : Nat) :
    Recovered known
      (followUp packages none second
        ((followUp packages failing first store delivery outcome).1.later elapsed) delivery outcome').1
      (followUp packages none undisturbed store delivery outcome).1 := by
  cases read : delivery.checkRunControl with
  | error reason =>
      simp only [followUp_unread read]
      exact (Alike.later elapsed store).recovered known
  | ok found =>
      cases found with
      | none =>
          simp only [followUp_plain read]
          split
          · exact enqueueReconciliations_again failing fresh fresh' fresh'' constrained present elapsed
          · exact (Alike.later elapsed store).recovered known
      | some control =>
          simp only [followUp_control read]
          have again := processCheckRunControl_again carried _ (.later elapsed _)
          have once := processCheckRunControl_none packages store delivery
          exact (again.trans once.symm).recovered known

/-- A lost control leaves the jobs as they were. -/
theorem followUp_lost {control : CheckRunControl} {context : ControlContext} {action : ControlAction}
    (new : NewControl packages store delivery control context action)
    (constrained : Constrained store.tables.jobs) (elapsed : Nat) :
    Recovered (store.tables.jobs.map Job.id)
        (followUp packages none second
          ((followUp packages (some .queueUpdate) first store delivery outcome).1.later elapsed)
          delivery outcome').1
        (followUp packages none undisturbed store delivery outcome).1 ↔
      ¬ Applicable action context.jobId store.tables.jobs := by
  simp only [followUp_control new.read]
  have lost : Alike
      ((processCheckRunControl packages (some .queueUpdate) store delivery).1.later elapsed)
      (lostStore store delivery control context action) := by
    rw [processCheckRunControl_lost new]
    exact .later elapsed _
  have again := processCheckRunControl_lost_again new _ lost
  have once := processCheckRunControl_none packages store delivery
  rw [controlledStore_new new] at once
  have kept : (processCheckRunControl packages none ((processCheckRunControl packages
      (some .queueUpdate) store delivery).1.later elapsed) delivery).1.tables.jobs =
      store.tables.jobs := again.jobs.symm
  have changed : (processCheckRunControl packages none store delivery).1.tables.jobs =
      updatedJobs action context.jobId store.tables.jobs := once.jobs.symm
  rw [← updatedJobs_eq_iff constrained action context.jobId]
  constructor
  · intro recovered
    have jobs := recovered.jobs
    rw [kept, changed] at jobs
    exact (sameJobs_known jobs).symm
  · intro same
    refine ⟨?_, again.controls.trans once.controls.symm, fun deliveryId =>
      sameRows_trans (again.deliveries deliveryId) (once.symm.deliveries deliveryId)⟩
    rw [kept, changed, same]
    exact sameJobs_refl _ _

/-- What follows a delivery leaves the deliveries alone. -/
theorem followUp_deliveries :
    (followUp packages failing drawId store delivery outcome).1.deliveries = store.deliveries := by
  have applied (here : WebhookStore) (control : CheckRunControl) (context : ControlContext)
      (action : ControlAction) :
      (applyControl failing here control context action).1.deliveries = here.deliveries := by
    unfold applyControl
    split
    · rfl
    · split
      · rfl
      · split <;> rfl
  cases read : delivery.checkRunControl with
  | error reason => rw [followUp_unread read]
  | ok found =>
      cases found with
      | none =>
          rw [followUp_plain read]
          split
          · rw [enqueueReconciliations_fst]
            split <;> rfl
          · rfl
      | some control =>
          rw [followUp_control read]
          cases decided : storedDecision packages store delivery with
          | none => rw [processCheckRunControl_undecided failing decided]
          | some judged =>
              rw [processCheckRunControl_decided failing decided]
              split
              · rfl
              · rw [recordDecision]
                split
                · rfl
                · obtain ⟨control, context, decision⟩ := judged
                  obtain ⟨controls, inserted⟩ := recordJobControl store.controls
                    (controlRow delivery control context decision)
                  cases decision with
                  | accepted action =>
                      cases inserted with
                      | true => exact applied _ control context action
                      | false => rfl
                  | rejectedContext | rejectedUnknown | rejectedUnauthorized => rfl

/-- Deliveries that were processed alike end alike. -/
theorem receive_alike
    (alike : Alike (processDelivery packages none store delivery).1
      (processDelivery packages none store' delivery).1)
    (proceeds : SameOutcome BothProceed (processDelivery packages none store delivery).2
      (processDelivery packages none store' delivery).2)
    (fresh : Fresh second) (fresh' : Fresh undisturbed)
    (constrained : Constrained (processDelivery packages none store delivery).1.tables.jobs)
    (present : known ⊆ (processDelivery packages none store delivery).1.tables.jobs.map Job.id) :
    Recovered known (receive packages none second store delivery).1
      (receive packages none undisturbed store' delivery).1 := by
  unfold receive
  generalize processDelivery packages none store delivery = left at alike proceeds constrained present ⊢
  generalize processDelivery packages none store' delivery = right at alike proceeds ⊢
  obtain ⟨after, answer⟩ := left
  obtain ⟨after', answer'⟩ := right
  cases answer with
  | error => cases answer' with
    | error => exact alike.recovered known
    | ok => exact proceeds.elim
  | ok outcome => cases answer' with
    | error => exact proceeds.elim
    | ok outcome' =>
        by_cases conflict : outcome = .conflict
        · obtain rfl := conflict
          obtain rfl := proceeds.mp rfl
          exact alike.recovered known
        · have followed : Recovered known (followUp packages none second after delivery outcome).1
              (followUp packages none undisturbed after' delivery outcome').1 :=
            followUp_alike alike fresh fresh' constrained present
          have other : outcome' ≠ .conflict := fun same => conflict (proceeds.mpr same)
          cases outcome with
          | conflict => exact absurd rfl conflict
          | inserted | duplicate => cases outcome' with
            | conflict => exact absurd rfl other
            | inserted | duplicate => exact followed

end FollowUp

/-! ### Redelivery -/

section Redelivery

variable {packages : Packages} {store : WebhookStore} {delivery : WebhookEnvelope}

/-- The queue update is no call of `process_delivery`. -/
theorem processDelivery_queueUpdate (packages : Packages) (store : WebhookStore)
    (delivery : WebhookEnvelope) :
    processDelivery packages (some .queueUpdate) store delivery =
      processDelivery packages none store delivery := by
  have ran (now : Timestamp) (steps : List ApplyStep) (index : Nat) (tables : Tables) :
      runSteps (some .queueUpdate) now index steps tables = runSteps none now index steps tables := by
    induction steps generalizing index tables with
    | nil => rfl
    | cons step rest ih =>
        cases step with
        | reject => rfl
        | statement run =>
            simp only [runSteps, Option.some.injEq, reduceCtorEq, if_false]
            split
            · rfl
            · exact ih _ _
  simp only [processDelivery, recordDelivery, applyInTransaction, applyDelivery, ran,
    Option.some.injEq, reduceCtorEq, or_self, if_false]

/-- The failing call is the queue update of a new accepted control that changes its job. -/
def LosesControl (packages : Packages) (failed : CallSite) (store : WebhookStore)
    (delivery : WebhookEnvelope) : Prop :=
  failed = .queueUpdate ∧ Accepts packages store delivery ∧ ∃ control context action,
    NewControl packages store delivery control context action ∧
      Applicable action context.jobId store.tables.jobs

/-- A redelivery makes up for any failing call, except for the queue update of a new accepted
control that changes its job. -/
theorem redelivery_recovers_iff (packages : Packages) (failed : CallSite) (store : WebhookStore)
    (delivery : WebhookEnvelope) (elapsed : Nat) {first second undisturbed : List Uuid → Uuid}
    (fresh : Fresh first) (fresh' : Fresh second) (fresh'' : Fresh undisturbed)
    (constrained : Constrained store.tables.jobs) (keys : ForeignKeys store.tables) :
    Recovered (store.tables.jobs.map Job.id)
        (receive packages none second
          ((receive packages (some failed) first store delivery).1.later elapsed) delivery).1
        (receive packages none undisturbed store delivery).1 ↔
      ¬ LosesControl packages failed store delivery := by
  obtain ⟨kept, ids⟩ := processDelivery_jobs packages delivery constrained
  rcases processDelivery_failing packages (some failed) store delivery with
    ⟨after, outcome, disturbed, once⟩ | ⟨cut, reason, disturbed, interrupted⟩
  · rw [once] at kept ids
    by_cases settles : outcome = .conflict
    · -- A conflict ends both deliveries at once.
      subst settles
      obtain ⟨outcome', again, proceeds⟩ :=
        processDelivery_repeated once (show (after.later elapsed).deliveries.rows = _ from rfl)
      obtain rfl := proceeds.mpr rfl
      simp only [receive, disturbed, once, again]
      refine iff_of_true ((Alike.later elapsed after).recovered _) ?_
      rintro ⟨_, accepts, _⟩
      obtain ⟨_, _, accepted, other⟩ := processDelivery_accepted accepts
      rw [once] at accepted
      cases accepted
      exact other rfl
    · have followed : receive packages (some failed) first store delivery =
          followUp packages (some failed) first after delivery outcome := by
        cases outcome with
        | conflict => exact absurd rfl settles
        | inserted | duplicate => simp only [receive, disturbed]
      have straight : receive packages none undisturbed store delivery =
          followUp packages none undisturbed after delivery outcome := by
        cases outcome with
        | conflict => exact absurd rfl settles
        | inserted | duplicate => simp only [receive, once]
      have rows : ((followUp packages (some failed) first after delivery outcome).1.later
          elapsed).deliveries.rows = after.deliveries.rows := by
        rw [WebhookStore.later, followUp_deliveries]
      obtain ⟨outcome', again, proceeds⟩ := processDelivery_repeated once rows
      have repeated : receive packages none second
          ((followUp packages (some failed) first after delivery outcome).1.later elapsed) delivery =
          followUp packages none second
            ((followUp packages (some failed) first after delivery outcome).1.later elapsed)
            delivery outcome' := by
        cases outcome' with
        | conflict => exact absurd (proceeds.mp rfl) settles
        | inserted | duplicate => simp only [receive, again]
      rw [followed, straight, repeated, ← ids]
      by_cases lost : failed = .queueUpdate ∧ ∃ control context action,
          NewControl packages after delivery control context action
      · obtain ⟨rfl, control, context, action, new⟩ := lost
        rw [followUp_lost new kept elapsed, not_iff_not]
        constructor
        · intro applicable
          exact ⟨rfl, (processDelivery_followed once settles).1, control, context, action,
            (newControl_applied keys once settles control context action).mp ⟨new, applicable⟩⟩
        · rintro ⟨_, _, control', context', action', losing⟩
          obtain ⟨new', applicable⟩ :=
            (newControl_applied keys once settles control' context' action').mpr losing
          have same := new.decided.symm.trans new'.decided
          cases same
          exact applicable
      · refine iff_of_true (followUp_again (fun failing control context action new => ?_) fresh fresh'
          fresh'' kept (List.Subset.refl _) elapsed) ?_
        · exact lost ⟨Option.some.inj failing, control, context, action, new⟩
        · rintro ⟨isUpdate, _, control, context, action, losing⟩
          exact lost ⟨isUpdate, control, context, action,
            ((newControl_applied keys once settles control context action).mpr losing).1⟩
  · -- The repeated delivery goes as the undisturbed one goes.
    obtain ⟨alike, proceeds⟩ := processDelivery_again (interrupted.later elapsed)
    have stopped : (receive packages (some failed) first store delivery).1 = cut := by
      simp only [receive, disturbed]
    rw [stopped]
    refine iff_of_true ?_ ?_
    · refine receive_alike alike proceeds fresh' fresh'' ?_ ?_
      · rw [← alike.jobs]
        exact kept
      · rw [← alike.jobs, ids]
        exact List.Subset.refl _
    · rintro ⟨rfl, accepts, _⟩
      obtain ⟨_, _, accepted, _⟩ := processDelivery_accepted accepts
      rw [processDelivery_queueUpdate, accepted] at disturbed
      cases disturbed

end Redelivery

/-- The identifier after all taken ones. -/
def nextId (taken : List Uuid) : Uuid := taken.foldr max 0 + 1

theorem nextId_fresh : Fresh nextId := by
  intro taken member
  have bounded (ids : List Uuid) : ∀ id ∈ ids, id ≤ ids.foldr max 0 := by
    induction ids with
    | nil => simp
    | cons first rest ih =>
        intro id inside
        rcases List.mem_cons.mp inside with rfl | later
        · exact le_max_left _ _
        · exact (ih id later).trans (le_max_right _ _)
  exact absurd (bounded taken _ member) (Nat.not_succ_le_self _)

/-- The author asks to cancel the run behind the Check Run. -/
def cancelRequest : WebhookEnvelope where
  deliveryId := "delivery"
  rawBody := []
  eventName := "check_run"
  action := some "requested_action"
  installationId := some 1
  repositoryId := some 1
  pullRequestNumber := some 7
  payload := .object [
    ("check_run", .object [("id", .ofInt 100), ("name", .string "PiTools"),
      ("status", .string "in_progress")]),
    ("repository", .object [("id", .ofInt 1), ("name", .string "r"),
      ("owner", .object [("login", .string "o")])]),
    ("requested_action", .object [("identifier", .string "cancel-run")]),
    ("sender", .object [("login", .string "author")])]

/-- One queued repair with its Check Run. -/
def repairTables : Tables where
  installations := [⟨1, "o", "Organization", false⟩]
  repositories := [⟨1, 1, "o", "r", "main", true, ""⟩]
  pullRequests := [{
    repositoryId := 1, githubId := 70, number := 7, title := "Change"
    url := "https://github.com/o/r/pull/7", state := .open, draft := false, merged := false
    headSha := "head", baseSha := "base", headBranch := "change", baseBranch := "main"
    authorLogin := "author", updatedAt := 0, watched := true }]
  feedbackItems := []
  checks := []
  jobs := [{ newJob (.empty 0) ⟨1, 7, .ciRepair, .object []⟩ 4 with checkRunId := some 100 }]

def repairStore : WebhookStore := ⟨repairTables, ⟨fun _ => none, [], 0⟩, [], []⟩

theorem repairTables_constrained : Constrained repairTables.jobs :=
  (storeJobs_ok.mp (show storeJobs repairTables.jobs = .ok repairTables.jobs by decide)).2

theorem repairTables_keys : ForeignKeys repairTables :=
  ⟨by decide, by decide⟩

theorem redelivery_recovers_audit :
    Recovered [4]
        (receive plainPackages none nextId
          ((receive plainPackages (some .recordAudit) nextId repairStore cancelRequest).1.later 60)
          cancelRequest).1
        (receive plainPackages none nextId repairStore cancelRequest).1 ↔
      ¬ LosesControl plainPackages .recordAudit repairStore cancelRequest :=
  redelivery_recovers_iff plainPackages .recordAudit repairStore cancelRequest 60 nextId_fresh
    nextId_fresh nextId_fresh repairTables_constrained repairTables_keys

/-- The redelivery of a cancellation whose queue update failed leaves the job queued. -/
theorem cancellation_lost :
    ¬ ∀ (packages : Packages) (failed : CallSite) (store : WebhookStore) (delivery : WebhookEnvelope)
      (elapsed : Nat) (first second undisturbed : List Uuid → Uuid), Fresh first → Fresh second →
      Fresh undisturbed → Constrained store.tables.jobs → ForeignKeys store.tables →
        Recovered (store.tables.jobs.map Job.id)
          (receive packages none second
            ((receive packages (some failed) first store delivery).1.later elapsed) delivery).1
          (receive packages none undisturbed store delivery).1 := by
  intro claimed
  have recovered := claimed plainPackages .queueUpdate repairStore cancelRequest 60 nextId nextId
    nextId nextId_fresh nextId_fresh nextId_fresh repairTables_constrained repairTables_keys
  have queued : (receive plainPackages none nextId ((receive plainPackages (some .queueUpdate) nextId
      repairStore cancelRequest).1.later 60) cancelRequest).1.tables.jobs =
        repairStore.tables.jobs := by decide
  have cancelled : (receive plainPackages none nextId repairStore cancelRequest).1.tables.jobs =
      repairStore.tables.jobs.map Job.cancel := by decide
  have jobs := recovered.jobs
  rw [queued, cancelled] at jobs
  have same := congrArg (List.map Job.state) (sameJobs_known jobs)
  revert same
  decide

end PiTools
