import PiTools.Control.Interruption
import PiTools.Queue.Invariant

/-
This file shows what a repeated delivery does with a control whose first
handling was cut short.
-/

namespace PiTools

open Library

variable {packages : Packages} {store store' : WebhookStore} {delivery : WebhookEnvelope}

/-! ### The context of a control -/

/-- The columns of a job that decide on the context of a control. -/
structure ContextKept (job job' : Job) : Prop where
  id : job'.id = job.id
  repositoryId : job'.repositoryId = job.repositoryId
  pullRequestNumber : job'.pullRequestNumber = job.pullRequestNumber
  checkRunId : job'.checkRunId = job.checkRunId
  createdAt : job'.createdAt = job.createdAt

theorem ContextKept.refl (job : Job) : ContextKept job job := ⟨rfl, rfl, rfl, rfl, rfl⟩

/-- The author of a pull request does not depend on the time of its row. -/
theorem context_agree {tables tables' : Tables} (agree : tables.Agree tables') {job job' : Job}
    (kept : ContextKept job job') :
    tables'.toRegistry.context job' = tables.toRegistry.context job := by
  obtain ⟨pullRequests, rfl, same⟩ := agree
  have author (rows : List PullRequestRecord) :
      (rows.find? fun pullRequest => pullRequest.repositoryId = job.repositoryId &&
          pullRequest.number = job.pullRequestNumber).map (fun row => row.authorLogin) =
        ((rows.map PullRequestRecord.undated).find? fun pullRequest =>
          pullRequest.repositoryId = job.repositoryId &&
            pullRequest.number = job.pullRequestNumber).map fun row => row.authorLogin := by
    rw [List.find?_map, Option.map_map]
    rfl
  have authors := author pullRequests
  rw [same, ← author tables.pullRequests] at authors
  have repository : ({ tables with pullRequests } : Tables).toRegistry.repository job.repositoryId =
      tables.toRegistry.repository job.repositoryId := rfl
  simp only [Registry.context, kept.id, kept.repositoryId, kept.pullRequestNumber, repository,
    Option.bind_eq_bind, Option.pure_def]
  generalize pullRequests.find? _ = found at authors ⊢
  generalize tables.pullRequests.find? _ = found' at authors ⊢
  cases found with
  | none => cases found' with
    | none => rfl
    | some => cases authors
  | some pullRequest => cases found' with
    | none => cases authors
    | some pullRequest' =>
        simp only [Option.map_some, Option.some.injEq] at authors
        simp only [Option.bind_some, authors]

/-- The context of a control depends on no time and on no other column of the jobs. -/
theorem controlContext_agree {tables tables' : Tables} (agree : tables.Agree tables')
    {jobs : List Job} (kept : List.Forall₂ ContextKept tables.jobs jobs) (now now' : Timestamp)
    (checkRunId : Int) :
    controlContext { tables'.database now' with jobs } tables'.toRegistry checkRunId =
      controlContext (tables.database now) tables.toRegistry checkRunId := by
  have filtered : List.Forall₂ ContextKept
      (tables.jobs.filter fun job => job.checkRunId = some checkRunId &&
        (tables.toRegistry.context job).isSome)
      (jobs.filter fun job => job.checkRunId = some checkRunId &&
        (tables'.toRegistry.context job).isSome) := by
    refine List.rel_filter (fun job job' same => ?_) kept
    simp only [context_agree agree same, same.checkRunId]
  simp only [controlContext, Tables.database]
  generalize tables.jobs.filter _ = rows at filtered ⊢
  generalize jobs.filter _ = rows' at filtered ⊢
  have selected : Option.Rel ContextKept
      (selectFirst (fun first second => second.createdAt < first.createdAt) rows)
      (selectFirst (fun first second => second.createdAt < first.createdAt) rows') :=
    selectFirst_related filtered fun _ _ _ _ one two => by rw [one.createdAt, two.createdAt]
  generalize selectFirst _ rows = chosen at selected ⊢
  generalize selectFirst _ rows' = chosen' at selected ⊢
  cases selected with
  | none => rfl
  | some same => exact context_agree agree same

/-! ### The update of a control -/

section Update

variable {action : ControlAction} {jobId : Uuid} {job job' : Job}

/-- The update of a control is explained by the call that the queue answers. -/
theorem controlUpdate_explained (action : ControlAction) (jobId : Uuid) (now : Timestamp) :
    (controlUpdate action jobId).Explained (action.op jobId, .changed true) now := by
  cases action with
  | approvePlan => exact approvePlan_explained jobId now
  | skipCurrentItem => exact skipCurrentItem_explained jobId now
  | cancelRun => exact requestCancel_explained jobId now

/-- An update changes a row that meets its guard, keeps its place and its bounds. -/
theorem controlUpdate_row (met : (controlUpdate action jobId).guard job = true)
    (changed : (controlUpdate action jobId).change job = .ok job') :
    ContextKept job job' ∧ job' ≠ job ∧ (job.attemptBounds = true → job'.attemptBounds = true) := by
  cases action with
  | approvePlan =>
      simp only [controlUpdate, approvePlan, Bool.and_eq_true, decide_eq_true_eq] at met changed
      split at changed
      · cases changed
      · cases changed
        refine ⟨⟨rfl, rfl, rfl, rfl, rfl⟩, fun same => ?_, id⟩
        have state : JobState.queued = job.state := congrArg Job.state same
        simp [met.1.1.2] at state
  | skipCurrentItem =>
      simp only [controlUpdate, skipCurrentItem, Bool.and_eq_true, Bool.or_eq_true,
        decide_eq_true_eq] at met changed
      split at changed
      · cases changed
      · cases changed
        refine ⟨⟨rfl, rfl, rfl, rfl, rfl⟩, fun same => ?_, ?_⟩
        · have state : JobState.queued = job.state := congrArg Job.state same
          rcases met.1.1.2 with running | waiting
          · simp [running] at state
          · simp [waiting] at state
        · intro bounds
          simp only [Job.attemptBounds, Bool.and_eq_true, decide_eq_true_eq] at bounds ⊢
          simp only [Job.skip, Job.releaseLease]
          omega
  | cancelRun =>
      simp only [controlUpdate, requestCancel, Bool.and_eq_true, Except.ok.injEq] at met changed
      subst changed
      refine ⟨⟨rfl, rfl, rfl, rfl, rfl⟩, fun same => ?_, id⟩
      have state : JobState.cancelled = job.state := congrArg Job.state same
      have active := met.2
      simp [Job.active, ← state, JobState.active] at active

/-- The guard of a control names its job. -/
theorem controlUpdate_id (met : (controlUpdate action jobId).guard job = true) : job.id = jobId :=
  (controlUpdate_explained action jobId 0).names job jobId met (action.op_target jobId)

/-- A statement that keeps the place and the bounds of each row keeps the constraints. -/
theorem constrained_of_rows {jobs jobs' : List Job} (constrained : Constrained jobs)
    (rows : List.Forall₂ (fun job job' => ContextKept job job' ∧
      (job.attemptBounds = true → job'.attemptBounds = true) ∧
      job'.deduplicationKey = job.deduplicationKey ∧ (job'.active = true → job.active = true))
      jobs jobs') : Constrained jobs' where
  bounds job' member := by
    obtain ⟨job, inside, _, bounds, _⟩ := forall₂_old rows member
    exact bounds (constrained.bounds job inside)
  ids := by
    rw [forall₂_map_eq Job.id rows fun _ _ paired => paired.1.id]
    exact constrained.ids
  identities := forall₂_selected_nodup Job.deduplicationKey Job.active rows
    (fun _ _ paired => paired.2.2.1) (fun _ _ paired => paired.2.2.2) constrained.identities
  checkRuns := by
    have same := forall₂_map_eq Job.checkRunId rows fun _ _ paired => paired.1.checkRunId
    have columns := congrArg (List.filterMap id) same
    simp only [List.filterMap_map, Function.id_comp] at columns
    rw [columns]
    exact constrained.checkRuns

/-- The rows after the update, or the same rows when Postgres refuses it. -/
def updatedJobs (action : ControlAction) (jobId : Uuid) (jobs : List Job) : List Job :=
  match updateRows (controlUpdate action jobId).guard (controlUpdate action jobId).change jobs with
  | .error _ => jobs
  | .ok (rows, _) =>
      match storeJobs rows with
      | .error _ => jobs
      | .ok stored => stored

/-- The queue answers with an error, or with the updated rows. -/
theorem controlUpdate_changed (action : ControlAction) (jobId : Uuid) (db : Database) :
    (∃ reason, (controlUpdate action jobId).changed db = .error reason ∧
        updatedJobs action jobId db.jobs = db.jobs) ∨
      ∃ changed, (controlUpdate action jobId).changed db =
        .ok ({ db with jobs := updatedJobs action jobId db.jobs }, changed) := by
  simp only [Update.changed, Update.execute, updatedJobs]
  cases updateRows _ _ db.jobs with
  | error reason => exact .inl ⟨reason, rfl, rfl⟩
  | ok updated =>
      simp only
      cases storeJobs updated.1 with
      | error reason => exact .inl ⟨reason, rfl, rfl⟩
      | ok stored => exact .inr ⟨_, rfl⟩

/-- The action changes a row of the table. -/
def Applicable (action : ControlAction) (jobId : Uuid) (jobs : List Job) : Prop :=
  ∃ job ∈ jobs, (controlUpdate action jobId).guard job = true ∧
    ∃ job', (controlUpdate action jobId).change job = .ok job'

/-- The rows after an update come from the rows before it. -/
theorem updated_row (updated : Updated (controlUpdate action jobId).guard
    (controlUpdate action jobId).change job job') :
    ContextKept job job' ∧ (job.attemptBounds = true → job'.attemptBounds = true) ∧
      job'.deduplicationKey = job.deduplicationKey ∧ (job'.active = true → job.active = true) := by
  rcases updated with ⟨met, changed⟩ | ⟨_, rfl⟩
  · obtain ⟨kept, _, bounds⟩ := controlUpdate_row met changed
    obtain ⟨_, move, _⟩ := (controlUpdate_explained action jobId 0).rows job job' met changed
    exact ⟨kept, bounds, move.identity.2.1, move.active⟩
  · exact ⟨.refl job', id, rfl, id⟩

theorem updatedJobs_kept (action : ControlAction) (jobId : Uuid) (jobs : List Job) :
    List.Forall₂ ContextKept jobs (updatedJobs action jobId jobs) := by
  have still : List.Forall₂ ContextKept jobs jobs := List.forall₂_same.mpr fun job _ => .refl job
  unfold updatedJobs
  split
  · exact still
  · rename_i rows count updated
    split
    · exact still
    · rename_i stored accepted
      obtain ⟨rfl, _⟩ := storeJobs_ok.mp accepted
      exact (updateRows_spec updated).1.imp fun _ _ row => (updated_row row).1

/-- An applicable action changes the table, and no other action does. -/
theorem updatedJobs_eq_iff {jobs : List Job} (constrained : Constrained jobs)
    (action : ControlAction) (jobId : Uuid) :
    updatedJobs action jobId jobs = jobs ↔ ¬ Applicable action jobId jobs := by
  unfold updatedJobs
  split
  · rename_i reason failed
    refine iff_of_true rfl ?_
    rintro ⟨job, member, met, job', changed⟩
    obtain ⟨other, inside, otherMet, refused⟩ := updateRows_error failed
    -- The guard names one job, and an id names one row.
    obtain rfl := row_unique Job.id constrained.ids member inside
      ((controlUpdate_id met).trans (controlUpdate_id otherMet).symm)
    rw [changed] at refused
    cases refused
  · rename_i rows count updated
    have pointwise := (updateRows_spec updated).1
    have accepted : storeJobs rows = .ok rows := storeJobs_ok.mpr
      ⟨rfl, constrained_of_rows constrained (pointwise.imp fun _ _ row => updated_row row)⟩
    rw [accepted]
    constructor
    · rintro same ⟨job, member, met, job', changed⟩
      simp only at same
      rw [same] at pointwise
      rcases List.forall₂_same.mp pointwise job member with ⟨_, kept⟩ | ⟨missed, _⟩
      · rw [changed, Except.ok.injEq] at kept
        exact (controlUpdate_row met changed).2.1 kept
      · rw [met] at missed
        cases missed
    · intro inapplicable
      have still : List.Forall₂ Eq jobs rows := by
        refine (forall₂_members pointwise).imp fun job job' paired => ?_
        obtain ⟨member, ⟨met, changed⟩ | ⟨_, same⟩⟩ := paired
        · exact absurd ⟨job, member, met, job', changed⟩ inapplicable
        · exact same.symm
      rw [List.forall₂_eq_eq_eq] at still
      exact still.symm

end Update

/-! ### The decision about a control -/

/-- The control of the delivery with its context and the decision about it. -/
def storedDecision (packages : Packages) (store : WebhookStore) (delivery : WebhookEnvelope) :
    Option (CheckRunControl × ControlContext × ControlDecision) :=
  match delivery.checkRunControl with
  | .ok (some control) =>
      match controlContext store.database store.tables.toRegistry control.checkRunId with
      | none => none
      | some context =>
          match decideControl packages.policyFromYaml delivery control context with
          | .error _ => none
          | .ok decision => some (control, context, decision)
  | _ => none

/-- The decision depends on no time and on no column that a control writes. -/
theorem storedDecision_agree (packages : Packages) (delivery : WebhookEnvelope)
    (agree : store.tables.Agree { store'.tables with jobs := store.tables.jobs })
    (kept : List.Forall₂ ContextKept store.tables.jobs store'.tables.jobs) :
    storedDecision packages store' delivery = storedDecision packages store delivery := by
  have found (checkRunId : Int) :
      controlContext store'.database store'.tables.toRegistry checkRunId =
        controlContext store.database store.tables.toRegistry checkRunId :=
    controlContext_agree agree kept store.deliveries.now store'.deliveries.now checkRunId
  simp only [storedDecision, found]

/-- The store after a decision that no failing call disturbs. -/
def decidedStore (store : WebhookStore) (delivery : WebhookEnvelope) (control : CheckRunControl)
    (context : ControlContext) (decision : ControlDecision) : WebhookStore :=
  match recordJobControl store.controls (controlRow delivery control context decision) with
  | (controls, inserted) =>
      match decision with
      | .accepted action =>
          if inserted then
            { store.withJobs (updatedJobs action context.jobId store.tables.jobs) with controls }
          else { store with controls }
      | .rejectedContext | .rejectedUnknown | .rejectedUnauthorized => { store with controls }

/-- The store after the control of the delivery. -/
def controlledStore (packages : Packages) (store : WebhookStore) (delivery : WebhookEnvelope) :
    WebhookStore :=
  match storedDecision packages store delivery with
  | none => store
  | some (control, context, decision) => decidedStore store delivery control context decision

/-- The delivery carries a control that is accepted, and the job has no row for it. -/
structure NewControl (packages : Packages) (store : WebhookStore) (delivery : WebhookEnvelope)
    (control : CheckRunControl) (context : ControlContext) (action : ControlAction) : Prop where
  decided : storedDecision packages store delivery = some (control, context, .accepted action)
  vacant : ∀ row ∈ store.controls, row.key ≠ (context.jobId, delivery.deliveryId)

/-- The store with the row of an accepted control that is not carried out. -/
def lostStore (store : WebhookStore) (delivery : WebhookEnvelope) (control : CheckRunControl)
    (context : ControlContext) (action : ControlAction) : WebhookStore :=
  { store with
    controls := store.controls ++ [controlRow delivery control context (.accepted action)] }

theorem processCheckRunControl_undecided (failing : Option CallSite)
    (undecided : storedDecision packages store delivery = none) :
    (processCheckRunControl packages failing store delivery).1 = store := by
  unfold storedDecision at undecided
  unfold processCheckRunControl
  split
  · rfl
  · rfl
  · rename_i control read
    split
    · rfl
    · split
      · rfl
      · rename_i context found
        split
        · rfl
        · rename_i decision decided
          simp [read, found, decided] at undecided

theorem processCheckRunControl_decided (failing : Option CallSite) {control : CheckRunControl}
    {context : ControlContext} {decision : ControlDecision}
    (decided : storedDecision packages store delivery = some (control, context, decision)) :
    processCheckRunControl packages failing store delivery =
      if failing = some .controlContext then
        (store, .error (.repository (.database .unavailable)))
      else recordDecision failing store delivery control context decision := by
  unfold storedDecision at decided
  split at decided
  · rename_i read
    split at decided
    · cases decided
    · rename_i found
      split at decided
      · cases decided
      · rename_i judged
        cases decided
        simp only [processCheckRunControl, read, found, judged]
  · cases decided

/-- A recorded request stays as it is. -/
theorem controlledStore_taken {control : CheckRunControl} {context : ControlContext}
    {decision : ControlDecision} {row : ControlRow}
    (decided : storedDecision packages store delivery = some (control, context, decision))
    (member : row ∈ store.controls) (same : row.key = (context.jobId, delivery.deliveryId)) :
    controlledStore packages store delivery = store := by
  have taken : recordJobControl store.controls (controlRow delivery control context decision) =
      (store.controls, false) := recordJobControl_taken member same
  simp only [controlledStore, decided, decidedStore, taken]
  cases decision <;> rfl

/-- A new request is recorded, and carried out when it is accepted. -/
theorem decidedStore_vacant {control : CheckRunControl} {context : ControlContext}
    {decision : ControlDecision}
    (vacant : ∀ row ∈ store.controls, row.key ≠ (context.jobId, delivery.deliveryId)) :
    decidedStore store delivery control context decision =
      match decision with
      | .accepted action =>
          { store.withJobs (updatedJobs action context.jobId store.tables.jobs) with
            controls := store.controls ++ [controlRow delivery control context decision] }
      | .rejectedContext | .rejectedUnknown | .rejectedUnauthorized =>
          { store with
            controls := store.controls ++ [controlRow delivery control context decision] } := by
  have new : recordJobControl store.controls (controlRow delivery control context decision) =
      (store.controls ++ [controlRow delivery control context decision], true) :=
    recordJobControl_vacant vacant
  simp only [decidedStore, new]
  cases decision <;> rfl

/-- A new control is recorded and carried out. -/
theorem controlledStore_new {control : CheckRunControl} {context : ControlContext}
    {action : ControlAction} (new : NewControl packages store delivery control context action) :
    controlledStore packages store delivery =
      (lostStore store delivery control context action).withJobs
        (updatedJobs action context.jobId store.tables.jobs) := by
  simp only [controlledStore, new.decided, decidedStore_vacant new.vacant]
  rfl

/-- An update that fails or is not audited leaves the same jobs as one that goes through. -/
theorem applyControl_alike {failing : Option CallSite} (control : CheckRunControl)
    (context : ControlContext) (action : ControlAction) (apart : failing ≠ some .queueUpdate) :
    Alike (applyControl failing store control context action).1
      (store.withJobs (updatedJobs action context.jobId store.tables.jobs)) := by
  rw [applyControl, if_neg apart]
  rcases controlUpdate_changed action context.jobId store.database with ⟨reason, refused, same⟩ |
    ⟨changed, answered⟩
  · rw [refused]
    have still : updatedJobs action context.jobId store.tables.jobs = store.tables.jobs := same
    rw [still]
    exact .refl store
  · rw [answered]
    simp only
    split
    · exact .refl _
    · exact .of_parts rfl rfl rfl

/-- The control is handled or left alone, unless the update of a new control fails. -/
theorem processCheckRunControl_failing (packages : Packages) (store : WebhookStore)
    (delivery : WebhookEnvelope) (failing : Option CallSite)
    (carried : failing = some .queueUpdate → ∀ control context action,
      ¬ NewControl packages store delivery control context action) :
    Alike (processCheckRunControl packages failing store delivery).1
        (controlledStore packages store delivery) ∨
      (failing ≠ none ∧
        Alike (processCheckRunControl packages failing store delivery).1 store) := by
  cases decided : storedDecision packages store delivery with
  | none =>
      rw [processCheckRunControl_undecided failing decided, controlledStore, decided]
      exact .inl (.refl store)
  | some judged =>
      obtain ⟨control, context, decision⟩ := judged
      rw [processCheckRunControl_decided failing decided]
      split
      · rename_i failed
        exact .inr ⟨by simp [failed], .refl store⟩
      · rw [recordDecision]
        split
        · rename_i failed
          exact .inr ⟨by simp [failed], .refl store⟩
        · by_cases taken : ∃ row ∈ store.controls, row.key = (context.jobId, delivery.deliveryId)
          · obtain ⟨row, member, same⟩ := taken
            have recorded : recordJobControl store.controls
                (controlRow delivery control context decision) = (store.controls, false) :=
              recordJobControl_taken member same
            rw [controlledStore_taken decided member same, recorded]
            refine .inl ?_
            cases decision <;> exact .refl store
          · have vacant : ∀ row ∈ store.controls, row.key ≠ (context.jobId, delivery.deliveryId) :=
              fun row member same => taken ⟨row, member, same⟩
            have recorded : recordJobControl store.controls
                (controlRow delivery control context decision) =
                  (store.controls ++ [controlRow delivery control context decision], true) :=
              recordJobControl_vacant vacant
            simp only [controlledStore, decided, decidedStore_vacant vacant, recorded]
            refine .inl ?_
            cases decision with
            | accepted action =>
                exact applyControl_alike control context action fun failed =>
                  carried failed control context action ⟨decided, vacant⟩
            | rejectedContext | rejectedUnknown | rejectedUnauthorized => exact .refl _

/-- A new control whose update fails is recorded and not carried out. -/
theorem processCheckRunControl_lost {control : CheckRunControl} {context : ControlContext}
    {action : ControlAction} (new : NewControl packages store delivery control context action) :
    (processCheckRunControl packages (some .queueUpdate) store delivery).1 =
      lostStore store delivery control context action := by
  have recorded : recordJobControl store.controls
      (controlRow delivery control context (.accepted action)) =
        (store.controls ++ [controlRow delivery control context (.accepted action)], true) :=
    recordJobControl_vacant new.vacant
  rw [processCheckRunControl_decided _ new.decided]
  simp [recordDecision, recorded, applyControl, lostStore]

/-! ### Repetition -/

/-- Stores that are alike decide alike. -/
theorem Alike.decision (alike : Alike store store') (packages : Packages)
    (delivery : WebhookEnvelope) :
    storedDecision packages store' delivery = storedDecision packages store delivery := by
  refine storedDecision_agree packages delivery ?_ ?_
  · rw [← alike.jobs]
    exact alike.tables
  · rw [alike.jobs]
    exact List.forall₂_same.mpr fun job _ => .refl job

theorem Alike.withJobs (alike : Alike store store') (jobs : List Job) (controls : List ControlRow) :
    Alike { store.withJobs jobs with controls } { store'.withJobs jobs with controls } := by
  obtain ⟨pullRequests, agree, same⟩ := alike.tables
  refine ⟨⟨pullRequests, ?_, same⟩, rfl, alike.deliveries⟩
  simp only [WebhookStore.withJobs, agree]

theorem controlledStore_alike (packages : Packages) (delivery : WebhookEnvelope)
    (alike : Alike store store') :
    Alike (controlledStore packages store delivery) (controlledStore packages store' delivery) := by
  simp only [controlledStore, alike.decision]
  cases storedDecision packages store delivery with
  | none => exact alike
  | some judged =>
      obtain ⟨control, context, decision⟩ := judged
      have recorded (controls : List ControlRow) :
          Alike { store with controls } { store' with controls } :=
        ⟨alike.tables, rfl, alike.deliveries⟩
      simp only [decidedStore, ← alike.controls, alike.jobs]
      obtain ⟨controls, inserted⟩ := recordJobControl store.controls
        (controlRow delivery control context decision)
      cases decision with
      | accepted action =>
          cases inserted with
          | true => exact alike.withJobs _ controls
          | false => exact recorded controls
      | rejectedContext | rejectedUnknown | rejectedUnauthorized => exact recorded controls

/-- A decision stays what it is after a control was handled. -/
theorem storedDecision_handled (store : WebhookStore) (delivery : WebhookEnvelope)
    (controls : List ControlRow) (action : ControlAction) (jobId : Uuid) :
    storedDecision packages
        { store.withJobs (updatedJobs action jobId store.tables.jobs) with controls } delivery =
      storedDecision packages store delivery :=
  storedDecision_agree packages delivery (.refl _) (updatedJobs_kept action jobId store.tables.jobs)

theorem storedDecision_recorded (store : WebhookStore) (delivery : WebhookEnvelope)
    (controls : List ControlRow) :
    storedDecision packages { store with controls } delivery =
      storedDecision packages store delivery :=
  storedDecision_agree packages delivery (.refl _) (List.forall₂_same.mpr fun job _ => .refl job)

/-- A control that was handled is a duplicate from then on. -/
theorem controlledStore_again (packages : Packages) (store : WebhookStore)
    (delivery : WebhookEnvelope) :
    controlledStore packages (controlledStore packages store delivery) delivery =
      controlledStore packages store delivery := by
  cases decided : storedDecision packages store delivery with
  | none =>
      have still : controlledStore packages store delivery = store := by
        rw [controlledStore, decided]
      rw [still, still]
  | some judged =>
      obtain ⟨control, context, decision⟩ := judged
      by_cases taken : ∃ row ∈ store.controls, row.key = (context.jobId, delivery.deliveryId)
      · obtain ⟨row, member, same⟩ := taken
        rw [controlledStore_taken decided member same, controlledStore_taken decided member same]
      · have vacant : ∀ row ∈ store.controls, row.key ≠ (context.jobId, delivery.deliveryId) :=
          fun row member same => taken ⟨row, member, same⟩
        have after : controlledStore packages store delivery =
            decidedStore store delivery control context decision := by
          rw [controlledStore, decided]
        rw [after, decidedStore_vacant vacant]
        -- Whatever was decided, the row of the control is there now.
        have row_new : controlRow delivery control context decision ∈
            store.controls ++ [controlRow delivery control context decision] := by simp
        cases decision with
        | accepted action =>
            exact controlledStore_taken
              ((storedDecision_handled store delivery _ action context.jobId).trans decided)
              row_new rfl
        | rejectedContext | rejectedUnknown | rejectedUnauthorized =>
            exact controlledStore_taken ((storedDecision_recorded store delivery _).trans decided)
              row_new rfl

/-- A control that was recorded and not carried out is a duplicate as well. -/
theorem controlledStore_lost {control : CheckRunControl} {context : ControlContext}
    {action : ControlAction} (new : NewControl packages store delivery control context action) :
    controlledStore packages (lostStore store delivery control context action) delivery =
      lostStore store delivery control context action := by
  have row_new : controlRow delivery control context (.accepted action) ∈
      store.controls ++ [controlRow delivery control context (.accepted action)] := by simp
  exact controlledStore_taken ((storedDecision_recorded store delivery _).trans new.decided)
    row_new rfl

/-- Without a failing call, the control is handled. -/
theorem processCheckRunControl_none (packages : Packages) (store : WebhookStore)
    (delivery : WebhookEnvelope) :
    Alike (processCheckRunControl packages none store delivery).1
      (controlledStore packages store delivery) := by
  rcases processCheckRunControl_failing packages store delivery none (by simp) with handled | ⟨failed, _⟩
  · exact handled
  · exact absurd rfl failed

/-- A repeated delivery makes up for a failing call, unless the update of a new control failed. -/
theorem processCheckRunControl_again {failing : Option CallSite}
    (carried : failing = some .queueUpdate → ∀ control context action,
      ¬ NewControl packages store delivery control context action) (next : WebhookStore)
    (alike : Alike next (processCheckRunControl packages failing store delivery).1) :
    Alike (processCheckRunControl packages none next delivery).1
      (controlledStore packages store delivery) := by
  have handled := processCheckRunControl_none packages next delivery
  rcases processCheckRunControl_failing packages store delivery failing carried with settled | ⟨_, untouched⟩
  · have again := controlledStore_alike packages delivery (alike.trans settled)
    rw [controlledStore_again] at again
    exact handled.trans again
  · exact handled.trans (controlledStore_alike packages delivery (alike.trans untouched))

/-- A repeated delivery does not carry a lost control out. -/
theorem processCheckRunControl_lost_again {control : CheckRunControl} {context : ControlContext}
    {action : ControlAction} (new : NewControl packages store delivery control context action)
    (next : WebhookStore) (alike : Alike next (lostStore store delivery control context action)) :
    Alike (processCheckRunControl packages none next delivery).1
      (lostStore store delivery control context action) := by
  have again := controlledStore_alike packages delivery alike
  rw [controlledStore_lost new] at again
  exact (processCheckRunControl_none packages next delivery).trans again

end PiTools
