import PiTools.Delivery.Repositories

/-
This file shows that a delivery cancels the jobs of every repository whose
access it takes.
-/

namespace PiTools

open Library

/-- The repository is active under an installation that is not suspended. -/
def Registry.accessible (registry : Registry) (repositoryId : Int) : Bool :=
  (registry.repository repositoryId).isSome

/-- Every job stays or is cancelled. -/
def Cancelled (jobs jobs' : List Job) : Prop :=
  List.Forall₂ (fun job job' => job' = job ∨ job' = job.cancel) jobs jobs'

/-- The repository has no active job. -/
def Stopped (repositoryId : Int) (jobs : List Job) : Prop :=
  ∀ job ∈ jobs, job.repositoryId = repositoryId → job.active = false

/-- A repository stays accessible or loses its jobs. -/
structure Revokes (tables next : Tables) : Prop where
  jobs : Cancelled tables.jobs next.jobs
  access : ∀ repositoryId, tables.accessible repositoryId = true →
    next.accessible repositoryId = true ∨ Stopped repositoryId next.jobs

section Revokes

variable {tables middle next : Tables} {jobs jobs' jobs'' : List Job} {repositoryId : Int}

theorem accessible_iff {registry : Registry} : registry.accessible repositoryId = true ↔
    ∃ repository ∈ registry.repositories, repository.id = repositoryId ∧
      repository.active = true ∧ ∃ installation ∈ registry.installations,
        installation.id = repository.installationId ∧ installation.suspended = false := by
  simp [Registry.accessible, Registry.repository, List.find?_isSome, and_assoc]

theorem Cancelled.refl (jobs : List Job) : Cancelled jobs jobs :=
  List.forall₂_same.mpr fun _ _ => .inl rfl

theorem Cancelled.trans (first : Cancelled jobs jobs') (second : Cancelled jobs' jobs'') :
    Cancelled jobs jobs'' := by
  refine (forall₂_compose first second).imp ?_
  rintro job job'' ⟨job', _, rfl | rfl, same⟩
  · exact same
  · exact .inr (same.elim id id)

theorem cancelJobs_cancelled (chosen : Job → Bool) (jobs : List Job) :
    Cancelled jobs (cancelJobs chosen jobs) := by
  rw [Cancelled, cancelJobs, List.forall₂_map_right_iff]
  refine List.forall₂_same.mpr fun job _ => ?_
  split
  · exact .inr rfl
  · exact .inl rfl

/-- A cancellation activates no job. -/
theorem Cancelled.stopped (cancelled : Cancelled jobs jobs') (stopped : Stopped repositoryId jobs) :
    Stopped repositoryId jobs' := by
  intro job' member mine
  obtain ⟨job, inside, rfl | rfl⟩ := forall₂_old cancelled member
  · exact stopped job' inside mine
  · rfl

theorem cancelJobs_stopped {chosen : Job → Bool}
    (chooses : ∀ job ∈ jobs, job.repositoryId = repositoryId → job.active = true →
      chosen job = true) : Stopped repositoryId (cancelJobs chosen jobs) := by
  intro job' member mine
  obtain ⟨job, inside, rfl⟩ := List.mem_map.mp member
  by_cases met : chosen job = true
  · rw [if_pos met]
    rfl
  · rw [if_neg met] at mine ⊢
    by_contra active
    exact met (chooses job inside mine (by simpa using active))

theorem Revokes.refl (tables : Tables) : Revokes tables tables :=
  ⟨.refl _, fun _ accessible => .inl accessible⟩

theorem Revokes.trans (first : Revokes tables middle) (second : Revokes middle next) :
    Revokes tables next := by
  refine ⟨first.jobs.trans second.jobs, fun repositoryId before => ?_⟩
  rcases first.access repositoryId before with accessible | stopped
  · exact second.access repositoryId accessible
  · exact .inr (second.jobs.stopped stopped)

/-- Statements that take no access and leave the jobs alone revoke nothing. -/
theorem Revokes.of_access (jobs : next.jobs = tables.jobs)
    (kept : ∀ repositoryId, tables.accessible repositoryId = true →
      next.accessible repositoryId = true) : Revokes tables next :=
  ⟨by rw [jobs]; exact .refl _, fun repositoryId before => .inl (kept repositoryId before)⟩

end Revokes

/-! ### Listings -/

section Listings

variable {tables next : Tables} {input : RepositoryInput} {now : Timestamp}

theorem upsertInstallation_revokes (id : Int) (accountLogin accountType : String)
    (tables : Tables) : Revokes tables (upsertInstallation id accountLogin accountType tables) := by
  refine .of_access (by unfold upsertInstallation; split <;> rfl) fun repositoryId before => ?_
  obtain ⟨repository, member, mine, active, installation, inside, same, resumed⟩ :=
    accessible_iff.mp before
  have kept : ∃ installation' ∈ (upsertInstallation id accountLogin accountType
      tables).installations, installation'.id = installation.id ∧ installation'.suspended = false := by
    unfold upsertInstallation
    split
    · refine ⟨_, List.mem_map_of_mem inside, ?_, ?_⟩ <;> split <;> first | rfl | exact resumed
    · exact ⟨installation, List.mem_append_left _ inside, rfl, resumed⟩
  obtain ⟨installation', inside', same', resumed'⟩ := kept
  refine accessible_iff.mpr ⟨repository, ?_, mine, active, installation', inside',
    same'.trans same, resumed'⟩
  rwa [upsertInstallation_repositories]

theorem upsertRepositoryRow_revokes (wrote : upsertRepositoryRow input tables = .ok next) :
    Revokes tables next := by
  obtain ⟨repositories, rfl, _, rows⟩ := upsertRepositoryRow_eq_ok wrote
  refine .of_access rfl fun repositoryId before => ?_
  obtain ⟨repository, member, mine, active, installed⟩ := accessible_iff.mp before
  rcases rows with ⟨_, rfl⟩ | ⟨_, rfl⟩
  · refine accessible_iff.mpr ⟨input.update repository, List.mem_map_of_mem member, ?_, ?_, ?_⟩
    · rw [RepositoryInput.update_id, mine]
    · unfold RepositoryInput.update
      split
      · simp [active]
      · exact active
    · have same : (input.update repository).installationId = repository.installationId := by
        unfold RepositoryInput.update
        split <;> rfl
      rwa [same]
  · exact accessible_iff.mpr ⟨repository, List.mem_append_left _ member, mine, active, installed⟩

theorem inputSteps_revokes {inputs : List RepositoryInput}
    (ran : runSteps none now 0 (inputSteps inputs) tables = .ok next) : Revokes tables next := by
  refine runSteps_keeps (fun later => Revokes tables later) ?_ 0 (.refl tables) ran
  intro run member before after held wrote
  obtain ⟨input, _, same⟩ := List.mem_map.mp member
  obtain rfl := ApplyStep.statement.inj same
  exact held.trans (upsertRepositoryRow_revokes wrote)

end Listings

/-! ### Changes of access -/

/-- What a change of access owes to the jobs when it is over. -/
structure Swept (delivery : WebhookEnvelope) (installationId : Int) (next : Tables) : Prop where
  installation : delivery.accessLifecycle = some .suspendInstallation ∨
      delivery.accessLifecycle = some .deleteInstallation →
    ∀ job ∈ next.jobs, next.belongsTo installationId job.repositoryId = true → job.active = false
  repositories : delivery.accessLifecycle = some .removeRepositories →
    ∀ repositoryId ∈ delivery.removedRepositoryIds, Stopped repositoryId next.jobs

section Changes

variable {tables middle next : Tables} {delivery : WebhookEnvelope} {now : Timestamp}
  {installationId repositoryId : Int}

/-- The sweep stops every repository of the installation. -/
theorem cancelInstallationSteps_sweep (constrained : Constrained tables.jobs)
    (ran : runSteps none now 0 (WebhookEnvelope.cancelInstallationSteps installationId) tables =
      .ok next) :
    Cancelled tables.jobs next.jobs ∧ next.installations = tables.installations ∧
      next.repositories = tables.repositories ∧
      ∀ repositoryId, tables.belongsTo installationId repositoryId = true →
        Stopped repositoryId next.jobs := by
  let unwatched := unwatchPullRequests (tables.belongsTo installationId) now tables
  let update := cancelInstallationJobs (unwatched.database now).repositories installationId
  have steady : Constrained unwatched.jobs := constrained
  have cancels : updateJobs update now unwatched =
      .ok { unwatched with jobs := cancelJobs update.guard unwatched.jobs } :=
    updateJobs_cancel steady update now fun _ _ => rfl
  have last : runSteps none now 0 (WebhookEnvelope.cancelInstallationSteps installationId) tables =
      .ok { unwatched with jobs := cancelJobs update.guard unwatched.jobs } := by
    simp only [WebhookEnvelope.cancelInstallationSteps, runSteps, reduceCtorEq, if_false]
    rw [cancels]
  rw [ran] at last
  cases last
  refine ⟨cancelJobs_cancelled _ _, rfl, rfl, fun repositoryId mine => ?_⟩
  refine cancelJobs_stopped fun job _ same active => ?_
  have found : (unwatched.database now).repositories.any (fun repository =>
      repository.1 = job.repositoryId && repository.2 = installationId) = true := by
    rw [same]
    simpa [Tables.database, List.any_map, Function.comp_def, unwatched, unwatchPullRequests,
      Registry.belongsTo] using mine
  simp only [update, cancelInstallationJobs, active, found, Bool.and_self]

/-- The statements of a removal stop the repository that they deactivate. -/
theorem deactivateRepositorySteps_sweep (constrained : Constrained tables.jobs)
    (ran : runSteps none now 0 (WebhookEnvelope.deactivateRepositorySteps repositoryId) tables =
      .ok next) :
    Revokes tables next ∧ Constrained next.jobs ∧ Stopped repositoryId next.jobs := by
  let deactivated := unwatchPullRequests (fun id => id = repositoryId) now
    (deactivateRepositories (fun repository => repository.id = repositoryId) tables)
  let update := cancelRepositoryJobs repositoryId
  have steady : Constrained deactivated.jobs := constrained
  have cancels : updateJobs update now deactivated =
      .ok { deactivated with jobs := cancelJobs update.guard deactivated.jobs } :=
    updateJobs_cancel steady update now fun _ _ => rfl
  have last : runSteps none now 0 (WebhookEnvelope.deactivateRepositorySteps repositoryId) tables =
      .ok { deactivated with jobs := cancelJobs update.guard deactivated.jobs } := by
    simp only [WebhookEnvelope.deactivateRepositorySteps, ApplyStep.write, runSteps, reduceCtorEq,
      if_false]
    rw [cancels]
  rw [ran] at last
  cases last
  have stopped : Stopped repositoryId (cancelJobs update.guard tables.jobs) := by
    refine cancelJobs_stopped fun job _ same active => ?_
    simp [update, cancelRepositoryJobs, same, active]
  refine ⟨⟨cancelJobs_cancelled _ _, fun other before => ?_⟩,
    constrained_cancelJobs _ constrained, stopped⟩
  by_cases mine : other = repositoryId
  · exact .inr (mine ▸ stopped)
  · obtain ⟨repository, member, same, active, installed⟩ := accessible_iff.mp before
    refine .inl (accessible_iff.mpr ⟨repository, ?_, same, active, installed⟩)
    refine List.mem_map.mpr ⟨repository, member, if_neg ?_⟩
    simpa [same] using mine

/-- Suspending an installation takes the access of its own repositories only. -/
theorem suspendInstallation_access (suspended : Bool)
    (before : tables.accessible repositoryId = true) :
    (suspendInstallation installationId suspended tables).accessible repositoryId = true ∨
      tables.belongsTo installationId repositoryId = true := by
  obtain ⟨repository, member, mine, active, installation, inside, same, resumed⟩ :=
    accessible_iff.mp before
  by_cases own : repository.installationId = installationId
  · refine .inr (List.any_eq_true.mpr ⟨repository, member, ?_⟩)
    simp [mine, own]
  · refine .inl (accessible_iff.mpr ⟨repository, member, mine, active, installation, ?_, same,
      resumed⟩)
    refine List.mem_map.mpr ⟨installation, inside, if_neg ?_⟩
    rwa [same]

theorem deactivateRepositories_access (before : tables.accessible repositoryId = true) :
    (deactivateRepositories (fun repository => repository.installationId = installationId)
        tables).accessible repositoryId = true ∨
      tables.belongsTo installationId repositoryId = true := by
  obtain ⟨repository, member, mine, active, installed⟩ := accessible_iff.mp before
  by_cases own : repository.installationId = installationId
  · refine .inr (List.any_eq_true.mpr ⟨repository, member, ?_⟩)
    simp [mine, own]
  · refine .inl (accessible_iff.mpr ⟨repository, ?_, mine, active, installed⟩)
    exact List.mem_map.mpr ⟨repository, member, if_neg (by simpa using own)⟩

theorem resumeInstallation_access (before : tables.accessible repositoryId = true) :
    (suspendInstallation installationId false tables).accessible repositoryId = true := by
  obtain ⟨repository, member, mine, active, installation, inside, same, resumed⟩ :=
    accessible_iff.mp before
  refine accessible_iff.mpr ⟨repository, member, mine, active, _, List.mem_map_of_mem inside, ?_, ?_⟩
  · split
    · exact same
    · exact same
  · split
    · rfl
    · exact resumed

/-- The same repositories belong to the installation after its own changes. -/
theorem deactivateRepositories_belongsTo (chosen : RepositoryRecord → Bool) (tables : Tables) :
    (deactivateRepositories chosen tables).belongsTo installationId repositoryId =
      tables.belongsTo installationId repositoryId := by
  rw [deactivateRepositories, Registry.belongsTo, Registry.belongsTo, List.any_map]
  congr 1
  funext repository
  simp only [Function.comp_apply]
  split <;> rfl

/-- A sweep after a loss of access revokes what was lost. -/
theorem sweep_revokes (constrained : Constrained middle.jobs) (jobs : middle.jobs = tables.jobs)
    (lost : ∀ repositoryId, tables.accessible repositoryId = true →
      middle.accessible repositoryId = true ∨ middle.belongsTo installationId repositoryId = true)
    (ran : runSteps none now 0 (WebhookEnvelope.cancelInstallationSteps installationId) middle =
      .ok next) :
    Revokes tables next ∧ ∀ job ∈ next.jobs,
      next.belongsTo installationId job.repositoryId = true → job.active = false := by
  obtain ⟨cancelled, installations, repositories, stopped⟩ :=
    cancelInstallationSteps_sweep constrained ran
  have registry (repositoryId : Int) : next.accessible repositoryId =
      middle.accessible repositoryId := by
    simp only [Registry.accessible, Registry.repository, installations, repositories]
  refine ⟨⟨jobs ▸ cancelled, fun repositoryId before => ?_⟩, fun job member mine => ?_⟩
  · rw [registry]
    exact (lost repositoryId before).imp id (stopped repositoryId)
  · rw [Registry.belongsTo, repositories] at mine
    exact stopped job.repositoryId mine job member rfl

theorem removedSteps_sweep {repositoryIds : List Int} (constrained : Constrained tables.jobs)
    (ran : runSteps none now 0
      (repositoryIds.flatMap WebhookEnvelope.deactivateRepositorySteps) tables = .ok next) :
    Revokes tables next ∧ ∀ repositoryId ∈ repositoryIds, Stopped repositoryId next.jobs := by
  induction repositoryIds generalizing tables with
  | nil =>
      cases ran
      exact ⟨.refl _, by simp⟩
  | cons first rest ih =>
      rw [List.flatMap_cons, runSteps_append] at ran
      obtain ⟨between, earlier, later⟩ := bind_eq_ok.mp ran
      obtain ⟨revoked, constrained', stopped⟩ := deactivateRepositorySteps_sweep constrained earlier
      obtain ⟨revokes, swept⟩ := ih constrained' later
      refine ⟨revoked.trans revokes, fun repositoryId member => ?_⟩
      rcases List.mem_cons.mp member with rfl | inside
      · exact revokes.jobs.stopped stopped
      · exact swept repositoryId inside

/-- A change of access stops what it takes the access of. -/
theorem lifecycleSteps_revokes (constrained : Constrained tables.jobs)
    (ran : runSteps none now 0 (delivery.lifecycleSteps installationId) tables = .ok next) :
    Revokes tables next ∧ Swept delivery installationId next := by
  unfold WebhookEnvelope.lifecycleSteps at ran
  split at ran
  · rename_i access
    simp only [ApplyStep.write, runSteps, reduceCtorEq, if_false] at ran
    rw [runSteps_index now _ 0] at ran
    have stays : (suspendInstallation installationId true tables).jobs = tables.jobs := rfl
    obtain ⟨revokes, swept⟩ := sweep_revokes (stays ▸ constrained) stays
      (fun _ before => suspendInstallation_access true before) ran
    exact ⟨revokes, fun _ => swept, by simp [access]⟩
  · rename_i access
    simp only [ApplyStep.write, runSteps, reduceCtorEq, if_false] at ran
    cases ran
    exact ⟨.of_access rfl fun _ before => resumeInstallation_access before, by simp [access],
      by simp [access]⟩
  · rename_i access
    simp only [ApplyStep.write, runSteps, reduceCtorEq, if_false] at ran
    rw [runSteps_index now _ 0] at ran
    have stays : (deactivateRepositories (fun repository => repository.installationId =
        installationId) (suspendInstallation installationId true tables)).jobs = tables.jobs := rfl
    have lost (repositoryId : Int) (before : tables.accessible repositoryId = true) :
        (deactivateRepositories (fun repository => repository.installationId = installationId)
            (suspendInstallation installationId true tables)).accessible repositoryId = true ∨
          (deactivateRepositories (fun repository => repository.installationId = installationId)
            (suspendInstallation installationId true tables)).belongsTo installationId
              repositoryId = true := by
      rw [deactivateRepositories_belongsTo]
      rcases suspendInstallation_access true before with still | own
      · exact deactivateRepositories_access still
      · exact .inr own
    obtain ⟨revokes, swept⟩ := sweep_revokes (stays ▸ constrained) stays lost ran
    exact ⟨revokes, fun _ => swept, by simp [access]⟩
  · rename_i access
    obtain ⟨revokes, swept⟩ := removedSteps_sweep constrained ran
    exact ⟨revokes, by simp [access], fun _ => swept⟩
  · rename_i access
    cases ran
    exact ⟨.refl _, by simp [access], by simp [access]⟩
  · rename_i access
    cases ran
    exact ⟨.refl _, by simp [access], by simp [access]⟩

/-- A delivery stops the jobs of every repository whose access it takes. -/
theorem applyDelivery_revokes {packages : Packages} (constrained : Constrained tables.jobs)
    (applied : applyDelivery packages none now tables delivery = .ok next) :
    Revokes tables next ∧ ∀ installationId, delivery.installationId = some installationId →
      Swept delivery installationId next := by
  cases named : delivery.installationId with
  | none =>
      obtain ⟨installations, repositories, jobs⟩ := applyDelivery_unnamed named applied
      refine ⟨.of_access jobs fun repositoryId before => ?_, by simp⟩
      simpa only [Registry.accessible, Registry.repository, installations, repositories] using before
  | some installationId =>
      obtain ⟨listed, settled, listing, settling, storing⟩ := applyDelivery_phases named applied
      have before := (upsertInstallation_revokes installationId
        (delivery.suppliedLogin.getD "unknown") delivery.accountType tables).trans
          (inputSteps_revokes listing)
      have same : listed.jobs = tables.jobs := by
        obtain ⟨_, rfl⟩ := inputSteps_frame listing
        simp only [upsertInstallation]
        split <;> rfl
      obtain ⟨revokes, swept⟩ := lifecycleSteps_revokes (same ▸ constrained) settling
      obtain ⟨installations, repositories, jobs⟩ := payloadSteps_frame storing
      refine ⟨(before.trans revokes).trans (.of_access jobs fun repositoryId before => ?_), ?_⟩
      · simpa only [Registry.accessible, Registry.repository, installations, repositories]
          using before
      · rintro _ ⟨⟩
        constructor
        · intro access job member mine
          rw [jobs] at member
          rw [Registry.belongsTo, repositories] at mine
          exact swept.installation access job member mine
        · intro access
          rw [jobs]
          exact swept.repositories access

end Changes

end PiTools
