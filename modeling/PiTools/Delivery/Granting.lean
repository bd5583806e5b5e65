import PiTools.Delivery.Repositories

/-
This file shows when a delivery that grants access restores the repository that
it lists.
-/

namespace PiTools

open Library

def WebhookEnvelope.listedIds (delivery : WebhookEnvelope) : List Int :=
  delivery.listedRepositories.filterMap fun repository => (repository.get "id").bind Json.asInt64

section Granting

variable {packages : Packages} {tables next : Tables} {delivery : WebhookEnvelope}
  {installationId repositoryId : Int} {now : Timestamp} {history : List RegistryAction}

/-- A listed repository has a last listing, which carries the installation. -/
theorem lastInput_listed (listed : repositoryId ∈ delivery.listedIds) :
    ∃ input, lastInput (delivery.inputs installationId) repositoryId = some input ∧
      input.id = repositoryId ∧ input.installationId = installationId ∧
        input.reactivate = delivery.reactivates := by
  obtain ⟨repository, member, id⟩ := List.mem_filterMap.mp listed
  obtain ⟨input, parsed, same⟩ : ∃ input,
      delivery.repositoryInput installationId repository = some input ∧ input.id = repositoryId := by
    rw [WebhookEnvelope.repositoryInput, id, Option.map_some]
    exact ⟨_, rfl, rfl⟩
  have inside : input ∈ (delivery.inputs installationId).filter fun input =>
      input.id = repositoryId :=
    List.mem_filter.mpr ⟨List.mem_filterMap.mpr ⟨repository, member, parsed⟩, by simpa using same⟩
  obtain ⟨last, found⟩ := Option.ne_none_iff_exists'.mp
    (mt List.getLast?_eq_none_iff.mp (List.ne_nil_of_mem inside))
  obtain ⟨known, mine⟩ := lastInput_mem found
  obtain ⟨other, _, parsed⟩ := List.mem_filterMap.mp known
  obtain ⟨_, _, rfl⟩ := Option.map_eq_some_iff.mp parsed
  exact ⟨_, found, mine, rfl, rfl⟩

/-- A grant changes the access of nothing that is stored. -/
theorem lifecycleSteps_grant (grants : delivery.reactivates = true) :
    delivery.lifecycleSteps installationId = [] := by
  simp only [WebhookEnvelope.reactivates, Bool.or_eq_true, Bool.and_eq_true, decide_eq_true_eq]
    at grants
  rw [WebhookEnvelope.lifecycleSteps]
  rcases grants with added | ⟨event, created⟩
  · rw [added]
  · simp [WebhookEnvelope.accessLifecycle, event, created]

/-- The delivered installation is served unless it was suspended before. -/
theorem serves_granted
    (resumed : ∀ installation ∈ tables.installations, installation.id = installationId →
      installation.suspended = false) (accountLogin accountType : String) :
    (upsertInstallation installationId accountLogin accountType tables).serves installationId =
      true := by
  rw [Registry.serves, upsertInstallation_row, if_pos rfl, Option.any_some, decide_eq_true_eq,
    describeInstallation]
  cases found : tables.installationRow installationId with
  | none => rfl
  | some installation => exact resumed installation (rowAt_mem found) (rowAt_key found)

/-- The row of a listed repository after a grant. -/
theorem granted_row (applied : applyDelivery packages none now tables delivery = .ok next)
    (grants : delivery.reactivates = true)
    (mine : delivery.installationId = some installationId)
    (listed : repositoryId ∈ delivery.listedIds)
    (resumed : ∀ installation ∈ tables.installations, installation.id = installationId →
      installation.suspended = false) :
    next.serves installationId = true ∧ ∃ repository,
      next.repositoryRow repositoryId = some repository ∧ repository.active = true ∧
        repository.installationId = ((tables.repositoryRow repositoryId).map
          RepositoryRecord.installationId).getD installationId := by
  obtain ⟨listing, settled, ran, settling, storing⟩ := applyDelivery_phases mine applied
  rw [lifecycleSteps_grant grants] at settling
  cases settling
  obtain ⟨installations, repositories, _⟩ := payloadSteps_frame storing
  obtain ⟨input, last, same, carried, reactivate⟩ := lastInput_listed listed
  have row := inputSteps_row (inputs_uniform delivery installationId) ran repositoryId
  rw [Registry.repositoryRow, Registry.repositoryRow, upsertInstallation_repositories, last,
    Option.elim_some, RepositoryInput.store_eq fun _ found => (rowAt_key found).trans same.symm]
    at row
  have kept : listing.installations = (upsertInstallation installationId
      (delivery.suppliedLogin.getD "unknown") delivery.accountType tables).installations := by
    obtain ⟨_, rfl⟩ := inputSteps_frame ran
    rfl
  rw [← repositories] at row
  refine ⟨?_, _, row, ?_, ?_⟩
  · rw [Registry.serves, Registry.installationRow, installations, kept]
    exact serves_granted resumed _ _
  · simp only [reactivate, grants, Bool.true_or]
  · simp only [carried]
    rfl

/-- A grant restores the repository unless it is stored under another installation. -/
theorem access_granted_iff {start : Tables} (empty : start.toRegistry = ⟨[], [], []⟩)
    (run : Run (RegistryStep packages) start history tables)
    (applied : applyDelivery packages none now tables delivery = .ok next)
    (grants : delivery.reactivates = true)
    (mine : delivery.installationId = some installationId)
    (listed : repositoryId ∈ delivery.listedIds)
    (resumed : ∀ installation ∈ tables.installations, installation.id = installationId →
      installation.suspended = false) :
    (∃ repository, repositoryContext repositoryId next = some repository ∧
        repository.installationId = installationId) ↔
      ∀ repository ∈ tables.repositories, repository.id = repositoryId →
        repository.installationId = installationId := by
  have keyed : tables.Keyed := history_keyed (by rw [empty]; exact ⟨.nil, .nil⟩) run
  obtain ⟨serves, row, found, active, installation⟩ :=
    granted_row applied grants mine listed resumed
  rw [repositoryContext_eq (applyDelivery_keyed keyed applied), found]
  constructor
  · rintro ⟨repository, context, same⟩ old member id
    obtain ⟨here, _⟩ := Option.filter_eq_some_iff.mp context
    cases here
    have before : tables.repositoryRow repositoryId = some old :=
      (rowAt_eq_some keyed.repositories).mpr ⟨member, id⟩
    rw [same, before] at installation
    exact installation.symm
  · intro known
    have same : row.installationId = installationId := by
      rw [installation]
      cases before : tables.repositoryRow repositoryId with
      | none => rfl
      | some old => exact known old (rowAt_mem before) (rowAt_key before)
    refine ⟨row, Option.filter_eq_some_iff.mpr ⟨rfl, ?_⟩, same⟩
    simp only [active, same, serves, Bool.and_self]

end Granting

/-! ### A second installation -/

/-- An installation event that lists one repository, which carries no owner there. -/
def installationDelivery (action : String) (installationId : Int) : WebhookEnvelope :=
  .fromPayload "delivery" "installation" (.object [
    ("action", .string action),
    ("installation", .object [
      ("account", .object [("login", .string "acme"), ("type", .string "Organization")]),
      ("id", .ofInt installationId)]),
    ("repositories", .array [
      .object [("full_name", .string "acme/web"), ("id", .ofInt 7), ("name", .string "web")]])]) []

def noTables : Tables := ⟨⟨[], [], []⟩, [], [], []⟩

def installedTables : Tables :=
  ⟨⟨[⟨1, "acme", "Organization", false⟩], [⟨7, 1, "unknown", "web", "main", true, ""⟩], []⟩,
    [], [], []⟩

def deletedTables : Tables :=
  ⟨⟨[⟨1, "acme", "Organization", true⟩], [⟨7, 1, "unknown", "web", "main", false, ""⟩], []⟩,
    [], [], []⟩

def reinstalledTables : Tables :=
  ⟨⟨[⟨1, "acme", "Organization", true⟩, ⟨2, "acme", "Organization", false⟩],
    [⟨7, 1, "unknown", "web", "main", true, ""⟩], []⟩, [], [], []⟩

theorem installed_applied :
    applyDelivery plainPackages none 0 noTables (installationDelivery "created" 1) =
      .ok installedTables := by decide

theorem deleted_applied :
    applyDelivery plainPackages none 1 installedTables (installationDelivery "deleted" 1) =
      .ok deletedTables := by decide

theorem reinstalled_applied :
    applyDelivery plainPackages none 2 deletedTables (installationDelivery "created" 2) =
      .ok reinstalledTables := by decide

theorem access_granted_first :
    (∃ repository, repositoryContext 7 installedTables = some repository ∧
        repository.installationId = 1) ↔
      ∀ repository ∈ noTables.repositories, repository.id = 7 → repository.installationId = 1 :=
  access_granted_iff rfl .refl installed_applied (by decide) (by decide) (by decide) (by decide)

/-- A repository of a deleted installation stays with it under the next installation. -/
theorem reinstallation_unserved :
    ¬ ∀ (packages : Packages) (start tables next : Tables) (history : List RegistryAction)
      (delivery : WebhookEnvelope) (installationId repositoryId : Int) (now : Timestamp),
      start.toRegistry = ⟨[], [], []⟩ →
      Run (RegistryStep packages) start history tables →
      applyDelivery packages none now tables delivery = .ok next →
      delivery.reactivates = true → delivery.installationId = some installationId →
      repositoryId ∈ delivery.listedIds →
      (∀ installation ∈ tables.installations, installation.id = installationId →
        installation.suspended = false) →
      ∃ repository, repositoryContext repositoryId next = some repository ∧
        repository.installationId = installationId := by
  intro claimed
  have history : Run (RegistryStep plainPackages) noTables
      [.process 0 (installationDelivery "created" 1), .process 1 (installationDelivery "deleted" 1)]
      deletedTables :=
    .cons (.processed installed_applied) (.single (.processed deleted_applied))
  obtain ⟨repository, context, _⟩ := claimed plainPackages noTables deletedTables reinstalledTables _
    (installationDelivery "created" 2) 2 7 2 rfl history reinstalled_applied (by decide) (by decide)
    (by decide) (by decide)
  have none_ : repositoryContext 7 reinstalledTables = none := by decide
  rw [none_] at context
  cases context

end PiTools
