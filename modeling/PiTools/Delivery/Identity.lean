import PiTools.Delivery.Granting
import PiTools.Library.Fallback

/-
This file shows when the stored owners, default branches and account logins are
the last ones that the deliveries supplied.
-/

namespace PiTools

open Library

/-! ### What a delivery supplies -/

/-- The entries of a repository in a delivery. -/
def WebhookEnvelope.entriesOf (delivery : WebhookEnvelope) (repositoryId : Int) : List Json :=
  delivery.listedRepositories.filter fun repository =>
    (repository.get "id").bind Json.asInt64 = some repositoryId

/-- A delivery without an installation writes none of its entries. -/
def entryListing (supplied : Json → Option String) (repositoryId : Int)
    (delivery : WebhookEnvelope) : Listing String :=
  ⟨(delivery.entriesOf repositoryId).map supplied, delivery.installationId.isSome⟩

def ownerListing : Int → WebhookEnvelope → Listing String := entryListing suppliedOwner

def branchListing : Int → WebhookEnvelope → Listing String := entryListing suppliedBranch

def loginListing (installationId : Int) (delivery : WebhookEnvelope) : Listing String :=
  ⟨if delivery.installationId = some installationId then [delivery.suppliedLogin] else [],
    delivery.installationId.isSome⟩

def RegistryAction.processed : RegistryAction → Option WebhookEnvelope
  | .process _ delivery => some delivery
  | _ => none

/-- The deliveries that were processed, in their order. -/
def processedDeliveries (history : List RegistryAction) : List WebhookEnvelope :=
  history.filterMap RegistryAction.processed

/-- The stored identities are the last supplied ones. -/
structure IdentityKept (deliveries : List WebhookEnvelope) (tables : Tables) : Prop where
  owners : ∀ repository ∈ tables.repositories, repository.owner =
    (lastSupplied (deliveries.map (ownerListing repository.id))).getD "unknown"
  defaultBranches : ∀ repository ∈ tables.repositories, repository.defaultBranch =
    (lastSupplied (deliveries.map (branchListing repository.id))).getD "main"
  accountLogins : ∀ installation ∈ tables.installations, installation.accountLogin =
    (lastSupplied (deliveries.map (loginListing installation.id))).getD "unknown"

/-- The delivery supplies every identity that it writes, unless nothing was known of it. -/
structure SuppliesIdentity (past : List WebhookEnvelope) (delivery : WebhookEnvelope) : Prop where
  owners : ∀ repositoryId, Supplies "unknown" (past.map (ownerListing repositoryId))
    (ownerListing repositoryId delivery)
  defaultBranches : ∀ repositoryId, Supplies "main" (past.map (branchListing repositoryId))
    (branchListing repositoryId delivery)
  accountLogins : ∀ installationId, Supplies "unknown" (past.map (loginListing installationId))
    (loginListing installationId delivery)

/-! ### What a delivery writes -/

section Columns

variable {packages : Packages} {start tables next : Tables} {delivery : WebhookEnvelope}
  {installationId repositoryId : Int} {now : Timestamp} {history : List RegistryAction}

/-- The listed column of a repository is its entry with the fallback. -/
theorem inputs_column (repositoryId : Int) (column : RepositoryInput → String)
    (supplied : Json → Option String) (fallback : String) (agrees : ∀ repository input,
      delivery.repositoryInput installationId repository = some input →
        column input = (supplied repository).getD fallback) :
    (lastInput (delivery.inputs installationId) repositoryId).map column =
      ((delivery.entriesOf repositoryId).map supplied).getLast?.map
        fun value => value.getD fallback := by
  have columns : ((delivery.inputs installationId).filter fun input =>
        input.id = repositoryId).map column =
      ((delivery.entriesOf repositoryId).map supplied).map fun value => value.getD fallback := by
    unfold WebhookEnvelope.inputs WebhookEnvelope.entriesOf
    induction delivery.listedRepositories with
    | nil => rfl
    | cons repository rest ih =>
        cases parsed : (repository.get "id").bind Json.asInt64 with
        | none => simpa [WebhookEnvelope.repositoryInput, parsed] using ih
        | some id =>
            have first := agrees repository _ (by rw [WebhookEnvelope.repositoryInput, parsed]; rfl)
            by_cases same : id = repositoryId
            · simp [WebhookEnvelope.repositoryInput, parsed, same] at first ih ⊢
              exact ⟨first, ih⟩
            · simpa [WebhookEnvelope.repositoryInput, parsed, same] using ih
  rw [lastInput, ← List.getLast?_map, columns, List.getLast?_map]

/-- A column of the repositories that every listing writes. -/
structure ListedColumn (column : RepositoryRecord → String) (ofInput : RepositoryInput → String)
    (supplied : Json → Option String) (fallback : String) : Prop where
  identity : ∀ repository, column repository.identity = column repository
  row : ∀ input, column (RepositoryInput.row input) = ofInput input
  update : ∀ input repository, repository.id = input.id →
    column (RepositoryInput.update input repository) = ofInput input
  input : ∀ delivery installationId repository input,
    WebhookEnvelope.repositoryInput delivery installationId repository = some input →
      ofInput input = (supplied repository).getD fallback

theorem ownerColumn :
    ListedColumn RepositoryRecord.owner RepositoryInput.owner suppliedOwner "unknown" where
  identity _ := rfl
  row _ := rfl
  update input repository same := by rw [RepositoryInput.update, if_pos same]
  input delivery installationId repository input parsed := by
    obtain ⟨_, _, rfl⟩ := Option.map_eq_some_iff.mp parsed
    rfl

theorem branchColumn :
    ListedColumn RepositoryRecord.defaultBranch RepositoryInput.defaultBranch suppliedBranch
      "main" where
  identity _ := rfl
  row _ := rfl
  update input repository same := by rw [RepositoryInput.update, if_pos same]
  input delivery installationId repository input parsed := by
    obtain ⟨_, _, rfl⟩ := Option.map_eq_some_iff.mp parsed
    rfl

variable {column : RepositoryRecord → String} {ofInput : RepositoryInput → String}
  {supplied : Json → Option String} {fallback : String}

theorem ListedColumn.same (listed : ListedColumn column ofInput supplied fallback)
    (same : tables.SameIdentities next.toRegistry) :
    (next.repositoryRow repositoryId).map column =
      (tables.repositoryRow repositoryId).map column := by
  have columns := congrArg (Option.map column) (same.repositoryRow repositoryId)
  rw [Option.map_map, Option.map_map] at columns
  have through : column ∘ RepositoryRecord.identity = column := funext listed.identity
  rwa [through] at columns

theorem ListedColumn.store (listed : ListedColumn column ofInput supplied fallback)
    {input : RepositoryInput} {before : Option RepositoryRecord}
    (mine : ∀ repository, before = some repository → repository.id = input.id) :
    column (input.store before) = ofInput input := by
  cases before with
  | none => exact listed.row input
  | some repository => exact listed.update input repository (mine repository rfl)

/-- A processed delivery writes the column as its entries list it. -/
theorem ListedColumn.processed (listed : ListedColumn column ofInput supplied fallback)
    (applied : applyDelivery packages none now tables delivery = .ok next) :
    (next.repositoryRow repositoryId).map column =
      (entryListing supplied repositoryId delivery).write fallback
        ((tables.repositoryRow repositoryId).map column) := by
  cases named : delivery.installationId with
  | none =>
      obtain ⟨installations, repositories, _⟩ := applyDelivery_unnamed named applied
      rw [listed.same (same_identities installations repositories)]
      simp [Listing.write, entryListing, named]
  | some installationId =>
      obtain ⟨listing, settled, ran, settling, storing⟩ := applyDelivery_phases named applied
      obtain ⟨installations, repositories, _⟩ := payloadSteps_frame storing
      rw [listed.same ((lifecycleSteps_identities settling).trans
        (same_identities installations repositories)),
        inputSteps_row (inputs_uniform delivery installationId) ran, Registry.repositoryRow,
        upsertInstallation_repositories, ← Registry.repositoryRow]
      have values := inputs_column repositoryId ofInput supplied fallback
        (listed.input delivery installationId)
      simp only [Listing.write, entryListing, named, Option.isSome_some, if_true, ← values]
      cases last : lastInput (delivery.inputs installationId) repositoryId with
      | none => rfl
      | some input =>
          have mine : ∀ repository, tables.repositoryRow repositoryId = some repository →
              repository.id = input.id := fun _ found =>
            (rowAt_key found).trans (lastInput_mem last).2.symm
          simp only [Option.elim_some, Option.map_some, Option.some_or, listed.store mine]

theorem same_login (same : tables.SameIdentities next.toRegistry) :
    (next.installationRow installationId).map InstallationRecord.accountLogin =
      (tables.installationRow installationId).map InstallationRecord.accountLogin := by
  have logins := congrArg (Option.map InstallationRecord.accountLogin)
    (same.installationRow installationId)
  rwa [Option.map_map, Option.map_map] at logins

/-- A processed delivery writes the login of its installation. -/
theorem processed_login (applied : applyDelivery packages none now tables delivery = .ok next) :
    (next.installationRow installationId).map InstallationRecord.accountLogin =
      (loginListing installationId delivery).write "unknown"
        ((tables.installationRow installationId).map InstallationRecord.accountLogin) := by
  cases named : delivery.installationId with
  | none =>
      obtain ⟨installations, repositories, _⟩ := applyDelivery_unnamed named applied
      rw [same_login (same_identities installations repositories)]
      simp [Listing.write, loginListing, named]
  | some mine =>
      obtain ⟨listing, settled, ran, settling, storing⟩ := applyDelivery_phases named applied
      obtain ⟨installations, repositories, _⟩ := payloadSteps_frame storing
      have listed : listing.installations = (upsertInstallation mine
          (delivery.suppliedLogin.getD "unknown") delivery.accountType tables).installations := by
        obtain ⟨_, rfl⟩ := inputSteps_frame ran
        rfl
      rw [same_login ((lifecycleSteps_identities settling).trans
        (same_identities installations repositories)), Registry.installationRow, listed,
        ← Registry.installationRow, upsertInstallation_row]
      by_cases same : installationId = mine
      · simp [Listing.write, loginListing, named, same, describeInstallation]
      · simp [Listing.write, loginListing, named, same, Ne.symm same]

end Columns

/-! ### Histories -/

section Histories

variable {packages : Packages} {start tables next finish : Tables} {action : RegistryAction}
  {history : List RegistryAction}

theorem processedDeliveries_snoc (history : List RegistryAction) (action : RegistryAction) :
    processedDeliveries (history ++ [action]) =
      processedDeliveries history ++ action.processed.toList := by
  rw [processedDeliveries, List.filterMap_append]
  cases named : action.processed <;> simp [processedDeliveries, named]

/-- A column that every processed delivery writes holds what its listings store. -/
theorem history_stored {column : Tables → Option String} {listing : WebhookEnvelope → Listing String}
    {fallback : String} (initially : column start = none)
    (written : ∀ tables now delivery next, applyDelivery packages none now tables delivery = .ok next →
      column next = (listing delivery).write fallback (column tables))
    (kept : ∀ (tables next : Tables), tables.SameIdentities next.toRegistry →
      column next = column tables)
    (run : Run (RegistryStep packages) start history tables) :
    column tables = stored fallback ((processedDeliveries history).map listing) := by
  refine run.history (fun past tables =>
    column tables = stored fallback ((processedDeliveries past).map listing)) initially ?_
  intro past tables action next _ held step
  have quiet (silent : action.processed = none) (same : column next = column tables) :
      column next = stored fallback ((processedDeliveries (past ++ [action])).map listing) := by
    rw [processedDeliveries_snoc, silent, same, held]
    simp
  cases step with
  | processed applied =>
      rw [processedDeliveries_snoc, List.map_append, written _ _ _ _ applied, held]
      exact stored_snoc.symm
  | failed => exact quiet rfl rfl
  | savedPolicy repositoryId policyYaml =>
      exact quiet rfl (kept _ _ (savePolicy_identities repositoryId policyYaml tables))
  | elsewhere installations repositories =>
      exact quiet rfl (kept _ _ (same_identities installations repositories))

theorem history_column {column : RepositoryRecord → String}
    {ofInput : RepositoryInput → String} {supplied : Json → Option String} {fallback : String}
    (listed : ListedColumn column ofInput supplied fallback)
    (empty : start.toRegistry = ⟨[], [], []⟩)
    (run : Run (RegistryStep packages) start history tables) (repositoryId : Int) :
    (tables.repositoryRow repositoryId).map column = stored fallback
      ((processedDeliveries history).map (entryListing supplied repositoryId)) :=
  have initially : (start.repositoryRow repositoryId).map column = none := by
    rw [empty]
    rfl
  history_stored initially (fun _ _ _ _ applied => listed.processed applied)
    (fun _ _ same => listed.same same) run

theorem history_login (empty : start.toRegistry = ⟨[], [], []⟩)
    (run : Run (RegistryStep packages) start history tables) (installationId : Int) :
    (tables.installationRow installationId).map InstallationRecord.accountLogin =
      stored "unknown" ((processedDeliveries history).map (loginListing installationId)) :=
  have initially : (start.installationRow installationId).map InstallationRecord.accountLogin =
      none := by
    rw [empty]
    rfl
  history_stored initially (fun _ _ _ _ applied => processed_login applied)
    (fun _ _ same => same_login same) run

/-- The three columns are faithful to what the deliveries supplied. -/
structure FaithfulIdentity (deliveries : List WebhookEnvelope) : Prop where
  owners : ∀ repositoryId, Faithful "unknown" (deliveries.map (ownerListing repositoryId))
  defaultBranches : ∀ repositoryId, Faithful "main" (deliveries.map (branchListing repositoryId))
  accountLogins : ∀ installationId, Faithful "unknown" (deliveries.map (loginListing installationId))

/-- A column of the rows is faithful if each row holds its last supplied value. -/
theorem rows_faithful {Row : Type} {key : Row → Int} {rows : List Row} {column : Row → String}
    {listing : Int → WebhookEnvelope → Listing String} {fallback : String}
    {deliveries : List WebhookEnvelope} (distinct : (rows.map key).Nodup)
    (holds : ∀ id, (rowAt key rows id).map column = stored fallback (deliveries.map (listing id))) :
    (∀ row ∈ rows, column row =
        (lastSupplied (deliveries.map (listing (key row)))).getD fallback) ↔
      ∀ id, Faithful fallback (deliveries.map (listing id)) := by
  constructor
  · intro same id value found
    rw [← holds id] at found
    obtain ⟨row, present, rfl⟩ := Option.map_eq_some_iff.mp found
    rw [same row (rowAt_mem present), rowAt_key present]
  · intro faithful row member
    refine faithful (key row) (column row) ?_
    rw [← holds (key row), (rowAt_eq_some distinct).mpr ⟨member, rfl⟩]
    rfl

theorem identityKept_iff (empty : start.toRegistry = ⟨[], [], []⟩)
    (run : Run (RegistryStep packages) start history tables) :
    IdentityKept (processedDeliveries history) tables ↔
      FaithfulIdentity (processedDeliveries history) := by
  have keyed : tables.Keyed := history_keyed (by rw [empty]; exact ⟨.nil, .nil⟩) run
  have owners := rows_faithful keyed.repositories (history_column ownerColumn empty run)
  have branches := rows_faithful keyed.repositories (history_column branchColumn empty run)
  have logins := rows_faithful keyed.installations (history_login empty run)
  constructor
  · intro kept
    exact ⟨owners.mp kept.owners, branches.mp kept.defaultBranches, logins.mp kept.accountLogins⟩
  · intro faithful
    exact ⟨owners.mpr faithful.owners, branches.mpr faithful.defaultBranches,
      logins.mpr faithful.accountLogins⟩

/-- A delivery keeps the identities faithful exactly if it supplies them. -/
theorem faithfulIdentity_snoc {deliveries : List WebhookEnvelope} {delivery : WebhookEnvelope}
    (faithful : FaithfulIdentity deliveries) :
    FaithfulIdentity (deliveries ++ [delivery]) ↔ SuppliesIdentity deliveries delivery := by
  have column {fallback : String} {listing : Int → WebhookEnvelope → Listing String}
      (held : ∀ id, Faithful fallback (deliveries.map (listing id))) (id : Int) :
      Faithful fallback ((deliveries ++ [delivery]).map (listing id)) ↔
        Supplies fallback (deliveries.map (listing id)) (listing id delivery) := by
    rw [List.map_append]
    exact faithful_snoc (held id)
  constructor
  · intro later
    exact ⟨fun id => (column faithful.owners id).mp (later.owners id),
      fun id => (column faithful.defaultBranches id).mp (later.defaultBranches id),
      fun id => (column faithful.accountLogins id).mp (later.accountLogins id)⟩
  · intro supplies
    exact ⟨fun id => (column faithful.owners id).mpr (supplies.owners id),
      fun id => (column faithful.defaultBranches id).mpr (supplies.defaultBranches id),
      fun id => (column faithful.accountLogins id).mpr (supplies.accountLogins id)⟩

/-- Identities are kept throughout exactly if every processed delivery supplies what it writes. -/
theorem identity_kept_iff (empty : start.toRegistry = ⟨[], [], []⟩)
    (run : Run (RegistryStep packages) start history finish) :
    (∀ past future tables, history = past ++ future →
        Run (RegistryStep packages) start past tables →
          IdentityKept (processedDeliveries past) tables) ↔
      ∀ past now delivery future, history = past ++ .process now delivery :: future →
        SuppliesIdentity (processedDeliveries past) delivery := by
  constructor
  · intro kept past now delivery future same
    have faithful (past future : List RegistryAction) (same : history = past ++ future) :
        FaithfulIdentity (processedDeliveries past) := by
      rw [same] at run
      obtain ⟨tables, earlier, _⟩ := run.split
      exact (identityKept_iff empty earlier).mp (kept past future tables same earlier)
    have before := faithful past _ same
    have after := faithful (past ++ [.process now delivery]) future (by rw [same, List.append_assoc,
      List.singleton_append])
    rw [processedDeliveries_snoc] at after
    exact (faithfulIdentity_snoc before).mp after
  · intro supplies past future tables same earlier
    refine (identityKept_iff empty earlier).mpr ?_
    clear earlier
    induction past using List.reverseRecOn generalizing future with
    | nil => constructor <;> simp [Faithful, stored, processedDeliveries]
    | append_singleton past action ih =>
        rw [List.append_assoc, List.singleton_append] at same
        have before := ih (action :: future) same
        rw [processedDeliveries_snoc]
        cases action with
        | process now delivery =>
            exact (faithfulIdentity_snoc before).mpr (supplies past now delivery future same)
        | fail | savePolicy | elsewhere => simpa [RegistryAction.processed] using before

end Histories

/-! ### A list without owners -/

/-- A status event describes its repository in full. -/
def statusDelivery : WebhookEnvelope :=
  .fromPayload "status" "status" (.object [
    ("installation", .object [("id", .ofInt 1)]),
    ("organization", .object [("login", .string "acme")]),
    ("repository", .object [("default_branch", .string "trunk"), ("id", .ofInt 7),
      ("name", .string "web"), ("owner", .object [("login", .string "acme")])])]) []

/-- The list of added repositories carries neither owners nor default branches. -/
def addedDelivery : WebhookEnvelope :=
  .fromPayload "added" "installation_repositories" (.object [
    ("action", .string "added"),
    ("installation", .object [
      ("account", .object [("login", .string "acme"), ("type", .string "Organization")]),
      ("id", .ofInt 1)]),
    ("repositories_added", .array [.object [("full_name", .string "acme/web"), ("id", .ofInt 7),
      ("name", .string "web")]])]) []

def describedTables : Tables :=
  ⟨⟨[⟨1, "acme", "Unknown", false⟩], [⟨7, 1, "acme", "web", "trunk", true, ""⟩], []⟩, [], [], []⟩

theorem described_run : Run (RegistryStep plainPackages) noTables [.process 0 statusDelivery]
    describedTables :=
  .single (.processed (show applyDelivery plainPackages none 0 noTables statusDelivery =
    .ok describedTables by decide))

theorem identity_kept_described :
    (∀ past future tables, [.process 0 statusDelivery] = past ++ future →
        Run (RegistryStep plainPackages) noTables past tables →
          IdentityKept (processedDeliveries past) tables) ↔
      ∀ past now delivery future,
        [.process 0 statusDelivery] = past ++ .process now delivery :: future →
          SuppliesIdentity (processedDeliveries past) delivery :=
  identity_kept_iff rfl described_run

/-- Adding a known repository again replaces its owner and its default branch. -/
theorem owner_forgotten :
    ¬ ∀ (packages : Packages) (start tables : Tables) (history : List RegistryAction),
      start.toRegistry = ⟨[], [], []⟩ → Run (RegistryStep packages) start history tables →
        IdentityKept (processedDeliveries history) tables := by
  intro claimed
  have added : applyDelivery plainPackages none 1 describedTables addedDelivery =
      .ok installedTables := by decide
  have kept := claimed plainPackages noTables installedTables
    [.process 0 statusDelivery, .process 1 addedDelivery] rfl (described_run.snoc (.processed added))
  have owner := kept.owners ⟨7, 1, "unknown", "web", "main", true, ""⟩ (by decide)
  revert owner
  decide

end PiTools
