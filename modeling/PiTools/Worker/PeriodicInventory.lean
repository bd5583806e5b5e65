import PiTools.Delivery.Convergence
import PiTools.Library.Traces
import PiTools.Worker.ReconcileRequests

/-
This file follows the loop that lists the pull requests of every repository from
time to time, whatever fails, and the requests that it makes.
-/

namespace PiTools

open Library

namespace Inventory

/-! ### The loop -/

/-- A row of `active_repository_contexts`. -/
structure RepositoryContext where
  id : Int
  installationId : Int
  owner : String
  name : String
  defaultBranch : String
  policyYaml : String
  deriving DecidableEq, Repr

structure InstallationTokenScope where
  permissions : List (String × String)
  repositories : List String
  deriving DecidableEq, Repr

/-- A row of `open_pull_requests`. -/
structure PullRequestRow where
  repositoryId : Int
  number : Int
  title : String
  url : String
  state : String
  updatedAt : Timestamp
  deriving DecidableEq, Repr

/-- The calls and the warnings of the loop. -/
inductive Entry
  | contexts (answer : Except String (List RepositoryContext))
  | token (installationId : Int) (scope : InstallationTokenScope) (answer : Except String String)
  | client (token : String) (answer : Except String Unit)
  | listed (token owner name : String) (answer : Except String (List Snapshots.GitHubOpenPullRequest))
  | skipped (repositoryId number : Int)
  | upserted (snapshot : PullRequestSnapshot) (answer : Except String Unit)
  | enqueued (spec : JobSpec) (answer : Except String Uuid)
  | watchlist (answer : Except String (List PullRequestRow))
  | failed (repositoryId : Int) (reason : String)
  | unlisted (reason : String)
  | slept

/-- Every answer may depend on all calls before it, and on what others do in between. -/
structure World where
  contexts : List Entry → Except String (List RepositoryContext)
  token : Int → InstallationTokenScope → List Entry → Except String String
  client : String → List Entry → Except String Unit
  listed : String → String → String → List Entry → Except String (List Snapshots.GitHubOpenPullRequest)
  upserted : PullRequestSnapshot → List Entry → Except String Unit
  enqueued : JobSpec → List Entry → Except String Uuid
  watchlist : List Entry → Except String (List PullRequestRow)
  now : List Entry → Timestamp

abbrev Program (Failure : Type) : Type → Type := Logged Entry Failure

def reconcileSpec (source : String) (repositoryId number : Int) : JobSpec where
  repositoryId
  pullRequestNumber := number
  kind := .reconcile
  plan := .object [("source", .string source)]

def inventoryScope (repository : RepositoryContext) : InstallationTokenScope where
  permissions := [("contents", "read"), ("metadata", "read"), ("pull_requests", "read")]
  repositories := [repository.name]

variable (world : World)

def clock : Program String Timestamp := fun log => (.ok (world.now log), log)

def enqueue (spec : JobSpec) : Program String Uuid := Logged.call (.enqueued spec) (world.enqueued spec)

/-- One pull request of the inventory. -/
def recordPullRequest (repository : RepositoryContext) (pullRequest : Snapshots.GitHubOpenPullRequest) :
    Program String Unit := do
  let now ← clock world
  match Snapshots.inventorySnapshot repository.id pullRequest now with
  | none => Logged.note (.skipped repository.id pullRequest.number)
  | some snapshot =>
      Logged.call (.upserted snapshot) (world.upserted snapshot)
      let _ ← enqueue world (reconcileSpec "periodic-inventory" repository.id snapshot.number)

def requestWatched (row : PullRequestRow) : Program String Unit := do
  let _ ← enqueue world (reconcileSpec "periodic-watchlist" row.repositoryId row.number)

def reconcileRepositoryInventory (repository : RepositoryContext) : Program String Unit := do
  let token ← Logged.call (.token repository.installationId (inventoryScope repository))
    (world.token repository.installationId (inventoryScope repository))
  Logged.call (.client token) (world.client token)
  let pullRequests ← Logged.call (.listed token repository.owner repository.name)
    (world.listed token repository.owner repository.name)
  Logged.forEach (recordPullRequest world repository) pullRequests
  let watched ← Logged.call .watchlist world.watchlist
  Logged.forEach (requestWatched world) watched

/-- One pass of `periodic_reconcile_loop`. -/
def periodicReconcile : Program Empty Unit := do
  match ← Logged.attempt (Logged.call .contexts world.contexts) with
  | .ok repositories =>
      Logged.sweep (fun repository reason => .failed repository.id reason) (reconcileRepositoryInventory world)
        repositories
  | .error reason => Logged.note (.unlisted reason)
  Logged.note .slept

def periodicReconcileLoop (passes : Nat) : Program Empty Unit :=
  Logged.forEach (fun _ => periodicReconcile world) (List.range passes)

/-! ### Traces -/

/-- The calls that an inventory of the repository may make. -/
def Entry.Within (repository : RepositoryContext) : Entry → Prop
  | .token installationId scope _ =>
      installationId = repository.installationId ∧ scope = inventoryScope repository
  | .client .. | .watchlist _ => True
  | .listed _ owner name _ => owner = repository.owner ∧ name = repository.name
  | .skipped repositoryId _ => repositoryId = repository.id
  | .upserted snapshot _ => snapshot.repositoryId = repository.id
  | .enqueued spec _ => spec.kind = .reconcile
  | .contexts _ | .failed .. | .unlisted _ | .slept => False

/-- What the inventory leaves for a listed pull request. -/
inductive Recorded (followed : JobSpec → Uuid → Prop) (repository : RepositoryContext)
    (pullRequest : Snapshots.GitHubOpenPullRequest) : List Entry → Prop
  | skipped (missing : pullRequest.head.reference = none ∨ pullRequest.base.reference = none) :
      Recorded followed repository pullRequest [.skipped repository.id pullRequest.number]
  | stored {now : Timestamp} {snapshot : PullRequestSnapshot} {jobId : Uuid}
      (complete : Snapshots.inventorySnapshot repository.id pullRequest now = some snapshot)
      (request : followed (reconcileSpec "periodic-inventory" repository.id pullRequest.number) jobId) :
      Recorded followed repository pullRequest
        [.upserted snapshot (.ok ()),
          .enqueued (reconcileSpec "periodic-inventory" repository.id pullRequest.number) (.ok jobId)]

/-- What the inventory leaves for a row of the watchlist. -/
inductive Requested (followed : JobSpec → Uuid → Prop) (row : PullRequestRow) : List Entry → Prop
  | intro {jobId : Uuid} (request : followed (reconcileSpec "periodic-watchlist" row.repositoryId row.number) jobId) :
      Requested followed row [.enqueued (reconcileSpec "periodic-watchlist" row.repositoryId row.number) (.ok jobId)]

/-- An inventory that succeeds has recorded what GitHub lists for the repository and has then
requested what is watched in any repository. -/
inductive Inventoried (followed : JobSpec → Uuid → Prop) (repository : RepositoryContext) : List Entry → Prop
  | intro {token : String} {pullRequests : List Snapshots.GitHubOpenPullRequest} {rows : List PullRequestRow}
      {records requests : List (List Entry)}
      (recorded : List.Forall₂ (Recorded followed repository) pullRequests records)
      (requested : List.Forall₂ (Requested followed) rows requests) :
      Inventoried followed repository
        ([.token repository.installationId (inventoryScope repository) (.ok token), .client token (.ok ()),
          .listed token repository.owner repository.name (.ok pullRequests)] ++ records.flatten ++
            .watchlist (.ok rows) :: requests.flatten)

/-- An inventory that fails has asked for its token and made only calls of its own. -/
structure Interrupted (repository : RepositoryContext) (made : List Entry) : Prop where
  asked : ∃ answer rest, made = .token repository.installationId (inventoryScope repository) answer :: rest
  within : ∀ entry ∈ made, entry.Within repository

def InventoryTrace (followed : JobSpec → Uuid → Prop) (repository : RepositoryContext) :
    Except String Unit → List Entry → Prop
  | .ok () => Inventoried followed repository
  | .error _ => Interrupted repository

/-- What a pass leaves: each active repository has its turn, whatever fails in the turns of the others. -/
inductive PassTrace (followed : JobSpec → Uuid → Prop) : List Entry → Prop
  | unlisted (reason : String) : PassTrace followed [.contexts (.error reason), .unlisted reason, .slept]
  | swept {repositories : List RepositoryContext} {turns : List (List Entry)}
      (covered : List.Forall₂ (SweepTurn (InventoryTrace followed) fun repository reason =>
        .failed repository.id reason) repositories turns) :
      PassTrace followed (.contexts (.ok repositories) :: turns.flatten ++ [.slept])

section Traces

variable {world} {followed wider : JobSpec → Uuid → Prop} {repository : RepositoryContext}

/-- The calls for an item stay within the repository, and a success is as the relation says. -/
def ItemTrace (repository : RepositoryContext) (done : List Entry → Prop) (outcome : Except String Unit)
    (made : List Entry) : Prop :=
  (∀ entry ∈ made, entry.Within repository) ∧ (outcome = .ok () → done made)

theorem clock_trace : Leaves (fun (outcome : Except String Timestamp) made =>
    (∃ now, outcome = .ok now) ∧ made = []) (clock world) :=
  fun log => ⟨[], (List.append_nil log).symm, ⟨_, rfl⟩, rfl⟩

theorem enqueue_trace {done : List Entry → Prop} (spec : JobSpec) (kind : spec.kind = .reconcile) {made : List Entry}
    (within : ∀ entry ∈ made, entry.Within repository) (request : ∀ jobId, done (made ++ [.enqueued spec (.ok jobId)])) :
    Leaves (fun outcome more => ItemTrace repository done outcome (made ++ more))
      (do let _ ← enqueue world spec) := by
  have last (answer : Except String Uuid) : ∀ entry ∈ made ++ [Entry.enqueued spec answer], entry.Within repository := by
    intro entry member
    rcases List.mem_append.mp member with earlier | new
    · exact within entry earlier
    · rw [List.mem_singleton.mp new]
      exact kind
  have called : Leaves (fun answer more => more = [Entry.enqueued spec answer]) (enqueue world spec) :=
    Leaves.call fun _ => rfl
  apply Leaves.bind called
  · rintro failure _ rfl
    exact ⟨last _, fun same => by cases same⟩
  · rintro jobId _ rfl
    refine Leaves.pure ⟨?_, fun _ => ?_⟩
    · rw [List.append_nil]
      exact last _
    · rw [List.append_nil]
      exact request jobId

theorem inventorySnapshot_some {pullRequest : Snapshots.GitHubOpenPullRequest} {now : Timestamp}
    {snapshot : PullRequestSnapshot}
    (complete : Snapshots.inventorySnapshot repository.id pullRequest now = some snapshot) :
    snapshot.repositoryId = repository.id ∧ snapshot.number = pullRequest.number := by
  simp only [Snapshots.inventorySnapshot, Option.bind_eq_bind, Option.bind_eq_some_iff] at complete
  obtain ⟨_, _, _, _, same⟩ := complete
  cases same
  exact ⟨rfl, rfl⟩

theorem recordPullRequest_trace (pullRequest : Snapshots.GitHubOpenPullRequest) :
    Leaves (ItemTrace repository (Recorded (fun _ _ => True) repository pullRequest))
      (recordPullRequest world repository pullRequest) := by
  apply Leaves.bind clock_trace
  · rintro _ _ ⟨⟨_, same⟩, _⟩
    cases same
  · rintro now _ ⟨_, rfl⟩
    simp only [List.nil_append]
    split
    · rename_i missing
      refine Leaves.note ⟨?_, fun _ => .skipped ?_⟩
      · intro entry member
        rw [List.mem_singleton.mp member]
        rfl
      · cases head : pullRequest.head.reference with
        | none => exact .inl rfl
        | some reference =>
            cases base : pullRequest.base.reference with
            | none => exact .inr rfl
            | some target => simp [Snapshots.inventorySnapshot, head, base] at missing
    · rename_i snapshot complete
      obtain ⟨own, number⟩ := inventorySnapshot_some complete
      have within (answer : Except String Unit) :
          ∀ entry ∈ [Entry.upserted snapshot answer], entry.Within repository := by
        intro entry member
        rw [List.mem_singleton.mp member]
        exact own
      have stored : Leaves (fun answer more => more = [Entry.upserted snapshot answer])
          (Logged.call (.upserted snapshot) (world.upserted snapshot)) := Leaves.call fun _ => rfl
      apply Leaves.bind stored
      · rintro failure _ rfl
        exact ⟨within _, fun same => by cases same⟩
      · rintro _ _ rfl
        refine enqueue_trace _ rfl (within _) fun jobId => ?_
        rw [number]
        exact .stored complete trivial

theorem requestWatched_trace (repository : RepositoryContext) (row : PullRequestRow) :
    Leaves (ItemTrace repository (Requested (fun _ _ => True) row)) (requestWatched world row) := by
  have nothing : ∀ entry ∈ ([] : List Entry), entry.Within repository := fun _ member => absurd member List.not_mem_nil
  exact enqueue_trace _ rfl nothing fun _ => .intro trivial

theorem Interrupted.append {made more : List Entry} (interrupted : Interrupted repository made)
    (within : ∀ entry ∈ more, entry.Within repository) : Interrupted repository (made ++ more) := by
  obtain ⟨⟨answer, rest, rfl⟩, earlier⟩ := interrupted
  exact ⟨⟨answer, rest ++ more, rfl⟩, fun entry member =>
    (List.mem_append.mp member).elim (earlier entry) (within entry)⟩

theorem Interrupted.concat {made : List Entry} (interrupted : Interrupted repository made) {entry : Entry}
    (within : entry.Within repository) : Interrupted repository (made ++ [entry]) :=
  interrupted.append fun _ member => List.mem_singleton.mp member ▸ within

/-- A call of the inventory ends it or goes on with its answer. -/
theorem call_trace {Answer : Type} {entry : Except String Answer → Entry} {answer : List Entry → Except String Answer}
    {rest : Answer → Program String Unit} {made : List Entry} (interrupted : Interrupted repository made)
    (within : ∀ outcome, (entry outcome).Within repository)
    (later : ∀ value, Interrupted repository (made ++ [entry (.ok value)]) → Leaves (fun outcome more =>
      InventoryTrace (fun _ _ => True) repository outcome (made ++ [entry (.ok value)] ++ more)) (rest value)) :
    Leaves (fun outcome more => InventoryTrace (fun _ _ => True) repository outcome (made ++ more))
      (Logged.call entry answer >>= rest) := by
  have called : Leaves (fun outcome more => more = [entry outcome]) (Logged.call entry answer) :=
    Leaves.call fun _ => rfl
  apply Leaves.bind called
  · rintro failure _ rfl
    exact interrupted.concat (within _)
  · rintro value _ rfl
    simp only [← List.append_assoc]
    exact later value (interrupted.concat (within _))

theorem inventory_trace (repository : RepositoryContext) :
    Leaves (InventoryTrace (fun _ _ => True) repository) (reconcileRepositoryInventory world repository) := by
  have asked : Leaves (fun outcome more => more = [Entry.token repository.installationId (inventoryScope repository) outcome])
      (Logged.call (.token repository.installationId (inventoryScope repository))
        (world.token repository.installationId (inventoryScope repository))) := Leaves.call fun _ => rfl
  have first (answer : Except String String) : Interrupted repository
      [.token repository.installationId (inventoryScope repository) answer] := by
    refine ⟨⟨answer, [], rfl⟩, fun entry member => ?_⟩
    rw [List.mem_singleton.mp member]
    exact ⟨rfl, rfl⟩
  apply Leaves.bind asked
  · rintro failure _ rfl
    exact first _
  rintro token _ rfl
  refine call_trace (first _) (fun _ => trivial) fun _ connected => ?_
  refine call_trace connected (fun _ => ⟨rfl, rfl⟩) fun pullRequests listed => ?_
  apply Leaves.bind (Leaves.forEach recordPullRequest_trace pullRequests)
  · exact fun _ made trace => listed.append (trace.forall fun _ _ _ _ item => item.1)
  intro _ made trace
  have within : ∀ entry ∈ made, entry.Within repository := trace.forall fun _ _ _ _ item => item.1
  obtain ⟨records, rfl, recorded⟩ := trace.parts
  simp only [← List.append_assoc]
  refine call_trace (listed.append within) (fun _ => trivial) fun rows watched => ?_
  refine (Leaves.forEach (requestWatched_trace repository) rows).mono fun outcome more trace => ?_
  cases outcome with
  | error failure => exact watched.append (trace.forall fun _ _ _ _ item => item.1)
  | ok =>
      obtain ⟨requests, rfl, requested⟩ := trace.parts
      have whole := @Inventoried.intro (fun _ _ => True) repository token pullRequests rows records requests
        (recorded.imp fun _ _ item => item.2 rfl) (requested.imp fun _ _ item => item.2 rfl)
      simpa [InventoryTrace] using whole

theorem periodicReconcile_trace :
    Leaves (fun outcome made => outcome = .ok () ∧ PassTrace (fun _ _ => True) made) (periodicReconcile world) := by
  have asked : Leaves (fun outcome more => more = [Entry.contexts outcome])
      (Logged.call .contexts world.contexts) := Leaves.call fun _ => rfl
  apply Leaves.bind asked.attempt
  · rintro failure
    cases failure
  · rintro outcome _ ⟨_, same, rfl⟩
    cases same
    cases outcome with
    | error reason =>
        have noted : Leaves (fun (_ : Except Empty Unit) more => more = [Entry.unlisted reason])
            (Logged.note (.unlisted reason)) := Leaves.note rfl
        apply Leaves.bind noted
        · rintro failure
          cases failure
        · rintro _ _ rfl
          exact Leaves.note ⟨rfl, .unlisted reason⟩
    | ok repositories =>
        apply Leaves.bind (Leaves.sweep inventory_trace repositories)
        · rintro failure
          cases failure
        · rintro _ _ ⟨_, turns, rfl, covered⟩
          exact Leaves.note ⟨rfl, .swept covered⟩

theorem periodicReconcileLoop_trace (passes : Nat) :
    ∃ made : List (List Entry), made.length = passes ∧ (periodicReconcileLoop world passes []).2 = made.flatten ∧
      ∀ pass ∈ made, PassTrace (fun _ _ => True) pass := by
  obtain ⟨made, same, trace⟩ := Leaves.forEach (fun _ => @periodicReconcile_trace world) (List.range passes) []
  rw [trace.unfailing fun _ failure => failure.elim] at trace
  obtain ⟨parts, rfl, covered⟩ := trace.parts
  refine ⟨parts, ?_, same, fun pass member => ?_⟩
  · rw [← covered.length_eq, List.length_range]
  · obtain ⟨_, _, trace⟩ := turn_of_mem covered member
    exact trace.2

/-! ### Followed requests -/

/-- Every acknowledged request among the calls is followed. -/
def AllFollowed (followed : JobSpec → Uuid → Prop) (made : List Entry) : Prop :=
  ∀ spec jobId, spec.kind = .reconcile → .enqueued spec (.ok jobId) ∈ made → followed spec jobId

theorem AllFollowed.of_subset {made more : List Entry} (all : AllFollowed followed more) (inside : made ⊆ more) :
    AllFollowed followed made := fun spec jobId kind member => all spec jobId kind (inside member)

theorem Recorded.strengthen {pullRequest : Snapshots.GitHubOpenPullRequest} {made : List Entry}
    (recorded : Recorded followed repository pullRequest made) (all : AllFollowed wider made) :
    Recorded wider repository pullRequest made := by
  cases recorded with
  | skipped missing => exact .skipped missing
  | stored complete request => exact .stored complete (all _ _ rfl (by simp))

theorem Requested.strengthen {row : PullRequestRow} {made : List Entry} (requested : Requested followed row made)
    (all : AllFollowed wider made) : Requested wider row made := by
  cases requested with
  | intro request => exact .intro (all _ _ rfl List.mem_cons_self)

theorem Inventoried.strengthen {made : List Entry} (inventoried : Inventoried followed repository made)
    (all : AllFollowed wider made) : Inventoried wider repository made := by
  cases inventoried with
  | @intro _ _ _ records requests recorded requested =>
      refine .intro ?_ ?_
      · refine turns_imp recorded fun _ part inside item => item.strengthen (all.of_subset fun entry member => ?_)
        exact List.mem_append_left _ (List.mem_append_right _ (inside member))
      · refine turns_imp requested fun _ part inside item => item.strengthen (all.of_subset fun entry member => ?_)
        exact List.mem_append_right _ (List.mem_cons_of_mem _ (inside member))

theorem PassTrace.strengthen {made : List Entry} (pass : PassTrace followed made) (all : AllFollowed wider made) :
    PassTrace wider made := by
  cases pass with
  | unlisted reason => exact .unlisted reason
  | swept covered =>
      refine .swept (turns_imp covered fun repository part inside turn => ?_)
      have own : AllFollowed wider part := all.of_subset fun entry member =>
        List.mem_append_left _ (List.mem_cons_of_mem _ (inside member))
      cases turn with
      | succeeded done => exact .succeeded (Inventoried.strengthen done own)
      | failed stops => exact .failed stops

end Traces

end Inventory

/-! ### The workers -/

section Workers

variable {sha256Hex : List Char → String} {fromValue : Json → Option PiJobResult}
  {start system after finish : WorkerSystem} {past future actions : List Action}

/-- The queue has taken the request, and its job waits or runs, or GitHub was read for it, or it was
dropped or absorbed. -/
def Followed (sha256Hex : List Char → String) (fromValue : Json → Option PiJobResult) (start finish : WorkerSystem)
    (actions : List Action) (spec : JobSpec) (jobId : Uuid) : Prop :=
  ∃ past proposedId future system, actions = past ++ .call (.enqueue spec proposedId, .job jobId) :: future ∧
    Run (WorkerSystem.Step sha256Hex fromValue) start past system ∧
      (Pending finish spec jobId ∨ ReadAfter future (spec.repositoryId, spec.pullRequestNumber) ∨
        Dropped finish jobId ∨ Absorbed past system future jobId)

/-- A request for a reconciliation in a run. -/
theorem request_followed (initial : start.Initial) (run : Run (WorkerSystem.Step sha256Hex fromValue) start actions finish)
    (fresh : (actions.filterMap Action.event |>.filterMap Event.grantedToken).Nodup) {spec : JobSpec}
    (kind : spec.kind = .reconcile) {proposedId jobId : Uuid}
    (called : .call (.enqueue spec proposedId, .job jobId) ∈ actions) :
    Followed sha256Hex fromValue start finish actions spec jobId := by
  obtain ⟨past, future, system, after, rfl, before, request, later⟩ := run.step_of_mem called
  refine ⟨past, proposedId, future, system, rfl, before, ?_⟩
  have first := before.snoc request
  have kept : Pending finish spec jobId ∨
      ReadAfter (.call (.enqueue spec proposedId, .job jobId) :: future) (spec.repositoryId, spec.pullRequestNumber) ∨
      Dropped finish jobId ∨
      Absorbed past system (.call (.enqueue spec proposedId, .job jobId) :: future) jobId := by
    refine later.history (fun made state =>
      ((past ++ .call (.enqueue spec proposedId, .job jobId) :: made).filterMap
        Action.event |>.filterMap Event.grantedToken).Nodup →
      Pending state spec jobId ∨
        ReadAfter (.call (.enqueue spec proposedId, .job jobId) :: made) (spec.repositoryId, spec.pullRequestNumber) ∨
        Dropped state jobId ∨ Absorbed past system (.call (.enqueue spec proposedId, .job jobId) :: made) jobId)
      (fun _ => ?_) ?_ fresh
    · rcases request.event with ⟨silent, _⟩ | ⟨event, same, called⟩
      · cases silent
      · cases same
        obtain ⟨job, member, sameId, active, sameKey⟩ := enqueue_active kind called
        have reconciles : job.kind = .reconcile := by
          simp only [Job.deduplicationKey, JobSpec.deduplicationKey, JobDeduplicationKey.mk.injEq] at sameKey
          exact sameKey.2.2.trans kind
        have notWaiting := reconcile_not_waiting initial first job member reconciles
        refine .inl ⟨job, member, sameId, sameKey, ?_⟩
        cases state : job.state <;> simp [Job.active, JobState.active, state] at active notWaiting ⊢
    · intro made state action next earlier held step distinct
      have whole : Run (WorkerSystem.Step sha256Hex fromValue) system
          (.call (.enqueue spec proposedId, .job jobId) :: made) state := Run.cons request earlier
      have shorter : ((past ++ .call (.enqueue spec proposedId, .job jobId) :: made).filterMap
          Action.event |>.filterMap Event.grantedToken).Nodup := by
        refine distinct.sublist (List.Sublist.filterMap _ (List.Sublist.filterMap _ ?_))
        exact (List.Sublist.refl _).append ((List.sublist_append_left made [action]).cons_cons _)
      rcases held shorter with pending | read | dropped | absorbed
      · rcases request_step initial before whole shorter kind pending step with still | read | dropped | absorbed
        · exact .inl still
        · exact .inr (.inl (read.snoc action))
        · exact .inr (.inr (.inl dropped))
        · exact .inr (.inr (.inr absorbed))
      · exact .inr (.inl (read.snoc action))
      · exact .inr (.inr (.inl (dropped.step (run_constrained initial.jobs (run_events (before.append whole))) step)))
      · exact .inr (.inr (.inr (absorbed.snoc action)))
  simpa [ReadAfter, Absorbed, Action.event] using kept

/-- Whatever fails, every pass gives each active repository its turn. A turn that succeeds records
what GitHub lists and requests all that is watched, and the workers follow each request. -/
theorem inventory_followed (world : Inventory.World) (passes : Nat) (initial : start.Initial)
    (run : Run (WorkerSystem.Step sha256Hex fromValue) start actions finish)
    (fresh : (actions.filterMap Action.event |>.filterMap Event.grantedToken).Nodup)
    (acknowledged : ∀ spec jobId, .enqueued spec (.ok jobId) ∈ (Inventory.periodicReconcileLoop world passes []).2 →
      ∃ proposedId, .call (.enqueue spec proposedId, .job jobId) ∈ actions) :
    ∃ made : List (List Inventory.Entry), made.length = passes ∧
      (Inventory.periodicReconcileLoop world passes []).2 = made.flatten ∧
        ∀ pass ∈ made, Inventory.PassTrace (Followed sha256Hex fromValue start finish actions) pass := by
  obtain ⟨made, length, same, traces⟩ := Inventory.periodicReconcileLoop_trace passes
  refine ⟨made, length, same, fun pass member => (traces pass member).strengthen fun spec jobId kind request => ?_⟩
  obtain ⟨proposedId, called⟩ := acknowledged spec jobId (same ▸ List.mem_flatten_of_mem member request)
  exact request_followed initial run fresh kind called

end Workers

/-! ### One pass -/

def listedPullRequest : Snapshots.GitHubOpenPullRequest where
  id := 70
  number := 7
  title := "Title"
  htmlUrl := "url"
  state := "open"
  draft := false
  merged := false
  head := ⟨"head", some "feature"⟩
  base := ⟨"base", some "main"⟩
  userLogin := "author"
  updatedAt := none

/-- The request and the job number of an acknowledged enqueue. -/
def Inventory.Entry.acknowledged : Inventory.Entry → Option (JobSpec × Uuid)
  | .enqueued spec (.ok jobId) => some (spec, jobId)
  | _ => none

/-- The second repository has lost its installation. -/
def inventoryWorld : Inventory.World where
  contexts _ := .ok [⟨1, 1, "octo", "app", "main", ""⟩, ⟨2, 2, "octo", "gone", "main", ""⟩]
  token installationId _ _ := if installationId = 1 then .ok "token" else .error "GitHub returned HTTP 404"
  client _ _ := .ok ()
  listed _ _ _ _ := .ok [listedPullRequest]
  upserted _ _ := .ok ()
  enqueued _ _ := .ok 5
  watchlist _ := .ok [⟨1, 7, "Title", "url", "open", 0⟩]
  now _ := 0

def inventoryCalls : List Action :=
  [.call (.upsertRepository 1 1, .done),
    .call (.enqueue (Inventory.reconcileSpec "periodic-inventory" 1 7) 5, .job 5),
    .call (.enqueue (Inventory.reconcileSpec "periodic-watchlist" 1 7) 6, .job 5)]

def inventoryFinish : WorkerSystem :=
  { raceStart with
    db := (replay [.upsertRepository 1 1, .enqueue (Inventory.reconcileSpec "periodic-inventory" 1 7) 5]
      (.empty 0)).2 }

theorem inventoryCalls_run : Run (WorkerSystem.Step (fun _ => "") fun _ => none) raceStart inventoryCalls
    inventoryFinish := by
  refine Run.cons (.call _ rfl rfl) ?_
  refine Run.cons (.call _ rfl rfl) ?_
  refine Run.cons (.call _ rfl rfl) ?_
  exact .refl

theorem inventory_followed_once : ∃ made : List (List Inventory.Entry), made.length = 1 ∧
    (Inventory.periodicReconcileLoop inventoryWorld 1 []).2 = made.flatten ∧
      ∀ pass ∈ made, Inventory.PassTrace
        (Followed (fun _ => "") (fun _ => none) raceStart inventoryFinish inventoryCalls) pass := by
  have requests : (Inventory.periodicReconcileLoop inventoryWorld 1 []).2.filterMap Inventory.Entry.acknowledged =
      [(Inventory.reconcileSpec "periodic-inventory" 1 7, 5), (Inventory.reconcileSpec "periodic-watchlist" 1 7, 5)] := rfl
  refine inventory_followed inventoryWorld 1 ⟨rfl, rfl⟩ inventoryCalls_run (by decide) fun spec jobId request => ?_
  have known : (spec, jobId) ∈ (Inventory.periodicReconcileLoop inventoryWorld 1 []).2.filterMap
      Inventory.Entry.acknowledged :=
    List.mem_filterMap.mpr ⟨_, request, rfl⟩
  rw [requests] at known
  rcases List.mem_pair.mp known with same | same
  · cases same
    exact ⟨5, List.mem_cons_of_mem _ List.mem_cons_self⟩
  · cases same
    exact ⟨6, List.mem_cons_of_mem _ (List.mem_cons_of_mem _ List.mem_cons_self)⟩

end PiTools
