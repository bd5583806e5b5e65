import PiTools.Control.Redelivery

/-
This file shows for which pull requests the webhook requests a reconciliation.
-/

namespace PiTools

open Library

/-! ### The pull requests of an event -/

def pullRequestEvents : List String :=
  ["pull_request", "pull_request_review", "pull_request_review_comment"]

/-- The events that list pull requests in an object under their own name. -/
def checkEvents : List String := ["check_run", "check_suite", "workflow_run"]

def listedNumber (item : Json) : Option Int := (item.get "number").bind Json.asInt32

/-- The pull requests that the object of a check lists. -/
def listedPullRequests (payload : Json) (object : String) : List Json :=
  ((payload.pointer [object, "pull_requests"]).bind Json.asArray).getD []

def listedNumbers (payload : Json) (object : String) : List Int :=
  (listedPullRequests payload object).filterMap listedNumber

/-- The watched open pull requests of an available repository with the head. -/
def Registry.watchedOpen (registry : Registry) (repositoryId : Int) (headSha : Option String) :
    List Int :=
  match registry.repository repositoryId, headSha with
  | some _, some headSha => (registry.pullRequests.filter fun pullRequest =>
      pullRequest.repositoryId = repositoryId && pullRequest.headSha = headSha &&
        pullRequest.watched && pullRequest.state = .open).map fun pullRequest => pullRequest.number
  | _, _ => []

/-- The numbers of the pull requests that the event concerns. -/
def concernedNumbers (registry : Registry) (repositoryId : Int) (eventName : String)
    (payload : Json) : List Int :=
  if eventName ∈ pullRequestEvents then
    ((payload.pointer ["pull_request", "number"]).bind Json.asInt32).toList
  else if eventName = "issue_comment" then
    if (payload.pointer ["issue", "pull_request"]).isSome then
      ((payload.pointer ["issue", "number"]).bind Json.asInt32).toList
    else []
  else if eventName ∈ checkEvents then
    if listedPullRequests payload eventName = [] then
      registry.watchedOpen repositoryId ((payload.pointer [eventName, "head_sha"]).bind Json.asStr)
    else listedNumbers payload eventName
  else if eventName = "status" then
    registry.watchedOpen repositoryId ((payload.get "sha").bind Json.asStr)
  else []

/-- The pull requests that the delivery concerns, with their repository. -/
def WebhookEnvelope.concerned (delivery : WebhookEnvelope) (registry : Registry) :
    List (Int × Int) :=
  match delivery.repositoryId with
  | none => []
  | some repositoryId =>
      (concernedNumbers registry repositoryId delivery.eventName delivery.payload).map
        fun number => (repositoryId, number)

/-- What GitHub promises of the payload of an event: it has no object of another event, and it
lists pull requests by their numbers. -/
structure EventPayload (eventName : String) (payload : Json) : Prop where
  pullRequest : eventName ∉ pullRequestEvents → payload.get "pull_request" = none
  issue : eventName ≠ "issue_comment" → payload.get "issue" = none
  check : ∀ object ∈ checkEvents, eventName ≠ object → payload.get object = none
  sha : eventName ≠ "status" → payload.get "sha" = none
  listed : ∀ value, payload.pointer [eventName, "pull_requests"] = some value →
    ∃ items, value = .array items ∧ ∀ item ∈ items, listedNumber item ≠ none

/-! ### Pointers -/

section Pointers

variable {value : Json} {key : String} {path : List String}

theorem Json.pointer_append (value : Json) (first second : List String) :
    value.pointer (first ++ second) =
      (value.pointer first).bind fun inner => inner.pointer second := by
  induction first generalizing value with
  | nil => rfl
  | cons token rest ih =>
      cases value with
      | object fields =>
          simp only [List.cons_append, Json.pointer, Option.bind_assoc, ih]
      | array items =>
          simp only [List.cons_append, Json.pointer, Option.bind_assoc, ih]
      | _ => rfl

/-- A key that is no index leads into objects only. -/
theorem Json.pointer_cons (word : Json.arrayIndex key = none) :
    value.pointer (key :: path) = (value.get key).bind fun inner => inner.pointer path := by
  cases value with
  | array items => simp only [Json.pointer, word, Json.get, Option.bind_none]
  | _ => rfl

theorem Json.pointer_absent (word : Json.arrayIndex key = none) (absent : value.get key = none) :
    value.pointer (key :: path) = none := by
  rw [Json.pointer_cons word, absent, Option.bind_none]

/-- The number of the first item of a list. -/
theorem pointer_first (items : List Json) :
    ((Json.array items).pointer ["0", "number"]).bind Json.asInt32 = items.head?.bind listedNumber := by
  have zero : Json.arrayIndex "0" = some 0 := by decide
  have word : Json.arrayIndex "number" = none := by decide
  cases items with
  | nil =>
      simp [Json.pointer, zero]
  | cons item rest =>
      have first : (Json.array (item :: rest)).pointer ["0", "number"] =
          item.pointer ["number"] := by
        simp [Json.pointer, zero]
      rw [first, Json.pointer_cons word, List.head?_cons, Option.bind_some, listedNumber]
      cases item.get "number" <;> rfl

end Pointers

/-! ### What the delivery reads -/

section Readings

variable {deliveryId eventName : String} {payload : Json} {rawBody : List UInt8}

/-- The words with which the pointers start are no indices. -/
theorem pointerWords : ∀ word ∈ ["pull_request", "issue", "check_run", "check_suite",
    "workflow_run", "head_sha"], Json.arrayIndex word = none := by decide

/-- The numbers and heads that the payload of an event does not have. -/
structure Absent (eventName : String) (payload : Json) : Prop where
  pullRequest : eventName ∉ pullRequestEvents → payload.pointer ["pull_request", "number"] = none
  issue : eventName ≠ "issue_comment" → payload.pointer ["issue", "number"] = none
  check : ∀ object ∈ checkEvents, eventName ≠ object → ∀ path, payload.pointer (object :: path) = none

theorem EventPayload.absent (own : EventPayload eventName payload) : Absent eventName payload where
  pullRequest other := Json.pointer_absent (pointerWords _ (by decide)) (own.pullRequest other)
  issue other := Json.pointer_absent (pointerWords _ (by decide)) (own.issue other)
  check object member other path := by
    have words : ∀ object ∈ checkEvents, Json.arrayIndex object = none := by decide
    exact Json.pointer_absent (words object member) (own.check object member other)

/-- The event of a pull request reads its number and no head. -/
theorem reads_pullRequest (own : EventPayload eventName payload)
    (event : eventName ∈ pullRequestEvents) :
    payloadPullRequestNumber payload =
        (payload.pointer ["pull_request", "number"]).bind Json.asInt32 ∧
      (WebhookEnvelope.fromPayload deliveryId eventName payload rawBody).headSha = none := by
  have others : ∀ eventName ∈ pullRequestEvents, eventName ≠ "issue_comment" ∧
      eventName ≠ "status" ∧ ∀ object ∈ checkEvents, eventName ≠ object := by decide
  obtain ⟨notIssue, notStatus, notCheck⟩ := others eventName event
  have missing (object : String) (member : object ∈ checkEvents) (path : List String) :=
    own.absent.check object member (notCheck object member) path
  simp only [payloadPullRequestNumber, WebhookEnvelope.headSha, WebhookEnvelope.fromPayload,
    own.absent.issue notIssue, own.sha notStatus, missing "check_run" (by decide),
    missing "check_suite" (by decide), missing "workflow_run" (by decide),
    Option.or_none, Option.bind_none, and_self]

theorem reads_issue (own : EventPayload "issue_comment" payload) :
    payloadPullRequestNumber payload = (payload.pointer ["issue", "number"]).bind Json.asInt32 ∧
      (WebhookEnvelope.fromPayload deliveryId "issue_comment" payload rawBody).headSha = none := by
  have missing (object : String) (member : object ∈ checkEvents)
      (other : "issue_comment" ≠ object) (path : List String) :=
    own.absent.check object member other path
  simp only [payloadPullRequestNumber, WebhookEnvelope.headSha, WebhookEnvelope.fromPayload,
    own.absent.pullRequest (by decide), own.sha (by decide),
    missing "check_run" (by decide) (by decide), missing "check_suite" (by decide) (by decide),
    missing "workflow_run" (by decide) (by decide), Option.none_or, Option.or_none,
    Option.bind_none, and_self]

/-- The event of a check reads the first pull request of its list, and its own head. -/
theorem reads_check (own : EventPayload eventName payload) (event : eventName ∈ checkEvents) :
    payloadPullRequestNumber payload =
        (listedPullRequests payload eventName).head?.bind listedNumber ∧
      (WebhookEnvelope.fromPayload deliveryId eventName payload rawBody).headSha =
        (payload.pointer [eventName, "head_sha"]).bind Json.asStr := by
  have others : ∀ eventName ∈ checkEvents, eventName ∉ pullRequestEvents ∧
      eventName ≠ "issue_comment" ∧ eventName ≠ "status" := by decide
  obtain ⟨notPullRequest, notIssue, notStatus⟩ := others eventName event
  have first : (payload.pointer [eventName, "pull_requests", "0", "number"]).bind Json.asInt32 =
      (listedPullRequests payload eventName).head?.bind listedNumber := by
    have split := Json.pointer_append payload [eventName, "pull_requests"] ["0", "number"]
    rw [List.cons_append, List.cons_append, List.nil_append] at split
    rw [split, listedPullRequests]
    cases found : payload.pointer [eventName, "pull_requests"] with
    | none => rfl
    | some value =>
        obtain ⟨items, rfl, -⟩ := own.listed value found
        exact pointer_first items
  have missing (object : String) (member : object ∈ checkEvents) (other : eventName ≠ object)
      (path : List String) := own.absent.check object member other path
  rw [← first]
  simp only [payloadPullRequestNumber, WebhookEnvelope.headSha, WebhookEnvelope.fromPayload,
    own.absent.pullRequest notPullRequest, own.absent.issue notIssue, own.sha notStatus]
  simp only [checkEvents, List.mem_cons, List.not_mem_nil, or_false] at event
  rcases event with rfl | rfl | rfl
  · simp only [missing "check_suite" (by decide) (by decide),
      missing "workflow_run" (by decide) (by decide), Option.none_or, Option.or_none,
      Option.bind_none, and_self]
  · simp only [missing "check_run" (by decide) (by decide),
      missing "workflow_run" (by decide) (by decide), Option.none_or, Option.or_none,
      Option.bind_none, and_self]
  · simp only [missing "check_run" (by decide) (by decide),
      missing "check_suite" (by decide) (by decide), Option.none_or, Option.or_none,
      Option.bind_none, and_self]

/-- The other events read no number. -/
theorem reads_other (own : EventPayload eventName payload)
    (other : eventName ∉ pullRequestEvents ∧ eventName ≠ "issue_comment" ∧ eventName ∉ checkEvents) :
    payloadPullRequestNumber payload = none ∧
      (WebhookEnvelope.fromPayload deliveryId eventName payload rawBody).headSha =
        (payload.get "sha").bind Json.asStr := by
  obtain ⟨notPullRequest, notIssue, notCheck⟩ := other
  have missing (object : String) (member : object ∈ checkEvents) (path : List String) :=
    own.absent.check object member (fun same => notCheck (same ▸ member)) path
  simp only [payloadPullRequestNumber, WebhookEnvelope.headSha, WebhookEnvelope.fromPayload,
    own.absent.pullRequest notPullRequest, own.absent.issue notIssue,
    missing "check_run" (by decide), missing "check_suite" (by decide),
    missing "workflow_run" (by decide), Option.or_none, Option.bind_none, and_self]

end Readings

/-! ### Rows that are watched -/

/-- A pull request is watched only while it is open. -/
def Registry.WatchesOpen (registry : Registry) : Prop :=
  ∀ pullRequest ∈ registry.pullRequests, pullRequest.watched = true → pullRequest.state = .open

theorem storePullRequests_watchesOpen {tables next : Tables}
    {pullRequests : List PullRequestRecord} (stored : storePullRequests tables pullRequests = .ok next)
    (open' : ∀ pullRequest ∈ pullRequests, pullRequest.watched = true →
      pullRequest.state = .open) : next.toRegistry.WatchesOpen := by
  unfold storePullRequests at stored
  split at stored
  · cases stored
    exact open'
  · cases stored

theorem snapshot_watchesOpen (snapshot : PullRequestSnapshot) :
    snapshot.row.watched = true → snapshot.row.state = .open := by
  intro watched
  simpa [PullRequestSnapshot.row] using watched

theorem upsertPullRequestOn_watchesOpen {snapshot : PullRequestSnapshot} {tables next : Tables}
    (open' : tables.toRegistry.WatchesOpen) (wrote : upsertPullRequestOn snapshot tables = .ok next) :
    next.toRegistry.WatchesOpen := by
  unfold upsertPullRequestOn at wrote
  split at wrote
  · refine storePullRequests_watchesOpen wrote (List.forall_mem_map.mpr fun row member => ?_)
    split
    · exact snapshot_watchesOpen snapshot
    · exact open' row member
  · split at wrote
    · refine storePullRequests_watchesOpen wrote fun row member => ?_
      rcases List.mem_append.mp member with old | new
      · exact open' row old
      · rw [List.mem_singleton.mp new]
        exact snapshot_watchesOpen snapshot
    · cases wrote

section Receiving

variable {packages : Packages} {store : WebhookStore} {delivery : WebhookEnvelope}
  {drawId : List Uuid → Uuid} {outcome : DeliveryOutcome}

/-- No statement of a delivery watches a closed pull request. -/
theorem Written.watchesOpen {run : Timestamp → Tables → Except StorageError Tables}
    (written : Written delivery run) {now : Timestamp} {tables next : Tables}
    (open' : tables.toRegistry.WatchesOpen) (wrote : run now tables = .ok next) :
    next.toRegistry.WatchesOpen := by
  have kept (same : next.pullRequests = tables.pullRequests) : next.toRegistry.WatchesOpen := by
    intro row member
    rw [same] at member
    exact open' row member
  cases written with
  | installation id accountLogin accountType =>
      cases wrote
      apply kept
      unfold upsertInstallation
      split <;> rfl
  | repository input listed =>
      apply kept
      unfold upsertRepositoryRow storeRepositories at wrote
      dsimp only at wrote
      split at wrote
      · split at wrote <;> cases wrote
        rfl
      · split at wrote
        · split at wrote <;> cases wrote
          rfl
        · cases wrote
  | suspension access id suspended =>
      cases wrote
      exact kept rfl
  | deactivation access chosen =>
      cases wrote
      exact kept rfl
  | unwatching access chosen blind =>
      cases wrote
      refine List.forall_mem_map.mpr fun row member => ?_
      split
      · intro watched
        cases watched
      · exact open' row member
  | cancellation access update cancels =>
      apply kept
      unfold updateJobs at wrote
      dsimp only at wrote
      split at wrote <;> cases wrote
      rfl
  | snapshot event snapshot => exact upsertPullRequestOn_watchesOpen open' wrote
  | feedback repositoryId pullRequestNumber feedback =>
      apply kept
      unfold upsertFeedbackOn at wrote
      dsimp only at wrote
      split at wrote
      · cases wrote
        rfl
      · split at wrote <;> cases wrote
        rfl
  | check repositoryId pullRequestNumber check =>
      apply kept
      unfold upsertCheckOn at wrote
      dsimp only at wrote
      split at wrote
      · cases wrote
        rfl
      · split at wrote <;> cases wrote
        rfl

theorem processDelivery_watchesOpen {after : WebhookStore}
    (open' : store.tables.toRegistry.WatchesOpen)
    (processed : processDelivery packages none store delivery = (after, .ok outcome))
    (settles : outcome ≠ .conflict) : after.tables.toRegistry.WatchesOpen := by
  rcases (processDelivery_followed processed settles).2.2 with same | applied
  · rw [same]
    exact open'
  · exact runSteps_keeps (fun tables => tables.toRegistry.WatchesOpen)
      (fun run member tables next held wrote =>
        (written_applySteps member).watchesOpen held wrote) 0 open' applied

/-! ### Targets -/

/-- The targets for which `receive` calls the queue. -/
def requestedTargets (packages : Packages) (store : WebhookStore) (delivery : WebhookEnvelope) :
    List (Int × Int) :=
  match processDelivery packages none store delivery with
  | (_, .error _) | (_, .ok .conflict) => []
  | (after, .ok _) =>
      if delivery.checkRunControl = .ok none ∧ delivery.isSupported = true then
        (reconcileTargets none after.tables.toRegistry delivery).toOption.getD []
      else []

theorem reconcileTargets_ok (registry : Registry) (delivery : WebhookEnvelope) :
    ∃ targets, reconcileTargets none registry delivery = .ok targets := by
  unfold reconcileTargets
  split
  · exact ⟨_, rfl⟩
  · split
    · exact ⟨_, rfl⟩
    · exact ⟨_, rfl⟩
  · exact ⟨_, rfl⟩

theorem followUp_supported (plain : delivery.checkRunControl = .ok none)
    (supported : delivery.isSupported = true) : followUp packages none drawId store delivery outcome =
      enqueueReconciliations none drawId store delivery outcome := by
  rw [followUp, plain]
  simp only [processCheckRunControl, plain, true_and, supported, if_true]

theorem enqueueReconciliations_answer {other : DeliveryOutcome}
    (answered : (enqueueReconciliations none drawId store delivery outcome).2 = .ok other) :
    other = outcome := by
  unfold enqueueReconciliations at answered
  split at answered
  · cases answered
  · split at answered
    · cases answered
    · exact (Except.ok.inj answered).symm

/-- A delivery that is accepted and no control calls the queue for its targets one after another. -/
theorem receive_requested (plain : delivery.checkRunControl = .ok none)
    (supported : delivery.isSupported = true)
    (received : (receive packages none drawId store delivery).2 = .ok outcome)
    (accepted : outcome ≠ .conflict) :
    ∃ after, processDelivery packages none store delivery = (after, .ok outcome) ∧
      (receive packages none drawId store delivery).1 = after.withJobs
        (handleAll (enqueueTarget none drawId delivery) 0 (requestedTargets packages store delivery)
          after.database).1.jobs ∧
      reconcileTargets none after.tables.toRegistry delivery =
        .ok (requestedTargets packages store delivery) := by
  cases processed : processDelivery packages none store delivery with
  | mk after answer =>
      cases answer with
      | error reason =>
          rw [receive, processed] at received
          cases received
      | ok settled =>
          obtain ⟨targets, read⟩ := reconcileTargets_ok after.tables.toRegistry delivery
          have chosen : settled ≠ .conflict → requestedTargets packages store delivery = targets := by
            intro other
            rw [requestedTargets, processed]
            cases settled with
            | conflict => exact absurd rfl other
            | inserted | duplicate =>
                simp only [plain, supported, and_self, if_true, read, Except.toOption,
                  Option.getD_some]
          have followed : settled ≠ .conflict → receive packages none drawId store delivery =
              enqueueReconciliations none drawId after delivery settled := by
            intro other
            rw [← @followUp_supported packages _ _ drawId _ plain supported]
            cases settled with
            | conflict => exact absurd rfl other
            | inserted | duplicate => simp only [receive, processed]
          have settles : settled ≠ .conflict := by
            rintro rfl
            rw [receive, processed] at received
            exact accepted (Except.ok.inj received).symm
          rw [followed settles] at received ⊢
          obtain rfl := enqueueReconciliations_answer received
          refine ⟨after, rfl, ?_, by rw [read, chosen settles]⟩
          rw [enqueueReconciliations_fst, read, chosen settles]

end Receiving

/-! ### Exactness -/

/-- A comment is on a pull request, and a check lists no two of them. -/
def WebhookEnvelope.SingleTarget (delivery : WebhookEnvelope) : Prop :=
  (delivery.eventName = "issue_comment" → delivery.pullRequestNumber ≠ none →
    (delivery.payload.pointer ["issue", "pull_request"]).isSome = true) ∧
  (delivery.eventName ∈ checkEvents →
    ∀ first ∈ listedNumbers delivery.payload delivery.eventName,
      ∀ second ∈ listedNumbers delivery.payload delivery.eventName, first = second)

/-- The numbers of the targets in the repository of the delivery. -/
def requestedNumbers (registry : Registry) (repositoryId : Int) (pullRequestNumber : Option Int)
    (headSha : Option String) : List Int :=
  match pullRequestNumber, headSha with
  | some number, _ => [number]
  | none, some headSha => registry.openPullRequestsForHead repositoryId headSha
  | none, none => []

section Exactness

variable {registry : Registry} {repositoryId : Int} {deliveryId eventName : String} {payload : Json}
  {rawBody : List UInt8}

theorem reconcileTargets_eq (registry : Registry) (delivery : WebhookEnvelope) :
    reconcileTargets none registry delivery = .ok (match delivery.repositoryId with
      | none => []
      | some repositoryId => (requestedNumbers registry repositoryId delivery.pullRequestNumber
          delivery.headSha).map fun number => (repositoryId, number)) := by
  unfold reconcileTargets requestedNumbers
  cases delivery.repositoryId with
  | none => rfl
  | some repositoryId =>
      cases delivery.pullRequestNumber with
      | some number => rfl
      | none => cases delivery.headSha <;> rfl

/-- The query finds the watched open pull requests where no closed one is watched. -/
theorem mem_openPullRequestsForHead (open' : registry.WatchesOpen) (headSha : String)
    (number : Int) : number ∈ registry.openPullRequestsForHead repositoryId headSha ↔
      number ∈ registry.watchedOpen repositoryId (some headSha) := by
  unfold Registry.openPullRequestsForHead Registry.watchedOpen
  cases registry.repository repositoryId with
  | none => rfl
  | some repository =>
      simp only [Option.isSome_some, if_true, (List.perm_insertionSort _ _).mem_iff, List.mem_map,
        List.mem_filter, Bool.and_eq_true, decide_eq_true_eq]
      constructor
      · rintro ⟨row, ⟨member, found, watched⟩, same⟩
        exact ⟨row, ⟨member, ⟨found, watched⟩, open' row member watched⟩, same⟩
      · rintro ⟨row, ⟨member, ⟨found, watched⟩, -⟩, same⟩
        exact ⟨row, ⟨member, found, watched⟩, same⟩

theorem mem_requestedNumbers_head (open' : registry.WatchesOpen) (headSha : Option String)
    (number : Int) : number ∈ requestedNumbers registry repositoryId none headSha ↔
      number ∈ registry.watchedOpen repositoryId headSha := by
  cases headSha with
  | none =>
      unfold requestedNumbers Registry.watchedOpen
      split <;> simp_all
  | some headSha => exact mem_openPullRequestsForHead open' headSha number

theorem requestedNumbers_number (number : Option Int) :
    requestedNumbers registry repositoryId number none = number.toList := by
  cases number <;> rfl

theorem EventPayload.numbered (own : EventPayload eventName payload) :
    ∀ item ∈ listedPullRequests payload eventName, listedNumber item ≠ none := by
  unfold listedPullRequests
  cases found : payload.pointer [eventName, "pull_requests"] with
  | none => simp
  | some value =>
      obtain ⟨items, rfl, numbered⟩ := own.listed value found
      exact numbered

/-- The first of some numbers is all of them exactly when they are all the same. -/
theorem first_exact {first : Int} {rest : List Int} :
    (∀ number, number ∈ [first] ↔ number ∈ first :: rest) ↔
      ∀ one ∈ first :: rest, ∀ other ∈ first :: rest, one = other := by
  constructor
  · intro exact' one member other member'
    rw [List.mem_singleton.mp ((exact' one).mpr member),
      List.mem_singleton.mp ((exact' other).mpr member')]
  · intro same number
    constructor
    · intro member
      rw [List.mem_singleton.mp member]
      exact List.mem_cons_self ..
    · intro member
      exact List.mem_singleton.mpr (same number member first (List.mem_cons_self ..))

/-- A number that is dropped unless the issue is a pull request. -/
theorem issue_exact {number : Option Int} {onPullRequest : Bool} :
    (∀ one, one ∈ number.toList ↔ one ∈ if onPullRequest then number.toList else []) ↔
      (number ≠ none → onPullRequest = true) := by
  cases onPullRequest with
  | true => simp
  | false =>
      cases number with
      | none => simp
      | some number =>
          simp only [Option.toList_some, Bool.false_eq_true, if_false, List.mem_singleton,
            List.not_mem_nil, iff_false, ne_eq, reduceCtorEq, not_false_eq_true, imp_false,
            not_true_eq_false]
          intro never
          exact never number rfl

/-- The targets of a check are exact when its list has one number or the head decides. -/
theorem check_exact {items : List Json} (numbered : ∀ item ∈ items, listedNumber item ≠ none)
    (open' : registry.WatchesOpen) (headSha : Option String) :
    (∀ number, number ∈ requestedNumbers registry repositoryId (items.head?.bind listedNumber)
        headSha ↔ number ∈ if items = [] then registry.watchedOpen repositoryId headSha
          else items.filterMap listedNumber) ↔
      ∀ first ∈ items.filterMap listedNumber, ∀ second ∈ items.filterMap listedNumber,
        first = second := by
  cases items with
  | nil => exact iff_of_true (mem_requestedNumbers_head open' headSha) (by simp)
  | cons item rest =>
      obtain ⟨number, known⟩ := Option.ne_none_iff_exists'.mp (numbered item (List.mem_cons_self ..))
      rw [List.head?_cons, Option.bind_some, known, if_neg (by simp), List.filterMap_cons, known]
      exact first_exact

theorem numbers_exact_iff (own : EventPayload eventName payload) (open' : registry.WatchesOpen) :
    (∀ number, number ∈ requestedNumbers registry repositoryId (payloadPullRequestNumber payload)
        (WebhookEnvelope.fromPayload deliveryId eventName payload rawBody).headSha ↔
      number ∈ concernedNumbers registry repositoryId eventName payload) ↔
      (WebhookEnvelope.fromPayload deliveryId eventName payload rawBody).SingleTarget := by
  have unpulled : ∀ eventName ∈ pullRequestEvents, eventName ≠ "issue_comment" ∧
      eventName ∉ checkEvents := by decide
  by_cases pulled : eventName ∈ pullRequestEvents
  · obtain ⟨notIssue, notCheck⟩ := unpulled eventName pulled
    obtain ⟨number, head⟩ := @reads_pullRequest deliveryId _ _ rawBody own pulled
    rw [number, head, requestedNumbers_number, concernedNumbers, if_pos pulled]
    exact iff_of_true (fun _ => Iff.rfl)
      ⟨fun issue => absurd issue notIssue, fun check => absurd check notCheck⟩
  · by_cases issue : eventName = "issue_comment"
    · subst issue
      obtain ⟨number, head⟩ := @reads_issue deliveryId _ rawBody own
      rw [head, requestedNumbers_number, concernedNumbers, if_neg pulled, if_pos rfl, ← number,
        issue_exact]
      constructor
      · intro exact'
        exact ⟨fun _ => exact', fun check => absurd check (by decide : "issue_comment" ∉ checkEvents)⟩
      · intro single
        exact single.1 rfl
    · by_cases check : eventName ∈ checkEvents
      · obtain ⟨number, head⟩ := @reads_check deliveryId _ _ rawBody own check
        rw [number, head, concernedNumbers, if_neg pulled, if_neg issue, if_pos check,
          listedNumbers, check_exact own.numbered open']
        constructor
        · intro same
          exact ⟨fun other => absurd other issue, fun _ => same⟩
        · intro single
          exact single.2 check
      · obtain ⟨number, head⟩ := @reads_other deliveryId _ _ rawBody own ⟨pulled, issue, check⟩
        rw [number, head, concernedNumbers, if_neg pulled, if_neg issue, if_neg check]
        refine iff_of_true (fun one => ?_)
          ⟨fun other => absurd other issue, fun other => absurd other check⟩
        rw [mem_requestedNumbers_head open']
        split
        · rfl
        · rename_i other
          rw [own.sha other]
          unfold Registry.watchedOpen
          split <;> simp_all

theorem mem_pairs_iff {first : Int} {seconds others : List Int} :
    (∀ pair, pair ∈ seconds.map (fun second => (first, second)) ↔
      pair ∈ others.map fun second => (first, second)) ↔
        ∀ second, second ∈ seconds ↔ second ∈ others := by
  have inside (numbers : List Int) (second : Int) :
      (first, second) ∈ numbers.map (fun second => (first, second)) ↔ second ∈ numbers :=
    List.mem_map_of_injective (Prod.mk_right_injective first)
  constructor
  · intro same second
    rw [← inside seconds, ← inside others]
    exact same (first, second)
  · intro same pair
    simp only [List.mem_map, same]

end Exactness

/-! ### A status and a comment -/

def plainRepository : Json := .object [("id", .ofInt 1)]

def statusPayload : Json :=
  .object [("repository", plainRepository), ("sha", .string "head")]

def headStatusDelivery : WebhookEnvelope :=
  WebhookEnvelope.fromPayload "status-delivery" "status" statusPayload []

theorem statusPayload_own : EventPayload "status" statusPayload where
  pullRequest _ := by decide
  issue _ := by decide
  check := by decide
  sha other := absurd rfl other
  listed value found := by cases found

/-- A comment on an issue that is no pull request. -/
def issueDelivery : WebhookEnvelope :=
  WebhookEnvelope.fromPayload "issue-delivery" "issue_comment"
    (.object [("action", .string "created"),
      ("comment", .object [("body", .string "thanks"), ("id", .ofInt 5)]),
      ("issue", .object [("number", .ofInt 9)]), ("repository", plainRepository)]) []

end PiTools
