import PiTools.Control.Receive
import PiTools.Library.Utf8

/-
This file defines the requests of the server from their headers and bodies on:
the webhook with its counters and the routes of the operators.
-/

namespace PiTools.Server

open Library

/-! ### Headers -/

/-- The values of the headers under their lower-case names. -/
abbrev HeaderMap := List (String × List UInt8)

def visibleAscii (byte : UInt8) : Bool := (32 ≤ byte && byte < 127) || byte = 9

/-- The text of a header value, where each byte is a visible character or a tab. -/
def toStr (value : List UInt8) : Option (List Char) :=
  if value.all visibleAscii then some (value.map fun byte => Char.ofNat byte.toNat) else none

/-- The text of the first header with the name. -/
def HeaderMap.text (headers : HeaderMap) (name : String) : Option (List Char) :=
  (headers.lookup name).bind toStr

/-! ### Signatures -/

def hexEncode (bytes : List UInt8) : List Char :=
  bytes.flatMap fun byte => [Nat.digitChar (byte.toNat / 16), Nat.digitChar (byte.toNat % 16)]

def constantTimeEqual (left right : List UInt8) : Bool :=
  if left.length ≠ right.length then false
  else (left.zip right).foldl (fun difference pair => difference ||| (pair.1 ^^^ pair.2)) 0 = 0

theorem difference_zero (pairs : List (UInt8 × UInt8)) (difference : UInt8) :
    pairs.foldl (fun difference pair => difference ||| (pair.1 ^^^ pair.2)) difference = 0 ↔
      difference = 0 ∧ ∀ pair ∈ pairs, pair.1 = pair.2 := by
  induction pairs generalizing difference with
  | nil => simp
  | cons pair rest ih =>
      rw [List.foldl_cons, ih, UInt8.or_eq_zero_iff, UInt8.xor_eq_zero_iff, List.forall_mem_cons, and_assoc]

/-- The comparison reads every byte and still decides equality. -/
theorem constantTimeEqual_iff (left right : List UInt8) : constantTimeEqual left right = true ↔ left = right := by
  by_cases length : left.length = right.length
  · rw [constantTimeEqual, if_neg (not_not.mpr length), decide_eq_true_eq, difference_zero]
    constructor
    · rintro ⟨_, equal⟩
      have same : (left.zip right).map Prod.fst = (left.zip right).map Prod.snd :=
        List.map_congr_left equal
      rwa [List.map_fst_zip length.le, List.map_snd_zip length.ge] at same
    · rintro rfl
      refine ⟨rfl, fun pair member => ?_⟩
      obtain ⟨index, inside, rfl⟩ := List.mem_iff_getElem.mp member
      simp
  · rw [constantTimeEqual, if_pos length]
    simp only [Bool.false_eq_true, false_iff]
    exact fun same => length (congrArg List.length same)

/-- The functions of other packages that the server calls. -/
structure ServerPackages (PasswordHash : Type) extends Packages where
  hmacSha256 : List UInt8 → List UInt8 → List UInt8
  fromSlice : List UInt8 → Option Json
  newPasswordHash : String → Option PasswordHash
  verifyPassword : List UInt8 → PasswordHash → Bool

/-- The configuration of a running server. -/
structure AppState where
  webhookSecret : String
  repositories : Bool
  queue : Bool
  adminBearerTokenHash : String
  deriving DecidableEq, Repr

structure Metrics where
  webhookReceived : UInt64 := 0
  webhookRejected : UInt64 := 0
  webhookAccepted : UInt64 := 0
  webhookDuplicate : UInt64 := 0
  webhookConflict : UInt64 := 0
  deriving DecidableEq, Repr

def Metrics.recordWebhookReceived (metrics : Metrics) : Metrics :=
  { metrics with webhookReceived := metrics.webhookReceived + 1 }

def Metrics.recordWebhookRejected (metrics : Metrics) : Metrics :=
  { metrics with webhookRejected := metrics.webhookRejected + 1 }

def Metrics.recordWebhookAccepted (metrics : Metrics) : Metrics :=
  { metrics with webhookAccepted := metrics.webhookAccepted + 1 }

def Metrics.recordWebhookDuplicate (metrics : Metrics) : Metrics :=
  { metrics with webhookDuplicate := metrics.webhookDuplicate + 1 }

def Metrics.recordWebhookConflict (metrics : Metrics) : Metrics :=
  { metrics with webhookConflict := metrics.webhookConflict + 1 }

/-- What the requests read and write. -/
structure ServerState where
  store : WebhookStore
  metrics : Metrics

/-- The errors of the webhook. The last two are the same error of the source, before and after the
delivery is recorded. -/
inductive RequestError
  | missingSignature
  | invalidSignature
  | missingDeliveryId
  | invalidPayload
  | payloadTooLarge
  | persistenceUnavailable
  | repository (reason : RepositoryError)
  | interrupted (reason : WebhookError)
  deriving DecidableEq, Repr

inductive ApiError
  | unauthorized
  | unavailable (component : String)
  | notFound
  | internal (reason : StorageError)
  deriving DecidableEq, Repr

section Requests

variable {PasswordHash : Type} (packages : ServerPackages PasswordHash) (app : AppState)

def verifySignature (secret : String) (body : List UInt8) (header : List Char) : Except RequestError Unit :=
  match stripPrefix "sha256=".toList header with
  | none => .error .invalidSignature
  | some signature =>
      let expected := hexEncode (packages.hmacSha256 (encodeUtf8 secret.toList) body)
      if (encodeUtf8 signature).length ≠ (encodeUtf8 expected).length ∨
          constantTimeEqual (encodeUtf8 signature) (encodeUtf8 expected) = false then
        .error .invalidSignature
      else .ok ()

/-! ### The webhook -/

/-- The checks of a request. None of them reads the state of the server. -/
def readDelivery (headers : HeaderMap) (body : List UInt8) : Except RequestError WebhookEnvelope := do
  ensure (body.length ≤ 2 * 1024 * 1024) .payloadTooLarge
  let signature ← okOr (headers.text "x-hub-signature-256") .missingSignature
  verifySignature packages app.webhookSecret body signature
  let deliveryId ← okOr ((headers.text "x-github-delivery").filter fun value => !(trim value).isEmpty)
    .missingDeliveryId
  let eventName := ((headers.text "x-github-event").filter fun value => !(trim value).isEmpty).getD
    "unknown".toList
  let payload ← okOr (packages.fromSlice body) .invalidPayload
  pure (.fromPayload (String.ofList deliveryId) (String.ofList eventName) payload body)

def ServerState.reject (server : ServerState) (reason : RequestError) :
    ServerState × Except RequestError DeliveryOutcome :=
  ({ server with metrics := server.metrics.recordWebhookRejected }, .error reason)

def ServerState.answer (server : ServerState) (outcome : DeliveryOutcome) :
    ServerState × Except RequestError DeliveryOutcome :=
  match outcome with
  | .inserted => ({ server with metrics := server.metrics.recordWebhookAccepted }, .ok .inserted)
  | .duplicate => ({ server with metrics := server.metrics.recordWebhookDuplicate }, .ok .duplicate)
  | .conflict => ({ server with metrics := server.metrics.recordWebhookConflict }, .ok .conflict)

def receive (failing : Option CallSite) (drawId : List Uuid → Uuid) (server : ServerState) (headers : HeaderMap)
    (body : List UInt8) : ServerState × Except RequestError DeliveryOutcome :=
  let server := { server with metrics := server.metrics.recordWebhookReceived }
  match readDelivery packages app headers body with
  | .error reason => server.reject reason
  | .ok envelope =>
      if app.repositories = false then server.reject .persistenceUnavailable
      else match processDelivery packages.toPackages failing server.store envelope with
        | (store, .error reason) => { server with store }.reject (.repository reason)
        | (store, .ok outcome) =>
            if (outcome = .inserted ∨ outcome = .duplicate) ∧ app.queue = true then
              match followUp packages.toPackages failing drawId store envelope outcome with
              -- Nothing counts a request that fails here.
              | (store, .error reason) => ({ server with store }, .error (.interrupted reason))
              | (store, .ok _) => { server with store }.answer outcome
            else { server with store }.answer outcome

/-! ### The operators -/

def bearerToken (headers : HeaderMap) : Option (List Char) :=
  ((headers.text "authorization").bind (stripPrefix "Bearer ".toList)).filter fun value => !value.isEmpty

def verifyBearerToken (token : List Char) (storedHash : String) : Bool :=
  match packages.newPasswordHash storedHash with
  | none => false
  | some hash => packages.verifyPassword (encodeUtf8 token) hash

def isAuthorized (headers : HeaderMap) (storedHash : String) : Bool :=
  match bearerToken headers with
  | none => false
  | some token => verifyBearerToken packages token storedHash

def requireAdmin (headers : HeaderMap) : Except ApiError Unit :=
  if isAuthorized packages headers app.adminBearerTokenHash then .ok () else .error .unauthorized

/-- The number of entries that a list shows. -/
def listLimit (limit : Option UInt16) : Nat := min (max (limit.getD 50).toNat 1) 100

/-- The routes that only read, with the place and the number of entries that they ask for. -/
inductive ReadRoute
  | watchlist
  | watchlistItem (repositoryId pullRequestNumber : Int)
  | watchlistHistory (repositoryId pullRequestNumber : Int) (limit : Option UInt16)
  | events (limit : Option UInt16)
  | audit (limit : Option UInt16)
  deriving DecidableEq, Repr

/-- The queries behind the routes that only read. -/
structure Queries where
  openPullRequests : WebhookStore → Except StorageError Json
  pullRequestDetail : Int → Int → WebhookStore → Except StorageError (Option Json)
  pullRequestHistory : Int → Int → Nat → WebhookStore → Except StorageError (Option Json)
  recentEvents : Nat → WebhookStore → Except StorageError Json
  recentAuditEntries : Nat → WebhookStore → Except StorageError Json

def Queries.run (queries : Queries) (store : WebhookStore) : ReadRoute → Except StorageError (Option Json)
  | .watchlist => (queries.openPullRequests store).map some
  | .watchlistItem repositoryId pullRequestNumber =>
      queries.pullRequestDetail repositoryId pullRequestNumber store
  | .watchlistHistory repositoryId pullRequestNumber limit =>
      queries.pullRequestHistory repositoryId pullRequestNumber (listLimit limit) store
  | .events limit => (queries.recentEvents (listLimit limit) store).map some
  | .audit limit => (queries.recentAuditEntries (listLimit limit) store).map some

inductive ApiReply
  | shown (answer : Json)
  | job (jobId : Uuid)
  | cancellation (jobId : Uuid) (cancelRequested : Bool)

def readRoute (queries : Queries) (store : WebhookStore) (headers : HeaderMap) (route : ReadRoute) :
    Except ApiError ApiReply :=
  match requireAdmin packages app headers with
  | .error reason => .error reason
  | .ok () =>
      if app.repositories = false then .error (.unavailable "database")
      else match queries.run store route with
        | .error reason => .error (.internal reason)
        | .ok none => .error .notFound
        | .ok (some answer) => .ok (.shown answer)

def enqueueReconcile (failing : Option CallSite) (drawId : List Uuid → Uuid) (store : WebhookStore)
    (headers : HeaderMap) (repositoryId pullRequestNumber : Int) : WebhookStore × Except ApiError ApiReply :=
  match requireAdmin packages app headers with
  | .error reason => (store, .error reason)
  | .ok () =>
      if app.queue = false then (store, .error (.unavailable "queue"))
      else if failing = some (.enqueue 0) then (store, .error (.internal .unavailable))
      else
        let db := store.database
        let spec : JobSpec :=
          ⟨repositoryId, pullRequestNumber, .reconcile, .object [("source", .string "operator")]⟩
        match enqueue db spec (drawId (db.jobs.map Job.id)) with
        | .error reason => (store, .error (.internal (.jobs reason)))
        | .ok (db, jobId) => (store.withJobs db.jobs, .ok (.job jobId))

def cancelJob (failing : Option CallSite) (store : WebhookStore) (headers : HeaderMap) (jobId : Uuid) :
    WebhookStore × Except ApiError ApiReply :=
  match requireAdmin packages app headers with
  | .error reason => (store, .error reason)
  | .ok () =>
      if app.queue = false then (store, .error (.unavailable "queue"))
      else if failing = some .queueUpdate then (store, .error (.internal .unavailable))
      else match (requestCancel jobId).changed store.database with
        | .error reason => (store, .error (.internal (.jobs reason)))
        | .ok (db, changed) =>
            (store.withJobs db.jobs, .ok (.cancellation jobId changed))

/-! ### One request -/

/-- A request with what the server reads of it. -/
inductive Request
  | webhook (headers : HeaderMap) (body : List UInt8)
  | read (headers : HeaderMap) (route : ReadRoute)
  | reconcile (headers : HeaderMap) (repositoryId pullRequestNumber : Int)
  | cancel (headers : HeaderMap) (jobId : Uuid)
  | metrics

inductive Reply
  | webhook (answer : Except RequestError DeliveryOutcome)
  | api (answer : Except ApiError ApiReply)
  | metrics (counters : Metrics)

/-- A request with the storage call that fails in it and the identifier that it draws. -/
structure Call where
  request : Request
  failing : Option CallSite
  drawId : List Uuid → Uuid

def serve (queries : Queries) (server : ServerState) (call : Call) : ServerState × Reply :=
  match call.request with
  | .webhook headers body =>
      let (server, answer) := receive packages app call.failing call.drawId server headers body
      (server, .webhook answer)
  | .read headers route => (server, .api (readRoute packages app queries server.store headers route))
  | .reconcile headers repositoryId pullRequestNumber =>
      let (store, answer) :=
        enqueueReconcile packages app call.failing call.drawId server.store headers repositoryId pullRequestNumber
      ({ server with store }, .api answer)
  | .cancel headers jobId =>
      let (store, answer) := cancelJob packages app call.failing server.store headers jobId
      ({ server with store }, .api answer)
  | .metrics => (server, .metrics server.metrics)

end Requests

end PiTools.Server
