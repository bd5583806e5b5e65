import PiTools.Library.Purge
import PiTools.Library.Scanning
import PiTools.Server.Requests

/-
This file shows that only signed deliveries and operators reach the state of the
server, and that the counters follow its replies.
-/

namespace PiTools.Server

open Library

section Requests

variable {PasswordHash : Type} (packages : ServerPackages PasswordHash) (app : AppState)

/-! ### Admission -/

/-- A delivery that carries its signature under the webhook secret. -/
structure SignedDelivery (headers : HeaderMap) (body : List UInt8) : Prop where
  small : body.length ≤ 2 * 1024 * 1024
  signed : headers.text "x-hub-signature-256" =
    some ("sha256=".toList ++ hexEncode (packages.hmacSha256 (encodeUtf8 app.webhookSecret.toList) body))
  identified : ∃ deliveryId, headers.text "x-github-delivery" = some deliveryId ∧ trim deliveryId ≠ []
  parsed : (packages.fromSlice body).isSome = true

/-- The headers carry a token whose hash the server knows. -/
def KnownToken (headers : HeaderMap) : Prop :=
  ∃ token, token ≠ [] ∧ headers.text "authorization" = some ("Bearer ".toList ++ token) ∧
    ∃ hash, packages.newPasswordHash app.adminBearerTokenHash = some hash ∧
      packages.verifyPassword (encodeUtf8 token) hash = true

/-- The request comes from GitHub or from an operator. -/
def Request.Admitted : Request → Prop
  | .webhook headers body => SignedDelivery packages app headers body
  | .read headers _ | .reconcile headers _ _ | .cancel headers _ => KnownToken packages app headers
  | .metrics => False

theorem verifySignature_iff {secret : String} {body : List UInt8} {header : List Char} {nothing : Unit} :
    verifySignature packages secret body header = .ok nothing ↔
      header = "sha256=".toList ++ hexEncode (packages.hmacSha256 (encodeUtf8 secret.toList) body) := by
  rw [verifySignature]
  cases stripped : stripPrefix "sha256=".toList header with
  | none =>
      simp only [reduceCtorEq, false_iff]
      intro same
      rw [stripPrefix_eq_some.mpr same] at stripped
      cases stripped
  | some signature =>
      rw [stripPrefix_eq_some.mp stripped, List.append_cancel_left_eq]
      by_cases same : signature = hexEncode (packages.hmacSha256 (encodeUtf8 secret.toList) body)
      · simp [same, (constantTimeEqual_iff _ _).mpr]
      · have differs : constantTimeEqual (encodeUtf8 signature)
            (encodeUtf8 (hexEncode (packages.hmacSha256 (encodeUtf8 secret.toList) body))) = false := by
          rw [← Bool.not_eq_true, constantTimeEqual_iff]
          exact fun bytes => same (encodeUtf8_injective bytes)
        simp [same, differs]

/-- The checks let exactly the signed deliveries through. -/
theorem readDelivery_iff (headers : HeaderMap) (body : List UInt8) :
    (∃ envelope, readDelivery packages app headers body = .ok envelope) ↔
      SignedDelivery packages app headers body := by
  simp only [readDelivery, bind_eq_ok, ensure_eq_ok, okOr_eq_ok, pure_eq_ok, Option.filter_eq_some_iff,
    verifySignature_iff]
  constructor
  · rintro ⟨_, _, small, _, signature, _, rfl, deliveryId, ⟨identified, shown⟩, payload, parsed, _⟩
    exact ⟨small, signature, ⟨deliveryId, identified, by simpa using shown⟩, by rw [parsed]; rfl⟩
  · rintro ⟨small, signed, ⟨deliveryId, identified, shown⟩, parsed⟩
    obtain ⟨payload, parsed⟩ := Option.isSome_iff_exists.mp parsed
    exact ⟨_, (), small, _, signed, (), rfl, deliveryId, ⟨identified, by simpa using shown⟩, payload, parsed, rfl⟩

theorem bearerToken_iff {headers : HeaderMap} {token : List Char} : bearerToken headers = some token ↔
    token ≠ [] ∧ headers.text "authorization" = some ("Bearer ".toList ++ token) := by
  simp only [bearerToken, Option.filter_eq_some_iff, Option.bind_eq_some_iff, stripPrefix_eq_some,
    Bool.not_eq_true', List.isEmpty_eq_false_iff]
  constructor
  · rintro ⟨⟨_, text, rfl⟩, visible⟩
    exact ⟨visible, text⟩
  · rintro ⟨visible, text⟩
    exact ⟨⟨_, text, rfl⟩, visible⟩

theorem isAuthorized_iff (headers : HeaderMap) :
    isAuthorized packages headers app.adminBearerTokenHash = true ↔ KnownToken packages app headers := by
  simp only [KnownToken, ← and_assoc, ← bearerToken_iff]
  rw [isAuthorized]
  cases bearerToken headers with
  | none => simp
  | some token => cases hash : packages.newPasswordHash app.adminBearerTokenHash <;> simp [verifyBearerToken, hash]

/-- The admission of a request, as the server decides it. -/
def Request.admitted : Request → Bool
  | .webhook headers body => (readDelivery packages app headers body).toBool
  | .read headers _ | .reconcile headers _ _ | .cancel headers _ =>
      isAuthorized packages headers app.adminBearerTokenHash
  | .metrics => false

theorem Request.admitted_iff (request : Request) :
    request.admitted packages app = true ↔ request.Admitted packages app := by
  cases request with
  | webhook headers body =>
      rw [Request.admitted, Request.Admitted, ← readDelivery_iff]
      cases readDelivery packages app headers body <;> simp [Except.toBool]
  | read headers | reconcile headers | cancel headers => exact isAuthorized_iff packages app headers
  | metrics => simp [Request.admitted, Request.Admitted]

instance (request : Request) : Decidable (request.Admitted packages app) :=
  decidable_of_iff _ (request.admitted_iff packages app)

/-- The request is neither admitted nor a look at the counters. -/
def Request.Foreign : Request → Prop
  | .metrics => False
  | request => ¬ request.Admitted packages app

instance (request : Request) : Decidable (request.Foreign packages app) := by
  cases request <;> unfold Request.Foreign <;> infer_instance

/-! ### One request -/

/-- The reply to a request that is not admitted. -/
def Request.refusal : Request → Reply
  | .webhook headers body =>
      match readDelivery packages app headers body with
      | .error reason => .webhook (.error reason)
      | .ok _ => .webhook (.error .persistenceUnavailable)
  | .read .. | .reconcile .. | .cancel .. => .api (.error .unauthorized)
  | .metrics => .metrics {}

variable {packages app} {queries : Queries} {server server' : ServerState} {call : Call}

theorem requireAdmin_refused {headers : HeaderMap} (refused : ¬ KnownToken packages app headers) :
    requireAdmin packages app headers = .error .unauthorized := by
  rw [← isAuthorized_iff, Bool.not_eq_true] at refused
  rw [requireAdmin, refused]
  rfl

/-- A request that is not admitted leaves the store as it is. -/
theorem serve_quiet (refused : ¬ call.request.Admitted packages app) :
    (serve packages app queries server call).1.store = server.store := by
  obtain ⟨request, failing, drawId⟩ := call
  cases request with
  | webhook headers body =>
      rw [Request.Admitted, ← readDelivery_iff] at refused
      simp only [serve, receive]
      cases read : readDelivery packages app headers body with
      | error reason => rfl
      | ok envelope => exact absurd ⟨envelope, read⟩ refused
  | read headers route => rfl
  | reconcile headers repositoryId pullRequestNumber =>
      simp only [serve, enqueueReconcile, requireAdmin_refused refused]
  | cancel headers jobId => simp only [serve, cancelJob, requireAdmin_refused refused]
  | metrics => rfl

/-- The reply to such a request tells nothing about the store. -/
theorem serve_blind (foreign : call.request.Foreign packages app) :
    (serve packages app queries server call).2 = call.request.refusal packages app := by
  obtain ⟨request, failing, drawId⟩ := call
  cases request with
  | webhook headers body =>
      have refused : ¬ SignedDelivery packages app headers body := foreign
      rw [← readDelivery_iff] at refused
      simp only [serve, receive, Request.refusal]
      cases read : readDelivery packages app headers body with
      | error reason => rfl
      | ok envelope => exact absurd ⟨envelope, read⟩ refused
  | read headers route => simp only [serve, readRoute, requireAdmin_refused foreign, Request.refusal]
  | reconcile headers repositoryId pullRequestNumber =>
      simp only [serve, enqueueReconcile, requireAdmin_refused foreign, Request.refusal]
  | cancel headers jobId => simp only [serve, cancelJob, requireAdmin_refused foreign, Request.refusal]
  | metrics => exact foreign.elim

/-! ### The webhook without its counters -/

/-- What the webhook does to the store and answers. -/
def deliver (packages : ServerPackages PasswordHash) (app : AppState) (failing : Option CallSite)
    (drawId : List Uuid → Uuid) (store : WebhookStore) (headers : HeaderMap) (body : List UInt8) :
    WebhookStore × Except RequestError DeliveryOutcome :=
  match readDelivery packages app headers body with
  | .error reason => (store, .error reason)
  | .ok envelope =>
      if app.repositories = false then (store, .error .persistenceUnavailable)
      else match processDelivery packages.toPackages failing store envelope with
        | (store, .error reason) => (store, .error (.repository reason))
        | (store, .ok outcome) =>
            if (outcome = .inserted ∨ outcome = .duplicate) ∧ app.queue = true then
              match followUp packages.toPackages failing drawId store envelope outcome with
              | (store, .error reason) => (store, .error (.interrupted reason))
              | (store, .ok _) => (store, .ok outcome)
            else (store, .ok outcome)

/-- The counters after a webhook request with the answer. -/
def Metrics.count (metrics : Metrics) (answer : Except RequestError DeliveryOutcome) : Metrics :=
  match answer with
  | .ok .inserted => metrics.recordWebhookReceived.recordWebhookAccepted
  | .ok .duplicate => metrics.recordWebhookReceived.recordWebhookDuplicate
  | .ok .conflict => metrics.recordWebhookReceived.recordWebhookConflict
  | .error (.interrupted _) => metrics.recordWebhookReceived
  | .error _ => metrics.recordWebhookReceived.recordWebhookRejected

theorem answer_eq (store : WebhookStore) (metrics : Metrics) (outcome : DeliveryOutcome) :
    (ServerState.mk store metrics.recordWebhookReceived).answer outcome =
      (⟨store, metrics.count (.ok outcome)⟩, .ok outcome) := by
  cases outcome <;> rfl

theorem verifySignature_error {secret : String} {body : List UInt8} {header : List Char} {reason : RequestError}
    (refused : verifySignature packages secret body header = .error reason) : reason = .invalidSignature := by
  rw [verifySignature] at refused
  split at refused
  · exact (Except.error.inj refused).symm
  · dsimp only at refused
    split at refused
    · exact (Except.error.inj refused).symm
    · cases refused

/-- The checks fail before anything is recorded. -/
theorem readDelivery_error {headers : HeaderMap} {body : List UInt8} {reason : RequestError}
    (refused : readDelivery packages app headers body = .error reason) (later : WebhookError) :
    reason ≠ .interrupted later := by
  rintro rfl
  simp only [readDelivery, bind_eq_error, ensure_eq_error, okOr_eq_error, pure_ne_error, reduceCtorEq, and_false,
    exists_false, or_false, false_or] at refused
  obtain ⟨_, _, _, _, unsigned⟩ := refused
  cases verifySignature_error unsigned

theorem Metrics.count_rejected (metrics : Metrics) {reason : RequestError}
    (early : ∀ later, reason ≠ .interrupted later) :
    metrics.count (.error reason) = metrics.recordWebhookReceived.recordWebhookRejected := by
  cases reason with
  | interrupted later => exact absurd rfl (early later)
  | _ => rfl

/-- The counters follow the answer and decide nothing. -/
theorem receive_eq (failing : Option CallSite) (drawId : List Uuid → Uuid) (headers : HeaderMap)
    (body : List UInt8) : receive packages app failing drawId server headers body =
      (⟨(deliver packages app failing drawId server.store headers body).1,
        server.metrics.count (deliver packages app failing drawId server.store headers body).2⟩,
        (deliver packages app failing drawId server.store headers body).2) := by
  obtain ⟨store, metrics⟩ := server
  simp only [receive, deliver]
  cases read : readDelivery packages app headers body with
  | error reason => simp only [ServerState.reject, Metrics.count_rejected metrics (readDelivery_error read)]
  | ok envelope =>
      by_cases persistent : app.repositories = false
      · simp only [if_pos persistent, ServerState.reject, Metrics.count]
      · simp only [if_neg persistent]
        rcases processDelivery packages.toPackages failing store envelope with ⟨stored, reason | outcome⟩
        · rfl
        · by_cases follows : (outcome = .inserted ∨ outcome = .duplicate) ∧ app.queue = true
          · simp only [if_pos follows]
            rcases followUp packages.toPackages failing drawId stored envelope outcome with ⟨final, reason | _⟩
            · rfl
            · exact answer_eq final metrics outcome
          · simp only [if_neg follows]
            exact answer_eq stored metrics outcome

theorem serve_agree (same : server.store = server'.store) :
    (serve packages app queries server call).1.store = (serve packages app queries server' call).1.store ∧
      (call.request.Admitted packages app →
        (serve packages app queries server call).2 = (serve packages app queries server' call).2) := by
  obtain ⟨request, failing, drawId⟩ := call
  cases request with
  | webhook headers body =>
      simp only [serve, receive_eq, same, implies_true, and_self]
  | read headers route => exact ⟨same, fun _ => by simp only [serve, same]⟩
  | reconcile headers repositoryId pullRequestNumber => simp only [serve, same, implies_true, and_self]
  | cancel headers jobId => simp only [serve, same, implies_true, and_self]
  | metrics => exact ⟨same, fun admitted => admitted.elim⟩

/-! ### A run of the server -/

/-- Requests that are not admitted change nothing and learn nothing, wherever they stand in a run. -/
theorem server_noninterference (packages : ServerPackages PasswordHash) (app : AppState) (queries : Queries)
    (server : ServerState) (calls : List Call) :
    let run := serveAll (serve packages app queries) server calls
    let admitted := fun call : Call => decide (call.request.Admitted packages app)
    let foreign := fun call : Call => decide (call.request.Foreign packages app)
    let purged := serveAll (serve packages app queries) server (calls.filter admitted)
    run.1.store = purged.1.store ∧ repliesTo admitted calls run.2 = purged.2 ∧
      repliesTo foreign calls run.2 = (calls.filter foreign).map fun call =>
        call.request.refusal packages app := by
  intro run admitted foreign purged
  have quiet (state : ServerState) (call : Call) (refused : admitted call = false) :
      (serve packages app queries state call).1.store = state.store :=
    serve_quiet (of_decide_eq_false refused)
  have agree (state state' : ServerState) (call : Call) (met : admitted call = true)
      (same : state.store = state'.store) :
      (serve packages app queries state call).1.store = (serve packages app queries state' call).1.store ∧
        (serve packages app queries state call).2 = (serve packages app queries state' call).2 :=
    ⟨(serve_agree same).1, (serve_agree same).2 (of_decide_eq_true met)⟩
  have blind (state : ServerState) (call : Call) (met : foreign call = true) :
      (serve packages app queries state call).2 = call.request.refusal packages app :=
    serve_blind (of_decide_eq_true met)
  obtain ⟨stores, replies⟩ := serveAll_purge _ ServerState.store admitted quiet agree calls rfl
  exact ⟨stores, replies, serveAll_blind _ foreign _ blind calls server⟩

/-! ### The counters -/

/-- The counters of the outcomes. -/
inductive Counter
  | rejected
  | accepted
  | duplicate
  | conflict
  deriving DecidableEq, Repr

def Metrics.read (metrics : Metrics) : Counter → UInt64
  | .rejected => metrics.webhookRejected
  | .accepted => metrics.webhookAccepted
  | .duplicate => metrics.webhookDuplicate
  | .conflict => metrics.webhookConflict

def Reply.isWebhook : Reply → Bool
  | .webhook _ => true
  | _ => false

/-- The webhook failed after it recorded the delivery. -/
def Reply.interrupted : Reply → Bool
  | .webhook (.error (.interrupted _)) => true
  | _ => false

/-- The counter that a reply goes with. -/
def Reply.counter : Reply → Option Counter
  | .webhook (.ok .inserted) => some .accepted
  | .webhook (.ok .duplicate) => some .duplicate
  | .webhook (.ok .conflict) => some .conflict
  | .webhook (.error (.interrupted _)) => none
  | .webhook (.error _) => some .rejected
  | _ => none

def Reply.goesWith (reply : Reply) (counter : Counter) : Bool := reply.counter = some counter

theorem Metrics.count_read (metrics : Metrics) (answer : Except RequestError DeliveryOutcome) (counter : Counter) :
    (metrics.count answer).read counter =
      metrics.read counter + if (Reply.webhook answer).goesWith counter then 1 else 0 := by
  rcases answer with reason | outcome
  · cases reason <;> cases counter <;> simp [Metrics.count, Reply.goesWith, Reply.counter, Metrics.read,
      Metrics.recordWebhookReceived, Metrics.recordWebhookRejected]
  · cases outcome <;> cases counter <;> simp [Metrics.count, Reply.goesWith, Reply.counter, Metrics.read,
      Metrics.recordWebhookReceived, Metrics.recordWebhookAccepted, Metrics.recordWebhookDuplicate,
      Metrics.recordWebhookConflict]

theorem Metrics.count_received (metrics : Metrics) (answer : Except RequestError DeliveryOutcome) :
    (metrics.count answer).webhookReceived = metrics.webhookReceived + 1 := by
  rcases answer with reason | outcome
  · cases reason <;> rfl
  · cases outcome <;> rfl

/-- One request moves the counters by its reply. -/
theorem serve_counts (server : ServerState) (call : Call) :
    (serve packages app queries server call).1.metrics.webhookReceived = server.metrics.webhookReceived +
        (if (serve packages app queries server call).2.isWebhook then 1 else 0) ∧
      ∀ counter, (serve packages app queries server call).1.metrics.read counter = server.metrics.read counter +
        if (serve packages app queries server call).2.goesWith counter then 1 else 0 := by
  obtain ⟨request, failing, drawId⟩ := call
  cases request with
  | webhook headers body =>
      simp only [serve, receive_eq]
      exact ⟨Metrics.count_received _ _, Metrics.count_read _ _⟩
  | read | reconcile | cancel | metrics => simp [serve, Reply.isWebhook, Reply.goesWith, Reply.counter]

theorem countP_isWebhook (replies : List Reply) : replies.countP Reply.isWebhook =
    replies.countP (·.goesWith .rejected) + replies.countP (·.goesWith .accepted) +
      replies.countP (·.goesWith .duplicate) + replies.countP (·.goesWith .conflict) +
        replies.countP Reply.interrupted := by
  induction replies with
  | nil => rfl
  | cons reply rest ih =>
      simp only [List.countP_cons, ih]
      rcases reply with answer | answer | counters
      · rcases answer with reason | outcome
        · cases reason <;> simp [Reply.isWebhook, Reply.goesWith, Reply.counter, Reply.interrupted] <;> omega
        · cases outcome <;> simp [Reply.isWebhook, Reply.goesWith, Reply.counter, Reply.interrupted] <;> omega
      · simp [Reply.isWebhook, Reply.goesWith, Reply.counter, Reply.interrupted]
      · simp [Reply.isWebhook, Reply.goesWith, Reply.counter, Reply.interrupted]

theorem counted_once (start : UInt64) (met : Bool) (count : Nat) :
    start + (if met then 1 else 0) + UInt64.ofNat count =
      start + UInt64.ofNat (count + if met then 1 else 0) := by
  cases met with
  | false => simp
  | true => rw [if_pos rfl, if_pos rfl, UInt64.ofNat_add, UInt64.add_assoc, UInt64.add_comm 1]; rfl

/-- Each counter counts the replies that go with it, and a request that fails after its delivery was
recorded is received and in no other counter. -/
theorem counters_follow_replies (packages : ServerPackages PasswordHash) (app : AppState) (queries : Queries)
    (server : ServerState) (calls : List Call) :
    let final := (serveAll (serve packages app queries) server calls).1
    let replies := (serveAll (serve packages app queries) server calls).2
    final.metrics.webhookReceived =
        server.metrics.webhookReceived + UInt64.ofNat (replies.countP Reply.isWebhook) ∧
      (∀ counter, final.metrics.read counter =
        server.metrics.read counter + UInt64.ofNat (replies.countP (·.goesWith counter))) ∧
      replies.countP Reply.isWebhook =
        replies.countP (·.goesWith .rejected) + replies.countP (·.goesWith .accepted) +
          replies.countP (·.goesWith .duplicate) + replies.countP (·.goesWith .conflict) +
            replies.countP Reply.interrupted := by
  refine ⟨?_, ?_, countP_isWebhook _⟩
  · induction calls generalizing server with
    | nil => simp
    | cons call rest ih =>
        simp only [serveAll_cons, List.countP_cons]
        rw [ih, (serve_counts server call).1, counted_once]
  · intro counter
    induction calls generalizing server with
    | nil => simp
    | cons call rest ih =>
        simp only [serveAll_cons, List.countP_cons]
        rw [ih, (serve_counts server call).2 counter, counted_once]

end Requests

end PiTools.Server
