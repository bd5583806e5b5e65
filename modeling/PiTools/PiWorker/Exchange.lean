import PiTools.Library.JsonRead
import PiTools.PiWorker.Protocol
import PiTools.PiWorker.Session

/-
This file follows a request from the control plane through the message server
to the Pi worker and back, and shows that the transport does not show.
-/

namespace PiTools.PiWorker

open Library

/-! ### The worker -/

/-- The text of an error that the worker throws. -/
def thrown {Answer : Type} (outcome : Except String Answer) : Except String Answer :=
  outcome.mapError ("Error: " ++ ·)

/-- The runtime answers a request with a value or rejects it with an error text. -/
abbrev PiRuntime : Type := ProtocolRequest → Except String Json

def executePiJob (runtime : PiRuntime) (value : Json) : Except String ProtocolResult := do
  let request ← thrown (validateProtocolRequest value)
  let result ← runtime request
  thrown (validateProtocolResult result request defaultMaxOutputBytes)

def errorValue (text : String) : Json := .object [("error", .string (redactString text))]

def outcomeValue : Except String ProtocolResult → Json
  | .ok result => result.toJson
  | .error text => errorValue text

/-- One line of input, where the parameter gives the error texts of `JSON.parse`. -/
def processLine (syntaxError : List Char → String) (runtime : PiRuntime) (line : List Char) : List Char :=
  match parseJson line with
  | none => (errorValue (syntaxError line)).text
  | some value => (outcomeValue (executePiJob runtime value)).text

/-- The runtime that proposes nothing. -/
def diagnosisOnly (request : ProtocolRequest) : Except String Json :=
  .ok (.object [("protocolVersion", .string request.protocolVersion), ("jobId", .string request.jobId),
    ("nonce", .string request.nonce),
    ("diagnosis", .string (request.failureEvidence.getD "No failure evidence supplied")),
    ("confidence", .number (.int 0)), ("proposedFiles", .array []), ("proposedPatches", .array []),
    ("validationCommands", .array []),
    ("risks", .array [.string "No Pi workflow was selected; no mutation is proposed"]),
    ("requiresApproval", .bool true)])

/-! ### The control plane -/

def maxPiOutputBytes : Nat := 64 * 1024

def requestPayload (request : PiJobRequest) : List UInt8 := encodeUtf8 (Json.object request.toFields).text

/-- The reply to a request, where the parameter is the reader of results. -/
def readReply (fromSlice : List UInt8 → Except String PiJobResult) (payload : List UInt8) : PiReply :=
  if maxPiOutputBytes < payload.length then .oversized
  else
    match fromSlice payload with
    | .error reason => .unreadable reason
    | .ok parsed => .parsed parsed

def valueReply (fromValue : Json → Except String PiJobResult) (value : Json) : PiReply :=
  match fromValue value with
  | .error reason => .unreadable reason
  | .ok parsed => .parsed parsed

/-- The reply without a transport. Only an error can be too large. -/
def directReply (fromValue : Json → Except String PiJobResult) : Except String ProtocolResult → PiReply
  | .ok result => valueReply fromValue result.toJson
  | .error text =>
      if maxPiOutputBytes < byteLength (errorValue text).text then .oversized
      else valueReply fromValue (errorValue text)

/-- The results come from the worker's own function. -/
def SessionEvent.Computed (syntaxError : List Char → String) : SessionEvent → Prop
  | .arrives _ => True
  | .resolves request result => ∃ runtime, result = processLine syntaxError runtime request.line

section Exchange

variable {fromSlice : List UInt8 → Except String PiJobResult} {fromValue : Json → Except String PiJobResult}

@[simp] theorem thrown_eq_ok {Answer : Type} {outcome : Except String Answer} {answer : Answer} :
    thrown outcome = .ok answer ↔ outcome = .ok answer := by
  cases outcome <;> simp [thrown, Except.mapError]

/-- A result that the worker accepts fits the limit of the control plane. -/
theorem executePiJob_bounded {runtime : PiRuntime} {value : Json} {result : ProtocolResult}
    (accepted : executePiJob runtime value = .ok result) : byteLength result.toJson.text ≤ maxPiOutputBytes := by
  simp only [executePiJob, bind_eq_ok, thrown_eq_ok] at accepted
  obtain ⟨request, _, answer, _, checked⟩ := accepted
  simp only [validateProtocolResult, assertOutputSize, bind_eq_ok, ensure_eq_ok, pure_eq_ok] at checked
  obtain ⟨_, _, _, _, _, _, _, _, _, _, _, _, redacted, _, _, ⟨_, _, fits⟩, rfl⟩ := checked
  exact fits

theorem readReply_outcome (serde : ∀ value : Json, fromSlice (encodeUtf8 value.text) = fromValue value)
    (runtime : PiRuntime) (value : Json) :
    readReply fromSlice (encodeUtf8 (outcomeValue (executePiJob runtime value)).text) =
      directReply fromValue (executePiJob runtime value) := by
  rw [readReply, length_encodeUtf8, serde]
  cases outcome : executePiJob runtime value with
  | ok result =>
      rw [outcomeValue, if_neg (Nat.not_lt.mpr (executePiJob_bounded outcome))]
      rfl
  | error text => rfl

theorem processLine_payload (syntaxError : List Char → String) (runtime : PiRuntime) (value : Json) :
    processLine syntaxError runtime (decodeUtf8 (encodeUtf8 value.text)) =
      (outcomeValue (executePiJob runtime value)).text := by
  rw [decodeUtf8_encodeUtf8, processLine, parseJson_text]

end Exchange

/-- The frame answers on the subject. -/
def ClientFrame.answers (reply : List Char) : ClientFrame → Bool
  | .lines _ => false
  | .pub subject _ => subject = reply

theorem countP_answers (sent : List ClientFrame) (reply : List Char) :
    sent.countP (ClientFrame.answers reply) =
      (sent.filterMap ClientFrame.publication).countP fun publication => publication.1 = reply := by
  induction sent with
  | nil => rfl
  | cons frame sent ih =>
      cases frame with
      | lines text => simpa [List.filterMap_cons, ClientFrame.publication, ClientFrame.answers] using ih
      | pub subject result =>
          simp [ClientFrame.publication, ClientFrame.answers, List.countP_cons, ih]

/-- Requests with subjects of their own are answered once, each with what the worker computes for it. -/
theorem Answered.own {connection : Connection} {done : List ServerFrame} {events : List SessionEvent}
    {final : Session} {sent : List ClientFrame} (answered : Answered connection done events final sent)
    (distinct : ((done.filterMap ServerFrame.request).map PendingRequest.reply).Nodup) {request : PendingRequest}
    (asked : request ∈ done.filterMap ServerFrame.request) :
    sent.countP (ClientFrame.answers request.reply) ≤ 1 ∧
      (∀ result, .pub request.reply result ∈ sent → .resolves request result ∈ events) ∧
        (request ∉ final.pending → ∃ result, .pub request.reply result ∈ sent) := by
  have apart : ((final.pending ++ (events.filterMap SessionEvent.answer).map Prod.fst).map PendingRequest.reply).Nodup :=
    (answered.once.map _).nodup_iff.mpr distinct
  refine ⟨?_, fun result published => ?_, fun settled => ?_⟩
  · have replies : ((events.filterMap SessionEvent.answer).map fun answer => answer.1.reply).Nodup := by
      rw [List.map_append, List.map_map] at apart
      exact apart.of_append_right
    rw [countP_answers, answered.publications, List.countP_map]
    have counted := List.nodup_iff_count_le_one.mp replies request.reply
    rw [List.count, List.countP_map] at counted
    refine Nat.le_trans (Nat.le_of_eq (List.countP_congr fun answer _ => ?_)) counted
    simp
  · have inside : (request.reply, result) ∈ sent.filterMap ClientFrame.publication :=
      List.mem_filterMap.mpr ⟨_, published, rfl⟩
    rw [answered.publications] at inside
    obtain ⟨⟨other, text⟩, member, same⟩ := List.mem_map.mp inside
    obtain ⟨replies, rfl⟩ := Prod.mk.inj same
    have known : other ∈ done.filterMap ServerFrame.request :=
      answered.once.subset (List.mem_append_right _ (List.mem_map_of_mem member))
    obtain rfl := List.inj_on_of_nodup_map distinct known asked replies
    obtain ⟨event, happened, answer⟩ := List.mem_filterMap.mp member
    cases event with
    | arrives chunk => cases answer
    | resolves request result =>
        cases answer
        exact happened
  · have known := answered.once.symm.subset asked
    rcases List.mem_append.mp known with waiting | found
    · exact absurd waiting settled
    · obtain ⟨⟨request, result⟩, member, rfl⟩ := List.mem_map.mp found
      have inside : (request.reply, result) ∈ sent.filterMap ClientFrame.publication :=
        answered.publications ▸ List.mem_map.mpr ⟨_, member, rfl⟩
      obtain ⟨frame, isSent, same⟩ := List.mem_filterMap.mp inside
      cases frame with
      | lines text => cases same
      | pub subject text =>
          cases same
          exact ⟨result, isSent⟩

/-- What a reader of the worker's bytes finds under the subject of a request is, once, the reply that the worker's
function gives without any transport. -/
theorem pi_exchange (connection : Connection) {syntaxError : List Char → String}
    {fromSlice : List UInt8 → Except String PiJobResult} {fromValue : Json → Except String PiJobResult}
    (serde : ∀ value : Json, fromSlice (encodeUtf8 value.text) = fromValue value)
    {frames : List ServerFrame} (formed : ∀ frame ∈ frames, frame.Formed)
    (distinct : ((frames.filterMap ServerFrame.request).map PendingRequest.reply).Nodup)
    {events : List SessionEvent} {final : Session} (run : Run (Session.Step connection) {} events final)
    (computed : ∀ event ∈ events, event.Computed syntaxError)
    (stream : (events.filterMap SessionEvent.chunk).flatten = frames.flatMap ServerFrame.encode)
    {received : List ClientFrame} (reading : ∀ frame ∈ received, frame.Formed connection)
    (read : received.flatMap ClientFrame.encode = final.written)
    {subject sid target : List UInt8} {request : PiJobRequest}
    (asked : .msg subject sid (some target) (requestPayload request) ∈ frames) :
    received.countP (ClientFrame.answers (decodeUtf8 target)) ≤ 1 ∧
      (∀ result, .pub (decodeUtf8 target) result ∈ received → ∃ runtime,
        executePi request (readReply fromSlice (encodeUtf8 result)) =
          executePi request (directReply fromValue (executePiJob runtime (.object request.toFields)))) ∧
        ((∀ waiting ∈ final.pending, waiting.reply ≠ decodeUtf8 target) →
          ∃ result, .pub (decodeUtf8 target) result ∈ received) := by
  have effects : (connection.pushAll (events.filterMap SessionEvent.chunk)).effects =
      frames.flatMap (ServerFrame.effects connection) :=
    congrArg Drained.effects ((turn_framing connection).pushAll_whole (fun frame _ => frame.encode_ne_nil) formed
      false stream)
  obtain ⟨sent, answered⟩ := answered_of_read formed run effects
  obtain rfl := answered.unique received reading read
  have known : ⟨decodeUtf8 (requestPayload request), decodeUtf8 target⟩ ∈ frames.filterMap ServerFrame.request :=
    List.mem_filterMap.mpr ⟨_, asked, rfl⟩
  obtain ⟨atMostOnce, origin, settled⟩ := answered.own distinct known
  refine ⟨atMostOnce, fun result published => ?_, fun idle => settled fun waiting => idle _ waiting rfl⟩
  obtain ⟨runtime, same⟩ := computed _ (origin result published)
  refine ⟨runtime, ?_⟩
  rw [same, requestPayload, processLine_payload, readReply_outcome serde]

/-! ### A diagnosis -/

def diagnosisRequest : PiJobRequest where
  protocolVersion := protocolVersion
  jobId := 7
  repository := "octo/app"
  snapshotPath := "snapshots/7"
  snapshotFiles := []
  allowedPaths := ["src/main.rs"]
  failureEvidence := some "one test failed"
  policyRevision := "r1"
  nonce := "n1"

def diagnosisFrames : List ServerFrame :=
  [.info (asciiBytes ['\x7b', '\x7d']), .msg [112] [49] (some [95, 55]) (requestPayload diagnosisRequest)]

def diagnosisAnswer : List Char :=
  processLine (fun _ => "SyntaxError") diagnosisOnly (decodeUtf8 (requestPayload diagnosisRequest))

def diagnosisEvents : List SessionEvent :=
  [.arrives (diagnosisFrames.flatMap ServerFrame.encode),
    .resolves ⟨decodeUtf8 (requestPayload diagnosisRequest), ['_', '7']⟩ diagnosisAnswer]

def uuidOf (text : String) : Option Uuid :=
  (text.toList.filter fun c => c ≠ '-').foldlM (fun id c => (hexValue c).map (16 * id + ·)) 0

/-- A reader of results, which reads what the worker writes. -/
def resultOf (value : Json) : Except String PiJobResult := do
  let result ← okOr (parseResult value) "invalid result"
  let jobId ← okOr (uuidOf result.jobId) "invalid identifier"
  pure {
    protocolVersion := result.protocolVersion
    jobId
    nonce := result.nonce
    diagnosis := result.diagnosis
    confidence := result.confidence
    proposedFiles := result.proposedFiles
    proposedPatches := result.proposedPatches.getD []
    validationCommands := result.validationCommands
    risks := result.risks
    requiresApproval := result.requiresApproval
    metadata := result.metadata.map .object }

def resultOfSlice (payload : List UInt8) : Except String PiJobResult :=
  match parseJson (decodeUtf8 payload) with
  | none => .error "invalid JSON"
  | some value => resultOf value

theorem resultOfSlice_text (value : Json) : resultOfSlice (encodeUtf8 value.text) = resultOf value := by
  rw [resultOfSlice, decodeUtf8_encodeUtf8, parseJson_text]

theorem diagnosisFrames_formed : ∀ frame ∈ diagnosisFrames, frame.Formed := by
  have options : ¬ lineBreak <:+: asciiBytes ['\x7b', '\x7d'] := by decide
  have replies : ∀ reply ∈ some [(95 : UInt8), 55], Token reply := by
    intro reply same
    cases same
    decide +kernel
  have size : (requestPayload diagnosisRequest).length ≤ maxMessageBytes := by
    rw [requestPayload, length_encodeUtf8]
    decide +kernel
  simp only [diagnosisFrames, List.forall_mem_cons, List.not_mem_nil, false_implies, implies_true, and_true]
  exact ⟨options, by decide +kernel, by decide +kernel, replies, size⟩

theorem pi_exchange_diagnosis : ∃ (final : Session) (received : List ClientFrame),
    received.countP (ClientFrame.answers (decodeUtf8 [95, 55])) ≤ 1 ∧
      (∀ result, .pub (decodeUtf8 [95, 55]) result ∈ received → ∃ runtime,
        executePi diagnosisRequest (readReply resultOfSlice (encodeUtf8 result)) =
          executePi diagnosisRequest (directReply resultOf
            (executePiJob runtime (.object diagnosisRequest.toFields)))) ∧
        ((∀ waiting ∈ final.pending, waiting.reply ≠ decodeUtf8 [95, 55]) →
          ∃ result, .pub (decodeUtf8 [95, 55]) result ∈ received) := by
  obtain ⟨alive, pending, written⟩ := exampleConnection.push_frames diagnosisFrames_formed
  have arrived : Run (Session.Step exampleConnection) {} [.arrives (diagnosisFrames.flatMap ServerFrame.encode)]
      (exampleConnection.push {} (diagnosisFrames.flatMap ServerFrame.encode)) := .single (.arrived _ rfl)
  have subject : decodeUtf8 [95, 55] = ['_', '7'] := by decide
  have waiting : diagnosisFrames.filterMap ServerFrame.request =
      [⟨decodeUtf8 (requestPayload diagnosisRequest), ['_', '7']⟩] := by
    rw [← subject]
    rfl
  have run := arrived.snoc (.resolved ⟨decodeUtf8 (requestPayload diagnosisRequest), ['_', '7']⟩ diagnosisAnswer [] []
    (pending.trans waiting))
  have answered : Session.written _ = _ :=
    congrArg Session.written (@Session.publish_alive { exampleConnection.push {}
      (diagnosisFrames.flatMap ServerFrame.encode) with pending := [] } alive ['_', '7'] diagnosisAnswer)
  refine ⟨_, [.lines (exampleConnection.connectText true), .pub ['_', '7'] diagnosisAnswer],
    @pi_exchange exampleConnection (fun _ => "SyntaxError") _ _ resultOfSlice_text _ diagnosisFrames_formed ?_ _ _ run
      ?_ ?_ _ ?_ ?_ [112] [49] [95, 55] diagnosisRequest ?_⟩
  · rw [waiting]
    exact List.nodup_singleton _
  · simp only [List.singleton_append, List.forall_mem_cons, List.not_mem_nil, false_implies, implies_true, and_true]
    exact ⟨trivial, diagnosisOnly, rfl⟩
  · exact List.flatten_singleton
  · simp only [List.forall_mem_cons, List.not_mem_nil, false_implies, implies_true, and_true]
    have clean : ∀ c ∈ ['_', '7'], c ≠ ' ' ∧ c ≠ '\r' ∧ c ≠ '\n' := by decide
    exact ⟨.inl rfl, clean⟩
  · have blocks : diagnosisFrames.filterMap (ServerFrame.block exampleConnection) =
        [exampleConnection.connectText true] := rfl
    refine Eq.trans ?_ answered.symm
    change _ = (exampleConnection.push {} (diagnosisFrames.flatMap ServerFrame.encode)).written ++ _
    rw [written, blocks, List.flatMap_cons, List.flatMap_singleton, List.flatMap_singleton]
    rfl
  · exact List.mem_cons_of_mem _ List.mem_cons_self

end PiTools.PiWorker
