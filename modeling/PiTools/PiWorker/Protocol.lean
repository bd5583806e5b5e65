import PiTools.Library.Outcome
import PiTools.PiWorker.Redaction
import PiTools.Worker.Pi

/-
This file defines the requests and results of the Pi worker as the worker reads
them, and the checks that the worker makes on both.
-/

namespace PiTools.PiWorker

open Library

def protocolVersion : String := "pitools.pi/v1"

def defaultMaxOutputBytes : Nat := 64 * 1024

/-! ### Schemas -/

/-- The length of a string counts the units of its UTF-16 encoding. -/
def utf16Length (text : String) : Nat :=
  (text.toList.map fun c => if c.toNat < 0x10000 then 1 else 2).sum

def nonEmptyString (value : Json) : Option String := value.asStr.filter fun text => text ≠ ""

def boundedString (least most : Nat) (value : Json) : Option String :=
  value.asStr.filter fun text => least ≤ utf16Length text && utf16Length text ≤ most

def literalString (expected : String) (value : Json) : Option String :=
  value.asStr.filter fun text => text = expected

def arrayOf {Item : Type} (decode : Json → Option Item) (value : Json) : Option (List Item) :=
  value.asArray.bind fun items => items.mapM decode

/-- An object without other keys. -/
def strictObject (keys : List String) : Json → Option Fields
  | .object fields => if fields.all fun field => field.1 ∈ keys then some fields else none
  | _ => none

def required {Value : Type} (decode : Json → Option Value) (fields : Fields) (key : String) :
    Option Value :=
  (getField key fields).bind decode

/-- A missing field is absent. A field with a value has to fit. -/
def optional {Value : Type} (decode : Json → Option Value) (fields : Fields) (key : String) :
    Option (Option Value) :=
  match getField key fields with
  | none => some none
  | some value => (decode value).map some

def maxUnifiedDiffLength : Nat := 128 * 1024

def snapshotFileSchema (value : Json) : Option PiSnapshotFile := do
  let fields ← strictObject ["path", "content"] value
  let path ← required (boundedString 1 1024) fields "path"
  let content ← required (boundedString 0 maxPiSnapshotFileBytes) fields "content"
  pure ⟨path, content⟩

def piPatchSchema (value : Json) : Option CiPatch := do
  let fields ← strictObject ["path", "unifiedDiff"] value
  let path ← required (boundedString 1 1024) fields "path"
  let unifiedDiff ← required (boundedString 1 maxUnifiedDiffLength) fields "unifiedDiff"
  pure ⟨path, unifiedDiff⟩

structure ProtocolRequest where
  protocolVersion : String
  jobId : String
  repository : String
  snapshotPath : String
  snapshotFiles : List PiSnapshotFile
  allowedPaths : List String
  failureEvidence : Option String
  policyRevision : String
  nonce : String
  deriving DecidableEq, Repr

def requestKeys : List String :=
  ["protocolVersion", "jobId", "repository", "snapshotPath", "snapshotFiles", "allowedPaths",
    "failureEvidence", "policyRevision", "nonce"]

def parseRequest (value : Json) : Option ProtocolRequest := do
  let fields ← strictObject requestKeys value
  let version ← required (literalString protocolVersion) fields "protocolVersion"
  let jobId ← required nonEmptyString fields "jobId"
  let repository ← required nonEmptyString fields "repository"
  let snapshotPath ← required nonEmptyString fields "snapshotPath"
  let snapshotFiles ← required (arrayOf snapshotFileSchema) fields "snapshotFiles"
  let allowedPaths ← required (arrayOf nonEmptyString) fields "allowedPaths"
  let failureEvidence ← optional Json.asStr fields "failureEvidence"
  let policyRevision ← required nonEmptyString fields "policyRevision"
  let nonce ← required nonEmptyString fields "nonce"
  pure ⟨version, jobId, repository, snapshotPath, snapshotFiles, allowedPaths, failureEvidence,
    policyRevision, nonce⟩

structure ProtocolResult where
  protocolVersion : String
  jobId : String
  nonce : String
  diagnosis : String
  confidence : Number
  proposedFiles : List String
  proposedPatches : Option (List CiPatch)
  validationCommands : List String
  risks : List String
  requiresApproval : Bool
  metadata : Option Fields

def resultKeys : List String :=
  ["protocolVersion", "jobId", "nonce", "diagnosis", "confidence", "proposedFiles",
    "proposedPatches", "validationCommands", "risks", "requiresApproval", "metadata"]

def unitNumber : Json → Option Number
  | .number value => if Number.inUnitInterval value then some value else none
  | _ => none

def anyRecord : Json → Option Fields
  | .object fields => some fields
  | _ => none

def parseResult (value : Json) : Option ProtocolResult := do
  let fields ← strictObject resultKeys value
  let version ← required (literalString protocolVersion) fields "protocolVersion"
  let jobId ← required nonEmptyString fields "jobId"
  let nonce ← required nonEmptyString fields "nonce"
  let diagnosis ← required Json.asStr fields "diagnosis"
  let confidence ← required unitNumber fields "confidence"
  let proposedFiles ← required (arrayOf nonEmptyString) fields "proposedFiles"
  let proposedPatches ← optional (arrayOf piPatchSchema) fields "proposedPatches"
  let validationCommands ← required (arrayOf nonEmptyString) fields "validationCommands"
  let risks ← required (arrayOf Json.asStr) fields "risks"
  let requiresApproval ← required Json.asBool fields "requiresApproval"
  let metadata ← optional anyRecord fields "metadata"
  pure ⟨version, jobId, nonce, diagnosis, confidence, proposedFiles, proposedPatches,
    validationCommands, risks, requiresApproval, metadata⟩

/-! ### Values -/

def ProtocolRequest.toFields (request : ProtocolRequest) : Fields :=
  [("protocolVersion", .string request.protocolVersion), ("jobId", .string request.jobId),
    ("repository", .string request.repository), ("snapshotPath", .string request.snapshotPath),
    ("snapshotFiles", .array (request.snapshotFiles.map fun file => .object file.toFields)),
    ("allowedPaths", stringsValue request.allowedPaths)] ++
  (request.failureEvidence.map fun evidence => ("failureEvidence", Json.string evidence)).toList ++
  [("policyRevision", .string request.policyRevision), ("nonce", .string request.nonce)]

def ProtocolRequest.toJson (request : ProtocolRequest) : Json := .object request.toFields

def patchesValue (patches : List CiPatch) : Json :=
  .array (patches.map fun patch => .object patch.toFields)

def ProtocolResult.toFields (result : ProtocolResult) : Fields :=
  [("protocolVersion", .string result.protocolVersion), ("jobId", .string result.jobId),
    ("nonce", .string result.nonce), ("diagnosis", .string result.diagnosis),
    ("confidence", .number result.confidence),
    ("proposedFiles", stringsValue result.proposedFiles)] ++
  (result.proposedPatches.map fun patches => ("proposedPatches", patchesValue patches)).toList ++
  [("validationCommands", stringsValue result.validationCommands),
    ("risks", stringsValue result.risks), ("requiresApproval", .bool result.requiresApproval)] ++
  (result.metadata.map fun fields => ("metadata", Json.object fields)).toList

def ProtocolResult.toJson (result : ProtocolResult) : Json := .object result.toFields

/-! ### Paths -/

/-- The segments that are left after `.` and `..` are resolved, from the last one on. -/
def normalizeSegments : List (List Char) → List (List Char) → List (List Char)
  | resolved, [] => resolved
  | resolved, segment :: rest =>
      if segment = [] ∨ segment = ['.'] then normalizeSegments resolved rest
      else if segment = ['.', '.'] then
        match resolved with
        | last :: earlier =>
            if last = ['.', '.'] then normalizeSegments (segment :: resolved) rest
            else normalizeSegments earlier rest
        | [] => normalizeSegments [segment] rest
      else normalizeSegments (segment :: resolved) rest

/-- The function `posix.normalize` on a relative path. -/
def posixNormalize (path : List Char) : List Char :=
  let joined := ['/'].intercalate (normalizeSegments [] (path.splitOn '/')).reverse
  let trailing := path.getLast? = some '/'
  if joined = [] then (if trailing then ['.', '/'] else ['.'])
  else if trailing then joined ++ ['/'] else joined

/-- The function `win32.isAbsolute`. -/
def win32IsAbsolute : List Char → Bool
  | drive :: colon :: separator :: _ =>
      drive = '/' || drive = '\x5c' ||
        (drive.isAlpha && colon = ':' && (separator = '/' || separator = '\x5c'))
  | first :: _ => first = '/' || first = '\x5c'
  | [] => false

def assertCanonicalRepositoryPath (candidate : String) : Except String Unit :=
  let path := candidate.toList
  ensure (¬ (path = [] ∨ '\x00' ∈ path ∨ '\x5c' ∈ path ∨ isAbsolute path = true ∨
      win32IsAbsolute path = true ∨ posixNormalize path ≠ path ∨
      (path.splitOn '/').any (fun segment =>
        segment = [] || segment = ['.'] || segment = ['.', '.']) = true))
    ("PiTools path is not a canonical repository-relative path: " ++ candidate)

def assertProposedPaths (allowedPaths : List String) : List String → Except String Unit
  | [] => .ok ()
  | path :: rest => do
      assertCanonicalRepositoryPath path
      ensure (path ∈ allowedPaths) ("PiTools result contains a path outside the allowlist: " ++ path)
      assertProposedPaths allowedPaths rest

def assertCanonicalPaths : List String → Except String Unit
  | [] => .ok ()
  | path :: rest => do
      assertCanonicalRepositoryPath path
      assertCanonicalPaths rest

def assertAllowedPaths (proposedPaths allowedPaths : List String) : Except String Unit := do
  assertCanonicalPaths allowedPaths
  assertProposedPaths allowedPaths proposedPaths

/-! ### Validation -/

def maxSafeInteger : Nat := 2 ^ 53 - 1

def assertOutputSize (value : Json) (maxOutputBytes : Nat) : Except String Unit := do
  ensure (1 ≤ maxOutputBytes ∧ maxOutputBytes ≤ maxSafeInteger)
    "PiTools output limit must be a positive safe integer"
  ensure (byteLength value.text ≤ maxOutputBytes)
    ("PiTools result exceeds the " ++ toString maxOutputBytes ++ " byte limit")

/-- The loop over the snapshot carries the paths that it has seen and their bytes. -/
def validateSnapshotFiles (allowedPaths : List String) :
    List String → Nat → List PiSnapshotFile → Except String Unit
  | _, _, [] => .ok ()
  | paths, snapshotBytes, file :: rest => do
      assertCanonicalRepositoryPath file.path
      assertAllowedPaths [file.path] allowedPaths
      ensure (file.path ∉ paths) "PiTools snapshot contains duplicate paths"
      ensure (snapshotBytes + file.content.utf8ByteSize ≤ maxPiSnapshotBytes)
        "PiTools snapshot exceeds its byte limit"
      validateSnapshotFiles allowedPaths (file.path :: paths)
        (snapshotBytes + file.content.utf8ByteSize) rest

def validateProtocolRequest (value : Json) : Except String ProtocolRequest := do
  let request ← okOr (parseRequest value) "invalid PiTools request"
  assertOutputSize request.toJson maxPiInputBytes
  assertCanonicalRepositoryPath request.snapshotPath
  assertAllowedPaths [] request.allowedPaths
  ensure (request.snapshotFiles.length ≤ maxPiSnapshotFiles)
    "PiTools snapshot contains too many files"
  validateSnapshotFiles request.allowedPaths [] 0 request.snapshotFiles
  ensure ((redactSecrets request.toJson).text = request.toJson.text)
    "PiTools request contains secret-like material"
  pure request

def validateProtocolResult (value : Json) (request : ProtocolRequest) (maxOutputBytes : Nat) :
    Except String ProtocolResult := do
  assertOutputSize value maxOutputBytes
  let result ← okOr (parseResult value) "invalid PiTools result"
  ensure (result.protocolVersion = request.protocolVersion ∧ result.jobId = request.jobId ∧
    result.nonce = request.nonce) "PiTools result is not bound to the request"
  ensure (¬ (result.proposedPatches.getD [] ≠ [] ∧ result.requiresApproval = false))
    "PiTools typed patches must require explicit approval"
  assertAllowedPaths result.proposedFiles request.allowedPaths
  assertAllowedPaths ((result.proposedPatches.getD []).map fun patch => patch.path)
    request.allowedPaths
  let redacted ← okOr (parseResult (redactSecrets result.toJson)) "invalid PiTools result"
  assertOutputSize redacted.toJson maxOutputBytes
  pure redacted

end PiTools.PiWorker
