import Mathlib.Algebra.GroupWithZero.Nat
import PiTools.Library.Text
import PiTools.Queue.Job

/-
This file defines the requests to the Pi worker, its results and the checks on
both.
-/

namespace PiTools

open Library

structure CiPatch where
  path : String
  unifiedDiff : String
  deriving DecidableEq, Repr

inductive CiError
  | approvalRequired
  | noPatches
  | tooManyPatches
  | pathNotAllowed (path : String)
  | invalidPatch (path : String)
  deriving DecidableEq, Repr

def CiError.text : CiError → String
  | .approvalRequired => "typed CI mutations require explicit approval"
  | .noPatches => "CI repair did not contain a patch"
  | .tooManyPatches => "CI repair contained too many patches"
  | .pathNotAllowed path => "CI repair proposed a path outside the allowlist: " ++ path
  | .invalidPatch path => "CI repair patch is invalid for path: " ++ path

def maxCiPatchBytes : Nat := 128 * 1024

def maxCiPatches : Nat := 32

/-! ### Patch sets -/

def validateRepositoryPath (path : String) : Except CiError Unit :=
  if path = "" || path.toList.any (fun c => c ∈ ['\x5c', '\x00', '\r', '\n']) ||
      isAbsolute path.toList || !(components path.toList).all PathComponent.isNormal then
    .error (.invalidPatch path)
  else .ok ()

/-- The diff has one header for each side of the path and at least one hunk. -/
def patchHeadersFit (patch : CiPatch) : Bool :=
  let diffLines := lines patch.unifiedDiff.toList
  let oldHeader := ("--- a/" ++ patch.path).toList
  let newHeader := ("+++ b/" ++ patch.path).toList
  diffLines.count oldHeader = 1 && diffLines.count newHeader = 1 &&
    (diffLines.countP fun line =>
      "--- ".toList.isPrefixOf line || "+++ ".toList.isPrefixOf line) = 2 &&
    diffLines.any "@@".toList.isPrefixOf

def validatePatch (allowedPaths : List String) (patch : CiPatch) : Except CiError Unit :=
  match validateRepositoryPath patch.path with
  | .error reason => .error reason
  | .ok () =>
      if patch.path ∉ allowedPaths then .error (.pathNotAllowed patch.path)
      else if patch.unifiedDiff = "" || maxCiPatchBytes < patch.unifiedDiff.utf8ByteSize ||
          patch.unifiedDiff.toList.any (fun c => c ∈ ['\x00', '\r']) then
        .error (.invalidPatch patch.path)
      else if !patchHeadersFit patch then .error (.invalidPatch patch.path)
      else .ok ()

def validatePatches (allowedPaths : List String) : List CiPatch → Except CiError Unit
  | [] => .ok ()
  | patch :: rest =>
      match validatePatch allowedPaths patch with
      | .error reason => .error reason
      | .ok () => validatePatches allowedPaths rest

def validatePatchSet (patches : List CiPatch) (allowedPaths : List String) : Except CiError Unit :=
  if patches = [] then .error .noPatches
  else if maxCiPatches < patches.length then .error .tooManyPatches
  else validatePatches allowedPaths patches

/-! ### Requests and results -/

structure PiSnapshotFile where
  path : String
  content : String
  deriving DecidableEq, Repr

structure PiJobRequest where
  protocolVersion : String
  jobId : Uuid
  repository : String
  snapshotPath : String
  snapshotFiles : List PiSnapshotFile
  allowedPaths : List String
  failureEvidence : Option String
  policyRevision : String
  nonce : String
  deriving DecidableEq, Repr

structure PiJobResult where
  protocolVersion : String
  jobId : Uuid
  nonce : String
  diagnosis : String
  confidence : Number
  proposedFiles : List String
  proposedPatches : List CiPatch
  validationCommands : List String
  risks : List String
  requiresApproval : Bool
  metadata : Option Json
  deriving DecidableEq, Repr

inductive PiError
  | inputTooLarge
  | outputTooLarge
  | timedOut
  | invalidResult (reason : String)
  | bindingMismatch
  | approvalRequired
  | pathNotAllowed
  | secretLikeOutput
  | secretLikeInput
  | invalidRequest
  | invalidPath (path : String)
  | workerFailed (reason : String)
  deriving DecidableEq, Repr

def PiError.text : PiError → String
  | .inputTooLarge => "Pi worker input is too large"
  | .outputTooLarge => "Pi worker output is too large"
  | .timedOut => "Pi worker timed out"
  | .invalidResult reason => "Pi worker returned invalid JSON: " ++ reason
  | .bindingMismatch => "Pi worker result was not bound to its request"
  | .approvalRequired => "Pi worker typed patches require explicit approval"
  | .pathNotAllowed => "Pi worker proposed a path outside the request allowlist"
  | .secretLikeOutput => "Pi worker output contained secret-like material"
  | .secretLikeInput => "Pi worker input contained secret-like material"
  | .invalidRequest => "Pi worker request is invalid"
  | .invalidPath path => "Pi worker path is invalid: " ++ path
  | .workerFailed reason => "Pi worker failed: " ++ reason

def maxPiInputBytes : Nat := 256 * 1024

def maxPiSnapshotFiles : Nat := 16

def maxPiSnapshotFileBytes : Nat := 16 * 1024

def maxPiSnapshotBytes : Nat := 48 * 1024

/-! ### Secrets -/

def looksLikeJwt (value : List Char) : Bool :=
  match value.splitOn '.' with
  | [header, payload, signature] =>
      "eyj".toList.isPrefixOf header && 8 ≤ byteLength header && 8 ≤ byteLength payload &&
        8 ≤ byteLength signature
  | _ => false

def secretMarkers : List String :=
  ["github_pat_", "ghp_", "ghs_", "gho_", "ghu_", "ghr_", "sk-proj-", "-----begin private key",
    "bearer ", "npm_", "akia", "token=", "token:", "password=", "password:", "secret=", "secret:",
    "private_key=", "private-key=", "api_key=", "api-key="]

def containsSecretLike (value : List Char) : Bool :=
  let normalized := asciiLowercase value
  secretMarkers.any (fun marker => containsText marker.toList normalized) ||
    (splitWhitespace normalized).any looksLikeJwt

/-! ### Serialization -/

def hexDigits (width value : Nat) : List Char :=
  let digits := Nat.toDigits 16 value
  List.replicate (width - digits.length) '0' ++ digits

/-- The hyphenated text of an identifier. -/
def uuidText (id : Uuid) : String :=
  let digits := hexDigits 32 id
  String.ofList (digits.take 8 ++ '-' :: ((digits.drop 8).take 4 ++ '-' :: ((digits.drop 12).take 4
    ++ '-' :: ((digits.drop 16).take 4 ++ '-' :: digits.drop 20))))

/-- The characters of a hexadecimal number with dashes. -/
def hexDashes : List Char := "0123456789abcdef-".toList

theorem hexDigits_hexDashes (width value : Nat) : ∀ c ∈ hexDigits width value, c ∈ hexDashes := by
  have digit : ∀ d < 16, Nat.digitChar d ∈ hexDashes := by decide
  have digits : ∀ value, ∀ c ∈ Nat.toDigits 16 value, c ∈ hexDashes := by
    intro value
    induction value using Nat.strong_induction_on with
    | _ value ih =>
        rw [Nat.toDigits_eq_if (by decide)]
        split
        · rename_i small
          simpa using digit value small
        · intro c member
          rcases List.mem_append.mp member with earlier | last
          · exact ih (value / 16) (by omega) c earlier
          · rw [List.mem_singleton.mp last]
            exact digit _ (Nat.mod_lt _ (by decide))
  intro c member
  rcases List.mem_append.mp member with zero | later
  · rw [List.eq_of_mem_replicate zero]
    decide
  · exact digits value c later

theorem uuidText_hexDashes (id : Uuid) : ∀ c ∈ (uuidText id).toList, c ∈ hexDashes := by
  intro c member
  have digits := hexDigits_hexDashes 32 id
  rw [uuidText, String.toList_ofList] at member
  simp only [List.mem_append, List.mem_cons] at member
  rcases member with first | rfl | second | rfl | third | rfl | fourth | rfl | last
  · exact digits c (List.mem_of_mem_take first)
  · decide
  · exact digits c (List.mem_of_mem_drop (List.mem_of_mem_take second))
  · decide
  · exact digits c (List.mem_of_mem_drop (List.mem_of_mem_take third))
  · decide
  · exact digits c (List.mem_of_mem_drop (List.mem_of_mem_take fourth))
  · decide
  · exact digits c (List.mem_of_mem_drop last)

theorem uuidText_ne_empty (id : Uuid) : uuidText id ≠ "" := by
  rw [Ne, ← String.toList_eq_nil_iff, uuidText, String.toList_ofList]
  simp

/-- An identifier of 128 bits has 32 digits and four dashes. -/
theorem uuidText_length {id : Uuid} (bits : id < 2 ^ 128) : (uuidText id).toList.length = 36 := by
  have short : (Nat.toDigits 16 id).length ≤ 32 :=
    (Nat.length_toDigits_le_iff (by decide) (by decide)).mpr bits
  have digits : (hexDigits 32 id).length = 32 := by
    rw [hexDigits, List.length_append, List.length_replicate]
    omega
  rw [uuidText, String.toList_ofList]
  simp only [List.length_append, List.length_cons, List.length_take, List.length_drop, digits]
  omega

def stringsValue (texts : List String) : Json := .array (texts.map .string)

/-- The fields of a patch in the order of their declaration. -/
def CiPatch.toFields (patch : CiPatch) : Fields :=
  [("path", .string patch.path), ("unifiedDiff", .string patch.unifiedDiff)]

def PiSnapshotFile.toFields (file : PiSnapshotFile) : Fields :=
  [("path", .string file.path), ("content", .string file.content)]

def PiJobRequest.toFields (request : PiJobRequest) : Fields :=
  [("protocolVersion", .string request.protocolVersion),
    ("jobId", .string (uuidText request.jobId)),
    ("repository", .string request.repository),
    ("snapshotPath", .string request.snapshotPath),
    ("snapshotFiles", .array (request.snapshotFiles.map fun file => .object file.toFields)),
    ("allowedPaths", stringsValue request.allowedPaths),
    ("failureEvidence", (request.failureEvidence.map Json.string).getD .null),
    ("policyRevision", .string request.policyRevision),
    ("nonce", .string request.nonce)]

/-- An empty list of patches is left out. -/
def PiJobResult.toFields (result : PiJobResult) : Fields :=
  [("protocolVersion", .string result.protocolVersion),
    ("jobId", .string (uuidText result.jobId)),
    ("nonce", .string result.nonce),
    ("diagnosis", .string result.diagnosis),
    ("confidence", .number result.confidence),
    ("proposedFiles", stringsValue result.proposedFiles)] ++
  (if result.proposedPatches = [] then []
    else [("proposedPatches", .array (result.proposedPatches.map fun patch => .object patch.toFields))]) ++
  [("validationCommands", stringsValue result.validationCommands),
    ("risks", stringsValue result.risks),
    ("requiresApproval", .bool result.requiresApproval),
    ("metadata", result.metadata.getD .null)]

/-- The value of a record holds its fields in the order of their keys. -/
def sortedObject (fields : Fields) : Json :=
  .object (fields.foldl (fun sorted field => insertField field.1 field.2 sorted) [])

/-- The order of insertion does not matter for the value of a key that is inserted once. -/
theorem getField_sortedFields (key : String) (fields sorted : Fields) :
    getField key (fields.foldl (fun sorted field => insertField field.1 field.2 sorted) sorted) =
      (getField key fields.reverse).or (getField key sorted) := by
  induction fields using List.reverseRecOn with
  | nil => rfl
  | append_singleton fields field ih =>
      rw [List.foldl_append, List.foldl_cons, List.foldl_nil, getField_insertField, ih,
        List.reverse_append, List.reverse_singleton, List.singleton_append, getField_cons]
      split <;> rfl

theorem get_sortedObject (key : String) (fields : Fields) :
    (sortedObject fields).get key = getField key fields.reverse := by
  rw [sortedObject, Json.get_object, getField_sortedFields, getField_nil, Option.or_none]

def PiJobResult.toValue (result : PiJobResult) : Json := sortedObject result.toFields

/-! ### Checks -/

def validateRelativePath (value : String) : Except PiError Unit :=
  if value = "" || isAbsolute value.toList || '\x5c' ∈ value.toList ||
      !(components value.toList).all PathComponent.isNormal then
    .error (.invalidPath value)
  else .ok ()

def validateRelativePaths : List String → Except PiError Unit
  | [] => .ok ()
  | path :: rest =>
      match validateRelativePath path with
      | .error reason => .error reason
      | .ok () => validateRelativePaths rest

theorem validateRelativePaths_ok {paths : List String} :
    validateRelativePaths paths = .ok () ↔ ∀ path ∈ paths, validateRelativePath path = .ok () := by
  induction paths with
  | nil => simp [validateRelativePaths]
  | cons path rest ih =>
      rw [validateRelativePaths, List.forall_mem_cons, ← ih]
      cases validateRelativePath path <;> simp

/-- The loop over the snapshot carries the paths that it has seen and their bytes. -/
def validateSnapshotFiles (allowedPaths : List String) :
    List String → Nat → List PiSnapshotFile → Except PiError Unit
  | _, _, [] => .ok ()
  | seen, bytes, file :: rest =>
      match validateRelativePath file.path with
      | .error reason => .error reason
      | .ok () =>
          if file.path ∉ allowedPaths ∨ file.path ∈ seen then .error .pathNotAllowed
          else if maxPiSnapshotFileBytes < file.content.utf8ByteSize then .error .inputTooLarge
          else if maxPiSnapshotBytes < bytes + file.content.utf8ByteSize then
            .error .inputTooLarge
          else if containsSecretLike file.content.toList then .error .secretLikeInput
          else validateSnapshotFiles allowedPaths (file.path :: seen)
            (bytes + file.content.utf8ByteSize) rest

def PiJobRequest.validate (request : PiJobRequest) : Except PiError Unit := do
  if request.protocolVersion ≠ "pitools.pi/v1" || blank request.repository.toList ||
      blank request.snapshotPath.toList || blank request.policyRevision.toList ||
      blank request.nonce.toList then
    .error .invalidRequest
  validateRelativePath request.snapshotPath
  validateRelativePaths request.allowedPaths
  if maxPiSnapshotFiles < request.snapshotFiles.length then .error .inputTooLarge
  validateSnapshotFiles request.allowedPaths [] 0 request.snapshotFiles
  if request.failureEvidence.any fun evidence => containsSecretLike evidence.toList then
    .error .secretLikeInput

/-- The number lies between zero and one. -/
def Number.inUnitInterval : Number → Bool
  | .int value => 0 ≤ value && value ≤ 1
  | .decimal negative whole tenth rest =>
      let zeros := (tenth :: rest).all fun digit => digit = 0
      if negative then whole = 0 && zeros else whole = 0 || (whole = 1 && zeros)

def validateResult (request : PiJobRequest) (parsed : PiJobResult) : Except PiError PiJobResult :=
  if parsed.protocolVersion ≠ request.protocolVersion ∨ parsed.jobId ≠ request.jobId ∨
      parsed.nonce ≠ request.nonce ∨ Number.inUnitInterval parsed.confidence = false then
    .error .bindingMismatch
  else if parsed.proposedFiles.any fun path => path ∉ request.allowedPaths then
    .error .pathNotAllowed
  else if parsed.proposedPatches ≠ [] ∧ parsed.requiresApproval = false then
    .error .approvalRequired
  else
    match (if parsed.proposedPatches = [] then .ok ()
      else validatePatchSet parsed.proposedPatches request.allowedPaths) with
    | .error reason => .error (.invalidResult reason.text)
    | .ok () =>
        if containsSecretLike (Json.object parsed.toFields).text then .error .secretLikeOutput
        else .ok parsed

/-- What the transport brings back for a request. -/
inductive PiReply
  | timedOut
  | failed (reason : String)
  | oversized
  | unreadable (reason : String)
  | parsed (result : PiJobResult)
  deriving Repr

/-- The transport to the Pi worker checks the request, its size and the reply. -/
def executePi (request : PiJobRequest) (reply : PiReply) : Except PiError PiJobResult :=
  match request.validate with
  | .error reason => .error reason
  | .ok () =>
      if maxPiInputBytes < byteLength (Json.object request.toFields).text then .error .inputTooLarge
      else
        match reply with
        | .timedOut => .error .timedOut
        | .failed reason => .error (.workerFailed reason)
        | .oversized => .error .outputTooLarge
        | .unreadable reason => .error (.invalidResult reason)
        | .parsed result => validateResult request result

/-- An accepted result is the parsed one, and its patches ask for approval. -/
theorem validateResult_ok {request : PiJobRequest} {parsed result : PiJobResult}
    (accepted : validateResult request parsed = .ok result) :
    result = parsed ∧ (parsed.proposedPatches ≠ [] → parsed.requiresApproval = true) := by
  simp only [validateResult] at accepted
  split at accepted
  · cases accepted
  · split at accepted
    · cases accepted
    · split at accepted
      · cases accepted
      · rename_i asks
        split at accepted
        · cases accepted
        · split at accepted
          · cases accepted
          · cases accepted
            exact ⟨rfl, fun patched => by simpa [patched] using asks⟩

end PiTools
