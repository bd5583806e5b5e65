import PiTools.Library.Paths
import PiTools.PiWorker.Patches
import PiTools.Worker.RepairPaths

/-
This file shows which requests of the control plane the Pi worker accepts.
-/

namespace PiTools.PiWorker

open Library

/-! ### Canonical paths -/

section Paths

variable {path : List Char}

/-- Plain names stay where they are. -/
theorem normalizeSegments_plain {segments : List (List Char)}
    (plain : ∀ name ∈ segments, name ≠ [] ∧ name ≠ ['.'] ∧ name ≠ ['.', '.'])
    (resolved : List (List Char)) :
    normalizeSegments resolved segments = segments.reverse ++ resolved := by
  induction segments generalizing resolved with
  | nil => rfl
  | cons segment rest ih =>
      obtain ⟨nonempty, notCurrent, notParent⟩ := plain segment (List.mem_cons_self ..)
      rw [normalizeSegments.eq_def]
      dsimp only
      rw [if_neg (not_or.mpr ⟨nonempty, notCurrent⟩), if_neg notParent, ih fun name member => plain name (List.mem_cons_of_mem _ member), List.reverse_cons,
        List.append_assoc, List.singleton_append]

/-- A slash at the end hides an empty name. -/
theorem getLast_slash (last : path.getLast? = some '/') : [] ∈ path.splitOn '/' := by
  obtain ⟨front, rfl⟩ := List.getLast?_eq_some_iff.mp last
  rw [List.splitOn_append_cons_self]
  simp

theorem posixNormalize_plain
    (plain : ∀ name ∈ path.splitOn '/', name ≠ [] ∧ name ≠ ['.'] ∧ name ≠ ['.', '.']) :
    posixNormalize path = path := by
  have joined : ['/'].intercalate (normalizeSegments [] (path.splitOn '/')).reverse = path := by
    rw [normalizeSegments_plain plain, List.append_nil, List.reverse_reverse,
      List.intercalate_splitOn]
  have open' : ¬ path.getLast? = some '/' := by
    intro last
    exact (plain [] (getLast_slash last)).1 rfl
  have nonempty : path ≠ [] := by
    rintro rfl
    exact (plain [] (by simp)).1 rfl
  rw [posixNormalize, joined]
  simp only [open', nonempty, if_false]

end Paths

/-- What a path needs besides the check of the control plane. -/
structure CanonicalPath (path : List Char) : Prop where
  nonempty : [] ∉ path.splitOn '/'
  notCurrent : ['.'] ∉ path.splitOn '/'
  terminated : '\x00' ∉ path
  noDrive : win32IsAbsolute path = false

instance (path : List Char) : Decidable (CanonicalPath path) :=
  decidable_of_iff ([] ∉ path.splitOn '/' ∧ ['.'] ∉ path.splitOn '/' ∧ '\x00' ∉ path ∧
      win32IsAbsolute path = false)
    ⟨fun ⟨nonempty, notCurrent, terminated, noDrive⟩ =>
      ⟨nonempty, notCurrent, terminated, noDrive⟩,
      fun canonical => ⟨canonical.nonempty, canonical.notCurrent, canonical.terminated,
        canonical.noDrive⟩⟩

theorem assertCanonicalRepositoryPath_iff {path : String}
    (valid : validateRelativePath path = .ok ()) :
    assertCanonicalRepositoryPath path = .ok () ↔ CanonicalPath path.toList := by
  obtain ⟨leads, slash⟩ := validateRelativePath_iff.mp valid
  obtain ⟨nonempty, relative, -⟩ := components_normal.mpr leads
  have plain : (path.toList.splitOn '/').any (fun segment =>
      segment = [] || segment = ['.'] || segment = ['.', '.']) = false ↔
      [] ∉ path.toList.splitOn '/' ∧ ['.'] ∉ path.toList.splitOn '/' := by
    rw [List.any_eq_false]
    simp only [Bool.or_eq_true, decide_eq_true_eq, not_or, and_assoc]
    rw [names_plain]
    exact ⟨fun plain => plain.2, fun plain => ⟨leads, plain⟩⟩
  rw [assertCanonicalRepositoryPath, ensure_eq_ok]
  simp only [nonempty, slash, relative, false_or, Bool.false_eq_true, not_or, Bool.not_eq_true, plain]
  constructor
  · rintro ⟨terminated, noDrive, -, names⟩
    exact ⟨names.1, names.2, terminated, noDrive⟩
  · intro canonical
    have names := names_plain.mpr ⟨leads, canonical.nonempty, canonical.notCurrent⟩
    exact ⟨canonical.terminated, canonical.noDrive, not_not.mpr (posixNormalize_plain names),
      canonical.nonempty, canonical.notCurrent⟩

theorem assertCanonicalPaths_ok {paths : List String} :
    assertCanonicalPaths paths = .ok () ↔
      ∀ path ∈ paths, assertCanonicalRepositoryPath path = .ok () := by
  induction paths with
  | nil => simp [assertCanonicalPaths]
  | cons path rest ih =>
      simp only [assertCanonicalPaths, bind_eq_ok, List.forall_mem_cons, ih]
      constructor
      · rintro ⟨_, both⟩
        exact both
      · intro both
        exact ⟨(), both⟩

/-- A snapshot that the control plane sends passes the checks of the worker, since its paths are
allowed ones. -/
theorem validateSnapshotFiles_passes {allowedPaths : List String}
    (canonical : assertCanonicalPaths allowedPaths = .ok ()) {seen : List String} {bytes : Nat}
    {files : List PiSnapshotFile}
    (valid : PiTools.validateSnapshotFiles allowedPaths seen bytes files = .ok ()) :
    validateSnapshotFiles allowedPaths seen bytes files = .ok () := by
  induction files generalizing seen bytes with
  | nil => rfl
  | cons file rest ih =>
      rw [PiTools.validateSnapshotFiles] at valid
      split at valid
      · cases valid
      · split at valid
        · cases valid
        · rename_i known
          rw [not_or, not_not] at known
          split at valid
          · cases valid
          · split at valid
            · cases valid
            · rename_i small
              split at valid
              · cases valid
              · have path := assertCanonicalPaths_ok.mp canonical file.path known.1
                simp only [validateSnapshotFiles, assertAllowedPaths, assertProposedPaths,
                  bind_eq_ok, ensure_eq_ok]
                exact ⟨(), path, (), ⟨(), canonical, (), path, (), known.1, trivial⟩, (), known.2, (),
                  Nat.le_of_not_lt small, ih valid⟩

/-! ### Lengths -/

/-- A character has no more UTF-16 units than UTF-8 bytes. -/
theorem utf16Length_le (text : String) : utf16Length text ≤ text.utf8ByteSize := by
  induction text using String.push_induction with
  | empty => rfl
  | push text c ih =>
      have units : (if c.toNat < 0x10000 then 1 else 2) ≤ c.utf8Size := by
        split
        · exact c.utf8Size_pos
        · rename_i high
          have four : c.utf8Size = 4 := by
            rw [Char.utf8Size_eq_four_iff]
            exact UInt32.lt_iff_toNat_lt.mpr (Nat.lt_of_lt_of_le (by decide) (Nat.le_of_not_lt high))
          omega
      rw [String.utf8ByteSize_push, utf16Length, String.toList_push, List.map_append,
        List.sum_append, List.map_singleton, List.sum_singleton]
      exact Nat.add_le_add ih units

/-! ### Reading -/

theorem nonEmptyString_eq {text read : String} :
    nonEmptyString (.string text) = some read ↔ read = text ∧ text ≠ "" := by
  simp only [nonEmptyString, Json.asStr, Option.filter_eq_some_iff, Option.some.injEq,
    decide_eq_true_eq]
  constructor
  · rintro ⟨rfl, visible⟩
    exact ⟨rfl, visible⟩
  · rintro ⟨rfl, visible⟩
    exact ⟨rfl, visible⟩

theorem boundedString_eq {least most : Nat} {text read : String} :
    boundedString least most (.string text) = some read ↔
      read = text ∧ least ≤ utf16Length text ∧ utf16Length text ≤ most := by
  simp only [boundedString, Json.asStr, Option.filter_eq_some_iff, Option.some.injEq,
    Bool.and_eq_true, decide_eq_true_eq]
  constructor
  · rintro ⟨rfl, fits⟩
    exact ⟨rfl, fits⟩
  · rintro ⟨rfl, fits⟩
    exact ⟨rfl, fits⟩

/-- An array of encoded items is read back when each item is. -/
theorem arrayOf_map {Item : Type} {decode : Json → Option Item} {encode : Item → Json}
    {accepts : Item → Prop}
    (reads : ∀ item read, decode (encode item) = some read ↔ read = item ∧ accepts item)
    {items read : List Item} : arrayOf decode (.array (items.map encode)) = some read ↔
      read = items ∧ ∀ item ∈ items, accepts item := by
  change (items.map encode).mapM decode = some read ↔ _
  induction items generalizing read with
  | nil => simp [eq_comm]
  | cons item rest ih =>
      simp only [List.map_cons, List.mapM_cons, Option.bind_eq_bind, Option.bind_eq_some_iff,
        Option.pure_def, Option.some.injEq, reads, ih, List.forall_mem_cons]
      constructor
      · rintro ⟨_, ⟨rfl, here⟩, _, ⟨rfl, later⟩, rfl⟩
        exact ⟨rfl, here, later⟩
      · rintro ⟨rfl, here, later⟩
        exact ⟨_, ⟨rfl, here⟩, _, ⟨rfl, later⟩, rfl⟩

theorem arrayOf_strings {texts read : List String} :
    arrayOf nonEmptyString (stringsValue texts) = some read ↔
      read = texts ∧ ∀ text ∈ texts, text ≠ "" :=
  arrayOf_map fun _ _ => nonEmptyString_eq

theorem snapshotFileSchema_eq {file read : PiSnapshotFile} :
    snapshotFileSchema (.object file.toFields) = some read ↔ read = file ∧
      (1 ≤ utf16Length file.path ∧ utf16Length file.path ≤ 1024) ∧
        0 ≤ utf16Length file.content ∧ utf16Length file.content ≤ maxPiSnapshotFileBytes := by
  have strict : strictObject ["path", "content"] (.object file.toFields) = some file.toFields := rfl
  have path : getField "path" file.toFields = some (.string file.path) := rfl
  have content : getField "content" file.toFields = some (.string file.content) := rfl
  simp only [snapshotFileSchema, strict, required, path, content, Option.bind_eq_bind,
    Option.bind_some, Option.bind_eq_some_iff, boundedString_eq, Option.pure_def,
    Option.some.injEq]
  constructor
  · rintro ⟨_, ⟨rfl, here⟩, _, ⟨rfl, there⟩, rfl⟩
    exact ⟨rfl, here, there⟩
  · rintro ⟨rfl, here, there⟩
    exact ⟨_, ⟨rfl, here⟩, _, ⟨rfl, there⟩, rfl⟩

/-- The request as the worker reads it. -/
def received (request : PiJobRequest) : ProtocolRequest :=
  ⟨request.protocolVersion, uuidText request.jobId, request.repository, request.snapshotPath,
    request.snapshotFiles, request.allowedPaths, request.failureEvidence, request.policyRevision,
    request.nonce⟩

theorem received_toFields {request : PiJobRequest} (present : request.failureEvidence ≠ none) :
    (received request).toFields = request.toFields := by
  cases evidence : request.failureEvidence with
  | none => exact absurd evidence present
  | some text =>
      simp only [ProtocolRequest.toFields, PiJobRequest.toFields, received, evidence]
      rfl

/-- What the control plane has checked of a request. -/
structure Checked (request : PiJobRequest) : Prop where
  version : request.protocolVersion = protocolVersion
  repository : request.repository ≠ ""
  policyRevision : request.policyRevision ≠ ""
  nonce : request.nonce ≠ ""
  snapshotPath : validateRelativePath request.snapshotPath = .ok ()
  allowedPaths : ∀ path ∈ request.allowedPaths, validateRelativePath path = .ok ()
  fileCount : request.snapshotFiles.length ≤ maxPiSnapshotFiles
  files : PiTools.validateSnapshotFiles request.allowedPaths [] 0 request.snapshotFiles = .ok ()

theorem ne_empty_of_visible {text : String} (visible : blank text.toList = false) : text ≠ "" := by
  rintro rfl
  cases visible

theorem checked_of_validate {request : PiJobRequest} (valid : request.validate = .ok ()) :
    Checked request := by
  rw [PiJobRequest.validate] at valid
  split at valid
  · simp only [bind_eq_ok, reduceCtorEq, false_and, exists_false] at valid
  · rename_i visible
    simp only [Bool.or_eq_true, decide_eq_true_eq, not_or, not_not, Bool.not_eq_true] at visible
    obtain ⟨⟨⟨⟨version, repository⟩, -⟩, policyRevision⟩, nonce⟩ := visible
    simp only [bind_eq_ok] at valid
    obtain ⟨_, snapshotPath, _, allowedPaths, valid⟩ := valid
    split at valid
    · simp only [bind_eq_ok, reduceCtorEq, false_and, exists_false] at valid
    · rename_i fileCount
      simp only [bind_eq_ok] at valid
      obtain ⟨_, files, -⟩ := valid
      exact ⟨version, ne_empty_of_visible repository, ne_empty_of_visible policyRevision,
        ne_empty_of_visible nonce, snapshotPath, validateRelativePaths_ok.mp allowedPaths,
        Nat.le_of_not_lt fileCount, files⟩

theorem relativePath_ne_empty {path : String} (valid : validateRelativePath path = .ok ()) :
    path ≠ "" := by
  obtain ⟨leads, -⟩ := validateRelativePath_iff.mp valid
  exact toList_ne_nil.mp (components_normal.mpr leads).1

theorem utf16Length_pos {text : String} (visible : text ≠ "") : 1 ≤ utf16Length text := by
  cases chars : text.toList with
  | nil => exact absurd (String.toList_eq_nil_iff.mp chars) visible
  | cons c rest =>
      rw [utf16Length, chars, List.map_cons, List.sum_cons]
      split <;> omega

/-- The files of a checked snapshot have allowed names and small contents. -/
theorem snapshotFiles_bounded {allowedPaths : List String} {seen : List String} {bytes : Nat}
    {files : List PiSnapshotFile}
    (valid : PiTools.validateSnapshotFiles allowedPaths seen bytes files = .ok ()) :
    ∀ file ∈ files, file.path ∈ allowedPaths ∧ 1 ≤ utf16Length file.path ∧
      utf16Length file.content ≤ maxPiSnapshotFileBytes := by
  induction files generalizing seen bytes with
  | nil => simp
  | cons file rest ih =>
      rw [PiTools.validateSnapshotFiles] at valid
      split at valid
      · cases valid
      · rename_i path
        split at valid
        · cases valid
        · rename_i known
          rw [not_or, not_not] at known
          split at valid
          · cases valid
          · rename_i small
            split at valid
            · cases valid
            · split at valid
              · cases valid
              · have length := (utf16Length_le file.content).trans (Nat.le_of_not_lt small)
                exact List.forall_mem_cons.mpr
                  ⟨⟨known.1, utf16Length_pos (relativePath_ne_empty path), length⟩, ih valid⟩

/-- The worker reads a checked request back unless the path of a file is too long for it. -/
theorem parseRequest_checked {request : PiJobRequest} (checked : Checked request)
    (present : request.failureEvidence ≠ none) {read : ProtocolRequest} :
    parseRequest (.object request.toFields) = some read ↔
      read = received request ∧ ∀ file ∈ request.snapshotFiles, utf16Length file.path ≤ 1024 := by
  have strict : strictObject requestKeys (.object request.toFields) = some request.toFields := rfl
  have files : ∀ {read}, arrayOf snapshotFileSchema
      (.array (request.snapshotFiles.map fun file => .object file.toFields)) = some read ↔
        read = request.snapshotFiles ∧
          ∀ file ∈ request.snapshotFiles, utf16Length file.path ≤ 1024 := by
    intro read
    rw [arrayOf_map fun _ _ => snapshotFileSchema_eq]
    have bounds := snapshotFiles_bounded checked.files
    constructor
    · rintro ⟨same, fit⟩
      exact ⟨same, fun file member => (fit file member).1.2⟩
    · rintro ⟨same, short⟩
      exact ⟨same, fun file member =>
        ⟨⟨(bounds file member).2.1, short file member⟩, Nat.zero_le _, (bounds file member).2.2⟩⟩
  obtain ⟨evidence, held⟩ := Option.ne_none_iff_exists'.mp present
  have visible : ∀ path ∈ request.allowedPaths, path ≠ "" :=
    fun path member => relativePath_ne_empty (checked.allowedPaths path member)
  have version : required (literalString protocolVersion) request.toFields "protocolVersion" =
      some protocolVersion := by
    change (literalString protocolVersion (.string request.protocolVersion)) = _
    rw [checked.version]
    rfl
  have evidenceRead : optional Json.asStr request.toFields "failureEvidence" =
      some request.failureEvidence := by
    change ((Json.asStr ((request.failureEvidence.map Json.string).getD .null)).map some) = _
    rw [held]
    rfl
  have text (key : String) {value} (found : getField key request.toFields = some (.string value))
      (shown : value ≠ "") : required nonEmptyString request.toFields key = some value := by
    rw [required, found, Option.bind_some, nonEmptyString_eq]
    exact ⟨rfl, shown⟩
  have allowed : required (arrayOf nonEmptyString) request.toFields "allowedPaths" =
      some request.allowedPaths := arrayOf_strings.mpr ⟨rfl, visible⟩
  have snapshot : required (arrayOf snapshotFileSchema) request.toFields "snapshotFiles" =
      arrayOf snapshotFileSchema
        (.array (request.snapshotFiles.map fun file => .object file.toFields)) := rfl
  simp only [parseRequest, strict, version, evidenceRead, allowed, snapshot, files,
    text "jobId" rfl (uuidText_ne_empty request.jobId),
    text "repository" rfl checked.repository,
    text "snapshotPath" rfl (relativePath_ne_empty checked.snapshotPath),
    text "policyRevision" rfl checked.policyRevision, text "nonce" rfl checked.nonce,
    Option.bind_eq_bind, Option.bind_some, Option.bind_eq_some_iff, Option.pure_def,
    Option.some.injEq]
  constructor
  · rintro ⟨_, ⟨rfl, short⟩, rfl⟩
    exact ⟨by rw [received, checked.version], short⟩
  · rintro ⟨rfl, short⟩
    exact ⟨_, ⟨rfl, short⟩, by rw [received, checked.version]⟩

/-! ### Secrets -/

section Secrets

theorem redactValue_string {text : String} :
    redactValue (.string text) = .string text ↔ Unredacted text.toList := by
  rw [redactValue, Json.string.injEq, redactString_eq_self]

theorem redactValue_array {items : List Json} :
    redactValue (.array items) = .array items ↔ ∀ item ∈ items, redactValue item = item := by
  rw [redactValue, Json.array.injEq, redactItems_eq]
  constructor
  · intro same
    exact List.map_eq_map_iff.mp (same.trans (List.map_id _).symm)
  · intro same
    exact (List.map_congr_left same).trans (List.map_id _)

theorem redactValue_strings {texts : List String} :
    redactValue (stringsValue texts) = stringsValue texts ↔
      ∀ text ∈ texts, Unredacted text.toList := by
  rw [stringsValue, redactValue_array]
  simp only [List.forall_mem_map, redactValue_string]

/-- A field whose key is not sensitive stays when its value does. -/
theorem redactFields_cons {key : String} (visible : sensitiveKey key = false) {item : Json}
    {rest : Fields} : redactFields ((key, item) :: rest) = (key, item) :: rest ↔
      redactValue item = item ∧ redactFields rest = rest := by
  rw [redactFields, visible]
  simp

theorem redactValue_file {file : PiSnapshotFile} :
    redactValue (.object file.toFields) = .object file.toFields ↔
      Unredacted file.path.toList ∧ Unredacted file.content.toList := by
  rw [redactValue, Json.object.injEq, PiSnapshotFile.toFields, redactFields_cons (by decide),
    redactFields_cons (by decide), redactValue_string, redactValue_string]
  simp [redactFields]

/-- Each start of a match has a character that no identifier has. -/
theorem unredacted_of_hexDashes {text : List Char} (plain : ∀ c ∈ text, c ∈ hexDashes) : Unredacted text := by
  have lower : ∀ c ∈ hexDashes, c.toLower = c := by decide
  have starts : ∀ start ∈ secretStarts, ∃ c ∈ start.toList, c ∉ hexDashes := by decide
  have words : ∀ word ∈ sensitiveWords, ∃ c ∈ word.toList, c ∉ hexDashes := by decide
  have lowered {part : List Char} (inside : part ⊆ text) :
      ∀ c ∈ asciiLowercase part, c ∈ hexDashes := by
    intro c member
    obtain ⟨d, belongs, rfl⟩ := List.mem_map.mp member
    rw [lower d (plain d (inside belongs))]
    exact plain d (inside belongs)
  constructor
  · intro pattern member
    apply List.eq_nil_iff_forall_not_mem.mpr
    intro part found
    have heavy := secretPatterns_heavy pattern member text part found
    obtain ⟨_, rest, kept, replaced, suffix, -, rfl⟩ := foundTexts_match found
    obtain ⟨inner, begins, within⟩ := exists_of_occurrences_pos heavy
    obtain ⟨start, known, prefixed⟩ := startsSecret_iff.mp begins
    obtain ⟨c, letter, outside⟩ := starts start known
    have inside : inner ⊆ text := List.Subset.trans within.subset
      (List.Subset.trans (List.take_subset _ _)
        (List.Subset.trans (List.drop_subset _ _) suffix.subset))
    exact outside (lowered inside c (prefixed.subset letter))
  · intro value found
    obtain ⟨_, rest, kept, replaced, suffix, matched, -⟩ := foundTexts_match found
    obtain ⟨_, _, _, marked, -⟩ := sensitiveAssignment_spec matched
    obtain ⟨word, known, prefixed, -⟩ := literalMarker_prefix marked
    obtain ⟨c, letter, outside⟩ := words word known
    exact absurd (lowered suffix.subset c (prefixed.subset letter)) outside

theorem unredacted_uuidText (id : Uuid) : Unredacted (uuidText id).toList :=
  unredacted_of_hexDashes (uuidText_hexDashes id)

end Secrets

/-! ### Agreement -/

/-- The free texts of a request. The paths of the files are allowed ones. -/
def requestTexts (request : PiJobRequest) : List String :=
  [request.repository, request.snapshotPath, request.policyRevision, request.nonce] ++
    request.allowedPaths ++ (request.snapshotFiles.map fun file => file.content) ++
      request.failureEvidence.toList

/-- The rules of the worker that the control plane does not have. -/
structure RequestFits (request : PiJobRequest) : Prop where
  paths : ∀ path ∈ request.snapshotPath :: request.allowedPaths, CanonicalPath path.toList
  lengths : ∀ file ∈ request.snapshotFiles, utf16Length file.path ≤ 1024
  plain : ∀ text ∈ requestTexts request, Unredacted text.toList

/-- The redaction changes nothing exactly when no free text has something to redact. -/
theorem redactSecrets_request {request : PiJobRequest} (checked : Checked request)
    (present : request.failureEvidence ≠ none) :
    redactSecrets (received request).toJson = (received request).toJson ↔
      ∀ text ∈ requestTexts request, Unredacted text.toList := by
  obtain ⟨evidence, held⟩ := Option.ne_none_iff_exists'.mp present
  have version : Unredacted request.protocolVersion.toList := by
    rw [checked.version]
    decide +kernel
  have files : redactValue (.array (request.snapshotFiles.map fun file => .object file.toFields)) =
      .array (request.snapshotFiles.map fun file => .object file.toFields) ↔
        ∀ file ∈ request.snapshotFiles, Unredacted file.path.toList ∧
          Unredacted file.content.toList := by
    rw [redactValue_array]
    simp only [List.forall_mem_map, redactValue_file]
  have bounds := snapshotFiles_bounded checked.files
  rw [redactSecrets, ProtocolRequest.toJson, received_toFields present, redactValue,
    Json.object.injEq, PiJobRequest.toFields]
  rw [redactFields_cons (by decide), redactFields_cons (by decide), redactFields_cons (by decide),
    redactFields_cons (by decide), redactFields_cons (by decide), redactFields_cons (by decide),
    redactFields_cons (by decide), redactFields_cons (by decide), redactFields_cons (by decide),
    files, redactValue_strings, held]
  simp only [redactValue_string, Option.map_some, Option.getD_some, version, unredacted_uuidText,
    redactFields, requestTexts, held, Option.toList_some, List.forall_mem_append,
    List.forall_mem_cons, List.forall_mem_map, List.not_mem_nil, false_imp_iff, implies_true,
    true_and, and_true]
  constructor
  · rintro ⟨repository, snapshotPath, contents, paths, text, policyRevision, nonce⟩
    exact ⟨⟨⟨⟨repository, snapshotPath, policyRevision, nonce⟩, paths⟩,
      fun file member => (contents file member).2⟩, text⟩
  · rintro ⟨⟨⟨⟨repository, snapshotPath, policyRevision, nonce⟩, paths⟩, contents⟩, text⟩
    exact ⟨repository, snapshotPath, fun file member =>
      ⟨paths _ (bounds file member).1, contents file member⟩, paths, text, policyRevision, nonce⟩

/-- The worker accepts a request of the control plane exactly when the request fits its rules for
paths, for the lengths of file names and for secrets. -/
theorem request_accepted_iff {request : PiJobRequest} (valid : request.validate = .ok ())
    (present : request.failureEvidence ≠ none)
    (small : byteLength (Json.object request.toFields).text ≤ maxPiInputBytes) :
    (∃ accepted, validateProtocolRequest (.object request.toFields) = .ok accepted) ↔
      RequestFits request := by
  have checked := checked_of_validate valid
  have json : (received request).toJson = .object request.toFields := by
    rw [ProtocolRequest.toJson, received_toFields present]
  have canonical : (assertCanonicalRepositoryPath request.snapshotPath = .ok () ∧
      assertCanonicalPaths request.allowedPaths = .ok ()) ↔
        ∀ path ∈ request.snapshotPath :: request.allowedPaths, CanonicalPath path.toList := by
    rw [assertCanonicalRepositoryPath_iff checked.snapshotPath, assertCanonicalPaths_ok,
      List.forall_mem_cons]
    exact and_congr_right fun _ => forall₂_congr fun path member =>
      assertCanonicalRepositoryPath_iff (checked.allowedPaths path member)
  simp only [validateProtocolRequest, assertOutputSize, assertAllowedPaths, assertProposedPaths,
    bind_eq_ok, okOr_eq_ok, ensure_eq_ok, pure_eq_ok, parseRequest_checked checked present]
  constructor
  · rintro ⟨_, _, ⟨rfl, short⟩, _, -, _, snapshotPath, _, ⟨_, allowed, -⟩, _, -, _, -, _, same, rfl⟩
    exact ⟨canonical.mp ⟨snapshotPath, allowed⟩, short,
      (redactSecrets_request checked present).mp (Json.text_injective same)⟩
  · intro fits
    obtain ⟨snapshotPath, allowed⟩ := canonical.mpr fits.paths
    have same := (redactSecrets_request checked present).mpr fits.plain
    refine ⟨_, received request, ⟨rfl, fits.lengths⟩, (), ⟨(), by decide, ?_⟩, (), snapshotPath, (),
      ⟨(), allowed, trivial⟩, (), checked.fileCount, (),
      validateSnapshotFiles_passes allowed checked.files, (), congrArg Json.text same, rfl⟩
    rw [json]
    exact small

/-! ### Evidence with an assignment -/

def evidenceRequest (evidence : String) : PiJobRequest :=
  ⟨"pitools.pi/v1", 7, "o/r", "snapshot.json", [⟨"a.py", "x\n"⟩], ["a.py", "src/b.py"], some evidence,
    "sha256:policy", "nonce"⟩

theorem plain_request_accepted : ∃ accepted,
    validateProtocolRequest (.object (evidenceRequest "test failed").toFields) = .ok accepted :=
  (request_accepted_iff (by decide +kernel) (by decide) (by decide +kernel)).mpr
    ⟨by decide +kernel, by decide +kernel, by decide +kernel⟩

theorem assignment_request_refused :
    (evidenceRequest "name error: token = read()").validate = .ok () ∧
      byteLength (Json.object (evidenceRequest "name error: token = read()").toFields).text ≤
        maxPiInputBytes ∧
      ¬ ∃ accepted, validateProtocolRequest
        (.object (evidenceRequest "name error: token = read()").toFields) = .ok accepted := by
  have refused : (validateProtocolRequest
      (.object (evidenceRequest "name error: token = read()").toFields)).toBool = false := by
    decide +kernel
  refine ⟨by decide +kernel, by decide +kernel, ?_⟩
  rintro ⟨accepted, passes⟩
  rw [passes] at refused
  cases refused

end PiTools.PiWorker
