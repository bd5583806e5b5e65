import PiTools.Worker.Evidence
import PiTools.Worker.RepairPaths

/-
This file says exactly which requests for a diagnosis pass their own checks.
-/

namespace PiTools

open Library

/-- A policy as a repair reads it, where the digest is the one of its text. -/
def Approval.Policy.forRepair (policy : Approval.Policy) (digest : String) : PiTools.Policy where
  repairAllowedPaths := policy.repairAllowedPaths
  revision := "sha256:" ++ digest

/-! ### Snapshots -/

/-- The file of a path, as far as the repository has one. -/
def fileBytes (file : String → Except WorkerError (Option String)) (path : String) : Nat :=
  match file path with
  | .ok (some content) => content.utf8ByteSize
  | _ => 0

theorem fileBytes_known {file : String → Except WorkerError (Option String)} {path content : String}
    (known : file path = .ok (some content)) : fileBytes file path = content.utf8ByteSize := by
  rw [fileBytes, known]

def totalBytes (file : String → Except WorkerError (Option String)) (paths : List String) : Nat :=
  (paths.map (fileBytes file)).sum

/-- The path has a file that fits into the snapshot. -/
def Reaches (file : String → Except WorkerError (Option String)) (bytes : Nat)
    (before : List String) (path : String) : Prop :=
  (∃ content, file path = .ok (some content)) ∧
    bytes + totalBytes file (before ++ [path]) ≤ maxPiSnapshotBytes

/-- A path with a file comes a second time before the snapshot is full. -/
def ListsTwice (file : String → Except WorkerError (Option String)) (bytes : Nat)
    (paths : List String) : Prop :=
  ∃ before path middle after, paths = before ++ path :: (middle ++ path :: after) ∧
    Reaches file bytes (before ++ path :: middle) path

section Snapshot

variable {file : String → Except WorkerError (Option String)} {bytes : Nat} {paths : List String}
  {files : List PiSnapshotFile}

/-- The four ways of the loop over the paths. -/
theorem snapshotFiles_cons {path : String} (built : snapshotFiles file bytes (path :: paths) = .ok files) :
    (file path = .ok none ∧ snapshotFiles file bytes paths = .ok files) ∨
    (∃ content, file path = .ok (some content) ∧
      maxPiSnapshotBytes < bytes + content.utf8ByteSize ∧ files = []) ∨
    ∃ content rest, file path = .ok (some content) ∧ bytes + content.utf8ByteSize ≤ maxPiSnapshotBytes ∧
      snapshotFiles file (bytes + content.utf8ByteSize) paths = .ok rest ∧
        files = ⟨path, content⟩ :: rest := by
  rw [snapshotFiles] at built
  split at built
  · cases built
  · rename_i missing
    exact .inl ⟨missing, built⟩
  · rename_i content known
    split at built
    · rename_i full
      cases built
      exact .inr (.inl ⟨content, known, full, rfl⟩)
    · rename_i room
      split at built
      · cases built
      · rename_i rest later
        cases built
        exact .inr (.inr ⟨content, rest, known, Nat.le_of_not_lt room, later, rfl⟩)

theorem snapshotFiles_length (built : snapshotFiles file bytes paths = .ok files) :
    files.length ≤ paths.length := by
  induction paths generalizing bytes files with
  | nil =>
      cases built
      exact Nat.le_refl _
  | cons path paths ih =>
      rcases snapshotFiles_cons built with ⟨-, later⟩ | ⟨_, -, -, rfl⟩ | ⟨content, rest, -, -, later, rfl⟩
      · exact Nat.le_succ_of_le (ih later)
      · exact Nat.zero_le _
      · exact Nat.succ_le_succ (ih later)

theorem snapshotFiles_bytes (built : snapshotFiles file bytes paths = .ok files)
    (room : bytes ≤ maxPiSnapshotBytes) :
    bytes + (files.map fun file => file.content.utf8ByteSize).sum ≤ maxPiSnapshotBytes := by
  induction paths generalizing bytes files with
  | nil =>
      cases built
      exact room
  | cons path paths ih =>
      rcases snapshotFiles_cons built with ⟨-, later⟩ | ⟨_, -, -, rfl⟩ |
        ⟨content, rest, -, small, later, rfl⟩
      · exact ih later room
      · exact room
      · rw [List.map_cons, List.sum_cons, ← Nat.add_assoc]
        exact ih later small

theorem snapshotFiles_known (built : snapshotFiles file bytes paths = .ok files) :
    ∀ entry ∈ files, entry.path ∈ paths ∧ file entry.path = .ok (some entry.content) := by
  induction paths generalizing bytes files with
  | nil =>
      cases built
      simp
  | cons path paths ih =>
      rcases snapshotFiles_cons built with ⟨-, later⟩ | ⟨_, -, -, rfl⟩ |
        ⟨content, rest, known, -, later, rfl⟩
      · intro entry member
        exact (ih later entry member).imp_left (List.mem_cons_of_mem _)
      · simp
      · rw [List.forall_mem_cons]
        exact ⟨⟨List.mem_cons_self .., known⟩, fun entry member =>
          (ih later entry member).imp_left (List.mem_cons_of_mem _)⟩

theorem reaches_missing {path other : String} {before : List String}
    (missing : file path = .ok none) :
    Reaches file bytes (path :: before) other ↔ Reaches file bytes before other := by
  simp [Reaches, totalBytes, fileBytes, missing]

theorem reaches_present {path other : String} {before : List String} {content : String}
    (known : file path = .ok (some content)) :
    Reaches file bytes (path :: before) other ↔
      Reaches file (bytes + content.utf8ByteSize) before other := by
  simp [Reaches, totalBytes, fileBytes, known, Nat.add_assoc]

theorem not_reaches_full {path other : String} {before : List String} {content : String}
    (known : file path = .ok (some content)) (full : maxPiSnapshotBytes < bytes + content.utf8ByteSize) :
    ¬ Reaches file bytes (path :: before) other := by
  rintro ⟨-, room⟩
  rw [List.cons_append, totalBytes, List.map_cons, List.sum_cons, fileBytes_known known] at room
  omega

/-- The snapshot has a path when some occurrence of it is reached. -/
theorem mem_snapshotFiles (built : snapshotFiles file bytes paths = .ok files) (path : String) :
    path ∈ files.map PiSnapshotFile.path ↔
      ∃ before after, paths = before ++ path :: after ∧ Reaches file bytes before path := by
  induction paths generalizing bytes files with
  | nil =>
      cases built
      simp
  | cons first paths ih =>
      have step : (∃ before after, first :: paths = before ++ path :: after ∧
          Reaches file bytes before path) ↔ (first = path ∧ Reaches file bytes [] path) ∨
            ∃ before after, paths = before ++ path :: after ∧
              Reaches file bytes (first :: before) path := by
        constructor
        · rintro ⟨before, after, same, reached⟩
          cases before with
          | nil => exact .inl ⟨(List.cons.inj same).1, reached⟩
          | cons other before =>
              obtain ⟨rfl, tail⟩ := List.cons.inj same
              exact .inr ⟨before, after, tail, reached⟩
        · rintro (⟨rfl, reached⟩ | ⟨before, after, rfl, reached⟩)
          · exact ⟨[], paths, rfl, reached⟩
          · exact ⟨first :: before, after, rfl, reached⟩
      rw [step]
      rcases snapshotFiles_cons built with ⟨missing, later⟩ | ⟨content, known, full, rfl⟩ |
        ⟨content, rest, known, small, later, rfl⟩
      · rw [ih later]
        simp only [reaches_missing missing]
        refine ⟨.inr, ?_⟩
        rintro (⟨rfl, ⟨content, known⟩, -⟩ | found)
        · rw [missing] at known
          cases known
        · exact found
      · simp only [not_reaches_full known full, and_false, exists_false, or_false, List.map_nil,
          List.not_mem_nil, false_iff, not_and]
        rintro rfl ⟨-, room⟩
        rw [List.nil_append, totalBytes, List.map_cons, List.sum_cons, fileBytes_known known] at room
        omega
      · rw [List.map_cons, List.mem_cons, ih later]
        simp only [reaches_present known]
        have here : first = path → Reaches file bytes [] path := by
          rintro rfl
          refine ⟨⟨content, known⟩, ?_⟩
          simpa [totalBytes, fileBytes, known] using small
        constructor
        · rintro (same | found)
          · exact .inl ⟨same.symm, here same.symm⟩
          · exact .inr found
        · rintro (⟨same, -⟩ | found)
          · exact .inl same.symm
          · exact .inr found

/-- The paths of the snapshot differ unless one is listed twice. -/
theorem snapshotFiles_nodup (built : snapshotFiles file bytes paths = .ok files) :
    (files.map PiSnapshotFile.path).Nodup ↔ ¬ ListsTwice file bytes paths := by
  induction paths generalizing bytes files with
  | nil =>
      cases built
      simp [ListsTwice]
  | cons first paths ih =>
      have step : ListsTwice file bytes (first :: paths) ↔
          (∃ middle after, paths = middle ++ first :: after ∧
            Reaches file bytes (first :: middle) first) ∨
          ∃ before path middle after, paths = before ++ path :: (middle ++ path :: after) ∧
            Reaches file bytes (first :: (before ++ path :: middle)) path := by
        constructor
        · rintro ⟨before, path, middle, after, same, reached⟩
          cases before with
          | nil =>
              obtain ⟨rfl, tail⟩ := List.cons.inj same
              exact .inl ⟨middle, after, tail, reached⟩
          | cons other before =>
              obtain ⟨rfl, tail⟩ := List.cons.inj same
              exact .inr ⟨before, path, middle, after, tail, reached⟩
        · rintro (⟨middle, after, rfl, reached⟩ | ⟨before, path, middle, after, rfl, reached⟩)
          · exact ⟨[], first, middle, after, rfl, reached⟩
          · exact ⟨first :: before, path, middle, after, rfl, reached⟩
      rw [step]
      rcases snapshotFiles_cons built with ⟨missing, later⟩ | ⟨content, known, full, rfl⟩ |
        ⟨content, rest, known, small, later, rfl⟩
      · rw [ih later]
        simp only [reaches_missing missing]
        rw [not_or]
        refine ⟨fun once => ⟨?_, once⟩, And.right⟩
        rintro ⟨middle, after, -, ⟨content, known⟩, -⟩
        rw [missing] at known
        cases known
      · simp [not_reaches_full known full]
      · rw [List.map_cons, List.nodup_cons, mem_snapshotFiles later, ih later]
        simp only [reaches_present known]
        rw [not_or]
        rfl

/-- A snapshot of small and harmless files passes when no path comes twice. -/
theorem validateSnapshotFiles_iff {allowedPaths seen : List String}
    (files_fit : ∀ entry ∈ files, validateRelativePath entry.path = .ok () ∧
      entry.path ∈ allowedPaths ∧ entry.content.utf8ByteSize ≤ maxPiSnapshotFileBytes ∧
        containsSecretLike entry.content.toList = false)
    (room : bytes + (files.map fun file => file.content.utf8ByteSize).sum ≤ maxPiSnapshotBytes) :
    validateSnapshotFiles allowedPaths seen bytes files = .ok () ↔
      (files.map PiSnapshotFile.path).Nodup ∧ ∀ entry ∈ files, entry.path ∉ seen := by
  induction files generalizing seen bytes with
  | nil => simp [validateSnapshotFiles]
  | cons entry rest ih =>
      rw [List.forall_mem_cons] at files_fit
      obtain ⟨⟨relative, allowed, small, harmless⟩, others⟩ := files_fit
      rw [List.map_cons, List.sum_cons, ← Nat.add_assoc] at room
      have fits : ¬ maxPiSnapshotBytes < bytes + entry.content.utf8ByteSize := by omega
      rw [validateSnapshotFiles, relative, List.map_cons, List.nodup_cons, List.forall_mem_cons]
      simp only [allowed, not_true_eq_false, false_or, harmless, Bool.false_eq_true, if_false,
        if_neg fits, if_neg (Nat.not_lt.mpr small)]
      by_cases old : entry.path ∈ seen
      · simp [old]
      · simp only [old, if_false, not_false_eq_true, true_and, ih others room]
        simp only [List.mem_cons, not_or, List.mem_map, not_exists, not_and]
        constructor
        · rintro ⟨once, apart⟩
          exact ⟨⟨fun other member same => (apart other member).1 same, once⟩,
            fun other member => (apart other member).2⟩
        · rintro ⟨⟨apart, once⟩, fresh⟩
          exact ⟨once, fun other member => ⟨fun same => apart other member same, fresh other member⟩⟩

end Snapshot

/-! ### Requests -/

/-- A diagnosis under an accepted policy. The files of the repository are small and harmless. -/
structure Prepared (policy : Approval.Policy) (context : CiRepairContext) (answers : CiAnswers)
    (jobPlan checkOutputs : Json) : Prop where
  valid : policy.validate = .ok ()
  policy : ∃ digest, context.policy = policy.forRepair digest
  evidence : answers.evidence = .ok (prepareCiEvidence jobPlan checkOutputs)
  nonce : ∃ id, answers.nonce = uuidText id
  files : ∀ path content, answers.file path = .ok (some content) →
    content.utf8ByteSize ≤ maxPiSnapshotFileBytes ∧ containsSecretLike content.toList = false

theorem blank_cons {c : Char} {rest : List Char} (visible : isWhitespace c = false) :
    blank (c :: rest) = false := by
  rw [blank, List.all_cons, visible, Bool.false_and]

theorem blank_of_mem {c : Char} {text : List Char} (member : c ∈ text)
    (visible : isWhitespace c = false) : blank text = false := by
  rw [blank, List.all_eq_false]
  exact ⟨c, member, by simp [visible]⟩

theorem blank_uuidText (id : Uuid) : blank (uuidText id).toList = false := by
  obtain ⟨c, rest, text⟩ := List.exists_cons_of_ne_nil
    (mt String.toList_eq_nil_iff.mp (uuidText_ne_empty id))
  have visible : ∀ c ∈ hexDashes, isWhitespace c = false := by decide
  have first : c ∈ (uuidText id).toList := by
    rw [text]
    exact List.mem_cons_self ..
  exact blank_of_mem first (visible c (uuidText_hexDashes id c first))

section Requests

variable {policy : Approval.Policy} {context : CiRepairContext} {answers : CiAnswers} {jobId : Uuid}
  {jobPlan checkOutputs : Json} {request : PiJobRequest}

/-- A request that was built with its fields. -/
theorem diagnosisRequest_ok (built : diagnosisRequest context answers jobId = .ok request) :
    ∃ evidence files, answers.evidence = .ok evidence ∧
      snapshotFiles answers.file 0 (context.policy.repairAllowedPaths.take maxPiSnapshotFiles) =
        .ok files ∧ request =
          { protocolVersion := "pitools.pi/v1"
            jobId
            repository := context.repository.fullName
            snapshotPath := "snapshot.json"
            snapshotFiles := files
            allowedPaths := context.policy.repairAllowedPaths
            failureEvidence := some evidence
            policyRevision := context.policy.revision
            nonce := answers.nonce } := by
  unfold diagnosisRequest at built
  split at built
  · cases built
  · split at built
    · cases built
    · rename_i evidence prepared
      split at built
      · cases built
      · rename_i files snapshot
        cases built
        exact ⟨evidence, files, prepared, snapshot, rfl⟩

/-- Every path of an accepted policy is a relative one. -/
theorem Prepared.relative (prepared : Prepared policy context answers jobPlan checkOutputs) :
    ∀ path ∈ context.policy.repairAllowedPaths, validateRelativePath path = .ok () := by
  obtain ⟨digest, known⟩ := prepared.policy
  rw [known]
  intro path member
  obtain ⟨leads, slash, -⟩ := admits_path.mp ⟨policy, prepared.valid, member⟩
  exact validateRelativePath_iff.mpr ⟨leads, slash⟩

/-- The request passes its checks when no path with a file is listed twice and the evidence shows
nothing secret. -/
theorem validate_iff (prepared : Prepared policy context answers jobPlan checkOutputs)
    (built : diagnosisRequest context answers jobId = .ok request) :
    request.validate = .ok () ↔
      ¬ ListsTwice answers.file 0 (policy.repairAllowedPaths.take maxPiSnapshotFiles) ∧
        ¬ Exposes (some maxEvidenceBytes) (serializedEvidence jobPlan checkOutputs) := by
  obtain ⟨evidence, files, known, snapshot, rfl⟩ := diagnosisRequest_ok built
  have relative := prepared.relative
  obtain ⟨digest, repair⟩ := prepared.policy
  obtain ⟨id, nonce⟩ := prepared.nonce
  have evidenceText := Except.ok.inj (known.symm.trans prepared.evidence)
  have paths : context.policy.repairAllowedPaths = policy.repairAllowedPaths := by rw [repair]; rfl
  have repository : blank context.repository.fullName.toList = false :=
    blank_of_mem (c := '/') (by simp [RepositoryContext.fullName]) (by decide)
  have revision : blank context.policy.revision.toList = false := by
    rw [repair]
    exact blank_of_mem (c := 's') (by simp [Approval.Policy.forRepair]) (by decide)
  have snapshotPath : blank "snapshot.json".toList = false := by decide
  have few : ¬ maxPiSnapshotFiles < files.length := by
    have length := snapshotFiles_length snapshot
    have limit := List.length_take_le maxPiSnapshotFiles context.policy.repairAllowedPaths
    omega
  have fit : ∀ entry ∈ files, validateRelativePath entry.path = .ok () ∧
      entry.path ∈ context.policy.repairAllowedPaths ∧
        entry.content.utf8ByteSize ≤ maxPiSnapshotFileBytes ∧
          containsSecretLike entry.content.toList = false := by
    intro entry member
    obtain ⟨listed, found⟩ := snapshotFiles_known snapshot entry member
    have allowed := List.mem_of_mem_take listed
    obtain ⟨small, harmless⟩ := prepared.files _ _ found
    exact ⟨relative _ allowed, allowed, small, harmless⟩
  have once : validateSnapshotFiles context.policy.repairAllowedPaths [] 0 files = .ok () ↔
      ¬ ListsTwice answers.file 0 (policy.repairAllowedPaths.take maxPiSnapshotFiles) := by
    rw [validateSnapshotFiles_iff fit (snapshotFiles_bytes snapshot (Nat.zero_le _)),
      snapshotFiles_nodup snapshot, paths]
    simp
  have relativeSnapshot : validateRelativePath "snapshot.json" = .ok () := by decide
  have relativePaths := validateRelativePaths_ok.mpr relative
  have exposed : containsSecretLike evidence.toList = true ↔
      Exposes (some maxEvidenceBytes) (serializedEvidence jobPlan checkOutputs) := by
    rw [← containsSecretLike_redactCiText, evidenceText, prepareCiEvidence, String.toList_ofList]
    rfl
  rw [PiJobRequest.validate]
  simp only [nonce, repository, revision, snapshotPath, blank_uuidText, ne_eq, not_true_eq_false,
    decide_false, Bool.or_self, Bool.false_eq_true, if_false, few, bind_eq_ok, Option.any_some,
    relativeSnapshot, relativePaths]
  constructor
  · rintro ⟨_, -, _, -, _, passed, harmless⟩
    refine ⟨once.mp passed, fun exposes => ?_⟩
    rw [if_pos (exposed.mpr exposes)] at harmless
    cases harmless
  · rintro ⟨single, hidden⟩
    exact ⟨(), trivial, (), trivial, (), once.mpr single, if_neg (mt exposed.mp hidden)⟩

end Requests

/-! ### A token and an error about tokens -/

def linePolicy : Approval.Policy :=
  { Approval.Policy.default with repairAllowedPaths := ["src/lib.rs"] }

def preparedContext : CiRepairContext :=
  { lineContext with policy := linePolicy.forRepair "0" }

def preparedAnswers (checkOutputs : Json) : CiAnswers :=
  { lineAnswers with evidence := .ok (prepareCiEvidence .null checkOutputs), nonce := uuidText 7 }

theorem preparedAnswers_prepared (checkOutputs : Json) :
    Prepared linePolicy preparedContext (preparedAnswers checkOutputs) .null checkOutputs where
  valid := by decide
  policy := ⟨"0", rfl⟩
  evidence := rfl
  nonce := ⟨7, rfl⟩
  files path content known := by
    cases known
    decide

def preparedRequest (checkOutputs : Json) : PiJobRequest :=
  { lineRequest with
    snapshotFiles := [⟨"src/lib.rs", "a"⟩]
    allowedPaths := ["src/lib.rs"]
    failureEvidence := some (prepareCiEvidence .null checkOutputs)
    policyRevision := "sha256:0"
    nonce := uuidText 7 }

theorem preparedRequest_sent (checkOutputs : Json) :
    diagnosisRequest preparedContext (preparedAnswers checkOutputs) 5 =
      .ok (preparedRequest checkOutputs) := rfl

end PiTools
