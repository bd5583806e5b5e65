import PiTools.Feedback.Grammar
import PiTools.Feedback.Suggestion
import PiTools.Library.FileSystem

/-
This file defines the repair of a feedback on a file system, and shows that it
changes at most the one file that was checked.
-/

namespace PiTools.Feedback

open Library

inductive RepairDecision
  | preview
  | apply
  deriving DecidableEq, Repr

inductive RepairDisposition
  | humanFeedback
  | rejectedActor
  | previewed
  | applied
  deriving DecidableEq, Repr

structure RepairOutcome where
  disposition : RepairDisposition
  path : Option (List Char)
  resolutionEligible : Bool
  deriving DecidableEq, Repr

def nonMutating (disposition : RepairDisposition) : RepairOutcome := ⟨disposition, none, false⟩

namespace Disk

variable {Content : Type}

/-! ### The repair -/

section Definitions

variable (fs : FileSystem Content) (root : List Char)

def isLink : Node Content → Bool
  | .blob (.link _) => true
  | _ => false

def isFile : Node Content → Bool
  | .blob (.file _) => true
  | _ => false

/-- Each prefix of the target exists and is no symbolic link. -/
def checkComponents (relative : List Char) :
    List (List Char) → List (List Char) → Except FeedbackError (List (List Char))
  | target, [] => .ok target
  | target, name :: rest => do
      let metadata ← okOr (fs.symlinkMetadata (target ++ [name])) .io
      ensure (isLink metadata = false) (.invalidPath relative)
      checkComponents relative (target ++ [name]) rest

def checkedTarget (relative : List Char) : Except FeedbackError (List (List Char)) := do
  validateRelativePath relative
  let root ← okOr (fs.canonicalize root) .io
  let target ← checkComponents fs relative root ((components relative).map PathComponent.text)
  let metadata ← okOr (fs.metadata target) .io
  ensure (isFile metadata = true) (.invalidPath relative)
  let canonical ← okOr (fs.place target) .io
  ensure (root <+: canonical ∧ canonical = target) (.invalidPath relative)
  pure target

def readToString (target : List (List Char)) : Except FeedbackError (List Char) :=
  okOr (fs.readToString target) .io

def preparePatch (suggestion : List Char) : Except FeedbackError PreparedRepair := do
  let patch ← parseUnifiedPatch suggestion
  let target ← checkedTarget fs root patch.path
  let original ← readToString fs target
  let repaired ← applyHunks original patch.hunks
  pure ⟨patch.path, original, repaired⟩

def prepareInline (feedback : Feedback) : Except FeedbackError PreparedRepair := do
  let suggestion ← extractInlineSuggestion feedback.body
  let path ← okOr feedback.path (.malformedSuggestion "review path is missing")
  let line ← okOr feedback.line (.malformedSuggestion "review line is missing")
  let startLine := feedback.startLine.getD line
  ensure (¬(line = 0 ∨ startLine = 0 ∨ line < startLine))
    (.malformedSuggestion "review line range is invalid")
  let target ← checkedTarget fs root path
  let original ← readToString fs target
  let repaired ← applyInlineSuggestion original startLine line suggestion
  pure ⟨path, original, repaired⟩

def prepareRepair (feedback : Feedback) : Except FeedbackError PreparedRepair :=
  match extractExactSuggestion feedback.body with
  | .ok suggestion =>
      if "--- a/".toList <+: suggestion then preparePatch fs root suggestion
      else prepareInline fs root feedback
  | .error _ => prepareInline fs root feedback

/-- The target is checked and read again right before the only write. -/
def applyRepair (prepared : PreparedRepair) :
    Except FeedbackError RepairOutcome × FileSystem Content :=
  match checkedTarget fs root prepared.path with
  | .error error => (.error error, fs)
  | .ok target =>
      match readToString fs target with
      | .error error => (.error error, fs)
      | .ok current =>
          if current ≠ prepared.original then
            (.error (.stalePatch "target changed after validation"), fs)
          else
            match fs.write target prepared.repaired with
            | none => (.error .io, fs)
            | some after =>
                match readToString after target with
                | .error error => (.error error, after)
                | .ok readback =>
                    if readback ≠ prepared.repaired then
                      (.error (.stalePatch "target readback differs from the validated repair"), after)
                    else (.ok ⟨.applied, some prepared.path, true⟩, after)

def repairFeedback (automationActorAllowlist : List String) (feedback : Feedback)
    (decision : RepairDecision) : Except FeedbackError RepairOutcome × FileSystem Content :=
  if feedback.isAutomation = false ∨ feedback.actorType ≠ "Bot" then
    (.ok (nonMutating .humanFeedback), fs)
  else if feedback.actorLogin ∉ automationActorAllowlist then
    (.ok (nonMutating .rejectedActor), fs)
  else
    match prepareRepair fs root feedback with
    | .error error => (.error error, fs)
    | .ok prepared =>
        match decision with
        | .preview => (.ok ⟨.previewed, some prepared.path, false⟩, fs)
        | .apply => applyRepair fs root prepared

end Definitions

variable {fs after : FileSystem Content} {root relative : List Char} {target : List (List Char)}

/-! ### Checked targets -/

/-- A regular file below the canonical root, at the names of a canonical path. -/
structure Target (fs : FileSystem Content) (root relative : List Char) (target : List (List Char)) :
    Prop where
  canonical : CanonicalPath relative
  below : ∃ base names, fs.canonicalize root = some base ∧
    components relative = names.map .normal ∧ target = base ++ names
  file : fs.files.isFile target = true

theorem checkComponents_ok {start names : List (List Char)}
    (checked : checkComponents fs relative start names = .ok target) : target = start ++ names := by
  induction names generalizing start with
  | nil =>
      cases checked
      rw [List.append_nil]
  | cons name rest ih =>
      simp only [checkComponents, bind_eq_ok] at checked
      obtain ⟨_, -, _, -, checked⟩ := checked
      rw [ih checked, List.append_assoc, List.singleton_append]

/-- A checked target is its own place and a regular file. -/
theorem checkedTarget_ok (checked : checkedTarget fs root relative = .ok target) :
    Target fs root relative target := by
  simp only [checkedTarget, bind_eq_ok, okOr_eq_ok, ensure_eq_ok, pure_eq_ok] at checked
  obtain ⟨_, valid, base, found, checked⟩ := checked
  obtain ⟨reached, walked, node, known, _, regular, place, placed, _, ⟨-, same⟩, rfl⟩ := checked
  have canonical := validateRelativePath_eq_ok.mp valid
  obtain ⟨names, parts, texts, -⟩ := components_canonical canonical
  refine ⟨canonical, ⟨base, names, found, parts, ?_⟩, ?_⟩
  · rw [checkComponents_ok walked, texts]
  · rw [FileSystem.metadata, placed, Option.bind_some, same] at known
    rw [Files.isFile, known]
    cases node with
    | directory => cases regular
    | other => cases regular
    | blob blob =>
        cases blob with
        | file content => rfl
        | link target => cases regular

/-- Directories lead to a file. -/
theorem Target.directories (given : Target fs root relative target) {first : List (List Char)}
    (above : Above first target) : fs.files.node first = some .directory := by
  obtain ⟨content, known⟩ := Files.isFile_iff.mp given.file
  exact fs.files.rooted first target above (by rw [known]; simp)

/-! ### The repository -/

/-- A file that cannot be read has no text. -/
def entry (fs : FileSystem Content) (place : List (List Char)) : Node Content → Entry
  | .blob (.file content) => .file (if fs.readable place then fs.encoding.decode content else none)
  | .blob (.link _) => .symlink
  | .directory => .directory
  | .other => .other

/-- What stands below the canonical root. -/
def repository (fs : FileSystem Content) (root : List Char) : Repository := fun names =>
  (fs.canonicalize root).bind fun base => (fs.files.node (base ++ names)).map (entry fs (base ++ names))

theorem repository_eq {base : List (List Char)} (found : fs.canonicalize root = some base)
    (names : List (List Char)) :
    repository fs root names = (fs.files.node (base ++ names)).map (entry fs (base ++ names)) := by
  rw [repository, found, Option.bind_some]

/-- Below a canonical root the checks of the components are checks of the repository. -/
theorem checkComponents_repository {base done rest : List (List Char)}
    (found : fs.canonicalize root = some base) (settled : fs.Settled (base ++ done)) :
    match Feedback.checkComponents (repository fs root) relative done rest with
    | .error error => checkComponents fs relative (base ++ done) rest = .error error
    | .ok names => checkComponents fs relative (base ++ done) rest = .ok (base ++ names) ∧
        fs.Settled (base ++ names) := by
  induction rest generalizing done with
  | nil => exact ⟨rfl, settled⟩
  | cons name rest ih =>
      rw [Feedback.checkComponents, checkComponents, FileSystem.symlinkMetadata_append settled,
        repository_eq found, List.append_assoc]
      have next : ∀ node, fs.files.node (base ++ (done ++ [name])) = some node →
          isLink node = false → fs.Settled (base ++ (done ++ [name])) := by
        intro node known plain
        refine ⟨node, known, ?_⟩
        rintro target rfl
        cases plain
      cases known : fs.files.node (base ++ (done ++ [name])) with
      | none => rfl
      | some node =>
          cases node with
          | directory => exact ih (next _ known rfl)
          | other => exact ih (next _ known rfl)
          | blob blob =>
              cases blob with
              | file content => exact ih (next _ known rfl)
              | link target => rfl

/-- A checked target is read as in the repository. -/
theorem readTarget_repository (fs : FileSystem Content) (root relative : List Char) :
    (checkedTarget fs root relative >>= readToString fs) =
      (Feedback.checkedTarget (repository fs root) relative >>=
        Feedback.readToString (repository fs root)) := by
  rw [checkedTarget, Feedback.checkedTarget]
  cases valid : validateRelativePath relative with
  | error error => rfl
  | ok nothing =>
      obtain ⟨names, -, texts, nonempty⟩ := components_canonical (validateRelativePath_eq_ok.mp valid)
      rw [texts]
      cases found : fs.canonicalize root with
      | none =>
          obtain ⟨name, rest, rfl⟩ := List.exists_cons_of_ne_nil nonempty
          have missing : repository fs root ([] ++ [name]) = none := by
            rw [repository, found, Option.bind_none]
          rw [Feedback.checkComponents, missing]
          rfl
      | some base =>
          have settled : fs.Settled (base ++ []) := by
            rw [List.append_nil]
            exact FileSystem.canonicalize_settled found
          have walked := @checkComponents_repository _ fs root relative base [] names found settled
          rw [List.append_nil] at walked
          dsimp only [okOr, bind, Except.bind]
          cases checks : Feedback.checkComponents (repository fs root) relative [] names with
          | error error =>
              rw [checks] at walked
              dsimp only at walked
              rw [walked]
          | ok target =>
              rw [checks] at walked
              dsimp only at walked
              obtain ⟨walked, settled⟩ := walked
              rw [walked]
              dsimp only
              rw [FileSystem.metadata_eq settled, FileSystem.place_eq settled, repository_eq found]
              cases known : fs.files.node (base ++ target) with
              | none => rfl
              | some node =>
                  cases node with
                  | directory => rfl
                  | other => rfl
                  | blob blob =>
                      cases blob with
                      | link target => rfl
                      | file content =>
                          have regular : ensure (isFile (Node.blob (Blob.file content)) = true)
                              (FeedbackError.invalidPath relative) = .ok () := ensure_eq_ok.mpr rfl
                          have regular' : ensure ((entry fs (base ++ target)
                              (.blob (.file content))).isFile = true)
                                (FeedbackError.invalidPath relative) = .ok () := ensure_eq_ok.mpr rfl
                          have inside : ensure (base <+: base ++ target ∧ base ++ target = base ++ target)
                              (FeedbackError.invalidPath relative) = .ok () :=
                            ensure_eq_ok.mpr ⟨List.prefix_append .., rfl⟩
                          dsimp only [Option.map_some]
                          rw [regular, regular', inside]
                          dsimp only [pure, Except.pure]
                          rw [readToString, Feedback.readToString, repository_eq found, known,
                            FileSystem.readToString_file known, Option.map_some, entry]
                          cases (if fs.readable (base ++ target) = true then
                            fs.encoding.decode content else none) <;> rfl

/-- Repairs are prepared on the file system as in the repository. -/
theorem prepareRepair_repository (fs : FileSystem Content) (root : List Char) (feedback : Feedback) :
    prepareRepair fs root feedback = Feedback.prepareRepair (repository fs root) feedback := by
  have load : ∀ (path : List Char) (next : List Char → Except FeedbackError PreparedRepair),
      (checkedTarget fs root path >>= fun target => readToString fs target >>= next) =
        (Feedback.checkedTarget (repository fs root) path >>= fun target =>
          Feedback.readToString (repository fs root) target >>= next) := by
    intro path next
    rw [← bind_assoc, ← bind_assoc, ← readTarget_repository]
  have patch : ∀ suggestion, preparePatch fs root suggestion =
      Feedback.preparePatch (repository fs root) suggestion := by
    intro suggestion
    rw [preparePatch, Feedback.preparePatch]
    simp only [load]
  have inline_ : prepareInline fs root feedback =
      Feedback.prepareInline (repository fs root) feedback := by
    rw [prepareInline, Feedback.prepareInline]
    simp only [load]
  rw [prepareRepair, Feedback.prepareRepair, inline_]
  cases extractExactSuggestion feedback.body with
  | error error => rfl
  | ok suggestion =>
      dsimp only
      rw [patch]

/-! ### The effect -/

/-- The file at the target has the text, and all else is as before. -/
structure Rewritten (fs after : FileSystem Content) (target : List (List Char)) (text : List Char) :
    Prop where
  node : ∀ path, after.files.node path =
    if path = target then some (.blob (.file (fs.encoding.encode text))) else fs.files.node path
  encoding : after.encoding = fs.encoding
  workingDirectory : after.workingDirectory = fs.workingDirectory
  readable : after.readable = fs.readable
  writable : after.writable = fs.writable

theorem rewritten_overwrite {text : List Char} (file : fs.files.isFile target = true) :
    Rewritten fs (fs.overwrite target text file) target text :=
  ⟨FileSystem.node_overwrite file, rfl, rfl, rfl, rfl⟩

/-- What is left of an applied repair: either nothing has changed, or it is complete. -/
theorem applyRepair_cases {prepared : PreparedRepair} {result : Except FeedbackError RepairOutcome}
    (ran : applyRepair fs root prepared = (result, after)) :
    (after = fs ∧ ∃ error, result = .error error) ∨
      (result = .ok ⟨.applied, some prepared.path, true⟩ ∧ ∃ target,
        Target fs root prepared.path target ∧ Rewritten fs after target prepared.repaired) := by
  rw [applyRepair] at ran
  split at ran
  · cases ran
    exact .inl ⟨rfl, _, rfl⟩
  · rename_i target checked
    have given := checkedTarget_ok checked
    split at ran
    · cases ran
      exact .inl ⟨rfl, _, rfl⟩
    · rename_i current read
      split at ran
      · cases ran
        exact .inl ⟨rfl, _, rfl⟩
      · split at ran
        · cases ran
          exact .inl ⟨rfl, _, rfl⟩
        · rename_i written known
          have same := FileSystem.write_eq_some given.file known
          -- The file was just read, so that it can be read back.
          have readable : fs.readable target = true := by
            obtain ⟨content, node⟩ := Files.isFile_iff.mp given.file
            rw [readToString, okOr_eq_ok, FileSystem.readToString_file node] at read
            by_contra hidden
            rw [if_neg hidden] at read
            cases read
          have back : readToString written target = .ok prepared.repaired := by
            rw [readToString, okOr_eq_ok, same]
            exact FileSystem.readToString_overwrite given.file readable
          rw [back] at ran
          dsimp only at ran
          rw [if_neg (by simp)] at ran
          cases ran
          refine .inr ⟨rfl, target, given, ?_⟩
          rw [same]
          exact rewritten_overwrite given.file

theorem repairFeedback_human {allowlist : List String} {feedback : Feedback} {decision : RepairDecision}
    (human : feedback.isAutomation = false ∨ feedback.actorType ≠ "Bot") :
    repairFeedback fs root allowlist feedback decision = (.ok (nonMutating .humanFeedback), fs) := by
  rw [repairFeedback, if_pos human]

/-- The repair of an admitted feedback is previewed or applied when it succeeds. -/
theorem repairFeedback_admitted {allowlist : List String} {feedback : Feedback}
    {decision : RepairDecision} {outcome : RepairOutcome} (automated : feedback.isAutomation = true)
    (bot : feedback.actorType = "Bot") (listed : feedback.actorLogin ∈ allowlist)
    (ran : (repairFeedback fs root allowlist feedback decision).1 = .ok outcome) :
    outcome.disposition = .previewed ∨ outcome.disposition = .applied := by
  rw [repairFeedback, if_neg (by simp [automated, bot]), if_neg (not_not.mpr listed)] at ran
  split at ran
  · cases ran
  · rename_i prepared prepares
    cases decision with
    | preview =>
        cases ran
        exact .inl rfl
    | apply =>
        rcases applyRepair_cases (Prod.ext rfl rfl) with ⟨-, error, failed⟩ | ⟨done, -⟩
        · exact absurd (ran.symm.trans failed) (by simp)
        · have same := Except.ok.inj (ran.symm.trans done)
          exact .inr (by rw [same])

/-- A repair changes nothing, or it was admitted and rewrote one checked file. -/
structure RepairEffect (fs : FileSystem Content) (root : List Char) (allowlist : List String)
    (feedback : Feedback) (decision : RepairDecision) (result : Except FeedbackError RepairOutcome)
    (after : FileSystem Content) : Prop where
  changed : after ≠ fs → decision = .apply ∧ feedback.isAutomation = true ∧
    feedback.actorType = "Bot" ∧ feedback.actorLogin ∈ allowlist ∧
      ∃ outcome, result = .ok outcome ∧ outcome.disposition = .applied
  applied : ∀ outcome, result = .ok outcome → outcome.disposition = .applied →
    ∃ prepared target, prepareRepair fs root feedback = .ok prepared ∧
      outcome.path = some prepared.path ∧ Target fs root prepared.path target ∧
        (∀ first, Above first target → fs.files.node first = some .directory) ∧
          Rewritten fs after target prepared.repaired
  otherwise : (∀ outcome, result = .ok outcome → outcome.disposition ≠ .applied) → after = fs
  eligible : ∀ outcome, result = .ok outcome →
    (outcome.resolutionEligible = true ↔ outcome.disposition = .applied)

theorem RepairEffect.of_unchanged {allowlist : List String} {feedback : Feedback}
    {decision : RepairDecision} {result : Except FeedbackError RepairOutcome}
    (notApplied : ∀ outcome, result = .ok outcome →
      outcome.disposition ≠ .applied ∧ outcome.resolutionEligible = false) :
    RepairEffect fs root allowlist feedback decision result fs where
  changed other := absurd rfl other
  applied outcome known done := absurd done (notApplied outcome known).1
  otherwise _ := rfl
  eligible outcome known := by
    rw [(notApplied outcome known).2]
    simp [(notApplied outcome known).1]

/-- Every repair on every file system touches at most the admitted file. -/
theorem repair_feedback_effect (fs : FileSystem Content) (root : List Char) (allowlist : List String)
    (feedback : Feedback) (decision : RepairDecision) :
    RepairEffect fs root allowlist feedback decision
      (repairFeedback fs root allowlist feedback decision).1
      (repairFeedback fs root allowlist feedback decision).2 := by
  rw [repairFeedback]
  split
  · refine .of_unchanged fun outcome known => ?_
    cases known
    exact ⟨by decide, rfl⟩
  · rename_i automated
    rw [not_or, not_not, Bool.not_eq_false] at automated
    split
    · refine .of_unchanged fun outcome known => ?_
      cases known
      exact ⟨by decide, rfl⟩
    · rename_i listed
      cases prepares : prepareRepair fs root feedback with
      | error error => exact .of_unchanged fun outcome known => by cases known
      | ok prepared =>
          cases decision with
          | preview =>
              refine .of_unchanged fun outcome known => ?_
              cases known
              exact ⟨by simp, rfl⟩
          | apply =>
              obtain ⟨result, after, ran⟩ : ∃ result after,
                  applyRepair fs root prepared = (result, after) := ⟨_, _, rfl⟩
              dsimp only
              rw [ran]
              rcases applyRepair_cases ran with
                ⟨rfl, error, rfl⟩ | ⟨rfl, target, given, rewritten⟩
              · exact .of_unchanged fun outcome known => by cases known
              · constructor
                · exact fun _ => ⟨rfl, automated.1, automated.2, not_not.mp listed, _, rfl, rfl⟩
                · intro outcome known applied
                  cases known
                  exact ⟨prepared, target, prepares, rfl, given, fun first => given.directories,
                    rewritten⟩
                · exact fun none_ => absurd rfl (none_ _ rfl)
                · intro outcome known
                  cases known
                  simp

end Disk

end PiTools.Feedback
