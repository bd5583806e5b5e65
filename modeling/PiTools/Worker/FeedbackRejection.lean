import PiTools.Feedback.Targets
import PiTools.Workspace.Repair

/-
This file says exactly when every failure of a feedback repair is taken for a
rejection, so that the repair is not tried again.
-/

namespace PiTools.Workspace

open Library
open Feedback (CanonicalPath PreparedRepair Unreadable prepareRepair suggestedPath)
open Stack (CommandResult ValidationCommand WorkspaceError)

def isDeterministicFeedbackRejection : WorkspaceError → Bool
  | .feedback error _ => error ≠ .io
  | .repairNotApplied | .validationFailed _ _ => true
  | _ => false

variable {Content : Type}

/-! ### The surroundings -/

/-- Git prints such a name as it is. It quotes all others. -/
def Plain (path : List Char) : Prop := ∀ c ∈ path, ' ' ≤ c ∧ c ≤ '~' ∧ c ≠ '"' ∧ c ≠ '\x5c'

instance (path : List Char) : Decidable (Plain path) := inferInstanceAs (Decidable (∀ c ∈ path, _))

def printedNames (text : String) : List (List Char) := (lines text.toList).filter fun line => line ≠ []

/-- A command did not run, or it failed. -/
def CommandFault : WorkspaceError → Prop
  | .io _ | .command _ | .commandFailed _ _ => True
  | _ => False

/-- Nothing but directories leads to the path, and at most a file stands there. -/
def Writable (files : Files (List Char) Content) (path : Path) : Prop :=
  files.linkAbove path = false ∧ files.blocked path = false ∧
    (files.node path = none ∨ files.isFile path = true)

def rewritten (clone : Clone Content) (path : List Char) (content : Content) : Clone Content :=
  { clone with worktree := clone.worktree.rewrite (spot path) content }

/-- The clone after its file has a new content and was added. -/
def Added (world : CloneWorld Content) (clone : Clone Content) (path : List Char) (content : Content)
    (staged : Clone Content) : Prop :=
  CanonicalPath path ∧ clone.worktree.isFile (spot path) = true ∧
    ∃ index, world.add [String.ofList path] (rewritten clone path content) = .ok index ∧
      staged = { rewritten clone path content with index }

/-- The lease is kept, the remote stays where it is, and nothing fails but for the tree. -/
structure Undisturbed (world : CloneWorld Content) (clone : Clone Content)
    (branch expectedHeadSha : String) : Prop where
  encoding : ∀ content text, world.decode content = some text ↔ world.encode text = content
  lease : ∀ check, world.lease check = .ok ()
  clean : world.status clone = .ok ""
  archive : ∃ files, world.archive clone.head = .ok files ∧
    ∀ path, clone.worktree.isFile path = true → Writable files path
  sandbox : ∀ argv files error, world.runSandboxed argv files = .error error → CommandFault error
  add : ∀ paths staged error, world.add paths staged = .error error → CommandFault error
  unchanged : ∀ paths index, world.add paths clone = .ok index →
    ∀ path, index.blob path = clone.head.blob path
  -- Only the changed file can be staged, and its name is quoted unless it is plain.
  names : ∀ path content staged, Added world clone path content staged →
    ∃ text printed, world.cachedNames staged = .ok text ∧ (printed = path ↔ Plain path) ∧
      (staged.index.blob (spot path) = clone.head.blob (spot path) ∧ printedNames text = [] ∨
        staged.index.blob (spot path) ≠ clone.head.blob (spot path) ∧ printedNames text = [printed])
  settled : ∀ path content staged, Added world clone path content staged →
    staged.index.blob (spot path) ≠ clone.head.blob (spot path) →
      world.cachedSummary staged = .ok "" ∧ world.changedNames staged = .ok "" ∧
        world.untrackedNames staged = .ok "" ∧ world.commit staged = .ok ()
  remote : ensureRemoteHead world branch expectedHeadSha = .ok ()
  push : ∀ tree, world.push tree = .ok ()
  revParse : ∃ text, world.revParse = .ok text

/-! ### The condition -/

section Condition

variable (world : CloneWorld Content) (clone : Clone Content)

/-- Each command runs to a result, up to the first that reports a failure. -/
def Completes : List ValidationCommand → Files (List Char) Content → Prop
  | [], _ => True
  | command :: rest, files => ∃ result after, world.runSandboxed command.argv files = .ok (result, after) ∧
      (result.success = true → Completes rest after)

/-- Each command runs and reports success. -/
def Succeeds : List ValidationCommand → Files (List Char) Content → Prop
  | [], _ => True
  | command :: rest, files => ∃ result after, world.runSandboxed command.argv files = .ok (result, after) ∧
      result.success = true ∧ Succeeds rest after

/-- A prepared repair gets to a commit, or to a command that reports a failure. -/
structure Publishable (commands : List ValidationCommand) (prepared : PreparedRepair) : Prop where
  oneLine : ¬ BreaksLine prepared.path
  configured : commands ≠ []
  added : ∃ staged, Added world clone prepared.path (world.encode prepared.repaired) staged
  completes : ∀ files, world.archive clone.head = .ok files →
    Completes world commands (files.rewrite (spot prepared.path) (world.encode prepared.repaired))
  staged : ∀ files staged, world.archive clone.head = .ok files →
    Added world clone prepared.path (world.encode prepared.repaired) staged →
      Succeeds world commands (files.rewrite (spot prepared.path) (world.encode prepared.repaired)) →
        prepared.repaired ≠ prepared.original ∧ Plain prepared.path ∧
          staged.index.blob (spot prepared.path) ≠ clone.head.blob (spot prepared.path)

/-- The suggested path can be read, and what is prepared there can be published. -/
structure Actionable (feedback : Feedback) (commands : List ValidationCommand) : Prop where
  readable : ∀ path, suggestedPath feedback = some path → CanonicalPath path →
    ¬ Unreadable (repository world clone.worktree) (spot path)
  publishable : ∀ prepared, prepareRepair (repository world clone.worktree) feedback = .ok prepared →
    Publishable world clone commands prepared

end Condition

/-! ### Validation -/

section Steps

variable {world : CloneWorld Content} {clone : Clone Content} {branch expectedHeadSha : String}
  {commands : List ValidationCommand} {files : Files (List Char) Content}

theorem not_rejection {error : WorkspaceError} (fault : CommandFault error) :
    isDeterministicFeedbackRejection error = false := by
  cases error <;> first | rfl | exact fault.elim

/-- The results are accepted when each of them reports success. -/
theorem ensureValidated_cons (result : CommandResult) (results : List CommandResult) :
    ensureValidated (result :: results) =
      if result.success = true then ensureValidated results
      else .error (.validationFailed result.argv result.stderr) := by
  rw [ensureValidated, ensureValidated, List.find?_cons]
  cases result.success <;> rfl

/-- Commands that run to their results are accepted when all succeed. -/
theorem runCommandsSandboxed_completes (completes : Completes world commands files) :
    ∃ results, runCommandsSandboxed world commands files = .ok results ∧
      (Succeeds world commands files ∧ ensureValidated results = .ok () ∨
        ¬ Succeeds world commands files ∧ ∃ argv stderr,
          ensureValidated results = .error (.validationFailed argv stderr)) := by
  induction commands generalizing files with
  | nil => exact ⟨[], rfl, .inl ⟨trivial, rfl⟩⟩
  | cons command rest ih =>
      obtain ⟨result, after, ran, later⟩ := completes
      rw [runCommandsSandboxed, ran]
      cases success : result.success with
      | false =>
          refine ⟨[{ result with argv := command.argv }], ?_, .inr ⟨?_, command.argv, result.stderr, ?_⟩⟩
          · simp [bind, Except.bind, success, pure, Except.pure]
          · rintro ⟨other, _, again, good, -⟩
            rw [ran] at again
            cases again
            rw [success] at good
            cases good
          · rw [ensureValidated_cons]
            simp [success]
      | true =>
          obtain ⟨results, ran', outcome⟩ := ih (later success)
          refine ⟨{ result with argv := command.argv } :: results, ?_, ?_⟩
          · simp [bind, Except.bind, success, ran', pure, Except.pure]
          · have accepted : ensureValidated ({ result with argv := command.argv } :: results) =
                ensureValidated results := by
              rw [ensureValidated_cons]
              simp [success]
            have succeeds : Succeeds world (command :: rest) files ↔ Succeeds world rest after := by
              constructor
              · rintro ⟨other, _, again, -, good⟩
                rw [ran] at again
                cases again
                exact good
              · exact fun good => ⟨result, after, ran, success, good⟩
            rw [accepted, succeeds]
            exact outcome

/-- Commands of which one does not run stop the repair. -/
theorem runCommandsSandboxed_fault
    (faults : ∀ argv files error, world.runSandboxed argv files = .error error → CommandFault error)
    (incomplete : ¬ Completes world commands files) :
    ∃ error, runCommandsSandboxed world commands files = .error error ∧ CommandFault error := by
  induction commands generalizing files with
  | nil => exact absurd trivial incomplete
  | cons command rest ih =>
      rw [runCommandsSandboxed]
      cases ran : world.runSandboxed command.argv files with
      | error error => exact ⟨error, rfl, faults _ _ _ ran⟩
      | ok answer =>
          obtain ⟨result, after⟩ := answer
          have stuck : ¬ (result.success = true → Completes world rest after) :=
            fun completes => incomplete ⟨result, after, ran, completes⟩
          rw [Classical.not_imp] at stuck
          obtain ⟨success, later⟩ := stuck
          obtain ⟨error, failed, fault⟩ := ih later
          refine ⟨error, ?_, fault⟩
          simp [bind, Except.bind, success, failed]

/-! ### Paths -/

/-- The names of a canonical path join to it. -/
theorem spot_canonical {path : List Char} (canonical : CanonicalPath path) :
    path = ['/'].intercalate (spot path) := by
  obtain ⟨names, nonempty, valid, rfl⟩ := canonical
  obtain ⟨-, parts⟩ := Feedback.components_intercalate nonempty valid
  rw [spot, parts, List.map_map]
  congr 1
  exact (List.map_id names).symm

/-! ### The snapshot -/

/-- A file is copied to a place where nothing stands in the way. -/
theorem copyChangedPath_file {source : Files (List Char) Content} {path : String} {content : Content}
    (valid : validateWorkspaceRelativePath path = .ok ())
    (found : source.node (spot path.toList) = some (.blob (.file content)))
    (writable : Writable files (spot path.toList)) :
    copyChangedPath world source files path = .ok (files.rewrite (spot path.toList) content) := by
  obtain ⟨noLink, free, place⟩ := writable
  have probed : symlinkMetadata world source (spot path.toList) = .file content := by
    rw [symlinkMetadata, found]
  have notDirectory : files.node (spot path.toList) ≠ some .directory := by
    rcases place with none' | file
    · rw [none']
      simp
    · exact Files.not_directory_of_isFile file
  simp only [copyChangedPath, valid, probed, bind, Except.bind]
  rw [copyFile, if_neg (by simp [noLink]), if_neg (by simp [free]), Files.rewrite,
    dif_pos notDirectory]
  rcases place with none' | file
  · simp [none']
  · obtain ⟨old, known⟩ := Files.isFile_iff.mp file
    simp [known]

theorem validateWorkspaceRelativePath_canonical {path : List Char} (canonical : CanonicalPath path) :
    validateWorkspaceRelativePath (String.ofList path) = .ok () ↔ ¬ BreaksLine path := by
  have valid : Feedback.validateRelativePath path = .ok () :=
    Feedback.validateRelativePath_eq_ok.mpr canonical
  simp only [Feedback.validateRelativePath, bind_eq_ok, ensure_eq_ok] at valid
  obtain ⟨_, ⟨nonempty, backslash, -⟩, _, ⟨relative, normal⟩, -⟩ := valid
  have visible : String.ofList path ≠ "" := by
    rw [← toList_ne_nil, String.toList_ofList]
    exact nonempty
  rw [validateWorkspaceRelativePath, String.toList_ofList]
  simp only [relative, normal, visible, decide_false, Bool.false_or, Bool.or_false, Bool.not_true]
  constructor
  · intro valid breaks
    rw [if_pos (forbidden_iff.mpr (.inr breaks))] at valid
    cases valid
  · intro oneLine
    rw [if_neg]
    rw [forbidden_iff]
    exact fun forbidden => forbidden.elim backslash oneLine

variable {path : List Char} {content : Content} {staged : Clone Content}

/-- The snapshot is the archive with the new content. -/
theorem prepareValidationSnapshot_added (added : Added world clone path content staged)
    (archived : world.archive clone.head = .ok files) (writable : Writable files (spot path)) :
    (¬ BreaksLine path → prepareValidationSnapshot world staged [String.ofList path] =
        .ok (files.rewrite (spot path) content)) ∧
      (BreaksLine path → ∃ reason, prepareValidationSnapshot world staged [String.ofList path] =
        .error (.invalidInput reason)) := by
  obtain ⟨canonical, file, index, -, rfl⟩ := added
  have valid := validateWorkspaceRelativePath_canonical canonical
  have found : (rewritten clone path content).worktree.node (spot (String.ofList path).toList) =
      some (.blob (.file content)) := by
    rw [rewritten, String.toList_ofList, Files.node_rewrite file, if_pos rfl]
  have read : world.archive (rewritten clone path content).head = .ok files := archived
  simp only [prepareValidationSnapshot, read, bind, Except.bind]
  constructor
  · intro oneLine
    have copied := @copyChangedPath_file _ world files _ _ _ (valid.mpr oneLine) found
      (by rwa [String.toList_ofList])
    rw [String.toList_ofList] at copied
    simp [List.foldlM_cons, copied, bind, Except.bind, pure, Except.pure]
  · intro breaks
    have refused : validateWorkspaceRelativePath (String.ofList path) = .error
        (.invalidInput ("invalid repository-relative path: " ++ String.ofList path)) := by
      have invalid := mt valid.mp (not_not.mpr breaks)
      rw [validateWorkspaceRelativePath] at invalid ⊢
      split
      · rfl
      · rename_i passed
        rw [if_neg passed] at invalid
        exact absurd rfl invalid
    refine ⟨"invalid repository-relative path: " ++ String.ofList path, ?_⟩
    simp [List.foldlM_cons, copyChangedPath, refused, bind, Except.bind]

/-- What is staged is the path itself when its name is plain and git recorded a change. -/
theorem ensureStagedPaths_added (undisturbed : Undisturbed world clone branch expectedHeadSha)
    (added : Added world clone path content staged) (oneLine : ¬ BreaksLine path) :
    (Plain path ∧ staged.index.blob (spot path) ≠ clone.head.blob (spot path) →
        ensureStagedPaths world staged [String.ofList path] = .ok ()) ∧
      (¬ (Plain path ∧ staged.index.blob (spot path) ≠ clone.head.blob (spot path)) →
        ∃ expected observed, ensureStagedPaths world staged [String.ofList path] =
          .error (.unexpectedStagedPaths expected observed)) := by
  have valid : validateWorkspacePaths [String.ofList path] = .ok () := by
    simp [validateWorkspacePaths, (validateWorkspaceRelativePath_canonical added.1).mpr oneLine, bind,
      Except.bind]
  obtain ⟨text, printed, listed, plain, names⟩ := undisturbed.names path content staged added
  have settled := undisturbed.settled path content staged added
  simp only [ensureStagedPaths, listed, validateStagedPaths, valid, bind, Except.bind]
  rw [printedNames] at names
  constructor
  · rintro ⟨good, changed⟩
    obtain ⟨summary, unstaged, untracked, -⟩ := settled changed
    obtain ⟨same, -⟩ | ⟨-, only⟩ := names
    · exact absurd same changed
    · rw [plain.mpr good] at only
      rw [only, summary, unstaged, untracked, List.map_singleton]
      have summarized : validateStagedDiffSummary "" = .ok () := by decide
      have nothing : blank [] = true := by decide
      simp [ensure, summarized, nothing]
  · intro bad
    have other : ¬ ([String.ofList path] ⊆ ((lines text.toList).filter fun line => line ≠ []).map
          String.ofList ∧
        ((lines text.toList).filter fun line => line ≠ []).map String.ofList ⊆ [String.ofList path]) := by
      rintro ⟨expected, -⟩
      obtain ⟨line, member, same⟩ := List.mem_map.mp (expected (List.mem_singleton_self _))
      rcases names with ⟨-, none'⟩ | ⟨changed, only⟩
      · rw [none'] at member
        cases member
      · rw [only, List.mem_singleton] at member
        have printedPath : printed = path := by
          rw [← member, ← String.toList_ofList (l := line), same, String.toList_ofList]
        exact bad ⟨plain.mp printedPath, changed⟩
    exact ⟨_, _, by rw [ensure, if_neg other]⟩

/-! ### The publication -/

/-- After the snapshot the results, the staged paths and the commit decide. -/
theorem publish_added (undisturbed : Undisturbed world clone branch expectedHeadSha)
    (added : Added world clone path content staged) (archived : world.archive clone.head = .ok files)
    (writable : Writable files (spot path)) (oneLine : ¬ BreaksLine path) (configured : commands ≠ []) :
    publish world (rewritten clone path content) [String.ofList path] branch expectedHeadSha commands =
      (do
        let validation ← runCommandsSandboxed world commands (files.rewrite (spot path) content)
        ensureValidated validation
        ensureStagedPaths world staged [String.ofList path]
        world.commit staged
        pure ⟨staged.index, files.rewrite (spot path) content, validation⟩) := by
  have copied := (prepareValidationSnapshot_added added archived writable).1 oneLine
  obtain ⟨-, -, index, add, rfl⟩ := added
  simp only [publish, undisturbed.lease, add, copied, undisturbed.remote,
    runValidationCommandsSandboxed, if_neg configured, bind, Except.bind]

/-- A repair that can be published fails at most by its validation. -/
theorem publish_publishable {prepared : PreparedRepair}
    (undisturbed : Undisturbed world clone branch expectedHeadSha)
    (publishable : Publishable world clone commands prepared) :
    (∃ publication, publish world (rewritten clone prepared.path (world.encode prepared.repaired))
        [String.ofList prepared.path] branch expectedHeadSha commands = .ok publication) ∨
      ∃ argv stderr, publish world (rewritten clone prepared.path (world.encode prepared.repaired))
        [String.ofList prepared.path] branch expectedHeadSha commands =
            .error (.validationFailed argv stderr) := by
  obtain ⟨staged, added⟩ := publishable.added
  obtain ⟨files, archived, places⟩ := undisturbed.archive
  rw [publish_added undisturbed added archived (places _ added.2.1) publishable.oneLine
    publishable.configured]
  obtain ⟨results, ran, ⟨succeeds, validated⟩ | ⟨-, argv, stderr, failed⟩⟩ :=
    runCommandsSandboxed_completes (publishable.completes files archived)
  · left
    obtain ⟨-, plain, recorded⟩ := publishable.staged files staged archived added succeeds
    have ensured := (ensureStagedPaths_added undisturbed added publishable.oneLine).1 ⟨plain, recorded⟩
    obtain ⟨-, -, -, committed⟩ := undisturbed.settled _ _ _ added recorded
    exact ⟨⟨staged.index, files.rewrite (spot prepared.path) (world.encode prepared.repaired), results⟩,
      by simp [ran, validated, ensured, committed, bind, Except.bind, pure, Except.pure]⟩
  · right
    exact ⟨argv, stderr, by simp [ran, failed, bind, Except.bind]⟩

/-- What was added is a change of the text. -/
theorem changed_of_recorded {old : Content} {original repaired : List Char}
    (undisturbed : Undisturbed world clone branch expectedHeadSha)
    (found : clone.worktree.node (spot path) = some (.blob (.file old)))
    (decoded : world.decode old = some original)
    (added : Added world clone path (world.encode repaired) staged)
    (recorded : staged.index.blob (spot path) ≠ clone.head.blob (spot path)) :
    repaired ≠ original := by
  rintro rfl
  have kept : world.encode repaired = old := (undisturbed.encoding old repaired).mp decoded
  obtain ⟨-, -, index, add, rfl⟩ := added
  rw [rewritten, kept, Files.rewrite_self found] at add
  exact recorded (undisturbed.unchanged _ index add _)

/-- A repair that cannot be published fails in a way that is no rejection. -/
theorem publish_unpublishable {prepared : PreparedRepair} {old : Content}
    (undisturbed : Undisturbed world clone branch expectedHeadSha)
    (canonical : CanonicalPath prepared.path)
    (found : clone.worktree.node (spot prepared.path) = some (.blob (.file old)))
    (decoded : world.decode old = some prepared.original)
    (unpublishable : ¬ Publishable world clone commands prepared) :
    ∃ error, publish world (rewritten clone prepared.path (world.encode prepared.repaired))
        [String.ofList prepared.path] branch expectedHeadSha commands = .error error ∧
      isDeterministicFeedbackRejection error = false := by
  have file : clone.worktree.isFile (spot prepared.path) = true := Files.isFile_iff.mpr ⟨old, found⟩
  obtain ⟨files, archived, places⟩ := undisturbed.archive
  have writable := places _ file
  cases add : world.add [String.ofList prepared.path]
      (rewritten clone prepared.path (world.encode prepared.repaired)) with
  | error error =>
      refine ⟨error, ?_, not_rejection (undisturbed.add _ _ _ add)⟩
      simp [publish, undisturbed.lease, add, bind, Except.bind]
  | ok index =>
      have added : Added world clone prepared.path (world.encode prepared.repaired)
          { rewritten clone prepared.path (world.encode prepared.repaired) with index } :=
        ⟨canonical, file, index, add, rfl⟩
      have snapshot := prepareValidationSnapshot_added added archived writable
      by_cases breaks : BreaksLine prepared.path
      · obtain ⟨reason, refused⟩ := snapshot.2 breaks
        refine ⟨.invalidInput reason, ?_, rfl⟩
        simp [publish, undisturbed.lease, add, refused, bind, Except.bind]
      by_cases none' : commands = []
      · refine ⟨.command "no validation commands were configured", ?_, rfl⟩
        simp [publish, undisturbed.lease, add, snapshot.1 breaks, none', runValidationCommandsSandboxed,
          bind, Except.bind]
      rw [publish_added undisturbed added archived writable breaks none']
      by_cases completes : Completes world commands
          (files.rewrite (spot prepared.path) (world.encode prepared.repaired))
      · -- Only the staged paths are left to fail.
        have late : ¬ (Succeeds world commands
            (files.rewrite (spot prepared.path) (world.encode prepared.repaired)) →
              Plain prepared.path ∧ index.blob (spot prepared.path) ≠
                clone.head.blob (spot prepared.path)) := by
          intro good
          apply unpublishable
          refine ⟨breaks, none', ⟨_, added⟩, ?_, ?_⟩
          · intro other archived'
            rw [archived] at archived'
            cases archived'
            exact completes
          · intro other staged archived' added' succeeds
            rw [archived] at archived'
            cases archived'
            obtain ⟨-, -, index', add', rfl⟩ := added'
            rw [add] at add'
            cases add'
            obtain ⟨plain, recorded⟩ := good succeeds
            exact ⟨changed_of_recorded undisturbed found decoded added recorded, plain, recorded⟩
        rw [Classical.not_imp] at late
        obtain ⟨succeeds, bad⟩ := late
        obtain ⟨results, ran, ⟨-, validated⟩ | ⟨fails, -⟩⟩ := runCommandsSandboxed_completes completes
        · obtain ⟨expected, observed, refused⟩ := (ensureStagedPaths_added undisturbed added breaks).2 bad
          refine ⟨.unexpectedStagedPaths expected observed, ?_, rfl⟩
          simp [ran, validated, refused, bind, Except.bind]
        · exact absurd succeeds fails
      · obtain ⟨error, failed, fault⟩ := runCommandsSandboxed_fault undisturbed.sandbox completes
        exact ⟨error, by simp [failed, bind, Except.bind], not_rejection fault⟩

/-! ### The repair -/

/-- The target of a prepared repair is a file with the text that was read. -/
theorem prepareRepair_found {feedback : Feedback} {prepared : PreparedRepair}
    (prepares : prepareRepair (repository world files) feedback = .ok prepared) :
    Feedback.checkedTarget (repository world files) prepared.path = .ok (spot prepared.path) ∧
      CanonicalPath prepared.path ∧
        ∃ old, files.node (spot prepared.path) = some (.blob (.file old)) ∧
          world.decode old = some prepared.original := by
  obtain ⟨target, checked, read⟩ := Feedback.prepareRepair_read prepares
  obtain ⟨canonical, rfl, -, text, found⟩ := Feedback.checkedTarget_ok checked
  refine ⟨checked, canonical, ?_⟩
  rw [Feedback.readToString, found] at read
  rw [repository, Option.map_eq_some_iff] at found
  obtain ⟨node, known, same⟩ := found
  cases node with
  | directory => cases same
  | other => cases same
  | blob blob =>
      cases blob with
      | link target => cases same
      | file old =>
          cases same
          refine ⟨old, known, ?_⟩
          cases decoded : world.decode old with
          | none =>
              rw [decoded] at read
              cases read
          | some text =>
              rw [decoded] at read
              cases read
              rfl

/-- A prepared repair is written. -/
theorem writeRepair_prepared {feedback : Feedback} {prepared : PreparedRepair}
    (encoding : ∀ content text, world.decode content = some text ↔ world.encode text = content)
    (prepares : prepareRepair (repository world files) feedback = .ok prepared) :
    writeRepair world files prepared =
      .ok (files.rewrite (spot prepared.path) (world.encode prepared.repaired)) := by
  obtain ⟨checked, -, old, found, decoded⟩ := prepareRepair_found prepares
  have file : files.isFile (spot prepared.path) = true := Files.isFile_iff.mpr ⟨old, found⟩
  have notDirectory := Files.not_directory_of_isFile file
  have read : Feedback.readToString (repository world files) (spot prepared.path) =
      .ok prepared.original := by
    rw [Feedback.readToString, repository, found, Option.map_some]
    dsimp only
    rw [decoded]
  have readback : Feedback.readToString (repository world (files.write (spot prepared.path)
      (world.encode prepared.repaired) notDirectory)) (spot prepared.path) = .ok prepared.repaired := by
    rw [Feedback.readToString, repository, Files.node_write_file file, if_pos rfl, Option.map_some]
    dsimp only
    rw [(encoding _ _).mpr rfl]
  simp [writeRepair, checked, read, readback, notDirectory, Files.rewrite, ensure, bind, Except.bind,
    pure, Except.pure]

variable {actorAllowlist : List String} {feedback : Feedback}

/-- The feedback of a configured automation. -/
structure Configured (actorAllowlist : List String) (feedback : Feedback) : Prop where
  automation : feedback.isAutomation = true
  bot : feedback.actorType = "Bot"
  listed : feedback.actorLogin ∈ actorAllowlist

theorem applyFeedback_unprepared {error : Feedback.FeedbackError}
    (undisturbed : Undisturbed world clone branch expectedHeadSha)
    (configured : Configured actorAllowlist feedback)
    (prepares : prepareRepair (repository world clone.worktree) feedback = .error error) :
    applyFeedback world clone actorAllowlist feedback branch expectedHeadSha commands =
      .error (.feedback error (feedbackErrorText world error)) := by
  have nothing : blank [] = true := by decide
  simp [applyFeedback, feedbackPublication, ensureClean, undisturbed.clean, undisturbed.lease,
    repairFeedback, configured.automation, configured.bot, configured.listed, prepares, nothing, ensure,
    bind, Except.bind]

theorem applyFeedback_prepared {prepared : PreparedRepair}
    (undisturbed : Undisturbed world clone branch expectedHeadSha)
    (configured : Configured actorAllowlist feedback)
    (prepares : prepareRepair (repository world clone.worktree) feedback = .ok prepared)
    {error : WorkspaceError} :
    applyFeedback world clone actorAllowlist feedback branch expectedHeadSha commands = .error error ↔
      publish world (rewritten clone prepared.path (world.encode prepared.repaired))
        [String.ofList prepared.path] branch expectedHeadSha commands = .error error := by
  have nothing : blank [] = true := by decide
  obtain ⟨commit, parsed⟩ := undisturbed.revParse
  have written := writeRepair_prepared undisturbed.encoding prepares
  have repaired : repairFeedback world clone.worktree actorAllowlist feedback =
      .ok (clone.worktree.rewrite (spot prepared.path) (world.encode prepared.repaired),
        prepared.path) := by
    simp [repairFeedback, configured.automation, configured.bot, configured.listed, prepares, written]
  have ran : applyFeedback world clone actorAllowlist feedback branch expectedHeadSha commands =
      (publish world (rewritten clone prepared.path (world.encode prepared.repaired))
        [String.ofList prepared.path] branch expectedHeadSha commands).map fun _ =>
          ⟨String.ofList (trim commit.toList), prepared.path⟩ := by
    rw [rewritten]
    simp only [applyFeedback, feedbackPublication, ensureClean, undisturbed.clean, undisturbed.lease,
      repaired, ensure, bind, Except.bind]
    cases publish world _ _ _ _ _ with
    | error error => simp [nothing, Except.map]
    | ok publication =>
        simp [nothing, undisturbed.push, parsed, Except.map, pure, Except.pure]
  rw [ran]
  cases publish world _ _ _ _ _ <;> simp [Except.map]

end Steps

/-! ### A suggestion that changes nothing -/

/-- A clone of one file. -/
def noteClone : Clone (List Char) where
  head := (Files.single "note".toList "old\n".toList).tree
  index := (Files.single "note".toList "old\n".toList).tree
  worktree := Files.single "note".toList "old\n".toList

/-- Everyone answers that all is well. -/
def quietWorld : CloneWorld (List Char) where
  decode := some
  encode := id
  ioReason := ""
  lease _ := .ok ()
  status _ := .ok ""
  checkPatch _ _ := .ok (.ok ())
  applyPatch _ files := .ok (.ok files)
  add _ clone := .ok clone.worktree.tree
  archive _ := .ok noteClone.worktree
  probeLinked _ _ := .missing
  copyLinked files _ _ := .ok files
  removeLinked files _ := .ok files
  runSandboxed argv files := .ok (⟨argv, true, "", ""⟩, files)
  cachedNames clone := .ok
    (if clone.index.blob ["note".toList] = clone.head.blob ["note".toList] then "" else "note")
  cachedSummary _ := .ok ""
  changedNames _ := .ok ""
  untrackedNames _ := .ok ""
  remoteHead _ := .ok ⟨[], true, "0123456 refs/heads/fix", ""⟩
  commit _ := .ok ()
  push _ := .ok ()
  revParse := .ok "89abcdef"

theorem noteClone_isFile {path : Path} (file : noteClone.worktree.isFile path = true) :
    path = ["note".toList] := by
  obtain ⟨content, known⟩ := Files.isFile_iff.mp file
  have recorded : noteClone.worktree.blob path = some (.file content) := Files.blob_eq_some.mpr known
  rw [noteClone, Files.blob_single] at recorded
  by_contra other
  rw [if_neg other] at recorded
  cases recorded

theorem quiet_undisturbed : Undisturbed quietWorld noteClone "fix" "0123456" where
  encoding content text := by
    constructor
    · intro decoded
      exact Option.some.inj decoded.symm
    · rintro rfl
      rfl
  lease _ := rfl
  clean := rfl
  archive := by
    refine ⟨noteClone.worktree, rfl, fun path file => ?_⟩
    have same := noteClone_isFile file
    subst same
    exact ⟨by decide, by decide, .inr file⟩
  sandbox := by
    intro argv files error failed
    cases failed
  add := by
    intro paths staged error failed
    cases failed
  unchanged := by
    intro paths index added path
    cases added
    rfl
  names := by
    rintro path content staged ⟨canonical, file, index, added, rfl⟩
    have only : spot path = ["note".toList] := noteClone_isFile file
    have named : path = "note".toList := by
      rw [spot_canonical canonical, only]
      rfl
    refine ⟨_, "note".toList, rfl, ⟨fun _ => by rw [named]; decide, fun _ => named.symm⟩, ?_⟩
    rw [only]
    dsimp only
    split
    · rename_i same
      exact .inl ⟨same, by decide⟩
    · rename_i other
      exact .inr ⟨other, by decide⟩
  settled := by
    rintro path content staged - -
    exact ⟨rfl, rfl, rfl, rfl⟩
  remote := by decide +kernel
  push _ := rfl
  revParse := ⟨_, rfl⟩

/-- A suggestion of the line that stands there already. -/
def idleSuggestion : Feedback where
  actorLogin := "review-app[bot]"
  actorType := "Bot"
  isAutomation := true
  body := "```suggestion\nold\n```".toList
  path := some "note".toList
  startLine := none
  line := some 1

end PiTools.Workspace
