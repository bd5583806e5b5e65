import PiTools.Stack.Execution
import PiTools.Worker.Errors
import PiTools.Worker.FinalSummary

/-
This file shows with which errors and results of an executor a run is closed.
-/

namespace PiTools.Executor

open Library
open Stack (StackReport StackWorld StackEntry StackPullRequest RebasePolicy RebaseStep StackProgress
  BaseUpdate GitHubPullRequest)

/-! ### Results -/

inductive FeedbackTarget
  | reviewComment (commentId : Int) (threadId : String)
  | pullRequestConversation
  deriving DecidableEq, Repr

/-- A report that a stack rebase returns. -/
def Reported (report : StackReport) : Prop :=
  ∃ world repository policy fromValue plan log,
    (Stack.stackRebase world repository policy fromValue plan log).1 = .ok report

/-- What an executor returns when its job does not wait. -/
inductive Success
  | skippedFeedback
  | skippedStack
  | skippedCi
  | rejected (target : FeedbackTarget)
  | applied (target : FeedbackTarget) (path commit : String)
  | diagnosed (result : PiJobResult)
  | repaired (paths : List String) (commit : String) (result : PiJobResult)
  | rebased (report : StackReport) (reported : Reported report)

def skippedItemResult (item : String) : Json :=
  sortedObject [("completed", .bool true), ("changes", stringsValue ["skipped " ++ item ++ " as requested"]),
    ("tests", .array []), ("remaining_blockers", .array [])]

def rejectedChange : FeedbackTarget → String
  | .reviewComment _ _ => "rejected automated feedback after deterministic validation"
  | .pullRequestConversation => "rejected automated feedback and posted a PR-level outcome comment"

def appliedChange (path : String) : FeedbackTarget → String
  | .reviewComment _ _ => "applied automated feedback to " ++ path
  | .pullRequestConversation =>
      "applied automated feedback to " ++ path ++ " and posted a PR-level outcome comment"

def repairedChange (path : String) : String := "applied typed CI repair to " ++ path

def baseUpdateValue (update : BaseUpdate) : Json :=
  sortedObject [("pull_request", .ofInt update.pullRequest),
    ("from_branch", .string update.fromBranch), ("to_branch", .string update.toBranch)]

def reportValue (report : StackReport) : Json :=
  sortedObject [("completed", .bool report.completed), ("changes", stringsValue report.changes),
    ("tests", stringsValue report.tests),
    ("remaining_blockers", stringsValue report.remainingBlockers),
    ("merge_order", .array (report.mergeOrder.map .ofInt)),
    ("required_base_updates", .array (report.requiredBaseUpdates.map baseUpdateValue))]

def passedTests : List String := ["configured validation commands passed before push"]

def Success.toValue : Success → Json
  | .skippedFeedback => sortedObject [("completed", .bool true),
      ("changes", stringsValue ["skipped all planned feedback items"]), ("tests", .array []),
      ("remaining_blockers", .array [])]
  | .skippedStack => skippedItemResult "stack rebase"
  | .skippedCi => skippedItemResult "CI repair"
  | .rejected target => sortedObject [("completed", .bool true),
      ("changes", stringsValue [rejectedChange target]), ("tests", .array []),
      ("remaining_blockers", stringsValue
        ["human follow-up remains required for the rejected automation suggestion"]),
      ("feedback_disposition", .string "rejected"), ("resolution_eligible", .bool false)]
  | .applied target path commit => sortedObject [("completed", .bool true),
      ("changes", stringsValue [appliedChange path target]), ("tests", stringsValue passedTests),
      ("commit", .string commit), ("resolution_eligible", .bool true)]
  | .diagnosed result => noPatchResult result
  | .repaired paths commit result => sortedObject [("completed", .bool true),
      ("changes", stringsValue (paths.map repairedChange)), ("tests", stringsValue passedTests),
      ("commit", .string commit), ("diagnosis", .string result.diagnosis),
      ("confidence", .number result.confidence)]
  | .rebased report _ => reportValue report

/-! ### Closing -/

def resultLines (value : Json) (field : String) : List String :=
  (((value.get field).bind Json.asArray).getD []).filterMap Json.asStr

-- The parameter tells the characters that the debug format does not show.
variable (hidden : Char → Bool)

/-- The summary that the worker builds before it finishes a run. -/
def closingSummary (jobId : BitVec 128) : Except WorkerError Success →
    Except ContractError FinalSummary
  | .ok success => FinalSummary.new (uuidText jobId.toNat)
      (resultLines success.toValue "changes") (resultLines success.toValue "tests")
      (resultLines success.toValue "remaining_blockers")
  | .error error => FinalSummary.new (uuidText jobId.toNat) [] [] [error.text hidden]

/-- The summary is built and rendered, so the run is finished. -/
def Closes (jobId : BitVec 128) (outcome : Except WorkerError Success) : Prop :=
  ∃ summary body, closingSummary hidden jobId outcome = .ok summary ∧ summary.render = .ok body

/-! ### Lines of the results -/

theorem resultLines_strings {value : Json} {field : String} {texts : List String}
    (found : value.get field = some (stringsValue texts)) : resultLines value field = texts := by
  rw [resultLines, found]
  simp [stringsValue, Json.asArray, List.filterMap_map, Function.comp_def, Json.asStr]

theorem resultLines_none {value : Json} {field : String} (absent : value.get field = none) :
    resultLines value field = [] := by
  rw [resultLines, absent]
  rfl

def Success.changes : Success → List String
  | .skippedFeedback => ["skipped all planned feedback items"]
  | .skippedStack => ["skipped stack rebase as requested"]
  | .skippedCi => ["skipped CI repair as requested"]
  | .rejected target => [rejectedChange target]
  | .applied target path _ => [appliedChange path target]
  | .diagnosed _ => ["received a bounded CI diagnosis"]
  | .repaired paths _ _ => paths.map repairedChange
  | .rebased report _ => report.changes

def Success.tests : Success → List String
  | .applied _ _ _ | .repaired _ _ _ => passedTests
  | .rebased report _ => report.tests
  | _ => []

def Success.remainingBlockers : Success → List String
  | .rejected _ => ["human follow-up remains required for the rejected automation suggestion"]
  | .diagnosed _ => ["Pi did not return a typed patch; no CI mutation was attempted"]
  | .rebased report _ => report.remainingBlockers
  | _ => []

theorem changes_lines (success : Success) :
    resultLines success.toValue "changes" = success.changes := by
  apply resultLines_strings
  cases success <;> exact get_sortedObject _ _

theorem tests_lines (success : Success) : resultLines success.toValue "tests" = success.tests := by
  apply resultLines_strings
  cases success <;> exact get_sortedObject _ _

theorem blockers_lines (success : Success) :
    resultLines success.toValue "remaining_blockers" = success.remainingBlockers := by
  cases success with
  | applied target path commit => exact resultLines_none (get_sortedObject _ _)
  | repaired paths commit result => exact resultLines_none (get_sortedObject _ _)
  | _ => exact resultLines_strings (get_sortedObject _ _)

/-! ### Lines of the reports -/

section Reports

variable {world : StackWorld} {repository : RepositoryContext} {policy : RebasePolicy}

abbrev Visible (value : String) : Prop := blank value.toList = false

/-- The line that a step leaves in the report. -/
def stepLine : RebaseStep → String
  | .changed change => change
  | .blocked blocker => blocker

theorem named_visible (number : Int) (rest : String) : Visible (Stack.named number ++ rest) :=
  blank_append (blank_append (by decide))

theorem rebaseStep_visible {branch target : String}
    {outcome : Except Stack.WorkspaceError Stack.RebaseCommit} {step : RebaseStep}
    (taken : Stack.rebaseStep branch target outcome = .ok step) : Visible (stepLine step) := by
  unfold Stack.rebaseStep at taken
  split at taken
  · split at taken
    · cases taken
      exact blank_append (blank_append (blank_append (by decide)))
    · cases taken
      exact blank_append (blank_append (blank_append (blank_append (blank_append (by decide)))))
  · cases taken
    exact blank_append (blank_append (blank_append (blank_append (by decide))))
  · cases taken

theorem checkCurrent_visible {stackPlan : Stack.StackPlan} {number : Int}
    {pullRequest : StackPullRequest} {target blocker : String} {current : Stack.GitHubPullRequest}
    (blocked : Stack.checkCurrent repository stackPlan number pullRequest target current =
      .ok (.error blocker)) : Visible blocker := by
  unfold Stack.checkCurrent at blocked
  split at blocked
  · cases blocked
    exact named_visible _ _
  · split at blocked
    · cases blocked
      exact named_visible _ _
    · split at blocked
      · cases blocked
      · split at blocked
        · cases blocked
          exact blank_append (blank_append (blank_append (named_visible _ _)))
        · split at blocked
          · cases blocked
          · dsimp only at blocked
            split at blocked
            · cases blocked
              exact blank_append (blank_append (blank_append (named_visible _ _)))
            · cases blocked

theorem rebasePullRequest_visible (stackPlan : Stack.StackPlan) (number : Int)
    (pullRequest : StackPullRequest) (target : String) : Yields (fun step => Visible (stepLine step))
      (Stack.rebasePullRequest world repository policy stackPlan number pullRequest target) := by
  refine Yields.bind (Yields.any _) fun current _ => ?_
  have checked : Yields (fun found => ∀ blocker, found = .error blocker → Visible blocker)
      (Logged.settled (Stack.checkCurrent repository stackPlan number pullRequest target current) :
        Logged StackEntry Stack.WorkerError _) := by
    refine Yields.settled fun found same blocker failed => ?_
    rw [failed] at same
    exact checkCurrent_visible same
  refine Yields.bind checked fun found visible => ?_
  cases found with
  | error blocker => exact Yields.pure (visible blocker rfl)
  | ok branch =>
      refine Yields.bind (Yields.any _) fun _ _ => ?_
      refine Yields.bind (Yields.any _) fun outcome _ => ?_
      refine Yields.bind (Yields.any _) fun _ _ => ?_
      exact Yields.settled fun step taken => rebaseStep_visible taken

/-- The lines of the loop over the stack, and its one blocker at most. -/
structure ProgressVisible (progress : StackProgress) : Prop where
  changes : ∀ line ∈ progress.changes, Visible line
  blockers : ∀ line ∈ progress.blockers, Visible line
  single : progress.blockers.length ≤ 1

theorem rebaseStack_visible {numbered : Entries Int StackPullRequest} {stackPlan : Stack.StackPlan}
    (numbers : List Int) (parent : Option Int) : Yields ProgressVisible
      (Stack.rebaseStack world repository policy numbered stackPlan parent numbers) := by
  induction numbers generalizing parent with
  | nil => exact Yields.pure ⟨by simp, by simp, by simp⟩
  | cons number rest ih =>
      refine Yields.bind (Yields.any _) fun pullRequest _ => ?_
      refine Yields.bind (Yields.any _) fun target _ => ?_
      refine Yields.bind (rebasePullRequest_visible stackPlan number pullRequest target)
        fun step visible => ?_
      cases step with
      | blocked blocker =>
          exact Yields.pure ⟨by simp, List.forall_mem_singleton.mpr visible, by simp⟩
      | changed change =>
          refine Yields.bind (ih (some number)) fun progress later => ?_
          exact Yields.pure ⟨List.forall_mem_cons.mpr ⟨visible, later.changes⟩, later.blockers,
            later.single⟩

theorem publishUpdates_visible (updates : List BaseUpdate) :
    Yields (fun lines => ∀ line ∈ lines, Visible line) (Stack.publishUpdates world updates) := by
  induction updates with
  | nil => exact Yields.pure (by simp)
  | cons update rest ih =>
      refine Yields.bind (Yields.any _) fun _ _ => ?_
      refine Yields.bind (Yields.any _) fun updated _ => ?_
      refine Yields.bind (Yields.any _) fun _ _ => ?_
      refine Yields.bind ih fun others later => ?_
      exact Yields.pure (List.forall_mem_cons.mpr
        ⟨blank_append (blank_append (blank_append (blank_append (blank_append (by decide))))), later⟩)

/-- The lines of a report are visible, and it has one blocker at most. -/
structure ReportVisible (report : StackReport) : Prop where
  changes : ∀ line ∈ report.changes, Visible line
  tests : report.tests =
    ["GitHub confirmed stack bases; branch rebases used exact remote-head leases"]
  blockers : ∀ line ∈ report.remainingBlockers, Visible line
  single : report.remainingBlockers.length ≤ 1

theorem reported_visible {report : StackReport} (reported : Reported report) :
    ReportVisible report := by
  obtain ⟨world, repository, policy, fromValue, plan, log, returned⟩ := reported
  have prepares (pullRequests : List StackPullRequest) (stackPlan : Stack.StackPlan) :
      Yields (fun prepared => ProgressVisible prepared.2)
        (Stack.prepareStack world repository policy pullRequests stackPlan) := by
    refine Yields.bind (Yields.any _) fun pendingUpdates _ => ?_
    exact Yields.bind (rebaseStack_visible _ _) fun progress visible => Yields.pure visible
  have yields : Yields ReportVisible
      (Stack.stackRebase world repository policy fromValue plan) := by
    refine Yields.bind (Yields.any _) fun stored _ => ?_
    refine Yields.bind (prepares stored.1 stored.2) fun prepared visible => ?_
    refine Yields.bind (publishUpdates_visible _) fun updates later => ?_
    refine Yields.pure ⟨?_, rfl, visible.blockers, visible.single⟩
    intro line member
    rcases List.mem_cons.mp member with rfl | member
    · exact (by decide : Visible "computed a deterministic base-most to tip-most stack order")
    · exact (List.mem_append.mp member).elim (visible.changes line) (later line)
  exact yields log report returned

end Reports

/-! ### Runs that close -/

/-- What the paths and branches of a result need. The numbers leave room for the fixed lines. -/
def Success.Fits : Success → Prop
  | .applied target path _ => LineFits (appliedChange path target)
  | .repaired paths _ _ => paths.length ≤ maxItems ∧
      (∀ path ∈ paths, LineFits (repairedChange path)) ∧
        sectionBytes (paths.map repairedChange) ≤ 59796
  | .rebased report _ => report.changes.length ≤ maxItems ∧
      (∀ line ∈ report.changes ++ report.remainingBlockers, LineFits line) ∧
        sectionBytes report.changes + sectionBytes report.remainingBlockers ≤ 59779
  | _ => True

/-- What the text of an error needs, or the lines of a result. -/
def Closable : Except WorkerError Success → Prop
  | .ok success => success.Fits
  | .error error => LineFits (error.text hidden)

theorem byteLength_uuidText (jobId : BitVec 128) : byteLength (uuidText jobId.toNat).toList = 36 := by
  have single : ∀ c ∈ hexDashes, c.utf8Size = 1 := by decide
  have inside := uuidText_hexDashes jobId.toNat
  rw [← uuidText_length jobId.isLt]
  generalize (uuidText jobId.toNat).toList = text at inside
  induction text with
  | nil => rfl
  | cons c rest ih =>
      obtain ⟨here, later⟩ := List.forall_mem_cons.mp inside
      rw [byteLength_cons, single c here, ih later, List.length_cons, Nat.add_comm]

theorem validateIdentifier_uuid (field : String) (jobId : BitVec 128) :
    validateIdentifier field (uuidText jobId.toNat) = .ok () := by
  have plain : ∀ c ∈ hexDashes, identifierChar c = true := by decide
  rw [validateIdentifier, ensure_eq_ok, byteLength_uuidText]
  exact ⟨uuidText_ne_empty _, by decide,
    List.all_eq_true.mpr fun c member => plain c (uuidText_hexDashes _ c member)⟩

/-- The summary of visible lines is built and rendered when the lines fit, are few and leave room. -/
theorem closes_lines {jobId : BitVec 128} {changes tests blockers : List String}
    (visible : ∀ line ∈ changes ++ tests ++ blockers, Visible line) :
    (∃ summary body, FinalSummary.new (uuidText jobId.toNat) changes tests blockers = .ok summary ∧
      summary.render = .ok body) ↔
      (changes.length ≤ maxItems ∧ tests.length ≤ maxItems ∧ blockers.length ≤ maxItems) ∧
        (∀ line ∈ changes ++ tests ++ blockers, LineFits line) ∧
          sectionBytes changes + sectionBytes tests + sectionBytes blockers ≤ 59856 := by
  simp only [List.forall_mem_append] at visible ⊢
  obtain ⟨⟨seenChanges, seenTests⟩, seenBlockers⟩ := visible
  simp only [FinalSummary.new, bind_eq_ok, pure_eq_ok, validateIdentifier_uuid, true_and,
    collectSafeLines_iff seenChanges, collectSafeLines_iff seenTests,
    collectSafeLines_iff seenBlockers]
  constructor
  · rintro ⟨_, body, ⟨_, _, ⟨rfl, few, fit⟩, _, ⟨rfl, few', fit'⟩, _, ⟨rfl, few'', fit''⟩, rfl⟩, rendered⟩
    have room := FinalSummary.render_iff.mp ⟨body, rendered⟩
    rw [byteLength_uuidText, maxGitHubMarkdownBytes] at room
    dsimp only at room
    exact ⟨⟨few, few', few''⟩, ⟨⟨fit, fit'⟩, fit''⟩, by omega⟩
  · rintro ⟨⟨few, few', few''⟩, ⟨⟨fit, fit'⟩, fit''⟩, room⟩
    have rendered : ∃ body, (FinalSummary.mk (uuidText jobId.toNat) changes tests blockers).render =
        .ok body := by
      rw [FinalSummary.render_iff, byteLength_uuidText, maxGitHubMarkdownBytes]
      dsimp only
      omega
    obtain ⟨body, rendered⟩ := rendered
    exact ⟨_, body, ⟨(), changes, ⟨rfl, few, fit⟩, tests, ⟨rfl, few', fit'⟩, blockers,
      ⟨rfl, few'', fit''⟩, rfl⟩, rendered⟩

/-- One line always leaves room. -/
theorem sectionBytes_single {line : String} (fits : LineFits line) : sectionBytes [line] ≤ 5003 := by
  have escaped := escapeMarkdown_bytes line.toList
  have short := fits.short
  rw [maxTextBytes] at short
  rw [sectionBytes, if_neg (by simp), List.map_singleton, List.sum_singleton]
  omega

theorem changes_visible (success : Success) : ∀ line ∈ success.changes, Visible line := by
  cases success with
  | rejected target =>
      cases target with
      | reviewComment commentId threadId =>
          exact List.forall_mem_singleton.mpr
            (by decide : Visible "rejected automated feedback after deterministic validation")
      | pullRequestConversation => exact List.forall_mem_singleton.mpr (by decide)
  | applied target path commit =>
      cases target with
      | reviewComment commentId threadId =>
          exact List.forall_mem_singleton.mpr (blank_append (by decide))
      | pullRequestConversation =>
          exact List.forall_mem_singleton.mpr (blank_append (blank_append (by decide)))
  | repaired paths commit result =>
      exact List.forall_mem_map.mpr fun path _ => blank_append (by decide)
  | rebased report reported => exact (reported_visible reported).changes
  | _ => exact List.forall_mem_singleton.mpr (by decide)

/-- The tests are fixed lines that fit. -/
theorem tests_fit (success : Success) : success.tests.length ≤ 1 ∧
    ∀ line ∈ success.tests, Visible line ∧ LineFits line := by
  cases success with
  | applied target path commit =>
      exact ⟨Nat.le_refl 1, List.forall_mem_singleton.mpr (by decide +kernel)⟩
  | repaired paths commit result =>
      exact ⟨Nat.le_refl 1, List.forall_mem_singleton.mpr (by decide +kernel)⟩
  | rebased report reported =>
      change report.tests.length ≤ 1 ∧ ∀ line ∈ report.tests, Visible line ∧ LineFits line
      rw [(reported_visible reported).tests]
      exact ⟨Nat.le_refl 1, List.forall_mem_singleton.mpr (by decide +kernel)⟩
  | _ => exact ⟨Nat.zero_le 1, by simp [Success.tests]⟩

theorem blockers_visible (success : Success) : success.remainingBlockers.length ≤ 1 ∧
    ∀ line ∈ success.remainingBlockers, Visible line := by
  cases success with
  | rejected target => exact ⟨Nat.le_refl 1, List.forall_mem_singleton.mpr (by decide)⟩
  | diagnosed result => exact ⟨Nat.le_refl 1, List.forall_mem_singleton.mpr (by decide)⟩
  | rebased report reported =>
      exact ⟨(reported_visible reported).single, (reported_visible reported).blockers⟩
  | _ => exact ⟨Nat.zero_le 1, by simp [Success.remainingBlockers]⟩

theorem closes_success {jobId : BitVec 128} {success : Success} :
    Closes hidden jobId (.ok success) ↔ success.changes.length ≤ maxItems ∧
      (∀ line ∈ success.changes ++ success.remainingBlockers, LineFits line) ∧
        sectionBytes success.changes + sectionBytes success.tests +
          sectionBytes success.remainingBlockers ≤ 59856 := by
  have tests := tests_fit success
  have blockers := blockers_visible success
  have visible : ∀ line ∈ success.changes ++ success.tests ++ success.remainingBlockers,
      Visible line := by
    simp only [List.forall_mem_append]
    exact ⟨⟨changes_visible success, fun line member => (tests.2 line member).1⟩, blockers.2⟩
  have limit : maxItems = 100 := rfl
  have few : success.tests.length ≤ maxItems ∧ success.remainingBlockers.length ≤ maxItems := by
    omega
  rw [Closes, closingSummary, changes_lines, tests_lines, blockers_lines, closes_lines visible]
  simp only [List.forall_mem_append, few, and_true]
  constructor
  · rintro ⟨few, ⟨⟨changes, -⟩, others⟩, room⟩
    exact ⟨few, ⟨changes, others⟩, room⟩
  · rintro ⟨few, ⟨changes, others⟩, room⟩
    exact ⟨few, ⟨⟨changes, fun line member => (tests.2 line member).2⟩, others⟩, room⟩

/-- A short section of lines that fit leaves room. -/
theorem sectionBytes_short {lines : List String} (few : lines.length ≤ 1)
    (fit : ∀ line ∈ lines, LineFits line) : sectionBytes lines ≤ 5003 := by
  match lines with
  | [] => decide
  | [line] => exact sectionBytes_single (fit line (List.mem_cons_self ..))
  | _ :: _ :: _ => simp at few

/-- A result with one change at most closes its run when its lines fit. -/
theorem closes_short {jobId : BitVec 128} (success : Success)
    (few : success.changes.length ≤ 1) : Closes hidden jobId (.ok success) ↔
      ∀ line ∈ success.changes ++ success.remainingBlockers, LineFits line := by
  have limit : maxItems = 100 := rfl
  have tests := tests_fit success
  have blockers := blockers_visible success
  rw [closes_success]
  constructor
  · intro closes
    exact closes.2.1
  · intro fit
    obtain ⟨changes, others⟩ := List.forall_mem_append.mp fit
    have first := sectionBytes_short few changes
    have second := sectionBytes_short tests.1 fun line member => (tests.2 line member).2
    have third := sectionBytes_short blockers.1 others
    exact ⟨by omega, fit, by omega⟩

theorem closes_error {jobId : BitVec 128} {error : WorkerError} :
    Closes hidden jobId (.error error) ↔ LineFits (error.text hidden) := by
  have visible : ∀ line ∈ [] ++ [] ++ [error.text hidden], Visible line := by
    simpa using error.text_visible hidden
  rw [Closes, closingSummary, closes_lines visible]
  simp only [List.append_nil, List.nil_append, List.forall_mem_singleton]
  constructor
  · intro closes
    exact closes.2.1
  · intro fits
    have room := sectionBytes_single fits
    have none : sectionBytes [] = 8 := rfl
    exact ⟨⟨Nat.zero_le _, Nat.zero_le _, (by decide : 1 ≤ maxItems)⟩, fits, by omega⟩

/-- A run is closed exactly when the text of its error fits a summary, or the lines of its result
that come from paths and branches do. -/
theorem run_closes_iff (jobId : BitVec 128) (outcome : Except WorkerError Success) :
    Closes hidden jobId outcome ↔ Closable hidden outcome := by
  cases outcome with
  | error error => exact closes_error hidden
  | ok success =>
      cases success with
      | applied target path commit =>
          refine (closes_short hidden (.applied target path commit) (Nat.le_refl 1)).trans ?_
          exact List.forall_mem_singleton
      | repaired paths commit result =>
          rw [closes_success]
          have tests : sectionBytes passedTests = 52 := by decide +kernel
          have none : sectionBytes [] = 8 := rfl
          simp only [Success.changes, Success.tests, Success.remainingBlockers, tests, none,
            List.append_nil, List.length_map, List.forall_mem_map, Closable, Success.Fits]
          exact and_congr_right fun _ => and_congr_right fun _ => by omega
      | rebased report reported =>
          have tests : sectionBytes report.tests = 77 := by
            rw [(reported_visible reported).tests]
            decide +kernel
          rw [closes_success]
          simp only [Success.changes, Success.tests, Success.remainingBlockers, tests, Closable,
            Success.Fits]
          exact and_congr_right fun _ => and_congr_right fun _ => by omega
      | rejected target =>
          refine (closes_short hidden (.rejected target) (Nat.le_refl 1)).trans ?_
          refine iff_of_true ?_ trivial
          cases target with
          | reviewComment commentId threadId =>
              exact (by decide +kernel : ∀ line ∈
                ["rejected automated feedback after deterministic validation",
                  "human follow-up remains required for the rejected automation suggestion"],
                LineFits line)
          | pullRequestConversation => decide +kernel
      | diagnosed result =>
          refine (closes_short hidden (.diagnosed result) (Nat.le_refl 1)).trans ?_
          refine iff_of_true ?_ trivial
          exact (by decide +kernel : ∀ line ∈ ["received a bounded CI diagnosis",
            "Pi did not return a typed patch; no CI mutation was attempted"], LineFits line)
      | skippedFeedback =>
          refine (closes_short hidden .skippedFeedback (Nat.le_refl 1)).trans ?_
          exact iff_of_true (by decide +kernel) trivial
      | skippedStack =>
          refine (closes_short hidden .skippedStack (Nat.le_refl 1)).trans ?_
          exact iff_of_true (by decide +kernel) trivial
      | skippedCi =>
          refine (closes_short hidden .skippedCi (Nat.le_refl 1)).trans ?_
          exact iff_of_true (by decide +kernel) trivial

/-- The progress of a failed rebase returns to the start of its line. -/
def conflictError : WorkerError :=
  .workspace (.rebaseConflict "feature" "main"
    "Rebasing (1/1)\rerror: could not apply 1234567... change")

theorem conflict_stays_open : ¬ Closes (fun _ => false) 7 (.error conflictError) := by
  rw [closes_error]
  decide +kernel

end PiTools.Executor
